import OnDemandVirt.Ahci.Command

/-!
# Starting a slot

The total of a guest's scatter list is counted in 32 bits. Where the buffers have `2 ^ 32` bytes or
more, what is left of the total decides how much is allocated, and a total of 0 is written to the
shadow entry as 4 MiB (`shadowCount_eq`). What `ahci_cmd_start` does with a slot is
`ahciCmdStartSlot_eq_ok`, and which commands the prehook takes is `Accepts`.
-/

namespace OnDemandVirt.Ahci

open Lib Storage Ata

/-! ### Counting -/

theorem byteCount_even (dbc : BitVec 22) : byteCount dbc % 2 = 0 := by
  have hmask : (dbc &&& 0x3FFFFE : BitVec 22).toNat % 2 = 0 := by
    have hbit := Nat.and_mod_two_pow (a := dbc.toNat) (b := 0x3FFFFE) (n := 1)
    rwa [show (0x3FFFFE : Nat) % 2 ^ 1 = 0 from rfl, Nat.and_zero] at hbit
  rw [byteCount]
  omega

/-- The shadow entry for a total: it encodes the length less one, and 0 as the largest. -/
theorem shadowCount_eq {t : BitVec 32} (heven : t.toNat % 2 = 0) (hle : t.toNat ≤ maxTotalsize) :
    (((t - 2) ||| 1).setWidth 22).toNat + 1 = if t = 0 then maxTotalsize else t.toNat := by
  have hodd : (t - 2) &&& 1 = 0 := by
    apply BitVec.eq_of_toNat_eq
    have hsub : (t - 2).toNat % 2 = 0 := by bv_omega
    rw [BitVec.toNat_and]
    exact (Nat.and_one_is_mod _).trans hsub
  rw [← BitVec.add_eq_or_of_and_eq_zero _ _ hodd, BitVec.toNat_setWidth]
  split
  · next h =>
    subst h
    rfl
  · next h =>
    have hne : t.toNat ≠ 0 := fun h0 => h (BitVec.eq_of_toNat_eq h0)
    have hpred : (t - 2 + 1).toNat = t.toNat - 1 := by bv_omega
    have hmax : t.toNat ≤ 4194304 := hle
    rw [hpred]
    omega

theorem totalLen_even (prdt : List Prd) : totalLen prdt % 2 = 0 := by
  induction prdt with
  | nil => rfl
  | cons prd prdt ih =>
    have hlen : prd.len % 2 = 0 := byteCount_even prd.dbc
    rw [totalLen, buffers, List.map_cons, ScatterList.len_cons, Nat.add_mod, hlen]
    rw [totalLen, buffers] at ih
    rw [ih]

@[simp] theorem entries_zero (prdt : Nat → Prd) : entries prdt 0 = [] := rfl

theorem totalLen_pos (prdt : Nat → Prd) {prdtl : BitVec 16} (h : prdtl ≠ 0) :
    0 < totalLen (entries prdt prdtl) := by
  obtain ⟨n, hn⟩ := Nat.exists_eq_succ_of_ne_zero fun h0 => h (BitVec.eq_of_toNat_eq h0)
  have hcons : totalLen (entries prdt prdtl) = (prdt 0).len +
      totalLen ((List.map Nat.succ (List.range n)).map prdt) := by
    rw [entries, hn, List.range_succ_eq_map]
    exact ScatterList.len_cons _ _ _
  have hlen : 2 ≤ (prdt 0).len := Nat.le_add_left _ _
  omega

theorem totalLen_const (prd : Prd) (prdtl : BitVec 16) :
    totalLen (entries (fun _ => prd) prdtl) = prdtl.toNat * prd.len := by
  rw [totalLen, buffers, entries, List.map_const', List.map_replicate, ScatterList.len,
    List.map_replicate, List.sum_replicate_nat, List.length_range]

theorem ahciGetDmalen_fst (prdt : List Prd) :
    (ahciGetDmalen prdt).1 = BitVec.ofNat 32 (totalLen prdt) := by
  have hloop : ∀ (prdt : List Prd) (total : BitVec 32) (intr : Bool),
      (prdt.foldl (fun (x : BitVec 32 × Bool) prd =>
        (x.1 + BitVec.ofNat 32 prd.len, x.2 || prd.i)) (total, intr)).1 =
        total + BitVec.ofNat 32 (totalLen prdt) := by
    intro prdt
    induction prdt with
    | nil => simp [totalLen, buffers]
    | cons prd prdt ih =>
      intro total intr
      rw [List.foldl_cons, ih, totalLen, totalLen, buffers, buffers, List.map_cons,
        ScatterList.len_cons, BitVec.ofNat_add, BitVec.add_assoc]
  exact (hloop prdt 0 false).trans (BitVec.zero_add _)

theorem copyFromGuest_eq (mem : ByteMem) (prdt : List Prd) (remain : Nat) :
    copyFromGuest mem prdt remain =
      if totalLen prdt = remain then .ok ((buffers prdt).gather mem) else .error .assertion := by
  induction prdt generalizing remain with
  | nil =>
    rw [copyFromGuest]
    simp only [totalLen, buffers, List.map_nil, ScatterList.len_nil, eq_comm (a := remain)]
    rfl
  | cons prd prdt ih =>
    have hlen : totalLen (prd :: prdt) = prd.len + totalLen prdt := ScatterList.len_cons _ _ _
    rw [copyFromGuest, ih, hlen]
    by_cases hle : prd.len ≤ remain
    · rw [if_pos hle]
      by_cases heq : totalLen prdt = remain - prd.len
      · rw [if_pos heq, if_pos (by omega)]
        rfl
      · rw [if_neg heq, if_neg (by omega)]
        rfl
    · rw [if_neg hle, if_neg (by omega)]

/-! ### The commands that are taken -/

/-- A FIS that reads or writes sectors. -/
def CmdFis.IsRw (cfis : CmdFis) : Prop :=
  (ataGetCmdType cfis.command).cls ∈ [.pio, .dma, .ncq]

/-- A FIS that has a handler of its own, or one that lets it through. -/
def CmdFis.Handled (cfis : CmdFis) : Prop :=
  (ataGetCmdType cfis.command).cls ∉ [.invalid, .dmq, .packet, .service]

/-- The address of a read or write command: of 28 or of 48 bits. -/
def CmdFis.lba (cfis : CmdFis) : Lba :=
  let type := ataGetCmdType cfis.command
  if type.cls = .ncq ∨ type.ext then cfis.lba48 else cfis.lba28

/-- A command that `ahci_cmd_prehook` takes, with a buffer of `len` bytes. -/
def Accepts (device : PortDevice) (stale : PacketDevice) (hdr : CommandHeader) (cfis : CmdFis)
    (acmd : Nat → BitVec 8) (len : Nat) : Prop :=
  let type := ataGetCmdType cfis.command
  let packet := packetHandleCommand stale acmd
  cfis.fisType = 0x27 ∧
    if hdr.a then
      type.cls = .packet ∧
        (packet.kind = .command → len = packet.sectorCount.toNat * packet.sectorSize % 2 ^ 32)
    else
      cfis.Handled ∧
        (cfis.IsRw → cfis.devHead &&& 0x40 ≠ 0 ∧ len % 512 = 0 ∧ hdr.w = (type.rw == .write) ∧
          device.atapi = false)

theorem assert_bind_eq_ok {α : Type} {b : Bool} {k : Unit → Except Fault α} {a : α} :
    (assert b >>= k) = .ok a ↔ b = true ∧ k () = .ok a := by
  rw [assert_bind]
  cases b <;> simp

theorem bind_eq_ok {α β : Type} {x : Except Fault α} {k : α → Except Fault β} {b : β} :
    (x >>= k) = .ok b ↔ ∃ a, x = .ok a ∧ k a = .ok b := by
  cases x with
  | error f => simp [bind, Except.bind]
  | ok a => simp [bind, Except.bind]

theorem rwInfo_eq_ok {len nsec : Nat} {w : Bool} {cfis : CmdFis} {rw' : Rw} {lba : Lba}
    {info : DmabufInfo} : rwInfo len w cfis rw' lba nsec = .ok info ↔
      cfis.devHead &&& 0x40 ≠ 0 ∧ len % 512 = 0 ∧ w = (rw' == .write) ∧
        info = ⟨lba, len / 512, 512, true, .none⟩ := by
  have hnsec : (if len / 512 ≠ nsec then len / 512 else nsec) = len / 512 := by
    split
    · rfl
    · next h => exact (not_not.mp h).symm
  simp only [rwInfo, assert_bind_eq_ok, hnsec, decide_eq_true_eq, beq_iff_eq, Except.ok.injEq,
    eq_comm (a := info)]

theorem ahciHandleCmd_rw_eq_ok {len : Nat} {w : Bool} {old info : DmabufInfo} {cfis : CmdFis}
    (h : cfis.IsRw) : ahciHandleCmd len w old cfis (ataGetCmdType cfis.command) = .ok info ↔
      cfis.devHead &&& 0x40 ≠ 0 ∧ len % 512 = 0 ∧
        w = ((ataGetCmdType cfis.command).rw == .write) ∧
        info = ⟨cfis.lba, len / 512, 512, true, .none⟩ := by
  rw [CmdFis.lba]
  generalize hty : ataGetCmdType cfis.command = type at h ⊢
  simp only [CmdFis.IsRw, hty, List.mem_cons, List.not_mem_nil, or_false] at h
  rcases h with hcls | hcls | hcls
  · cases hext : type.ext <;>
      simp [ahciHandleCmd, hcls, ahciHandleCmdRwDma, hext, rwInfo_eq_ok]
  · cases hext : type.ext <;>
      simp [ahciHandleCmd, hcls, ahciHandleCmdRwDma, hext, rwInfo_eq_ok]
  · simp [ahciHandleCmd, hcls, ahciHandleCmdRwNcq, rwInfo_eq_ok]

/-- A command that reads and writes no sectors is not looked at. -/
theorem ahciHandleCmd_through {len : Nat} {w : Bool} {old : DmabufInfo} {cfis : CmdFis}
    (h : ¬cfis.IsRw) :
    (cfis.Handled → ∃ info, info.rwflag = false ∧
      ahciHandleCmd len w old cfis (ataGetCmdType cfis.command) = .ok info) ∧
    (¬cfis.Handled → ahciHandleCmd len w old cfis (ataGetCmdType cfis.command) = .error .panic) := by
  rw [CmdFis.IsRw] at h
  rw [CmdFis.Handled, ahciHandleCmd]
  cases hcls : (ataGetCmdType cfis.command).cls <;> simp [hcls] at h ⊢

theorem packetHandleCommand_sectorSize {stale : PacketDevice} {acmd : Nat → BitVec 8}
    (h : (packetHandleCommand stale acmd).kind = .command) :
    (packetHandleCommand stale acmd).sectorSize = 2048 := by
  have hconf : ∀ rw', packetType (acmd 0) = (.confData, rw') → acmd 0 = 0x5C := by
    intro rw' hty
    rw [packetType] at hty
    split at hty <;> try cases hty
    next hcode => exact BitVec.eq_of_toNat_eq hcode
  unfold packetHandleCommand at h ⊢
  generalize packetType (acmd 0) = type at hconf h ⊢
  obtain ⟨cls, rw'⟩ := type
  cases cls with
  | through | invalid | nondata => cases h
  | confData =>
    rw [hconf rw' rfl] at h
    cases h
  | readData | writeData => rfl

theorem ahciHandlePacket_eq_ok {len : Nat} {old info : DmabufInfo} {stale : PacketDevice}
    {acmd : Nat → BitVec 8} (h : ahciHandlePacket len old stale acmd = .ok info) :
    ((packetHandleCommand stale acmd).kind = .command → len =
      (packetHandleCommand stale acmd).sectorCount.toNat *
        (packetHandleCommand stale acmd).sectorSize % 2 ^ 32) ∧
      (info.rwflag → info.ssiz = 2048) := by
  rw [ahciHandlePacket] at h
  by_cases hkind : (packetHandleCommand stale acmd).kind = .command
  · rw [if_pos hkind] at h
    split at h
    · cases h
    · next hlen =>
      cases h
      exact ⟨fun _ => not_not.mp hlen, fun _ => packetHandleCommand_sectorSize hkind⟩
  · rw [if_neg hkind] at h
    cases h
    exact ⟨fun hk => absurd hk hkind, fun hflag => by cases hflag⟩

/-- A command that passes the checks of the prehook. -/
theorem commandInfo_eq_ok {device : PortDevice} {stale : PacketDevice} {slot : Slot}
    {info : DmabufInfo} (h : commandInfo device stale slot = .ok info) :
    Accepts device stale slot.hdr slot.cfis slot.acmd slot.dmabuflen ∧
      (info.rwflag → aesBlkBytes ∣ info.ssiz) := by
  rw [commandInfo, assert_bind_eq_ok, beq_iff_eq] at h
  obtain ⟨hfis, h⟩ := h
  rw [Accepts]
  by_cases ha : slot.hdr.a
  · rw [if_pos ha, assert_bind_eq_ok, beq_iff_eq] at h
    obtain ⟨hlen, hssiz⟩ := ahciHandlePacket_eq_ok h.2
    rw [if_pos ha]
    exact ⟨⟨hfis, h.1, hlen⟩, fun hflag => hssiz hflag ▸ by decide⟩
  · rw [if_neg ha, bind_eq_ok] at h
    obtain ⟨info', hcmd, h⟩ := h
    obtain ⟨hatapi, h⟩ := assert_bind_eq_ok.1 h
    cases h
    rw [if_neg ha]
    by_cases hrw : slot.cfis.IsRw
    · have hhandled : slot.cfis.Handled := by
        rw [CmdFis.IsRw] at hrw
        rw [CmdFis.Handled]
        revert hrw
        cases (ataGetCmdType slot.cfis.command).cls <;> decide
      obtain ⟨hlba, hlen, hw, rfl⟩ := (ahciHandleCmd_rw_eq_ok hrw).mp hcmd
      exact ⟨⟨hfis, hhandled, fun _ => ⟨hlba, hlen, hw, by simpa using hatapi⟩⟩,
        fun _ => (by decide : aesBlkBytes ∣ 512)⟩
    · obtain ⟨hthrough, hpanic⟩ := ahciHandleCmd_through (w := slot.hdr.w)
        hrw
      by_cases hhandled : slot.cfis.Handled
      · obtain ⟨info', hflag, hok⟩ := hthrough hhandled
        rw [hok] at hcmd
        cases hcmd
        exact ⟨⟨hfis, hhandled, fun h => absurd h hrw⟩, fun h => by rw [hflag] at h; cases h⟩
      · rw [hpanic hhandled] at hcmd
        cases hcmd

/-- The checks of the prehook pass. -/
theorem exists_commandInfo {device : PortDevice} {stale : PacketDevice} {slot : Slot}
    (h : Accepts device stale slot.hdr slot.cfis slot.acmd slot.dmabuflen) :
    ∃ info, commandInfo device stale slot = .ok info := by
  obtain ⟨hfis, h⟩ := h
  simp only [commandInfo, assert_bind_eq_ok, beq_iff_eq]
  by_cases ha : slot.hdr.a
  · rw [if_pos ha] at h
    simp only [if_pos ha, assert_bind_eq_ok, beq_iff_eq]
    by_cases hkind : (packetHandleCommand stale slot.acmd).kind = .command
    · exact ⟨_, hfis, h.1, by
        rw [ahciHandlePacket, if_pos hkind, if_neg (not_not.mpr (h.2 hkind))]⟩
    · exact ⟨_, hfis, h.1, by rw [ahciHandlePacket, if_neg hkind]⟩
  · rw [if_neg ha] at h
    simp only [if_neg ha, bind_eq_ok]
    obtain ⟨hhandled, hrw⟩ := h
    by_cases hisrw : slot.cfis.IsRw
    · obtain ⟨hlba, hlen, hw, hatapi⟩ := hrw hisrw
      exact ⟨_, hfis, _, (ahciHandleCmd_rw_eq_ok hisrw).mpr ⟨hlba, hlen, hw, rfl⟩,
        (), by rw [hatapi]; rfl, rfl⟩
    · obtain ⟨info, hflag, hok⟩ := (ahciHandleCmd_through hisrw).1 hhandled
      exact ⟨info, hfis, info, hok, (), by rw [hflag]; rfl, rfl⟩

/-! ### The hooks -/

theorem handleBuffer_ok (device : PortDevice) (rw' : Rw) {info : DmabufInfo}
    (h : aesBlkBytes ∣ info.ssiz) (buf : List (BitVec 8)) :
    ∃ buf', handleBuffer device rw' info buf = .ok buf' ∧ buf'.length = buf.length := by
  obtain ⟨mem, hmem⟩ := @storageHandleSectors_inPlace device.storageDevice
    ⟨info.lba, info.nsec, info.ssiz, rw'⟩ h 0 (ByteMem.write (fun _ => 0) 0 buf)
  exact ⟨_, by rw [handleBuffer, hmem], ByteMem.length_read _ _ _⟩

theorem ahciCmdPrehook_eq_ok {device : PortDevice} {stale : PacketDevice} {slot slot' : Slot}
    {buf : List (BitVec 8)} (h : ahciCmdPrehook device stale slot buf = .ok slot') :
    Accepts device stale slot.hdr slot.cfis slot.acmd slot.dmabuflen ∧
      ∃ info buf', buf'.length = buf.length ∧ (info.rwflag → aesBlkBytes ∣ info.ssiz) ∧
        slot' = { slot with info := info, dmabuf := some buf' } := by
  rw [ahciCmdPrehook, bind_eq_ok] at h
  obtain ⟨info, hinfo, h⟩ := h
  obtain ⟨hacc, hblocks⟩ := commandInfo_eq_ok hinfo
  obtain ⟨buf', hbuf, h⟩ := bind_eq_ok.1 h
  cases h
  refine ⟨hacc, info, buf', ?_, hblocks, rfl⟩
  by_cases hw : info.rwflag && slot.hdr.w
  · obtain ⟨hflag, -⟩ := Bool.and_eq_true_iff.mp hw
    obtain ⟨buf'', hok, hlen⟩ := handleBuffer_ok device .write (hblocks hflag) buf
    rw [if_pos hw, hok] at hbuf
    cases hbuf
    exact hlen
  · rw [if_neg hw] at hbuf
    cases hbuf
    rfl

theorem exists_ahciCmdPrehook {device : PortDevice} {stale : PacketDevice} {slot : Slot}
    (buf : List (BitVec 8))
    (h : Accepts device stale slot.hdr slot.cfis slot.acmd slot.dmabuflen) :
    ∃ slot', ahciCmdPrehook device stale slot buf = .ok slot' := by
  obtain ⟨info, hinfo⟩ := exists_commandInfo h
  simp only [ahciCmdPrehook, bind_eq_ok]
  by_cases hw : info.rwflag && slot.hdr.w
  · obtain ⟨hflag, -⟩ := Bool.and_eq_true_iff.mp hw
    obtain ⟨buf', hok, -⟩ := handleBuffer_ok device .write ((commandInfo_eq_ok hinfo).2 hflag) buf
    exact ⟨_, info, hinfo, buf', by rw [if_pos hw, hok], rfl⟩
  · exact ⟨_, info, hinfo, buf, by rw [if_neg hw], rfl⟩

/-! ### Starting a slot -/

/-- The shadow length of a slot: what the device is told. -/
def Slot.shadowLen (slot : Slot) : Nat := if slot.hdr.prdtl = 0 then 0 else slot.dbc.toNat + 1

/-- The size of the shadow buffer. -/
def Slot.bufferLen (slot : Slot) : Nat := (slot.dmabuf.map List.length).getD 0

namespace StartReading

variable (r : StartReading)

/-- The total in 32 bits. -/
def totalsize : Nat := totalLen r.prdt % 2 ^ 32

theorem toNat_ahciGetDmalen : (ahciGetDmalen r.prdt).1.toNat = r.totalsize := by
  rw [ahciGetDmalen_fst, BitVec.toNat_ofNat, totalsize]

theorem totalsize_even : r.totalsize % 2 = 0 := by
  have := totalLen_even r.prdt
  rw [totalsize]
  omega

/-- A write copies as many bytes as it has counted. -/
def Counts : Prop := r.hdr.w → totalLen (entries r.table.prdt r.hdr.prdtl) = r.totalsize

theorem exists_filled_iff (mem : ByteMem) :
    (∃ buf, r.filled mem r.totalsize = .ok buf) ↔ r.Counts := by
  rw [filled, Counts]
  by_cases hw : r.hdr.w
  · rw [if_pos hw, copyFromGuest_eq]
    split
    · next h => exact ⟨fun _ _ => h, fun _ => ⟨_, rfl⟩⟩
    · next h => exact ⟨fun ⟨_, he⟩ => (by cases he), fun hc => absurd (hc hw) h⟩
  · rw [if_neg hw]
    exact ⟨fun _ h => absurd h hw, fun _ => ⟨_, rfl⟩⟩

theorem length_filled {mem : ByteMem} {buf : List (BitVec 8)}
    (h : r.filled mem r.totalsize = .ok buf) : buf.length = r.totalsize := by
  rw [filled] at h
  split at h
  · rw [copyFromGuest_eq] at h
    split at h
    · next hlen =>
      cases h
      rw [ScatterList.length_gather, ← hlen]
    · cases h
  · cases h
    exact ByteMem.length_read _ _ _

end StartReading

variable {device : PortDevice} {r : StartReading} {mem : ByteMem} {slot slot' : Slot}

/-- The slot that the prehook gets. -/
def Slot.prepared (slot : Slot) (r : StartReading) : Slot :=
  slot.allocated r (ahciGetDmalen r.prdt).1 (ahciGetDmalen r.prdt).2

@[simp] theorem dmabuflen_prepared : (slot.prepared r).dmabuflen = r.totalsize :=
  r.toNat_ahciGetDmalen

theorem ahciCmdStartSlot_eq_ok :
    ahciCmdStartSlot device r mem slot = .ok slot' ↔ slot.dmabuf = none ∧
      (r.hdr.prdtl = 0 ∧ slot' = { slot with hdr := r.hdr } ∨
        r.hdr.prdtl ≠ 0 ∧ r.totalsize ≤ maxTotalsize ∧
          ∃ buf, r.filled mem r.totalsize = .ok buf ∧
            ahciCmdPrehook device r.stale (slot.prepared r) buf = .ok slot') := by
  rw [ahciCmdStartSlot]
  by_cases hprdtl : r.hdr.prdtl = 0
  · rw [if_neg (not_not.mpr hprdtl), assert_bind_eq_ok, Option.isNone_iff_eq_none]
    simp only [Except.ok.injEq, hprdtl, true_and, ne_eq, not_true, false_and, or_false,
      eq_comm (a := slot')]
  · simp only [ne_eq, hprdtl, not_false_eq_true, if_true, assert_bind_eq_ok, decide_eq_true_eq,
      r.toNat_ahciGetDmalen, false_and, false_or, true_and]
    cases hbuf : slot.dmabuf with
    | some buf => simp
    | none =>
      simp only [Option.isSome_none, Bool.false_eq_true, if_false, bind_eq_ok, true_and]
      exact Iff.rfl

/-- When a slot is started. -/
theorem exists_ahciCmdStartSlot (hprdtl : r.hdr.prdtl ≠ 0) (hfree : slot.dmabuf = none)
    (hmax : r.totalsize ≤ maxTotalsize) (hcounts : r.Counts)
    (hacc : Accepts device r.stale r.hdr r.table.cfis r.table.acmd r.totalsize) :
    ∃ slot', ahciCmdStartSlot device r mem slot = .ok slot' := by
  obtain ⟨buf, hbuf⟩ := (r.exists_filled_iff mem).mpr hcounts
  have hacc' : Accepts device r.stale (slot.prepared r).hdr (slot.prepared r).cfis
      (slot.prepared r).acmd (slot.prepared r).dmabuflen := by
    rw [dmabuflen_prepared]
    exact hacc
  obtain ⟨slot', hslot⟩ := exists_ahciCmdPrehook buf hacc'
  exact ⟨slot', ahciCmdStartSlot_eq_ok.2 ⟨hfree, .inr ⟨hprdtl, hmax, buf, hbuf, hslot⟩⟩⟩

/-- What a slot with data is like after it has been started. -/
theorem started_lengths (h : ahciCmdStartSlot device r mem slot = .ok slot')
    (hprdtl : r.hdr.prdtl ≠ 0) :
    slot'.bufferLen = r.totalsize ∧
      slot'.shadowLen = if r.totalsize = 0 then maxTotalsize else r.totalsize := by
  obtain ⟨-, ⟨h0, -⟩ | ⟨-, hmax, buf, hbuf, hhook⟩⟩ := ahciCmdStartSlot_eq_ok.1 h
  · exact absurd h0 hprdtl
  · obtain ⟨-, info, buf', hlen, -, rfl⟩ := ahciCmdPrehook_eq_ok hhook
    have hnat := r.toNat_ahciGetDmalen
    have hcount := shadowCount_eq (t := (ahciGetDmalen r.prdt).1)
      (by rw [hnat, r.totalsize_even]) (by rw [hnat]; exact hmax)
    have hzero : (ahciGetDmalen r.prdt).1 = 0 ↔ r.totalsize = 0 := by
      rw [← hnat]
      exact ⟨fun h => by rw [h]; rfl, fun h => BitVec.eq_of_toNat_eq h⟩
    refine ⟨hlen.trans (r.length_filled hbuf), ?_⟩
    rw [hnat] at hcount
    simp only [hzero] at hcount
    exact hcount

/-- The shadow transfer has the length of the guest's buffers, and of the buffer that was allocated
for it, exactly where the total of the scatter list fits 32 bits or the command is refused: for
what is left of the total, because the slot has a buffer already, because a write does not copy what
it has counted, or by the prehook. -/
theorem shadowLen_exact_iff (device : PortDevice) (r : StartReading) (mem : ByteMem) (slot : Slot) :
    (∀ slot', ahciCmdStartSlot device r mem slot = .ok slot' →
      slot'.shadowLen ≤ slot'.bufferLen ∧ slot'.shadowLen = totalLen r.prdt) ↔
    totalLen r.prdt < 2 ^ 32 ∨ maxTotalsize < totalLen r.prdt % 2 ^ 32 ∨ slot.dmabuf ≠ none ∨
      ¬r.Counts ∨
      ¬Accepts device r.stale r.hdr r.table.cfis r.table.acmd (totalLen r.prdt % 2 ^ 32) := by
  constructor
  · intro h
    by_contra hno
    simp only [not_or, not_lt, not_not] at hno
    obtain ⟨hlarge, hmax, hfree, hcounts, hacc⟩ := hno
    have hprdtl : r.hdr.prdtl ≠ 0 := by
      intro h0
      rw [StartReading.prdt, h0, entries_zero] at hlarge
      exact absurd hlarge (by decide)
    obtain ⟨slot', hslot⟩ :=
      exists_ahciCmdStartSlot hprdtl hfree hmax hcounts hacc
    obtain ⟨-, hshadow⟩ := started_lengths hslot hprdtl
    have hle : slot'.shadowLen ≤ maxTotalsize := by
      rw [hshadow]
      split
      · exact Nat.le_refl _
      · exact hmax
    rw [(h slot' hslot).2] at hle
    have := Nat.le_trans hlarge hle
    exact absurd this (by decide)
  · intro h slot' hslot
    obtain ⟨hfree, ⟨h0, rfl⟩ | ⟨hprdtl, hmax, buf, hbuf, hhook⟩⟩ := ahciCmdStartSlot_eq_ok.1 hslot
    · have hshadow : Slot.shadowLen { slot with hdr := r.hdr } = 0 := if_pos h0
      rw [hshadow, StartReading.prdt, h0, entries_zero]
      exact ⟨Nat.zero_le _, rfl⟩
    · have hsmall : totalLen r.prdt < 2 ^ 32 := by
        have hcounts := (r.exists_filled_iff mem).mp ⟨buf, hbuf⟩
        have hacc := (ahciCmdPrehook_eq_ok hhook).1
        rw [dmabuflen_prepared] at hacc
        rcases h with h | h | h | h | h
        · exact h
        · exact absurd hmax (Nat.not_le.mpr h)
        · exact absurd hfree h
        · exact absurd hcounts h
        · exact absurd hacc h
      have hpos : totalLen r.prdt ≠ 0 := Nat.ne_of_gt (totalLen_pos r.counted hprdtl)
      obtain ⟨hbuffer, hshadow⟩ := started_lengths hslot hprdtl
      have htotal : r.totalsize = totalLen r.prdt := Nat.mod_eq_of_lt hsmall
      rw [hbuffer, hshadow, htotal, if_neg hpos]
      exact ⟨Nat.le_refl _, rfl⟩

/-- A read of 8 sectors into 1024 buffers of 4 MiB. -/
def wrappedRead : StartReading where
  hdr := ⟨false, false, 1024⟩
  counted _ := ⟨0x10000000, 0, 0x3FFFFF, false⟩
  table :=
    { cfis := { Slot.initial.cfis with
        fisType := 0x27, command := 0xC8, devHead := 0x40, sectorCount := 8 }
      acmd _ := 0
      prdt _ := ⟨0x10000000, 0, 0x3FFFFF, false⟩ }
  fresh _ := 0
  stale := ⟨.command, .ready, .read, 0, 0, 0⟩

/-- Nothing is left of its total: a buffer of no bytes is allocated, and the device is told 4 MiB. -/
theorem wrappedRead_overruns :
    ¬∀ slot', ahciCmdStartSlot ⟨[], [], false⟩ wrappedRead (fun _ => 0) .initial = .ok slot' →
      slot'.shadowLen ≤ slot'.bufferLen ∧ slot'.shadowLen = totalLen wrappedRead.prdt := by
  intro h
  have hsize : wrappedRead.totalsize = 0 := by
    rw [StartReading.totalsize, show wrappedRead.prdt =
      entries (fun _ => ⟨0x10000000, 0, 0x3FFFFF, false⟩) 1024 from rfl, totalLen_const]
    decide
  have hcounts : wrappedRead.Counts := fun hw => by cases hw
  have hacc : Accepts ⟨[], [], false⟩ wrappedRead.stale wrappedRead.hdr wrappedRead.table.cfis
      wrappedRead.table.acmd 0 :=
    ⟨rfl, by rw [CmdFis.Handled]; decide, fun _ => ⟨by decide, rfl, rfl, rfl⟩⟩
  rw [← hsize] at hacc
  have htaken : ∃ slot', ahciCmdStartSlot ⟨[], [], false⟩ wrappedRead (fun _ => 0) .initial =
      .ok slot' :=
    exists_ahciCmdStartSlot (by decide) rfl (by rw [hsize]; exact Nat.zero_le _) hcounts hacc
  obtain ⟨slot', hslot⟩ := htaken
  obtain ⟨hbuffer, hshadow⟩ := started_lengths hslot (by decide)
  have hle := (h slot' hslot).1
  rw [hbuffer, hshadow, hsize] at hle
  exact absurd hle (by decide)

end OnDemandVirt.Ahci
