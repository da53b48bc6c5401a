import OnDemandVirt.Ahci.Complete

/-!
# The data of a command

What the shadow buffer of a slot holds between the start of a read or write command and its
completion (`Tracks`): for a write the guest's buffers, encrypted, and for a read what the device
has put there, from which a completion fills the guest's buffers (`completion_reads`).
-/

namespace OnDemandVirt.Ahci

open Lib Storage Ata

/-! ### The hooks on whole sectors -/

theorem handleBuffer_eq (device : PortDevice) (rw' : Rw) {info : DmabufInfo} {buf : List (BitVec 8)}
    (hssiz : info.ssiz = 512) (hlen : info.nsec * 512 = buf.length) (hfits : buf.length < 2 ^ 32) :
    handleBuffer device rw' info buf =
      .ok (mapChunks 512 (sectorBytes device.storageDevice rw') info.lba.toNat info.nsec buf) := by
  have hsized : StorageAccess.Sized ⟨info.lba, info.nsec, info.ssiz, rw'⟩ := by
    refine ⟨?_, ?_, ?_⟩
    · exact hssiz.symm ▸ (by decide : aesBlkBytes ∣ 512)
    · exact hssiz.symm ▸ (by decide : 512 < 2 ^ 31)
    · rw [hssiz, hlen]
      exact hfits
  have hkeeps : KeepsChunks 512 (sectorBytes device.storageDevice rw') :=
    keepsChunks_sectorBytes _ (by decide) _
  have hmap : (mapChunks 512 (sectorBytes device.storageDevice rw') info.lba.toNat info.nsec
      buf).length = buf.length := by
    rw [length_mapChunks hkeeps hlen.symm, hlen]
  rw [handleBuffer, storageHandleSectors_eq_write _ hsized 0 0 _ (.inl rfl)]
  simp only [hssiz, hlen, ByteMem.read_write_all _ _ _ _ rfl]
  rw [ByteMem.read_write_all _ _ _ _ hmap]

/-- The prehook of a command that reads or writes sectors. -/
theorem ahciCmdPrehook_rw {device : PortDevice} {stale : PacketDevice} {slot slot' : Slot}
    {buf : List (BitVec 8)} (h : ahciCmdPrehook device stale slot buf = .ok slot')
    (ha : slot.hdr.a = false) (hrw : slot.cfis.IsRw) (hlen : buf.length = slot.dmabuflen)
    (hfits : slot.dmabuflen < 2 ^ 32) :
    slot.dmabuflen % 512 = 0 ∧ slot' = { slot with
      info := ⟨slot.cfis.lba, slot.dmabuflen / 512, 512, true, .none⟩
      dmabuf := some (if slot.hdr.w then mapChunks 512 (sectorBytes device.storageDevice .write)
        slot.cfis.lba.toNat (slot.dmabuflen / 512) buf else buf) } := by
  rw [ahciCmdPrehook, bind_eq_ok] at h
  obtain ⟨info, hinfo, h⟩ := h
  have hcmd : slot.dmabuflen % 512 = 0 ∧
      info = ⟨slot.cfis.lba, slot.dmabuflen / 512, 512, true, .none⟩ := by
    rw [commandInfo, assert_bind_eq_ok] at hinfo
    obtain ⟨-, hinfo⟩ := hinfo
    rw [if_neg (by rw [ha]; decide), bind_eq_ok] at hinfo
    obtain ⟨info', hok, hinfo⟩ := hinfo
    obtain ⟨-, hinfo⟩ := assert_bind_eq_ok.mp hinfo
    cases hinfo
    obtain ⟨-, hmod, -, heq⟩ := (ahciHandleCmd_rw_eq_ok hrw).mp hok
    exact ⟨hmod, heq⟩
  obtain ⟨hmod, heq⟩ := hcmd
  have hsectors : info.nsec * 512 = buf.length := by
    rw [heq]
    simp only
    omega
  obtain ⟨buf', hbuf, h⟩ := bind_eq_ok.mp h
  cases h
  have hflag : info.rwflag = true := by rw [heq]
  have hssiz : info.ssiz = 512 := by rw [heq]
  rw [hflag, Bool.true_and] at hbuf
  refine ⟨hmod, ?_⟩
  by_cases hw : slot.hdr.w = true
  · rw [if_pos hw, handleBuffer_eq device .write hssiz hsectors (hlen ▸ hfits)] at hbuf
    cases hbuf
    simp only [if_pos hw, heq]
  · rw [if_neg hw] at hbuf
    cases hbuf
    simp only [if_neg hw, heq]

/-! ### What a command asks for -/

namespace Issued

variable (c : Issued)

/-- A FIS that reads or writes sectors, not a packet. -/
def IsRw : Prop := c.reading.hdr.a = false ∧ c.reading.table.cfis.IsRw

/-- The guest left the command alone while it was started. -/
def Steady : Prop := c.reading.counted = c.reading.table.prdt

/-- The scatter list. -/
def prdt : List Prd := c.reading.prdt

/-- The first sector. -/
def lba : Lba := c.reading.table.cfis.lba

/-- The guest's buffers one after another, the sector `k` encrypted at the address `lba + k`. -/
def encrypted : List (BitVec 8) :=
  mapChunks 512 (sectorBytes c.device.storageDevice .write) c.lba.toNat (totalLen c.prdt / 512)
    ((buffers c.prdt).gather c.mem)

/-- The sectors of the device, the sector `k` decrypted at the address `lba + k`. -/
def decrypted (device : PortDevice) (bs : List (BitVec 8)) : List (BitVec 8) :=
  mapChunks 512 (sectorBytes device.storageDevice .read) c.lba.toNat (totalLen c.prdt / 512) bs

end Issued

/-- The slot of a command that runs. -/
structure Tracks (slot : Slot) (c : Issued) : Prop where
  w : slot.hdr.w = c.reading.hdr.w
  buffer : slot.dmabuf = none ↔ c.reading.hdr.prdtl = 0
  info : c.reading.hdr.prdtl ≠ 0 → c.IsRw →
    slot.info = ⟨c.lba, c.reading.totalsize / 512, 512, true, .none⟩ ∧
      slot.dmabuflen = c.reading.totalsize ∧ c.reading.totalsize % 512 = 0
  given : c.IsRw → c.Steady → c.reading.hdr.w = true → slot.dmabuf.getD [] = c.encrypted

variable {device : PortDevice} {r : StartReading} {mem : ByteMem} {slot slot' : Slot}

theorem Tracks.start (h : ahciCmdStartSlot device r mem slot = .ok slot') (o : Outcome) :
    Tracks slot' ⟨r, device, mem, o⟩ := by
  obtain ⟨hfree, ⟨hprdtl, rfl⟩ | ⟨hprdtl, -, buf, hbuf, hhook⟩⟩ := ahciCmdStartSlot_eq_ok.mp h
  · refine ⟨rfl, ⟨fun _ => hprdtl, fun _ => hfree⟩, fun h0 => absurd hprdtl h0, fun _ _ _ => ?_⟩
    simp only [hfree, Issued.encrypted, Issued.prdt, StartReading.prdt, hprdtl, entries_zero]
    rfl
  · have hlen := r.length_filled hbuf
    have hfits : (slot.prepared r).dmabuflen < 2 ^ 32 := by
      rw [dmabuflen_prepared, StartReading.totalsize]
      omega
    obtain ⟨-, info, buf', -, -, heq⟩ := ahciCmdPrehook_eq_ok hhook
    have hw : slot'.hdr.w = r.hdr.w := by rw [heq]; rfl
    refine ⟨hw, ⟨fun h0 => ?_, fun h0 => absurd h0 hprdtl⟩, fun _ hrw => ?_, fun hrw hsteady hwr => ?_⟩
    · rw [heq] at h0
      cases h0
    · obtain ⟨hmod, rfl⟩ := ahciCmdPrehook_rw hhook hrw.1 hrw.2 (hlen.trans dmabuflen_prepared.symm)
        hfits
      rw [dmabuflen_prepared] at hmod
      simp only [dmabuflen_prepared]
      exact ⟨rfl, trivial, hmod⟩
    · obtain ⟨-, rfl⟩ := ahciCmdPrehook_rw hhook hrw.1 hrw.2 (hlen.trans dmabuflen_prepared.symm)
        hfits
      -- what was counted was copied, so nothing of the total is lost
      have hprdt : entries r.table.prdt r.hdr.prdtl = r.prdt := by
        rw [StartReading.prdt, show r.counted = r.table.prdt from hsteady]
      rw [StartReading.filled, if_pos hwr, hprdt, copyFromGuest_eq] at hbuf
      split at hbuf
      · next htotal =>
        cases hbuf
        have hwp : (slot.prepared r).hdr.w = true := hwr
        simp only [hwp, if_true, Option.getD_some, dmabuflen_prepared, Issued.encrypted,
          Issued.prdt, ← htotal]
        rfl
      · cases hbuf

/-- The bytes that a completed read stores are those of the device, decrypted, cut at the
boundaries of the scatter list. -/
theorem completion_reads (hs : slot.Sound) {c : Issued} (ht : Tracks slot c) (hrw : c.IsRw)
    (hw : c.reading.hdr.w = false) {again : CompleteReading}
    (hprdtl : again.prdtl = c.reading.hdr.prdtl) (hprdt : again.prdt = c.reading.counted)
    (hfault : (ahciCmdCompleteSlot device again mem slot).fault = none) :
    (c.decrypted device (slot.dmabuf.getD [])).length = totalLen c.prdt ∧
      (ahciCmdCompleteSlot device again mem slot).mem =
        (buffers c.prdt).scatter (c.decrypted device (slot.dmabuf.getD [])) mem := by
  have hsame : entries again.prdt again.prdtl = c.prdt := by
    rw [hprdt, hprdtl]
    rfl
  have hag := (completion_fault_iff hs again mem).mp hfault
  by_cases h0 : again.prdtl = 0
  · rw [completeSlot_zero h0, Issued.decrypted, ← hsame, h0, entries_zero]
    exact ⟨rfl, rfl⟩
  · have hprdtl' : c.reading.hdr.prdtl ≠ 0 := hprdtl ▸ h0
    obtain ⟨buf, hbuf⟩ := Option.ne_none_iff_exists'.mp fun hn => hprdtl' (ht.buffer.mp hn)
    obtain ⟨hinfo, hdlen, hmod⟩ := ht.info hprdtl' hrw
    have hslotw : slot.hdr.w = false := ht.w.trans hw
    have htotal : totalLen c.prdt = slot.dmabuflen := hsame ▸ hag.2 hslotw h0
    have hlen : buf.length = slot.dmabuflen := hs.length buf hbuf
    have hfits : buf.length < 2 ^ 32 := by
      rw [hlen, hdlen, StartReading.totalsize]
      omega
    have hsectors : slot.info.nsec * 512 = buf.length := by
      rw [hlen, hinfo, hdlen]
      simp only
      omega
    have hhook : ahciCmdPosthook device slot = .ok (device,
        { slot with dmabuf := some (c.decrypted device buf) }) := by
      have hid : slot.info.identify = .none := by rw [hinfo]
      have hflag : slot.info.rwflag = true := by rw [hinfo]
      rw [ahciCmdPosthook, if_neg (not_not.mpr hid), if_pos (by rw [hflag, hslotw]; rfl), hbuf]
      simp only [handleBuffer_eq device .read (by rw [hinfo]) hsectors hfits]
      rw [Issued.decrypted, htotal, hdlen, hinfo]
      rfl
    obtain ⟨device', buf', hhook', heq⟩ := completeSlot_some hs h0 mem hbuf
    rw [hhook] at hhook'
    cases hhook'
    have hok := (copyBack_ok_iff again mem (c.decrypted device buf)).mpr
      fun _ => hag.2 hslotw h0
    have hwhole : (c.decrypted device buf).length = totalLen c.prdt := by
      have htotal512 : buf.length = totalLen c.prdt / 512 * 512 := by omega
      rw [Issued.decrypted, length_mapChunks (keepsChunks_sectorBytes _ (by decide) _) htotal512,
        ← htotal512, hlen, htotal]
    rw [heq, if_pos hok, hbuf]
    rw [Slot.copyBack, hslotw] at hok ⊢
    exact ⟨hwhole, (mem_copyToGuest hok).trans (by rw [hsame]; rfl)⟩

/-! ### The last commands of a port -/

/-- What is known of the last command of a slot. -/
def Port.Knows (port : Port) (i : Fin numOfCommandHeader) : Option Issued → Prop
  | none => port.shadowbit i = false
  | some c =>
    match c.outcome with
    | .running => port.shadowbit i = true ∧ Tracks (port.slots i) c
    | .cancelled => port.shadowbit i = false
    | .completed done => port.shadowbit i = false ∧ done.result.fault = none ∧ done.slot.Sound ∧
        Tracks done.slot c

/-- The slots are sound, and what has become of the last commands is known. -/
def Port.Tracked (port : Port) (issued : Fin numOfCommandHeader → Option Issued) : Prop :=
  ∀ i, (port.slots i).Sound ∧ port.Knows i (issued i)

theorem Port.Knows.congr {port port' : Port} {i : Fin numOfCommandHeader} {o : Option Issued}
    (hslot : port'.slots i = port.slots i) (hbit : port'.shadowbit i = port.shadowbit i)
    (h : port.Knows i o) : port'.Knows i o := by
  cases o with
  | none => exact hbit.trans h
  | some c =>
    simp only [Port.Knows] at h ⊢
    rw [hbit, hslot]
    exact h

namespace PortRun

variable {s : PortRun} {reads : Fin numOfCommandHeader → StartReading}
  {again : Fin numOfCommandHeader → CompleteReading} {pxsact pxci : SlotBits}

/-- A run that goes on. -/
def Tracked (s : PortRun) : Prop := s.stopped = none → s.port.Tracked s.issued

theorem startSlot_tracked (h : s.Tracked) (i : Fin numOfCommandHeader) :
    (s.startSlot reads pxci i).Tracked := by
  rw [startSlot]
  split
  · cases hstart : ahciCmdStartSlot s.port.device (reads i) s.mem (s.port.slots i) with
    | error f => exact fun hn => by cases hn
    | ok slot' =>
      simp only
      split
      · exact fun hn => by cases hn
      · intro hn j
        have htracked := h hn
        rcases eq_or_ne j i with rfl | hne
        · simp only [Function.update_self, Port.Knows]
          exact ⟨(htracked j).1.start hstart, trivial, Tracks.start hstart _⟩
        · simp only [Function.update_of_ne hne]
          exact ⟨(htracked j).1, (htracked j).2.congr (Function.update_of_ne hne _ _)
            (Function.update_of_ne hne _ _)⟩
  · exact h

theorem completeSlot_tracked (h : s.Tracked) (i : Fin numOfCommandHeader) :
    (s.completeSlot again pxsact pxci i).Tracked := by
  rw [completeSlot]
  split
  · next hcompl =>
    intro hfault j
    have htracked := h (Option.isNone_iff_eq_none.mp hcompl.1)
    rcases eq_or_ne j i with rfl | hne
    · have hag := (completion_fault_iff (htracked j).1 (again j) s.mem).mp hfault
      have hslot : (ahciCmdCompleteSlot s.port.device (again j) s.mem (s.port.slots j)).slot = _ :=
        completion_slot (htracked j).1 hag s.mem
      simp only [Function.update_self, Completed.result, hslot]
      refine ⟨(htracked j).1.noBuffer, ?_⟩
      have hknows := (htracked j).2
      cases hissued : s.issued j with
      | none =>
        rw [hissued] at hknows
        exact absurd hcompl.2.1 (by rw [hknows]; decide)
      | some c =>
        rw [hissued] at hknows
        simp only [Port.Knows] at hknows
        simp only [Option.map_some, Port.Knows, Function.update_self, true_and]
        -- only a command that runs has the bit
        cases hout : c.outcome with
        | running =>
          rw [hout] at hknows
          exact ⟨hfault, (htracked j).1, hknows.2.w, hknows.2.buffer, hknows.2.info, hknows.2.given⟩
        | cancelled =>
          rw [hout] at hknows
          exact absurd hcompl.2.1 (by rw [hknows]; decide)
        | completed done =>
          rw [hout] at hknows
          exact absurd hcompl.2.1 (by rw [hknows.1]; decide)
    · simp only [Function.update_of_ne hne]
      exact ⟨(htracked j).1, (htracked j).2.congr (Function.update_of_ne hne _ _)
        (Function.update_of_ne hne _ _)⟩
  · exact h

theorem ahciCmdStart_tracked (h : s.Tracked) : (s.ahciCmdStart reads pxci).Tracked := by
  have hloop : ∀ (is : List (Fin numOfCommandHeader)) (s : PortRun), s.Tracked →
      (is.foldl (startSlot reads pxci) s).Tracked := by
    intro is
    induction is with
    | nil => exact fun s h => h
    | cons i is ih => exact fun s h => ih _ (startSlot_tracked h i)
  rw [ahciCmdStart]
  exact hloop _ s h

theorem ahciCmdComplete_tracked (h : s.Tracked) : (s.ahciCmdComplete again pxsact pxci).Tracked := by
  have hloop : ∀ (is : List (Fin numOfCommandHeader)) (s : PortRun), s.Tracked →
      (is.foldl (completeSlot again pxsact pxci) s).Tracked := by
    intro is
    induction is with
    | nil => exact fun s h => h
    | cons i is ih => exact fun s h => ih _ (completeSlot_tracked h i)
  rw [ahciCmdComplete]
  exact hloop _ s h

theorem ahciCmdCancel_tracked (h : s.Tracked) : s.ahciCmdCancel.Tracked := by
  intro hn i
  have htracked := h hn i
  rw [ahciCmdCancel]
  cases hbit : s.port.shadowbit i with
  | true =>
    simp only [hbit, if_true]
    refine ⟨htracked.1.noBuffer, ?_⟩
    cases s.issued i with
    | none => rfl
    | some c => rfl
  | false =>
    simp only [hbit, Bool.false_eq_true, if_false]
    exact ⟨htracked.1, htracked.2.congr (if_neg (by rw [hbit]; decide)) hbit.symm⟩

theorem deviceWrite_tracked (h : s.Tracked) {i : Fin numOfCommandHeader}
    (hw : (s.port.slots i).hdr.w = false) (data : ByteMem) : (s.deviceWrite i data).Tracked := by
  intro hn j
  have htracked := h hn j
  rcases eq_or_ne j i with rfl | hne
  · simp only [deviceWrite, Function.update_self]
    refine ⟨⟨fun buf hbuf => ?_, htracked.1.blocks⟩, ?_⟩
    · obtain ⟨old, hold, rfl⟩ := Option.map_eq_some_iff.mp hbuf
      exact (ByteMem.length_read _ _ _).trans (htracked.1.length old hold)
    · have hknows := htracked.2
      cases hissued : s.issued j with
      | none => rw [hissued] at hknows; exact hknows
      | some c =>
        rw [hissued] at hknows
        simp only [Port.Knows, Function.update_self] at hknows ⊢
        cases hout : c.outcome with
        | running =>
          rw [hout] at hknows
          obtain ⟨hbit, ht⟩ := hknows
          refine ⟨hbit, ht.w, ?_, ht.info, fun _ _ hwc => ?_⟩
          · rw [← ht.buffer]
            exact Option.map_eq_none_iff
          · rw [← ht.w, hw] at hwc
            cases hwc
        | cancelled => rw [hout] at hknows; exact hknows
        | completed done => rw [hout] at hknows; exact hknows
  · simp only [deviceWrite, Function.update_of_ne hne]
    exact ⟨htracked.1, htracked.2.congr (Function.update_of_ne hne _ _) rfl⟩

theorem stopped_of_completeSlot {i : Fin numOfCommandHeader}
    (h : (s.completeSlot again pxsact pxci i).stopped = none) : s.stopped = none := by
  rw [completeSlot] at h
  split at h
  · next hcompl => exact Option.isNone_iff_eq_none.mp hcompl.1
  · exact h

theorem shadowbit_of_completeSlot {i j : Fin numOfCommandHeader}
    (h : (s.completeSlot again pxsact pxci i).stopped = none)
    (hj : (s.completeSlot again pxsact pxci i).port.shadowbit j = true) :
    s.port.shadowbit j = true ∧ (j = i → pxci j = true ∨ pxsact j = true) := by
  have hn := stopped_of_completeSlot h
  rw [completeSlot] at hj
  split at hj
  · rcases eq_or_ne j i with rfl | hne
    · simp only [Function.update_self] at hj
      cases hj
    · simp only [Function.update_of_ne hne] at hj
      exact ⟨hj, fun he => absurd he hne⟩
  · next hno =>
    refine ⟨hj, fun he => ?_⟩
    subst he
    by_contra hclear
    rw [not_or, Bool.not_eq_true, Bool.not_eq_true] at hclear
    exact hno ⟨by rw [hn]; rfl, hj, hclear.1, hclear.2⟩

/-- After the loop, a slot that has a command is still issued or active. -/
theorem shadowbit_of_ahciCmdComplete (h : (s.ahciCmdComplete again pxsact pxci).stopped = none)
    {j : Fin numOfCommandHeader}
    (hj : (s.ahciCmdComplete again pxsact pxci).port.shadowbit j = true) :
    s.port.shadowbit j = true ∧ (pxci j = true ∨ pxsact j = true) := by
  have hloop : ∀ (is : List (Fin numOfCommandHeader)) (s : PortRun),
      (is.foldl (completeSlot again pxsact pxci) s).stopped = none →
      (is.foldl (completeSlot again pxsact pxci) s).port.shadowbit j = true →
      s.stopped = none ∧ s.port.shadowbit j = true ∧ (j ∈ is → pxci j = true ∨ pxsact j = true) := by
    intro is
    induction is with
    | nil => exact fun s h hj => ⟨h, hj, fun hmem => (by cases hmem)⟩
    | cons i is ih =>
      intro s h hj
      obtain ⟨hn, hbit, hrest⟩ := ih _ h hj
      obtain ⟨hbit', hhere⟩ := shadowbit_of_completeSlot hn hbit
      refine ⟨stopped_of_completeSlot hn, hbit', fun hmem => ?_⟩
      rcases List.mem_cons.mp hmem with he | hmem
      · exact hhere he
      · exact hrest hmem
  rw [ahciCmdComplete] at h hj
  obtain ⟨-, hbit, hclear⟩ := hloop _ s h hj
  exact ⟨hbit, hclear (List.mem_finRange j)⟩

theorem shadowbit_of_startSlot {i j : Fin numOfCommandHeader}
    (hj : (s.startSlot reads pxci i).port.shadowbit j = true) :
    s.port.shadowbit j = true ∨ pxci j = true := by
  rw [startSlot] at hj
  split at hj
  · next hi =>
    split at hj
    · exact .inl hj
    · split at hj
      · exact .inl hj
      · rcases eq_or_ne j i with rfl | hne
        · exact .inr (Bool.and_eq_true_iff.mp hi).2
        · simp only [Function.update_of_ne hne] at hj
          exact .inl hj
  · exact .inl hj

theorem shadowbit_of_ahciCmdStart {j : Fin numOfCommandHeader}
    (hj : (s.ahciCmdStart reads pxci).port.shadowbit j = true) :
    s.port.shadowbit j = true ∨ pxci j = true := by
  have hloop : ∀ (is : List (Fin numOfCommandHeader)) (s : PortRun),
      (is.foldl (startSlot reads pxci) s).port.shadowbit j = true →
      s.port.shadowbit j = true ∨ pxci j = true := by
    intro is
    induction is with
    | nil => exact fun s hj => .inl hj
    | cons i is ih =>
      intro s hj
      rcases ih _ hj with h | h
      · exact shadowbit_of_startSlot h
      · exact .inr h
  rw [ahciCmdStart] at hj
  exact hloop _ s hj

end PortRun

end OnDemandVirt.Ahci
