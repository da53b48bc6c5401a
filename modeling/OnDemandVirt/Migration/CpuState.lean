import OnDemandVirt.Lib.Buffer

/-!
# The guest's CPU state

`save_guest_cpu_state` writes the guest's CPU state into a page that the client sends, and
`load_guest_state_to_vmcs` of the server loads it from there. Both address the page through
hand-numbered offsets, most of them in 64-bit words and two in 16-bit ones.

A virtual CPU is modelled with EPT and unrestricted guest on, as a machine that fetches its memory
on demand needs it: shadow paging and real mode emulation are left out, and so are the PDPTEs,
the PAT and the execution controls, which no function here reads.
-/

namespace OnDemandVirt.Migration

open Lib

/-! ### The registers -/

/-- `struct regs_in_vmcs_sreg`. -/
structure Sreg where
  sel : BitVec 16
  limit : BitVec 64
  acr : BitVec 64
  base : BitVec 64

/-- `struct regs_in_vmcs_desc`. -/
structure Desc where
  base : BitVec 64
  limit : BitVec 64

/-- The segments and descriptor tables of the VMCS. -/
structure Segs where
  es : Sreg
  cs : Sreg
  ss : Sreg
  ds : Sreg
  fs : Sreg
  gs : Sreg
  ldtr : Sreg
  tr : Sreg
  gdtr : Desc
  idtr : Desc

/-- The general registers of `current->u.vt.vr`, and CR2. -/
structure Gpr where
  rax : BitVec 64
  rbx : BitVec 64
  rcx : BitVec 64
  rdx : BitVec 64
  rdi : BitVec 64
  rsi : BitVec 64
  rbp : BitVec 64
  r8 : BitVec 64
  r9 : BitVec 64
  r10 : BitVec 64
  r11 : BitVec 64
  r12 : BitVec 64
  r13 : BitVec 64
  r14 : BitVec 64
  r15 : BitVec 64
  cr2 : BitVec 64

/-- The other registers of the VMCS that are copied as they are. -/
structure Plain where
  rsp : BitVec 64
  rflags : BitVec 64
  rip : BitVec 64
  dr7 : BitVec 64
  sysenterCs : BitVec 64
  sysenterEsp : BitVec 64
  sysenterEip : BitVec 64

/-- The control registers of the VMCS, the variables of `current->u.vt` about them and the
processor's fixed bits. -/
structure Ctl where
  guestCr0 : BitVec 64
  cr0ReadShadow : BitVec 64
  guestCr3 : BitVec 64
  guestCr4 : BitVec 64
  cr4ReadShadow : BitVec 64
  efer : BitVec 64
  entry64Guest : Bool
  vrCr3 : BitVec 64
  pg : Bool
  lme : Bool
  lma : Bool
  cr3exitControllable : Bool
  cr3exitOff : Bool
  cr0Fixed0 : BitVec 64
  cr0Fixed1 : BitVec 64
  cr4Fixed0 : BitVec 64
  cr4Fixed1 : BitVec 64

/-- The MSRs that the guest and BitVisor's processes take turns in. -/
structure SyscallMsrs where
  star : BitVec 64
  lstar : BitVec 64
  cstar : BitVec 64
  fmask : BitVec 64
  kerngs : BitVec 64
  deriving DecidableEq

/-- The processor's MSRs, the guest's cached copies of `current->u.vt.msr` and who owns the
processor's. -/
structure Msr where
  real : SyscallMsrs
  cached : SyscallMsrs
  guestOwns : Bool

/-- The variables of the virtio driver that travel with the CPU state. -/
structure Virtio where
  tSdBase : BitVec 32
  rSdBase : BitVec 32
  virtioSendQueue : BitVec 32
  virtioRecvQueue : BitVec 32

/-- A virtual CPU. -/
structure Vt where
  segs : Segs
  gpr : Gpr
  plain : Plain
  ctl : Ctl
  msr : Msr
  virtio : Virtio

/-! ### Offsets into the page -/

/-- `SHARED_AREA_VT_OFFSET_..`, in longs; `gdtrLimit` and `idtrLimit` in shorts. -/
inductive Offset
  | rsp | rflags | rip | cr0 | cr3 | cr4 | dr7 | efer | sysenterCs | sysenterEsp | sysenterEip
  | csSel | dsSel | esSel | fsSel | fsBase | gsSel | gsBase | ssSel
  | gdtrLimit | gdtrBase | idtrLimit | idtrBase | trSel
  | rax | rbx | rcx | rdx | rdi | rsi | rbp | r8 | r9 | r10 | r11 | r12 | r13 | r14 | r15 | cr2
  | star | lstar | fmask | kernelGsbase | tSdBase | rSdBase | virtioSendQueue | virtioRecvQueue

/-- The number of an offset. -/
def Offset.num : Offset → Nat
  | .rsp => 0
  | .rflags => 1
  | .rip => 2
  | .cr0 => 3
  | .cr3 => 4
  | .cr4 => 5
  | .dr7 => 6
  | .efer => 7
  | .sysenterCs => 8
  | .sysenterEsp => 9
  | .sysenterEip => 10
  | .csSel => 16
  | .dsSel => 20
  | .esSel => 24
  | .fsSel => 28
  | .fsBase => 31
  | .gsSel => 32
  | .gsBase => 35
  | .ssSel => 36
  | .gdtrLimit => 163
  | .gdtrBase => 41
  | .idtrLimit => 187
  | .idtrBase => 47
  | .trSel => 48
  | .rax => 52
  | .rbx => 53
  | .rcx => 54
  | .rdx => 55
  | .rdi => 56
  | .rsi => 57
  | .rbp => 58
  | .r8 => 59
  | .r9 => 60
  | .r10 => 61
  | .r11 => 62
  | .r12 => 63
  | .r13 => 64
  | .r14 => 65
  | .r15 => 66
  | .cr2 => 67
  | .star => 69
  | .lstar => 70
  | .fmask => 71
  | .kernelGsbase => 72
  | .tSdBase => 73
  | .rSdBase => 74
  | .virtioSendQueue => 75
  | .virtioRecvQueue => 76

/-! ### Saving -/

/-- The stores of `save_guest_cpu_state`, in order. EFER is hard-coded and the syscall MSRs are the
cached copies. -/
def guestCpuStateStores (s : Vt) : List Store :=
  [.long Offset.rsp.num s.plain.rsp, .long Offset.rflags.num s.plain.rflags,
    .long Offset.rip.num s.plain.rip, .long Offset.cr0.num s.ctl.guestCr0,
    .long Offset.cr3.num s.ctl.guestCr3, .long Offset.cr4.num s.ctl.guestCr4,
    .long Offset.dr7.num s.plain.dr7, .long Offset.efer.num 0xd01,
    .long Offset.sysenterCs.num s.plain.sysenterCs,
    .long Offset.sysenterEsp.num s.plain.sysenterEsp,
    .long Offset.sysenterEip.num s.plain.sysenterEip,
    .long Offset.fsBase.num s.segs.fs.base, .long Offset.gsBase.num s.segs.gs.base,
    .long Offset.csSel.num (s.segs.cs.sel.setWidth 64),
    .long Offset.dsSel.num (s.segs.ds.sel.setWidth 64),
    .long Offset.esSel.num (s.segs.es.sel.setWidth 64),
    .long Offset.fsSel.num (s.segs.fs.sel.setWidth 64),
    .long Offset.gsSel.num (s.segs.gs.sel.setWidth 64),
    .long Offset.ssSel.num (s.segs.ss.sel.setWidth 64),
    .short Offset.gdtrLimit.num (s.segs.gdtr.limit.setWidth 16),
    .long Offset.gdtrBase.num s.segs.gdtr.base,
    .short Offset.idtrLimit.num (s.segs.idtr.limit.setWidth 16),
    .long Offset.idtrBase.num s.segs.idtr.base,
    .long Offset.trSel.num (s.segs.tr.sel.setWidth 64),
    .long Offset.rax.num s.gpr.rax, .long Offset.rbx.num s.gpr.rbx,
    .long Offset.rcx.num s.gpr.rcx, .long Offset.rdx.num s.gpr.rdx,
    .long Offset.rdi.num s.gpr.rdi, .long Offset.rsi.num s.gpr.rsi,
    .long Offset.rbp.num s.gpr.rbp, .long Offset.r8.num s.gpr.r8,
    .long Offset.r9.num s.gpr.r9, .long Offset.r10.num s.gpr.r10,
    .long Offset.r11.num s.gpr.r11, .long Offset.r12.num s.gpr.r12,
    .long Offset.r13.num s.gpr.r13, .long Offset.r14.num s.gpr.r14,
    .long Offset.r15.num s.gpr.r15, .long Offset.cr2.num s.gpr.cr2,
    .long Offset.star.num s.msr.cached.star, .long Offset.lstar.num s.msr.cached.lstar,
    .long Offset.fmask.num s.msr.cached.fmask,
    .long Offset.kernelGsbase.num s.msr.cached.kerngs,
    .long Offset.tSdBase.num (s.virtio.tSdBase.setWidth 64),
    .long Offset.rSdBase.num (s.virtio.rSdBase.setWidth 64),
    .long Offset.virtioSendQueue.num (s.virtio.virtioSendQueue.setWidth 64),
    .long Offset.virtioRecvQueue.num (s.virtio.virtioRecvQueue.setWidth 64)]

/-- `save_guest_cpu_state`. -/
def saveGuestCpuState (s : Vt) (mem : Buf) : Buf := Buf.storeAll (guestCpuStateStores s) mem

/-! ### Writing control registers and MSRs -/

/-- `MSR_IA32_EFER_LME_BIT`. -/
abbrev eferLme : BitVec 64 := 0x100

/-- `MSR_IA32_EFER_LMA_BIT`. -/
abbrev eferLma : BitVec 64 := 0x400

/-- `CR0_PE_BIT`. -/
abbrev cr0Pe : BitVec 64 := 0x1

/-- `CR0_PG_BIT`. -/
abbrev cr0Pg : BitVec 64 := 0x80000000

/-- `VT_CR0_GUESTHOST_MASK`. -/
abbrev vtCr0GuesthostMask : BitVec 64 := 0xfffbffd1

/-- `VT_CR4_GUESTHOST_MASK`. -/
abbrev vtCr4GuesthostMask : BitVec 64 := 0xfffff8b0

/-- `vt_read_cr`. -/
def vtReadCr (mask shadow guest : BitVec 64) : BitVec 64 := (shadow &&& mask) ||| (guest &&& ~~~mask)

/-- `vt_read_cr3`. -/
def vtReadCr3 (c : Ctl) : BitVec 64 := if c.cr3exitOff then c.guestCr3 else c.vrCr3

/-- `vt_write_cr3`. -/
def vtWriteCr3 (val : BitVec 64) (c : Ctl) : Ctl :=
  if c.cr3exitOff then { c with guestCr3 := val } else { c with vrCr3 := val }

/-- `vt_paging_apply_fixed_cr0`. -/
def vtPagingApplyFixedCr0 (c : Ctl) (val : BitVec 64) : BitVec 64 :=
  (val &&& (c.cr0Fixed1 ||| (cr0Pg ||| cr0Pe))) ||| (c.cr0Fixed0 &&& ~~~(cr0Pg ||| cr0Pe))

/-- `vt_paging_apply_fixed_cr4`. -/
def vtPagingApplyFixedCr4 (c : Ctl) (val : BitVec 64) : BitVec 64 :=
  (val &&& c.cr4Fixed1) ||| c.cr4Fixed0

/-- `vt_update_vmcs_guest_cr3`, which is `vt_paging_updatecr3` with EPT. -/
def vtPagingUpdatecr3 (c : Ctl) : Ctl := if c.cr3exitOff then c else { c with guestCr3 := c.vrCr3 }

/-- `vt_paging_pg_change`. -/
def vtPagingPgChange (c : Ctl) : Ctl :=
  let c :=
    if c.cr3exitControllable ∧ c.cr3exitOff = false then
      vtWriteCr3 (vtReadCr3 c) { c with cr3exitOff := true }
    else c
  let c := { c with
    guestCr0 := vtPagingApplyFixedCr0 c (vtReadCr vtCr0GuesthostMask c.cr0ReadShadow c.guestCr0) }
  let c := vtPagingUpdatecr3 c
  { c with
    guestCr4 := vtPagingApplyFixedCr4 c (vtReadCr vtCr4GuesthostMask c.cr4ReadShadow c.guestCr4) }

/-- `vt_msr_update_lma`. -/
def vtMsrUpdateLma (c : Ctl) : Ctl :=
  if c.lme ∧ c.pg then
    if c.lma then c
    else { c with lma := true, entry64Guest := true, efer := c.efer ||| (eferLme ||| eferLma) }
  else if c.lma then
    { c with lma := false, entry64Guest := false, efer := c.efer &&& ~~~(eferLme ||| eferLma) }
  else c

/-- The value of CR0 without paging where protection is off. -/
def cr0WithoutPe (val : BitVec 64) : BitVec 64 := if val &&& cr0Pe = 0 then val &&& ~~~cr0Pg else val

/-- The change of `current->u.vt.vr.pg` in `vt_write_control_reg`. -/
def changePg (pg : Bool) (c : Ctl) : Ctl :=
  if pg = c.pg then c else vtPagingPgChange { c with pg := pg }

/-- `vt_write_control_reg (CONTROL_REG_CR0, val)`. -/
def vtWriteCr0 (val : BitVec 64) (c : Ctl) : Ctl :=
  let c := { c with cr0ReadShadow := val }
  let val := cr0WithoutPe val
  let c := vtMsrUpdateLma (changePg (val &&& cr0Pg != 0) c)
  vtPagingUpdatecr3 { c with guestCr0 := vtPagingApplyFixedCr0 c val }

/-- `vt_write_control_reg (CONTROL_REG_CR4, val)`. -/
def vtWriteCr4 (val : BitVec 64) (c : Ctl) : Ctl :=
  vtPagingUpdatecr3 { c with cr4ReadShadow := val, guestCr4 := vtPagingApplyFixedCr4 c val }

/-- `vt_write_msr (MSR_IA32_EFER, msrdata)`. -/
def vtWriteEfer (msrdata : BitVec 64) (c : Ctl) : Ctl :=
  vtPagingUpdatecr3 (vtMsrUpdateLma
    { c with
      lme := msrdata &&& eferLme != 0
      efer := (c.efer &&& (eferLme ||| eferLma)) ||| (msrdata &&& ~~~(eferLme ||| eferLma)) })

/-- `vt_read_msr (MSR_IA32_EFER, ..)`: EFER as the guest sees it. -/
def vtReadEfer (c : Ctl) : BitVec 64 :=
  (c.efer &&& ~~~(eferLme ||| eferLma)) ||| (if c.lme then eferLme else 0) |||
    (if c.lma then eferLma else 0)

/-- `vt_msr_store_process64_msrs`, after which the process `by_` uses the processor's MSRs. -/
def vtMsrStoreProcess64Msrs (by_ : SyscallMsrs) (m : Msr) : Msr :=
  if m.guestOwns then { real := by_, cached := m.real, guestOwns := false } else { m with real := by_ }

/-- `vt_msr_own_process_msrs`, with `vt_msr_load_process64_msrs`. -/
def vtMsrOwnProcessMsrs (m : Msr) : Msr :=
  if m.guestOwns then m else { m with real := m.cached, guestOwns := true }

/-- The syscall MSRs as the guest sees them. -/
def Msr.guest (m : Msr) : SyscallMsrs := if m.guestOwns then m.real else m.cached

/-! ### Loading -/

/-- The end of `load_guest_state_to_vmcs` for the syscall MSRs: the cached copies are set and each
is written to the processor after `vt_msr_own_process_msrs`. -/
def loadMsr (star lstar fmask kerngs : BitVec 64) (m : Msr) : Msr :=
  let cached := { m.cached with star := star, lstar := lstar, fmask := fmask, kerngs := kerngs }
  let m := vtMsrOwnProcessMsrs { m with cached := cached }
  { m with
    real := { m.real with star := star, lstar := lstar, fmask := fmask, kerngs := kerngs } }

/-- `load_guest_state_to_vmcs`, its writes grouped by the registers they are to. -/
def loadGuestStateToVmcs (vmemForCpu : Buf) (d : Vt) : Vt :=
  let long (o : Offset) := vmemForCpu.loadLong o.num
  let sel (o : Offset) := (vmemForCpu.loadLong o.num).setWidth 16
  let limit (o : Offset) := (vmemForCpu.loadShort o.num).setWidth 64
  { segs :=
      { es := { d.segs.es with sel := sel .esSel }
        cs := { d.segs.cs with sel := sel .csSel, acr := 0xa09b }
        ss := { d.segs.ss with sel := sel .ssSel, acr := 0x1c000 }
        ds := { d.segs.ds with sel := sel .dsSel }
        fs := { d.segs.fs with sel := sel .fsSel, base := long .fsBase }
        gs := { d.segs.gs with sel := sel .gsSel, base := long .gsBase }
        ldtr := d.segs.ldtr
        tr := { d.segs.tr with sel := sel .trSel }
        gdtr := { base := long .gdtrBase, limit := limit .gdtrLimit }
        idtr := { base := long .idtrBase, limit := limit .idtrLimit } }
    gpr :=
      { rax := long .rax, rbx := long .rbx, rcx := long .rcx, rdx := long .rdx
        rdi := long .rdi, rsi := long .rsi, rbp := long .rbp
        r8 := long .r8, r9 := long .r9, r10 := long .r10, r11 := long .r11
        r12 := long .r12, r13 := long .r13, r14 := long .r14, r15 := long .r15
        cr2 := long .cr2 }
    plain :=
      { rsp := long .rsp, rflags := long .rflags, rip := long .rip, dr7 := long .dr7
        sysenterCs := long .sysenterCs, sysenterEsp := long .sysenterEsp
        sysenterEip := long .sysenterEip }
    ctl :=
      let c := vtWriteCr0 (long .cr0) d.ctl
      let c := vtPagingUpdatecr3 (vtWriteCr3 (long .cr3) c)
      let c := vtWriteCr4 (long .cr4) c
      let c := vtWriteEfer (long .efer) c
      { c with cr4ReadShadow := long .cr4 &&& 0xffffffffffffdfff }
    msr := loadMsr (long .star) (long .lstar) (long .fmask) (long .kernelGsbase) d.msr
    virtio :=
      { tSdBase := (long .tSdBase).setWidth 32
        rSdBase := (long .rSdBase).setWidth 32
        virtioSendQueue := (long .virtioSendQueue).setWidth 32
        virtioRecvQueue := (long .virtioRecvQueue).setWidth 32 } }

/-! ### What the page holds -/

/-- No two stores of `save_guest_cpu_state` overlap, the two in shorts included. -/
theorem guestCpuStateStores_apart (s : Vt) :
    ((guestCpuStateStores s).map Store.footprint).Pairwise Apart := by
  have hfootprints : (guestCpuStateStores s).map Store.footprint =
      [0, 1, 2, 3, 4, 5, 6, 7, 8, 9, 10, 31, 35, 16, 20, 24, 28, 32, 36].map (fun i => (4 * i, 4)) ++
        [(163, 1), (164, 4), (187, 1), (188, 4)] ++
        [48, 52, 53, 54, 55, 56, 57, 58, 59, 60, 61, 62, 63, 64, 65, 66, 67, 69, 70, 71, 72, 73, 74,
          75, 76].map (fun i => (4 * i, 4)) := rfl
  rw [hfootprints]
  decide

theorem loadLong_save (s : Vt) (mem : Buf) (o : Offset) {v : BitVec 64}
    (h : Buf.longAt (guestCpuStateStores s) o.num = some v) :
    (saveGuestCpuState s mem).loadLong o.num = v :=
  Buf.loadLong_storeAll (Buf.mem_of_longAt h) (guestCpuStateStores_apart s) mem

theorem loadShort_save (s : Vt) (mem : Buf) (o : Offset) {v : BitVec 16}
    (h : Buf.shortAt (guestCpuStateStores s) o.num = some v) :
    (saveGuestCpuState s mem).loadShort o.num = v :=
  Buf.loadShort_storeAll (Buf.mem_of_shortAt h) (guestCpuStateStores_apart s) mem

/-! ### Control registers -/

/-- What the control register functions leave alone: the processor's fixed bits. -/
def Ctl.SameFixed (c c' : Ctl) : Prop :=
  c'.cr0Fixed0 = c.cr0Fixed0 ∧ c'.cr0Fixed1 = c.cr0Fixed1 ∧ c'.cr4Fixed0 = c.cr4Fixed0 ∧
    c'.cr4Fixed1 = c.cr4Fixed1

theorem vtPagingUpdatecr3_eq (c : Ctl) : vtPagingUpdatecr3 c =
    { c with guestCr3 := if c.cr3exitOff then c.guestCr3 else c.vrCr3 } := by
  unfold vtPagingUpdatecr3
  split_ifs <;> rfl

/-- `vt_write_control_reg (CONTROL_REG_CR3, val)`. -/
theorem vtPagingUpdatecr3_vtWriteCr3 (val : BitVec 64) (c : Ctl) :
    vtPagingUpdatecr3 (vtWriteCr3 val c) =
      { c with guestCr3 := val, vrCr3 := if c.cr3exitOff then c.vrCr3 else val } := by
  unfold vtWriteCr3
  by_cases h : c.cr3exitOff
  · rw [if_pos h, if_pos h, vtPagingUpdatecr3, if_pos h]
  · rw [if_neg h, if_neg h, vtPagingUpdatecr3, if_neg h]

theorem vtMsrUpdateLma_eq (c : Ctl) : vtMsrUpdateLma c =
    { c with
      lma := c.lme && c.pg
      entry64Guest :=
        if c.lma = (c.lme && c.pg) then c.entry64Guest else c.lme && c.pg
      efer :=
        if c.lma = (c.lme && c.pg) then c.efer
        else if c.lme && c.pg then c.efer ||| (eferLme ||| eferLma)
        else c.efer &&& ~~~(eferLme ||| eferLma) } := by
  obtain ⟨_, _, _, _, _, _, _, _, pg, lme, lma, _, _, _, _, _, _⟩ := c
  cases pg <;> cases lme <;> cases lma <;> rfl

/-- Turning paging on or off: what is known of the registers afterwards. -/
theorem changePg_spec (pg : Bool) (c : Ctl) : Ctl.SameFixed c (changePg pg c) ∧
    (changePg pg c).pg = pg ∧ (changePg pg c).cr0ReadShadow = c.cr0ReadShadow := by
  unfold changePg vtPagingPgChange
  simp only [vtPagingUpdatecr3_eq, vtWriteCr3]
  split_ifs with h <;> exact ⟨⟨rfl, rfl, rfl, rfl⟩, by first | exact h.symm | rfl, rfl⟩

/-- CR0 is written: what is known of the registers afterwards. -/
theorem vtWriteCr0_spec (val : BitVec 64) (c : Ctl) : Ctl.SameFixed c (vtWriteCr0 val c) ∧
    (vtWriteCr0 val c).guestCr0 = vtPagingApplyFixedCr0 c (cr0WithoutPe val) ∧
      (vtWriteCr0 val c).cr0ReadShadow = val ∧
        (vtWriteCr0 val c).pg = (cr0WithoutPe val &&& cr0Pg != 0) := by
  obtain ⟨⟨h00, h01, h40, h41⟩, hpg, hshadow⟩ :=
    changePg_spec (cr0WithoutPe val &&& cr0Pg != 0) { c with cr0ReadShadow := val }
  simp only [vtWriteCr0, vtPagingUpdatecr3_eq, vtMsrUpdateLma_eq]
  generalize changePg (cr0WithoutPe val &&& cr0Pg != 0) { c with cr0ReadShadow := val } = c' at *
  refine ⟨⟨h00, h01, h40, h41⟩, ?_, hshadow, hpg⟩
  simp only [vtPagingApplyFixedCr0, h00, h01]

/-- The bits outside the mask of a value merged into another one. -/
theorem merge_and_not (x a m : BitVec 64) :
    ((x &&& m) ||| (a &&& ~~~m)) &&& ~~~m = a &&& ~~~m := by
  apply BitVec.eq_of_getLsbD_eq
  intro i hi
  simp only [BitVec.getLsbD_and, BitVec.getLsbD_or, BitVec.getLsbD_not, hi, decide_true,
    Bool.true_and]
  cases x.getLsbD i <;> cases a.getLsbD i <;> cases m.getLsbD i <;> rfl

theorem or_mask_and_not (x m : BitVec 64) : (x ||| m) &&& ~~~m = x &&& ~~~m := by
  apply BitVec.eq_of_getLsbD_eq
  intro i hi
  simp only [BitVec.getLsbD_and, BitVec.getLsbD_or, BitVec.getLsbD_not, hi, decide_true,
    Bool.true_and]
  cases x.getLsbD i <;> cases m.getLsbD i <;> rfl

theorem and_not_and_not (x m : BitVec 64) : (x &&& ~~~m) &&& ~~~m = x &&& ~~~m := by
  rw [BitVec.and_assoc, BitVec.and_self]

/-- The guest reads the EFER that was written, with LMA as paging has it. -/
theorem vtReadEfer_vtWriteEfer (v : BitVec 64) (c : Ctl) : vtReadEfer (vtWriteEfer v c) =
    (v &&& ~~~(eferLme ||| eferLma)) ||| (if v &&& eferLme != 0 then eferLme else 0) |||
      (if v &&& eferLme != 0 && c.pg then eferLma else 0) := by
  simp only [vtWriteEfer, vtReadEfer, vtPagingUpdatecr3_eq, vtMsrUpdateLma_eq]
  split_ifs <;> simp only [merge_and_not, or_mask_and_not, and_not_and_not]

theorem load_save_ctl (s d : Vt) (mem : Buf) :
    (loadGuestStateToVmcs (saveGuestCpuState s mem) d).ctl =
      { vtWriteEfer 0xd01 (vtWriteCr4 s.ctl.guestCr4 (vtPagingUpdatecr3
          (vtWriteCr3 s.ctl.guestCr3 (vtWriteCr0 s.ctl.guestCr0 d.ctl)))) with
        cr4ReadShadow := s.ctl.guestCr4 &&& 0xffffffffffffdfff } := by
  simp only [loadGuestStateToVmcs, loadLong_save s mem .cr0 rfl, loadLong_save s mem .cr3 rfl,
    loadLong_save s mem .cr4 rfl, loadLong_save s mem .efer rfl]

/-! ### What arrives -/

theorem load_save_gpr (s d : Vt) (mem : Buf) :
    (loadGuestStateToVmcs (saveGuestCpuState s mem) d).gpr = s.gpr := by
  simp only [loadGuestStateToVmcs, loadLong_save s mem .rax rfl, loadLong_save s mem .rbx rfl,
    loadLong_save s mem .rcx rfl, loadLong_save s mem .rdx rfl, loadLong_save s mem .rdi rfl,
    loadLong_save s mem .rsi rfl, loadLong_save s mem .rbp rfl, loadLong_save s mem .r8 rfl,
    loadLong_save s mem .r9 rfl, loadLong_save s mem .r10 rfl, loadLong_save s mem .r11 rfl,
    loadLong_save s mem .r12 rfl, loadLong_save s mem .r13 rfl, loadLong_save s mem .r14 rfl,
    loadLong_save s mem .r15 rfl, loadLong_save s mem .cr2 rfl]

theorem load_save_plain (s d : Vt) (mem : Buf) :
    (loadGuestStateToVmcs (saveGuestCpuState s mem) d).plain = s.plain := by
  simp only [loadGuestStateToVmcs, loadLong_save s mem .rsp rfl, loadLong_save s mem .rflags rfl,
    loadLong_save s mem .rip rfl, loadLong_save s mem .dr7 rfl,
    loadLong_save s mem .sysenterCs rfl, loadLong_save s mem .sysenterEsp rfl,
    loadLong_save s mem .sysenterEip rfl]

/-- The descriptor table register with its limit cut to 16 bits. -/
def Desc.limit16 (t : Desc) : Desc := { t with limit := (t.limit.setWidth 16).setWidth 64 }

/-- The segments: selectors, the bases of FS and GS and the descriptor tables are the source's, the
access rights of CS and SS are constants, and the rest stays the destination's. -/
theorem load_save_segs (s d : Vt) (mem : Buf) :
    (loadGuestStateToVmcs (saveGuestCpuState s mem) d).segs =
      { es := { d.segs.es with sel := s.segs.es.sel }
        cs := { d.segs.cs with sel := s.segs.cs.sel, acr := 0xa09b }
        ss := { d.segs.ss with sel := s.segs.ss.sel, acr := 0x1c000 }
        ds := { d.segs.ds with sel := s.segs.ds.sel }
        fs := { d.segs.fs with sel := s.segs.fs.sel, base := s.segs.fs.base }
        gs := { d.segs.gs with sel := s.segs.gs.sel, base := s.segs.gs.base }
        ldtr := d.segs.ldtr
        tr := { d.segs.tr with sel := s.segs.tr.sel }
        gdtr := s.segs.gdtr.limit16
        idtr := s.segs.idtr.limit16 } := by
  have hsel : ∀ v : BitVec 16, (v.setWidth 64).setWidth 16 = v := fun v => by simp
  simp only [loadGuestStateToVmcs, loadLong_save s mem .esSel rfl, loadLong_save s mem .csSel rfl,
    loadLong_save s mem .ssSel rfl, loadLong_save s mem .dsSel rfl, loadLong_save s mem .fsSel rfl,
    loadLong_save s mem .gsSel rfl, loadLong_save s mem .trSel rfl, loadLong_save s mem .fsBase rfl,
    loadLong_save s mem .gsBase rfl, loadLong_save s mem .gdtrBase rfl,
    loadLong_save s mem .idtrBase rfl, loadShort_save s mem .gdtrLimit rfl,
    loadShort_save s mem .idtrLimit rfl, hsel, Desc.limit16]

/-- The cached copies that are sent are what the guest has in its MSRs. -/
def Msr.CachedCurrent (m : Msr) : Prop := m.guestOwns = true → m.cached = m.real

/-- They are once a process has taken the MSRs over. -/
theorem vtMsrStoreProcess64Msrs_cachedCurrent (by_ : SyscallMsrs) (m : Msr) :
    (vtMsrStoreProcess64Msrs by_ m).CachedCurrent ∧
      (vtMsrStoreProcess64Msrs by_ m).guest = m.guest := by
  obtain ⟨real, cached, _ | _⟩ := m
  · exact ⟨fun h => Bool.noConfusion h, rfl⟩
  · exact ⟨fun h => Bool.noConfusion h, rfl⟩

/-- The guest of the destination sees the cached copies of the source, apart from CSTAR. -/
theorem load_save_msr (s d : Vt) (mem : Buf) :
    (loadGuestStateToVmcs (saveGuestCpuState s mem) d).msr.guest =
      { s.msr.cached with cstar := d.msr.guest.cstar } := by
  simp only [loadGuestStateToVmcs, loadLong_save s mem .star rfl, loadLong_save s mem .lstar rfl,
    loadLong_save s mem .fmask rfl, loadLong_save s mem .kernelGsbase rfl, loadMsr,
    vtMsrOwnProcessMsrs, Msr.guest]
  split_ifs <;> rfl

/-- Every field of the source is the destination's. -/
structure SameState (s r : Vt) : Prop where
  segs : r.segs = s.segs
  gpr : r.gpr = s.gpr
  plain : r.plain = s.plain
  cr0 : r.ctl.guestCr0 = s.ctl.guestCr0
  cr3 : r.ctl.guestCr3 = s.ctl.guestCr3
  cr4 : r.ctl.guestCr4 = s.ctl.guestCr4
  efer : vtReadEfer r.ctl = vtReadEfer s.ctl
  msr : r.msr.guest = s.msr.guest

/-- What the destination `d` has become, `r`, after it has loaded the state of the source `s`. -/
structure Arrives (s d r : Vt) : Prop where
  gpr : r.gpr = s.gpr
  plain : r.plain = s.plain
  /-- CR0 and CR4 are the source's with the fixed bits of the destination. -/
  cr0 : r.ctl.guestCr0 = vtPagingApplyFixedCr0 d.ctl (cr0WithoutPe s.ctl.guestCr0)
  cr4 : r.ctl.guestCr4 = vtPagingApplyFixedCr4 d.ctl s.ctl.guestCr4
  cr0ReadShadow : r.ctl.cr0ReadShadow = s.ctl.guestCr0
  cr4ReadShadow : r.ctl.cr4ReadShadow = s.ctl.guestCr4 &&& 0xffffffffffffdfff
  guestCr3 : r.ctl.guestCr3 = s.ctl.guestCr3
  cr3 : vtReadCr3 r.ctl = s.ctl.guestCr3
  /-- EFER is 0xd01 for every guest in long mode. -/
  efer : vtReadEfer r.ctl =
    if cr0WithoutPe s.ctl.guestCr0 &&& cr0Pg != 0 then 0xd01 else 0x901
  selectors : r.segs.es.sel = s.segs.es.sel ∧ r.segs.cs.sel = s.segs.cs.sel ∧
    r.segs.ss.sel = s.segs.ss.sel ∧ r.segs.ds.sel = s.segs.ds.sel ∧
    r.segs.fs.sel = s.segs.fs.sel ∧ r.segs.gs.sel = s.segs.gs.sel ∧ r.segs.tr.sel = s.segs.tr.sel
  bases : r.segs.fs.base = s.segs.fs.base ∧ r.segs.gs.base = s.segs.gs.base
  tables : r.segs.gdtr = s.segs.gdtr.limit16 ∧ r.segs.idtr = s.segs.idtr.limit16
  /-- The access rights of CS and SS are constants. -/
  acrs : r.segs.cs.acr = 0xa09b ∧ r.segs.ss.acr = 0x1c000
  /-- The rest of the segments stays the destination's. -/
  kept : r.segs.es = { d.segs.es with sel := r.segs.es.sel } ∧
    r.segs.cs = { d.segs.cs with sel := r.segs.cs.sel, acr := r.segs.cs.acr } ∧
    r.segs.ss = { d.segs.ss with sel := r.segs.ss.sel, acr := r.segs.ss.acr } ∧
    r.segs.ds = { d.segs.ds with sel := r.segs.ds.sel } ∧
    r.segs.fs = { d.segs.fs with sel := r.segs.fs.sel, base := r.segs.fs.base } ∧
    r.segs.gs = { d.segs.gs with sel := r.segs.gs.sel, base := r.segs.gs.base } ∧
    r.segs.ldtr = d.segs.ldtr ∧ r.segs.tr = { d.segs.tr with sel := r.segs.tr.sel }
  /-- The guest has its syscall MSRs again, CSTAR excepted. -/
  msr : r.msr.guest = { s.msr.guest with cstar := d.msr.guest.cstar }

/-- Whatever the destination was before, the state it is left in is the source's in every field
that travels. -/
theorem loadGuestStateToVmcs_saveGuestCpuState (s d : Vt) (mem : Buf) (h : s.msr.CachedCurrent) :
    Arrives s d (loadGuestStateToVmcs (saveGuestCpuState s mem) d) := by
  have hctl := load_save_ctl s d mem
  have hsegs := load_save_segs s d mem
  have hmsr := load_save_msr s d mem
  have hguest : s.msr.cached = s.msr.guest := by
    unfold Msr.guest
    split_ifs with howns
    · exact h howns
    · rfl
  obtain ⟨⟨hf00, hf01, hf40, hf41⟩, hcr0, hshadow, hpg⟩ := vtWriteCr0_spec s.ctl.guestCr0 d.ctl
  generalize vtWriteCr0 s.ctl.guestCr0 d.ctl = c at *
  constructor
  case gpr => exact load_save_gpr s d mem
  case plain => exact load_save_plain s d mem
  case msr => rw [hmsr, hguest]
  case efer =>
    have hwritten : vtReadEfer (loadGuestStateToVmcs (saveGuestCpuState s mem) d).ctl =
        vtReadEfer (vtWriteEfer 0xd01 (vtWriteCr4 s.ctl.guestCr4 (vtPagingUpdatecr3
          (vtWriteCr3 s.ctl.guestCr3 c)))) := by
      rw [hctl]
      rfl
    rw [hwritten, vtReadEfer_vtWriteEfer, ← hpg]
    have hpg' : (vtWriteCr4 s.ctl.guestCr4 (vtPagingUpdatecr3
        (vtWriteCr3 s.ctl.guestCr3 c))).pg = c.pg := by
      rw [vtPagingUpdatecr3_vtWriteCr3, vtWriteCr4, vtPagingUpdatecr3_eq]
    rw [hpg']
    cases c.pg <;> decide
  case selectors =>
    rw [hsegs]
    exact ⟨rfl, rfl, rfl, rfl, rfl, rfl, rfl⟩
  case bases =>
    rw [hsegs]
    exact ⟨rfl, rfl⟩
  case tables =>
    rw [hsegs]
    exact ⟨rfl, rfl⟩
  case acrs =>
    rw [hsegs]
    exact ⟨rfl, rfl⟩
  case kept =>
    rw [hsegs]
    exact ⟨rfl, rfl, rfl, rfl, rfl, rfl, rfl, rfl⟩
  all_goals
    rw [vtPagingUpdatecr3_vtWriteCr3] at hctl
    simp only [vtWriteEfer, vtWriteCr4, vtPagingUpdatecr3_eq, vtMsrUpdateLma_eq] at hctl
    rw [hctl]
  case cr0 => exact hcr0
  case cr4 => simp only [vtPagingApplyFixedCr4, hf40, hf41]
  case cr0ReadShadow => exact hshadow
  case guestCr3 => by_cases hoff : c.cr3exitOff <;> simp [hoff]
  case cr3 => by_cases hoff : c.cr3exitOff <;> simp [vtReadCr3, hoff]

/-- A guest in long mode that has not enabled SYSCALL. -/
def noSyscallGuest : Vt where
  segs :=
    let seg : Sreg := ⟨0, 0, 0, 0⟩
    ⟨seg, seg, seg, seg, seg, seg, seg, seg, ⟨0, 0⟩, ⟨0, 0⟩⟩
  gpr := ⟨0, 0, 0, 0, 0, 0, 0, 0, 0, 0, 0, 0, 0, 0, 0, 0⟩
  plain := ⟨0, 0, 0, 0, 0, 0, 0⟩
  ctl :=
    { guestCr0 := 0x80000021, cr0ReadShadow := 0x80000021, guestCr3 := 0x1000, guestCr4 := 0x2020
      cr4ReadShadow := 0x20, efer := 0x500, entry64Guest := true, vrCr3 := 0x1000, pg := true
      lme := true, lma := true, cr3exitControllable := true, cr3exitOff := true
      cr0Fixed0 := 0x80000021, cr0Fixed1 := 0xffffffff, cr4Fixed0 := 0x2000
      cr4Fixed1 := 0x3767ff }
  msr := ⟨⟨0, 0, 0, 0, 0⟩, ⟨0, 0, 0, 0, 0⟩, false⟩
  virtio := ⟨0, 0, 0, 0⟩

/-- It has SYSCALL enabled after the migration: EFER is hard-coded. -/
theorem not_sameState_noSyscallGuest :
    ¬ ∀ s d mem, SameState s (loadGuestStateToVmcs (saveGuestCpuState s mem) d) := by
  intro h
  have hefer := (h noSyscallGuest noSyscallGuest fun _ => 0).efer
  rw [load_save_ctl] at hefer
  revert hefer
  decide

theorem arrives_noSyscallGuest : Arrives noSyscallGuest noSyscallGuest
    (loadGuestStateToVmcs (saveGuestCpuState noSyscallGuest fun _ => 0) noSyscallGuest) :=
  loadGuestStateToVmcs_saveGuestCpuState noSyscallGuest noSyscallGuest (fun _ => 0)
    fun h => Bool.noConfusion h

end OnDemandVirt.Migration
