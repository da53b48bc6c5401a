import OnDemandVirt.Lib.Machine
import OnDemandVirt.Vmm.MsrSafety

/-!
# Who has the SYSCALL registers

A run of guests and processes on the physical CPUs. The registers of the SYSCALL instruction move
to their next user only when it needs them; the invariant says where the last values that a guest
wrote are meanwhile.
-/

namespace OnDemandVirt.Vmm

open Lib MsrState

/-- The state with, for each virtual CPU, the values that its guest wrote last. -/
structure MsrRun where
  msr : MsrState
  written : Nat → SyscallMsr → BitVec 64
  eferWritten : Nat → BitVec 64

inductive MsrEvent
  /-- `vt_msr_own_process_msrs`, and the entry into the guest. -/
  | enter (v : Nat)
  | exit (v : Nat)
  /-- A WRMSR of the guest that does not exit. -/
  | guestWrmsr (v : Nat) (m : SyscallMsr) (msrdata : BitVec 64)
  | rdmsr (v : Nat) (index : BitVec 32)
  | wrmsr (v : Nat) (index : BitVec 32) (msrdata : BitVec 64)
  /-- `call_msgfunc0`, or the end of `process_syscall`. -/
  | process (c : Nat)
  | msrpass (v : Nat) (m : SyscallMsr) (wr pass : Bool)
  /-- The guest turns paging on or off. -/
  | setPg (v : Nat) (pg : Bool)

instance {α : Type} (a : MsrResult α) : Decidable a.Returns :=
  match a with
  | .ok _ | .gp => .isTrue trivial
  | .panic | .fault => .isFalse id

namespace MsrRun

variable (cpu : MsrCpu) (r : MsrRun)

def setMsr (s : MsrState) : MsrRun := { r with msr := s }

/-- The guest has written a register. -/
def note (v : Nat) (index : BitVec 32) (msrdata : BitVec 64) : MsrRun :=
  match msrCase index with
  | .syscall m =>
    { r with written := Function.update r.written v (Function.update (r.written v) m msrdata) }
  | .efer => { r with eferWritten := Function.update r.eferWritten v msrdata }
  | _ => r

/-- The physical CPU of `v` runs no guest. -/
def Idle (v : Nat) : Prop := (r.msr.pcpu (r.msr.home v)).running = none

instance (v : Nat) : Decidable (r.Idle v) := inferInstanceAs (Decidable (_ = _))

def enter (v : Nat) : MsrRun :=
  let s := r.msr.ownGuest cpu v
  r.setMsr (s.setPcpu (s.home v) { s.pcpu (s.home v) with running := some v })

def exit (v : Nat) : MsrRun :=
  let c := r.msr.home v
  r.setMsr (r.msr.setPcpu c { r.msr.pcpu c with running := none })

def guestWrmsr (v : Nat) (m : SyscallMsr) (msrdata : BitVec 64) : MsrRun :=
  if cpu.writeExc m.index msrdata = none then
    let c := r.msr.home v
    (r.setMsr (r.msr.setPcpu c
      { r.msr.pcpu c with hw := Function.update (r.msr.pcpu c).hw m msrdata })).note v m.index
        msrdata
  else r

def wrmsr (v : Nat) (index : BitVec 32) (msrdata : BitVec 64) : Option MsrRun :=
  match r.msr.vtWriteMsr cpu v index msrdata with
  | (.ok _, s) => some ((r.setMsr s).note v index msrdata)
  | (.gp, s) => some (r.setMsr s)
  | _ => none

def step : MsrEvent → Option MsrRun
  | .enter v => if r.Idle v then some (r.enter cpu v) else none
  | .exit v =>
    if (r.msr.pcpu (r.msr.home v)).running = some v then some (r.exit v) else none
  | .guestWrmsr v m msrdata =>
    if (r.msr.pcpu (r.msr.home v)).running = some v ∧ (r.msr.vcpu v).pass m true then
      some (r.guestWrmsr cpu v m msrdata)
    else none
  | .rdmsr v index =>
    if r.Idle v ∧ (r.msr.vtReadMsr cpu v index).1.Returns then
      some (r.setMsr (r.msr.vtReadMsr cpu v index).2)
    else none
  | .wrmsr v index msrdata => if r.Idle v then r.wrmsr cpu v index msrdata else none
  | .process c =>
    if (r.msr.pcpu c).running = none then some (r.setMsr (r.msr.ownProcess cpu c)) else none
  | .msrpass v m wr pass => some (r.setMsr (r.msr.vtMsrpass v m wr pass))
  | .setPg v pg =>
    if r.Idle v then
      some (r.setMsr (r.msr.setVcpu v (updateLma { r.msr.vcpu v with pg := pg })))
    else none

/-- The state after `vt_msr_init`, before the registers have an owner. -/
structure Init : Prop where
  saved : ∀ v m, (r.msr.vcpu v).saved m = 0
  written : ∀ v m, r.written v m = 0
  owner : ∀ c, (r.msr.pcpu c).owner = .none
  running : ∀ c, (r.msr.pcpu c).running = none
  efer : ∀ v, (r.msr.vcpu v).efer = 0
  eferWritten : ∀ v, r.eferWritten v = 0
  lme : ∀ v, (r.msr.vcpu v).lme = false
  lma : ∀ v, (r.msr.vcpu v).lma = false

end MsrRun

def msrMachine (cpu : MsrCpu) : Machine MsrRun MsrEvent where
  init := MsrRun.Init
  step := MsrRun.step cpu

/-- A CPU with the registers of SYSCALL: they can be read, and they take zero. -/
structure MsrCpu.HasSyscall (cpu : MsrCpu) : Prop where
  read : ∀ m : SyscallMsr, cpu.readExc m.index = none
  zero : ∀ m : SyscallMsr, cpu.writeExc m.index 0 = none

/-- Where the values are that a guest wrote last: in hardware while its virtual CPU owns the
registers, in the virtual CPU otherwise. -/
structure MsrInv (cpu : MsrCpu) (r : MsrRun) : Prop where
  home : ∀ c v, (r.msr.pcpu c).owner = .guest v → r.msr.home v = c
  running : ∀ c v, (r.msr.pcpu c).running = some v → (r.msr.pcpu c).owner = .guest v
  hw : ∀ c v, (r.msr.pcpu c).owner = .guest v → (r.msr.pcpu c).hw = r.written v
  saved : ∀ v, (r.msr.pcpu (r.msr.home v)).owner ≠ .guest v →
    (r.msr.vcpu v).saved = r.written v
  accepted : ∀ v m, cpu.writeExc m.index (r.written v m) = none

variable {cpu : MsrCpu} {r : MsrRun} {s s' : MsrState} {v c : Nat} {o : MsrOwner}

/-! ### A change of owner -/

theorem release_pcpu : (s.release cpu c).pcpu = s.pcpu := by
  unfold release
  split <;> rfl

theorem release_home : (s.release cpu c).home = s.home := by
  unfold release
  split <;> rfl

/-- What a release leaves in the virtual CPU `v`. -/
theorem release_saved (hcpu : cpu.HasSyscall) :
    ((s.release cpu c).vcpu v).saved =
      if (s.pcpu c).owner = .guest v then (s.pcpu c).hw else (s.vcpu v).saved := by
  unfold release
  split
  · rename_i h
    rw [if_neg (by simp [h])]
  · rename_i h
    rw [if_neg (by simp [h])]
  · rename_i u h
    rcases eq_or_ne u v with rfl | hne
    · simp [store, setVcpu, hcpu.read, h]
    · simp [store, setVcpu, h, hne, hne.symm]

/-- The registers of CPU `c` get the owner `o`, and the values of its guest if it is one. -/
structure MovesTo (r : MsrRun) (c : Nat) (o : MsrOwner) (s' : MsrState) : Prop where
  home : s'.home = r.msr.home
  saved : ∀ v, (s'.vcpu v).saved =
    if (r.msr.pcpu c).owner = .guest v then (r.msr.pcpu c).hw else (r.msr.vcpu v).saved
  others : ∀ c', c' ≠ c → s'.pcpu c' = r.msr.pcpu c'
  running : (s'.pcpu c).running = (r.msr.pcpu c).running
  owner : (s'.pcpu c).owner = o
  hw : ∀ v, o = .guest v → r.msr.home v = c ∧ (s'.pcpu c).hw = r.written v

theorem MsrInv.movesTo (hi : MsrInv cpu r) (hidle : (r.msr.pcpu c).running = none)
    (hm : MovesTo r c o s') : MsrInv cpu (r.setMsr s') := by
  refine ⟨fun c' v h => ?_, fun c' v h => ?_, fun c' v h => ?_, fun v h => ?_, hi.accepted⟩
  · simp only [MsrRun.setMsr, hm.home] at h ⊢
    rcases eq_or_ne c' c with rfl | hne
    · exact (hm.hw v (hm.owner ▸ h)).1
    · exact hi.home c' v (hm.others c' hne ▸ h)
  · simp only [MsrRun.setMsr] at h ⊢
    rcases eq_or_ne c' c with rfl | hne
    · rw [hm.running, hidle] at h
      cases h
    · rw [hm.others c' hne] at h ⊢
      exact hi.running c' v h
  · simp only [MsrRun.setMsr] at h ⊢
    rcases eq_or_ne c' c with rfl | hne
    · exact (hm.hw v (hm.owner ▸ h)).2
    · rw [hm.others c' hne] at h ⊢
      exact hi.hw c' v h
  · simp only [MsrRun.setMsr, hm.home] at h ⊢
    rw [hm.saved v]
    split
    · rename_i hc
      exact hi.hw c v hc
    · rename_i hc
      refine hi.saved v fun hv => ?_
      rcases eq_or_ne (r.msr.home v) c with heq | hne
      · exact hc (heq ▸ hv)
      · exact h ((hm.others _ hne).symm ▸ hv)

/-- The registers change hands only when the owner does. -/
theorem ownProcess64Msrs_of_eq (h : (s.pcpu c).owner = o) :
    s.ownProcess64Msrs cpu c o = (s, false) := if_pos h

theorem ownProcess64Msrs_of_ne (h : (s.pcpu c).owner ≠ o) :
    s.ownProcess64Msrs cpu c o =
      ((s.release cpu c).setPcpu c { s.pcpu c with owner := o }, true) := by
  rw [ownProcess64Msrs, if_neg h]
  simp only [release_pcpu]

theorem ownProcess_of_eq (h : (s.pcpu c).owner = .process) : s.ownProcess cpu c = s := by
  rw [ownProcess, ownProcess64Msrs_of_eq h]
  rfl

theorem ownGuest_of_eq (h : (s.pcpu (s.home v)).owner = .guest v) : s.ownGuest cpu v = s := by
  rw [ownGuest, ownProcess64Msrs_of_eq h]
  rfl

theorem MsrInv.movesTo_ownProcess (hcpu : cpu.HasSyscall) (hne : (r.msr.pcpu c).owner ≠ .process) :
    MovesTo r c .process (r.msr.ownProcess cpu c) := by
  rw [ownProcess, ownProcess64Msrs_of_ne hne]
  refine ⟨release_home, fun v => release_saved hcpu, fun c' h => ?_, ?_, ?_, fun v h => by cases h⟩
  · simp [setPcpu, h, release_pcpu]
  · simp [setPcpu]
  · simp [setPcpu]

theorem MsrInv.movesTo_ownGuest (hi : MsrInv cpu r) (hcpu : cpu.HasSyscall)
    (hne : (r.msr.pcpu (r.msr.home v)).owner ≠ .guest v) :
    MovesTo r (r.msr.home v) (.guest v) (r.msr.ownGuest cpu v) := by
  -- What the load reads is what the guest wrote last, and the CPU takes it.
  have hsaved : ((r.msr.release cpu (r.msr.home v)).vcpu v).saved = r.written v := by
    rw [release_saved hcpu, if_neg hne]
    exact hi.saved v hne
  rw [ownGuest, ownProcess64Msrs_of_ne hne]
  refine ⟨release_home, fun v => release_saved hcpu, fun c' h => ?_, ?_, ?_, ?_⟩
  · simp [load, setPcpu, h, release_pcpu]
  · simp [load, setPcpu]
  · simp [load, setPcpu]
  · rintro u h
    cases h
    refine ⟨rfl, funext fun m => ?_⟩
    simp [load, setPcpu, hsaved, hi.accepted]

theorem MsrInv.ownGuest (hi : MsrInv cpu r) (hcpu : cpu.HasSyscall) (hidle : r.Idle v) :
    MsrInv cpu (r.setMsr (r.msr.ownGuest cpu v)) := by
  by_cases h : (r.msr.pcpu (r.msr.home v)).owner = .guest v
  · rw [ownGuest_of_eq h]
    exact hi
  · exact hi.movesTo hidle (hi.movesTo_ownGuest hcpu h)

/-- After `vt_msr_own_process_msrs`, hardware has what the guest wrote last. -/
theorem MsrInv.hw_ownGuest (hi : MsrInv cpu r) (hcpu : cpu.HasSyscall) :
    ((r.msr.ownGuest cpu v).pcpu (r.msr.home v)).owner = .guest v ∧
      ((r.msr.ownGuest cpu v).pcpu (r.msr.home v)).hw = r.written v := by
  by_cases h : (r.msr.pcpu (r.msr.home v)).owner = .guest v
  · rw [ownGuest_of_eq h]
    exact ⟨h, hi.hw _ v h⟩
  · have hm := hi.movesTo_ownGuest hcpu h
    exact ⟨hm.owner, (hm.hw v rfl).2⟩

theorem home_ownGuest (cpu : MsrCpu) (s : MsrState) (v : Nat) :
    (s.ownGuest cpu v).home = s.home := by
  unfold MsrState.ownGuest ownProcess64Msrs
  split <;> simp [load, setPcpu, release_home]

/-! ### EFER -/

/-- A virtual CPU whose guest wrote `w` to EFER last: the bits LME and LMA are kept beside the
register, and LMA follows LME and paging. -/
structure EferOk (w : BitVec 64) (d : VcpuMsr) : Prop where
  efer : d.efer &&& ~~~eferMask = w &&& ~~~eferMask
  lme : d.lme = hasBit w eferLmeBit
  lma : d.lma = (d.lme && d.pg)

theorem eferOk_updateLma {w : BitVec 64} {d : VcpuMsr}
    (he : d.efer &&& ~~~eferMask = w &&& ~~~eferMask) (hl : d.lme = hasBit w eferLmeBit) :
    EferOk w (updateLma d) := by
  have hor : (d.efer ||| eferMask) &&& ~~~eferMask = d.efer &&& ~~~eferMask := by
    ext i hi
    simp
    grind
  have hand : (d.efer &&& ~~~eferMask) &&& ~~~eferMask = d.efer &&& ~~~eferMask := by
    rw [BitVec.and_assoc, BitVec.and_self]
  unfold updateLma
  split
  · rename_i hc
    split
    · rename_i hm
      exact ⟨he, hl, by rw [hm, hc]⟩
    · refine ⟨?_, hl, hc.symm⟩
      cases d.eferKept
      · exact he
      · exact hor.trans he
  · rename_i hc
    have hc : (d.lme && d.pg) = false := by simpa using hc
    split
    · rename_i hm
      exact ⟨he, hl, by simp_all⟩
    · refine ⟨?_, hl, hc.symm⟩
      cases d.eferKept
      · exact he
      · exact hand.trans he

/-- What the guest reads from EFER after it wrote `w`: its value, but for LMA. -/
theorem readEfer_of_ok {w : BitVec 64} (h : EferOk w (s.vcpu v)) (hk : (s.vcpu v).eferKept = true) :
    s.readEfer v =
      .ok ((w &&& ~~~eferLmaBit) |||
        if hasBit w eferLmeBit && (s.vcpu v).pg then eferLmaBit else 0) := by
  have hlme : (w &&& ~~~eferMask ||| if hasBit w eferLmeBit then eferLmeBit else 0) =
      w &&& ~~~eferLmaBit := by
    have hbit : (if hasBit w eferLmeBit then eferLmeBit else 0) = w &&& eferLmeBit := by
      have htwo : eferLmeBit = BitVec.twoPow 64 8 := by decide
      rw [hasBit, htwo, BitVec.and_twoPow]
      cases w.getLsbD 8 <;> decide
    rw [hbit, ← BitVec.and_or_distrib_left]
    exact congrArg _ (by decide)
  have hor : ∀ (x y : BitVec 64) (b : Bool),
      (if b then x ||| y else x) = x ||| if b then y else 0 := by
    intro x y b
    cases b <;> simp
  simp only [readEfer, readGuestEfer, hk, if_true]
  rw [hor, hor, h.efer, h.lma, h.lme, hlme]

/-! ### A run -/

/-- A step that leaves the registers of SYSCALL where they are. -/
structure KeepsRegs (s s' : MsrState) : Prop where
  home : s'.home = s.home
  pcpu : s'.pcpu = s.pcpu
  saved : ∀ v, (s'.vcpu v).saved = (s.vcpu v).saved

theorem MsrInv.keepsRegs {r' : MsrRun} (hi : MsrInv cpu r) (h : KeepsRegs r.msr r'.msr)
    (hw : r'.written = r.written) : MsrInv cpu r' := by
  obtain ⟨hhome, hpcpu, hsaved⟩ := h
  constructor <;> simp only [hhome, hpcpu, hsaved, hw]
  · exact hi.home
  · exact hi.running
  · exact hi.hw
  · exact hi.saved
  · exact hi.accepted

/-- What EFER is kept in. -/
def VcpuMsr.eferPart (d : VcpuMsr) : BitVec 64 × Bool × Bool × Bool := (d.efer, d.lme, d.lma, d.pg)

theorem EferOk.congr {w : BitVec 64} {d d' : VcpuMsr} (h : EferOk w d)
    (hd : d'.eferPart = d.eferPart) : EferOk w d' := by
  simp only [VcpuMsr.eferPart, Prod.mk.injEq] at hd
  obtain ⟨he, hme, hma, hpg⟩ := hd
  exact ⟨he ▸ h.efer, hme ▸ h.lme, by rw [hma, hme, hpg, h.lma]⟩

theorem keepsRegs_setVcpu {d : VcpuMsr} (h : d.saved = (s.vcpu v).saved) :
    KeepsRegs s (s.setVcpu v d) := by
  refine ⟨rfl, rfl, fun u => ?_⟩
  rcases eq_or_ne u v with rfl | hne
  · simp [setVcpu, h]
  · simp [setVcpu, hne]

theorem eferPart_setVcpu {d : VcpuMsr} (h : d.eferPart = (s.vcpu v).eferPart) (u : Nat) :
    ((s.setVcpu v d).vcpu u).eferPart = (s.vcpu u).eferPart := by
  rcases eq_or_ne u v with rfl | hne
  · simp [setVcpu, h]
  · simp [setVcpu, hne]

theorem eferPart_release (cpu : MsrCpu) (s : MsrState) (c u : Nat) :
    ((s.release cpu c).vcpu u).eferPart = (s.vcpu u).eferPart := by
  unfold release
  split
  · rfl
  · rfl
  · refine eferPart_setVcpu ?_ u
    rfl

theorem eferPart_ownGuest (cpu : MsrCpu) (s : MsrState) (v u : Nat) :
    ((s.ownGuest cpu v).vcpu u).eferPart = (s.vcpu u).eferPart := by
  unfold MsrState.ownGuest ownProcess64Msrs
  split
  · rfl
  · exact eferPart_release cpu s _ u

theorem eferPart_ownProcess (cpu : MsrCpu) (s : MsrState) (c u : Nat) :
    ((s.ownProcess cpu c).vcpu u).eferPart = (s.vcpu u).eferPart := by
  unfold MsrState.ownProcess ownProcess64Msrs
  split
  · rfl
  · exact eferPart_release cpu s _ u

theorem saved_updateLma (d : VcpuMsr) : (updateLma d).saved = d.saved := by
  unfold updateLma
  repeat' split
  all_goals rfl

/-- A write of another register than those of SYSCALL and EFER. -/
theorem keeps_vtWriteMsr {index : BitVec 32} {msrdata : BitVec 64}
    (hs : ∀ m, msrCase index ≠ .syscall m) (he : msrCase index ≠ .efer) :
    KeepsRegs s (s.vtWriteMsr cpu v index msrdata).2 ∧
      ∀ u, ((s.vtWriteMsr cpu v index msrdata).2.vcpu u).eferPart = (s.vcpu u).eferPart := by
  have hcache : ∀ a, KeepsRegs s (s.writeCache v a).2 ∧
      ∀ u, ((s.writeCache v a).2.vcpu u).eferPart = (s.vcpu u).eferPart := by
    intro a
    cases a with
    | none => exact ⟨⟨rfl, rfl, fun _ => rfl⟩, fun _ => rfl⟩
    | some d => exact ⟨keepsRegs_setVcpu rfl, eferPart_setVcpu rfl⟩
  have hpass : KeepsRegs s (s.passWriteMsr cpu v index msrdata).2 ∧
      ∀ u, ((s.passWriteMsr cpu v index msrdata).2.vcpu u).eferPart = (s.vcpu u).eferPart := by
    have hself : KeepsRegs s s ∧ ∀ u, (s.vcpu u).eferPart = (s.vcpu u).eferPart :=
      ⟨⟨rfl, rfl, fun _ => rfl⟩, fun _ => rfl⟩
    unfold passWriteMsr
    split
    · exact hself
    · split
      · split
        · exact ⟨keepsRegs_setVcpu rfl, eferPart_setVcpu rfl⟩
        · exact hself
      · split
        · split
          · exact hself
          · split <;> exact hself
        · split
          · simp only
            split <;> exact ⟨⟨rfl, rfl, fun _ => rfl⟩, fun _ => rfl⟩
          · exact hself
  unfold vtWriteMsr
  split
  · exact ⟨keepsRegs_setVcpu rfl, eferPart_setVcpu rfl⟩
  · exact absurd ‹_› he
  · exact absurd ‹_› (hs _)
  · exact hcache _
  · exact hpass
  · exact hpass
  · exact hcache _

theorem msrCase_index (m : SyscallMsr) : msrCase m.index = .syscall m := by
  cases m <;> rfl

theorem setPcpu_self {d : PcpuMsr} : (s.setPcpu c d).pcpu c = d := by simp [setPcpu]

theorem setPcpu_of_ne {d : PcpuMsr} {c' : Nat} (h : c' ≠ c) :
    (s.setPcpu c d).pcpu c' = s.pcpu c' := by simp [setPcpu, h]

/-- A CPU goes into the guest that owns the registers, or out of one. -/
theorem MsrInv.setRunning {x : Option Nat} (hi : MsrInv cpu r)
    (h : ∀ v, x = some v → (r.msr.pcpu c).owner = .guest v) :
    MsrInv cpu (r.setMsr (r.msr.setPcpu c { r.msr.pcpu c with running := x })) := by
  have howner : ∀ c', ((r.msr.setPcpu c { r.msr.pcpu c with running := x }).pcpu c').owner =
      (r.msr.pcpu c').owner := by
    intro c'
    rcases eq_or_ne c' c with rfl | hne
    · rw [setPcpu_self]
    · rw [setPcpu_of_ne hne]
  have hhw : ∀ c', ((r.msr.setPcpu c { r.msr.pcpu c with running := x }).pcpu c').hw =
      (r.msr.pcpu c').hw := by
    intro c'
    rcases eq_or_ne c' c with rfl | hne
    · rw [setPcpu_self]
    · rw [setPcpu_of_ne hne]
  constructor <;> simp only [MsrRun.setMsr, howner, hhw]
  · exact hi.home
  · intro c' v hr
    rcases eq_or_ne c' c with rfl | hne
    · rw [setPcpu_self] at hr
      exact h v hr
    · rw [setPcpu_of_ne hne] at hr
      exact hi.running c' v hr
  · exact hi.hw
  · exact hi.saved
  · exact hi.accepted

/-- The guest that owns the registers writes one. -/
theorem MsrInv.write {m : SyscallMsr} {x : BitVec 64} (hi : MsrInv cpu r)
    (ho : (r.msr.pcpu (r.msr.home v)).owner = .guest v) (ha : cpu.writeExc m.index x = none) :
    MsrInv cpu ((r.setMsr (r.msr.setPcpu (r.msr.home v)
      { r.msr.pcpu (r.msr.home v) with
        hw := Function.update (r.msr.pcpu (r.msr.home v)).hw m x })).note v m.index x) := by
  simp only [MsrRun.note, msrCase_index]
  refine ⟨fun c' u h => ?_, fun c' u h => ?_, fun c' u h => ?_, fun u h => ?_, fun u m' => ?_⟩ <;>
    simp only [MsrRun.setMsr] at *
  · rcases eq_or_ne c' (r.msr.home v) with rfl | hne
    · rw [setPcpu_self] at h
      exact hi.home _ u h
    · rw [setPcpu_of_ne hne] at h
      exact hi.home _ u h
  · rcases eq_or_ne c' (r.msr.home v) with rfl | hne
    · rw [setPcpu_self] at h ⊢
      exact hi.running _ u h
    · rw [setPcpu_of_ne hne] at h ⊢
      exact hi.running _ u h
  · rcases eq_or_ne c' (r.msr.home v) with rfl | hne
    · rw [setPcpu_self] at h ⊢
      obtain rfl : v = u := by simpa [ho] using h
      rw [Function.update_self]
      exact congrArg (Function.update · m x) (hi.hw _ v ho)
    · rw [setPcpu_of_ne hne] at h ⊢
      have huv : u ≠ v := fun he => hne ((he ▸ hi.home c' u h).symm)
      rw [Function.update_of_ne huv]
      exact hi.hw c' u h
  · have huv : u ≠ v := by
      rintro rfl
      exact h (by simpa [setPcpu] using ho)
    rw [Function.update_of_ne huv]
    refine hi.saved u fun hu => h ?_
    rcases eq_or_ne (r.msr.home u) (r.msr.home v) with heq | hne
    · simpa [setPcpu, heq] using hu
    · simpa [setPcpu, hne] using hu
  · rcases eq_or_ne u v with rfl | huv
    · rw [Function.update_self]
      rcases eq_or_ne m' m with rfl | hm
      · rwa [Function.update_self]
      · rw [Function.update_of_ne hm]
        exact hi.accepted u m'
    · rw [Function.update_of_ne huv]
      exact hi.accepted u m'

/-- The invariant of a run. -/
structure MsrGood (cpu : MsrCpu) (r : MsrRun) : Prop where
  regs : MsrInv cpu r
  efer : ∀ v, EferOk (r.eferWritten v) (r.msr.vcpu v)

theorem msrGood_init (hcpu : cpu.HasSyscall) (h : r.Init) : MsrGood cpu r where
  regs :=
    { home := fun c v hv => by simp [h.owner c] at hv
      running := fun c v hv => by simp [h.running c] at hv
      hw := fun c v hv => by simp [h.owner c] at hv
      saved := fun v _ => funext fun m => (h.saved v m).trans (h.written v m).symm
      accepted := fun v m => by rw [h.written v m, hcpu.zero m] }
  efer := fun v => by
    refine ⟨?_, ?_, ?_⟩
    · rw [h.efer v, h.eferWritten v]
    · rw [h.lme v, h.eferWritten v]
      rfl
    · rw [h.lma v, h.lme v]
      rfl

theorem MsrGood.keeps (hg : MsrGood cpu r) (hk : KeepsRegs r.msr s')
    (he : ∀ u, (s'.vcpu u).eferPart = (r.msr.vcpu u).eferPart) : MsrGood cpu (r.setMsr s') :=
  ⟨hg.regs.keepsRegs hk rfl, fun v => (hg.efer v).congr (he v)⟩

theorem MsrGood.ownGuest (hg : MsrGood cpu r) (hcpu : cpu.HasSyscall) (hidle : r.Idle v) :
    MsrGood cpu (r.setMsr (r.msr.ownGuest cpu v)) :=
  ⟨hg.regs.ownGuest hcpu hidle, fun u => (hg.efer u).congr (eferPart_ownGuest cpu r.msr v u)⟩

theorem MsrGood.ownProcess (hg : MsrGood cpu r) (hcpu : cpu.HasSyscall)
    (hidle : (r.msr.pcpu c).running = none) : MsrGood cpu (r.setMsr (r.msr.ownProcess cpu c)) := by
  refine ⟨?_, fun u => (hg.efer u).congr (eferPart_ownProcess cpu r.msr c u)⟩
  by_cases h : (r.msr.pcpu c).owner = .process
  · rw [ownProcess_of_eq h]
    exact hg.regs
  · exact hg.regs.movesTo hidle (MsrInv.movesTo_ownProcess hcpu h)

theorem MsrGood.enter (hg : MsrGood cpu r) (hcpu : cpu.HasSyscall) (hidle : r.Idle v) :
    MsrGood cpu (r.enter cpu v) := by
  have ho := hg.ownGuest hcpu hidle
  refine ⟨ho.regs.setRunning ?_, ho.efer⟩
  rintro u h
  cases h
  rw [MsrRun.setMsr, home_ownGuest]
  exact (hg.regs.hw_ownGuest hcpu).1

theorem MsrGood.vtReadMsr {index : BitVec 32} (hg : MsrGood cpu r) (hcpu : cpu.HasSyscall)
    (hidle : r.Idle v) : MsrGood cpu (r.setMsr (r.msr.vtReadMsr cpu v index).2) := by
  unfold MsrState.vtReadMsr
  split
  · exact hg
  · exact hg
  · exact hg.ownGuest hcpu hidle
  · exact hg
  · exact hg
  · exact hg
  · exact hg

/-- The case of EFER in `vt_write_msr`. -/
theorem writeEfer_spec (msrdata : BitVec 64) (hk : (s.vcpu v).eferKept = true) :
    ∃ d, s.writeEfer v msrdata = (.ok (), s.setVcpu v d) ∧ d.saved = (s.vcpu v).saved ∧
      EferOk msrdata d := by
  refine ⟨updateLma
    { s.vcpu v with
      lme := hasBit msrdata eferLmeBit
      efer := (s.vcpu v).efer &&& eferMask ||| msrdata &&& ~~~eferMask }, ?_, ?_, ?_⟩
  · simp only [writeEfer, readGuestEfer, hk, if_true]
  · exact saved_updateLma _
  · refine eferOk_updateLma ?_ rfl
    ext i hi
    simp
    grind

theorem index_of_msrCase {index : BitVec 32} {m : SyscallMsr} (h : msrCase index = .syscall m) :
    index = m.index := by
  unfold msrCase at h
  split at h <;> try cases h
  all_goals first
    | exact BitVec.eq_of_toNat_eq ‹_›
    | split at h <;> cases h

theorem MsrGood.wrmsr {index : BitVec 32} {msrdata : BitVec 64} {r' : MsrRun} (hg : MsrGood cpu r)
    (hcpu : cpu.HasSyscall) (hidle : r.Idle v) (h : r.wrmsr cpu v index msrdata = some r') :
    MsrGood cpu r' := by
  unfold MsrRun.wrmsr at h
  by_cases hs : ∃ m, msrCase index = .syscall m
  · obtain ⟨m, hm⟩ := hs
    obtain rfl := index_of_msrCase hm
    have ho := hg.ownGuest hcpu hidle
    have hown : ((r.setMsr (r.msr.ownGuest cpu v)).msr.pcpu
        ((r.setMsr (r.msr.ownGuest cpu v)).msr.home v)).owner = .guest v := by
      simp only [MsrRun.setMsr, home_ownGuest]
      exact (hg.regs.hw_ownGuest hcpu).1
    simp only [MsrState.vtWriteMsr, hm] at h
    cases hx : cpu.writeExc m.index msrdata with
    | none =>
      simp only [hx] at h
      obtain rfl := Option.some.inj h
      refine ⟨ho.regs.write hown hx, fun u => ?_⟩
      simp only [MsrRun.note, hm]
      exact ho.efer u
    | some e =>
      simp only [hx] at h
      cases h
  · have hs : ∀ m, msrCase index ≠ .syscall m := fun m hm => hs ⟨m, hm⟩
    by_cases he : msrCase index = .efer
    · simp only [MsrState.vtWriteMsr, he] at h
      by_cases hk : (r.msr.vcpu v).eferKept = true
      · obtain ⟨d, hd, hsaved, hok⟩ := writeEfer_spec msrdata hk
        rw [hd] at h
        obtain rfl := Option.some.inj h
        simp only [MsrRun.note, he]
        refine ⟨hg.regs.keepsRegs (keepsRegs_setVcpu hsaved) rfl, fun u => ?_⟩
        simp only [MsrRun.setMsr, setVcpu]
        rcases eq_or_ne u v with rfl | huv
        · rwa [Function.update_self, Function.update_self]
        · rw [Function.update_of_ne huv, Function.update_of_ne huv]
          exact hg.efer u
      · simp [MsrState.writeEfer, readGuestEfer, hk] at h
        rw [← h]
        exact hg
    · have hkeeps : KeepsRegs r.msr (r.msr.vtWriteMsr cpu v index msrdata).2 ∧ _ :=
        keeps_vtWriteMsr hs he
      have hgood := hg.keeps hkeeps.1 hkeeps.2
      split at h
      · rename_i s' hw
        obtain rfl := Option.some.inj h
        rw [hw] at hgood
        unfold MsrRun.note
        split
        · exact absurd ‹_› (hs _)
        · exact absurd ‹_› he
        · exact hgood
      · rename_i s' hw
        obtain rfl := Option.some.inj h
        rw [hw] at hgood
        exact hgood
      · cases h

/-- Each step of a run keeps the invariant. -/
theorem msrGood_step (hcpu : cpu.HasSyscall) {e : MsrEvent} {r' : MsrRun} (hg : MsrGood cpu r)
    (h : r.step cpu e = some r') : MsrGood cpu r' := by
  cases e with
  | enter v =>
    obtain ⟨hidle, hr⟩ := Option.ite_none_right_eq_some.mp h
    obtain rfl := Option.some.inj hr
    exact hg.enter hcpu hidle
  | exit v =>
    obtain ⟨-, hr⟩ := Option.ite_none_right_eq_some.mp h
    obtain rfl := Option.some.inj hr
    exact ⟨hg.regs.setRunning (fun u hv => by cases hv), hg.efer⟩
  | guestWrmsr v m msrdata =>
    obtain ⟨⟨hrun, -⟩, hr⟩ := Option.ite_none_right_eq_some.mp h
    obtain rfl := Option.some.inj hr
    unfold MsrRun.guestWrmsr
    split
    · rename_i ha
      refine ⟨hg.regs.write (hg.regs.running _ v hrun) ha, fun u => ?_⟩
      simp only [MsrRun.note, msrCase_index]
      exact hg.efer u
    · exact hg
  | rdmsr v index =>
    obtain ⟨⟨hidle, -⟩, hr⟩ := Option.ite_none_right_eq_some.mp h
    obtain rfl := Option.some.inj hr
    exact hg.vtReadMsr hcpu hidle
  | wrmsr v index msrdata =>
    obtain ⟨hidle, hr⟩ := Option.ite_none_right_eq_some.mp h
    exact hg.wrmsr hcpu hidle hr
  | process c =>
    obtain ⟨hidle, hr⟩ := Option.ite_none_right_eq_some.mp h
    obtain rfl := Option.some.inj hr
    exact hg.ownProcess hcpu hidle
  | msrpass v m wr pass =>
    obtain rfl := Option.some.inj h
    exact hg.keeps (keepsRegs_setVcpu rfl) (eferPart_setVcpu rfl)
  | setPg v pg =>
    obtain ⟨-, hr⟩ := Option.ite_none_right_eq_some.mp h
    obtain rfl := Option.some.inj hr
    refine ⟨hg.regs.keepsRegs (keepsRegs_setVcpu (saved_updateLma _)) rfl, fun u => ?_⟩
    simp only [MsrRun.setMsr, setVcpu]
    rcases eq_or_ne u v with rfl | huv
    · rw [Function.update_self]
      exact eferOk_updateLma (hg.efer u).efer (hg.efer u).lme
    · rw [Function.update_of_ne huv]
      exact hg.efer u

theorem msrGood_of_reachable (hcpu : cpu.HasSyscall) (h : (msrMachine cpu).Reachable r) :
    MsrGood cpu r :=
  Machine.ReachableWhen.invariant (I := MsrGood cpu) (fun _ => msrGood_init hcpu)
    (fun _ _ _ hg _ hs => msrGood_step hcpu hg hs) h

/-- In every run: while a guest runs, or owns the registers, hardware has the values that it wrote
last; a read that exits returns them; and a read of EFER returns the value written last, but for
LMA, which says whether LME and paging are both on. -/
theorem guest_reads_written (hcpu : cpu.HasSyscall) (h : (msrMachine cpu).Reachable r) (v : Nat) :
    (∀ c, (r.msr.pcpu c).running = some v → (r.msr.pcpu c).owner = .guest v) ∧
      (∀ c, (r.msr.pcpu c).owner = .guest v → ∀ m, (r.msr.pcpu c).hw m = r.written v m) ∧
      (∀ m : SyscallMsr, (r.msr.vtReadMsr cpu v m.index).1 = .ok (r.written v m)) ∧
      ((r.msr.vcpu v).eferKept = true →
        (r.msr.vtReadMsr cpu v msrIa32Efer).1 =
          .ok ((r.eferWritten v &&& ~~~eferLmaBit) |||
            if hasBit (r.eferWritten v) eferLmeBit && (r.msr.vcpu v).pg then eferLmaBit else 0)) := by
  have hg := msrGood_of_reachable hcpu h
  refine ⟨fun c hc => hg.regs.running c v hc, fun c hc m => ?_, fun m => ?_, fun hk => ?_⟩
  · exact congrFun (hg.regs.hw c v hc) m
  · have hcase := msrCase_index m
    simp only [MsrState.vtReadMsr, hcase, home_ownGuest, hcpu.read m, syscallResult]
    rw [(hg.regs.hw_ownGuest hcpu).2]
  · exact readEfer_of_ok (hg.efer v) hk

/-- The state after `vt_msr_init` of a virtual CPU on each physical CPU. -/
def MsrRun.initial : MsrRun where
  msr := MsrState.initial
  written _ _ := 0
  eferWritten _ := 0

theorem MsrRun.initial_init : MsrRun.initial.Init where
  saved _ _ := rfl
  written _ _ := rfl
  owner _ := rfl
  running _ := rfl
  efer _ := rfl
  eferWritten _ := rfl
  lme _ := rfl
  lma _ := rfl

theorem plainCpu_hasSyscall : plainCpu.HasSyscall where
  read _ := rfl
  zero _ := rfl

/-- A guest writes LSTAR without an exit, then a process runs, then the guest reads it. -/
theorem guest_reads_written_lstar :
    ∃ r : MsrRun, (msrMachine plainCpu).Reachable r ∧
      (r.msr.pcpu 0).owner = .process ∧ (r.msr.pcpu 0).hw .lstar = 0x40100000 ∧
      (r.msr.vtReadMsr plainCpu 0 SyscallMsr.lstar.index).1 = .ok 0xFFFFFFFF81000000 := by
  have hrun : ∃ r : MsrRun, (msrMachine plainCpu).Reachable r ∧
      (r.msr.pcpu 0).owner = .process ∧ (r.msr.pcpu 0).hw .lstar = 0x40100000 ∧
      r.written 0 .lstar = 0xFFFFFFFF81000000 :=
    ⟨_, Machine.Reachable.run (.init MsrRun.initial_init)
      [.enter 0, .guestWrmsr 0 .lstar 0xFFFFFFFF81000000, .exit 0, .process 0] rfl, rfl, rfl, rfl⟩
  obtain ⟨r, hr, ho, hh, hw⟩ := hrun
  refine ⟨r, hr, ho, hh, ?_⟩
  rw [← hw]
  exact (guest_reads_written plainCpu_hasSyscall hr 0).2.2.1 .lstar

/-- A guest that sets only LMA in EFER reads zero. -/
theorem efer_lma_not_written :
    ¬ ∀ cpu : MsrCpu, cpu.HasSyscall → ∀ r : MsrRun, (msrMachine cpu).Reachable r → ∀ v,
      (r.msr.vcpu v).eferKept = true →
        (r.msr.vtReadMsr cpu v msrIa32Efer).1 = .ok (r.eferWritten v) := by
  intro h
  have hrun : ∃ r : MsrRun, (msrMachine plainCpu).Reachable r ∧ (r.msr.vcpu 0).eferKept = true ∧
      (r.msr.vtReadMsr plainCpu 0 msrIa32Efer).1 = .ok 0 ∧ r.eferWritten 0 = 0x400 :=
    ⟨_, Machine.Reachable.run (.init MsrRun.initial_init) [.wrmsr 0 msrIa32Efer 0x400] rfl, rfl, rfl,
      rfl⟩
  obtain ⟨r, hr, hk, hread, hw⟩ := hrun
  have := h plainCpu plainCpu_hasSyscall r hr 0 hk
  rw [hread, hw] at this
  exact absurd this (by decide)

end OnDemandVirt.Vmm
