import OnDemandVirt.Vmm.Msr

/-!
# What a guest can do with the MSR handlers

The handlers give the guest an answer, except where the local APIC code panics by intent and where
an instruction on one of the SYSCALL registers faults.
-/

namespace OnDemandVirt.Vmm

open MsrState

/-- The writes that the code of the local APIC panics on: the APIC is moved over the VMM, or moved
at all while it is registered, or sends a start-up IPI of a kind that is not supported. -/
def ApicState.Refuses (a : ApicState) (index : BitVec 32) (msrdata : BitVec 64) : Prop :=
  index = msrIa32ApicBaseMsr ∧
      ((hasBit msrdata 0x800 && MsrState.physInVmm a (msrdata &&& 0xFFFFFF000)) = true ∨
        changeBasePanics a msrdata = true) ∨
    index = msrIa32X2apicIcr ∧ (x2apicIcr a msrdata).2 = true

/-- The documented behaviour of RDMSR and WRMSR: the only exception is #GP, and the time stamp
counter can be read. -/
structure MsrCpu.Documented (cpu : MsrCpu) : Prop where
  read : ∀ i e, cpu.readExc i = some e → e = 13
  write : ∀ i x e, cpu.writeExc i x = some e → e = 13
  tsc : cpu.readExc msrIa32TimeStampCounter = none

variable {cpu : MsrCpu} {s : MsrState} {v : Nat} {index : BitVec 32} {msrdata : BitVec 64}

theorem returns_ofOption {α : Type} (r : Option α) : (ofOption r).Returns := by
  cases r <;> trivial

theorem returns_passResult {α : Type} {exc : Option Nat} {a : α} (h : ∀ e, exc = some e → e = 13) :
    (passResult exc a).Returns := by
  cases exc with
  | none => trivial
  | some e =>
    obtain rfl := h e rfl
    trivial

theorem returns_writeCache (r : Option CacheData) : (s.writeCache v r).1.Returns := by
  cases r <;> trivial

theorem returns_readEfer : (s.readEfer v).Returns := by
  unfold readEfer
  cases s.readGuestEfer v <;> trivial

theorem returns_writeEfer : (s.writeEfer v msrdata).1.Returns := by
  unfold writeEfer
  cases s.readGuestEfer v <;> trivial

theorem returns_passReadMsr (hc : cpu.Documented) : (s.passReadMsr cpu v index).Returns := by
  unfold passReadMsr
  split
  · rename_i hi
    rw [hi, if_pos hc.tsc]
    trivial
  · exact returns_passResult (hc.read index)

/-- `msr_pass_write_msr` returns unless the local APIC refuses the write. -/
theorem returns_passWriteMsr_iff (hc : cpu.Documented) :
    (s.passWriteMsr cpu v index msrdata).1.Returns ↔ ¬ s.apic.Refuses index msrdata := by
  have hpass : (passWrite cpu index msrdata).Returns := returns_passResult (hc.write index msrdata)
  unfold passWriteMsr
  split
  · rename_i hi
    subst hi
    exact iff_of_true trivial (by rintro (⟨h, -⟩ | ⟨h, -⟩) <;> exact absurd h (by decide))
  · split
    · rename_i hi
      subst hi
      rw [if_pos hc.tsc]
      exact iff_of_true trivial (by rintro (⟨h, -⟩ | ⟨h, -⟩) <;> exact absurd h (by decide))
    · split
      · rename_i hi
        subst hi
        split
        · rename_i hv
          exact iff_of_false id fun h => h (.inl ⟨rfl, .inl hv⟩)
        · rename_i hv
          split
          · rename_i hb
            exact iff_of_false id fun h => h (.inl ⟨rfl, .inr hb⟩)
          · rename_i hb
            refine iff_of_true hpass ?_
            rintro (⟨-, h | h⟩ | ⟨h, -⟩)
            · exact hv h
            · exact hb h
            · exact absurd h (by decide)
      · rename_i hbase
        split
        · rename_i hi
          subst hi
          simp only
          split
          · rename_i hp
            exact iff_of_false id fun h => h (.inr ⟨rfl, hp⟩)
          · rename_i hp
            refine iff_of_true hpass ?_
            rintro (⟨h, -⟩ | ⟨-, h⟩)
            · exact hbase h
            · exact hp h
        · rename_i hicr
          refine iff_of_true hpass ?_
          rintro (⟨h, -⟩ | ⟨h, -⟩)
          · exact hbase h
          · exact hicr h

/-- The registers that the local APIC looks at are passed through. -/
theorem msrCase_of_refuses (h : s.apic.Refuses index msrdata) : msrCase index = .default := by
  obtain ⟨rfl, -⟩ | ⟨rfl, -⟩ := h <;> rfl

/-- A guest gets an answer to every access, but for an instruction on one of the registers of
SYSCALL that faults, of which nothing is said; a write panics exactly where the local APIC refuses
it. -/
theorem msr_handlers_return (hc : cpu.Documented) (s : MsrState) (v : Nat) (index : BitVec 32) :
    ((∀ m, msrCase index = .syscall m → cpu.readExc index = none) →
      (s.vtReadMsr cpu v index).1.Returns) ∧
    ∀ msrdata, (∀ m, msrCase index = .syscall m → cpu.writeExc index msrdata = none) →
      ((s.vtWriteMsr cpu v index msrdata).1.Returns ↔ ¬ s.apic.Refuses index msrdata) := by
  constructor
  · intro hs
    unfold vtReadMsr
    split
    · trivial
    · exact returns_readEfer
    · rename_i m hm
      rw [hs m hm]
      trivial
    · exact returns_ofOption _
    · trivial
    · exact returns_ofOption _
    · exact returns_passReadMsr hc
  · intro msrdata hs
    have hno : msrCase index ≠ .default → ¬ s.apic.Refuses index msrdata := fun h hr =>
      h (msrCase_of_refuses hr)
    unfold vtWriteMsr
    split
    · rename_i h
      exact iff_of_true trivial (hno (by simp [h]))
    · rename_i h
      exact iff_of_true returns_writeEfer (hno (by simp [h]))
    · rename_i m hm
      simp only [hs m hm]
      exact iff_of_true trivial (hno (by simp [hm]))
    · rename_i h
      exact iff_of_true (returns_writeCache _) (hno (by simp [h]))
    · exact returns_passWriteMsr_iff hc
    · exact returns_passWriteMsr_iff hc
    · rename_i h
      exact iff_of_true (returns_writeCache _) (hno (by simp [h]))

/-- A CPU that takes every value. -/
def plainCpu : MsrCpu where
  readExc _ := none
  writeExc _ _ := none
  read _ := 0
  processValue
    | .star => some 0x23001000000000
    | .lstar | .cstar => some 0x40100000
    | .fmask => some 0x30200
    | .kernelGsBase => none

/-- The virtual CPUs after `vt_msr_init`, each on a physical CPU of its own, with the VMM in the
128 MiB from `0x40000000`. -/
def MsrState.initial : MsrState where
  vcpu _ :=
    { vmcs := fun _ => 0
      eferKept := true
      efer := 0
      lme := false
      lma := false
      pg := false
      saved := fun _ => 0
      cache := { g := CacheRegs.zero, passMtrrfix := false }
      tscOffset := 0
      pass := fun _ _ => true }
  pcpu _ :=
    { hw := fun _ => 0
      owner := .none
      cache :=
        { pat := true
          mtrr := true
          syscfgExist := false
          mtrrcap := 0x508
          patIndexFromType := fun _ => 0
          h := CacheRegs.zero }
      running := none }
  home v := v
  apic :=
    { registered := false
      apStart := false
      vmmStartPhys := 0x40000000
      vmmSize := 0x8000000 }

theorem plainCpu_documented : plainCpu.Documented where
  read := by simp [plainCpu]
  write := by simp [plainCpu]
  tsc := rfl

theorem msr_handlers_return_initial :
    plainCpu.Documented ∧
      (MsrState.initial.vtReadMsr plainCpu 0 msrIa32Efer).1.Returns ∧
      ((MsrState.initial.vtWriteMsr plainCpu 0 msrIa32Efer 0x100).1.Returns ↔
        ¬ MsrState.initial.apic.Refuses msrIa32Efer 0x100) :=
  have h := msr_handlers_return plainCpu_documented MsrState.initial 0 msrIa32Efer
  ⟨plainCpu_documented, h.1 fun _ _ => rfl, h.2 0x100 fun _ _ => rfl⟩

/-- A guest that enables its local APIC over the VMM stops the machine. -/
theorem apic_base_panics :
    ¬ ∀ cpu : MsrCpu, cpu.Documented → ∀ (s : MsrState) (v : Nat) (index : BitVec 32)
        (msrdata : BitVec 64),
      (s.vtReadMsr cpu v index).1.Returns ∧ (s.vtWriteMsr cpu v index msrdata).1.Returns := by
  intro h
  have hw : (MsrState.initial.vtWriteMsr plainCpu 0 msrIa32ApicBaseMsr 0x40000800).1 = .panic := by
    decide
  have hret := (h plainCpu plainCpu_documented MsrState.initial 0 msrIa32ApicBaseMsr 0x40000800).2
  rw [hw] at hret
  exact hret

end OnDemandVirt.Vmm
