import OnDemandVirt.Vmm.ProcessRuns

/-!
# Failures of `process_new`

`process_new` takes `process_lock` twice: once to set up a slot, and again in `_msgopen_2`, which
gives the caller a descriptor; what the state is then is not up to `process_new`. Where the
program cannot be loaded it goes on with slot 0, the VMM's own, so it clears the function of the
VMM's descriptor 0 and gives the caller a descriptor for it (`failsClean_iff`).
-/

namespace OnDemandVirt.Vmm

/-- The bytes of a program. -/
abbrev Binary := Nat → BitVec 8

/-- `e_entry` of `Elf64_Ehdr`. -/
def eEntry (b : Binary) : BitVec 64 := b 31 ++ b 30 ++ b 29 ++ b 28 ++ b 27 ++ b 26 ++ b 25 ++ b 24

/-- `process_load`, which gives up only if all four bytes are wrong. -/
def processLoad (b : Binary) : BitVec 64 :=
  if b 0 ≠ 0x7F ∧ b 1 ≠ 0x45 ∧ b 2 ≠ 0x4C ∧ b 3 ≠ 0x46 then 0 else eEntry b

namespace Procs

variable (s later : Procs) (frompid : Pid) (allocFails : Bool) (bin : Binary)

/-- What `process_new` returns, `none` for -1; `later` is the state when `_msgopen_2` begins. -/
def processNewReturns : Option Desc :=
  match s.processNew allocFails (processLoad bin) with
  | none => none
  | some (_, t) => (later.msgopen2 frompid t).2

/-- What `_newprocess` returns, with the programs that are built in. -/
def newprocessReturns (builtin : String → Option Binary) (name : String) : Option Desc :=
  match builtin name with
  | none => none
  | some bin => processNewReturns s later frompid allocFails bin

/-- What `sys_newprocess` returns. -/
def sysNewprocessReturns (builtin : String → Option Binary) (name : String) : Option Desc :=
  if (s.process frompid).setlimit then none
  else newprocessReturns s later frompid allocFails builtin name

/-- The process is there: the VMM, or a slot in use. -/
def Exists (p : Pid) : Prop := p = 0 ∨ (s.process p).valid = true

/-- No slot and no descriptor of a process that is there differs. -/
def LeavesProcesses (s' : Procs) : Prop := ∀ p, s.Exists p → s'.process p = s.process p

/-- There is no slot, no page directory, or no program. -/
def CannotCreate : Prop := s.freeSlot = none ∨ allocFails = true ∨ processLoad bin = 0

/-- What a clean failure is. No descriptor is returned, so none refers to anything. -/
structure CleanFailure : Prop where
  returns : processNewReturns s later frompid allocFails bin = none
  callers : ∀ builtin name, builtin name = some bin →
    newprocessReturns s later frompid allocFails builtin name = none ∧
      sysNewprocessReturns s later frompid allocFails builtin name = none
  /-- The section that sets up the slot. -/
  setup : ∀ s' t, s.processNew allocFails (processLoad bin) = some (s', t) → s.LeavesProcesses s'
  /-- `_msgopen_2`. -/
  opening : ∀ s' t, s.processNew allocFails (processLoad bin) = some (s', t) →
    later.LeavesProcesses (later.msgopen2 frompid t).1

/-- Where the process cannot be created, the failure is clean. -/
def FailsClean : Prop :=
  s.CannotCreate allocFails bin → CleanFailure s later frompid allocFails bin

/-- No entry of the process's table is free. -/
def TableFull (pid : Pid) : Prop := ∀ i, ((s.process pid).msgdsc i).isFree = false

variable {s later frompid allocFails bin}

/-! ### The two sections -/

theorem msgopen2_eq_none_iff {t : MsgTarget} :
    (s.msgopen2 frompid t).2 = none ↔ s.TableFull frompid := by
  unfold msgopen2 TableFull
  split
  next h => simpa using h
  next i h =>
    have hfree := List.find?_some h
    simp only [reduceCtorEq, false_iff, not_forall]
    exact ⟨i, by simp [hfree]⟩

theorem msgopen2_of_full {t : MsgTarget} (h : s.TableFull frompid) :
    (s.msgopen2 frompid t).1 = s := by
  have hnone := msgopen2_eq_none_iff (t := t).mpr h
  unfold msgopen2 at hnone ⊢
  split at hnone
  · rfl
  · cases hnone

theorem processNew_eq_none_iff {rip : BitVec 64} :
    s.processNew allocFails rip = none ↔ s.freeSlot = none ∨ allocFails = true := by
  unfold processNew
  split
  next h => simp [h]
  next pid h =>
    cases allocFails with
    | true => simp
    | false =>
      simp only [Bool.false_eq_true, if_false, h]
      split_ifs <;> simp

/-- The slots after a program that cannot be loaded. -/
theorem process_of_loadFails {p : Pid} {s' : Procs} {t : MsgTarget} (hslot : s.freeSlot = some p)
    (h : s.processNew false 0 = some (s', t)) :
    s'.process 0 = { s.process 0 with
        msgdsc := Function.update (s.process 0).msgdsc 0 { (s.process 0).msgdsc 0 with func := 0 } } ∧
      ∀ q, q ≠ 0 → q ≠ p → s'.process q = s.process q := by
  have hp := (freeSlot_spec hslot).1
  rw [processNew, hslot] at h
  simp only [Bool.false_eq_true, if_false, if_true, Option.some.injEq, Prod.mk.injEq] at h
  obtain ⟨rfl, -⟩ := h
  refine ⟨?_, fun q h0 hq => ?_⟩
  · simp [setFunc, setDsc, setProcess, Function.update_of_ne hp.symm]
  · simp [setFunc, setDsc, setProcess, Function.update_of_ne h0, Function.update_of_ne hq]

/-- After such a program the VMM's own descriptor 0 has no function. -/
theorem leavesProcesses_iff {p : Pid} {s' : Procs} {t : MsgTarget} (hslot : s.freeSlot = some p)
    (h : s.processNew false 0 = some (s', t)) :
    s.LeavesProcesses s' ↔ ((s.process 0).msgdsc 0).func = 0 := by
  obtain ⟨hzero, hrest⟩ := process_of_loadFails hslot h
  constructor
  · intro hleaves
    have heq := hleaves 0 (.inl rfl)
    rw [hzero] at heq
    have hdsc := congrFun (congrArg Process.msgdsc heq) 0
    simp only [Function.update_self] at hdsc
    exact (congrArg MsgDsc.func hdsc).symm
  · intro hfunc q hq
    by_cases h0 : q = 0
    · subst h0
      have hsame : { (s.process 0).msgdsc 0 with func := 0 } = (s.process 0).msgdsc 0 := by
        rw [← hfunc]
      rw [hzero, hsame, Function.update_eq_self]
    · refine hrest q h0 fun hqp => ?_
      have hfree := (freeSlot_spec hslot).2
      rcases hq with hq | hq
      · exact h0 hq
      · rw [hqp, hfree] at hq
        cases hq

/-! ### Clean failures -/

theorem callers_of_returns (h : processNewReturns s later frompid allocFails bin = none)
    (builtin : String → Option Binary) (name : String) (hname : builtin name = some bin) :
    newprocessReturns s later frompid allocFails builtin name = none ∧
      sysNewprocessReturns s later frompid allocFails builtin name = none := by
  have hnew : newprocessReturns s later frompid allocFails builtin name = none := by
    rw [newprocessReturns, hname]
    exact h
  refine ⟨hnew, ?_⟩
  rw [sysNewprocessReturns]
  split
  · rfl
  · exact hnew

theorem cleanFailure_of_refused (h : s.processNew allocFails (processLoad bin) = none) :
    CleanFailure s later frompid allocFails bin := by
  have hreturns : processNewReturns s later frompid allocFails bin = none := by
    rw [processNewReturns, h]
  refine ⟨hreturns, callers_of_returns hreturns, fun s' t hs' => ?_, fun s' t hs' => ?_⟩
  · rw [h] at hs'
    cases hs'
  · rw [h] at hs'
    cases hs'

/-- A failure is clean unless only the program is missing. Then it is clean if there is nothing to
spoil: the VMM's descriptor 0 has no function, and the caller has no entry left for another one. -/
theorem failsClean_iff (s later : Procs) (frompid : Pid) (allocFails : Bool) (bin : Binary) :
    FailsClean s later frompid allocFails bin ↔
      processLoad bin ≠ 0 ∨ s.freeSlot = none ∨ allocFails = true ∨
        (((s.process 0).msgdsc 0).func = 0 ∧ later.TableFull frompid) := by
  by_cases hrefused : s.freeSlot = none ∨ allocFails = true
  · have hclean : CleanFailure s later frompid allocFails bin :=
      cleanFailure_of_refused (processNew_eq_none_iff.2 hrefused)
    exact iff_of_true (fun _ => hclean) (.inr (hrefused.imp_right .inl))
  rw [not_or, Bool.not_eq_true] at hrefused
  obtain ⟨hslot, rfl⟩ := hrefused
  obtain ⟨p, hslot⟩ := Option.ne_none_iff_exists'.mp hslot
  by_cases hload : processLoad bin = 0
  · obtain ⟨⟨s', t⟩, hnew⟩ : ∃ r, s.processNew false (processLoad bin) = some r :=
      Option.ne_none_iff_exists'.mp fun h => by simp [processNew_eq_none_iff, hslot] at h
    have hnew' := hnew
    rw [hload] at hnew'
    have hreturns : processNewReturns s later frompid false bin = none ↔ later.TableFull frompid := by
      rw [processNewReturns, hnew]
      exact msgopen2_eq_none_iff
    simp only [hload, ne_eq, not_true_eq_false, hslot, reduceCtorEq, Bool.false_eq_true, false_or]
    constructor
    · intro hclean
      have h := hclean (.inr (.inr hload))
      exact ⟨(leavesProcesses_iff hslot hnew').mp (h.setup s' t hnew), hreturns.mp h.returns⟩
    · rintro ⟨hfunc, hfull⟩ -
      have hnone := hreturns.mpr hfull
      refine ⟨hnone, callers_of_returns hnone, fun s'' t' h => ?_, fun s'' t' _ q _ => ?_⟩
      · rw [hload] at h
        exact (leavesProcesses_iff hslot h).mpr hfunc
      · rw [msgopen2_of_full hfull]
  · have hcan : ¬ s.CannotCreate false bin := by
      rintro (h | h | h)
      · simp [hslot] at h
      · cases h
      · exact hload h
    exact iff_of_true (fun h => absurd h hcan) (.inl hload)

/-- A program of zeros: the VMM gets a descriptor that refers to itself. -/
theorem not_failsClean_zeros : ¬ FailsClean processInitGlobal processInitGlobal 0 false fun _ => 0 := by
  intro h
  have hreturns := (h (.inr (.inr (by decide)))).returns
  have hsome : processNewReturns processInitGlobal processInitGlobal 0 false (fun _ => 0) = some 0 := by
    rfl
  rw [hsome] at hreturns
  cases hreturns

end Procs

end OnDemandVirt.Vmm
