import OnDemandVirt.Vmm.Process
import Mathlib.Algebra.BigOperators.Fin
import Mathlib.Algebra.BigOperators.Ring.Finset

/-!
# Runs of the processes

What is stored of a process never gets ahead of the generation of its slot, and as long as it has
the generation of a valid slot it was opened on the process that is there (`Good`). Generations
only grow, and a slot gets a new process only together with a new generation (`Advances`).
-/

namespace OnDemandVirt.Vmm

open Procs

/-- What holds of a target that is kept anywhere. -/
def Procs.Good (s : Procs) (t : MsgTarget) : Prop :=
  ∀ p : Pid, t.pid = (p : Nat) →
    (p ≠ 0 → t.gen ≤ (s.process p).gen) ∧
      ((s.process p).valid = true → t.gen = (s.process p).gen → t.on = some (s.process p).inst)

/-- The targets that are kept: in descriptors, under names, and by threads. -/
inductive Procs.Stored (s : Procs) : MsgTarget → Prop
  | dsc (p : Pid) (i : Desc) : Stored s ((s.process p).msgdsc i).toMsgTarget
  | name (n : MsgData) : n ∈ s.msgDataUsed → Stored s n.target
  | opening (c : Tid) (k : Pid) (t : MsgTarget) : s.todo c = .opening k t → Stored s t
  | sending (c : Tid) (t : MsgTarget) : s.todo c = .sending true t → Stored s t

/-- A slot keeps its process or its generation grows. -/
def Procs.Advances (s s' : Procs) : Prop :=
  ∀ p, (s'.process p).gen = (s.process p).gen ∧ (s'.process p).inst = (s.process p).inst ∧
      ((s'.process p).valid = true → (s.process p).valid = true) ∨
    p ≠ 0 ∧ (s.process p).gen < (s'.process p).gen

/-- How many times process `p` is being run. -/
def Procs.frames (s : Procs) (p : Pid) : Nat := ∑ c, ((s.calls c).map Prod.fst).count p

/-- The slots: `running` counts the calls, and what is called is there. -/
structure SlotInv (s : Procs) : Prop where
  kernelValid : (s.process 0).valid = true
  kernelGen : (s.process 0).gen = 1
  genPos : ∀ p, 0 < (s.process p).gen
  fresh : ∀ p, (s.process p).inst < s.next
  distinct : ∀ p q, (s.process p).valid = true → (s.process q).valid = true →
    (s.process p).inst = (s.process q).inst → p = q
  running : ∀ p, (s.process p).running = s.frames p
  called : ∀ c, ∀ f ∈ s.calls c,
    f.1 ≠ 0 ∧ (s.process f.1).valid = true ∧ (s.process f.1).inst = f.2

structure ProcInv (s : Procs) : Prop where
  slots : SlotInv s
  good : ∀ t, s.Stored t → s.Good t

/-- No generation counter is about to wrap around. -/
def Procs.NoWrap (s : Procs) : Prop := ∀ p, (s.process p).gen ≠ BitVec.allOnes 32

instance (s : Procs) : Decidable s.NoWrap :=
  inferInstanceAs (Decidable (∀ p, (s.process p).gen ≠ BitVec.allOnes 32))

variable {s s' : Procs} {t t' : MsgTarget} {c : Tid} {k p : Pid} {i : Desc}

theorem index?_eq_some {n : Int} : index? n = some p ↔ n = (p : Nat) := by
  unfold index?
  split
  · rename_i h
    rw [Option.some_inj, Fin.ext_iff]
    simp only
    omega
  · rename_i h
    simp only [reduceCtorEq, false_iff]
    omega

/-! ### Targets -/

theorem Procs.Advances.refl (s : Procs) : s.Advances s := fun _ => .inl ⟨rfl, rfl, id⟩

theorem Procs.Advances.trans {s'' : Procs} (h : s.Advances s') (h' : s'.Advances s'') :
    s.Advances s'' := by
  intro p
  obtain ⟨hg, hi, hv⟩ | ⟨h0, hlt⟩ := h p <;> obtain ⟨hg', hi', hv'⟩ | ⟨h0', hlt'⟩ := h' p
  · exact .inl ⟨hg'.trans hg, hi'.trans hi, fun hv'' => hv (hv' hv'')⟩
  · exact .inr ⟨h0', hg ▸ hlt'⟩
  · exact .inr ⟨h0, hg' ▸ hlt⟩
  · exact .inr ⟨h0, BitVec.lt_trans hlt hlt'⟩

theorem Procs.Good.mono (h : s.Good t) (ha : s.Advances s') : s'.Good t := by
  intro p hp
  obtain ⟨hpast, hon⟩ := h p hp
  obtain ⟨hg, hi, hv⟩ | ⟨h0, hlt⟩ := ha p
  · rw [hg, hi]
    exact ⟨hpast, fun hv' => hon (hv hv')⟩
  · have hlt' : t.gen < (s'.process p).gen := by
      have := hpast h0
      bv_omega
    refine ⟨fun _ => BitVec.le_of_lt hlt', fun _ heq => ?_⟩
    rw [heq] at hlt'
    exact absurd hlt' (BitVec.lt_irrefl _)

/-- A target of the VMM whose generation is not that of the VMM. -/
theorem Procs.Good.of_kernel (hs : SlotInv s) (ht : t.pid = 0) (hg : t.gen ≠ 1) : s.Good t := by
  intro p hp
  have h0 : p = 0 := by
    rw [ht] at hp
    exact Fin.ext (by simp; omega)
  subst h0
  refine ⟨fun h => absurd rfl h, fun _ heq => absurd ?_ hg⟩
  rw [heq, hs.kernelGen]

/-- A target that is opened on the process of slot `p`. -/
theorem Procs.Good.of_slot (ht : t.pid = (p : Nat)) (hg : t.gen = (s.process p).gen)
    (hon : t.on = some (s.process p).inst) : s.Good t := by
  intro q hq
  have hpq : q = p := by
    rw [ht] at hq
    exact Fin.ext (by omega)
  subst hpq
  exact ⟨fun _ => hg ▸ BitVec.le_refl _, fun _ _ => hon⟩

theorem ProcInv.of_advances (h : ProcInv s) (hs : SlotInv s') (ha : s.Advances s')
    (hstored : ∀ t, s'.Stored t → s.Stored t ∨ s'.Good t) : ProcInv s' := by
  refine ⟨hs, fun t ht => ?_⟩
  obtain h' | h' := hstored t ht
  · exact (h.good t h').mono ha
  · exact h'

/-! ### What an update stores -/

theorem Procs.Stored.of_setTodo {todo : Todo} (h : (s.setTodo c todo).Stored t) :
    s.Stored t ∨ (∃ k, todo = .opening k t) ∨ todo = .sending true t := by
  cases h with
  | dsc p i => exact .inl (.dsc p i)
  | name n hn => exact .inl (.name n hn)
  | opening c' k t ht =>
    rcases eq_or_ne c' c with rfl | hc
    · rw [setTodo_self] at ht
      exact .inr (.inl ⟨k, ht⟩)
    · rw [setTodo_of_ne hc] at ht
      exact .inl (.opening c' k t ht)
  | sending c' t ht =>
    rcases eq_or_ne c' c with rfl | hc
    · rw [setTodo_self] at ht
      exact .inr (.inr ht)
    · rw [setTodo_of_ne hc] at ht
      exact .inl (.sending c' t ht)

theorem Procs.Stored.of_setProcess {d : Process} (h : (s.setProcess p d).Stored t) :
    s.Stored t ∨ ∃ i, t = (d.msgdsc i).toMsgTarget := by
  cases h with
  | dsc q i =>
    rcases eq_or_ne q p with rfl | hq
    · rw [setProcess_self]
      exact .inr ⟨i, rfl⟩
    · rw [setProcess_of_ne hq]
      exact .inl (.dsc q i)
  | name n hn => exact .inl (.name n hn)
  | opening c k t ht => exact .inl (.opening c k t ht)
  | sending c t ht => exact .inl (.sending c t ht)

theorem Procs.Stored.of_setDsc {d : MsgDsc} (h : (s.setDsc p i d).Stored t) :
    s.Stored t ∨ t = d.toMsgTarget := by
  obtain h | ⟨j, rfl⟩ := h.of_setProcess
  · exact .inl h
  · rcases eq_or_ne j i with rfl | hj
    · exact .inr (by simp)
    · simp only [Function.update_of_ne hj]
      exact .inl (.dsc p j)

theorem Procs.Stored.of_setFunc {func : BitVec 64} (h : (s.setFunc p i func).Stored t) :
    s.Stored t := by
  obtain h | rfl := h.of_setDsc
  · exact h
  · exact .dsc p i

/-- A change that keeps or drops what is under the names. -/
theorem Procs.Stored.of_names {l : List MsgData} (hl : ∀ n ∈ l, n ∈ s.msgDataUsed)
    (h : ({ s with msgDataUsed := l } : Procs).Stored t) : s.Stored t := by
  cases h with
  | dsc p i => exact .dsc p i
  | name n hn => exact .name n (hl n hn)
  | opening c k t ht => exact .opening c k t ht
  | sending c t ht => exact .sending c t ht

/-! ### Slots that stay -/

/-- The two states agree on the slots, but for the entries and the flags, and on the calls. -/
structure SameSlots (s s' : Procs) : Prop where
  gen : ∀ p, (s'.process p).gen = (s.process p).gen
  valid : ∀ p, (s'.process p).valid = (s.process p).valid
  inst : ∀ p, (s'.process p).inst = (s.process p).inst
  running : ∀ p, (s'.process p).running = (s.process p).running
  calls : s'.calls = s.calls
  next : s'.next = s.next

theorem SameSlots.refl (s : Procs) : SameSlots s s :=
  ⟨fun _ => rfl, fun _ => rfl, fun _ => rfl, fun _ => rfl, rfl, rfl⟩

theorem SameSlots.trans {s'' : Procs} (h : SameSlots s s') (h' : SameSlots s' s'') :
    SameSlots s s'' :=
  ⟨fun p => (h'.gen p).trans (h.gen p), fun p => (h'.valid p).trans (h.valid p),
    fun p => (h'.inst p).trans (h.inst p), fun p => (h'.running p).trans (h.running p),
    h'.calls.trans h.calls, h'.next.trans h.next⟩

theorem SameSlots.advances (h : SameSlots s s') : s.Advances s' := fun p =>
  .inl ⟨h.gen p, h.inst p, fun hv => h.valid p ▸ hv⟩

theorem SlotInv.same (hs : SlotInv s) (h : SameSlots s s') : SlotInv s' where
  kernelValid := (h.valid 0).trans hs.kernelValid
  kernelGen := (h.gen 0).trans hs.kernelGen
  genPos p := by
    rw [h.gen]
    exact hs.genPos p
  fresh p := by
    rw [h.inst, h.next]
    exact hs.fresh p
  distinct p q hp hq hpq := by
    rw [h.valid] at hp hq
    rw [h.inst, h.inst] at hpq
    exact hs.distinct p q hp hq hpq
  running p := by
    rw [h.running, hs.running, frames, frames, h.calls]
  called c f hf := by
    rw [h.calls] at hf
    rw [h.valid, h.inst]
    exact hs.called c f hf

theorem ProcInv.of_same (h : ProcInv s) (hs : SameSlots s s')
    (hstored : ∀ t, s'.Stored t → s.Stored t ∨ s'.Good t) : ProcInv s' :=
  h.of_advances (h.slots.same hs) hs.advances hstored

/-- A change of a slot that keeps what `SlotInv` is about. -/
theorem sameSlots_setProcess {d : Process} (hg : d.gen = (s.process p).gen)
    (hv : d.valid = (s.process p).valid) (hi : d.inst = (s.process p).inst)
    (hr : d.running = (s.process p).running) : SameSlots s (s.setProcess p d) := by
  refine ⟨fun q => ?_, fun q => ?_, fun q => ?_, fun q => ?_, rfl, rfl⟩ <;>
    rcases eq_or_ne q p with rfl | hq <;> simp [setProcess, *]

theorem sameSlots_setDsc {d : MsgDsc} : SameSlots s (s.setDsc p i d) :=
  sameSlots_setProcess rfl rfl rfl rfl

theorem sameSlots_setTodo {todo : Todo} : SameSlots s (s.setTodo c todo) :=
  ⟨fun _ => rfl, fun _ => rfl, fun _ => rfl, fun _ => rfl, rfl, rfl⟩

theorem sameSlots_names {l : List MsgData} : SameSlots s { s with msgDataUsed := l } :=
  ⟨fun _ => rfl, fun _ => rfl, fun _ => rfl, fun _ => rfl, rfl, rfl⟩

/-! ### The sections -/

theorem ProcInv.setTodo_none (h : ProcInv s) : ProcInv (s.setTodo c .none) := by
  refine h.of_same sameSlots_setTodo fun t ht => ?_
  obtain h' | ⟨k, hk⟩ | hk := ht.of_setTodo
  · exact .inl h'
  · cases hk
  · cases hk

theorem ProcInv.opening (h : ProcInv s) (ht : s.Good t) : ProcInv (s.setTodo c (.opening k t)) := by
  refine h.of_same sameSlots_setTodo fun t' ht' => ?_
  obtain h' | ⟨k', hk⟩ | hk := ht'.of_setTodo
  · exact .inl h'
  · cases hk
    exact .inr (ht.mono sameSlots_setTodo.advances)
  · cases hk

theorem ProcInv.setTarget (h : ProcInv s) (ht : s.Good t) : ProcInv (s.setTarget p i t) := by
  refine h.of_same sameSlots_setDsc fun t' ht' => ?_
  obtain h' | rfl := ht'.of_setDsc
  · exact .inl h'
  · exact .inr (ht.mono sameSlots_setDsc.advances)

theorem ProcInv.setFunc {func : BitVec 64} (h : ProcInv s) : ProcInv (s.setFunc p i func) :=
  h.of_same sameSlots_setDsc fun _ ht => .inl ht.of_setFunc

theorem ProcInv.names {l : List MsgData} (h : ProcInv s) (hl : ∀ n ∈ l, n ∈ s.msgDataUsed) :
    ProcInv { s with msgDataUsed := l } :=
  h.of_same sameSlots_names fun _ ht => .inl (ht.of_names hl)

theorem ProcInv.msgopen2 (h : ProcInv s) (ht : s.Good t) : ProcInv (s.msgopen2 p t).1 := by
  unfold Procs.msgopen2
  split
  · exact h
  · exact h.setTarget ht

theorem ProcInv.msgregister {name : String} {func : BitVec 64} (h : ProcInv s) :
    ProcInv (s.msgregister p name func).1 := by
  unfold Procs.msgregister
  split
  · exact h
  · rename_i i _
    have hf : ProcInv (s.setFunc p i func) := h.setFunc
    simp only
    generalize s.setFunc p i func = u at hf ⊢
    unfold msgRegister
    split <;> rename_i hr
    · exact hf.setFunc
    · split at hr
      · cases hr
      · cases hr
        refine hf.of_same sameSlots_names fun t ht => ?_
        cases ht with
        | dsc p i => exact .inl (.dsc p i)
        | opening c k t ht => exact .inl (.opening c k t ht)
        | sending c t ht => exact .inl (.sending c t ht)
        | name n hn =>
          rcases List.mem_append.1 hn with hn | hn
          · exact .inl (.name n hn)
          · rw [List.mem_singleton] at hn
            subst hn
            exact .inr (.of_slot (p := p) rfl rfl rfl)

theorem ProcInv.msgclose {desc : Int} (h : ProcInv s) : ProcInv ((s.msgclose p desc).getD s) := by
  unfold Procs.msgclose
  cases index? desc with
  | none => exact h
  | some i => exact h.setTarget (.of_kernel h.slots rfl (by simp))

theorem ProcInv.msgunregister {desc : Int} (h : ProcInv s) :
    ProcInv ((s.msgunregister p desc).getD s) := by
  unfold Procs.msgunregister
  cases index? desc with
  | none => exact h
  | some i => exact ProcInv.names (l := _) h.setFunc fun n hn => List.mem_of_mem_filter hn

theorem ProcInv.msgsenddesc {todesc senddesc : Int} {r : Procs × Option Desc} (h : ProcInv s)
    (hr : s.msgsenddesc p todesc senddesc = some r) : ProcInv r.1 := by
  unfold Procs.msgsenddesc at hr
  split at hr
  · rename_i sd td _ _
    simp only at hr
    split at hr
    · cases hr
    · split at hr
      · cases hr
        exact h
      · split at hr
        · cases hr
          exact h
        · cases hr
          exact h.setTarget (h.good _ (.dsc p sd))
  · cases hr
    exact h

theorem ProcInv.read {desc : Int} {beyond : MsgTarget} (h : ProcInv s) :
    ProcInv (s.setTodo c (s.readDsc p desc beyond)) := by
  refine h.of_same sameSlots_setTodo fun t ht => ?_
  obtain h' | ⟨k, hk⟩ | hk := ht.of_setTodo
  · exact .inl h'
  · unfold readDsc at hk
    split at hk <;> cases hk
  · unfold readDsc at hk
    split at hk
    · cases hk
      exact .inl (.dsc p _)
    · cases hk

/-- Flags are not part of the invariant. -/
theorem ProcInv.setFlags {e l : Bool} (h : ProcInv s) :
    ProcInv (s.setProcess p { s.process p with exitflag := e, setlimit := l }) := by
  refine h.of_same (sameSlots_setProcess rfl rfl rfl rfl) fun t ht => ?_
  obtain h' | ⟨i, rfl⟩ := ht.of_setProcess
  · exact .inl h'
  · exact .inl (.dsc p i)

/-! ### Slots that change -/

theorem frames_eq_zero (h : s.frames p = 0) : ∀ c, ∀ f ∈ s.calls c, f.1 ≠ p := by
  rintro c f hf rfl
  have hc : ((s.calls c).map Prod.fst).count f.1 = 0 :=
    Finset.sum_eq_zero_iff.1 h c (Finset.mem_univ c)
  rw [List.count_eq_zero] at hc
  exact hc (List.mem_map_of_mem hf)

theorem frames_setCalls {l : List (Pid × Nat)} :
    (s.setCalls c l).frames p + ((s.calls c).map Prod.fst).count p =
      s.frames p + (l.map Prod.fst).count p := by
  unfold frames
  rw [← Finset.add_sum_erase _ _ (Finset.mem_univ c),
    ← Finset.add_sum_erase Finset.univ (fun c => ((s.calls c).map Prod.fst).count p)
      (Finset.mem_univ c), setCalls_self]
  have hrest : ∑ x ∈ Finset.univ.erase c, (((s.setCalls c l).calls x).map Prod.fst).count p =
      ∑ x ∈ Finset.univ.erase c, ((s.calls x).map Prod.fst).count p :=
    Finset.sum_congr rfl fun x hx => by rw [setCalls_of_ne (Finset.ne_of_mem_erase hx)]
  rw [hrest]
  omega

theorem gen_lt_succ (h : (s.process p).gen ≠ BitVec.allOnes 32) :
    (s.process p).gen < (s.process p).gen + 1 := by
  have : (s.process p).gen.toNat ≠ 2 ^ 32 - 1 := fun e => h (BitVec.eq_of_toNat_eq (by simpa using e))
  bv_omega

/-- A slot that nobody runs gives up its process or gets a new one. -/
theorem SlotInv.setProcess {d : Process} (h : SlotInv s)
    (hprocess : s'.process = Function.update s.process p d) (hcalls : s'.calls = s.calls)
    (hp : p ≠ 0) (hrun : s.frames p = 0) (hgen : 0 < d.gen) (hr : d.running = 0)
    (hinst : d.valid = true → ∀ q, (s.process q).inst < d.inst) (hnext : d.inst < s'.next)
    (hnext' : s.next ≤ s'.next) : SlotInv s' := by
  have hother : ∀ q, q ≠ p → s'.process q = s.process q := fun q hq => by
    rw [hprocess, Function.update_of_ne hq]
  have hself : s'.process p = d := by
    rw [hprocess, Function.update_self]
  have hframes : ∀ q, s'.frames q = s.frames q := fun q => by
    unfold frames
    rw [hcalls]
  refine ⟨?_, ?_, fun q => ?_, fun q => ?_, fun q r hq hrv => ?_, fun q => ?_, fun c f hf => ?_⟩
  · rw [hother 0 hp.symm]
    exact h.kernelValid
  · rw [hother 0 hp.symm]
    exact h.kernelGen
  · rcases eq_or_ne q p with rfl | hq
    · rwa [hself]
    · rw [hother q hq]
      exact h.genPos q
  · rcases eq_or_ne q p with rfl | hq
    · rwa [hself]
    · rw [hother q hq]
      exact Nat.lt_of_lt_of_le (h.fresh q) hnext'
  · by_cases hqp : q = p <;> by_cases hrp : r = p
    · exact fun _ => hqp.trans hrp.symm
    · subst hqp
      rw [hself] at hq ⊢
      rw [hother r hrp]
      exact fun he => absurd he (Nat.ne_of_gt (hinst hq r))
    · subst hrp
      rw [hself] at hrv ⊢
      rw [hother q hqp]
      exact fun he => absurd he (Nat.ne_of_lt (hinst hrv q))
    · rw [hother q hqp] at hq ⊢
      rw [hother r hrp] at hrv ⊢
      exact h.distinct q r hq hrv
  · rw [hframes]
    rcases eq_or_ne q p with rfl | hq
    · rw [hself, hr, hrun]
      rfl
    · rw [hother q hq]
      exact h.running q
  · rw [hcalls] at hf
    have hne := frames_eq_zero hrun c f hf
    rw [hother f.1 hne]
    exact h.called c f hf

theorem ProcInv.cleanup (h : ProcInv s) (hw : (s.process p).gen ≠ BitVec.allOnes 32) (hp : p ≠ 0)
    (hrun : (s.process p).running = 0) : ProcInv (s.cleanup p) := by
  have hlt := gen_lt_succ hw
  have hpos : 0 < (s.process p).gen + 1 := by
    have := h.slots.genPos p
    bv_omega
  have hprocess : (s.cleanup p).process = Function.update s.process p
      { s.process p with gen := (s.process p).gen + 1, valid := false } := by
    simp [Procs.cleanup, msgUnregisterall, Procs.setProcess]
  have hframes : s.frames p = 0 := by
    have := h.slots.running p
    rw [hrun] at this
    exact_mod_cast this.symm
  refine h.of_advances
    (h.slots.setProcess hprocess rfl hp hframes hpos hrun (fun hv => absurd hv (by simp))
      (h.slots.fresh p) (Nat.le_refl _)) (fun q => ?_) fun t ht => ?_
  · rw [hprocess]
    rcases eq_or_ne q p with rfl | hq
    · rw [Function.update_self]
      exact .inr ⟨hp, hlt⟩
    · rw [Function.update_of_ne hq]
      exact .inl ⟨rfl, rfl, id⟩
  · left
    obtain ht | ⟨i, rfl⟩ := ht.of_setProcess
    · obtain ht | ⟨i, rfl⟩ := (ht.of_names fun n hn => List.mem_of_mem_filter hn).of_setProcess
      · exact ht
      · exact .dsc p i
    · simp only [msgUnregisterall, setProcess_self]
      exact .dsc p i

theorem ProcInv.cleanupIfDone (h : ProcInv s) (hw : (s.process p).gen ≠ BitVec.allOnes 32)
    (hp : p ≠ 0) : ProcInv (s.cleanupIfDone p) := by
  unfold Procs.cleanupIfDone
  split
  · rename_i hc
    exact h.cleanup hw hp hc.1
  · exact h

theorem freeSlot_spec (h : s.freeSlot = some p) : p ≠ 0 ∧ (s.process p).valid = false := by
  simpa using List.find?_some h

/-- Nobody runs a slot that is not valid. -/
theorem SlotInv.frames_of_invalid (h : SlotInv s) (hv : (s.process p).valid = false) :
    s.frames p = 0 := by
  refine Finset.sum_eq_zero fun c _ => ?_
  rw [List.count_eq_zero]
  intro hmem
  obtain ⟨f, hf, rfl⟩ := List.mem_map.1 hmem
  rw [(h.called c f hf).2.1] at hv
  cases hv

/-- `process_new` has taken slot `p`, and its program is loaded or not. -/
theorem ProcInv.newSlot {d : Process} (h : ProcInv s) (hw : (s.process p).gen ≠ BitVec.allOnes 32)
    (hp : p ≠ 0) (hv : (s.process p).valid = false) (hgen : d.gen = (s.process p).gen + 1)
    (hr : d.running = 0) (hclear : ∀ i, d.msgdsc i = clearDsc) (hinst : d.inst = s.next) :
    ProcInv { s.setProcess p d with next := s.next + 1 } := by
  have hlt := gen_lt_succ hw
  have hpos : 0 < d.gen := by
    have := h.slots.genPos p
    rw [hgen]
    bv_omega
  have hslots : SlotInv { s.setProcess p d with next := s.next + 1 } :=
    h.slots.setProcess rfl rfl hp (h.slots.frames_of_invalid hv) hpos hr
      (fun _ q => hinst ▸ h.slots.fresh q) (hinst ▸ Nat.lt_succ_self _) (Nat.le_succ _)
  refine h.of_advances hslots (fun q => ?_) fun t ht => ?_
  · rcases eq_or_ne q p with rfl | hq
    · refine .inr ⟨hp, ?_⟩
      simp only [setProcess_self, hgen]
      exact hlt
    · refine .inl ?_
      simp only [setProcess_of_ne hq]
      exact ⟨trivial, trivial, id⟩
  · have ht' : (s.setProcess p d).Stored t := by
      cases ht with
      | dsc q i => exact .dsc q i
      | name n hn => exact .name n hn
      | opening c k t ht => exact .opening c k t ht
      | sending c t ht => exact .sending c t ht
    obtain ht | ⟨i, rfl⟩ := ht'.of_setProcess
    · exact .inl ht
    · rw [hclear]
      exact .inr (.of_kernel hslots rfl (by simp [clearDsc]))

theorem ProcInv.processNew {allocFails : Bool} {rip : BitVec 64} {r : Procs × MsgTarget}
    (h : ProcInv s) (hw : s.NoWrap) (hr : s.processNew allocFails rip = some r) :
    ProcInv r.1 ∧ r.1.Good r.2 := by
  unfold Procs.processNew at hr
  split at hr
  · cases hr
  · rename_i pid hslot
    obtain ⟨hp, hv⟩ := freeSlot_spec hslot
    split at hr
    · cases hr
    · simp only at hr
      split at hr
      · -- the program is not loaded: what is opened is no process
        have hu := h.newSlot (d := ⟨false, (s.process pid).gen + 1, 0, fun _ => clearDsc, false,
          false, s.next⟩) (hw pid) hp hv rfl rfl (fun _ => rfl) rfl
        have hgen : (s.process pid).gen + 1 ≠ 1 := by
          have := h.slots.genPos pid
          have := gen_lt_succ (hw pid)
          bv_omega
        cases hr
        simp only [Procs.setProcess, Function.update_idem] at hu ⊢
        exact ⟨hu.setFunc, .of_kernel hu.setFunc.slots rfl hgen⟩
      · have hu := h.newSlot (d := ⟨true, (s.process pid).gen + 1, 0, fun _ => clearDsc, false,
          false, s.next⟩) (hw pid) hp hv rfl rfl (fun _ => rfl) rfl
        cases hr
        refine ⟨hu.setFunc, .of_slot (p := pid) rfl ?_ ?_⟩ <;>
          simp [Procs.setFunc, setDsc]

/-- `running` and the calls of a thread change together. -/
theorem ProcInv.setRunning {d : Process} {l : List (Pid × Nat)} (h : ProcInv s)
    (hgen : d.gen = (s.process p).gen) (hvalid : d.valid = (s.process p).valid)
    (hinst : d.inst = (s.process p).inst) (hdsc : d.msgdsc = (s.process p).msgdsc)
    (hn : d.running + ((s.calls c).map Prod.fst).count p =
      (s.process p).running + (l.map Prod.fst).count p)
    (hq : ∀ q, q ≠ p → (l.map Prod.fst).count q = ((s.calls c).map Prod.fst).count q)
    (hl : ∀ f ∈ l, f.1 ≠ 0 ∧ (s.process f.1).valid = true ∧ (s.process f.1).inst = f.2) :
    ProcInv ((s.setProcess p d).setCalls c l) := by
  have hsame : ∀ q, ((s.setProcess p d).process q).gen = (s.process q).gen ∧
      ((s.setProcess p d).process q).valid = (s.process q).valid ∧
      ((s.setProcess p d).process q).inst = (s.process q).inst := by
    intro q
    rcases eq_or_ne q p with rfl | hqp
    · rw [setProcess_self]
      exact ⟨hgen, hvalid, hinst⟩
    · rw [setProcess_of_ne hqp]
      exact ⟨rfl, rfl, rfl⟩
  have hslots : SlotInv ((s.setProcess p d).setCalls c l) := by
    refine ⟨(hsame 0).2.1.trans h.slots.kernelValid, (hsame 0).1.trans h.slots.kernelGen,
      fun q => ?_, fun q => ?_, fun q r hqv hrv hqr => ?_, fun q => ?_, fun c' f hf => ?_⟩
    · have := h.slots.genPos q
      rwa [← (hsame q).1] at this
    · have := h.slots.fresh q
      rwa [← (hsame q).2.2] at this
    · refine h.slots.distinct q r ?_ ?_ ?_
      · rw [← (hsame q).2.1]
        exact hqv
      · rw [← (hsame r).2.1]
        exact hrv
      · rw [← (hsame q).2.2, ← (hsame r).2.2]
        exact hqr
    · have hf : ((s.setProcess p d).setCalls c l).frames q + _ = s.frames q + _ := frames_setCalls
      have hr := h.slots.running q
      rcases eq_or_ne q p with rfl | hqp
      · show ((s.setProcess q d).process q).running = _
        rw [setProcess_self]
        simp only [Procs.setProcess] at hf ⊢
        omega
      · show ((s.setProcess p d).process q).running = _
        rw [setProcess_of_ne hqp]
        rw [hq q hqp] at hf
        simp only [Procs.setProcess] at hf ⊢
        omega
    · have hf' : f ∈ s.calls c' ∨ f ∈ l := by
        rcases eq_or_ne c' c with rfl | hcc
        · rw [setCalls_self] at hf
          exact .inr hf
        · rw [setCalls_of_ne hcc] at hf
          exact .inl hf
      have hok := hf'.elim (h.slots.called c' f) (hl f)
      exact ⟨hok.1, (hsame f.1).2.1.trans hok.2.1, (hsame f.1).2.2.trans hok.2.2⟩
  refine h.of_advances hslots (fun q => .inl ⟨(hsame q).1, (hsame q).2.2, fun hv => ?_⟩)
    fun t ht => .inl ?_
  · rw [← (hsame q).2.1]
    exact hv
  · have ht' : (s.setProcess p d).Stored t := by
      cases ht with
      | dsc q i => exact .dsc q i
      | name n hn => exact .name n hn
      | opening c k t ht => exact .opening c k t ht
      | sending c t ht => exact .sending c t ht
    obtain ht | ⟨i, rfl⟩ := ht'.of_setProcess
    · exact ht
    · rw [hdsc]
      exact .dsc p i

theorem ProcInv.callReturn (h : ProcInv s) (hw : s.NoWrap) (hs : s.callReturn c = some s') :
    ProcInv s' := by
  unfold Procs.callReturn at hs
  split at hs
  · cases hs
  · rename_i pid inst rest hcalls
    cases hs
    obtain ⟨hp, hv, hi⟩ := h.slots.called c (pid, inst) (by simp [hcalls])
    refine ProcInv.cleanupIfDone (h.setRunning rfl rfl rfl rfl ?_ (fun q hq => ?_) fun f hf => ?_) ?_ hp
    · rw [hcalls, List.map_cons, List.count_cons_self]
      push_cast
      omega
    · rw [hcalls, List.map_cons, List.count_cons_of_ne hq.symm]
    · exact h.slots.called c f (by simp [hcalls, hf])
    · show ((s.setProcess pid _).process pid).gen ≠ _
      rw [setProcess_self]
      exact hw pid

theorem check_calls (h : s.check t = .calls p i) :
    t.pid = (p : Nat) ∧ (s.process p).valid = true ∧ (s.process p).gen = t.gen := by
  unfold check at h
  split at h
  · cases h
  · rename_i pid hpid
    split at h
    · cases h
    · rename_i hv
      split at h
      · cases h
      · split at h
        · cases h
        · rename_i hg
          split at h
          · cases h
          · cases h
            exact ⟨index?_eq_some.1 hpid, by simpa using hv, by simpa using hg⟩

theorem ProcInv.callMsgfunc1 {env : CallEnv} (h : ProcInv s) (hw : s.NoWrap)
    (hs : s.callMsgfunc1 c t env = some s') : ProcInv s' := by
  unfold Procs.callMsgfunc1 at hs
  have hu : ProcInv (s.setTodo c .none) := h.setTodo_none
  have hw' : (s.setTodo c .none).NoWrap := hw
  simp only at hs
  generalize s.setTodo c .none = u at hs hu hw'
  split at hs
  · cases hs
    exact hu
  · split at hs
    · cases hs
    · cases hs
      exact hu
    · rename_i pid desc hcheck
      obtain ⟨-, hv, -⟩ := check_calls hcheck
      split at hs
      · cases hs
        exact hu
      · rename_i hp
        split at hs
        · cases hs
          exact hu
        · split at hs
          · cases hs
            exact hu.cleanupIfDone (hw' pid) hp
          · cases hs
            simp only [setProcess_self]
            refine hu.setRunning rfl rfl rfl rfl ?_ (fun q hq => ?_) fun f hf => ?_
            · show _ = _ + ((List.map Prod.fst ((pid, _) :: u.calls c)).count pid : Int)
              rw [List.map_cons, List.count_cons_self]
              push_cast
              omega
            · show (List.map Prod.fst ((pid, _) :: u.calls c)).count q = _
              rw [List.map_cons, List.count_cons_of_ne hq.symm]
            · rcases List.mem_cons.1 hf with rfl | hf
              · exact ⟨hp, hv, rfl⟩
              · exact hu.slots.called c f hf

theorem ProcInv.step {e : Tid × Pid × ProcEvent} (h : ProcInv s) (hw : s.NoWrap)
    (hs : s.step e = some s') : ProcInv s' := by
  obtain ⟨c, k, e⟩ := e
  simp only [Procs.step] at hs
  split at hs
  · rename_i k' t htodo
    cases hs
    exact h.setTodo_none.msgopen2 ((h.good t (.opening c k' t htodo)).mono sameSlots_setTodo.advances)
  · exact h.callMsgfunc1 hw hs
  · exact h.callReturn hw hs
  · obtain ⟨f, -, rfl⟩ := Option.map_eq_some_iff.1 hs
    exact h.setFlags
  · obtain ⟨f, -, rfl⟩ := Option.map_eq_some_iff.1 hs
    exact h.setFlags
  · obtain ⟨-, hs⟩ := Option.ite_none_right_eq_some.1 hs
    split at hs
    · split at hs
      · cases hs
        exact h
      · rename_i u t hr
        cases hs
        obtain ⟨hu, hg⟩ := h.processNew hw hr
        exact hu.opening hg
    · split at hs
      · cases hs
        exact h
      · rename_i d hd
        cases hs
        exact h.opening (h.good _ (.name d (List.mem_of_find?_eq_some hd)))
    · cases hs
      exact h.msgregister
    · cases hs
      exact h.setFunc
    · cases hs
      exact h.msgclose
    · cases hs
      exact h.msgunregister
    · obtain ⟨r, hr, rfl⟩ := Option.map_eq_some_iff.1 hs
      exact h.msgsenddesc hr
    · cases hs
      exact h.read
    · cases hs
  · cases hs

theorem Procs.Init.inv (h : s.Init) : ProcInv s := by
  have hslots : SlotInv s := by
    refine ⟨by simp [h.valid], h.gen 0, fun p => ?_, fun p => ?_, fun p q hp hq _ => ?_,
      fun p => ?_, fun c f hf => ?_⟩
    · rw [h.gen]
      decide
    · rw [h.inst, h.next]
      decide
    · rw [h.valid, decide_eq_true_eq] at hp hq
      exact hp.trans hq.symm
    · simp [h.running, frames, h.calls]
    · simp [h.calls] at hf
  refine ⟨hslots, fun t ht => ?_⟩
  cases ht with
  | dsc p i =>
    rw [h.msgdsc]
    exact .of_kernel hslots rfl (by simp [clearDsc])
  | name n hn => simp [h.names] at hn
  | opening c k t ht => simp [h.todo] at ht
  | sending c t ht => simp [h.todo] at ht

theorem procInv_of_reachable (h : procMachine.ReachableWhen (fun s _ => s.NoWrap) s) : ProcInv s :=
  h.invariant (fun _ => Procs.Init.inv) fun _ _ _ hs hw hstep => hs.step hw hstep

/-! ### Deliveries -/

/-- What is promised of the next steps: a message that was read from a descriptor is delivered to
the process that the descriptor was opened on, so is a descriptor that is sent, a process that is
called is there until it returns, and only a slot that nobody runs is taken. -/
structure Procs.Delivers (s : Procs) : Prop where
  message : ∀ c t p i, s.todo c = .sending true t → s.check t = .calls p i →
    t.on = some (s.process p).inst
  descriptor : ∀ k td (q : Pid), ((s.process k).msgdsc td).pid = (q : Nat) →
    (s.process q).valid = true → (s.process q).gen = ((s.process k).msgdsc td).gen →
      ((s.process k).msgdsc td).on = some (s.process q).inst
  called : ∀ c, ∀ f ∈ s.calls c, (s.process f.1).valid = true ∧ (s.process f.1).inst = f.2
  slot : ∀ p, s.freeSlot = some p → (s.process p).valid = false ∧ ∀ c, ∀ f ∈ s.calls c, f.1 ≠ p
  distinct : ∀ p q, (s.process p).valid = true → (s.process q).valid = true →
    (s.process p).inst = (s.process q).inst → p = q
  fresh : ∀ p, (s.process p).inst < s.next

theorem ProcInv.delivers (h : ProcInv s) : s.Delivers where
  message c t p i ht hcheck := by
    obtain ⟨hpid, hv, hg⟩ := check_calls hcheck
    exact (h.good t (.sending c t ht) p hpid).2 hv hg.symm
  descriptor k td q hpid hv hg := (h.good _ (.dsc k td) q hpid).2 hv hg.symm
  called c f hf := (h.slots.called c f hf).2
  slot p hp := by
    obtain ⟨-, hv⟩ := freeSlot_spec hp
    exact ⟨hv, frames_eq_zero (h.slots.frames_of_invalid hv)⟩
  distinct := h.slots.distinct
  fresh := h.slots.fresh

theorem delivers_of_reachable (h : procMachine.ReachableWhen (fun s _ => s.NoWrap) s) :
    s.Delivers :=
  (procInv_of_reachable h).delivers

/-- `process_init_global`. -/
def processInitGlobal : Procs where
  process p :=
    { valid := decide (p = 0)
      gen := 1
      running := 0
      msgdsc := fun _ => clearDsc
      exitflag := false
      setlimit := false
      inst := 0 }
  msgDataUsed := []
  calls _ := []
  todo _ := .none
  next := 1

theorem processInitGlobal_init : processInitGlobal.Init :=
  ⟨fun _ => rfl, fun _ => rfl, fun _ => rfl, fun _ _ => rfl, rfl, fun _ => rfl, fun _ => rfl,
    fun _ => rfl, rfl⟩

/-- The VMM starts a process and sends to it. -/
theorem delivers_newprocess : ∃ s t,
    procMachine.run processInitGlobal
        [(0, 0, .new false 5), (0, 0, .open2), (0, 0, .read 0 clearDsc.toMsgTarget)] = some s ∧
      s.todo 0 = .sending true t ∧ s.check t = .calls 1 0 ∧ s.Delivers :=
  ⟨_, _, rfl, rfl, by rfl, delivers_of_reachable
    (.step (e := (0, 0, .read 0 clearDsc.toMsgTarget))
      (.step (e := (0, 0, .open2))
        (.step (e := (0, 0, .new false 5)) (.init processInitGlobal_init) (by decide) rfl)
        (by decide) rfl) (by decide) rfl)⟩

end OnDemandVirt.Vmm
