import Mathlib.Logic.Basic

/-!
# Labelled machines and their runs

A `Machine` is a set of initial states and a partial step function: `step s e = none` says that
the event `e` cannot happen in `s`. `ReachableWhen C` are the states reached by runs whose every
step, from a state `s` on an event `e`, meets `C s e`; `Reachable` puts no condition on the steps.
An invariant is shown once per machine (`ReachableWhen.invariant`), and an invariant may use
another one that is already there (`ReachableWhen.invariant_of`).
-/

namespace OnDemandVirt.Lib

/-- Initial states and a partial step function on events. -/
structure Machine (σ ε : Type*) where
  /-- The states a run may start in. -/
  init : σ → Prop
  /-- What an event does, `none` where it cannot happen. -/
  step : σ → ε → Option σ

namespace Machine

variable {σ ε : Type*} (M : Machine σ ε)

/-- The states reached by runs whose steps all meet `C`. -/
inductive ReachableWhen (C : σ → ε → Prop) : σ → Prop
  | init {s : σ} : M.init s → ReachableWhen C s
  | step {s : σ} {e : ε} {s' : σ} :
      ReachableWhen C s → C s e → M.step s e = some s' → ReachableWhen C s'

/-- The states reached by any run. -/
def Reachable : σ → Prop := M.ReachableWhen fun _ _ => True

variable {M} {C D : σ → ε → Prop}

theorem ReachableWhen.mono (hCD : ∀ s e, C s e → D s e) {s : σ} (h : M.ReachableWhen C s) :
    M.ReachableWhen D s := by
  induction h with
  | init h0 => exact .init h0
  | step _ hc hstep ih => exact .step ih (hCD _ _ hc) hstep

theorem ReachableWhen.reachable {s : σ} (h : M.ReachableWhen C s) : M.Reachable s :=
  h.mono fun _ _ _ => trivial

/-- An invariant: it holds initially and every step of the run keeps it. -/
theorem ReachableWhen.invariant {I : σ → Prop} (hinit : ∀ s, M.init s → I s)
    (hstep : ∀ s e s', I s → C s e → M.step s e = some s' → I s') {s : σ}
    (h : M.ReachableWhen C s) : I s := by
  induction h with
  | init h0 => exact hinit _ h0
  | step _ hc hs ih => exact hstep _ _ _ ih hc hs

/-- An invariant whose steps may use a fact `J` that is known of every state of the run. -/
theorem ReachableWhen.invariant_of {I J : σ → Prop} (hJ : ∀ s, M.ReachableWhen C s → J s)
    (hinit : ∀ s, M.init s → I s)
    (hstep : ∀ s e s', J s → I s → C s e → M.step s e = some s' → I s') {s : σ}
    (h : M.ReachableWhen C s) : I s := by
  induction h with
  | init h0 => exact hinit _ h0
  | step hr hc hs ih => exact hstep _ _ _ (hJ _ hr) ih hc hs

variable (M) in
/-- Running a list of events, `none` where one of them cannot happen. -/
def run (s : σ) : List ε → Option σ
  | [] => some s
  | e :: es => (M.step s e).bind fun s' => run s' es

theorem run_append {s : σ} (es es' : List ε) :
    M.run s (es ++ es') = (M.run s es).bind fun t => M.run t es' := by
  induction es generalizing s with
  | nil => rfl
  | cons e es ih =>
    rw [List.cons_append, run, run, Option.bind_assoc]
    exact congrArg _ (funext fun t => ih)

/-- A run of events that meet `C` in any state. -/
theorem ReachableWhen.run {s : σ} (h : M.ReachableWhen C s) :
    ∀ (es : List ε) {s' : σ}, (∀ e ∈ es, ∀ t, C t e) → M.run s es = some s' →
      M.ReachableWhen C s' := by
  intro es
  induction es generalizing s with
  | nil =>
    intro s' _ hs
    cases hs
    exact h
  | cons e es ih =>
    intro s' hC hs
    obtain ⟨t, hst, hts⟩ := Option.bind_eq_some_iff.mp hs
    exact ih (.step h (hC e List.mem_cons_self s) hst)
      (fun e' he' => hC e' (List.mem_cons_of_mem e he')) hts

theorem Reachable.run {s : σ} (h : M.Reachable s) (es : List ε) {s' : σ}
    (hs : M.run s es = some s') : M.Reachable s' :=
  ReachableWhen.run h es (fun _ _ _ => trivial) hs

variable (M) in
/-- The runs that go on from a state. -/
def startingAt (s : σ) : Machine σ ε := { M with init := fun t => t = s }

theorem Reachable.trans {s s' : σ} (h : M.Reachable s)
    (h' : (M.startingAt s).ReachableWhen C s') : M.Reachable s' := by
  induction h' with
  | init h0 =>
    cases h0
    exact h
  | step _ _ hs ih => exact .step ih trivial hs

end Machine

end OnDemandVirt.Lib
