import OnDemandVirt.Vmm.Thread

/-!
# Where the threads are

`Placed s p` says that `p` tells where each thread of `s` is, `Owned s p` whose the stacks are and
`Stacked s p` where the stack pointers are. Each section of `thread.c` moves one thread, `schedule`
two.
-/

namespace OnDemandVirt.Vmm

/-- Where a thread is. -/
inductive Place
  | running (c : Nat)
  | runnable
  | stopped
  /-- Taken out of `THREAD_STOP` by the wakeup of `c`, which puts it on the run queue next. -/
  | waking (c : Nat)
  | free
  deriving DecidableEq

namespace Threads

/-- CPU `c` runs threads. -/
def On (s : Threads) (c : Nat) : Prop := (s.cpu c).doing ≠ .off

def InPlace (s : Threads) (t : Tid) : Place → Prop
  | .running c => s.On c ∧ (s.cpu c).tid = t
  | .runnable => t ∈ s.tdRunnable
  | .stopped => (s.td t).state = .stop
  | .waking c => (s.cpu c).doing = .waking t
  | .free => t ∈ s.tdFree

end Threads

/-- The states that go with a place. -/
def Place.Allows : Place → ThreadState → Prop
  | .running _, st => st ≠ .stop
  | .runnable, st => st = .run
  | .stopped, st => st = .stop
  | .waking _, st => st = .run
  | .free, st => st = .exit

/-- `p` tells where the threads of `s` are. -/
structure Placed (s : Threads) (p : Tid → Place) : Prop where
  inPlace : ∀ t q, s.InPlace t q ↔ p t = q
  allows : ∀ t, (p t).Allows (s.td t).state
  freeNodup : s.tdFree.Nodup
  runnableNodup : s.tdRunnable.Nodup

/-- The stack of a thread that is at `p t`; without a thread, the stack that is to be freed. -/
def Threads.stackOf (s : Threads) (p : Tid → Place) : Option Tid → Option Nat
  | none => s.oldStack
  | some t =>
    match p t with
    | .free => none
    | .running c => (s.cpu c).stackaddr
    | _ => (s.td t).stack

/-- Stacks that are in use are allocated and have one owner. -/
structure Owned (s : Threads) (p : Tid → Place) : Prop where
  hasStack : ∀ t, p t ≠ .free → (s.stackOf p (some t)).isSome
  allocated : ∀ o k, s.stackOf p o = some k → s.allocated k = true
  inj : ∀ o o' k, s.stackOf p o = some k → s.stackOf p o' = some k → o = o'

/-- What a CPU that is in the middle of `schedule` has done so far. -/
structure Switching (s : Threads) (p : Tid → Place) (c : Nat) (old new : Tid) : Prop where
  lock : s.threadLock = some c
  tid : (s.cpu c).tid = new
  ne : old ≠ new
  sp : (s.cpu c).sp = (s.td old).stack
  context : (s.td new).context = (s.cpu c).stackaddr
  place : p old = .runnable ∨ p old = .stopped ∨ p old = .free ∧ (s.td old).stack = s.oldStack
  hasStack : (s.td old).stack.isSome

/-- The stack pointers: of a CPU, and saved. -/
structure Stacked (s : Threads) (p : Tid → Place) : Prop where
  switching : ∀ c old new, (s.cpu c).doing = .switching old new → Switching s p c old new
  switched : ∀ c, (s.cpu c).doing = .switched → s.threadLock = some c
  sp : ∀ c, s.On c → (∀ old new, (s.cpu c).doing ≠ .switching old new) →
    (s.cpu c).sp = (s.cpu c).stackaddr
  context : ∀ t, p t = .runnable ∨ p t = .stopped ∨ (∃ c, p t = .waking c) →
    (∀ c new, (s.cpu c).doing ≠ .switching t new) → (s.td t).context = (s.td t).stack

/-- The invariant of all runs. -/
def ThreadInv (s : Threads) : Prop := ∃ p, Placed s p ∧ Owned s p ∧ Stacked s p

open Threads

variable {s s' : Threads} {p : Tid → Place} {c k : Nat} {t t₀ : Tid} {q b : Place}

/-! ### Places -/

theorem Placed.unique (h : Placed s p) (h₁ : s.InPlace t q) (h₂ : s.InPlace t b) : q = b := by
  rw [h.inPlace] at h₁ h₂
  exact h₁.symm.trans h₂

theorem Placed.not_inPlace (h : Placed s p) (hq : p t = q) (hne : q ≠ b) : ¬ s.InPlace t b :=
  fun hb => hne (hq.symm.trans ((h.inPlace t b).1 hb))

/-- A step that moves one thread. -/
theorem Placed.move (h : Placed s p) (t₀ : Tid) (hat : ∀ q, s'.InPlace t₀ q ↔ b = q)
    (hother : ∀ t, t ≠ t₀ → ∀ q, s'.InPlace t q ↔ s.InPlace t q)
    (hallows : b.Allows (s'.td t₀).state)
    (hstate : ∀ t, t ≠ t₀ → (s'.td t).state = (s.td t).state)
    (hfree : s'.tdFree.Nodup) (hrun : s'.tdRunnable.Nodup) :
    Placed s' (Function.update p t₀ b) := by
  refine ⟨fun t q => ?_, fun t => ?_, hfree, hrun⟩
  · rcases eq_or_ne t t₀ with rfl | ht
    · rw [Function.update_self]
      exact hat q
    · rw [Function.update_of_ne ht, hother t ht]
      exact h.inPlace t q
  · rcases eq_or_ne t t₀ with rfl | ht
    · rw [Function.update_self]
      exact hallows
    · rw [Function.update_of_ne ht, hstate t ht]
      exact h.allows t

/-- A step that moves no thread. -/
theorem Placed.stay (h : Placed s p) (hin : ∀ t q, s'.InPlace t q ↔ s.InPlace t q)
    (hallows : ∀ t, (p t).Allows (s'.td t).state) (hfree : s'.tdFree = s.tdFree)
    (hrun : s'.tdRunnable = s.tdRunnable) : Placed s' p :=
  ⟨fun t q => (hin t q).trans (h.inPlace t q), hallows, hfree ▸ h.freeNodup,
    hrun ▸ h.runnableNodup⟩

/-! ### Stacks -/

theorem Owned.fresh (h : Owned s p) {p' : Tid → Place} (t₀ : Tid) (hk : s.allocated k = false)
    (hall : s'.allocated = Function.update s.allocated k true)
    (hat : s'.stackOf p' (some t₀) = some k)
    (hother : ∀ o, o ≠ some t₀ → s'.stackOf p' o = s.stackOf p o)
    (hfree : ∀ t, t ≠ t₀ → p' t ≠ .free → p t ≠ .free) : Owned s' p' := by
  have hne : ∀ o, s.stackOf p o ≠ some k := fun o ho => by
    rw [h.allocated o k ho] at hk
    cases hk
  refine ⟨fun t ht => ?_, fun o j ho => ?_, fun o o' j ho ho' => ?_⟩
  · rcases eq_or_ne t t₀ with rfl | htt
    · simp [hat]
    · rw [hother _ (by simpa using htt)]
      exact h.hasStack t (hfree t htt ht)
  · rw [hall]
    rcases eq_or_ne o (some t₀) with rfl | hot
    · rw [hat] at ho
      cases ho
      exact Function.update_self ..
    · rw [hother o hot] at ho
      have hjk : j ≠ k := fun e => hne o (ho.trans (congrArg _ e))
      rw [Function.update_of_ne hjk]
      exact h.allocated o j ho
  · rcases eq_or_ne o (some t₀) with rfl | hot <;> rcases eq_or_ne o' (some t₀) with rfl | hot'
    · rfl
    · rw [hat] at ho
      rw [hother o' hot', ← ho] at ho'
      exact absurd ho' (hne o')
    · rw [hat] at ho'
      rw [hother o hot, ← ho'] at ho
      exact absurd ho (hne o)
    · rw [hother o hot] at ho
      rw [hother o' hot'] at ho'
      exact h.inj o o' j ho ho'

/-- A step after which all own what they owned. -/
theorem Owned.same (h : Owned s p) {p' : Tid → Place} (hall : s'.allocated = s.allocated)
    (hstack : ∀ o, s'.stackOf p' o = s.stackOf p o)
    (hfree : ∀ t, p' t ≠ .free → p t ≠ .free) : Owned s' p' := by
  refine ⟨fun t ht => ?_, fun o j ho => ?_, fun o o' j ho ho' => ?_⟩
  · rw [hstack]
    exact h.hasStack t (hfree t ht)
  · rw [hstack] at ho
    rw [hall]
    exact h.allocated o j ho
  · rw [hstack] at ho ho'
    exact h.inj o o' j ho ho'

theorem Stacked.quiet (h : Stacked s p) (hl : s.threadLock = none) (c : Nat) :
    (∀ old new, (s.cpu c).doing ≠ .switching old new) ∧ (s.cpu c).doing ≠ .switched := by
  refine ⟨fun old new hd => ?_, fun hd => ?_⟩
  · have := (h.switching c old new hd).lock
    rw [hl] at this
    cases this
  · have := h.switched c hd
    rw [hl] at this
    cases this

theorem Stacked.of_quiet
    (hq : ∀ c, (∀ old new, (s.cpu c).doing ≠ .switching old new) ∧ (s.cpu c).doing ≠ .switched)
    (hsp : ∀ c, s.On c → (s.cpu c).sp = (s.cpu c).stackaddr)
    (hcontext : ∀ t, p t = .runnable ∨ p t = .stopped ∨ (∃ c, p t = .waking c) →
      (s.td t).context = (s.td t).stack) : Stacked s p :=
  ⟨fun c old new hd => absurd hd ((hq c).1 old new), fun c hd => absurd hd (hq c).2,
    fun c hc _ => hsp c hc, fun t ht _ => hcontext t ht⟩

theorem Stacked.sp_of_unlocked (h : Stacked s p) (hl : s.threadLock = none) (hc : s.On c) :
    (s.cpu c).sp = (s.cpu c).stackaddr :=
  h.sp c hc (h.quiet hl c).1

theorem Stacked.context_of_unlocked (h : Stacked s p) (hl : s.threadLock = none)
    (ht : p t = .runnable ∨ p t = .stopped ∨ (∃ c, p t = .waking c)) :
    (s.td t).context = (s.td t).stack :=
  h.context t ht fun c _ => (h.quiet hl c).1 t _

/-! ### The sections -/

theorem ThreadInv.new (h : ThreadInv s) (hl : s.threadLock = none) (hk : s.allocated k = false)
    (hs : s.threadNew k = some s') : ThreadInv s' := by
  obtain ⟨p, hp, ho, hst⟩ := h
  unfold threadNew at hs
  split at hs
  · cases hs
  · rename_i t₀ rest hfree
    cases hs
    have h₀ : s.InPlace t₀ .free := by simp [InPlace, hfree]
    have hp₀ : p t₀ = .free := (hp.inPlace _ _).1 h₀
    have hnd := hp.freeNodup
    rw [hfree, List.nodup_cons] at hnd
    have hrun : t₀ ∉ s.tdRunnable := hp.not_inPlace (b := .runnable) hp₀ (by simp)
    refine ⟨Function.update p t₀ .runnable, hp.move t₀ (fun q => ?_) (fun t ht q => ?_) ?_ ?_
      hnd.2 ?_, ho.fresh t₀ hk rfl ?_ ?_ ?_, .of_quiet (hst.quiet hl) (fun c hc => ?_) ?_⟩
    · have hq := hp.inPlace t₀ q
      rw [hp₀] at hq
      cases q <;> simp_all [InPlace, On, threadDataInit, setTd, setStack]
    · cases q <;> simp_all [InPlace, On, threadDataInit, setTd, setStack]
    · simp [Place.Allows, threadDataInit, setTd, setStack]
    · intro t ht
      simp [ht, threadDataInit, setTd, setStack]
    · exact List.nodup_append.2 ⟨hp.runnableNodup, List.nodup_singleton _,
        fun a ha e he => by
          rw [List.mem_singleton] at he
          exact fun hae => hrun (he ▸ hae ▸ ha)⟩
    · simp [stackOf, threadDataInit, setTd, setStack]
    · rintro (_ | t) ht
      · rfl
      · have : t ≠ t₀ := by simpa using ht
        simp [stackOf, this, threadDataInit, setTd, setStack]
    · intro t ht
      rw [Function.update_of_ne ht]
      exact id
    · exact hst.sp_of_unlocked hl hc
    · intro t ht
      rcases eq_or_ne t t₀ with rfl | htt
      · simp [threadDataInit, setTd, setStack]
      · rw [Function.update_of_ne htt] at ht
        simpa [htt, threadDataInit, setTd, setStack] using hst.context_of_unlocked hl ht

theorem ThreadInv.initPcpu (h : ThreadInv s) (hl : s.threadLock = none)
    (hc : (s.cpu c).doing = .off) (hk : s.allocated k = false)
    (hs : s.threadInitPcpu c k = some s') : ThreadInv s' := by
  obtain ⟨p, hp, ho, hst⟩ := h
  unfold threadInitPcpu at hs
  split at hs
  · cases hs
  · rename_i t₀ rest hfree
    cases hs
    have h₀ : s.InPlace t₀ .free := by simp [InPlace, hfree]
    have hp₀ : p t₀ = .free := (hp.inPlace _ _).1 h₀
    have hnd := hp.freeNodup
    rw [hfree, List.nodup_cons] at hnd
    have hc' : ∀ t, p t ≠ .running c := fun t ht => ((hp.inPlace _ _).2 ht).1 hc
    refine ⟨Function.update p t₀ (.running c), hp.move t₀ (fun q => ?_) (fun t ht q => ?_) ?_ ?_
      hnd.2 hp.runnableNodup, ho.fresh t₀ hk rfl ?_ ?_ ?_,
      .of_quiet (fun c' => ?_) (fun c' hon => ?_) ?_⟩
    · have hq := hp.inPlace t₀ q
      rw [hp₀] at hq
      cases q with
      | running c' =>
        rcases eq_or_ne c' c with rfl | hcc <;>
          simp_all [InPlace, On, threadDataInit, setTd, setStack, setCpu]
        exact ⟨fun e => absurd e.2 (hq e.1), fun e => absurd e.symm hcc⟩
      | waking c' =>
        rcases eq_or_ne c' c with rfl | hcc <;>
          simp_all [InPlace, threadDataInit, setTd, setStack, setCpu]
      | _ => simp_all [InPlace, threadDataInit, setTd, setStack, setCpu]
    · cases q with
      | running c' =>
        rcases eq_or_ne c' c with rfl | hcc <;>
          simp_all [InPlace, On, threadDataInit, setTd, setStack, setCpu]
        exact Ne.symm ht
      | waking c' =>
        rcases eq_or_ne c' c with rfl | hcc <;>
          simp_all [InPlace, threadDataInit, setTd, setStack, setCpu]
      | _ => simp_all [InPlace, threadDataInit, setTd, setStack, setCpu]
    · simp [Place.Allows, threadDataInit, setTd, setStack, setCpu]
    · intro t ht
      simp [ht, threadDataInit, setTd, setStack, setCpu]
    · simp [stackOf, threadDataInit, setTd, setStack, setCpu]
    · rintro (_ | t) ht
      · rfl
      · have htt : t ≠ t₀ := by simpa using ht
        have := hc' t
        simp only [stackOf, Function.update_of_ne htt]
        cases hpt : p t with
        | running c' =>
          have hcc : c' ≠ c := by
            rintro rfl
            exact this hpt
          simp [threadDataInit, setTd, setStack, setCpu, hcc]
        | _ => simp [threadDataInit, setTd, setStack, setCpu, htt]
    · intro t ht
      rw [Function.update_of_ne ht]
      exact id
    · have := hst.quiet hl c'
      rcases eq_or_ne c' c with rfl | hcc <;>
        simp_all [threadDataInit, setTd, setStack, setCpu]
    · rcases eq_or_ne c' c with rfl | hcc
      · simp [threadDataInit, setTd, setStack, setCpu]
      · have : s.On c' := by simpa [On, threadDataInit, setTd, setStack, setCpu, hcc] using hon
        simpa [threadDataInit, setTd, setStack, setCpu, hcc] using hst.sp_of_unlocked hl this
    · intro t ht
      rcases eq_or_ne t t₀ with rfl | htt
      · simp [Function.update_self] at ht
      · rw [Function.update_of_ne htt] at ht
        simpa [htt, threadDataInit, setTd, setStack, setCpu] using
          hst.context_of_unlocked hl ht

theorem ThreadInv.freeOldStack (h : ThreadInv s) (hl : s.threadLock = none) :
    ThreadInv s.freeOldStack ∧ s.freeOldStack.oldStack = none := by
  obtain ⟨p, hp, ho, hst⟩ := h
  unfold Threads.freeOldStack
  split
  · exact ⟨⟨p, hp, ho, hst⟩, by assumption⟩
  · rename_i k hk
    have hold : s.stackOf p none = some k := hk
    have hthread : ∀ t j, s.stackOf p (some t) = some j → j ≠ k := by
      rintro t j hj rfl
      have := ho.inj _ _ _ hj hold
      cases this
    refine ⟨⟨p, hp.stay (fun t q => ?_) hp.allows rfl rfl, ⟨ho.hasStack, ?_, ?_⟩,
      .of_quiet (hst.quiet hl) (fun c => hst.sp_of_unlocked hl)
        fun t => hst.context_of_unlocked hl⟩, rfl⟩
    · cases q <;> rfl
    · rintro (_ | t) j hj
      · cases hj
      · have hjk := hthread t j hj
        simp only [setStack, Function.update_of_ne hjk]
        exact ho.allocated (some t) j hj
    · rintro (_ | t) (_ | t') j hj hj'
      · rfl
      · cases hj
      · cases hj'
      · exact ho.inj (some t) (some t') j hj hj'

/-- What `schedule` leaves behind where it switches from `o` to `d`. -/
structure Scheduled (s : Threads) (c : Nat) (o d : Tid) (s' : Threads) : Prop where
  runnable : s.tdRunnable.erase d ++ (if (s.td o).state = .run then [o] else []) = s'.tdRunnable
  free : s.tdFree ++ (if (s.td o).state = .exit then [o] else []) = s'.tdFree
  oldStack : (if (s.td o).state = .exit then (s.cpu c).stackaddr else s.oldStack) = s'.oldStack
  stack : ∀ t, (s'.td t).stack = if t = o then (s.cpu c).stackaddr else (s.td t).stack
  context : ∀ t, (s'.td t).context = (s.td t).context
  state : ∀ t, (s'.td t).state =
    if t = o ∧ (s.td o).state = .willStop then .stop else (s.td t).state
  notStop : (s.td o).state ≠ .stop
  allocated : s'.allocated = s.allocated
  lock : s'.threadLock = some c
  cpu : ∀ c', c' ≠ c → s'.cpu c' = s.cpu c'
  doing : (s'.cpu c).doing = .switching o d
  tid : (s'.cpu c).tid = d
  sp : (s'.cpu c).sp = (s.cpu c).sp
  stackaddr : o ≠ d → (s'.cpu c).stackaddr = (s.td d).stack

theorem schedule_cases (hs : s.schedule c = some s') :
    s' = s.freeOldStack ∨
      ∃ d ∈ s.freeOldStack.tdRunnable, Scheduled s.freeOldStack c (s.cpu c).tid d s' := by
  unfold schedule at hs
  have hcpu : s.freeOldStack.cpu = s.cpu := by
    unfold Threads.freeOldStack
    split <;> rfl
  generalize s.freeOldStack = u at hs hcpu ⊢
  simp only at hs
  split at hs
  · left
    cases hs
    rfl
  · rename_i d hd
    right
    refine ⟨d, List.mem_of_find?_eq_some hd, ?_⟩
    rw [hcpu] at hs
    generalize (s.cpu c).tid = o at hs ⊢
    obtain ⟨v, hv, rfl⟩ := Option.map_eq_some_iff.1 hs
    unfold putAway at hv
    simp only [threadDataSaveAndLoad, setTd, setCpu, Function.update_self] at hv
    cases hst : (u.td o).state <;> rw [hst] at hv <;> simp only at hv <;> cases hv
    all_goals
      constructor <;> intros <;>
        simp_all [setDoing, setCpu, setState, setTd, Function.update_apply] <;> split <;> simp_all

/-- Where `schedule` puts the thread that ran. -/
def Place.after : ThreadState → Place
  | .exit => .free
  | .run => .runnable
  | .willStop | .stop => .stopped

theorem Placed.scheduled {o d : Tid} (h : Placed s p) (hc : (s.cpu c).doing = .idle)
    (ho : (s.cpu c).tid = o) (hd : d ∈ s.tdRunnable) (hs : Scheduled s c o d s') :
    o ≠ d ∧ p o = .running c ∧ p d = .runnable ∧
      Placed s' (Function.update (Function.update p d (.running c)) o
        (Place.after (s.td o).state)) := by
  have hon : s.On c := by simp [On, hc]
  have hpo : p o = .running c := (h.inPlace _ _).1 ⟨hon, ho⟩
  have hpd : p d = .runnable := (h.inPlace _ _).1 hd
  have hod : o ≠ d := by
    rintro rfl
    rw [hpo] at hpd
    cases hpd
  have hor : o ∉ s.tdRunnable := h.not_inPlace (b := .runnable) hpo (by simp)
  have hof : o ∉ s.tdFree := h.not_inPlace (b := .free) hpo (by simp)
  have hdoing : (s'.cpu c).doing = .switching o d := hs.doing
  -- what each place holds afterwards, by the place
  have hin : ∀ t q, s'.InPlace t q ↔
      (if t = o then q = Place.after (s.td o).state
        else if t = d then q = .running c else s.InPlace t q) := by
    intro t q
    cases q with
    | running c' =>
      rcases eq_or_ne c' c with rfl | hcc
      · have hto : s.InPlace t (.running c') ↔ t = o := by
          simp only [InPlace, hon, true_and, ho]
          exact eq_comm
        rw [hto]
        simp only [InPlace, On, hdoing, hs.tid]
        rcases eq_or_ne t o with rfl | htne
        · cases (s.td t).state <;> simp [hod.symm, Place.after]
        · rcases eq_or_ne t d with rfl | htd
          · simp [htne]
          · simp [htne, htd, htd.symm]
      · simp only [InPlace, On, hs.cpu c' hcc]
        rcases eq_or_ne t o with rfl | htne
        · have : ¬ s.InPlace t (.running c') := h.not_inPlace hpo (by simp [hcc.symm])
          simp only [InPlace, On] at this
          cases (s.td t).state <;> simp [Place.after] <;> simpa using this
        · rcases eq_or_ne t d with rfl | htd
          · have : ¬ s.InPlace t (.running c') := h.not_inPlace hpd (by simp)
            simp only [InPlace, On] at this
            simpa [htne, hcc] using this
          · simp [htne, htd]
    | runnable =>
      simp only [InPlace, ← hs.runnable, List.mem_append, h.runnableNodup.mem_erase_iff]
      rcases eq_or_ne t o with rfl | htne
      · cases (s.td t).state <;> simp [Place.after, hor]
      · rcases eq_or_ne t d with rfl | htd <;> cases (s.td o).state <;> simp [*]
    | stopped =>
      have hst := h.allows d
      rw [hpd] at hst
      simp only [InPlace, hs.state]
      have := hs.notStop
      rcases eq_or_ne t o with rfl | htne
      · cases hto : (s.td t).state <;> simp_all [Place.after]
      · rcases eq_or_ne t d with rfl | htd
        · simp only [Place.Allows] at hst
          simp [htne, hst]
        · simp [htne, htd]
    | waking c' =>
      have hw : s'.InPlace t (.waking c') ↔ s.InPlace t (.waking c') := by
        rcases eq_or_ne c' c with rfl | hcc
        · simp [InPlace, hdoing, hc]
        · simp only [InPlace, hs.cpu c' hcc]
      rw [hw]
      rcases eq_or_ne t o with rfl | htne
      · have : ¬ s.InPlace t (.waking c') := h.not_inPlace hpo (by simp)
        cases (s.td t).state <;> simp [Place.after, this]
      · rcases eq_or_ne t d with rfl | htd
        · have : ¬ s.InPlace t (.waking c') := h.not_inPlace hpd (by simp)
          simp [htne, this]
        · simp [htne, htd]
    | free =>
      have hdf : d ∉ s.tdFree := h.not_inPlace (b := .free) hpd (by simp)
      simp only [InPlace, ← hs.free, List.mem_append]
      rcases eq_or_ne t o with rfl | htne
      · cases (s.td t).state <;> simp [Place.after, hof]
      · rcases eq_or_ne t d with rfl | htd <;> cases (s.td o).state <;> simp [*]
  refine ⟨hod, hpo, hpd, fun t q => ?_, fun t => ?_, ?_, ?_⟩
  · rw [hin t q]
    rcases eq_or_ne t o with rfl | htne
    · simp [eq_comm]
    · rcases eq_or_ne t d with rfl | htd
      · simp [htne, eq_comm]
      · simp [htne, htd, h.inPlace t q]
  · have hno := hs.notStop
    have hall := h.allows t
    rw [hs.state]
    rcases eq_or_ne t o with rfl | htne
    · cases hto : (s.td t).state <;> simp_all [Place.after, Place.Allows]
    · rcases eq_or_ne t d with rfl | htd
      · rw [hpd] at hall
        have : (s.td t).state = .run := hall
        simp [htne, Place.Allows, this]
      · simpa [htne, htd] using hall
  · rw [← hs.free]
    split
    · exact List.nodup_append.2 ⟨h.freeNodup, List.nodup_singleton _, fun a ha b hb e => by
        rw [List.mem_singleton] at hb
        exact hof (hb ▸ e ▸ ha)⟩
    · simpa using h.freeNodup
  · rw [← hs.runnable]
    split
    · refine List.nodup_append.2 ⟨h.runnableNodup.erase d, List.nodup_singleton _, ?_⟩
      intro a ha b hb e
      rw [List.mem_singleton] at hb
      exact hor (hb ▸ e ▸ List.mem_of_mem_erase ha)
    · simpa using h.runnableNodup.erase d

theorem Owned.retire (h : Owned s p) {p' : Tid → Place} (o : Tid) (hall : s'.allocated = s.allocated)
    (hnone : s'.stackOf p' none = s.stackOf p (some o)) (hat : s'.stackOf p' (some o) = none)
    (hother : ∀ t, t ≠ o → s'.stackOf p' (some t) = s.stackOf p (some t))
    (hfree : ∀ t, p' t ≠ .free → t ≠ o ∧ p t ≠ .free) : Owned s' p' := by
  -- who owned before what is owned now
  let f : Option Tid → Option Tid := fun x => if x = none then some o else x
  have hf : ∀ x k, s'.stackOf p' x = some k → x ≠ some o ∧ s.stackOf p (f x) = some k := by
    intro x k hx
    cases x with
    | none => exact ⟨by simp, hnone ▸ hx⟩
    | some t =>
      have hto : t ≠ o := by
        rintro rfl
        rw [hat] at hx
        cases hx
      exact ⟨by simpa using hto, hother t hto ▸ hx⟩
  refine ⟨fun t ht => ?_, fun x k hx => ?_, fun x x' k hx hx' => ?_⟩
  · rw [hother t (hfree t ht).1]
    exact h.hasStack t (hfree t ht).2
  · rw [hall]
    exact h.allocated _ k (hf x k hx).2
  · obtain ⟨hxo, hx⟩ := hf x k hx
    obtain ⟨hxo', hx'⟩ := hf x' k hx'
    have := h.inj _ _ _ hx hx'
    cases x <;> cases x' <;> simp_all [f]

theorem ThreadInv.scheduled {o d : Tid} (h : ThreadInv s) (hl : s.threadLock = none)
    (hc : (s.cpu c).doing = .idle) (ho : (s.cpu c).tid = o)
    (hd : d ∈ s.tdRunnable) (hs : Scheduled s c o d s') : ThreadInv s' := by
  obtain ⟨p, hp, hown, hst⟩ := h
  obtain ⟨hod, hpo, hpd, hp'⟩ := hp.scheduled hc ho hd hs
  have hon : s.On c := by simp [On, hc]
  have hother : ∀ t, t ≠ o → s'.stackOf (Function.update (Function.update p d (.running c)) o
      (Place.after (s.td o).state)) (some t) = s.stackOf p (some t) := by
    intro t hto
    rcases eq_or_ne t d with rfl | htd
    · simp [stackOf, hto, hpd, hs.stackaddr hod]
    · simp only [stackOf, Function.update_of_ne hto, Function.update_of_ne htd]
      cases hpt : p t with
      | running c' =>
        have hcc : c' ≠ c := by
          rintro rfl
          exact hto (((hp.inPlace t (.running c')).2 hpt).2.symm.trans ho)
        simp [hs.cpu c' hcc]
      | _ => simp [hs.stack, hto]
  have hfree : ∀ t, t ≠ o → Function.update (Function.update p d (.running c)) o
      (Place.after (s.td o).state) t ≠ .free → p t ≠ .free := by
    intro t hto hpt
    rcases eq_or_ne t d with rfl | htd
    · simp [hpd]
    · simpa [hto, htd] using hpt
  have hso : s.stackOf p (some o) = (s.cpu c).stackaddr := by simp [stackOf, hpo]
  have hisSome : (s.cpu c).stackaddr.isSome := hso ▸ hown.hasStack o (by simp [hpo])
  refine ⟨_, hp', ?_, fun c' old new hd' => ?_, fun c' hd' => ?_, fun c' hon' hns => ?_,
    fun t ht hns => ?_⟩
  · by_cases hexit : (s.td o).state = .exit
    · refine hown.retire o hs.allocated ?_ ?_ hother fun t ht => ?_
      · rw [hso]
        simp [stackOf, ← hs.oldStack, hexit]
      · simp [stackOf, hexit, Place.after]
      · have hto : t ≠ o := by
          rintro rfl
          simp [hexit, Place.after] at ht
        exact ⟨hto, hfree t hto ht⟩
    · refine hown.same hs.allocated (fun x => ?_) fun t ht => ?_
      · cases x with
        | none => simp [stackOf, ← hs.oldStack, hexit]
        | some t =>
          rcases eq_or_ne t o with rfl | hto
          · rw [hso]
            have := hs.stack t
            cases hto : (s.td t).state <;> simp_all [stackOf, Place.after]
          · exact hother t hto
      · rcases eq_or_ne t o with rfl | hto
        · simp [hpo]
        · exact hfree t hto ht
  · have hcc : c' = c := by
      by_contra hcc
      rw [hs.cpu c' hcc] at hd'
      exact (hst.quiet hl c').1 _ _ hd'
    subst hcc
    rw [hs.doing] at hd'
    cases hd'
    refine ⟨hs.lock, hs.tid, hod, ?_, ?_, ?_, ?_⟩
    · rw [hs.sp, hs.stack, if_pos rfl]
      exact hst.sp_of_unlocked hl hon
    · rw [hs.context, hs.stackaddr hod]
      exact hst.context_of_unlocked hl (.inl hpd)
    · rw [Function.update_self, hs.stack, if_pos rfl, ← hs.oldStack]
      cases (s.td o).state <;> simp [Place.after]
    · rw [hs.stack, if_pos rfl]
      exact hisSome
  · rcases eq_or_ne c' c with rfl | hcc
    · exact hs.lock
    · rw [hs.cpu c' hcc] at hd'
      exact absurd hd' (hst.quiet hl c').2
  · rcases eq_or_ne c' c with rfl | hcc
    · exact absurd hs.doing (hns o d)
    · rw [On, hs.cpu c' hcc] at hon'
      rw [hs.cpu c' hcc]
      exact hst.sp_of_unlocked hl hon'
  · have hto : t ≠ o := by
      rintro rfl
      exact hns c d hs.doing
    have htd : t ≠ d := by
      rintro rfl
      simp [hto] at ht
    rw [hs.context, hs.stack, if_neg hto]
    simp only [Function.update_of_ne hto, Function.update_of_ne htd] at ht
    exact hst.context_of_unlocked hl ht

theorem ThreadInv.schedule (h : ThreadInv s) (hl : s.threadLock = none)
    (hc : (s.cpu c).doing = .idle) (hs : s.schedule c = some s') : ThreadInv s' := by
  obtain ⟨hu, hnone⟩ := h.freeOldStack hl
  have hcpu : s.freeOldStack.cpu = s.cpu := by
    unfold Threads.freeOldStack
    split <;> rfl
  have hlock : s.freeOldStack.threadLock = s.threadLock := by
    unfold Threads.freeOldStack
    split <;> rfl
  obtain rfl | ⟨d, hd, hs⟩ := schedule_cases hs
  · exact hu
  · exact hu.scheduled (hlock.trans hl) (hcpu ▸ hc) (by rw [hcpu]) hd hs

theorem ThreadInv.threadSwitch {old new : Tid} (h : ThreadInv s)
    (hd : (s.cpu c).doing = .switching old new) : ThreadInv (s.threadSwitch c old new) := by
  obtain ⟨p, hp, hown, hst⟩ := h
  have hsw := hst.switching c old new hd
  have hlock : ∀ c' : Nat, s.threadLock = some c' → c' = c := fun c' hc' => by
    rw [hsw.lock] at hc'
    cases hc'
    rfl
  refine ⟨p, hp.stay (fun t q => ?_) (fun t => ?_) rfl rfl,
    hown.same rfl (fun x => ?_) fun t => id, fun c' old' new' hd' => ?_, fun c' hd' => ?_,
    fun c' hon' hns => ?_, fun t ht hns => ?_⟩
  · cases q with
    | running c' =>
      rcases eq_or_ne c' c with rfl | hcc <;>
        simp [InPlace, On, Threads.threadSwitch, setCpu, setTd, *]
    | waking c' =>
      rcases eq_or_ne c' c with rfl | hcc <;>
        simp [InPlace, Threads.threadSwitch, setCpu, setTd, *]
    | stopped =>
      rcases eq_or_ne t old with rfl | hto <;>
        simp [InPlace, Threads.threadSwitch, setCpu, setTd, *]
    | _ => rfl
  · have := hp.allows t
    rcases eq_or_ne t old with rfl | hto
    · simpa [Threads.threadSwitch, setCpu, setTd] using this
    · simpa [Threads.threadSwitch, setCpu, setTd, hto] using this
  · cases x with
    | none => rfl
    | some t =>
      simp only [stackOf]
      cases p t with
      | running c' =>
        rcases eq_or_ne c' c with rfl | hcc <;> simp [Threads.threadSwitch, setCpu, setTd, *]
      | _ =>
        rcases eq_or_ne t old with rfl | hto <;> simp [Threads.threadSwitch, setCpu, setTd, *]
  · rcases eq_or_ne c' c with rfl | hcc
    · simp [Threads.threadSwitch, setCpu, setTd] at hd'
    · have hd'' : (s.cpu c').doing = .switching old' new' := by
        simpa [Threads.threadSwitch, setCpu, setTd, hcc] using hd'
      exact absurd (hlock c' (hst.switching c' old' new' hd'').lock) hcc
  · rcases eq_or_ne c' c with rfl | hcc
    · exact hsw.lock
    · have hd'' : (s.cpu c').doing = .switched := by
        simpa [Threads.threadSwitch, setCpu, setTd, hcc] using hd'
      exact absurd (hlock c' (hst.switched c' hd'')) hcc
  · rcases eq_or_ne c' c with rfl | hcc
    · simpa [Threads.threadSwitch, setCpu, setTd] using hsw.context
    · have hon : s.On c' := by
        simpa [On, Threads.threadSwitch, setCpu, setTd, hcc] using hon'
      have := hst.sp c' hon fun old' new' hd' =>
        hcc (hlock c' (hst.switching c' old' new' hd').lock)
      simpa [Threads.threadSwitch, setCpu, setTd, hcc] using this
  · rcases eq_or_ne t old with rfl | hto
    · simpa [Threads.threadSwitch, setCpu, setTd] using hsw.sp
    · have := hst.context t ht fun c' new' hd' => by
        have hcc := hlock c' (hst.switching c' t new' hd').lock
        subst hcc
        rw [hd] at hd'
        cases hd'
        exact hto rfl
      simpa [Threads.threadSwitch, setCpu, setTd, hto] using this

theorem ThreadInv.switched (h : ThreadInv s) (hd : (s.cpu c).doing = .switched) :
    ThreadInv (s.switched c) := by
  obtain ⟨p, hp, hown, hst⟩ := h
  have hlock : ∀ c' : Nat, s.threadLock = some c' → c' = c := fun c' hc' => by
    rw [hst.switched c hd] at hc'
    cases hc'
    rfl
  have hns : ∀ c' old new, (s.cpu c').doing ≠ .switching old new := fun c' old new hd' => by
    have hcc := hlock c' (hst.switching c' old new hd').lock
    rw [hcc, hd] at hd'
    cases hd'
  refine ⟨p, hp.stay (fun t q => ?_) hp.allows rfl rfl, hown.same rfl (fun x => ?_) fun t => id,
    .of_quiet (fun c' => ?_) (fun c' hon' => ?_) fun t ht => ?_⟩
  · cases q with
    | running c' =>
      rcases eq_or_ne c' c with rfl | hcc <;>
        simp [InPlace, On, Threads.switched, setDoing, setCpu, *]
    | waking c' =>
      rcases eq_or_ne c' c with rfl | hcc <;>
        simp [InPlace, Threads.switched, setDoing, setCpu, *]
    | _ => rfl
  · cases x with
    | none => rfl
    | some t =>
      simp only [stackOf]
      cases p t with
      | running c' =>
        rcases eq_or_ne c' c with rfl | hcc <;>
          simp [Threads.switched, setDoing, setCpu, *]
      | _ => rfl
  · rcases eq_or_ne c' c with rfl | hcc
    · simp [Threads.switched, setDoing, setCpu]
    · have hdc : (s.cpu c').doing ≠ .switched := fun e => hcc (hlock c' (hst.switched c' e))
      simpa [Threads.switched, setDoing, setCpu, hcc] using ⟨hns c', hdc⟩
  · rcases eq_or_ne c' c with rfl | hcc
    · have hon : s.On c' := by simp [On, hd]
      simpa [Threads.switched, setDoing, setCpu] using hst.sp c' hon (hns c')
    · have hon : s.On c' := by simpa [On, Threads.switched, setDoing, setCpu, hcc] using hon'
      simpa [Threads.switched, setDoing, setCpu, hcc] using hst.sp c' hon (hns c')
  · exact hst.context t ht fun c' => hns c' t

/-- A section that only changes the state of a thread. -/
theorem ThreadInv.setState {st : ThreadState} (h : ThreadInv s) (hl : s.threadLock = none)
    (hstop : (s.td t).state ≠ .stop) (hst' : st ≠ .stop)
    (hallows : ∀ q : Place, s.InPlace t q → q.Allows (s.td t).state → q.Allows st) :
    ThreadInv (s.setState t st) := by
  obtain ⟨p, hp, hown, hst⟩ := h
  refine ⟨p, hp.stay (fun t' q => ?_) (fun t' => ?_) rfl rfl, hown.same rfl (fun x => ?_)
    fun t => id, .of_quiet (hst.quiet hl) (fun c' hon => hst.sp_of_unlocked hl hon)
    fun t' ht' => ?_⟩
  · cases q with
    | stopped =>
      rcases eq_or_ne t' t with rfl | htt <;> simp [InPlace, Threads.setState, setTd, *]
    | _ => rfl
  · rcases eq_or_ne t' t with rfl | htt
    · simpa [Threads.setState, setTd] using
        hallows (p t') ((hp.inPlace _ _).2 rfl) (hp.allows t')
    · simpa [Threads.setState, setTd, htt] using hp.allows t'
  · cases x with
    | none => rfl
    | some t' =>
      simp only [stackOf]
      cases p t' with
      | running c' => rfl
      | _ => rcases eq_or_ne t' t with rfl | htt <;> simp [Threads.setState, setTd, *]
  · have := hst.context_of_unlocked hl ht'
    rcases eq_or_ne t' t with rfl | htt
    · simpa [Threads.setState, setTd] using this
    · simpa [Threads.setState, setTd, htt] using this

theorem ThreadInv.wakeup (h : ThreadInv s) (hl : s.threadLock = none)
    (hc : (s.cpu c).doing = .idle) (hs : s.threadWakeup c t = some s') : ThreadInv s' := by
  unfold threadWakeup at hs
  split at hs
  · rename_i hrun
    cases hs
    exact h.setState hl (by simp [hrun]) (by simp) fun q _ hq => by
      cases q <;> simp_all [Place.Allows]
  · rename_i hwill
    cases hs
    exact h.setState hl (by simp [hwill]) (by simp) fun q _ hq => by
      cases q <;> simp_all [Place.Allows]
  · rename_i hstop
    cases hs
    obtain ⟨p, hp, hown, hst⟩ := h
    have hpt : p t = .stopped := (hp.inPlace t .stopped).1 hstop
    refine ⟨Function.update p t (.waking c), hp.move t (fun q => ?_) (fun t' ht q => ?_) ?_ ?_
      hp.freeNodup hp.runnableNodup, hown.same rfl (fun x => ?_) (fun t' ht => ?_),
      .of_quiet (fun c' => ?_) (fun c' hon => ?_) fun t' ht => ?_⟩
    · have hq := hp.inPlace t q
      rw [hpt] at hq
      cases q with
      | running c' =>
        have hno : ¬ s.InPlace t (.running c') := hp.not_inPlace hpt (by simp)
        rcases eq_or_ne c' c with rfl | hcc <;>
          simp_all [InPlace, On, Threads.setState, setDoing, setTd, setCpu]
      | waking c' =>
        rcases eq_or_ne c' c with rfl | hcc
        · simp [InPlace, Threads.setState, setDoing, setTd, setCpu]
        · have hno : ¬ s.InPlace t (.waking c') := hp.not_inPlace hpt (by simp)
          simp only [InPlace] at hno
          simp [InPlace, Threads.setState, setDoing, setTd, setCpu, hcc, hno, hcc.symm]
      | _ => simp_all [InPlace, Threads.setState, setDoing, setTd, setCpu]
    · cases q with
      | running c' =>
        rcases eq_or_ne c' c with rfl | hcc <;>
          simp [InPlace, On, Threads.setState, setDoing, setTd, setCpu, *]
      | waking c' =>
        rcases eq_or_ne c' c with rfl | hcc
        · simp [InPlace, Threads.setState, setDoing, setTd, setCpu, hc, ht.symm]
        · simp [InPlace, Threads.setState, setDoing, setTd, setCpu, hcc]
      | _ => simp [InPlace, Threads.setState, setDoing, setTd, setCpu, ht]
    · simp [Place.Allows, Threads.setState, setDoing, setTd, setCpu]
    · intro t' ht
      simp [Threads.setState, setDoing, setTd, setCpu, ht]
    · cases x with
      | none => rfl
      | some t' =>
        rcases eq_or_ne t' t with rfl | htt
        · simp [stackOf, hpt, Threads.setState, setDoing, setTd, setCpu]
        · simp only [stackOf, Function.update_of_ne htt]
          cases p t' with
          | running c' =>
            rcases eq_or_ne c' c with rfl | hcc <;>
              simp [Threads.setState, setDoing, setTd, setCpu, *]
          | _ => simp [Threads.setState, setDoing, setTd, setCpu, htt]
    · rcases eq_or_ne t' t with rfl | htt
      · simp [hpt]
      · simpa [htt] using ht
    · have := hst.quiet hl c'
      rcases eq_or_ne c' c with rfl | hcc
      · simp [Threads.setState, setDoing, setTd, setCpu]
      · simpa [Threads.setState, setDoing, setTd, setCpu, hcc] using this
    · have hon' : s.On c' := by
        rcases eq_or_ne c' c with rfl | hcc
        · simp [On, hc]
        · simpa [On, Threads.setState, setDoing, setTd, setCpu, hcc] using hon
      have := hst.sp_of_unlocked hl hon'
      rcases eq_or_ne c' c with rfl | hcc
      · simpa [Threads.setState, setDoing, setTd, setCpu] using this
      · simpa [Threads.setState, setDoing, setTd, setCpu, hcc] using this
    · rcases eq_or_ne t' t with rfl | htt
      · simpa [Threads.setState, setDoing, setTd, setCpu] using
          hst.context_of_unlocked hl (.inr (.inl hpt))
      · rw [Function.update_of_ne htt] at ht
        simpa [Threads.setState, setDoing, setTd, setCpu, htt] using
          hst.context_of_unlocked hl ht
  · cases hs

theorem ThreadInv.wakeupAdd (h : ThreadInv s) (hl : s.threadLock = none)
    (hc : (s.cpu c).doing = .waking t) : ThreadInv (s.wakeupAdd c t) := by
  obtain ⟨p, hp, hown, hst⟩ := h
  have hpt : p t = .waking c := (hp.inPlace t (.waking c)).1 hc
  have htr : t ∉ s.tdRunnable := hp.not_inPlace (b := .runnable) hpt (by simp)
  refine ⟨Function.update p t .runnable, hp.move t (fun q => ?_) (fun t' ht q => ?_) ?_
    (fun t' ht => rfl) hp.freeNodup ?_, hown.same rfl (fun x => ?_) (fun t' ht => ?_),
    .of_quiet (fun c' => ?_) (fun c' hon => ?_) fun t' ht => ?_⟩
  · have hq := hp.inPlace t q
    rw [hpt] at hq
    cases q with
    | running c' =>
      have hno : ¬ s.InPlace t (.running c') := hp.not_inPlace hpt (by simp)
      rcases eq_or_ne c' c with rfl | hcc <;>
        simp_all [InPlace, On, Threads.wakeupAdd, setDoing, setCpu]
    | waking c' =>
      rcases eq_or_ne c' c with rfl | hcc
      · simp [InPlace, Threads.wakeupAdd, setDoing, setCpu]
      · simp_all [InPlace, Threads.wakeupAdd, setDoing, setCpu]
        exact Ne.symm hcc
    | _ => simp_all [InPlace, Threads.wakeupAdd, setDoing, setCpu]
  · cases q with
    | running c' =>
      rcases eq_or_ne c' c with rfl | hcc <;>
        simp [InPlace, On, Threads.wakeupAdd, setDoing, setCpu, *]
    | waking c' =>
      rcases eq_or_ne c' c with rfl | hcc
      · simp [InPlace, Threads.wakeupAdd, setDoing, setCpu, hc, ht.symm]
      · simp [InPlace, Threads.wakeupAdd, setDoing, setCpu, hcc]
    | _ => simp [InPlace, Threads.wakeupAdd, setDoing, setCpu, ht]
  · have := hp.allows t
    rw [hpt] at this
    exact this
  · exact List.nodup_append.2 ⟨hp.runnableNodup, List.nodup_singleton _, fun a ha b hb e => by
      rw [List.mem_singleton] at hb
      exact htr (hb ▸ e ▸ ha)⟩
  · cases x with
    | none => rfl
    | some t' =>
      rcases eq_or_ne t' t with rfl | htt
      · simp [stackOf, hpt, Threads.wakeupAdd, setDoing, setCpu]
      · simp only [stackOf, Function.update_of_ne htt]
        cases p t' with
        | running c' =>
          rcases eq_or_ne c' c with rfl | hcc <;>
            simp [Threads.wakeupAdd, setDoing, setCpu, *]
        | _ => rfl
  · rcases eq_or_ne t' t with rfl | htt
    · simp [hpt]
    · simpa [htt] using ht
  · have := hst.quiet hl c'
    rcases eq_or_ne c' c with rfl | hcc
    · simp [Threads.wakeupAdd, setDoing, setCpu]
    · simpa [Threads.wakeupAdd, setDoing, setCpu, hcc] using this
  · have hon' : s.On c' := by
      rcases eq_or_ne c' c with rfl | hcc
      · simp [On, hc]
      · simpa [On, Threads.wakeupAdd, setDoing, setCpu, hcc] using hon
    have := hst.sp_of_unlocked hl hon'
    rcases eq_or_ne c' c with rfl | hcc
    · simpa [Threads.wakeupAdd, setDoing, setCpu] using this
    · simpa [Threads.wakeupAdd, setDoing, setCpu, hcc] using this
  · rcases eq_or_ne t' t with rfl | htt
    · exact hst.context_of_unlocked hl (.inr (.inr ⟨c, hpt⟩))
    · rw [Function.update_of_ne htt] at ht
      exact hst.context_of_unlocked hl ht

/-- A thread that runs announces: its place allows every state but `THREAD_STOP`. -/
theorem ThreadInv.announce {st : ThreadState} (h : ThreadInv s) (hl : s.threadLock = none)
    (hc : (s.cpu c).doing = .idle) (hstop : (s.td (s.cpu c).tid).state ≠ .stop)
    (hst : st ≠ .stop) : ThreadInv (s.setState (s.cpu c).tid st) := by
  have hrun : s.InPlace (s.cpu c).tid (.running c) := ⟨by simp [On, hc], rfl⟩
  refine h.setState hl hstop hst fun q hq _ => ?_
  obtain ⟨p, hp, -, -⟩ := h
  obtain rfl := hp.unique hrun hq
  exact hst

theorem ThreadInv.willStop (h : ThreadInv s) (hl : s.threadLock = none)
    (hc : (s.cpu c).doing = .idle) (hs : s.threadWillStop c = some s') : ThreadInv s' := by
  unfold threadWillStop at hs
  split at hs <;> rename_i hst <;> cases hs <;> exact h.announce hl hc (by simp [hst]) (by simp)

theorem ThreadInv.exit (h : ThreadInv s) (hl : s.threadLock = none)
    (hc : (s.cpu c).doing = .idle) (hs : s.threadExit c = some s') : ThreadInv s' := by
  unfold threadExit at hs
  split at hs <;> rename_i hst <;> cases hs <;> exact h.announce hl hc (by simp [hst]) (by simp)

end OnDemandVirt.Vmm
