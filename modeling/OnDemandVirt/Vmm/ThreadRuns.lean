import OnDemandVirt.Vmm.ThreadPlaces

/-!
# Runs of the threads

In every state of every run each thread is in one place, a stack is left before it is given up, and
a wakeup is kept until the thread stops again.
-/

namespace OnDemandVirt.Vmm

open Threads

variable {s s' : Threads} {c : Nat} {t : Tid} {w : Nat → Prop}

theorem ThreadInv.step {e : ThreadEvent} (h : ThreadInv s) (hs : s.step e = some s') :
    ThreadInv s' := by
  cases e <;> simp only [Threads.step] at hs
  case initPcpu c k =>
    obtain ⟨⟨hl, hc, hk⟩, hs⟩ := Option.ite_none_right_eq_some.1 hs
    exact h.initPcpu hl hc hk hs
  case schedule c =>
    obtain ⟨⟨hl, hc⟩, hs⟩ := Option.ite_none_right_eq_some.1 hs
    exact h.schedule hl hc hs
  case threadSwitch c =>
    split at hs <;> cases hs
    exact h.threadSwitch (by assumption)
  case switched c =>
    obtain ⟨hc, hs⟩ := Option.ite_none_right_eq_some.1 hs
    cases hs
    exact h.switched hc
  case new c k =>
    obtain ⟨⟨hl, hc, hk⟩, hs⟩ := Option.ite_none_right_eq_some.1 hs
    exact h.new hl hk hs
  case wakeup c t =>
    obtain ⟨⟨hl, hc⟩, hs⟩ := Option.ite_none_right_eq_some.1 hs
    exact h.wakeup hl hc hs
  case wakeupAdd c =>
    split at hs
    · obtain ⟨hl, hs⟩ := Option.ite_none_right_eq_some.1 hs
      cases hs
      exact h.wakeupAdd hl (by assumption)
    · cases hs
  case willStop c =>
    obtain ⟨⟨hl, hc⟩, hs⟩ := Option.ite_none_right_eq_some.1 hs
    exact h.willStop hl hc hs
  case exit c =>
    obtain ⟨⟨hl, hc⟩, hs⟩ := Option.ite_none_right_eq_some.1 hs
    exact h.exit hl hc hs

theorem Threads.Init.inv (h : s.Init) : ThreadInv s := by
  have hfree : ∀ t, s.InPlace t .free := fun t => by
    simp only [InPlace, h.free]
    exact List.mem_finRange t
  refine ⟨fun _ => .free, ⟨fun t q => ⟨fun hq => ?_, ?_⟩, h.state, ?_, ?_⟩, ⟨?_, ?_, ?_⟩,
    .of_quiet ?_ ?_ ?_⟩
  · cases q with
    | running c => exact absurd (h.cpu c) hq.1
    | runnable =>
      simp only [InPlace, h.runnable] at hq
      cases hq
    | stopped =>
      simp only [InPlace, h.state] at hq
      cases hq
    | waking c =>
      simp only [InPlace, h.cpu] at hq
      cases hq
    | free => rfl
  · rintro rfl
    exact hfree t
  · rw [h.free]
    exact List.nodup_finRange 256
  · rw [h.runnable]
    exact List.nodup_nil
  · intro t ht
    exact absurd rfl ht
  · rintro (_ | t) k hk
    · simp [stackOf, h.oldStack] at hk
    · cases hk
  · rintro (_ | t) (_ | t') k hk hk'
    · rfl
    · cases hk'
    · cases hk
    · cases hk
  · intro c
    simp [h.cpu]
  · intro c hc
    exact absurd (h.cpu c) hc
  · rintro t (ht | ht | ⟨c, ht⟩) <;> cases ht

theorem threadInv_of_reachable (h : threadMachine.Reachable s) : ThreadInv s :=
  h.invariant (fun _ => Threads.Init.inv) fun _ _ _ hs _ => hs.step

/-! ### Wakeups -/

/-- `e` is thread `t` announcing that it stops or exits. -/
def Threads.Announces (s : Threads) (t : Tid) : ThreadEvent → Prop
  | .willStop c | .exit c => (s.cpu c).tid = t
  | _ => False

/-- `t` has been woken up, and only the CPUs of `w` may still have to put it on the run queue. -/
structure Threads.Awake (s : Threads) (w : Nat → Prop) (t : Tid) : Prop where
  state : (s.td t).state = .run
  waking : ∀ c, (s.cpu c).doing = .waking t → w c

theorem Threads.Awake.inPlace (h : s.Awake w t) (hs : ThreadInv s) :
    (∃ c, s.InPlace t (.running c)) ∨ s.InPlace t .runnable ∨
      ∃ c, w c ∧ s.InPlace t (.waking c) := by
  obtain ⟨p, hp, -, -⟩ := hs
  have hall := hp.allows t
  have hin := (hp.inPlace t (p t)).2 rfl
  rw [h.state] at hall
  cases hpt : p t with
  | running c => exact .inl ⟨c, hpt ▸ hin⟩
  | runnable => exact .inr (.inl (hpt ▸ hin))
  | stopped =>
    rw [hpt] at hall
    cases hall
  | waking c =>
    rw [hpt] at hin
    exact .inr (.inr ⟨c, h.waking c hin, hin⟩)
  | free =>
    rw [hpt] at hall
    cases hall

theorem Threads.Awake.schedule (h : s.Awake w t) (hs : s.schedule c = some s') : s'.Awake w t := by
  have hu : s.freeOldStack.Awake w t := by
    unfold Threads.freeOldStack
    split <;> exact ⟨h.state, h.waking⟩
  obtain rfl | ⟨d, -, hs⟩ := schedule_cases hs
  · exact hu
  · refine ⟨?_, fun c' => ?_⟩
    · rw [hs.state, if_neg]
      · exact hu.state
      · rintro ⟨rfl, hw⟩
        rw [hu.state] at hw
        cases hw
    · rcases eq_or_ne c' c with rfl | hcc
      · simp [hs.doing]
      · rw [hs.cpu c' hcc]
        exact hu.waking c'

theorem Threads.Awake.setState {st : ThreadState} {t' : Tid} (h : s.Awake w t)
    (ht : t' = t → st = .run) : (s.setState t' st).Awake w t := by
  refine ⟨?_, h.waking⟩
  rcases eq_or_ne t t' with rfl | htt
  · simpa [Threads.setState, setTd] using ht rfl
  · simpa [Threads.setState, setTd, htt] using h.state

theorem Threads.Awake.setDoing {d : Doing} (h : s.Awake w t) (hd : d ≠ .waking t) :
    (s.setDoing c d).Awake w t := by
  refine ⟨h.state, fun c' => ?_⟩
  rcases eq_or_ne c' c with rfl | hcc
  · simpa [Threads.setDoing, setCpu] using fun e => absurd e hd
  · simpa [Threads.setDoing, setCpu, hcc] using h.waking c'

/-- Only the thread itself can undo a wakeup. -/
theorem Threads.Awake.step {e : ThreadEvent} (h : s.Awake w t) (hs : s.step e = some s')
    (he : ¬ s.Announces t e) : s'.Awake w t := by
  cases e <;> simp only [Threads.step] at hs
  case initPcpu c k =>
    obtain ⟨-, hs⟩ := Option.ite_none_right_eq_some.1 hs
    unfold threadInitPcpu at hs
    split at hs <;> cases hs
    rename_i t₀ rest _
    refine ⟨?_, fun c' => ?_⟩
    · rcases eq_or_ne t t₀ with rfl | htt
      · simp [threadDataInit, setTd, setStack, setCpu]
      · simpa [threadDataInit, setTd, setStack, setCpu, htt] using h.state
    · rcases eq_or_ne c' c with rfl | hcc
      · simp [threadDataInit, setTd, setStack, setCpu]
      · simpa [threadDataInit, setTd, setStack, setCpu, hcc] using h.waking c'
  case schedule c =>
    obtain ⟨-, hs⟩ := Option.ite_none_right_eq_some.1 hs
    exact h.schedule hs
  case threadSwitch c =>
    split at hs <;> cases hs
    rename_i old new _
    refine ⟨?_, fun c' => ?_⟩
    · rcases eq_or_ne t old with rfl | htt <;>
        simpa [Threads.threadSwitch, setTd, setCpu, *] using h.state
    · rcases eq_or_ne c' c with rfl | hcc
      · simp [Threads.threadSwitch, setTd, setCpu]
      · simpa [Threads.threadSwitch, setTd, setCpu, hcc] using h.waking c'
  case switched c =>
    obtain ⟨-, hs⟩ := Option.ite_none_right_eq_some.1 hs
    cases hs
    have := h.setDoing (c := c) (d := .idle) (by simp)
    exact ⟨this.state, this.waking⟩
  case new c k =>
    obtain ⟨-, hs⟩ := Option.ite_none_right_eq_some.1 hs
    unfold threadNew at hs
    split at hs <;> cases hs
    rename_i t₀ rest _
    refine ⟨?_, h.waking⟩
    rcases eq_or_ne t t₀ with rfl | htt
    · simp [threadDataInit, setTd, setStack]
    · simpa [threadDataInit, setTd, setStack, htt] using h.state
  case wakeup c t' =>
    obtain ⟨-, hs⟩ := Option.ite_none_right_eq_some.1 hs
    unfold threadWakeup at hs
    split at hs
    · cases hs
      exact h.setState fun _ => rfl
    · cases hs
      exact h.setState fun _ => rfl
    · rename_i hstop
      cases hs
      refine (h.setState fun _ => rfl).setDoing ?_
      rintro ⟨⟩
      rw [h.state] at hstop
      cases hstop
    · cases hs
  case wakeupAdd c =>
    split at hs
    · obtain ⟨-, hs⟩ := Option.ite_none_right_eq_some.1 hs
      cases hs
      have := h.setDoing (c := c) (d := .idle) (by simp)
      exact ⟨this.state, this.waking⟩
    · cases hs
  case willStop c =>
    obtain ⟨-, hs⟩ := Option.ite_none_right_eq_some.1 hs
    unfold threadWillStop at hs
    split at hs <;> cases hs <;> exact h.setState fun ht => absurd ht he
  case exit c =>
    obtain ⟨-, hs⟩ := Option.ite_none_right_eq_some.1 hs
    unfold threadExit at hs
    split at hs <;> cases hs <;> exact h.setState fun ht => absurd ht he

theorem Threads.Awake.run (h : s.Awake w t)
    (hr : (threadMachine.startingAt s).ReachableWhen (fun s e => ¬ s.Announces t e) s') :
    s'.Awake w t :=
  hr.invariant (I := fun s => s.Awake w t) (fun _ h0 => h0 ▸ h) fun _ _ _ hI hC hs => hI.step hs hC

theorem Threads.Awake.of_wakeup (hs : s.step (.wakeup c t) = some s') :
    s'.Awake (fun c' => (s.td t).state = .stop ∧ c' = c ∨ (s.cpu c').doing = .waking t) t := by
  obtain ⟨-, hs⟩ := Option.ite_none_right_eq_some.1 hs
  unfold threadWakeup at hs
  split at hs
  · cases hs
    exact ⟨by simp [Threads.setState, setTd], fun c' hc' => .inr hc'⟩
  · cases hs
    exact ⟨by simp [Threads.setState, setTd], fun c' hc' => .inr hc'⟩
  · rename_i hstop
    cases hs
    refine ⟨by simp [Threads.setState, setTd, Threads.setDoing, setCpu], fun c' hc' => ?_⟩
    rcases eq_or_ne c' c with rfl | hcc
    · exact .inl ⟨hstop, rfl⟩
    · exact .inr (by simpa [Threads.setState, setTd, Threads.setDoing, setCpu, hcc] using hc')
  · cases hs

/-! ### All runs -/

/-- The thread on whose stack CPU `c` executes. -/
def Threads.onStackOf (s : Threads) (c : Nat) : Option Tid :=
  match (s.cpu c).doing with
  | .off => none
  | .switching old _ => some old
  | _ => some (s.cpu c).tid

/-- Every thread is in one place, and stacks are left before they are given up. -/
structure Threads.WellPlaced (s : Threads) : Prop where
  inPlace : ∀ t, ∃! q, s.InPlace t q
  runnableOnce : s.tdRunnable.Nodup
  freeOnce : s.tdFree.Nodup
  /-- While a CPU is still on the stack of a free thread, it holds the lock of the free list. -/
  offStack : ∀ t, s.InPlace t .free → ∀ c, s.onStackOf c = some t → s.threadLock = some c
  /-- No CPU is on a stack that has been freed. -/
  stackAllocated : ∀ c, s.On c → ∃ k, (s.cpu c).sp = some k ∧ s.allocated k = true

theorem ThreadInv.wellPlaced (h : ThreadInv s) : s.WellPlaced := by
  obtain ⟨p, hp, hown, hst⟩ := h
  refine ⟨fun t => ⟨p t, (hp.inPlace _ _).2 rfl, fun q hq => ((hp.inPlace _ _).1 hq).symm⟩,
    hp.runnableNodup, hp.freeNodup, fun t ht c hc => ?_, fun c hon => ?_⟩
  · unfold onStackOf at hc
    split at hc
    · cases hc
    · exact (hst.switching c _ _ (by assumption)).lock
    · rename_i hoff _
      have hrun : s.InPlace t (.running c) := ⟨hoff, Option.some_inj.1 hc⟩
      cases hp.unique ht hrun
  · have hrun : p (s.cpu c).tid = .running c := (hp.inPlace _ _).1 ⟨hon, rfl⟩
    by_cases hsw : ∃ old new, (s.cpu c).doing = .switching old new
    · obtain ⟨old, new, hd⟩ := hsw
      have hsw := hst.switching c old new hd
      obtain ⟨k, hk⟩ := Option.isSome_iff_exists.1 hsw.hasStack
      refine ⟨k, hsw.sp.trans hk, ?_⟩
      obtain hpo | hpo | ⟨-, hold⟩ := hsw.place
      · exact hown.allocated (some old) k (by simpa [stackOf, hpo] using hk)
      · exact hown.allocated (some old) k (by simpa [stackOf, hpo] using hk)
      · exact hown.allocated none k (hold.symm.trans hk)
    · obtain ⟨k, hk⟩ := Option.isSome_iff_exists.1
        (hown.hasStack (s.cpu c).tid (by simp [hrun]))
      have hsp := hst.sp c hon fun old new hd => hsw ⟨old, new, hd⟩
      refine ⟨k, ?_, hown.allocated _ k hk⟩
      rw [hsp]
      simpa [stackOf, hrun] using hk

/-- A wakeup is not lost: until the thread announces something again it runs, is on the run queue,
or is being put there by a CPU that found it in `THREAD_STOP`. -/
def Threads.WakeupKept (s : Threads) : Prop :=
  ∀ c t s₁ s₂, s.step (.wakeup c t) = some s₁ →
    (threadMachine.startingAt s₁).ReachableWhen (fun s e => ¬ s.Announces t e) s₂ →
      (∃ c', s₂.InPlace t (.running c')) ∨ s₂.InPlace t .runnable ∨
        (s.td t).state ≠ .willStop ∧ ∃ c', s₂.InPlace t (.waking c')

/-- `thread_init_global`. -/
def threadInitGlobal : Threads where
  td _ :=
    { context := none
      state := .exit
      cpunum := none
      boot := false
      stack := none
      pid := 0
      syscallstack := 0
      processSwitch := 0 }
  tdFree := List.finRange 256
  tdRunnable := []
  threadLock := none
  oldStack := none
  allocated _ := false
  cpu _ :=
    { doing := .off, tid := 0, stackaddr := none, sp := none, pid := 0, syscallstack := 0,
      processSwitch := 0 }

theorem threadInitGlobal_init : threadInitGlobal.Init where
  state _ := rfl
  free := by simp only [threadInitGlobal]
  runnable := rfl
  lock := rfl
  oldStack := rfl
  cpu _ := rfl

/-- Thread 1 announces that it stops on CPU 0, and the thread that CPU 0 runs next wakes it up. -/
def wakeupEvents : List ThreadEvent :=
  [.initPcpu 0 10, .new 0 11, .schedule 0, .threadSwitch 0, .switched 0, .willStop 0, .schedule 0,
    .threadSwitch 0, .switched 0, .wakeup 0 1]

theorem threads_wellPlaced (h : threadMachine.Reachable s) : s.WellPlaced ∧ s.WakeupKept := by
  have hinv := threadInv_of_reachable h
  refine ⟨hinv.wellPlaced, fun c t s₁ s₂ hs hr => ?_⟩
  have hs' : threadMachine.step s (.wakeup c t) = some s₁ := hs
  have h₁ : threadMachine.Reachable s₁ := .step h trivial hs'
  obtain hrun | hqueue | ⟨c', hw, hin⟩ :=
    ((Threads.Awake.of_wakeup hs).run hr).inPlace (threadInv_of_reachable (h₁.trans hr))
  · exact .inl hrun
  · exact .inr (.inl hqueue)
  · refine .inr (.inr ⟨fun hwill => ?_, c', hin⟩)
    obtain ⟨hstop, -⟩ | hd := hw
    · rw [hwill] at hstop
      cases hstop
    · obtain ⟨p, hp, -, -⟩ := hinv
      have hall := hp.allows t
      rw [(hp.inPlace t (.waking c')).1 hd, hwill] at hall
      cases hall

theorem threads_wellPlaced_willStop : ∃ s,
    threadMachine.run threadInitGlobal (wakeupEvents.take 6) = some s ∧
      (s.td 1).state = .willStop ∧ s.WellPlaced ∧ s.WakeupKept := by
  refine ⟨_, rfl, by decide, threads_wellPlaced ?_⟩
  exact Lib.Machine.Reachable.run (.init threadInitGlobal_init) (wakeupEvents.take 6) rfl

theorem wakeupEvents_run : ∃ s, threadMachine.run threadInitGlobal wakeupEvents = some s ∧
    (s.cpu 0).doing = .waking 1 := by
  refine ⟨_, rfl, ?_⟩
  decide

theorem not_four_places : ¬ ∀ s, threadMachine.Reachable s → ∀ t,
    (∃ c, s.InPlace t (.running c)) ∨ s.InPlace t .runnable ∨ s.InPlace t .stopped ∨
      s.InPlace t .free := by
  intro hall
  obtain ⟨s, hs, hw⟩ := wakeupEvents_run
  have hr : threadMachine.Reachable s :=
    Lib.Machine.Reachable.run (.init threadInitGlobal_init) wakeupEvents hs
  obtain ⟨p, hp, -, -⟩ := threadInv_of_reachable hr
  have hin : s.InPlace 1 (.waking 0) := hw
  obtain ⟨c, h⟩ | h | h | h := hall s hr 1 <;> cases hp.unique hin h

end OnDemandVirt.Vmm
