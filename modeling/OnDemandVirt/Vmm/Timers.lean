import Mathlib.Data.List.Perm.Basic
import Mathlib.Data.List.Nodup
import Mathlib.Logic.Function.Basic
import Mathlib.Tactic.Tauto
import OnDemandVirt.Lib.Machine

/-!
# Timers

The timers of `timer.c` are on one of three lists. `timer_set` keeps the list of the armed ones in
the order in which they expire, and `timer_thread` looks at its head only. The thread takes a timer
and copies its callback under the lock, and calls it after the lock is released; what happens in
between is part of the runs.

A timer is named by its place in the array. `TimerRun` adds to the state what no function reads:
which `timer_new` a handle is from, which `timer_set` armed it and for when, and the calls made.
-/

namespace OnDemandVirt.Vmm

/-- `MAX_TIMER`. -/
def maxTimer : Nat := 128

/-- `struct timer_data`. -/
structure TimerData (F D : Type) where
  enable : Bool
  settime : BitVec 64
  interval : BitVec 64
  callback : F
  data : D

/-- The locals of `timer_thread` that are set when `call` is. -/
structure TimerCall (F D : Type) where
  p : Nat
  callback : F
  data : D

/-- The lists, the lock, `timer_thread_run`, and what `timer_thread` is about to call. -/
structure Timers (F D : Type) where
  timer : Nat → TimerData F D
  on : List Nat
  off : List Nat
  free : List Nat
  locked : Bool
  threadRun : Bool
  call : Option (TimerCall F D)

variable {F D : Type}

/-! ### The functions -/

/-- `timer_init_global`, on the memory that `alloc` returns. -/
def timerInitGlobal (mem : Nat → TimerData F D) : Timers F D where
  timer := mem
  on := []
  off := []
  free := (List.range maxTimer).reverse
  locked := false
  threadRun := false
  call := none

/-- `timer_new`. With no timer left it returns before the lock is released. -/
def timerNew (callback : F) (data : D) (s : Timers F D) : Option Nat × Timers F D :=
  match s.free with
  | [] => (none, { s with locked := true })
  | p :: free =>
    (some p, { s with
      timer := Function.update s.timer p { s.timer p with enable := false, callback, data }
      off := s.off ++ [p]
      free := free })

/-- The test of the loop in `timer_set`. -/
def expiresLater (t : TimerData F D) (time interval : BitVec 64) : Bool :=
  t.interval > time - t.settime && t.interval - (time - t.settime) > interval

/-- `LIST1_FOREACH` up to the first node that is to come later, and `LIST1_INSERT` before it. -/
def insertBefore {α : Type*} (later : α → Bool) (p : α) : List α → List α
  | [] => [p]
  | d :: ds => if later d then p :: d :: ds else d :: insertBefore later p ds

/-- `timer_set`, at `time`. -/
def timerSet (p : Nat) (interval time : BitVec 64) (s : Timers F D) : Timers F D :=
  let enabled := (s.timer p).enable
  let timer := Function.update s.timer p
    { s.timer p with enable := true, settime := time, interval := interval }
  { s with
    timer := timer
    on := insertBefore (fun d => expiresLater (timer d) time interval) p
      (if enabled then s.on.erase p else s.on)
    off := if enabled then s.off else s.off.erase p
    threadRun := true }

/-- `timer_free`. -/
def timerFree (p : Nat) (s : Timers F D) : Timers F D :=
  let enabled := (s.timer p).enable
  { s with
    timer := Function.update s.timer p { s.timer p with enable := false }
    on := if enabled then s.on.erase p else s.on
    off := if enabled then s.off else s.off.erase p
    free := s.free ++ [p] }

/-- `timer_thread` as long as it holds the lock, at `time`. -/
def timerThread (time : BitVec 64) (s : Timers F D) : Timers F D :=
  match s.on with
  | [] => s
  | p :: on =>
    let t := s.timer p
    if t.enable && time - t.settime ≥ t.interval then
      { s with
        timer := Function.update s.timer p { t with enable := false }
        on := on
        off := s.off ++ [p]
        call := some ⟨p, t.callback, t.data⟩ }
    else if t.enable then { s with on := p :: on }
    else { s with on := on, off := s.off ++ [p] }

/-! ### Runs -/

/-- A timer that `timer_thread` has taken: the `timer_new` that its handle was from, the `timer_set`
that armed it, and when it was to expire. -/
structure Expired where
  handle : Nat
  registration : Option Nat
  set : Nat
  deadline : Nat

/-- A call, when it is made, and the `timer_new` that its handle is from by then. -/
structure Invoked (F D : Type) extends Expired where
  callback : F
  data : D
  time : Nat
  owner : Option Nat

structure TimerRun (F D : Type) where
  timers : Timers F D
  clock : BitVec 64
  /-- What was registered by the calls of `timer_new` that returned a handle. -/
  registered : List (F × D)
  /-- Which of these a handle is from. -/
  registration : Nat → Option Nat
  /-- How many times `timer_set` was called. -/
  sets : Nat
  /-- Which of these was the last one for a timer. -/
  setOf : Nat → Nat
  /-- When a timer was to expire then. -/
  deadlineOf : Nat → Nat
  expired : Option Expired
  invoked : List (Invoked F D)

/-- The calls of the functions, what `timer_thread` does under the lock, and its call of a callback.
A `time` is what `get_time` returns. -/
inductive TimerEvent (F D : Type)
  | new (callback : F) (data : D)
  | set (handle : Nat) (interval time : BitVec 64)
  | free (handle : Nat)
  | thread (time : BitVec 64)
  | call

/-- One event. The lock must be free for all but the call of a callback, handles are those that are
in use, and the clock does not go back. -/
def TimerRun.step (r : TimerRun F D) : TimerEvent F D → Option (TimerRun F D)
  | .new callback data =>
    if r.timers.locked then none
    else match timerNew callback data r.timers with
      | (none, s) => some { r with timers := s }
      | (some p, s) => some { r with
          timers := s
          registered := r.registered ++ [(callback, data)]
          registration := Function.update r.registration p (some r.registered.length) }
  | .set p interval time =>
    if r.timers.locked ∨ r.registration p = none ∨ time < r.clock then none
    else some { r with
      timers := timerSet p interval time r.timers
      clock := time
      sets := r.sets + 1
      setOf := Function.update r.setOf p r.sets
      deadlineOf := Function.update r.deadlineOf p (time.toNat + interval.toNat) }
  | .free p =>
    if r.timers.locked ∨ r.registration p = none then none
    else some { r with
      timers := timerFree p r.timers
      registration := Function.update r.registration p none }
  | .thread time =>
    if r.timers.locked ∨ r.timers.threadRun = false ∨ r.timers.call.isSome ∨ time < r.clock then
      none
    else
      let s := timerThread time r.timers
      some { r with
        timers := s
        clock := time
        expired := s.call.map fun c =>
          ⟨c.p, r.registration c.p, r.setOf c.p, r.deadlineOf c.p⟩ }
  | .call =>
    match r.timers.call, r.expired with
    | some c, some e => some { r with
        timers := { r.timers with call := none }
        expired := none
        invoked := r.invoked ++ [⟨e, c.callback, c.data, r.clock.toNat, r.registration c.p⟩] }
    | _, _ => none

/-- The runs from `timer_init_global` on. -/
def timerMachine (mem : Nat → TimerData F D) : Lib.Machine (TimerRun F D) (TimerEvent F D) where
  init r := ∃ clock, r = ⟨timerInitGlobal mem, clock, [], fun _ => none, 0, fun _ => 0, fun _ => 0,
    none, []⟩
  step := TimerRun.step

/-! ### The order -/

section Insert

variable {α : Type*} {later : α → Bool} {p : α} {l : List α}

theorem insertBefore_perm (later : α → Bool) (p : α) (l : List α) :
    (insertBefore later p l).Perm (p :: l) := by
  induction l with
  | nil => exact .refl _
  | cons d ds ih =>
    rw [insertBefore]
    split
    · exact .refl _
    · exact (ih.cons d).trans (.swap p d ds)

theorem mem_insertBefore {a : α} : a ∈ insertBefore later p l ↔ a = p ∨ a ∈ l := by
  rw [(insertBefore_perm later p l).mem_iff, List.mem_cons]

/-- The list stays in order if `later` says which nodes have a greater key. -/
theorem pairwise_insertBefore {key : α → Nat} (h : l.Pairwise (key · ≤ key ·))
    (hlater : ∀ d ∈ l, later d = true ↔ key p < key d) :
    (insertBefore later p l).Pairwise (key · ≤ key ·) := by
  induction l with
  | nil => exact List.pairwise_singleton _ _
  | cons d ds ih =>
    obtain ⟨hd, hds⟩ := List.pairwise_cons.mp h
    rw [insertBefore]
    split
    case isTrue hl =>
      have hpd : key p ≤ key d := Nat.le_of_lt ((hlater d List.mem_cons_self).mp hl)
      refine List.pairwise_cons.mpr ⟨fun a ha => ?_, h⟩
      rcases List.mem_cons.mp ha with rfl | ha
      · exact hpd
      · exact Nat.le_trans hpd (hd a ha)
    case isFalse hl =>
      have hdp : key d ≤ key p :=
        Nat.not_lt.mp fun hlt => hl ((hlater d List.mem_cons_self).mpr hlt)
      refine List.pairwise_cons.mpr ⟨fun a ha => ?_,
        ih hds fun a ha => hlater a (List.mem_cons_of_mem d ha)⟩
      rcases mem_insertBefore.mp ha with rfl | ha
      · exact hdp
      · exact hd a ha

end Insert

/-- When a timer expires. -/
def TimerData.expiry (t : TimerData F D) : Nat := t.settime.toNat + t.interval.toNat

theorem expiresLater_iff {t : TimerData F D} {time interval : BitVec 64} (h : t.settime ≤ time) :
    expiresLater t time interval = true ↔ time.toNat + interval.toNat < t.expiry := by
  have hle : t.settime.toNat ≤ time.toNat := h
  have hsub := BitVec.toNat_sub_of_le h
  unfold expiresLater TimerData.expiry
  rw [Bool.and_eq_true, decide_eq_true_iff, decide_eq_true_iff]
  constructor
  · rintro ⟨hlt, hlt'⟩
    have hlt : time.toNat - t.settime.toNat < t.interval.toNat := hsub ▸ hlt
    have hrest := BitVec.toNat_sub_of_le (x := t.interval) (y := time - t.settime)
      (by rw [BitVec.le_def, hsub]; omega)
    have hlt' : interval.toNat < t.interval.toNat - (time - t.settime).toNat := hrest ▸ hlt'
    omega
  · intro hlt
    have hpos : time - t.settime < t.interval := by
      rw [BitVec.lt_def, hsub]
      omega
    refine ⟨hpos, ?_⟩
    have hrest := BitVec.toNat_sub_of_le (x := t.interval) (y := time - t.settime)
      (BitVec.le_of_lt hpos)
    change interval.toNat < (t.interval - (time - t.settime)).toNat
    omega

theorem elapsed_iff {t : TimerData F D} {time : BitVec 64} (h : t.settime ≤ time) :
    time - t.settime ≥ t.interval ↔ t.expiry ≤ time.toNat := by
  have hle : t.settime.toNat ≤ time.toNat := h
  rw [ge_iff_le, BitVec.le_def, BitVec.toNat_sub_of_le h, TimerData.expiry]
  omega

/-! ### The lists -/

/-- The lists have every timer once, and the armed ones are enabled. -/
structure TimersOk (s : Timers F D) : Prop where
  perm : (s.on ++ s.off ++ s.free).Perm (List.range maxTimer)
  enabled : ∀ p ∈ s.on, (s.timer p).enable = true
  disabled : ∀ p ∈ s.off, (s.timer p).enable = false

namespace TimersOk

variable {s : Timers F D} {p : Nat}

theorem nodup (h : TimersOk s) : (s.on ++ s.off ++ s.free).Nodup :=
  h.perm.nodup_iff.mpr List.nodup_range

theorem on_nodup (h : TimersOk s) : s.on.Nodup :=
  (List.nodup_append.mp (List.nodup_append.mp h.nodup).1).1

theorem off_nodup (h : TimersOk s) : s.off.Nodup :=
  (List.nodup_append.mp (List.nodup_append.mp h.nodup).1).2.1

theorem notMem_off (h : TimersOk s) (hp : p ∈ s.on) : p ∉ s.off := fun hoff =>
  (List.nodup_append.mp (List.nodup_append.mp h.nodup).1).2.2 p hp p hoff rfl

theorem notMem_free (h : TimersOk s) (hp : p ∈ s.on ∨ p ∈ s.off) : p ∉ s.free := fun hfree =>
  (List.nodup_append.mp h.nodup).2.2 p (List.mem_append.mpr hp) p hfree rfl

/-- A timer that is in use is taken off its list whatever list that is. -/
theorem on_erase (h : TimersOk s) (hp : p ∈ s.on ∨ p ∈ s.off) :
    (if (s.timer p).enable then s.on.erase p else s.on) = s.on.erase p := by
  rcases hp with hp | hp
  · rw [h.enabled p hp, if_pos rfl]
  · have hon : p ∉ s.on := fun hon => h.notMem_off hon hp
    rw [h.disabled p hp, if_neg Bool.false_ne_true, List.erase_of_not_mem hon]

theorem off_erase (h : TimersOk s) (hp : p ∈ s.on ∨ p ∈ s.off) :
    (if (s.timer p).enable then s.off else s.off.erase p) = s.off.erase p := by
  rcases hp with hp | hp
  · rw [h.enabled p hp, if_pos rfl, List.erase_of_not_mem (h.notMem_off hp)]
  · rw [h.disabled p hp, if_neg Bool.false_ne_true]

theorem erase_perm (h : TimersOk s) (hp : p ∈ s.on ∨ p ∈ s.off) :
    (p :: (s.on.erase p ++ s.off.erase p)).Perm (s.on ++ s.off) := by
  rcases hp with hp | hp
  · rw [List.erase_of_not_mem (h.notMem_off hp), ← List.cons_append]
    exact (List.perm_cons_erase hp).symm.append_right _
  · rw [List.erase_of_not_mem fun hon => h.notMem_off hon hp]
    exact List.perm_middle.symm.trans ((List.perm_cons_erase hp).symm.append_left _)

theorem mem_erase_on (h : TimersOk s) {a : Nat} : a ∈ s.on.erase p ↔ a ≠ p ∧ a ∈ s.on :=
  h.on_nodup.mem_erase_iff

theorem mem_erase_off (h : TimersOk s) {a : Nat} : a ∈ s.off.erase p ↔ a ≠ p ∧ a ∈ s.off :=
  h.off_nodup.mem_erase_iff

end TimersOk

/-! ### What the functions keep -/

section Steps

variable {s : Timers F D} {p : Nat}

theorem enable_update_of_ne {timer : Nat → TimerData F D} {a : Nat} {b : Bool} {t : TimerData F D}
    (hap : a ≠ p) (h : (timer a).enable = b) : (Function.update timer p t a).enable = b := by
  rw [Function.update_of_ne hap]
  exact h

theorem enable_update_self (timer : Nat → TimerData F D) (t : TimerData F D) :
    (Function.update timer p t p).enable = t.enable := by
  rw [Function.update_self]

theorem timersOk_timerInitGlobal (mem : Nat → TimerData F D) : TimersOk (timerInitGlobal mem) where
  perm := List.reverse_perm _
  enabled := fun _ hp => absurd hp List.not_mem_nil
  disabled := fun _ hp => absurd hp List.not_mem_nil

theorem timerNew_nil (hfree : s.free = []) (callback : F) (data : D) :
    timerNew callback data s = (none, { s with locked := true }) := by
  unfold timerNew
  split
  · rfl
  · simp_all

theorem timerNew_cons {free : List Nat} (hfree : s.free = p :: free) (callback : F) (data : D) :
    timerNew callback data s = (some p, { s with
      timer := Function.update s.timer p { s.timer p with enable := false, callback, data }
      off := s.off ++ [p]
      free := free }) := by
  unfold timerNew
  split
  · simp_all
  · simp_all

/-- `timer_new` with a timer left. -/
theorem TimersOk.new {free : List Nat} (h : TimersOk s) (hfree : s.free = p :: free)
    (callback : F) (data : D) : TimersOk { s with
      timer := Function.update s.timer p { s.timer p with enable := false, callback, data }
      off := s.off ++ [p]
      free := free } where
  perm := by
    have hperm := h.perm
    rw [hfree] at hperm
    simpa using hperm
  enabled a ha := by
    have hne : a ≠ p := fun heq => h.notMem_free (.inl ha) (by simp [hfree, heq])
    exact enable_update_of_ne hne (h.enabled a ha)
  disabled a ha := by
    rcases List.mem_append.mp ha with ha | ha
    · have hne : a ≠ p := fun heq => h.notMem_free (.inr ha) (by simp [hfree, heq])
      exact enable_update_of_ne hne (h.disabled a ha)
    · rw [List.mem_singleton.mp ha]
      exact enable_update_self _ _

theorem timerSet_eq (h : TimersOk s) (hp : p ∈ s.on ∨ p ∈ s.off) (interval time : BitVec 64) :
    timerSet p interval time s = { s with
      timer := Function.update s.timer p
        { s.timer p with enable := true, settime := time, interval := interval }
      on := insertBefore (fun d => expiresLater (Function.update s.timer p
        { s.timer p with enable := true, settime := time, interval := interval } d) time interval) p
          (s.on.erase p)
      off := s.off.erase p
      threadRun := true } := by
  unfold timerSet
  dsimp only
  rw [h.on_erase hp, h.off_erase hp]

theorem mem_on_timerSet (h : TimersOk s) (hp : p ∈ s.on ∨ p ∈ s.off) (interval time : BitVec 64)
    {a : Nat} : a ∈ (timerSet p interval time s).on ↔ a = p ∨ a ∈ s.on := by
  rw [timerSet_eq h hp]
  change a ∈ insertBefore _ p (s.on.erase p) ↔ _
  rw [mem_insertBefore, h.mem_erase_on]
  tauto

theorem mem_off_timerSet (h : TimersOk s) (hp : p ∈ s.on ∨ p ∈ s.off) (interval time : BitVec 64)
    {a : Nat} : a ∈ (timerSet p interval time s).off ↔ a ≠ p ∧ a ∈ s.off := by
  rw [timerSet_eq h hp]
  exact h.mem_erase_off

theorem timer_timerSet_self (p : Nat) (interval time : BitVec 64) (s : Timers F D) :
    (timerSet p interval time s).timer p =
      { s.timer p with enable := true, settime := time, interval := interval } :=
  Function.update_self ..

theorem timer_timerSet_of_ne {a : Nat} (hap : a ≠ p) (interval time : BitVec 64) :
    (timerSet p interval time s).timer a = s.timer a :=
  Function.update_of_ne hap ..

theorem TimersOk.set (h : TimersOk s) (hp : p ∈ s.on ∨ p ∈ s.off) (interval time : BitVec 64) :
    TimersOk (timerSet p interval time s) := by
  rw [timerSet_eq h hp]
  refine ⟨?_, fun a ha => ?_, fun a ha => ?_⟩
  · refine .trans (.append_right _ (.append_right _ (insertBefore_perm _ p _))) ?_
    exact ((h.erase_perm hp).append_right s.free).trans h.perm
  · by_cases hap : a = p
    · rw [hap]
      exact enable_update_self _ _
    · obtain hon := (mem_insertBefore.mp ha).resolve_left hap
      exact enable_update_of_ne hap (h.enabled a (h.mem_erase_on.mp hon).2)
  · obtain ⟨hap, hoff⟩ := h.mem_erase_off.mp ha
    exact enable_update_of_ne hap (h.disabled a hoff)

theorem timerFree_eq (h : TimersOk s) (hp : p ∈ s.on ∨ p ∈ s.off) :
    timerFree p s = { s with
      timer := Function.update s.timer p { s.timer p with enable := false }
      on := s.on.erase p
      off := s.off.erase p
      free := s.free ++ [p] } := by
  unfold timerFree
  dsimp only
  rw [h.on_erase hp, h.off_erase hp]

theorem mem_on_timerFree (h : TimersOk s) (hp : p ∈ s.on ∨ p ∈ s.off) {a : Nat} :
    a ∈ (timerFree p s).on ↔ a ≠ p ∧ a ∈ s.on := by
  rw [timerFree_eq h hp]
  exact h.mem_erase_on

theorem mem_off_timerFree (h : TimersOk s) (hp : p ∈ s.on ∨ p ∈ s.off) {a : Nat} :
    a ∈ (timerFree p s).off ↔ a ≠ p ∧ a ∈ s.off := by
  rw [timerFree_eq h hp]
  exact h.mem_erase_off

theorem timer_timerFree_of_ne {a : Nat} (hap : a ≠ p) :
    (timerFree p s).timer a = s.timer a :=
  Function.update_of_ne hap ..

theorem TimersOk.free (h : TimersOk s) (hp : p ∈ s.on ∨ p ∈ s.off) : TimersOk (timerFree p s) := by
  rw [timerFree_eq h hp]
  refine ⟨?_, fun a ha => ?_, fun a ha => ?_⟩
  · refine .trans ?_ (((h.erase_perm hp).append_right s.free).trans h.perm)
    change (s.on.erase p ++ s.off.erase p ++ (s.free ++ [p])).Perm _
    rw [← List.append_assoc]
    exact List.perm_append_singleton p _
  · obtain ⟨hap, hon⟩ := h.mem_erase_on.mp ha
    exact enable_update_of_ne hap (h.enabled a hon)
  · obtain ⟨hap, hoff⟩ := h.mem_erase_off.mp ha
    exact enable_update_of_ne hap (h.disabled a hoff)

/-- `timer_thread` leaves the lists alone, or takes the first of the armed timers. -/
theorem timerThread_cases (h : TimersOk s) (time : BitVec 64) :
    timerThread time s = s ∨ ∃ p on, s.on = p :: on ∧
      time - (s.timer p).settime ≥ (s.timer p).interval ∧
      timerThread time s = { s with
        timer := Function.update s.timer p { s.timer p with enable := false }
        on := on
        off := s.off ++ [p]
        call := some ⟨p, (s.timer p).callback, (s.timer p).data⟩ } := by
  unfold timerThread
  cases hon : s.on with
  | nil => exact .inl rfl
  | cons p on =>
    have henabled : (s.timer p).enable = true := h.enabled p (hon ▸ List.mem_cons_self)
    dsimp only
    by_cases hexp : time - (s.timer p).settime ≥ (s.timer p).interval
    · refine .inr ⟨p, on, rfl, hexp, ?_⟩
      rw [if_pos (by simpa [henabled] using hexp)]
    · refine .inl ?_
      rw [if_neg (by simpa [henabled] using hexp), if_pos henabled, ← hon]

theorem TimersOk.thread {on : List Nat} (h : TimersOk s) (hon : s.on = p :: on)
    (call : Option (TimerCall F D)) : TimersOk { s with
      timer := Function.update s.timer p { s.timer p with enable := false }
      on := on
      off := s.off ++ [p]
      call := call } where
  perm := by
    refine .trans (.append_right _ ?_) h.perm
    rw [hon, ← List.append_assoc]
    exact List.perm_append_singleton p _
  enabled a ha := by
    have hne : a ≠ p := fun heq => (List.nodup_cons.mp (hon ▸ h.on_nodup)).1 (heq ▸ ha)
    exact enable_update_of_ne hne (h.enabled a (hon ▸ List.mem_cons_of_mem p ha))
  disabled a ha := by
    rcases List.mem_append.mp ha with ha | ha
    · have hne : a ≠ p := fun heq => h.notMem_off (hon ▸ List.mem_cons_self) (heq ▸ ha)
      exact enable_update_of_ne hne (h.disabled a ha)
    · rw [List.mem_singleton.mp ha]
      exact enable_update_self _ _

end Steps

end OnDemandVirt.Vmm
