import OnDemandVirt.Vmm.Timers

/-!
# What the timers do in every run

`TimerInv` says which timers are on which list and which handles are in use; it needs nothing of a
run but that `timer_init_global` comes first. On it rest the order in which the callbacks are
called, whose callback is called, and that the lock is free between two calls.
-/

namespace OnDemandVirt.Vmm

variable {F D : Type} {mem : Nat → TimerData F D} {r r' : TimerRun F D}

/-! ### One step -/

/-- The lists are as they should be, and the handles in use are those of the timers on two of
them. -/
structure TimerInv (r : TimerRun F D) : Prop where
  ok : TimersOk r.timers
  live : ∀ p, r.registration p ≠ none ↔ p ∈ r.timers.on ∨ p ∈ r.timers.off

/-- What a step does: an event can happen only where it leads to these states. -/
inductive Stepped (r : TimerRun F D) : TimerEvent F D → TimerRun F D → Prop
  | exhausted (callback : F) (data : D) : r.timers.locked = false → r.timers.free = [] →
      Stepped r (.new callback data) { r with timers := { r.timers with locked := true } }
  | new (callback : F) (data : D) (p : Nat) (free : List Nat) : r.timers.locked = false →
      r.timers.free = p :: free →
      Stepped r (.new callback data) { r with
        timers := { r.timers with
          timer := Function.update r.timers.timer p
            { r.timers.timer p with enable := false, callback, data }
          off := r.timers.off ++ [p]
          free := free }
        registered := r.registered ++ [(callback, data)]
        registration := Function.update r.registration p (some r.registered.length) }
  | set (p : Nat) (interval time : BitVec 64) : r.timers.locked = false →
      p ∈ r.timers.on ∨ p ∈ r.timers.off → r.clock ≤ time →
      Stepped r (.set p interval time) { r with
        timers := timerSet p interval time r.timers
        clock := time
        sets := r.sets + 1
        setOf := Function.update r.setOf p r.sets
        deadlineOf := Function.update r.deadlineOf p (time.toNat + interval.toNat) }
  | free (p : Nat) : r.timers.locked = false → p ∈ r.timers.on ∨ p ∈ r.timers.off →
      Stepped r (.free p) { r with
        timers := timerFree p r.timers
        registration := Function.update r.registration p none }
  | wait (time : BitVec 64) : r.timers.locked = false → r.timers.call = none → r.clock ≤ time →
      Stepped r (.thread time) { r with clock := time, expired := none }
  | expire (time : BitVec 64) (p : Nat) (on : List Nat) : r.timers.locked = false →
      r.timers.call = none → r.clock ≤ time → r.timers.on = p :: on →
      time - (r.timers.timer p).settime ≥ (r.timers.timer p).interval →
      Stepped r (.thread time) { r with
        timers := { r.timers with
          timer := Function.update r.timers.timer p { r.timers.timer p with enable := false }
          on := on
          off := r.timers.off ++ [p]
          call := some ⟨p, (r.timers.timer p).callback, (r.timers.timer p).data⟩ }
        clock := time
        expired := some ⟨p, r.registration p, r.setOf p, r.deadlineOf p⟩ }
  | call (c : TimerCall F D) (e : Expired) : r.timers.call = some c → r.expired = some e →
      Stepped r .call { r with
        timers := { r.timers with call := none }
        expired := none
        invoked := r.invoked ++ [⟨e, c.callback, c.data, r.clock.toNat, r.registration c.p⟩] }

theorem TimerInv.stepped_of_step {e : TimerEvent F D} (hinv : TimerInv r)
    (h : r.step e = some r') : Stepped r e r' := by
  cases e with
  | new callback data =>
    rw [TimerRun.step] at h
    split at h
    case isTrue => cases h
    case isFalse hlocked =>
      have hlocked : r.timers.locked = false := by simpa using hlocked
      cases hfree : r.timers.free with
      | nil =>
        rw [timerNew_nil hfree] at h
        cases h
        exact .exhausted callback data hlocked hfree
      | cons p free =>
        rw [timerNew_cons hfree] at h
        cases h
        exact .new callback data p free hlocked hfree
  | set p interval time =>
    rw [TimerRun.step] at h
    split at h
    case isTrue => cases h
    case isFalse hguard =>
      cases h
      simp only [not_or, BitVec.not_lt] at hguard
      exact .set p interval time (by simpa using hguard.1) ((hinv.live p).mp hguard.2.1) hguard.2.2
  | free p =>
    rw [TimerRun.step] at h
    split at h
    case isTrue => cases h
    case isFalse hguard =>
      cases h
      simp only [not_or] at hguard
      exact .free p (by simpa using hguard.1) ((hinv.live p).mp hguard.2)
  | thread time =>
    rw [TimerRun.step] at h
    split at h
    case isTrue => cases h
    case isFalse hguard =>
      cases h
      simp only [not_or, BitVec.not_lt] at hguard
      have hlocked : r.timers.locked = false := by simpa using hguard.1
      have hcall : r.timers.call = none := by simpa using hguard.2.2.1
      rcases timerThread_cases hinv.ok time with heq | ⟨p, on, hon, hexp, heq⟩
      · simp only [heq, hcall]
        exact .wait time hlocked hcall hguard.2.2.2
      · simp only [heq]
        exact .expire time p on hlocked hcall hguard.2.2.2 hon hexp
  | call =>
    rw [TimerRun.step] at h
    split at h
    case h_1 c e hc he =>
      cases h
      exact .call c e hc he
    case h_2 => cases h

/-! ### Lists and handles -/

namespace TimerInv

variable {e : TimerEvent F D}

theorem stepped (h : TimerInv r) (hs : Stepped r e r') : TimerInv r' := by
  cases hs with
  | exhausted => exact ⟨⟨h.ok.perm, h.ok.enabled, h.ok.disabled⟩, h.live⟩
  | new callback data p free hlocked hfree =>
    refine ⟨h.ok.new hfree callback data, fun a => ?_⟩
    change Function.update r.registration p _ a ≠ none ↔
      a ∈ r.timers.on ∨ a ∈ r.timers.off ++ [p]
    by_cases hap : a = p
    · subst hap
      simp
    · rw [Function.update_of_ne hap, h.live, List.mem_append, List.mem_singleton]
      simp only [hap, or_false]
  | set p interval time _ hp =>
    refine ⟨h.ok.set hp interval time, fun a => ?_⟩
    change r.registration a ≠ none ↔ _
    rw [h.live, mem_on_timerSet h.ok hp, mem_off_timerSet h.ok hp]
    by_cases hap : a = p
    · rw [hap]
      simp only [hp, true_or]
    · simp only [hap, false_or, ne_eq, not_false_eq_true, true_and]
  | free p _ hp =>
    refine ⟨h.ok.free hp, fun a => ?_⟩
    change Function.update r.registration p none a ≠ none ↔ _
    rw [mem_on_timerFree h.ok hp, mem_off_timerFree h.ok hp]
    by_cases hap : a = p
    · subst hap
      simp
    · rw [Function.update_of_ne hap, h.live]
      simp only [hap, ne_eq, not_false_eq_true, true_and]
  | wait => exact ⟨h.ok, h.live⟩
  | expire time p on _ _ _ hon =>
    refine ⟨h.ok.thread hon _, fun a => ?_⟩
    change r.registration a ≠ none ↔ a ∈ on ∨ a ∈ r.timers.off ++ [p]
    rw [h.live, hon, List.mem_cons, List.mem_append, List.mem_singleton]
    tauto
  | call => exact ⟨⟨h.ok.perm, h.ok.enabled, h.ok.disabled⟩, h.live⟩

theorem of_init (h : (timerMachine mem).init r) : TimerInv r := by
  obtain ⟨clock, rfl⟩ := h
  refine ⟨timersOk_timerInitGlobal mem, fun p => ?_⟩
  simp [timerInitGlobal]

/-- Every state has it. -/
theorem of_reachable {C : TimerRun F D → TimerEvent F D → Prop}
    (h : (timerMachine mem).ReachableWhen C r) : TimerInv r :=
  h.invariant (fun _ => of_init) fun _ _ _ hinv _ hstep => 
    hinv.stepped (hinv.stepped_of_step hstep)

end TimerInv

/-! ### The lock -/

/-- `timer_new` is called when there is a timer left. -/
def LeavesTimers (r : TimerRun F D) (e : TimerEvent F D) : Prop :=
  ∀ callback data, e = .new callback data → r.timers.free ≠ []

/-- The lock is free, and so are the timers that are not in use. -/
structure Unlocked (r : TimerRun F D) : Prop where
  locked : r.timers.locked = false
  disabled : ∀ p ∈ r.timers.free, (r.timers.timer p).enable = false

theorem Unlocked.stepped {e : TimerEvent F D} (h : Unlocked r) (hinv : TimerInv r)
    (he : LeavesTimers r e) (hs : Stepped r e r') : Unlocked r' := by
  cases hs with
  | exhausted callback data _ hfree => exact absurd hfree (he callback data rfl)
  | new callback data p free _ hfree =>
    refine ⟨h.locked, fun a ha => ?_⟩
    by_cases hap : a = p
    · rw [hap]
      exact enable_update_self _ _
    · exact enable_update_of_ne hap (h.disabled a (hfree ▸ List.mem_cons_of_mem p ha))
  | set p interval time _ hp =>
    refine ⟨h.locked, fun a ha => ?_⟩
    have hap : a ≠ p := fun heq => hinv.ok.notMem_free hp (heq ▸ ha)
    change ((timerSet p interval time r.timers).timer a).enable = false
    rw [timer_timerSet_of_ne hap]
    exact h.disabled a ha
  | free p _ hp =>
    refine ⟨h.locked, fun a ha => ?_⟩
    rcases List.mem_append.mp ha with ha | ha
    · have hap : a ≠ p := fun heq => hinv.ok.notMem_free hp (heq ▸ ha)
      exact enable_update_of_ne hap (h.disabled a ha)
    · rw [List.mem_singleton.mp ha]
      exact enable_update_self _ _
  | wait => exact ⟨h.locked, h.disabled⟩
  | expire time p on _ _ _ hon =>
    refine ⟨h.locked, fun a ha => ?_⟩
    have hap : a ≠ p := fun hap =>
      hinv.ok.notMem_free (.inl (hon ▸ List.mem_cons_self)) (hap ▸ ha)
    exact enable_update_of_ne hap (h.disabled a ha)
  | call => exact ⟨h.locked, h.disabled⟩

/-- Memory of zeros. -/
def zeroTimers : Nat → TimerData Unit Unit := fun _ => ⟨false, 0, 0, (), ()⟩

/-- After `timer_init_global`, at time 0. -/
def firstTimers : TimerRun Unit Unit :=
  ⟨timerInitGlobal zeroTimers, 0, [], fun _ => none, 0, fun _ => 0, fun _ => 0, none, []⟩

theorem reachable_step {e : TimerEvent F D} (h : (timerMachine mem).Reachable r)
    (hs : r.step e = some r') : (timerMachine mem).Reachable r' :=
  Lib.Machine.ReachableWhen.step (e := e) h trivial hs

theorem init_firstTimers : (timerMachine zeroTimers).init firstTimers := ⟨0, rfl⟩

/-- The timers that `timer_thread` has taken, in order: those it has called, and one it is about to
call. -/
def TimerRun.taken (r : TimerRun F D) : List Expired :=
  r.invoked.map Invoked.toExpired ++ r.expired.toList

/-- The deadlines of the timers that were taken, and then of the armed ones. -/
def TimerRun.deadlines (r : TimerRun F D) : List Nat :=
  r.taken.map Expired.deadline ++ r.timers.on.map r.deadlineOf

/-- Which `timer_set` armed the timers that were taken, and then the armed ones. -/
def TimerRun.setNumbers (r : TimerRun F D) : List Nat :=
  r.taken.map Expired.set ++ r.timers.on.map r.setOf

/-- What is known of the times. -/
structure TimersScheduled (r : TimerRun F D) : Prop where
  settime_le : ∀ p ∈ r.timers.on, (r.timers.timer p).settime ≤ r.clock
  deadlineOf_eq : ∀ p ∈ r.timers.on, r.deadlineOf p = (r.timers.timer p).expiry
  taken_le : ∀ e ∈ r.taken, e.deadline ≤ r.clock.toNat
  sorted : r.deadlines.Pairwise (· ≤ ·)
  timely : ∀ i ∈ r.invoked, i.deadline ≤ i.time

/-- The sets are numbered. -/
structure Numbered (r : TimerRun F D) : Prop where
  lt_sets : ∀ n ∈ r.setNumbers, n < r.sets
  nodup : r.setNumbers.Nodup

/-- Without the timer that is about to be called there are fewer. -/
theorem taken_sublist (r : TimerRun F D) :
    (r.invoked.map Invoked.toExpired).Sublist r.taken :=
  List.sublist_append_left ..

theorem taken_call (r : TimerRun F D) {e : Expired} (he : r.expired = some e) (c : TimerCall F D)
    (timers : Timers F D) : TimerRun.taken { r with
      timers := timers
      expired := none
      invoked := r.invoked ++ [⟨e, c.callback, c.data, r.clock.toNat, r.registration c.p⟩] } =
    r.taken := by
  unfold TimerRun.taken
  rw [he]
  simp

theorem map_update_of_notMem {α : Type*} {f : Nat → α} {p : Nat} {x : α} {l : List Nat}
    (hp : p ∉ l) : l.map (Function.update f p x) = l.map f :=
  List.map_congr_left fun _ ha => Function.update_of_ne (ne_of_mem_of_not_mem ha hp) ..

/-- The numbers after a `timer_set`, in another order. -/
theorem setNumbers_set (hinv : TimerInv r) {p : Nat}
    (hp : p ∈ r.timers.on ∨ p ∈ r.timers.off) (interval time : BitVec 64) :
    (r.taken.map Expired.set ++ (timerSet p interval time r.timers).on.map
      (Function.update r.setOf p r.sets)).Perm
        (r.sets :: (r.taken.map Expired.set ++ (r.timers.on.erase p).map r.setOf)) := by
  have hon : p ∉ r.timers.on.erase p := fun hmem => (hinv.ok.mem_erase_on.mp hmem).1 rfl
  rw [timerSet_eq hinv.ok hp]
  refine .trans (.append_left _ ((insertBefore_perm _ p _).map _)) ?_
  rw [List.map_cons, Function.update_self, map_update_of_notMem hon]
  exact List.perm_middle

theorem sublist_erase (r : TimerRun F D) (p : Nat) :
    (r.taken.map Expired.set ++ (r.timers.on.erase p).map r.setOf).Sublist r.setNumbers :=
  .append (.refl _) (List.erase_sublist.map _)

theorem Numbered.of_sublist (h : Numbered r) {l : List Nat} (hl : l.Sublist r.setNumbers) :
    (∀ n ∈ l, n < r.sets) ∧ l.Nodup :=
  ⟨fun n hn => h.lt_sets n (hl.subset hn), h.nodup.sublist hl⟩

theorem Numbered.stepped {e : TimerEvent F D} (h : Numbered r) (hinv : TimerInv r)
    (hs : Stepped r e r') : Numbered r' := by
  cases hs with
  | exhausted => exact ⟨h.lt_sets, h.nodup⟩
  | new => exact ⟨h.lt_sets, h.nodup⟩
  | set p interval time _ hp =>
    obtain ⟨hlt, hnodup⟩ := h.of_sublist (sublist_erase r p)
    have hperm := setNumbers_set hinv hp interval time
    refine ⟨fun n hn => ?_, hperm.nodup_iff.mpr (List.nodup_cons.mpr ⟨fun hmem => ?_, hnodup⟩)⟩
    · rcases List.mem_cons.mp (hperm.mem_iff.mp hn) with rfl | hn
      · exact Nat.lt_succ_self _
      · exact Nat.lt_succ_of_lt (hlt n hn)
    · exact Nat.lt_irrefl _ (hlt _ hmem)
  | free p _ hp =>
    obtain ⟨hlt, hnodup⟩ := h.of_sublist (sublist_erase r p)
    rw [timerFree_eq hinv.ok hp]
    exact ⟨hlt, hnodup⟩
  | wait =>
    have hsub : (r.invoked.map Invoked.toExpired ++ []).Sublist r.taken := by
      rw [List.append_nil]
      exact taken_sublist r
    obtain ⟨hlt, hnodup⟩ := h.of_sublist ((hsub.map Expired.set).append_right _)
    exact ⟨hlt, hnodup⟩
  | expire time p on _ _ _ hon =>
    have hsub : ((r.invoked.map Invoked.toExpired).map Expired.set ++
        r.timers.on.map r.setOf).Sublist r.setNumbers :=
      ((taken_sublist r).map Expired.set).append_right _
    obtain ⟨hlt, hnodup⟩ := h.of_sublist hsub
    -- the first of the armed timers becomes the last one taken
    have heq : ((r.invoked.map Invoked.toExpired ++
        [Expired.mk p (r.registration p) (r.setOf p) (r.deadlineOf p)]).map Expired.set ++
          on.map r.setOf) = (r.invoked.map Invoked.toExpired).map Expired.set ++
            r.timers.on.map r.setOf := by
      rw [hon]
      simp
    rw [← heq] at hlt hnodup
    exact ⟨hlt, hnodup⟩
  | call c e _ he =>
    refine ⟨?_, ?_⟩
    · unfold TimerRun.setNumbers
      rw [taken_call r he]
      exact h.lt_sets
    · unfold TimerRun.setNumbers
      rw [taken_call r he]
      exact h.nodup

theorem Numbered.of_init (h : (timerMachine mem).init r) : Numbered r := by
  obtain ⟨clock, rfl⟩ := h
  exact ⟨fun n hn => absurd hn List.not_mem_nil, List.nodup_nil⟩

/-- `timer_set` keeps the armed timers in the order of their deadlines. -/
theorem TimersScheduled.pairwise_set (h : TimersScheduled r) (hinv : TimerInv r) {p : Nat}
    (hp : p ∈ r.timers.on ∨ p ∈ r.timers.off) {interval time : BitVec 64} (htime : r.clock ≤ time) :
    ((timerSet p interval time r.timers).on.map
      (Function.update r.deadlineOf p (time.toNat + interval.toNat))).Pairwise (· ≤ ·) := by
  rw [timerSet_eq hinv.ok hp, List.pairwise_map]
  have hon : ∀ d ∈ r.timers.on.erase p, d ≠ p ∧ d ∈ r.timers.on := fun d hd =>
    hinv.ok.mem_erase_on.mp hd
  refine pairwise_insertBefore ?_ fun d hd => ?_
  · have hsorted := (List.pairwise_append.mp h.sorted).2.1.sublist
      ((List.erase_sublist (a := p)).map r.deadlineOf)
    rw [← map_update_of_notMem fun hmem => (hon p hmem).1 rfl, List.pairwise_map] at hsorted
    exact hsorted
  · obtain ⟨hdp, hd⟩ := hon d hd
    rw [Function.update_of_ne hdp, Function.update_of_ne hdp, Function.update_self,
      h.deadlineOf_eq d hd]
    exact expiresLater_iff (BitVec.le_trans (h.settime_le d hd) htime)

theorem TimersScheduled.stepped {e : TimerEvent F D} (h : TimersScheduled r) (hinv : TimerInv r)
    (hs : Stepped r e r') : TimersScheduled r' := by
  cases hs with
  | exhausted => exact ⟨h.settime_le, h.deadlineOf_eq, h.taken_le, h.sorted, h.timely⟩
  | new callback data p free _ hfree =>
    have htimer : ∀ a ∈ r.timers.on, Function.update r.timers.timer p
        { r.timers.timer p with enable := false, callback, data } a = r.timers.timer a :=
      fun a ha => Function.update_of_ne
        (fun heq => hinv.ok.notMem_free (.inl ha) (by simp [hfree, heq])) ..
    refine ⟨fun a ha => ?_, fun a ha => ?_, h.taken_le, h.sorted, h.timely⟩
    · have hle := h.settime_le a ha
      rwa [← htimer a ha] at hle
    · have heq := h.deadlineOf_eq a ha
      rwa [← htimer a ha] at heq
  | set p interval time _ hp htime =>
    have htime' : r.clock.toNat ≤ time.toNat := htime
    have hself := timer_timerSet_self p interval time r.timers
    have hother : ∀ a ≠ p, (timerSet p interval time r.timers).timer a = r.timers.timer a :=
      fun a ha => timer_timerSet_of_ne ha interval time
    have hon : ∀ a ∈ (timerSet p interval time r.timers).on, a ≠ p → a ∈ r.timers.on :=
      fun a ha hap => ((mem_on_timerSet hinv.ok hp interval time).mp ha).resolve_left hap
    obtain ⟨htaken, -, hle⟩ := List.pairwise_append.mp h.sorted
    refine ⟨fun a ha => ?_, fun a ha => ?_, fun e he => Nat.le_trans (h.taken_le e he) htime', ?_,
      h.timely⟩
    · change ((timerSet p interval time r.timers).timer a).settime ≤ time
      by_cases hap : a = p
      · rw [hap, hself]
        exact BitVec.le_refl _
      · rw [hother a hap]
        exact BitVec.le_trans (h.settime_le a (hon a ha hap)) htime
    · change Function.update r.deadlineOf p _ a =
        ((timerSet p interval time r.timers).timer a).expiry
      by_cases hap : a = p
      · subst hap
        rw [Function.update_self, hself]
        rfl
      · rw [Function.update_of_ne hap, hother a hap]
        exact h.deadlineOf_eq a (hon a ha hap)
    · refine List.pairwise_append.mpr ⟨htaken, h.pairwise_set hinv hp htime, fun d hd d' hd' => ?_⟩
      obtain ⟨e, he, rfl⟩ := List.mem_map.mp hd
      obtain ⟨a, ha, rfl⟩ := List.mem_map.mp hd'
      change e.deadline ≤ Function.update r.deadlineOf p _ a
      by_cases hap : a = p
      · have hclock := h.taken_le e he
        rw [hap, Function.update_self]
        omega
      · rw [Function.update_of_ne hap]
        exact hle _ hd _ (List.mem_map_of_mem (hon a ha hap))
  | free p _ hp =>
    have hon : ∀ a ∈ (timerFree p r.timers).on, a ≠ p ∧ a ∈ r.timers.on :=
      fun a ha => (mem_on_timerFree hinv.ok hp).mp ha
    refine ⟨fun a ha => ?_, fun a ha => ?_, h.taken_le, ?_, h.timely⟩
    · have hle := h.settime_le a (hon a ha).2
      rwa [← timer_timerFree_of_ne (hon a ha).1] at hle
    · have heq := h.deadlineOf_eq a (hon a ha).2
      rwa [← timer_timerFree_of_ne (hon a ha).1] at heq
    · refine h.sorted.sublist (.append_left (.map _ ?_) _)
      rw [timerFree_eq hinv.ok hp]
      exact List.erase_sublist
  | wait time _ _ htime =>
    have htime' : r.clock.toNat ≤ time.toNat := htime
    have hsub : (r.invoked.map Invoked.toExpired ++ []).Sublist r.taken := by
      rw [List.append_nil]
      exact taken_sublist r
    exact ⟨fun a ha => BitVec.le_trans (h.settime_le a ha) htime, h.deadlineOf_eq,
      fun e he => Nat.le_trans (h.taken_le e (hsub.subset he)) htime',
      h.sorted.sublist ((hsub.map _).append_right _), h.timely⟩
  | expire time p on _ _ htime hon hexp =>
    have htime' : r.clock.toNat ≤ time.toNat := htime
    have hp : p ∈ r.timers.on := hon ▸ List.mem_cons_self
    have htimer : ∀ a ∈ on, Function.update r.timers.timer p
        { r.timers.timer p with enable := false } a = r.timers.timer a := fun a ha =>
      Function.update_of_ne
        (fun heq => (List.nodup_cons.mp (hon ▸ hinv.ok.on_nodup)).1 (heq ▸ ha)) ..
    have hmem : ∀ a ∈ on, a ∈ r.timers.on := fun a ha => hon ▸ List.mem_cons_of_mem p ha
    refine ⟨fun a ha => ?_, fun a ha => ?_, fun e he => ?_, ?_, h.timely⟩
    · have hle := BitVec.le_trans (h.settime_le a (hmem a ha)) htime
      rwa [← htimer a ha] at hle
    · have heq := h.deadlineOf_eq a (hmem a ha)
      rwa [← htimer a ha] at heq
    · rcases List.mem_append.mp he with he | he
      · exact Nat.le_trans (h.taken_le e ((taken_sublist r).subset he)) htime'
      · rw [List.mem_singleton.mp he]
        change r.deadlineOf p ≤ time.toNat
        rw [h.deadlineOf_eq p hp]
        exact (elapsed_iff (BitVec.le_trans (h.settime_le p hp) htime)).mp hexp
    · -- the first of the armed timers becomes the last one taken
      have hsorted := h.sorted.sublist
        (((taken_sublist r).map Expired.deadline).append_right (r.timers.on.map r.deadlineOf))
      rw [hon] at hsorted
      unfold TimerRun.deadlines TimerRun.taken
      simpa using hsorted
  | call c e _ he =>
    refine ⟨h.settime_le, h.deadlineOf_eq, ?_, ?_, fun i hi => ?_⟩
    · rw [taken_call r he]
      exact h.taken_le
    · unfold TimerRun.deadlines
      rw [taken_call r he]
      exact h.sorted
    · rcases List.mem_append.mp hi with hi | hi
      · exact h.timely i hi
      · rw [List.mem_singleton.mp hi]
        exact h.taken_le e (List.mem_append_right _ (by simp [he]))

theorem TimersScheduled.of_init (h : (timerMachine mem).init r) : TimersScheduled r := by
  obtain ⟨clock, rfl⟩ := h
  exact ⟨fun _ hp => absurd hp List.not_mem_nil, fun _ hp => absurd hp List.not_mem_nil,
    fun _ he => absurd he List.not_mem_nil, List.Pairwise.nil,
    fun _ hi => absurd hi List.not_mem_nil⟩

/-- In every run the armed timers are in the order in which they expire, no callback is called
before its deadline, no `timer_set` leads to two calls, and the timers that are taken are taken in
the order of their deadlines, ahead of those that are still armed. -/
theorem timers_in_order (h : (timerMachine mem).Reachable r) :
    (r.timers.on.Pairwise fun p q => (r.timers.timer p).expiry ≤ (r.timers.timer q).expiry) ∧
      (∀ i ∈ r.invoked, i.deadline ≤ i.time) ∧
      (r.invoked.map fun i => i.set).Nodup ∧
      (r.taken.map Expired.deadline ++
        r.timers.on.map fun p => (r.timers.timer p).expiry).Pairwise (· ≤ ·) := by
  have hscheduled : TimersScheduled r := h.invariant_of (fun _ => TimerInv.of_reachable)
    (fun _ => TimersScheduled.of_init)
    fun _ _ _ hinv hsch _ hstep => hsch.stepped hinv (hinv.stepped_of_step hstep)
  have hnumbered : Numbered r := h.invariant_of (fun _ => TimerInv.of_reachable)
    (fun _ => Numbered.of_init)
    fun _ _ _ hinv hnum _ hstep => hnum.stepped hinv (hinv.stepped_of_step hstep)
  have hon : r.timers.on.map r.deadlineOf = r.timers.on.map fun p => (r.timers.timer p).expiry :=
    List.map_congr_left hscheduled.deadlineOf_eq
  have hsorted := hscheduled.sorted
  rw [TimerRun.deadlines, hon] at hsorted
  have hpairwise := List.pairwise_map.mp (List.pairwise_append.mp hsorted).2.1
  refine ⟨hpairwise, hscheduled.timely, ?_, hsorted⟩
  have hsub := (taken_sublist r).map Expired.set
  rw [List.map_map] at hsub
  exact (List.nodup_append.mp hnumbered.nodup).1.sublist hsub

/-- A timer is armed, expires, and its callback is called. -/
theorem timers_in_order_oneCall : ∃ r, (timerMachine zeroTimers).run firstTimers
    [.new () (), .set 127 5 0, .thread 3, .thread 5, .call] = some r ∧
      r.invoked.length = 1 ∧ ∀ i ∈ r.invoked, i.deadline ≤ i.time := by
  have hrun : ((timerMachine zeroTimers).run firstTimers
      [.new () (), .set 127 5 0, .thread 3, .thread 5, .call]).map (fun r => r.invoked.length) =
        some 1 := by
    decide
  obtain ⟨r, hr, hlen⟩ := Option.map_eq_some_iff.mp hrun
  have hreach : (timerMachine zeroTimers).Reachable r :=
    Lib.Machine.Reachable.run (.init init_firstTimers) _ hr
  exact ⟨r, hr, hlen, (timers_in_order hreach).2.1⟩

/-! ### Whose callback is called -/

/-- `timer_free` is not called for the timer whose callback `timer_thread` is about to call. -/
def FreesOthers (r : TimerRun F D) (e : TimerEvent F D) : Prop :=
  ∀ p c, e = .free p → r.timers.call = some c → c.p ≠ p

/-- What the `timer_new` of that number registered. -/
def Registered (registered : List (F × D)) (n : Option Nat) (x : F × D) : Prop :=
  ∃ k, n = some k ∧ registered[k]? = some x

/-- What `timer_new` puts into a timer. -/
def TimerData.handler (t : TimerData F D) : F × D := (t.callback, t.data)

structure TimersOwned (r : TimerRun F D) : Prop where
  inUse : ∀ p, r.registration p ≠ none →
    Registered r.registered (r.registration p) (r.timers.timer p).handler
  calling : ∀ c e, r.timers.call = some c → r.expired = some e →
    e.registration = r.registration c.p ∧
      Registered r.registered e.registration (c.callback, c.data)
  invoked : ∀ i ∈ r.invoked, i.owner = i.registration ∧
    Registered r.registered i.registration (i.callback, i.data)

theorem Registered.append {l : List (F × D)} {n : Option Nat} {x : F × D}
    (h : Registered l n x) (l' : List (F × D)) : Registered (l ++ l') n x := by
  obtain ⟨k, rfl, hk⟩ := h
  refine ⟨k, rfl, ?_⟩
  rw [List.getElem?_append_left (List.getElem?_eq_some_iff.mp hk).1, hk]

theorem registered_last (l : List (F × D)) (x : F × D) : Registered (l ++ [x]) (some l.length) x :=
  ⟨l.length, rfl, List.getElem?_concat_length⟩

/-- A timer that is about to be called is still in use. -/
theorem TimersOwned.registration_ne_none (h : TimersOwned r) {c : TimerCall F D} {e : Expired}
    (hc : r.timers.call = some c) (he : r.expired = some e) : r.registration c.p ≠ none := by
  obtain ⟨heq, k, hk, -⟩ := h.calling c e hc he
  rw [← heq, hk]
  exact Option.some_ne_none k

theorem TimersOwned.stepped {e : TimerEvent F D} (h : TimersOwned r) (hinv : TimerInv r)
    (he : FreesOthers r e) (hs : Stepped r e r') : TimersOwned r' := by
  cases hs with
  | exhausted => exact ⟨h.inUse, h.calling, h.invoked⟩
  | new callback data p free _ hfree =>
    have hp : ∀ a, r.registration a ≠ none → a ≠ p := fun a ha heq =>
      hinv.ok.notMem_free ((hinv.live a).mp ha) (by simp [hfree, heq])
    refine ⟨fun a ha => ?_, fun c e hc hexp => ?_, fun i hi => ?_⟩
    · change Function.update r.registration p _ a ≠ none at ha
      change Registered _ (Function.update r.registration p _ a)
        (Function.update r.timers.timer p _ a).handler
      by_cases hap : a = p
      · subst hap
        rw [Function.update_self, Function.update_self]
        exact registered_last ..
      · rw [Function.update_of_ne hap] at ha
        rw [Function.update_of_ne hap, Function.update_of_ne hap]
        exact (h.inUse a ha).append _
    · obtain ⟨heq, hreg⟩ := h.calling c e hc hexp
      have hcp := hp c.p (h.registration_ne_none hc hexp)
      refine ⟨?_, hreg.append _⟩
      change e.registration = Function.update r.registration p _ c.p
      rw [Function.update_of_ne hcp, heq]
    · exact ⟨(h.invoked i hi).1, (h.invoked i hi).2.append _⟩
  | set p interval time =>
    refine ⟨fun a ha => ?_, h.calling, h.invoked⟩
    have hhandler : ((timerSet p interval time r.timers).timer a).handler =
        (r.timers.timer a).handler := by
      by_cases hap : a = p
      · rw [hap, timer_timerSet_self]
        rfl
      · rw [timer_timerSet_of_ne hap]
    change Registered _ _ ((timerSet p interval time r.timers).timer a).handler
    rw [hhandler]
    exact h.inUse a ha
  | free p =>
    refine ⟨fun a ha => ?_, fun c e hc hexp => ?_, h.invoked⟩
    · change Function.update r.registration p none a ≠ none at ha
      change Registered _ (Function.update r.registration p none a)
        ((timerFree p r.timers).timer a).handler
      have hap : a ≠ p := fun heq => ha (by rw [heq, Function.update_self])
      rw [Function.update_of_ne hap] at ha
      rw [Function.update_of_ne hap, timer_timerFree_of_ne hap]
      exact h.inUse a ha
    · obtain ⟨heq, hreg⟩ := h.calling c e hc hexp
      refine ⟨?_, hreg⟩
      change e.registration = Function.update r.registration p none c.p
      rw [Function.update_of_ne (he p c rfl hc), heq]
  | wait => exact ⟨h.inUse, fun c e _ hexp => (nomatch hexp), h.invoked⟩
  | expire time p on _ _ _ hon =>
    have hreg := h.inUse p ((hinv.live p).mpr (.inl (hon ▸ List.mem_cons_self)))
    refine ⟨fun a ha => ?_, fun c e hc hexp => ?_, h.invoked⟩
    · change Registered _ _ (Function.update r.timers.timer p _ a).handler
      by_cases hap : a = p
      · subst hap
        rw [Function.update_self]
        exact hreg
      · rw [Function.update_of_ne hap]
        exact h.inUse a ha
    · cases hc
      cases hexp
      exact ⟨rfl, hreg⟩
  | call c e hc hexp =>
    refine ⟨h.inUse, fun c e hc _ => (nomatch hc), fun i hi => ?_⟩
    rcases List.mem_append.mp hi with hi | hi
    · exact h.invoked i hi
    · obtain ⟨heq, hreg⟩ := h.calling c e hc hexp
      rw [List.mem_singleton.mp hi]
      exact ⟨heq.symm, hreg⟩

theorem TimersOwned.of_init (h : (timerMachine mem).init r) : TimersOwned r := by
  obtain ⟨clock, rfl⟩ := h
  exact ⟨fun p hp => absurd rfl hp, fun c e hc _ => (nomatch hc),
    fun i hi => absurd hi List.not_mem_nil⟩

/-- In every run in which `timer_free` is not called for a timer whose callback `timer_thread` is
about to call: a callback is called with a handle only while the handle is from the `timer_new` that
registered the callback. -/
theorem callbacks_registered (h : (timerMachine mem).ReachableWhen FreesOthers r) :
    ∀ i ∈ r.invoked, ∃ n, i.registration = some n ∧ i.owner = some n ∧
      r.registered[n]? = some (i.callback, i.data) := by
  have howned : TimersOwned r := h.invariant_of (fun _ => TimerInv.of_reachable)
    (fun _ => TimersOwned.of_init)
    fun _ _ _ hinv hown he hstep => hown.stepped hinv he (hinv.stepped_of_step hstep)
  intro i hi
  obtain ⟨heq, n, hn, hreg⟩ := howned.invoked i hi
  exact ⟨n, hn, heq.trans hn, hreg⟩

/-- A callback is called while its timer is in use. -/
theorem callbacks_registered_oneCall : ∃ r, (timerMachine zeroTimers).run firstTimers
    [.new () (), .set 127 0 0, .thread 0, .call] = some r ∧ ∀ i ∈ r.invoked, ∃ n,
      i.registration = some n ∧ i.owner = some n ∧
        r.registered[n]? = some (i.callback, i.data) := by
  have hrun : ((timerMachine zeroTimers).run firstTimers
      [.new () (), .set 127 0 0, .thread 0, .call]).isSome = true := by
    decide
  obtain ⟨r, hr⟩ := Option.isSome_iff_exists.mp hrun
  have hreach : (timerMachine zeroTimers).ReachableWhen FreesOthers r :=
    .run (.init init_firstTimers) _ (fun e he _ => by
      intro p c hfree
      subst hfree
      simp at he) hr
  exact ⟨r, hr, callbacks_registered hreach⟩

/-- `timer_thread` takes the timer, `timer_free` returns, and the callback is called. -/
theorem not_callbacks_registered_freed :
    ¬ ∀ r, (timerMachine zeroTimers).Reachable r → ∀ i ∈ r.invoked, i.owner = i.registration := by
  intro hall
  have hrun : ((timerMachine zeroTimers).run firstTimers
      [.new () (), .set 127 0 0, .thread 0, .free 127, .call]).map
        (fun r => r.invoked.map fun i => (i.registration, i.owner)) = some [(some 0, none)] := by
    decide
  obtain ⟨r, hr, hinvoked⟩ := Option.map_eq_some_iff.mp hrun
  obtain ⟨i, hi, hval⟩ := List.mem_map.mp (hinvoked ▸ List.mem_singleton_self (some 0, none))
  have howner := hall r (Lib.Machine.Reachable.run (.init init_firstTimers) _ hr) i hi
  obtain ⟨hreg, hown⟩ := Prod.mk.injEq .. ▸ hval
  rw [hreg, hown] at howner
  cases howner

end OnDemandVirt.Vmm
