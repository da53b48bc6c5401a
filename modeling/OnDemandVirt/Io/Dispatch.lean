import OnDemandVirt.Io.Handlers

/-!
# What `core_iofunc` offers to the handlers

`core_iofunc` finds the end of the table by counting: `hd_num` slots are in use, and `i` of them
lie below `hd`. Both counts are right in the runs that `Counted` describes, and then every handler
that is there all the time gets its turn, in the order of the slots (`dispatchSound_of_counted`).
-/

namespace OnDemandVirt.Io

open Lib Vmm

variable {H : Type}

/-! ### What is to be shown -/

/-- A call of `core_iofunc` that is over has offered the access in slot order, has gone on after
every `CORE_IO_RET_NEXT` but after no other answer, and has left out no handler that was there all
the time, but for those behind the one that gave another answer. -/
structure Ended.Fair (e : Ended) : Prop where
  order : (e.answers.map Prod.fst).Pairwise (· < ·)
  goesOn : ∀ x ∈ e.answers.dropLast, x.2 = .next
  all : ∀ k, (e.kept k).isSome → k ∈ e.answers.map Prod.fst ∨
    ∃ x ∈ e.answers.getLast?, x.2 ≠ .next ∧ x.1 < k

/-- The same of a call that waits for an answer, as far as it has come. -/
structure Dispatch.Fair (d : Dispatch) : Prop where
  order : (d.answers.map Prod.fst ++ [d.hd]).Pairwise (· < ·)
  goesOn : ∀ x ∈ d.answers, x.2 = .next
  all : ∀ k < d.hd, (d.kept k).isSome → k ∈ d.answers.map Prod.fst

structure DispatchSound (s : Handlers H) : Prop where
  /-- `hd_num` is the number of slots in use. -/
  count : s.hdNum = Slots.count s.table
  /-- No index outside of `handler_descriptor` was read. -/
  bounds : s.fault ≠ some .outOfBounds
  ended : ∀ e ∈ s.ended, e.Fair
  dispatch : ∀ c d, s.dispatch c = some d → d.Fair

/-- An event that leaves the counts right: the functions that take a slot number are given one, the
handler of virtio is only taken out of the table when it is there and only put back when its slot
is empty, and at the answer `CORE_IO_RET_NEXT` as many slots up to the handler's own are in use as
`core_iofunc` has counted before it called the handler. -/
def Counted (s : Handlers H) : IoEvent H → Prop
  | .modify hd _ _ => 0 ≤ hd ∧ hd < 64
  | .unregister hd => 0 ≤ hd ∧ hd < 64
  | .registerVirtio => ∀ k, s.hdiVirtio = some k → s.virtioHd ≠ none → s.table k = none
  | .unregisterVirtio => ∀ k, s.hdiVirtio = some k → s.table k ≠ none
  | .answer c .next => ∀ d, s.dispatch c = some d →
      Slots.countBelow s.table (d.hd + 1) = d.i + 1
  | _ => True

/-! ### The loop -/

variable {s s' : Handlers H}

theorem covered_of_covering {port : Port} {k : Hd} {a : Nat} (h : s.covering port k = some a) :
    s.covered port k = true := by
  obtain ⟨htable, hcovers⟩ := Option.filter_eq_some_iff.mp h
  rw [Handlers.covered, htable]
  exact hcovers

/-- What the loop finds from a slot on. -/
def ScanFinds (s : Handlers H) (port : Port) (start : Nat) : Handlers.Scan → Prop
  | .outOfBounds => False
  | .finished => ∀ k : Hd, start ≤ k.val → s.covered port k = false
  | .calls _ hd => start ≤ hd.val ∧ s.covered port hd = true ∧
      ∀ k : Hd, start ≤ k.val → k < hd → s.covered port k = false

/-- A slot that is not for the port does not matter. -/
theorem ScanFinds.skip {port : Port} {hd : Hd} {r : Handlers.Scan}
    (h : ScanFinds s port (hd.val + 1) r) (hnot : s.covered port hd = false) :
    ScanFinds s port hd.val r := by
  have hrest : ∀ k : Hd, hd.val ≤ k.val → k = hd ∨ hd.val + 1 ≤ k.val := fun k hk => by
    rcases Nat.eq_or_lt_of_le hk with he | hlt
    · exact .inl (Fin.ext he.symm)
    · exact .inr hlt
  cases r with
  | outOfBounds => exact h
  | finished =>
    intro k hk
    rcases hrest k hk with rfl | hlt
    · exact hnot
    · exact h k hlt
  | calls i hd' =>
    obtain ⟨hle, hcov, hbetween⟩ := h
    refine ⟨Nat.le_of_succ_le hle, hcov, fun k hk hk' => ?_⟩
    rcases hrest k hk with rfl | hlt
    · exact hnot
    · exact hbetween k hlt hk'

/-- With right counts the loop sees all slots that are left. -/
theorem scan_finds (hcount : s.hdNum = Slots.count s.table) (port : Port) (n i : Nat)
    (hn : n ≤ 64) (hi : i = Slots.countBelow s.table (64 - n)) :
    ScanFinds s port (64 - n) (s.scan port n i) := by
  induction n generalizing i with
  | zero =>
    have hend : ¬ (i : Int) < s.hdNum := by
      rw [hcount, hi]
      exact lt_irrefl _
    rw [Handlers.scan, if_neg hend]
    intro k hk
    have := k.isLt
    omega
  | succ n ih =>
    have hd : (⟨63 - n, by omega⟩ : Hd).val = 64 - (n + 1) := by
      show 63 - n = 64 - (n + 1)
      omega
    have hsucc : (⟨63 - n, by omega⟩ : Hd).val + 1 = 64 - n := by
      show 63 - n + 1 = 64 - n
      omega
    have hbelow := Slots.countBelow_succ_val (t := s.table) (i := ⟨63 - n, by omega⟩)
    rw [hsucc, hd, ← hi] at hbelow
    rw [Handlers.scan, ← hd]
    by_cases hmore : (i : Int) < s.hdNum
    · rw [if_pos hmore]
      dsimp only
      cases htable : s.table ⟨63 - n, by omega⟩ with
      | none =>
        rw [htable] at hbelow
        have hnext := ih i (by omega) (by simpa using hbelow.symm)
        rw [← hsucc] at hnext
        exact hnext.skip (by rw [Handlers.covered, htable]; rfl)
      | some a =>
        rw [htable] at hbelow
        dsimp only
        split
        next hcov =>
          refine ⟨Nat.le_refl _, by rw [Handlers.covered, htable]; exact hcov, fun k hk hk' => ?_⟩
          exact absurd (Fin.lt_def.mp hk') (Nat.not_lt.mpr hk)
        next hcov =>
          have hnext := ih (i + 1) (by omega) (by simpa using hbelow.symm)
          rw [← hsucc] at hnext
          exact hnext.skip (by rw [Handlers.covered, htable]; simpa using hcov)
    · rw [if_neg hmore]
      intro k hk
      cases htable : s.table k with
      | none =>
        rw [Handlers.covered, htable]
        rfl
      | some a =>
        -- a slot in use past the last one that was counted
        have hlt := Slots.countBelow_lt_count hk htable
        rw [hd, ← hi] at hlt
        omega

/-! ### The invariant -/

/-- A call that waits: what it has still to offer is in the table. -/
structure Waiting (s : Handlers H) (d : Dispatch) : Prop extends d.Fair where
  kept : ∀ k a, d.kept k = some a → s.covering d.port k = some a

structure IoInv (s : Handlers H) : Prop where
  count : s.hdNum = Slots.count s.table
  bounds : s.fault ≠ some .outOfBounds
  ended : ∀ e ∈ s.ended, e.Fair
  waiting : ∀ c d, s.dispatch c = some d → Waiting s d

theorem IoInv.sound (h : IoInv s) : DispatchSound s :=
  ⟨h.count, h.bounds, h.ended, fun c d hd => (h.waiting c d hd).toFair⟩

theorem Handlers.Init.inv (h : s.Init) : IoInv s where
  count := by
    have hnone : ∀ k, Slots.countBelow s.table k = 0 := fun k => by
      induction k with
      | zero => rfl
      | succ k ih =>
        rw [Slots.countBelow, ih]
        unfold Slots.at?
        split
        · rw [h.table]
          rfl
        · rfl
    rw [h.hdNum, Slots.count, hnone]
    rfl
  bounds hfault := by
    rw [h.fault] at hfault
    cases hfault
  ended e he := by
    rw [h.ended] at he
    cases he
  waiting c d hd := by
    rw [h.dispatch c] at hd
    cases hd

/-- The history of a dispatch only ever gets smaller. -/
theorem Dispatch.Fair.keep {d : Dispatch} (h : d.Fair) : Waiting s (s.keep d) where
  order := h.order
  goesOn := h.goesOn
  all k hk hsome := by
    obtain ⟨a, ha⟩ := Option.isSome_iff_exists.mp hsome
    have hkept : (d.kept k).isSome := by
      rw [(Option.filter_eq_some_iff.mp ha).1]
      rfl
    exact h.all k hk hkept
  kept k a ha := of_decide_eq_true (Option.filter_eq_some_iff.mp ha).2

/-- Calls that are waiting stay fair when the table is changed. -/
theorem IoInv.settle (h : IoInv s) (hcount : s'.hdNum = Slots.count s'.table)
    (hbounds : s'.fault ≠ some .outOfBounds) (hended : s'.ended = s.ended)
    (hdispatch : s'.dispatch = s.dispatch) : IoInv s'.settle where
  count := hcount
  bounds := hbounds
  ended e he := h.ended e (by rwa [← hended])
  waiting c d hd := by
    have hmap : (s'.dispatch c).map s'.keep = some d := hd
    obtain ⟨d', hd', rfl⟩ := Option.map_eq_some_iff.mp hmap
    rw [hdispatch] at hd'
    have hw : Waiting s' (s'.keep d') := (h.waiting c d' hd').toFair.keep
    exact ⟨hw.toFair, hw.kept⟩

theorem IoInv.fail (h : IoInv s) {f : Fault} (hf : f ≠ .outOfBounds) : IoInv (s.fail f) where
  count := h.count
  bounds := fun he => hf (Option.some.inj he)
  ended := h.ended
  waiting c d hd :=
    have hw := h.waiting c d hd
    ⟨hw.toFair, hw.kept⟩

theorem IoInv.settle_fail (h : IoInv s) {f : Fault} (hf : f ≠ .outOfBounds) :
    IoInv (s.fail f).settle :=
  h.settle h.count (h.fail hf).bounds rfl rfl

/-! ### The functions -/

theorem freeSlot_spec {ihd : Nat} {hd : Hd} (h : s.freeSlot ihd = some hd) : s.table hd = none := by
  have hfree := List.find?_some h
  simp only [Bool.and_eq_true, Option.isNone_iff_eq_none] at hfree
  exact hfree.2

theorem slot_ok {hd : Int} {k : Hd} {a : Nat} (h : s.slot hd = .ok (k, a)) : s.table k = some a := by
  unfold Handlers.slot at h
  split at h
  · dsimp only at h
    split at h
    · cases h
    · cases h
      assumption
  · cases h

theorem slot_error {hd : Int} {f : Fault} (hhd : 0 ≤ hd ∧ hd < 64) (h : s.slot hd = .error f) :
    f ≠ .outOfBounds := by
  unfold Handlers.slot at h
  rw [dif_pos hhd] at h
  dsimp only at h
  split at h
  · cases h
    exact nofun
  · cases h

theorem IoInv.register (h : IoInv s) (start : Port) (num : Nat) (handler : H) (high : Bool)
    (name : String) (oom : Bool) :
    IoInv (s.coreIoRegisterHandler start num handler high name oom).settle := by
  unfold Handlers.coreIoRegisterHandler
  cases oom with
  | true => exact h.settle_fail nofun
  | false =>
    simp only [Bool.false_eq_true, if_false]
    split
    next => exact h.settle_fail nofun
    next hd hfree =>
      refine h.settle ?_ h.bounds rfl rfl
      show s.hdNum + 1 = ((Slots.count (Function.update s.table hd (some s.next)) : Nat) : Int)
      rw [Slots.count_fill (freeSlot_spec hfree), h.count]
      rfl

theorem IoInv.modify (h : IoInv s) {hd : Int} (hhd : 0 ≤ hd ∧ hd < 64) (start : Port) (num : Nat) :
    IoInv (s.coreIoModifyHandler hd start num).settle := by
  unfold Handlers.coreIoModifyHandler
  split
  next f hf => exact h.settle_fail (slot_error hhd hf)
  next k a hk => exact h.settle h.count h.bounds rfl rfl

theorem IoInv.unregister (h : IoInv s) {hd : Int} (hhd : 0 ≤ hd ∧ hd < 64) :
    IoInv (s.coreIoUnregisterHandler hd).settle := by
  unfold Handlers.coreIoUnregisterHandler
  split
  next f hf => exact h.settle_fail (slot_error hhd hf)
  next k a hk =>
    refine h.settle ?_ h.bounds rfl rfl
    have hcount := Slots.count_empty (slot_ok hk)
    show s.hdNum - 1 = ((Slots.count (Function.update s.table k none) : Nat) : Int)
    rw [h.count]
    omega

theorem IoInv.registerVirtio (h : IoInv s)
    (hC : ∀ k, s.hdiVirtio = some k → s.virtioHd ≠ none → s.table k = none) :
    IoInv s.coreIoRegisterVirtioHandler.settle := by
  unfold Handlers.coreIoRegisterVirtioHandler
  split
  next a k ha hk =>
    refine h.settle ?_ h.bounds rfl rfl
    have hempty := hC k hk (by rw [ha]; exact nofun)
    show s.hdNum + 1 = ((Slots.count (Function.update s.table k (some a)) : Nat) : Int)
    rw [Slots.count_fill hempty, h.count]
    rfl
  next => exact h.settle h.count h.bounds rfl rfl

theorem IoInv.unregisterVirtio (h : IoInv s)
    (hC : ∀ k, s.hdiVirtio = some k → s.table k ≠ none) :
    IoInv s.coreIoUnregisterVirtioHandler.settle := by
  unfold Handlers.coreIoUnregisterVirtioHandler
  split
  next => exact h.settle h.count h.bounds rfl rfl
  next k hk =>
    refine h.settle ?_ h.bounds rfl rfl
    obtain ⟨a, ha⟩ := Option.ne_none_iff_exists'.mp (hC k hk)
    have hcount := Slots.count_empty ha
    show s.hdNum - 1 = ((Slots.count (Function.update s.table k none) : Nat) : Int)
    rw [h.count]
    omega

/-! ### Dispatch -/

/-- A call of `core_iofunc` is over, or waits from now on. -/
theorem IoInv.setDispatch (h : IoInv s) {c : CpuId} {d : Option Dispatch} {es : List Ended}
    (hd : ∀ d' ∈ d, Waiting s d') (hes : ∀ e ∈ es, e.Fair) :
    IoInv { s with dispatch := Function.update s.dispatch c d, ended := s.ended ++ es } where
  count := h.count
  bounds := h.bounds
  ended e he := (List.mem_append.mp he).elim (h.ended e) (hes e)
  waiting c' d' hd' := by
    by_cases hc : c' = c
    · subst hc
      have hw := hd d' (by simpa using hd')
      exact ⟨hw.toFair, hw.kept⟩
    · simp only [Function.update_of_ne hc] at hd'
      have hw := h.waiting c' d' hd'
      exact ⟨hw.toFair, hw.kept⟩

/-- The functions of the ports do not matter. -/
theorem IoInv.setPorts (h : IoInv s) (ports : Ports) : IoInv { s with ports } where
  count := h.count
  bounds := h.bounds
  ended := h.ended
  waiting c d hd :=
    have hw := h.waiting c d hd
    ⟨hw.toFair, hw.kept⟩

/-- The loop goes on from a slot on. -/
theorem IoInv.goOn (h : IoInv s) {c : CpuId} {type : IoType} {port : Port}
    {answers : List (Hd × CoreIoRet)} {kept : Hd → Option Nat} {start : Nat} {r : Handlers.Scan}
    (hr : ScanFinds s port start r) (horder : (answers.map Prod.fst).Pairwise (· < ·))
    (hlt : ∀ k ∈ answers.map Prod.fst, k.val < start) (hnext : ∀ x ∈ answers, x.2 = .next)
    (hpassed : ∀ k : Hd, k.val < start → (kept k).isSome → k ∈ answers.map Prod.fst)
    (hkept : ∀ k a, kept k = some a → s.covering port k = some a) :
    IoInv (s.goOn c type port answers kept r) := by
  have hall : ∀ k : Hd, s.covered port k = false → ¬ (kept k).isSome := fun k hk hsome => by
    obtain ⟨a, ha⟩ := Option.isSome_iff_exists.mp hsome
    rw [covered_of_covering (hkept k a ha)] at hk
    cases hk
  cases r with
  | outOfBounds => exact hr.elim
  | calls i hd =>
    obtain ⟨hle, -, hbetween⟩ := hr
    have hw : Waiting s { port, i, hd, answers, kept } := by
      refine ⟨⟨?_, hnext, fun k hk hsome => ?_⟩, hkept⟩
      · rw [List.pairwise_append]
        refine ⟨horder, List.pairwise_singleton _ _, fun x hx y hy => ?_⟩
        rw [List.mem_singleton.mp hy]
        exact Fin.lt_def.mpr (Nat.lt_of_lt_of_le (hlt x hx) hle)
      · rcases Nat.lt_or_ge k.val start with hk' | hk'
        · exact hpassed k hk' hsome
        · exact absurd hsome (hall k (hbetween k hk' hk))
    have hset := h.setDispatch (c := c) (d := some { port, i, hd, answers, kept })
      (fun d' hd' => by cases hd'; exact hw)
      fun e (he : e ∈ ([] : List Ended)) => absurd he List.not_mem_nil
    simpa [Handlers.goOn] using hset
  | finished =>
    have hfair : Ended.Fair { answers, kept } := by
      refine ⟨horder, fun x hx => hnext x (List.dropLast_subset _ hx), fun k hsome => .inl ?_⟩
      rcases Nat.lt_or_ge k.val start with hk | hk
      · exact hpassed k hk hsome
      · exact absurd hsome (hall k (hr k hk))
    have hend : IoInv (s.endDispatch c { answers, kept }) :=
      h.setDispatch nofun fun e he => by rwa [List.mem_singleton.mp he]
    rw [Handlers.goOn]
    split
    · exact hend.setPorts _
    · exact hend

theorem IoInv.access (h : IoInv s) (c : CpuId) (type : IoType) (port : Port) :
    IoInv (s.access c type port) := by
  unfold Handlers.access
  split
  · have hfinds := scan_finds h.count port 64 0 (Nat.le_refl _) rfl
    exact h.goOn hfinds List.Pairwise.nil nofun nofun nofun fun k a ha => ha
  · exact h

/-- The slots that have answered, with the one that answers now. -/
theorem Dispatch.Fair.slots {d : Dispatch} (r : CoreIoRet) :
    (d.answers ++ [(d.hd, r)]).map Prod.fst = d.answers.map Prod.fst ++ [d.hd] := by
  rw [List.map_append]
  rfl

/-- An answer that ends the dispatch. -/
theorem Waiting.ended {d : Dispatch} (h : Waiting s d) {r : CoreIoRet} (hr : r ≠ .next) :
    Ended.Fair { answers := d.answers ++ [(d.hd, r)], kept := d.kept } where
  order := by
    rw [Dispatch.Fair.slots]
    exact h.order
  goesOn x hx := by
    rw [List.dropLast_concat] at hx
    exact h.goesOn x hx
  all k hsome := by
    rw [Dispatch.Fair.slots]
    rcases lt_trichotomy k d.hd with hlt | heq | hgt
    · exact .inl (List.mem_append_left _ (h.all k hlt hsome))
    · exact .inl (List.mem_append_right _ (List.mem_singleton.mpr heq))
    · exact .inr ⟨_, List.getLast?_concat, hr, hgt⟩

theorem IoInv.answer_end (h : IoInv s) {c : CpuId} {d : Dispatch} (hd : s.dispatch c = some d)
    {r : CoreIoRet} (hr : r ≠ .next) :
    IoInv (s.endDispatch c { answers := d.answers ++ [(d.hd, r)], kept := d.kept }) :=
  h.setDispatch nofun fun e he => by
    rw [List.mem_singleton.mp he]
    exact (h.waiting c d hd).ended hr

theorem IoInv.answer (h : IoInv s) {c : CpuId} {d : Dispatch} (hd : s.dispatch c = some d)
    {r : CoreIoRet} (hC : Counted s (.answer c r)) : IoInv (s.answer c d r) := by
  have hw := h.waiting c d hd
  cases r with
  | next =>
    have hfrom : 64 - (63 - d.hd.val) = d.hd.val + 1 := by
      have := d.hd.isLt
      omega
    have hfinds := scan_finds h.count d.port (63 - d.hd) (d.i + 1) (by omega)
      (by rw [hfrom]; exact (hC d hd).symm)
    rw [hfrom] at hfinds
    refine h.goOn hfinds ?_ (fun k hk => ?_) (fun x hx => ?_) (fun k hk hsome => ?_) hw.kept
    · rw [Dispatch.Fair.slots]
      exact hw.order
    · rw [Dispatch.Fair.slots, List.mem_append] at hk
      rcases hk with hk | hk
      · have hlt := (List.pairwise_append.mp hw.order).2.2 k hk d.hd List.mem_cons_self
        exact Nat.lt_succ_of_lt (Fin.lt_def.mp hlt)
      · rw [List.mem_singleton.mp hk]
        exact Nat.lt_succ_self _
    · rcases List.mem_append.mp hx with hx | hx
      · exact hw.goesOn x hx
      · rw [List.mem_singleton.mp hx]
    · rw [Dispatch.Fair.slots, List.mem_append]
      rcases Nat.eq_or_lt_of_le (Nat.le_of_lt_succ hk) with heq | hlt
      · exact .inr (List.mem_singleton.mpr (Fin.ext heq))
      · exact .inl (hw.all k (Fin.lt_def.mpr hlt) hsome)
  | invalid =>
    have hend := h.answer_end (r := .invalid) hd nofun
    exact hend.fail (f := .panics) nofun
  | default => exact h.answer_end hd nofun
  | done => exact h.answer_end hd nofun
  | block => exact h.answer_end hd nofun

/-! ### Runs -/

theorem IoInv.step {e : IoEvent H} (h : IoInv s) (hC : Counted s e) (hs : s.step e = some s') :
    IoInv s' := by
  unfold Handlers.step at hs
  split at hs
  · cases hs
  · cases e with
    | register start num handler high name oom =>
      cases hs
      exact h.register start num handler high name oom
    | modify hd start num =>
      cases hs
      exact h.modify hC start num
    | unregister hd =>
      cases hs
      exact h.unregister hC
    | registerVirtio =>
      cases hs
      exact h.registerVirtio hC
    | unregisterVirtio =>
      cases hs
      exact h.unregisterVirtio hC
    | access c type port =>
      dsimp only at hs
      split at hs
      · cases hs
        exact h.access c type port
      · cases hs
    | answer c r =>
      obtain ⟨d, hd, rfl⟩ := Option.map_eq_some_iff.mp hs
      exact h.answer hd hC

/-- In every run that leaves the counts right, the table and all calls of `core_iofunc` are as they
should be. -/
theorem dispatchSound_of_counted (s : Handlers H) (h : (ioMachine H).ReachableWhen Counted s) :
    DispatchSound s :=
  (h.invariant (I := IoInv) (fun _ => Handlers.Init.inv) fun _ _ _ hs hC hstep =>
    hs.step hC hstep).sound

/-! ### Two runs -/

/-- No handler is registered, and all accesses leave the guest. -/
def noHandlers : Handlers Unit where
  desc _ := { start := 0, endPort := 0, handler := (), name := "", enabled := false }
  next := 0
  table _ := none
  hdNum := 0
  hdiVirtio := none
  virtioHd := none
  ports := { iofunc := fun _ => .other 0, iobmp := fun _ => true }
  dispatch _ := none
  ended := []
  fault := none

theorem noHandlers_init : noHandlers.Init :=
  ⟨fun _ => rfl, rfl, rfl, rfl, fun _ => rfl, rfl, rfl⟩

/-- Two handlers for one port. -/
def twoHandlers : List (IoEvent Unit) :=
  [.register 0x60 1 () true "virtio_net" false, .register 0x60 1 () false "kbd" false]

/-- The access waits for the first of two handlers. -/
def askedFirst : Option (Handlers Unit) :=
  (ioMachine Unit).run noHandlers (twoHandlers ++ [.access 0 .inb 0x60])

/-- The first of two handlers passes the access on to the second one. -/
theorem dispatchSound_twoHandlers : ∃ s s' : Handlers Unit, askedFirst = some s ∧
    s.step (.answer 0 .next) = some s' ∧
      (s'.dispatch 0).map (fun d => (d.hd, d.answers)) = some (10, [(0, .next)]) ∧
        DispatchSound s' := by
  have hs : (ioMachine Unit).ReachableWhen Counted (askedFirst.get (by decide)) := by
    refine (Machine.ReachableWhen.init noHandlers_init).run _ (fun e he t => ?_)
      (Option.some_get (by decide)).symm
    simp only [twoHandlers, List.cons_append, List.nil_append, List.mem_cons, List.not_mem_nil,
      or_false] at he
    rcases he with rfl | rfl | rfl <;> trivial
  have hcounted : Counted (askedFirst.get (by decide)) (.answer 0 .next) := fun d hd => by
    have hget : some d = ((askedFirst.get (by decide)).dispatch 0) := hd.symm
    cases hget
    rfl
  have hstep : ((askedFirst.get (by decide)).step (.answer 0 .next)) =
      some (((askedFirst.get (by decide)).step (.answer 0 .next)).get (by decide)) :=
    (Option.some_get _).symm
  exact ⟨_, _, (Option.some_get (by decide)).symm, hstep, by decide,
    dispatchSound_of_counted _ (.step hs hcounted hstep)⟩

/-- The handler of virtio is taken out of the table twice. -/
def unregisteredTwice : List (IoEvent Unit) :=
  [.register 0x60 1 () true "virtio_net" false, .unregisterVirtio, .unregisterVirtio]

theorem not_dispatchSound_unregisteredTwice :
    ¬ ∀ s : Handlers Unit, (ioMachine Unit).Reachable s → DispatchSound s := by
  intro hall
  obtain ⟨s, hrun, hcounts⟩ := Option.map_eq_some_iff.mp
    (show ((ioMachine Unit).run noHandlers unregisteredTwice).map
      (fun s => (s.hdNum, Slots.count s.table)) = some (-1, 0) by decide)
  have hs : (ioMachine Unit).Reachable s :=
    (Machine.ReachableWhen.init noHandlers_init).run _ (fun _ _ _ => trivial) hrun
  have hcount := (hall s hs).count
  rw [Prod.mk.injEq] at hcounts
  rw [hcounts.1, hcounts.2] at hcount
  cases hcount

end OnDemandVirt.Io
