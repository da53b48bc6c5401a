import OnDemandVirt.Vmm.PageBlocks

/-!
# Interleaved calls of the page allocator

Any threads are in `mm_page_alloc` while pages are freed. A block between two parts of a call is
allocated and belongs to the thread; the orders that wait for it go down one by one.
-/

namespace OnDemandVirt.Vmm

open Lib.Buddy

/-- The calls that wait ask for the next smaller order each. -/
def Descending : (n : Nat) → List Nat → Prop
  | _, [] => True
  | n, m :: ps => n = m + 1 ∧ Descending m ps

/-- What is known of a thread in the allocator. -/
def Caller.Ok (s : PageAlloc) : Caller → Prop
  | .idle => True
  | .calling n ps => Descending n ps
  | .returned p ps => Descending (s.page p).allocsize ps

/-- A thread other than `t` has block `x` between two parts of a call. -/
def InTransit (s : AllocRun) (t : Option Nat) (x : Nat) : Prop :=
  ∃ t' ps, some t' ≠ t ∧ s.caller t' = .returned x ps

/-- The invariant, where the allocator is in state `a` and the block that thread `t` has been given
is left out. -/
structure AllocInv (img : VmmImage) (s : AllocRun) (t : Option Nat) (a : PageAlloc) : Prop where
  pages : PageInv a
  reserved : ∀ x, (a.page x).type = .reserved ↔ ¬ (x < numOfPages ∧ img.Managed x)
  owned : ∀ x, (a.page x).type = .allocated ↔ s.held x = true ∨ InTransit s t x
  one : ∀ x t₁ t₂ ps₁ ps₂, some t₁ ≠ t → some t₂ ≠ t → s.caller t₁ = .returned x ps₁ →
    s.caller t₂ = .returned x ps₂ → t₁ = t₂
  notBoth : ∀ x, s.held x = true → ¬ InTransit s t x
  callerOk : ∀ t', some t' ≠ t → (s.caller t').Ok a
  oldTypeOk : s.oldTypeOk = true

section

variable {img : VmmImage} {s : AllocRun} {t : Nat} {a : PageAlloc}

theorem AllocInv.lt {u : Option Nat} (h : AllocInv img s u a) {x : Nat}
    (hx : (a.page x).type = .allocated) : x < numOfPages := by
  by_contra hge
  have hres := (h.reserved x).mpr fun hin => hge hin.1
  rw [hx] at hres
  cases hres

/-- A thread that has been given no block is left out. -/
theorem AllocInv.without (h : AllocInv img s none a)
    (hc : ∀ x ps, s.caller t ≠ .returned x ps) : AllocInv img s (some t) a := by
  have htransit : ∀ x, InTransit s (some t) x ↔ InTransit s none x := by
    refine fun x => ⟨fun ⟨t', ps, _, ht'⟩ => ⟨t', ps, nofun, ht'⟩, fun ⟨t', ps, _, ht'⟩ =>
      ⟨t', ps, ?_, ht'⟩⟩
    rintro ⟨⟩
    exact hc x ps ht'
  exact ⟨h.pages, h.reserved, fun x => by rw [h.owned, htransit],
    fun x t₁ t₂ ps₁ ps₂ _ _ => h.one x t₁ t₂ ps₁ ps₂ nofun nofun,
    fun x hx hin => h.notBoth x hx ((htransit x).mp hin), fun t' _ => h.callerOk t' nofun,
    h.oldTypeOk⟩

/-- A thread is put back with no block. -/
theorem AllocInv.put (h : AllocInv img s (some t) a) {c : Caller}
    (hc : ∀ x ps, c ≠ .returned x ps) (hok : c.Ok a) :
    AllocInv img { s with alloc := a, caller := Function.update s.caller t c } none a := by
  have hcaller : ∀ t' x ps, Function.update s.caller t c t' = .returned x ps →
      some t' ≠ some t ∧ s.caller t' = .returned x ps := by
    intro t' x ps ht'
    rw [Function.update_apply] at ht'
    split_ifs at ht' with heq
    · exact absurd ht' (hc x ps)
    · exact ⟨fun heq' => heq (Option.some.inj heq'), ht'⟩
  have htransit : ∀ x, InTransit { s with alloc := a, caller := Function.update s.caller t c } none x ↔
      InTransit s (some t) x := by
    refine fun x => ⟨fun ⟨t', ps, _, ht'⟩ => ⟨t', ps, hcaller t' x ps ht'⟩,
      fun ⟨t', ps, hne, ht'⟩ => ⟨t', ps, nofun, ?_⟩⟩
    exact (Function.update_of_ne (fun heq => hne (congrArg some heq)) _ _).trans ht'
  refine ⟨h.pages, h.reserved, fun x => by rw [h.owned, htransit],
    fun x t₁ t₂ ps₁ ps₂ _ _ h₁ h₂ => ?_, fun x hx hin => h.notBoth x hx ((htransit x).mp hin),
    fun t' _ => ?_, h.oldTypeOk⟩
  · obtain ⟨hne₁, h₁⟩ := hcaller t₁ x ps₁ h₁
    obtain ⟨hne₂, h₂⟩ := hcaller t₂ x ps₂ h₂
    exact h.one x t₁ t₂ ps₁ ps₂ hne₁ hne₂ h₁ h₂
  · simp only [Function.update_apply]
    split_ifs with heq
    · exact hok
    · exact h.callerOk t' fun heq' => heq (Option.some.inj heq')

/-- What holds of the blocks of others holds on where their pages are left as they are. -/
theorem Caller.Ok.congr {a a' : PageAlloc} {c : Caller} (h : c.Ok a)
    (hpage : ∀ x ps, c = .returned x ps → a'.page x = a.page x) : c.Ok a' := by
  cases c with
  | idle => trivial
  | calling n ps => exact h
  | returned p ps =>
    change Descending _ _
    rw [hpage p ps rfl]
    exact h

/-- A block that is taken for thread `t` is returned to it. -/
theorem AllocInv.ret (h : AllocInv img s (some t) a) {n p : Nat} {ok : Bool} {a' : PageAlloc}
    {pending : List Nat} (htake : a.take n = some (p, ok, a')) (hp : Descending n pending) :
    AllocInv img (s.ret t p ok a' pending) none a' := by
  obtain ⟨hpages, rfl, hlt, htype, hsize, hpage⟩ := take_spec h.pages htake
  have hfree : ¬ (s.held p = true ∨ InTransit s (some t) p) := by
    rw [← h.owned, htype]
    decide
  have hres : ∀ x, (a'.page x).type = .reserved ↔ ¬ (x < numOfPages ∧ img.Managed x) := by
    intro x
    rw [← h.reserved, hpage, Function.update_apply]
    split_ifs with heq
    · simp [heq, htype]
    · rfl
  have halloc : ∀ x, (a'.page x).type = .allocated ↔ x = p ∨ (a.page x).type = .allocated := by
    intro x
    rw [hpage, Function.update_apply]
    split_ifs with heq
    · simp [heq]
    · simp [heq]
  have hcallerOk : ∀ t', some t' ≠ some t → (s.caller t').Ok a' := by
    intro t' hne
    refine (h.callerOk t' hne).congr fun x ps ht' => ?_
    have hx : x ≠ p := fun heq => hfree (Or.inr ⟨t', ps, hne, heq ▸ ht'⟩)
    rw [hpage, Function.update_of_ne hx]
  cases pending with
  | nil =>
    -- the block goes to the caller
    have hheld : AllocInv img { s with held := Function.update s.held p true } (some t) a' := by
      have htransit : ∀ x, InTransit { s with held := Function.update s.held p true } (some t) x ↔
          InTransit s (some t) x := fun x => Iff.rfl
      refine ⟨hpages, hres, fun x => ?_, h.one, fun x hx hin => ?_, hcallerOk, h.oldTypeOk⟩
      · rw [halloc, h.owned, htransit]
        simp only [Function.update_apply]
        split_ifs with heq
        · simp [heq]
        · simp [heq]
      · simp only [Function.update_apply] at hx
        split_ifs at hx with heq
        · exact hfree (Or.inr (heq ▸ hin))
        · exact h.notBoth x hx hin
    have hput := hheld.put (c := .idle) nofun trivial
    unfold AllocRun.ret
    rw [Bool.and_true]
    exact hput
  | cons m ps =>
    -- the block goes to the call that waits for it
    unfold AllocRun.ret
    rw [Bool.and_true]
    have hcaller : ∀ t' x qs, Function.update s.caller t (.returned p (m :: ps)) t' = .returned x qs ↔
        (t' = t ∧ x = p ∧ qs = m :: ps) ∨ (some t' ≠ some t ∧ s.caller t' = .returned x qs) := by
      intro t' x qs
      rw [Function.update_apply]
      split_ifs with heq
      · simp [heq, eq_comm]
      · simp [heq]
    have htransit : ∀ x, InTransit { s with
        alloc := a', caller := Function.update s.caller t (.returned p (m :: ps)) } none x ↔
          x = p ∨ InTransit s (some t) x := by
      refine fun x => ⟨fun ⟨t', qs, _, ht'⟩ => ?_, ?_⟩
      · rcases (hcaller t' x qs).mp ht' with ⟨-, rfl, -⟩ | ⟨hne, ht'⟩
        · exact Or.inl rfl
        · exact Or.inr ⟨t', qs, hne, ht'⟩
      · rintro (rfl | ⟨t', qs, hne, ht'⟩)
        · exact ⟨t, m :: ps, nofun, (hcaller t x _).mpr (Or.inl ⟨rfl, rfl, rfl⟩)⟩
        · exact ⟨t', qs, nofun, (hcaller t' x qs).mpr (Or.inr ⟨hne, ht'⟩)⟩
    refine ⟨hpages, hres, fun x => ?_, fun x t₁ t₂ ps₁ ps₂ _ _ h₁ h₂ => ?_, fun x hx hin => ?_,
      fun t' _ => ?_, h.oldTypeOk⟩
    · rw [halloc, h.owned]
      refine Iff.trans ?_ (or_congr_right (htransit x).symm)
      rw [or_left_comm]
    · rcases (hcaller t₁ x ps₁).mp h₁ with ⟨ht₁, hx₁, -⟩ | ⟨hne₁, hold₁⟩
      · rcases (hcaller t₂ x ps₂).mp h₂ with ⟨ht₂, -, -⟩ | ⟨hne₂, hold₂⟩
        · exact ht₁.trans ht₂.symm
        · exact absurd (Or.inr ⟨t₂, ps₂, hne₂, hx₁ ▸ hold₂⟩) hfree
      · rcases (hcaller t₂ x ps₂).mp h₂ with ⟨-, hx₂, -⟩ | ⟨hne₂, hold₂⟩
        · exact absurd (Or.inr ⟨t₁, ps₁, hne₁, hx₂ ▸ hold₁⟩) hfree
        · exact h.one x t₁ t₂ ps₁ ps₂ hne₁ hne₂ hold₁ hold₂
    · rcases (htransit x).mp hin with rfl | hin
      · exact hfree (Or.inl hx)
      · exact h.notBoth x hx hin
    · simp only [Function.update_apply]
      split_ifs with heq
      · change Descending _ _
        rw [hpage, Function.update_self]
        exact hp
      · exact hcallerOk t' fun heq' => heq (Option.some.inj heq')

/-- A thread that looks for a block under the lock. -/
theorem AllocInv.look (h : AllocInv img s (some t) a) {n : Nat} {pending : List Nat}
    (hp : Descending n pending) :
    AllocInv img (s.look t a n pending) none (s.look t a n pending).alloc := by
  unfold AllocRun.look
  cases htake : a.take n with
  | none => exact h.put (c := .calling (n + 1) (n :: pending)) nofun ⟨rfl, hp⟩
  | some r =>
    obtain ⟨p, ok, a'⟩ := r
    have hret := h.ret htake hp
    have heq : (s.ret t p ok a' pending).alloc = a' := by
      cases pending <;> rfl
    dsimp only
    rw [heq]
    exact hret

/-- A thread that goes on with a block splits it. -/
theorem AllocInv.split (h : AllocInv img s none a) {n p : Nat} {pending : List Nat}
    (hc : s.caller t = .returned p (n :: pending)) :
    AllocInv img s (some t) (a.split n p) ∧ Descending n pending := by
  have hsome : ∀ t' : Nat, some t' ≠ none := fun _ => Option.some_ne_none _
  have hok := h.callerOk t (hsome t)
  rw [hc] at hok
  obtain ⟨hsize, hdesc⟩ := hok
  have htype : (a.page p).type = .allocated := (h.owned p).mpr (Or.inr ⟨t, _, hsome t, hc⟩)
  obtain ⟨hpages, hhalf, hpage, -⟩ := split_spec h.pages (h.lt htype) htype hsize
  have hlive : ∀ x, x ≠ p → (a.page x).type.Kept ∨ ((a.split n p).page x).type.Kept →
      (a.split n p).page x = a.page x := by
    intro x hx hk
    rw [hpage] at hk ⊢
    simp only [Function.update_apply, if_neg hx] at hk ⊢
    split_ifs at hk ⊢ with heq
    · rw [heq, hhalf] at hk
      exact absurd hk (by simp [PageType.Kept])
    · rfl
  have hpfree : ((a.split n p).page p).type = .free := by
    rw [hpage]
    simp only [Function.update_apply]
    split_ifs <;> rfl
  have htransit : ∀ x, InTransit s none x ↔ x = p ∨ InTransit s (some t) x := by
    refine fun x => ⟨?_, ?_⟩
    · rintro ⟨t', ps, -, ht'⟩
      by_cases heq : t' = t
      · subst heq
        rw [hc] at ht'
        cases ht'
        exact Or.inl rfl
      · exact Or.inr ⟨t', ps, fun heq' => heq (Option.some.inj heq'), ht'⟩
    · rintro (rfl | ⟨t', ps, -, ht'⟩)
      · exact ⟨t, _, hsome t, hc⟩
      · exact ⟨t', ps, hsome t', ht'⟩
  have hother : ∀ t' ps, some t' ≠ some t → s.caller t' ≠ .returned p ps := by
    intro t' ps hne ht'
    exact hne (congrArg some (h.one p t' t ps _ (hsome t') (hsome t) ht' hc))
  refine ⟨⟨hpages, fun x => ?_, fun x => ?_, fun x t₁ t₂ ps₁ ps₂ _ _ =>
    h.one x t₁ t₂ ps₁ ps₂ (hsome t₁) (hsome t₂),
    fun x hx hin => h.notBoth x hx ((htransit x).mpr (Or.inr hin)), fun t' hne =>
    (h.callerOk t' (hsome t')).congr fun x ps ht' => ?_, h.oldTypeOk⟩, hdesc⟩
  · rw [← h.reserved]
    by_cases heq : x = p
    · rw [heq, hpfree, htype]
      decide
    · refine ⟨fun hr => ?_, fun hr => ?_⟩
      · rw [← hlive x heq (Or.inr (Or.inr hr))]
        exact hr
      · rw [hlive x heq (Or.inl (Or.inr hr))]
        exact hr
  · by_cases heq : x = p
    · subst heq
      refine iff_of_false (by rw [hpfree]; decide) ?_
      rintro (hheld | ⟨t', ps, hne, ht'⟩)
      · exact h.notBoth x hheld ((htransit x).mpr (Or.inl rfl))
      · exact hother t' ps hne ht'
    · have hold := h.owned x
      rw [htransit] at hold
      simp only [heq, false_or] at hold
      rw [← hold]
      refine ⟨fun hr => ?_, fun hr => ?_⟩
      · rw [← hlive x heq (Or.inr (Or.inl hr))]
        exact hr
      · rw [hlive x heq (Or.inl (Or.inl hr))]
        exact hr
  · have hx : x ≠ p := fun heq => hother t' ps hne (heq ▸ ht')
    exact hlive x hx (Or.inl (Or.inl ((h.owned x).mpr (Or.inr ⟨t', ps, hsome t', ht'⟩))))

/-- A block that a caller holds is freed. -/
theorem AllocInv.free (h : AllocInv img s none s.alloc) {p : Nat} (hp : s.held p = true) :
    AllocInv img { s with alloc := mmPageFree s.alloc p, held := Function.update s.held p false } none
      (mmPageFree s.alloc p) := by
  have htype : (s.alloc.page p).type = .allocated := (h.owned p).mpr (Or.inl hp)
  obtain ⟨hpages, hpfree, hlive⟩ := mmPageFree_spec h.pages (h.lt htype) (Or.inl htype)
  have htransit : ∀ x, InTransit { s with
      alloc := mmPageFree s.alloc p, held := Function.update s.held p false } none x ↔
        InTransit s none x := fun x => Iff.rfl
  refine ⟨hpages, fun x => ?_, fun x => ?_, h.one, fun x hx => ?_, fun t' _ =>
    (h.callerOk t' nofun).congr fun x ps ht' => ?_, h.oldTypeOk⟩
  · rw [← h.reserved]
    by_cases heq : x = p
    · subst heq
      refine iff_of_false (fun hr => hpfree (Or.inr hr)) ?_
      rw [htype]
      decide
    · refine ⟨fun hr => ?_, fun hr => ?_⟩
      · rw [← hlive x heq (Or.inr (Or.inr hr))]
        exact hr
      · rw [hlive x heq (Or.inl (Or.inr hr))]
        exact hr
  · rw [htransit]
    simp only [Function.update_apply]
    split_ifs with heq
    · subst heq
      refine iff_of_false (fun hr => hpfree (Or.inl hr)) ?_
      rintro (hfalse | hin)
      · cases hfalse
      · exact h.notBoth x hp hin
    · rw [← h.owned]
      refine ⟨fun hr => ?_, fun hr => ?_⟩
      · rw [← hlive x heq (Or.inr (Or.inl hr))]
        exact hr
      · rw [hlive x heq (Or.inl (Or.inl hr))]
        exact hr
  · simp only [Function.update_apply] at hx
    split_ifs at hx with heq
    exact h.notBoth x hx
  · have hin : InTransit s none x := ⟨t', ps, nofun, ht'⟩
    have hx : x ≠ p := fun heq => h.notBoth p hp (heq ▸ hin)
    exact hlive x hx (Or.inl (Or.inl ((h.owned x).mpr (Or.inr hin))))

end

theorem allocInv_init (img : VmmImage) :
    AllocInv img ⟨mmInitGlobal img, fun _ => .idle, fun _ => false, true⟩ none (mmInitGlobal img) := by
  obtain ⟨hpages, hnone, hres⟩ := mmInitGlobal_spec img
  refine ⟨hpages, hres, fun x => iff_of_false (hnone x) ?_, nofun, nofun, fun _ _ => trivial,
    rfl⟩
  rintro (hheld | ⟨t', ps, -, ht'⟩)
  · cases hheld
  · cases ht'

theorem allocInv_step {img : VmmImage} {s s' : AllocRun} {e : AllocEvent}
    (h : AllocInv img s none s.alloc) (hstep : (pageAllocMachine img).step s e = some s') :
    AllocInv img s' none s'.alloc := by
  cases e with
  | call t n =>
    cases hc : s.caller t with
    | idle =>
      simp only [pageAllocMachine, hc] at hstep
      cases hstep
      exact (h.without (t := t) (by rw [hc]; nofun)).put (c := .calling n []) nofun trivial
    | calling => simp [pageAllocMachine, hc] at hstep
    | returned => simp [pageAllocMachine, hc] at hstep
  | lock t =>
    cases hc : s.caller t with
    | idle => simp [pageAllocMachine, hc] at hstep
    | calling n pending =>
      simp only [pageAllocMachine, hc] at hstep
      split_ifs at hstep
      cases hstep
      have hok := h.callerOk t nofun
      rw [hc] at hok
      exact (h.without (t := t) (by rw [hc]; nofun)).look hok
    | returned p pending =>
      cases pending with
      | nil => simp [pageAllocMachine, hc] at hstep
      | cons n pending =>
        simp only [pageAllocMachine, hc] at hstep
        cases hstep
        obtain ⟨hsplit, hdesc⟩ := h.split hc
        exact hsplit.look hdesc
  | free p =>
    simp only [pageAllocMachine] at hstep
    split_ifs at hstep with hp
    cases hstep
    exact h.free hp

theorem allocInv_of_reachable {img : VmmImage} {s : AllocRun}
    (hs : (pageAllocMachine img).Reachable s) : AllocInv img s none s.alloc := by
  refine Lib.Machine.ReachableWhen.invariant (I := fun s => AllocInv img s none s.alloc) ?_
    (fun _ _ _ h _ hstep => allocInv_step h hstep) hs
  intro s hinit
  rw [show s = ⟨mmInitGlobal img, fun _ => .idle, fun _ => false, true⟩ from hinit]
  dsimp only
  exact allocInv_init img

/-! ### A thread that is not interrupted -/

theorem ret_ret {s : AllocRun} {t p p' n : Nat} {a a' : PageAlloc} {pending : List Nat} {c : Caller} :
    ({ s with caller := Function.update s.caller t c }.ret t p true a (n :: pending)).ret t p' true a'
      pending = s.ret t p' true a' pending := by
  cases pending <;> simp [AllocRun.ret, Function.update_idem]

theorem ret_caller {s : AllocRun} {t p n : Nat} {a : PageAlloc} {pending : List Nat} {ok : Bool} :
    (s.ret t p ok a (n :: pending)).caller t = .returned p (n :: pending) := Function.update_self _ _ _

/-- `mmPageAlloc` is what a thread does that has the lock again and again. -/
theorem run_mmPageAlloc {img : VmmImage} {s : AllocRun} {t n p : Nat} {pending : List Nat}
    {a : PageAlloc} (fuel : Nat) (hfuel : fuel + n = numOfAllocsize)
    (hc : s.caller t = .calling n pending) (h : mmPageAlloc fuel s.alloc n = some (p, a)) :
    ∃ k, (pageAllocMachine img).run s (List.replicate k (.lock t)) =
      some (s.ret t p true a pending) := by
  induction fuel generalizing s n p a pending with
  | zero => cases h
  | succ fuel ih =>
    have hn : n < numOfAllocsize := by omega
    have hlook : (pageAllocMachine img).step s (.lock t) = some (s.look t s.alloc n pending) := by
      simp only [pageAllocMachine, hc, if_pos hn]
    rw [mmPageAlloc] at h
    cases htake : s.alloc.take n with
    | some r =>
      obtain ⟨q, ok, a'⟩ := r
      rw [htake] at h
      cases ok with
      | false => cases h
      | true =>
        cases h
        have heq : s.look t s.alloc n pending = s.ret t p true a pending := by
          rw [AllocRun.look, htake]
        exact ⟨1, by rw [List.replicate_one, Lib.Machine.run, hlook, heq]; rfl⟩
    | none =>
      rw [htake] at h
      obtain ⟨⟨q, a₁⟩, hinner, h⟩ := Option.bind_eq_some_iff.mp h
      obtain ⟨⟨p', ok, a₂⟩, htake', h⟩ := Option.bind_eq_some_iff.mp h
      cases ok with
      | false => cases h
      | true =>
        cases h
        obtain ⟨k, hk⟩ := ih
          (s := { s with caller := Function.update s.caller t (.calling (n + 1) (n :: pending)) })
          (by omega) (Function.update_self _ _ _) hinner
        have heq : s.look t s.alloc n pending =
            { s with caller := Function.update s.caller t (.calling (n + 1) (n :: pending)) } := by
          rw [AllocRun.look, htake]
        refine ⟨1 + k + 1, ?_⟩
        rw [← List.replicate_append_replicate, ← List.replicate_append_replicate, List.append_assoc, List.replicate_one,
          List.singleton_append, Lib.Machine.run, hlook, heq, Option.bind_some,
          Lib.Machine.run_append, hk, Option.bind_some, Lib.Machine.run]
        simp only [pageAllocMachine, ret_caller]
        rw [AllocRun.look]
        generalize Caller.calling (n + 1) (n :: pending) = c
        have halloc : ({ s with caller := Function.update s.caller t c }.ret t q true a₁
            (n :: pending)).alloc = a₁ := rfl
        rw [halloc, htake', Option.bind_some, Lib.Machine.run]
        dsimp only
        rw [ret_ret]

/-! ### The partition -/

/-- A block of order `k` at page `h` that is on a free list. -/
def AllocRun.FreeBlock (s : AllocRun) (h k : Nat) : Prop := h ∈ s.alloc.freepage k

/-- A block of order `k` at page `h` that a caller holds: it has been returned to one, or it is
between two parts of a call. -/
def AllocRun.HeldBlock (s : AllocRun) (h k : Nat) : Prop :=
  (s.held h = true ∨ InTransit s none h) ∧ (s.alloc.page h).allocsize = k

def AllocRun.Block (s : AllocRun) (h k : Nat) : Prop := s.FreeBlock h k ∨ s.HeldBlock h k

/-- The blocks on the free lists and the blocks that callers hold partition the managed pages. -/
structure Partitioned (img : VmmImage) (s : AllocRun) : Prop where
  covered : ∀ x, x < numOfPages ∧ img.Managed x ↔ ∃ h k, s.Block h k ∧ h ≤ x ∧ x < h + 2 ^ k
  disjoint : ∀ h k h' k' x, s.Block h k → s.Block h' k' → h ≤ x → x < h + 2 ^ k → h' ≤ x →
    x < h' + 2 ^ k' → h = h' ∧ k = k'
  free_or_held : ∀ h k, s.FreeBlock h k → ¬ s.HeldBlock h k
  free_once : ∀ k, (s.alloc.freepage k).Nodup
  held_once : ∀ h, s.held h = true → ¬ InTransit s none h
  transit_once : ∀ h t t' ps ps', s.caller t = .returned h ps → s.caller t' = .returned h ps' → t = t'
  aligned : ∀ h k, s.Block h k → k < numOfAllocsize ∧ 2 ^ k ∣ h ∧ allocsize k ∣ pageToVirt h
  inner : ∀ h k x, s.Block h k → h < x → x < h + 2 ^ k → (s.alloc.page x).type = .notHead

section

variable {img : VmmImage} {s : AllocRun}

theorem AllocInv.block_iff (h : AllocInv img s none s.alloc) (x k : Nat) :
    s.Block x k ↔ x < numOfPages ∧ (s.alloc.page x).type ≠ .notHead ∧
      (s.alloc.page x).type ≠ .reserved ∧ (s.alloc.page x).allocsize = k := by
  unfold AllocRun.Block AllocRun.FreeBlock AllocRun.HeldBlock
  rw [h.pages.mem_freepage, ← h.owned]
  have hlt : (s.alloc.page x).type = .allocated → x < numOfPages := h.lt
  cases htype : (s.alloc.page x).type with
  | free => simp
  | notHead => simp
  | allocated =>
    have := hlt htype
    simp [this]
  | reserved => simp

theorem allocsize_dvd {h k : Nat} (hk : k ≤ 12) (hh : 2 ^ k ∣ h) : allocsize k ∣ pageToVirt h := by
  have hpow : 2 ^ k ∣ 2 ^ 18 := Nat.pow_dvd_pow 2 (by omega)
  have heq : pageToVirt h = 2 ^ 12 * (2 ^ 18 + h) := by
    rw [pageToVirt, vmmStartVirt, Nat.mul_add]
    norm_num
  rw [heq, allocsize_eq, Nat.mul_one]
  exact Nat.mul_dvd_mul_left _ (Nat.dvd_add hpow hh)

/-- The free blocks and the blocks that callers hold partition the managed pages at every moment
of every run, and the assertion on the old type of a page never fails. -/
theorem partitioned_of_reachable (hs : (pageAllocMachine img).Reachable s) :
    Partitioned img s ∧ s.oldTypeOk = true := by
  have h := allocInv_of_reachable hs
  have ht := h.pages.tiling
  refine ⟨⟨fun x => ⟨fun hx => ?_, ?_⟩, fun x k x' k' z hb hb' hxz hzx hxz' hzx' => ?_,
    fun x k hfree hheld => ?_, h.pages.nodup, h.notBoth,
    fun x t t' ps ps' => h.one x t t' ps ps' nofun nofun, fun x k hb => ?_,
    fun x k z hb hxz hzx => ?_⟩, h.oldTypeOk⟩
  · obtain ⟨y, hy, hhead, hyx, hxy⟩ := ht.covered x hx.1
    refine ⟨y, _, (h.block_iff y _).mpr ⟨hy, hhead, fun hres => ?_, rfl⟩, hyx, hxy⟩
    -- an unmanaged page is a block by itself
    rw [h.pages.reserved y hres] at hxy
    have hyx : y = x := by omega
    exact (h.reserved y).mp hres (hyx ▸ hx)
  · rintro ⟨y, k, hb, hyx, hxy⟩
    obtain ⟨hy, hhead, hres, hk⟩ := (h.block_iff y k).mp hb
    have hend := ht.end_le (by decide) hy hhead
    rw [hk] at hend
    rcases Nat.eq_or_lt_of_le hyx with rfl | hlt
    · exact not_not.mp fun hnot => hres ((h.reserved y).mpr hnot)
    · have hinner := not_not.mp (ht.inner y hy hhead x hlt (by rw [hk]; exact hxy)).1
      refine not_not.mp fun hnot => ?_
      rw [(h.reserved x).mpr hnot] at hinner
      cases hinner
  · obtain ⟨hy, hhead, -, hk⟩ := (h.block_iff x k).mp hb
    obtain ⟨hy', hhead', -, hk'⟩ := (h.block_iff x' k').mp hb'
    have heq := ht.disjoint hy hy' hhead hhead' hxz (by rw [hk]; exact hzx) hxz'
      (by rw [hk']; exact hzx')
    refine ⟨heq, ?_⟩
    rw [← hk, ← hk', heq]
  · have hfree := ((h.pages.mem_freepage k x).mp hfree).2.1
    rw [(h.owned x).mpr hheld.1] at hfree
    cases hfree
  · obtain ⟨hy, hhead, -, hk⟩ := (h.block_iff x k).mp hb
    have hle : k ≤ 12 := hk ▸ ht.order_le x hy hhead
    have hdvd : 2 ^ k ∣ x := hk ▸ ht.aligned x hy hhead
    exact ⟨Nat.lt_succ_of_le hle, hdvd, allocsize_dvd hle hdvd⟩
  · obtain ⟨hy, hhead, -, hk⟩ := (h.block_iff x k).mp hb
    exact not_not.mp (ht.inner x hy hhead z hxz (by rw [hk]; exact hzx)).1

end

/-- A VMM whose image is 16 MiB long. -/
def largeImage : VmmImage := ⟨vmmStartVirt, vmmStartVirt + 0x1000000⟩

/-- The allocator before any call. -/
def noCalls : AllocRun := ⟨mmInitGlobal largeImage, fun _ => .idle, fun _ => false, true⟩

/-- A call begins and has the lock once. -/
theorem partitioned_firstCall : ∃ s, (pageAllocMachine largeImage).run noCalls
    [.call 0 3, .lock 0] = some s ∧ Partitioned largeImage s ∧ s.oldTypeOk = true := by
  have hrun : ∃ s, (pageAllocMachine largeImage).run noCalls [.call 0 3, .lock 0] = some s := by
    simp [Lib.Machine.run, pageAllocMachine, noCalls, numOfAllocsize]
  obtain ⟨s, hs⟩ := hrun
  exact ⟨s, hs, partitioned_of_reachable (.run (.init (Eq.refl noCalls)) _ hs)⟩

end OnDemandVirt.Vmm
