import OnDemandVirt.Vmm.PageAlloc

/-!
# The blocks of the page allocator

The page descriptors tile the pages with blocks, and the free lists hold the free ones. Taking,
splitting and merging blocks keep that, also between the parts of a call, where a thread holds a
block that is allocated and larger than what it was asked for.
-/

namespace OnDemandVirt.Vmm

open Lib.Buddy

/-! ### The buddy of a block -/

theorem xor_one (b : Nat) : b ^^^ 1 = if b % 2 = 0 then b + 1 else b - 1 := by
  have hdiv : (b ^^^ 1) / 2 = b / 2 := by
    rw [Nat.xor_div_two]
    exact Nat.xor_zero _
  have hmod := Nat.xor_mod_two_eq_one (a := b) (b := 1)
  split_ifs with h
  · have : (b ^^^ 1) % 2 = 1 := hmod.mpr (by omega)
    omega
  · have : ¬ (b ^^^ 1) % 2 = 1 := fun h' => by
      have := hmod.mp h'
      omega
    omega

theorem two_pow_succ_dvd_iff {n c : Nat} : 2 ^ (n + 1) ∣ 2 ^ n * c ↔ c % 2 = 0 := by
  rw [Nat.pow_succ, Nat.mul_dvd_mul_iff_left (Nat.two_pow_pos n), Nat.dvd_iff_mod_eq_zero]

/-- The page number in the virtual address of a page. -/
theorem pageToVirt_eq {n p : Nat} (hn : n < 12) (hp : 2 ^ n ∣ p) :
    ∃ b, pageToVirt p = 2 ^ 12 * (2 ^ n * b) ∧ 2 ^ n * b = 2 ^ 18 + p ∧
      (b % 2 = 0 ↔ 2 ^ (n + 1) ∣ p) := by
  obtain ⟨c, rfl⟩ := hp
  have hpow : 2 ^ n * 2 ^ (18 - n) = 2 ^ 18 := by
    rw [← Nat.pow_add, Nat.add_sub_cancel' (by omega)]
  have heven : 2 ^ (18 - n) % 2 = 0 := by
    rw [show 18 - n = (17 - n) + 1 by omega, Nat.pow_succ, Nat.mul_mod_left]
  have heq : 2 ^ n * (2 ^ (18 - n) + c) = 2 ^ 18 + 2 ^ n * c := by rw [Nat.mul_add, hpow]
  refine ⟨2 ^ (18 - n) + c, ?_, heq, ?_⟩
  · rw [heq, pageToVirt, vmmStartVirt, Nat.mul_add]
    norm_num
  · rw [two_pow_succ_dvd_iff]
    omega

theorem allocsize_eq (n : Nat) : allocsize n = 2 ^ 12 * (2 ^ n * 1) := by
  rw [allocsize, Nat.shiftLeft_eq, Nat.mul_one]
  norm_num

/-- The block of order `n` with which the block at `p` makes up one of order `n + 1`. -/
theorem virtToPage_xor {n p : Nat} (hn : n < 12) (hp : 2 ^ n ∣ p) :
    virtToPage (pageToVirt p ^^^ allocsize n) = if 2 ^ (n + 1) ∣ p then p + 2 ^ n else p - 2 ^ n := by
  obtain ⟨b, hvirt, hb, hodd⟩ := pageToVirt_eq hn hp
  have hxor : pageToVirt p ^^^ allocsize n = 2 ^ 12 * (2 ^ n * (b ^^^ 1)) := by
    rw [hvirt, allocsize_eq]
    simp only [Nat.mul_comm (2 ^ _), ← Nat.shiftLeft_eq]
    rw [← Nat.shiftLeft_xor_distrib, ← Nat.shiftLeft_xor_distrib]
  have hpage : virtToPage (pageToVirt p ^^^ allocsize n) = 2 ^ n * (b ^^^ 1) - 2 ^ 18 := by
    rw [hxor, virtToPage, vmmStartVirt, Nat.shiftRight_eq_div_pow]
    omega
  rw [hpage, xor_one]
  by_cases h : 2 ^ (n + 1) ∣ p
  · rw [if_pos h, if_pos (hodd.mpr h), Nat.mul_succ]
    omega
  · rw [if_neg h, if_neg fun heven => h (hodd.mp heven), Nat.mul_sub_one]
    omega

theorem virt_and_allocsize {n p : Nat} (hn : n < 12) (hp : 2 ^ n ∣ p) :
    pageToVirt p &&& allocsize n ≠ 0 ↔ ¬ 2 ^ (n + 1) ∣ p := by
  obtain ⟨b, hvirt, -, hodd⟩ := pageToVirt_eq hn hp
  have hand : pageToVirt p &&& allocsize n = 2 ^ 12 * (2 ^ n * (b % 2)) := by
    rw [hvirt, allocsize_eq]
    simp only [Nat.mul_comm (2 ^ _), ← Nat.shiftLeft_eq]
    rw [← Nat.shiftLeft_and_distrib, ← Nat.shiftLeft_and_distrib, Nat.and_one_is_mod]
  have hpos := Nat.two_pow_pos n
  rw [hand, ← hodd, ne_eq, Nat.mul_eq_zero, Nat.mul_eq_zero]
  omega

/-! ### The invariant -/

/-- The blocks tile the pages, and the free lists are the free blocks by their order. -/
structure PageInv (s : PageAlloc) : Prop where
  tiling : Tiling numOfPages 12 (fun x => (s.page x).type ≠ .notHead) fun x => (s.page x).allocsize
  mem_freepage : ∀ k x, x ∈ s.freepage k ↔
    x < numOfPages ∧ (s.page x).type = .free ∧ (s.page x).allocsize = k
  nodup : ∀ k, (s.freepage k).Nodup
  reserved : ∀ x, (s.page x).type = .reserved → (s.page x).allocsize = 0

/-- Pages that callers hold or that the allocator does not manage. -/
def PageType.Kept (t : PageType) : Prop := t = .allocated ∨ t = .reserved

/-- Nothing is done to kept pages, and no page becomes one. -/
def SameKept (s s' : PageAlloc) : Prop :=
  ∀ x, (s.page x).type.Kept ∨ (s'.page x).type.Kept → s'.page x = s.page x

theorem SameKept.refl (s : PageAlloc) : SameKept s s := fun _ _ => rfl

theorem SameKept.trans {s s' s'' : PageAlloc} (h : SameKept s s') (h' : SameKept s' s'') :
    SameKept s s'' := by
  rintro x (hx | hx)
  · have heq := h x (Or.inl hx)
    exact (h' x (Or.inl (heq ▸ hx))).trans heq
  · have heq := h' x (Or.inr hx)
    exact heq.trans (h x (Or.inr (heq ▸ hx)))

section

variable {s s' : PageAlloc} {n p : Nat}

/-- A free page that is taken: it is on the list of its order, and nothing else changes. -/
theorem take_spec (h : PageInv s) {ok : Bool} (ht : s.take n = some (p, ok, s')) :
    PageInv s' ∧ ok = true ∧ p < numOfPages ∧ (s.page p).type = .free ∧ (s.page p).allocsize = n ∧
      s'.page = Function.update s.page p ⟨.allocated, n⟩ := by
  unfold PageAlloc.take at ht
  cases hlist : s.freepage n with
  | nil =>
    rw [hlist] at ht
    cases ht
  | cons q qs =>
    rw [hlist] at ht
    cases ht
    have hmem : p ∈ s.freepage n := hlist ▸ List.mem_cons_self
    have hnodup := h.nodup n
    rw [hlist, List.nodup_cons] at hnodup
    obtain ⟨hp, htype, hsize⟩ := (h.mem_freepage n p).mp hmem
    have hpage : Function.update s.page p { s.page p with type := .allocated } =
        Function.update s.page p ⟨.allocated, n⟩ := by simp only [hsize]
    refine ⟨⟨?_, fun k x => ?_, fun k => ?_, fun x => ?_⟩, ?_, hp, htype, hsize, hpage⟩
    · refine h.tiling.congr (fun x => ?_) fun x => ?_
      · simp only [PageAlloc.setType, Function.update_apply]
        split_ifs with heq
        · simp [heq, htype]
        · rfl
      · simp only [PageAlloc.setType, Function.update_apply]
        split_ifs with heq
        · rw [heq]
        · rfl
    · simp only [PageAlloc.setType, Function.update_apply]
      by_cases hk : k = n
      · subst hk
        have hold := h.mem_freepage k x
        rw [hlist, List.mem_cons] at hold
        rw [if_pos rfl]
        by_cases heq : x = p
        · simp [heq, hnodup.1]
        · simpa [heq] using hold
      · rw [if_neg hk, h.mem_freepage k x]
        by_cases heq : x = p
        · have hne : n ≠ k := fun h => hk h.symm
          simp [heq, hsize, hne]
        · simp [heq]
    · simp only [PageAlloc.setType, Function.update_apply]
      split_ifs
      · exact hnodup.2
      · exact h.nodup k
    · simp only [PageAlloc.setType, Function.update_apply]
      split_ifs
      · exact fun h => nomatch h
      · exact h.reserved x
    · rw [htype]
      rfl

/-! ### Free lists -/

theorem mem_add {k x : Nat} :
    x ∈ (s.add n p).freepage k ↔ x ∈ s.freepage k ∨ (k = n ∧ x = p) := by
  simp only [PageAlloc.add, Function.update_apply]
  split_ifs with hk
  · simp [hk]
  · simp [hk]

theorem mem_del (h : ∀ k, (s.freepage k).Nodup) {k x : Nat} :
    x ∈ (s.del n p).freepage k ↔ x ∈ s.freepage k ∧ ¬ (k = n ∧ x = p) := by
  simp only [PageAlloc.del, Function.update_apply]
  split_ifs with hk
  · rw [(h n).mem_erase_iff, hk]
    simp [and_comm]
  · simp [hk]

theorem nodup_add (h : ∀ k, (s.freepage k).Nodup) (hp : p ∉ s.freepage n) :
    ∀ k, ((s.add n p).freepage k).Nodup := by
  intro k
  simp only [PageAlloc.add, Function.update_apply]
  split_ifs
  · exact List.nodup_append.mpr ⟨h n, by simp, fun a ha b hb heq => by
      rw [List.mem_singleton.mp hb] at heq
      exact hp (heq ▸ ha)⟩
  · exact h k

theorem nodup_del (h : ∀ k, (s.freepage k).Nodup) : ∀ k, ((s.del n p).freepage k).Nodup := by
  intro k
  simp only [PageAlloc.del, Function.update_apply]
  split_ifs
  · exact (h n).erase p
  · exact h k

/-! ### Splitting -/

/-- A block that is split: both halves are free, and nothing else changes. -/
theorem split_spec (h : PageInv s) (hp : p < numOfPages) (htype : (s.page p).type = .allocated)
    (hsize : (s.page p).allocsize = n + 1) :
    PageInv (s.split n p) ∧ (s.page (p + 2 ^ n)).type = .notHead ∧
      (s.split n p).page = Function.update (Function.update s.page p ⟨.free, n⟩) (p + 2 ^ n) ⟨.free, n⟩ ∧
      p ∈ (s.split n p).freepage n := by
  have hhead : (s.page p).type ≠ .notHead := by rw [htype]; decide
  have hn : n < 12 := by
    have := h.tiling.order_le p hp hhead
    omega
  have hdvd : 2 ^ (n + 1) ∣ p := hsize ▸ h.tiling.aligned p hp hhead
  have hpow : 2 ^ (n + 1) = 2 ^ n + 2 ^ n := by rw [Nat.pow_succ, Nat.mul_two]
  have hpos := Nat.two_pow_pos n
  have hend : p + 2 ^ (n + 1) ≤ numOfPages := by
    rw [← hsize]
    exact h.tiling.end_le (by decide) hp hhead
  have hqhead : (s.page (p + 2 ^ n)).type = .notHead :=
    not_not.mp (h.tiling.inner p hp hhead (p + 2 ^ n) (by omega) (by rw [hsize]; omega)).1
  have hqsize : (s.page (p + 2 ^ n)).allocsize = n := h.tiling.order_half hp hhead hsize
  have hbuddy : virtToPage (pageToVirt p ^^^ allocsize n) = p + 2 ^ n := by
    rw [virtToPage_xor hn (Nat.dvd_trans (Nat.pow_dvd_pow 2 (Nat.le_succ n)) hdvd), if_pos hdvd]
  have hne : p + 2 ^ n ≠ p := by omega
  have hpage : (s.split n p).page =
      Function.update (Function.update s.page p ⟨.free, n⟩) (p + 2 ^ n) ⟨.free, n⟩ := by
    unfold PageAlloc.split
    rw [hbuddy]
    simp only [PageAlloc.add, PageAlloc.setType, PageAlloc.setAllocsize, Function.update_self,
      Function.update_of_ne hne, Function.update_idem, hqsize]
  have hlist : ∀ k x, x ∈ (s.split n p).freepage k ↔
      (x ∈ s.freepage k ∨ (k = n ∧ x = p)) ∨ (k = n ∧ x = p + 2 ^ n) := by
    intro k x
    unfold PageAlloc.split
    rw [hbuddy, mem_add, mem_add]
    rfl
  refine ⟨⟨?_, fun k x => ?_, ?_, fun x => ?_⟩, hqhead, hpage, (hlist n p).mpr (by simp)⟩
  · refine h.tiling.split (by decide) hp hhead hsize (fun z => ?_) fun z => ?_
    · rw [hpage]
      simp only [Function.update_apply]
      split_ifs with hq hz
      · simp [hq]
      · simp [hz, htype]
      · simp [hq]
    · rw [hpage]
      simp only [Function.update_apply]
      split_ifs with hq hz hz
      · exact absurd (hq.symm.trans hz) hne
      · rw [hq, hqsize]
      · rfl
      · rfl
  · rw [hlist, hpage, h.mem_freepage]
    simp only [Function.update_apply]
    have hpN : p + 2 ^ n < numOfPages := by omega
    by_cases hq : x = p + 2 ^ n
    · subst hq
      simp [hqhead, hpN, eq_comm]
    · by_cases hz : x = p
      · subst hz
        simp [htype, hp, eq_comm]
      · simp [hz, hq]
  · unfold PageAlloc.split
    rw [hbuddy]
    refine nodup_add (nodup_add h.nodup ?_) ?_
    · intro hmem
      have := ((h.mem_freepage n p).mp hmem).2.1
      rw [htype] at this
      cases this
    · rw [mem_add]
      rintro (hmem | ⟨-, heq⟩)
      · have := ((h.mem_freepage n _).mp hmem).2.1
        rw [hqhead] at this
        cases this
      · exact hne heq
  · rw [hpage]
    simp only [Function.update_apply]
    split_ifs
    · exact fun h => nomatch h
    · exact fun h => nomatch h
    · exact h.reserved x

/-! ### Merging -/

/-- What a round of the loop of `mm_page_free` does with the halves `p` and `q` of a block. -/
def mergeStep (s : PageAlloc) (n p q : Nat) : PageAlloc :=
  (((((s.del n p).del n q).setType q .notHead).setAllocsize p (n + 1)).add (n + 1) p)

/-- Two free blocks that are merged: one free block, and nothing else changes. -/
theorem mergeStep_spec (h : PageInv s) (hq : p + 2 ^ n < numOfPages) (hdvd : 2 ^ (n + 1) ∣ p)
    (hn : n < 12) (htype : (s.page p).type = .free) (hsize : (s.page p).allocsize = n)
    (hqtype : (s.page (p + 2 ^ n)).type = .free) (hqsize : (s.page (p + 2 ^ n)).allocsize = n) :
    PageInv (mergeStep s n p (p + 2 ^ n)) ∧ SameKept s (mergeStep s n p (p + 2 ^ n)) ∧
      ((mergeStep s n p (p + 2 ^ n)).page p).type = .free ∧
      ((mergeStep s n p (p + 2 ^ n)).page p).allocsize = n + 1 := by
  have hpos := Nat.two_pow_pos n
  have hne : p ≠ p + 2 ^ n := by omega
  have hp : p < numOfPages := by omega
  have hpage : (mergeStep s n p (p + 2 ^ n)).page =
      Function.update (Function.update s.page (p + 2 ^ n) ⟨.notHead, n⟩) p ⟨.free, n + 1⟩ := by
    simp only [mergeStep, PageAlloc.add, PageAlloc.setAllocsize, PageAlloc.setType, PageAlloc.del,
      Function.update_of_ne hne, htype, hqsize]
  have hlist : ∀ k x, x ∈ (mergeStep s n p (p + 2 ^ n)).freepage k ↔
      ((x ∈ s.freepage k ∧ ¬ (k = n ∧ x = p)) ∧ ¬ (k = n ∧ x = p + 2 ^ n)) ∨
        (k = n + 1 ∧ x = p) := by
    intro k x
    have hdel : x ∈ ((s.del n p).del n (p + 2 ^ n)).freepage k ↔
        (x ∈ s.freepage k ∧ ¬ (k = n ∧ x = p)) ∧ ¬ (k = n ∧ x = p + 2 ^ n) := by
      rw [mem_del (nodup_del h.nodup), mem_del h.nodup]
    unfold mergeStep
    rw [mem_add, ← hdel]
    rfl
  refine ⟨⟨?_, fun k x => ?_, ?_, fun x => ?_⟩, fun x hx => ?_, ?_, ?_⟩
  · refine h.tiling.merge hp hq (by rw [htype]; decide) (by rw [hqtype]; decide) hsize hqsize hdvd
      hn (fun z => ?_) fun z => ?_
    · rw [hpage]
      simp only [Function.update_apply]
      split_ifs with hz hz'
      · simp [hz, htype]
      · simp [hz']
      · simp [hz']
    · rw [hpage]
      simp only [Function.update_apply]
      split_ifs with hz hz'
      · rfl
      · rw [hz', hqsize]
      · rfl
  · rw [hlist, hpage, h.mem_freepage]
    simp only [Function.update_apply]
    by_cases hz : x = p
    · subst hz
      rw [if_pos rfl]
      constructor
      · rintro (⟨⟨⟨-, -, hk⟩, hnot⟩, -⟩ | ⟨hk, -⟩)
        · exact absurd ⟨hk.symm.trans hsize, rfl⟩ hnot
        · exact ⟨hp, rfl, hk.symm⟩
      · rintro ⟨-, -, hk⟩
        exact Or.inr ⟨hk.symm, rfl⟩
    · by_cases hz' : x = p + 2 ^ n
      · subst hz'
        simp [hqsize, eq_comm]
      · simp [hz, hz']
  · refine nodup_add (nodup_del (nodup_del h.nodup)) fun hmem => ?_
    have hold : p ∈ s.freepage (n + 1) :=
      ((mem_del h.nodup).mp ((mem_del (nodup_del h.nodup)).mp hmem).1).1
    have := ((h.mem_freepage (n + 1) p).mp hold).2.2
    omega
  · rw [hpage]
    simp only [Function.update_apply]
    split_ifs
    · exact fun h => nomatch h
    · exact fun h => nomatch h
    · exact h.reserved x
  · rw [hpage] at hx ⊢
    simp only [Function.update_apply] at hx ⊢
    split_ifs at hx ⊢ with hz hz'
    · rw [hz, htype] at hx
      exact absurd hx (by simp [PageType.Kept])
    · rw [hz', hqtype] at hx
      exact absurd hx (by simp [PageType.Kept])
    · rfl
  · rw [hpage, Function.update_self]
  · rw [hpage, Function.update_self]

theorem setType_page_of_ne {q : Nat} {t : PageType} (h : p ≠ q) :
    (s.setType q t).page p = s.page p := Function.update_of_ne h _ _

/-- The loop of `mm_page_free` from a free block on. -/
theorem mergeLoop_spec (fuel : Nat) (h : PageInv s) (hp : p < numOfPages)
    (htype : (s.page p).type = .free) (hsize : (s.page p).allocsize = n) :
    PageInv (mergeLoop fuel s p n) ∧ SameKept s (mergeLoop fuel s p n) := by
  induction fuel generalizing s p n with
  | zero => exact ⟨h, SameKept.refl s⟩
  | succ fuel ih =>
    rw [mergeLoop]
    dsimp only
    by_cases hmerge : n < numOfAllocsize - 1 ∧
      (s.page (virtToPage (pageToVirt p ^^^ allocsize n))).type = .free ∧
        (s.page (virtToPage (pageToVirt p ^^^ allocsize n))).allocsize = n
    · rw [if_pos hmerge]
      obtain ⟨hn, hqtype, hqsize⟩ := hmerge
      have hn : n < 12 := hn
      have hhead : (s.page p).type ≠ .notHead := by rw [htype]; decide
      have hdvd : 2 ^ n ∣ p := hsize ▸ h.tiling.aligned p hp hhead
      have hpow : 2 ^ (n + 1) = 2 ^ n + 2 ^ n := by rw [Nat.pow_succ, Nat.mul_two]
      have hpos := Nat.two_pow_pos n
      rw [virtToPage_xor hn hdvd] at hqtype hqsize ⊢
      by_cases hlow : 2 ^ (n + 1) ∣ p
      · -- `p` is the lower half
        rw [if_pos hlow] at hqtype hqsize
        have hN : 2 ^ (n + 1) ∣ numOfPages := Nat.pow_dvd_pow 2 (show n + 1 ≤ 15 by omega)
        have hend := add_le_of_dvd hlow hN hp
        have hend : p + 2 ^ n < numOfPages := by omega
        obtain ⟨hinv, hkept, htype', hsize'⟩ := mergeStep_spec h hend hlow hn htype hsize hqtype hqsize
        have hne : p ≠ p + 2 ^ n := by omega
        rw [if_neg (by rw [virt_and_allocsize hn hdvd]; exact not_not.mpr hlow), if_pos hlow]
        dsimp only
        have hstep : (((((s.del n p).del n (p + 2 ^ n)).setType (p + 2 ^ n) .notHead).page p).allocsize
            + 1) = n + 1 := by
          rw [setType_page_of_ne hne]
          exact congrArg (· + 1) hsize
        rw [hstep]
        obtain ⟨hinv', hkept'⟩ := ih hinv hp htype' hsize'
        exact ⟨hinv', hkept.trans hkept'⟩
      · -- `p` is the upper half
        rw [if_neg hlow] at hqtype hqsize
        obtain ⟨c, hc⟩ := hdvd
        have hodd : ¬ c % 2 = 0 := fun h => hlow (hc ▸ two_pow_succ_dvd_iff.2 h)
        have hge : 2 ^ n ≤ p := by
          rw [hc]
          exact Nat.le_mul_of_pos_right _ (by omega)
        have hlow' : 2 ^ (n + 1) ∣ p - 2 ^ n := by
          have heq : p - 2 ^ n = 2 ^ n * (c - 1) := by rw [Nat.mul_sub_one, hc]
          rw [heq, two_pow_succ_dvd_iff]
          omega
        have hback : p - 2 ^ n + 2 ^ n = p := Nat.sub_add_cancel hge
        obtain ⟨hinv, hkept, htype', hsize'⟩ := mergeStep_spec (p := p - 2 ^ n) h
          (by rw [hback]; exact hp) hlow' hn hqtype hqsize (by rw [hback]; exact htype)
          (by rw [hback]; exact hsize)
        rw [hback] at hinv hkept htype' hsize'
        have hne : p - 2 ^ n ≠ p := by omega
        rw [if_pos (by rw [virt_and_allocsize hn ⟨c, hc⟩]; exact hlow), if_neg hlow]
        dsimp only
        have hstep : (((((s.del n (p - 2 ^ n)).del n p).setType p .notHead).page
            (p - 2 ^ n)).allocsize + 1) = n + 1 := by
          rw [setType_page_of_ne hne]
          exact congrArg (· + 1) hqsize
        rw [hstep]
        obtain ⟨hinv', hkept'⟩ := ih hinv (by omega) htype' hsize'
        exact ⟨hinv', hkept.trans hkept'⟩
    · rw [if_neg hmerge]
      exact ⟨h, SameKept.refl s⟩

/-- A kept page that is freed: its block may become part of a larger one, and nothing is done to
other kept pages. -/
theorem mmPageFree_spec (h : PageInv s) (hp : p < numOfPages) (hkept : (s.page p).type.Kept) :
    PageInv (mmPageFree s p) ∧ ¬ ((mmPageFree s p).page p).type.Kept ∧
      ∀ x, x ≠ p → (s.page x).type.Kept ∨ ((mmPageFree s p).page x).type.Kept →
        (mmPageFree s p).page x = s.page x := by
  have hnot : (s.page p).type ≠ .free := by
    rcases hkept with heq | heq <;> rw [heq] <;> decide
  have hhead : (s.page p).type ≠ .notHead := by
    rcases hkept with heq | heq <;> rw [heq] <;> decide
  have hpage : ((s.setType p .free).add (s.page p).allocsize p).page =
      Function.update s.page p ⟨.free, (s.page p).allocsize⟩ := rfl
  have hfirst : PageInv ((s.setType p .free).add (s.page p).allocsize p) := by
    refine ⟨h.tiling.congr (fun z => ?_) fun z => ?_, fun k x => ?_, ?_, fun x => ?_⟩
    · rw [hpage, Function.update_apply]
      split_ifs with hz
      · simp [hz, hhead]
      · rfl
    · rw [hpage, Function.update_apply]
      split_ifs with hz
      · rw [hz]
      · rfl
    · rw [mem_add, hpage, Function.update_apply]
      have hold := h.mem_freepage k x
      by_cases hz : x = p
      · subst hz
        simp only [hnot, false_and, and_false, iff_false] at hold
        simp [PageAlloc.setType, hold, hp, eq_comm]
      · rw [if_neg hz, ← hold]
        exact or_iff_left fun hnew => hz hnew.2
    · refine nodup_add h.nodup fun hmem => hnot ((h.mem_freepage _ p).mp hmem).2.1
    · rw [hpage, Function.update_apply]
      split_ifs
      · exact fun h => nomatch h
      · exact h.reserved x
  have hself : ((s.setType p .free).add (s.page p).allocsize p).page p =
      ⟨.free, (s.page p).allocsize⟩ := by rw [hpage, Function.update_self]
  obtain ⟨hinv, hsame⟩ := mergeLoop_spec (n := (s.page p).allocsize) numOfAllocsize hfirst hp
    (by rw [hself]) (by rw [hself])
  refine ⟨hinv, fun hk => ?_, fun x hx hk => ?_⟩
  · have heq := hsame p (Or.inr hk)
    rw [hself] at heq
    change ((mergeLoop _ _ _ _).page p).type.Kept at hk
    rw [heq] at hk
    exact absurd hk (by simp [PageType.Kept])
  · have hne : ((s.setType p .free).add (s.page p).allocsize p).page x = s.page x := by
      rw [hpage, Function.update_of_ne hx]
    exact (hsame x (by rw [hne]; exact hk)).trans hne

/-! ### The pages that the allocator manages -/

theorem foldl_mmPageFree_spec {l : List Nat} (hl : l.Nodup) (h : PageInv s)
    (hlt : ∀ p ∈ l, p < numOfPages) (htype : ∀ p ∈ l, (s.page p).type = .reserved) :
    PageInv (l.foldl mmPageFree s) ∧ ∀ x, (x ∈ l → ¬ ((l.foldl mmPageFree s).page x).type.Kept) ∧
      (x ∉ l → (s.page x).type.Kept ∨ ((l.foldl mmPageFree s).page x).type.Kept →
        (l.foldl mmPageFree s).page x = s.page x) := by
  induction l generalizing s with
  | nil => exact ⟨h, fun x => ⟨fun hx => absurd hx List.not_mem_nil, fun _ _ => rfl⟩⟩
  | cons p l ih =>
    obtain ⟨hpl, hl⟩ := List.nodup_cons.mp hl
    obtain ⟨hinv, hp, hother⟩ := mmPageFree_spec h (hlt p List.mem_cons_self)
      (Or.inr (htype p List.mem_cons_self))
    have hrest : ∀ q ∈ l, ((mmPageFree s p).page q).type = .reserved := by
      intro q hq
      have hqtype := htype q (List.mem_cons_of_mem p hq)
      rw [hother q (fun heq => hpl (heq ▸ hq)) (Or.inl (Or.inr hqtype)), hqtype]
    obtain ⟨hinv', hx'⟩ := ih hl hinv (fun q hq => hlt q (List.mem_cons_of_mem p hq)) hrest
    rw [List.foldl_cons]
    refine ⟨hinv', fun x => ⟨fun hx hk => ?_, fun hx hk => ?_⟩⟩
    · rcases List.mem_cons.mp hx with rfl | hx
      · have heq := (hx' x).2 hpl (Or.inr hk)
        exact hp (heq ▸ hk)
      · exact (hx' x).1 hx hk
    · rw [List.mem_cons, not_or] at hx
      rcases hk with hk | hk
      · have heq := hother x hx.1 (Or.inl hk)
        exact ((hx' x).2 hx.2 (Or.inl (heq ▸ hk))).trans heq
      · have heq := (hx' x).2 hx.2 (Or.inr hk)
        exact heq.trans (hother x hx.1 (Or.inr (heq ▸ hk)))

/-- After `mm_init_global` the managed pages are in free blocks, and no other page is. -/
theorem mmInitGlobal_spec (img : VmmImage) : PageInv (mmInitGlobal img) ∧
    (∀ x, ((mmInitGlobal img).page x).type ≠ .allocated) ∧
    ∀ x, ((mmInitGlobal img).page x).type = .reserved ↔ ¬ (x < numOfPages ∧ img.Managed x) := by
  have hstart : PageInv { page := fun _ => ⟨.reserved, 0⟩, freepage := fun _ => [] } := by
    refine ⟨⟨fun x _ _ => Nat.zero_le _, fun x _ _ => Nat.one_dvd x, fun x _ _ y hxy hyx => ?_,
      fun y hy => ⟨y, hy, by simp, Nat.le_refl y, Nat.lt_succ_self y⟩⟩, by simp, by simp, by simp⟩
    have hlt : y < x + 1 := hyx
    omega
  have hmem : ∀ x, x ∈ (List.range numOfPages).filter (fun i => decide (img.Managed i)) ↔
      x < numOfPages ∧ img.Managed x := by
    intro x
    rw [List.mem_filter, List.mem_range, decide_eq_true_iff]
  have hnodup := List.nodup_range (n := numOfPages).filter fun i => decide (img.Managed i)
  unfold mmInitGlobal
  generalize (List.range numOfPages).filter (fun i => decide (img.Managed i)) = l at *
  obtain ⟨hinv, hx⟩ := foldl_mmPageFree_spec hnodup hstart (fun p hp => ((hmem p).mp hp).1)
    fun _ _ => rfl
  refine ⟨hinv, fun x htype => ?_, fun x => ?_⟩
  · by_cases hin : x ∈ l
    · exact (hx x).1 hin (Or.inl htype)
    · rw [(hx x).2 hin (Or.inl (Or.inr rfl))] at htype
      cases htype
  · rw [← hmem]
    by_cases hin : x ∈ l
    · exact iff_of_false (fun htype => (hx x).1 hin (Or.inr htype)) (not_not.mpr hin)
    · refine iff_of_true ?_ hin
      rw [(hx x).2 hin (Or.inl (Or.inr rfl))]

/-! ### A call that is not interrupted -/

theorem take_eq_none : s.take n = none ↔ s.freepage n = [] := by
  unfold PageAlloc.take
  cases s.freepage n <;> simp

/-- There is no block of order `n` or more. -/
def Exhausted (s : PageAlloc) (n : Nat) : Prop := ∀ k, n ≤ k → k < numOfAllocsize → s.freepage k = []

theorem mmPageAlloc_of_exhausted (fuel : Nat) (hfuel : fuel + n = numOfAllocsize)
    (h : Exhausted s n) : mmPageAlloc fuel s n = none := by
  induction fuel generalizing n with
  | zero => rfl
  | succ fuel ih =>
    have htake : s.take n = none := take_eq_none.2 (h n (Nat.le_refl n) (by omega))
    rw [mmPageAlloc, htake]
    dsimp only
    rw [ih (by omega) fun k hk => h k (by omega)]
    rfl

/-- A block that is returned: it was not kept, and nothing is done to other kept pages. -/
structure Returned (s s' : PageAlloc) (n p : Nat) : Prop where
  pages : PageInv s'
  lt : p < numOfPages
  new : ¬ (s.page p).type.Kept
  page : s'.page p = ⟨.allocated, n⟩
  other : ∀ x, x ≠ p → (s.page x).type.Kept ∨ (s'.page x).type.Kept → s'.page x = s.page x

theorem returned_of_take (h : PageInv s) {ok : Bool} (ht : s.take n = some (p, ok, s')) :
    ok = true ∧ Returned s s' n p := by
  obtain ⟨hpages, hok, hlt, htype, -, hpage⟩ := take_spec h ht
  refine ⟨hok, hpages, hlt, ?_, ?_, fun x hx _ => ?_⟩
  · rw [htype]
    simp [PageType.Kept]
  · rw [hpage, Function.update_self]
  · rw [hpage, Function.update_of_ne hx]

/-- A call that is not interrupted returns a block, unless there is none that is large enough. -/
theorem mmPageAlloc_spec (fuel : Nat) (hfuel : fuel + n = numOfAllocsize) (h : PageInv s) :
    Exhausted s n ∨ ∃ p s', mmPageAlloc fuel s n = some (p, s') ∧ Returned s s' n p := by
  induction fuel generalizing n with
  | zero => exact Or.inl fun k hk hlt => by omega
  | succ fuel ih =>
    rw [mmPageAlloc]
    cases htake : s.take n with
    | some r =>
      obtain ⟨p, ok, s'⟩ := r
      obtain ⟨rfl, hret⟩ := returned_of_take h htake
      exact Or.inr ⟨p, s', rfl, hret⟩
    | none =>
      dsimp only
      rcases ih (n := n + 1) (by omega) with hnone | ⟨p, s₁, halloc, hret⟩
      · left
        intro k hk hlt
        rcases Nat.eq_or_lt_of_le hk with rfl | hlt'
        · exact take_eq_none.1 htake
        · exact hnone k hlt' hlt
      · right
        have htype : (s₁.page p).type = .allocated := by rw [hret.page]
        have hsize : (s₁.page p).allocsize = n + 1 := by rw [hret.page]
        obtain ⟨hpages, hhalf, hpage, hmem⟩ := split_spec hret.pages hret.lt htype hsize
        cases htake' : (s₁.split n p).take n with
        | none =>
          rw [take_eq_none.1 htake'] at hmem
          exact absurd hmem List.not_mem_nil
        | some r =>
          obtain ⟨q, ok, s'⟩ := r
          obtain ⟨rfl, hret'⟩ := returned_of_take hpages htake'
          rw [halloc, Option.bind_some, htake', Option.bind_some]
          refine ⟨q, s', rfl, hret'.pages, hret'.lt, fun hk => ?_, hret'.page, fun x hx hk => ?_⟩
          · -- a page that was kept is still kept after the split
            have hqp : q ≠ p := fun heq => hret.new (heq ▸ hk)
            have heq := hret.other q hqp (Or.inl hk)
            refine hret'.new ?_
            rw [hpage]
            simp only [Function.update_apply, if_neg hqp]
            split_ifs with hq
            · rw [← hq, heq] at hhalf
              rw [hhalf] at hk
              exact absurd hk (by simp [PageType.Kept])
            · rw [heq]
              exact hk
          · have hsplit : (s.page x).type.Kept ∨ ((s₁.split n p).page x).type.Kept →
                (s₁.split n p).page x = s.page x := by
              intro hk
              rw [hpage] at hk ⊢
              simp only [Function.update_apply] at hk ⊢
              split_ifs at hk ⊢ with hxq hxp
              · rcases hk with hk | hk
                · have hne : x ≠ p := fun heq => hret.new (heq ▸ hk)
                  have heq := hret.other x hne (Or.inl hk)
                  rw [← hxq, heq] at hhalf
                  rw [hhalf] at hk
                  exact absurd hk (by simp [PageType.Kept])
                · exact absurd hk (by simp [PageType.Kept])
              · rcases hk with hk | hk
                · exact absurd (hxp ▸ hk) hret.new
                · exact absurd hk (by simp [PageType.Kept])
              · exact hret.other x hxp hk
            rcases hk with hk | hk
            · have heq := hsplit (Or.inl hk)
              exact (hret'.other x hx (Or.inl (heq ▸ hk))).trans heq
            · have heq := hret'.other x hx (Or.inr hk)
              exact heq.trans (hsplit (Or.inr (heq ▸ hk)))

end

end OnDemandVirt.Vmm
