import OnDemandVirt.Vmm.HeapBlocks

/-!
# The lengths of heap blocks

`alloc_pages` computes the bytes of a request in a signed 32-bit word. From 2^31 - 4095 bytes on that
word is negative or zero for `alloc`, and the smallest block there is is returned. Below, blocks are
at least as long as asked for.
-/

namespace OnDemandVirt.Vmm

/-- All of `len` bytes at `a` are within the block. -/
def Fits (h : Heap) (a len : Nat) : Prop :=
  len ≤ (getAllocLen h a).1.toNat ∧ (a % 4096 ≠ 0 → a % 4096 + len ≤ 4096)

/-- A call fails visibly, or it returns a block of `len` bytes at least. -/
def Meets (r : Option (Nat × Heap)) (len : BitVec 32) : Prop :=
  ∀ a h', r = some (a, h') → a = 0 ∨ Fits h' a len.toNat

/-- The length does not wrap, or there is no block at all. -/
def Sized (h : Heap) (len : BitVec 32) : Prop := len ≤ 0x7FFFF000 ∨ Exhausted h.pages 0

/-- A call for `n` pages fails visibly, or it returns a block of that many. -/
def MeetsPages (h : Heap) (n : BitVec 32) : Prop :=
  ∀ a h', allocPages h n = some (a, h') → n.toInt * 4096 ≤ (getAllocLen h' a).1.toNat

/-- The number of bytes does not wrap, or no block is free that the wrapped number allows. -/
def SizedPages (h : Heap) (n : BitVec 32) : Prop :=
  n.toInt < 2 ^ 19 ∨
    ∀ k < numOfAllocsize, (n * 0x1000).toInt ≤ allocsize k → h.pages.freepage k = []

/-! ### Orders of blocks -/

theorem toInt_allocsize {k : Nat} (hk : k < numOfAllocsize) :
    (BitVec.ofNat 32 (allocsize k)).toInt = allocsize k := by
  have hall : ∀ k < numOfAllocsize, (BitVec.ofNat 32 (allocsize k)).toInt = allocsize k := by decide
  exact hall k hk

theorem allocsize_le {k : Nat} (hk : k < numOfAllocsize) : 4096 ≤ allocsize k ∧ allocsize k ≤ 2 ^ 24 := by
  have hall : ∀ k < numOfAllocsize, 4096 ≤ allocsize k ∧ allocsize k ≤ 2 ^ 24 := by decide
  exact hall k hk

theorem allocsize_mono {j k : Nat} (h : j ≤ k) : allocsize j ≤ allocsize k := by
  rw [allocsize, allocsize, Nat.shiftLeft_eq, Nat.shiftLeft_eq]
  exact Nat.mul_le_mul_left _ (Nat.pow_le_pow_right (by decide) h)

/-- The order is that of the smallest blocks that the wrapped number of bytes allows. -/
theorem pageOrder_eq_some_iff {n : BitVec 32} {k : Nat} : pageOrder n = some k ↔
    k < numOfAllocsize ∧ (n * 0x1000).toInt ≤ allocsize k ∧
      ∀ j < k, (allocsize j : Int) < (n * 0x1000).toInt := by
  have hsle : ∀ j < numOfAllocsize, (n * 0x1000).sle (BitVec.ofNat 32 (allocsize j)) =
      decide ((n * 0x1000).toInt ≤ allocsize j) := by
    intro j hj
    rw [BitVec.sle_eq_decide, toInt_allocsize hj]
  unfold pageOrder
  rw [List.find?_range_eq_some]
  constructor
  · rintro ⟨hk, hmem, hfirst⟩
    have hlt := List.mem_range.mp hmem
    rw [hsle k hlt, decide_eq_true_iff] at hk
    refine ⟨hlt, hk, fun j hj => ?_⟩
    have hnot := hfirst j hj
    rw [hsle j (Nat.lt_trans hj hlt)] at hnot
    simpa using hnot
  · rintro ⟨hlt, hk, hfirst⟩
    refine ⟨?_, List.mem_range.mpr hlt, fun j hj => ?_⟩
    · rw [hsle k hlt, decide_eq_true_iff]
      exact hk
    · rw [hsle j (Nat.lt_trans hj hlt)]
      simpa using hfirst j hj

/-- The bytes of the pages for a length that does not wrap. -/
theorem toInt_pages_of_le {len : BitVec 32} (h : len ≤ 0x7FFFF000) :
    (len.toNat : Int) ≤ ((len + 4095) / 4096 * 0x1000).toInt := by
  have hle : len.toNat ≤ 0x7FFFF000 := BitVec.le_def.mp h
  have hnat : ((len + 4095) / 4096 * 0x1000).toNat = (len.toNat + 4095) / 4096 * 4096 := by
    simp only [BitVec.toNat_mul, BitVec.toNat_udiv, BitVec.toNat_add, BitVec.reduceToNat]
    omega
  rw [BitVec.toInt_eq_toNat_cond, hnat, if_pos (by omega)]
  omega

/-- The bytes of the pages for a length that wraps. -/
theorem toInt_pages_of_gt {len : BitVec 32} (h : ¬ len ≤ 0x7FFFF000) :
    ((len + 4095) / 4096 * 0x1000).toInt ≤ 0 := by
  have hgt : 0x7FFFF000 < len.toNat := Nat.lt_of_not_le fun hle => h (BitVec.le_def.mpr hle)
  have hlt := len.isLt
  have hnat : ((len + 4095) / 4096 * 0x1000).toNat = (len.toNat + 4095) % 2 ^ 32 / 4096 * 4096 := by
    simp only [BitVec.toNat_mul, BitVec.toNat_udiv, BitVec.toNat_add, BitVec.reduceToNat]
    omega
  rw [BitVec.toInt_eq_toNat_cond, hnat]
  split_ifs <;> omega

/-! ### Requests -/

section

variable {cls : Nat → Option Nat} {h h' : Heap} {live : Nat → Option Nat} {a : Nat}

theorem HeapInv.fits (hinv : HeapInv cls h live) {size len : Nat} (hb : BlockOf cls h a size)
    (hle : len ≤ size) : Fits h a len := by
  obtain ⟨hlen, hend⟩ := hinv.getAllocLen hb
  refine ⟨hlen ▸ hle, fun ho => ?_⟩
  have := hend ho
  omega

/-- Pages are a block that no caller has, of the order that was looked for. -/
theorem HeapInv.allocPages (hinv : HeapInv cls h live) {n : BitVec 32}
    (ha : Vmm.allocPages h n = some (a, h')) : ∃ k, pageOrder n = some k ∧ ¬ Exhausted h.pages k ∧
      HeapInv cls h' live ∧ live a = none ∧ BlockOf cls h' a (allocsize k) := by
  obtain ⟨k, p, pages, hk, hp, rfl, rfl⟩ := allocPages_eq_some ha
  have hlt := (pageOrder_eq_some_iff.1 hk).1
  have hret := returned_of_mmPageAlloc hinv.pages hlt hp
  obtain ⟨hinv', hcls, hlive⟩ := hinv.takePages hret
  refine ⟨k, hk, fun hnone => ?_, hinv', hlive, .pages hcls hlt hret.page⟩
  rw [mmPageAlloc_of_exhausted _ (Nat.sub_add_cancel (Nat.le_of_lt hlt)) hnone] at hp
  cases hp

/-- There are pages unless there is no block that is large enough. -/
theorem HeapInv.allocPages_isSome (hinv : HeapInv cls h live) {n : BitVec 32} {k : Nat}
    (hk : pageOrder n = some k) (hsome : ¬ Exhausted h.pages k) :
    ∃ a h', Vmm.allocPages h n = some (a, h') := by
  have hlt := (pageOrder_eq_some_iff.1 hk).1
  rcases mmPageAlloc_spec (numOfAllocsize - k) (Nat.sub_add_cancel (Nat.le_of_lt hlt)) hinv.pages with
    hnone | ⟨p, pages, hp, -⟩
  · exact absurd hnone hsome
  · unfold Vmm.allocPages
    rw [hk]
    dsimp only
    rw [hp]
    exact ⟨_, _, rfl⟩

theorem HeapInv.meetsPages_iff (hinv : HeapInv cls h live) (n : BitVec 32) :
    MeetsPages h n ↔ SizedPages h n := by
  constructor
  · intro hmeets
    by_contra hnot
    obtain ⟨hge, hfree⟩ := not_or.mp hnot
    push Not at hfree
    obtain ⟨k, hk, hs, hne⟩ := hfree
    obtain ⟨i, hi, hik⟩ : ∃ i, pageOrder n = some i ∧ i ≤ k := by
      cases horder : pageOrder n with
      | none =>
        unfold pageOrder at horder
        have hnone := List.find?_eq_none.mp horder k (List.mem_range.mpr hk)
        rw [BitVec.sle_eq_decide, toInt_allocsize hk, decide_eq_true_iff] at hnone
        exact absurd hs hnone
      | some i =>
        refine ⟨i, rfl, Nat.le_of_not_lt fun hlt => ?_⟩
        have := (pageOrder_eq_some_iff.1 horder).2.2 k hlt
        omega
    obtain ⟨a, h', ha⟩ := hinv.allocPages_isSome hi fun hnone => hne (hnone k hik hk)
    obtain ⟨j, hj, -, hinv', -, hb⟩ := hinv.allocPages ha
    rw [hi] at hj
    cases hj
    have hle := hmeets a h' ha
    rw [(hinv'.getAllocLen hb).1] at hle
    have := (allocsize_le (pageOrder_eq_some_iff.1 hi).1).2
    omega
  · intro hsized a h' ha
    obtain ⟨k, hk, hsome, hinv', -, hb⟩ := hinv.allocPages ha
    obtain ⟨hlt, hs, -⟩ := pageOrder_eq_some_iff.1 hk
    rw [(hinv'.getAllocLen hb).1]
    rcases hsized with hn | hnone
    · have hrange := BitVec.toInt_mul n 0x1000
      rw [show (0x1000 : BitVec 32).toInt = 4096 from rfl] at hrange
      by_cases hpos : 0 ≤ n.toInt
      · rw [Int.bmod_eq_of_le (by omega) (by omega)] at hrange
        omega
      · omega
    · refine absurd (fun j hkj hj => hnone j hj ?_) hsome
      have := allocsize_mono hkj
      omega

/-- What `alloc` returns no caller has; its length is right unless the one that was asked for
wraps, and then it is one page. -/
theorem HeapInv.alloc (hinv : HeapInv cls h live) {len : BitVec 32}
    (ha : Vmm.alloc h len = some (a, h')) : ∃ cls' size, HeapInv cls' h' live ∧ live a = none ∧
      BlockOf cls' h' a size ∧ (len ≤ 0x7FFFF000 → len.toNat ≤ size) ∧
        (¬ len ≤ 0x7FFFF000 → size = 4096) := by
  unfold Vmm.alloc at ha
  cases hi : (List.range numOfAlloclist).find? fun i => len ≤ BitVec.ofNat 32 (alloclistSize i) with
  | some i =>
    rw [hi] at ha
    have hi7 := List.mem_range.mp (List.mem_of_find?_eq_some hi)
    have hle := List.find?_some hi
    obtain ⟨cls', hinv', hlive, hb⟩ := hinv.allocLoop hi7 _ rfl ha
    have hall : ∀ i < numOfAlloclist, (BitVec.ofNat 32 (alloclistSize i)).toNat = alloclistSize i ∧
        BitVec.ofNat 32 (alloclistSize i) ≤ 0x7FFFF000 := by decide
    obtain ⟨hsize, hsmall⟩ := hall i hi7
    have hle : len ≤ BitVec.ofNat 32 (alloclistSize i) := by simpa using hle
    refine ⟨cls', _, hinv', hlive, hb, fun _ => ?_, fun hnot => absurd (BitVec.le_trans hle hsmall) hnot⟩
    rw [← hsize]
    exact BitVec.le_def.mp hle
  | none =>
    rw [hi] at ha
    obtain ⟨k, hk, -, hinv', hlive, hb⟩ := hinv.allocPages ha
    obtain ⟨hlt, hs, hfirst⟩ := pageOrder_eq_some_iff.1 hk
    refine ⟨cls, _, hinv', hlive, hb, fun hle => ?_, fun hnot => ?_⟩
    · have := toInt_pages_of_le hle
      omega
    · have hzero := toInt_pages_of_gt hnot
      have hk0 : k = 0 := by
        by_contra hne
        have := hfirst 0 (Nat.pos_of_ne_zero hne)
        have : (0 : Int) ≤ allocsize 0 := Int.natCast_nonneg _
        omega
      rw [hk0]
      rfl

/-- `alloc` of a length that wraps goes to `alloc_pages`. -/
theorem alloc_of_gt {len : BitVec 32} (hlen : ¬ len ≤ 0x7FFFF000) :
    Vmm.alloc h len = Vmm.allocPages h ((len + 4095) / 4096) := by
  have hnone : (List.range numOfAlloclist).find?
      (fun i => len ≤ BitVec.ofNat 32 (alloclistSize i)) = none := by
    refine List.find?_eq_none.mpr fun i hi hle => hlen ?_
    have hall : ∀ i < numOfAlloclist, BitVec.ofNat 32 (alloclistSize i) ≤ 0x7FFFF000 := by decide
    exact BitVec.le_trans (by simpa using hle) (hall i (List.mem_range.mp hi))
  unfold Vmm.alloc
  rw [hnone]

/-- `alloc` of a length that wraps returns a block if there is any. -/
theorem HeapInv.alloc_isSome (hinv : HeapInv cls h live) {len : BitVec 32}
    (hlen : ¬ len ≤ 0x7FFFF000) (hsome : ¬ Exhausted h.pages 0) :
    ∃ a h', Vmm.alloc h len = some (a, h') := by
  have hzero := toInt_pages_of_gt hlen
  have horder : pageOrder ((len + 4095) / 4096) = some 0 := by
    refine pageOrder_eq_some_iff.2 ⟨by decide, ?_, fun j hj => absurd hj (Nat.not_lt_zero j)⟩
    have : (0 : Int) ≤ allocsize 0 := Int.natCast_nonneg _
    omega
  rw [alloc_of_gt hlen]
  exact hinv.allocPages_isSome horder hsome

theorem HeapInv.exhausted (hinv : HeapInv cls h live) {len : BitVec 32} (hlen : ¬ len ≤ 0x7FFFF000)
    (hnone : Exhausted h.pages 0) : Vmm.alloc h len = none := by
  cases ha : Vmm.alloc h len with
  | none => rfl
  | some r =>
    obtain ⟨a, h'⟩ := r
    rw [alloc_of_gt hlen] at ha
    obtain ⟨k, -, hsome, -⟩ := hinv.allocPages ha
    exact absurd (fun j _ hj => hnone j (Nat.zero_le j) hj) hsome

theorem pageToVirt_ne (p : Nat) : pageToVirt p ≠ 0 := by
  rw [pageToVirt, vmmStartVirt]
  omega

theorem BlockOf.ne_zero {size : Nat} (hb : BlockOf cls h a size) : a ≠ 0 := by
  cases hb with
  | small =>
    exact fun h => absurd (Nat.eq_zero_of_add_eq_zero h).1 (pageToVirt_ne _)
  | pages => exact pageToVirt_ne _

/-- A block whose length is right unless the one that was asked for wraps. -/
theorem meets_of_block {r : Option (Nat × Heap)} {len : BitVec 32} (hlen : len ≤ 0x7FFFF000)
    (hr : ∀ a h', r = some (a, h') → a = 0 ∨ ∃ cls live size, HeapInv cls h' live ∧
      BlockOf cls h' a size ∧ (len ≤ 0x7FFFF000 → len.toNat ≤ size)) : Meets r len := by
  intro a h' ha
  rcases hr a h' ha with hzero | ⟨cls, live, size, hinv, hb, hle⟩
  · exact Or.inl hzero
  · exact Or.inr (hinv.fits hb (hle hlen))

theorem not_meets_of_page {r : Option (Nat × Heap)} {len : BitVec 32} (hlen : ¬ len ≤ 0x7FFFF000)
    (hr : r = some (a, h')) (hinv : HeapInv cls h' live) (hb : BlockOf cls h' a 4096) :
    ¬ Meets r len := by
  intro hmeets
  rcases hmeets a h' hr with hzero | hfits
  · exact hb.ne_zero hzero
  · have hgt : 0x7FFFF000 < len.toNat := Nat.lt_of_not_le fun hle => hlen (BitVec.le_def.mpr hle)
    have hle := hfits.1
    rw [(hinv.getAllocLen hb).1] at hle
    omega

theorem HeapInv.meets_alloc_iff (hinv : HeapInv cls h live) (len : BitVec 32) :
    Meets (Vmm.alloc h len) len ↔ Sized h len := by
  by_cases hlen : len ≤ 0x7FFFF000
  · refine iff_of_true (meets_of_block hlen fun a h' ha => Or.inr ?_) (Or.inl hlen)
    obtain ⟨cls', size, hinv', -, hb, hle, -⟩ := hinv.alloc ha
    exact ⟨cls', live, size, hinv', hb, hle⟩
  · by_cases hnone : Exhausted h.pages 0
    · refine iff_of_true (fun a h' ha => ?_) (Or.inr hnone)
      rw [hinv.exhausted hlen hnone] at ha
      cases ha
    · refine iff_of_false ?_ (not_or.mpr ⟨hlen, hnone⟩)
      obtain ⟨a, h', ha⟩ := hinv.alloc_isSome hlen hnone
      obtain ⟨cls', size, hinv', -, hb, -, hpage⟩ := hinv.alloc ha
      exact not_meets_of_page hlen ha hinv' (hpage hlen ▸ hb)

/-! ### Moving blocks -/

/-- A block that is moved: the old one is free, and the new one is as `alloc` returned it. -/
theorem HeapInv.moveBlock (hinv : HeapInv cls h live) {virt oldlen : Nat} {len : BitVec 32}
    (hvirt : live virt = some oldlen) (ha : Vmm.moveBlock h virt len = some (a, h')) :
    ∃ cls' size, HeapInv cls' h' (Function.update (Function.update live virt none) a (some size)) ∧
      BlockOf cls' h' a size ∧ (len ≤ 0x7FFFF000 → len.toNat ≤ size) ∧
        (¬ len ≤ 0x7FFFF000 → size = 4096) := by
  obtain ⟨⟨b, h₁⟩, halloc, hrest⟩ := Option.bind_eq_some_iff.mp ha
  obtain ⟨h₂, hfree, heq⟩ := Option.map_eq_some_iff.mp hrest
  cases heq
  obtain ⟨cls', size, hinv₁, hlive, hb, hle, hpage⟩ := hinv.alloc halloc
  have hne : virt ≠ a := by
    rintro rfl
    rw [hlive] at hvirt
    cases hvirt
  have hadd := hinv₁.addLive hb
  obtain ⟨h₃, hfree', hinv₂⟩ := hadd.heapFree
    ((Function.update_of_ne hne _ _).trans hvirt)
  have heq : h₃ = h' := Option.some.inj (hfree'.symm.trans hfree)
  subst heq
  rw [Function.update_comm hne.symm] at hinv₂
  exact ⟨cls', size, hinv₂, hinv₂.live a size (Function.update_self _ _ _), hle, hpage⟩

theorem HeapInv.moveBlock_isSome (hinv : HeapInv cls h live) {virt oldlen : Nat} {len : BitVec 32}
    (hvirt : live virt = some oldlen) (ha : ∃ a h', Vmm.alloc h len = some (a, h')) :
    ∃ a h', Vmm.moveBlock h virt len = some (a, h') := by
  obtain ⟨a, h₁, halloc⟩ := ha
  obtain ⟨cls', size, hinv₁, hlive, hb, -, -⟩ := hinv.alloc halloc
  have hne : virt ≠ a := by
    rintro rfl
    rw [hlive] at hvirt
    cases hvirt
  obtain ⟨h₂, hfree, -⟩ := (hinv₁.addLive hb).heapFree
    ((Function.update_of_ne hne _ _).trans hvirt)
  refine ⟨a, h₂, ?_⟩
  unfold Vmm.moveBlock
  rw [halloc, Option.bind_some]
  dsimp only
  rw [hfree]
  rfl

/-- `realloc` of a block that a caller has: the block is free then, unless it is returned. -/
theorem HeapInv.realloc (hinv : HeapInv cls h live) {virt oldlen : Nat} {len : BitVec 32}
    (hvirt : live virt = some oldlen) (ha : Vmm.realloc h virt len = some (a, h')) :
    (a = 0 ∧ HeapInv cls h' (Function.update live virt none)) ∨
      ∃ cls' size, HeapInv cls' h' (Function.update (Function.update live virt none) a (some size)) ∧
        BlockOf cls' h' a size ∧ (len ≤ 0x7FFFF000 → len.toNat ≤ size) := by
  have hblock := hinv.live virt oldlen hvirt
  have hkeep : len ≤ (Vmm.getAllocLen h virt).1 → ∃ cls' size, HeapInv cls' h
      (Function.update (Function.update live virt none) virt (some size)) ∧ BlockOf cls' h virt size ∧
        (len ≤ 0x7FFFF000 → len.toNat ≤ size) := by
    intro hle
    refine ⟨cls, oldlen, by rw [Function.update_idem]; exact hinv.addLive hblock, hblock, fun _ => ?_⟩
    rw [← (hinv.getAllocLen hblock).1]
    exact BitVec.le_def.mp hle
  have hmove : ∀ {a h'}, Vmm.moveBlock h virt len = some (a, h') → ∃ cls' size, HeapInv cls' h'
      (Function.update (Function.update live virt none) a (some size)) ∧ BlockOf cls' h' a size ∧
        (len ≤ 0x7FFFF000 → len.toNat ≤ size) := by
    intro a h' ha
    obtain ⟨cls', size, hinv', hb, hle, -⟩ := hinv.moveBlock hvirt ha
    exact ⟨cls', size, hinv', hb, hle⟩
  unfold Vmm.realloc at ha
  rw [if_neg fun h => hblock.ne_zero h.1, if_neg hblock.ne_zero] at ha
  by_cases hzero : len = 0
  · rw [if_pos hzero] at ha
    obtain ⟨h₁, hfree, heq⟩ := Option.map_eq_some_iff.mp ha
    cases heq
    obtain ⟨h₂, hfree', hinv'⟩ := hinv.heapFree hvirt
    have heq : h₂ = h' := Option.some.inj (hfree'.symm.trans hfree)
    exact Or.inl ⟨rfl, heq ▸ hinv'⟩
  · rw [if_neg hzero] at ha
    right
    dsimp only at ha
    split_ifs at ha with hsame hgrow hsmaller
    · cases ha
      exact hkeep (BitVec.le_of_eq hsame.symm)
    · exact hmove ha
    · cases ha
      exact hkeep (BitVec.not_lt.mp hgrow)
    · exact hmove ha

/-- `realloc` of a length that wraps is `alloc` of it. -/
theorem HeapInv.realloc_of_gt (hinv : HeapInv cls h live) {virt oldlen : Nat} {len : BitVec 32}
    (hvirt : live virt = some oldlen) (hlen : ¬ len ≤ 0x7FFFF000) :
    Vmm.realloc h virt len = Vmm.moveBlock h virt len := by
  have hblock := hinv.live virt oldlen hvirt
  have hle := hblock.size_le hinv.cls_lt
  have hold := (hinv.getAllocLen hblock).1
  have hgt : 0x7FFFF000 < len.toNat := Nat.lt_of_not_le fun hle => hlen (BitVec.le_def.mpr hle)
  unfold Vmm.realloc
  dsimp only
  rw [if_neg fun h => hblock.ne_zero h.1, if_neg hblock.ne_zero, if_neg, if_neg, if_pos]
  · rw [BitVec.lt_def]
    omega
  · intro heq
    rw [heq] at hold
    omega
  · rintro rfl
    exact absurd hgt (by decide)

theorem HeapInv.meets_realloc_iff (hinv : HeapInv cls h live) {virt : Nat}
    (hvirt : virt = 0 ∨ (live virt).isSome = true) (len : BitVec 32) :
    Meets (Vmm.realloc h virt len) len ↔ Sized h len := by
  rcases hvirt with rfl | hvirt
  · by_cases hzero : len = 0
    · subst hzero
      refine iff_of_true (fun a h' ha => ?_) (Or.inl (by decide))
      unfold Vmm.realloc at ha
      rw [if_pos ⟨rfl, rfl⟩] at ha
      cases ha
      exact Or.inl rfl
    · have heq : Vmm.realloc h 0 len = Vmm.alloc h len := by
        unfold Vmm.realloc
        rw [if_neg fun h => hzero h.2, if_pos rfl]
      rw [heq]
      exact hinv.meets_alloc_iff len
  · obtain ⟨oldlen, hvirt⟩ := Option.isSome_iff_exists.mp hvirt
    by_cases hlen : len ≤ 0x7FFFF000
    · refine iff_of_true (meets_of_block hlen fun a h' ha => ?_) (Or.inl hlen)
      rcases hinv.realloc hvirt ha with ⟨hzero, -⟩ | ⟨cls', size, hinv', hb, hle⟩
      · exact Or.inl hzero
      · exact Or.inr ⟨cls', _, size, hinv', hb, hle⟩
    · rw [hinv.realloc_of_gt hvirt hlen]
      by_cases hnone : Exhausted h.pages 0
      · refine iff_of_true (fun a h' ha => ?_) (Or.inr hnone)
        unfold Vmm.moveBlock at ha
        rw [hinv.exhausted hlen hnone] at ha
        cases ha
      · refine iff_of_false ?_ (not_or.mpr ⟨hlen, hnone⟩)
        obtain ⟨a, h', ha⟩ := hinv.moveBlock_isSome hvirt (hinv.alloc_isSome hlen hnone)
        obtain ⟨cls', size, hinv', hb, -, hpage⟩ := hinv.moveBlock hvirt ha
        exact not_meets_of_page hlen ha hinv' (hpage hlen ▸ hb)

end

/-! ### Runs of the heap -/

/-- The heap and the blocks that callers have, with their lengths. -/
structure HeapRun where
  heap : Heap
  live : Nat → Option Nat

/-- A block is returned to a caller. -/
def HeapRun.ret (live : Nat → Option Nat) (a : Nat) (h : Heap) : HeapRun :=
  ⟨h, if a = 0 then live else Function.update live a (some (getAllocLen h a).1.toNat)⟩

inductive HeapEvent where
  | alloc (len : BitVec 32)
  | allocPages (n : BitVec 32)
  | free (virt : Nat)
  | realloc (virt : Nat) (len : BitVec 32)

/-- Calls by callers who free and reallocate only what they have; no step where one panics. -/
def heapMachine (img : VmmImage) : Lib.Machine HeapRun HeapEvent where
  init s := s.heap.pages = mmInitGlobal img ∧ s.heap.alloclist = (fun _ => []) ∧
    s.live = fun _ => none
  step s
    | .alloc len => (alloc s.heap len).map fun (a, h) => .ret s.live a h
    | .allocPages n => (allocPages s.heap n).map fun (a, h) => .ret s.live a h
    | .free virt =>
      if (s.live virt).isSome then
        (heapFree s.heap virt).map fun h => ⟨h, Function.update s.live virt none⟩
      else none
    | .realloc virt len =>
      if virt = 0 ∨ (s.live virt).isSome then
        (realloc s.heap virt len).map fun (a, h) => .ret (Function.update s.live virt none) a h
      else none

theorem HeapInv.ret {cls : Nat → Option Nat} {h : Heap} {live : Nat → Option Nat} {a size : Nat}
    (hinv : HeapInv cls h (Function.update live a (some size))) :
    HeapInv cls (HeapRun.ret live a h).heap (HeapRun.ret live a h).live := by
  have hb := hinv.live a size (Function.update_self _ _ _)
  unfold HeapRun.ret
  dsimp only
  rw [if_neg hb.ne_zero, (hinv.getAllocLen hb).1]
  exact hinv

theorem heapInv_of_reachable {img : VmmImage} {s : HeapRun} (hs : (heapMachine img).Reachable s) :
    ∃ cls, HeapInv cls s.heap s.live := by
  refine Lib.Machine.ReachableWhen.invariant (I := fun s => ∃ cls, HeapInv cls s.heap s.live) ?_
    ?_ hs
  · rintro s ⟨hpages, hlist, hlive⟩
    obtain ⟨hinv, hnone, -⟩ := mmInitGlobal_spec img
    refine ⟨fun _ => none, by rw [hpages]; exact hinv, nofun, nofun, fun p i hp => ?_, fun i => ?_,
      fun p hp => ?_, fun a size ha => ?_⟩
    · rw [hlist] at hp
      exact absurd hp List.not_mem_nil
    · rw [hlist]
      exact List.nodup_nil
    · rw [hpages] at hp
      exact absurd hp (hnone p)
    · rw [hlive] at ha
      cases ha
  · rintro s e s' ⟨cls, hinv⟩ - hstep
    cases e with
    | alloc len =>
      obtain ⟨⟨a, h⟩, ha, rfl⟩ := Option.map_eq_some_iff.mp hstep
      obtain ⟨cls', size, hinv', -, hb, -⟩ := hinv.alloc ha
      exact ⟨cls', (hinv'.addLive hb).ret⟩
    | allocPages n =>
      obtain ⟨⟨a, h⟩, ha, rfl⟩ := Option.map_eq_some_iff.mp hstep
      obtain ⟨k, -, -, hinv', -, hb⟩ := hinv.allocPages ha
      exact ⟨cls, (hinv'.addLive hb).ret⟩
    | free virt =>
      simp only [heapMachine] at hstep
      split_ifs at hstep with hvirt
      obtain ⟨size, hvirt⟩ := Option.isSome_iff_exists.mp hvirt
      obtain ⟨h, hfree, rfl⟩ := Option.map_eq_some_iff.mp hstep
      obtain ⟨h', hfree', hinv'⟩ := hinv.heapFree hvirt
      have heq : h' = h := Option.some.inj (hfree'.symm.trans hfree)
      exact ⟨cls, heq ▸ hinv'⟩
    | realloc virt len =>
      simp only [heapMachine] at hstep
      split_ifs at hstep with hvirt
      obtain ⟨⟨a, h⟩, ha, rfl⟩ := Option.map_eq_some_iff.mp hstep
      rcases hvirt with rfl | hvirt
      · -- nobody has a block at address 0
        have hnull : s.live 0 = none := by
          cases hzero : s.live 0 with
          | none => rfl
          | some size => exact absurd rfl (hinv.live 0 size hzero).ne_zero
        have hsame : Function.update s.live 0 none = s.live := by
          rw [← hnull, Function.update_eq_self]
        rw [hsame]
        unfold realloc at ha
        by_cases hzero : len = 0
        · rw [if_pos ⟨rfl, hzero⟩] at ha
          cases ha
          exact ⟨cls, hinv⟩
        · rw [if_neg fun h => hzero h.2, if_pos rfl] at ha
          obtain ⟨cls', size, hinv', -, hb, -⟩ := hinv.alloc ha
          exact ⟨cls', (hinv'.addLive hb).ret⟩
      · obtain ⟨oldlen, hvirt⟩ := Option.isSome_iff_exists.mp hvirt
        rcases hinv.realloc hvirt ha with ⟨rfl, hinv'⟩ | ⟨cls', size, hinv', -⟩
        · exact ⟨cls, hinv'⟩
        · exact ⟨cls', hinv'.ret⟩

/-- A request fails visibly or returns a block that is long enough exactly when its length does not
wrap, or there is no block to return. -/
theorem heapSizing_iff {img : VmmImage} {s : HeapRun} (hs : (heapMachine img).Reachable s) :
    (∀ len, Meets (alloc s.heap len) len ↔ Sized s.heap len) ∧
      (∀ virt len, virt = 0 ∨ (s.live virt).isSome = true →
        (Meets (realloc s.heap virt len) len ↔ Sized s.heap len)) ∧
      ∀ n, MeetsPages s.heap n ↔ SizedPages s.heap n := by
  obtain ⟨cls, hinv⟩ := heapInv_of_reachable hs
  exact ⟨hinv.meets_alloc_iff, fun virt len hvirt => hinv.meets_realloc_iff hvirt len,
    hinv.meetsPages_iff⟩

/-- The heap before any call, in a VMM whose image is 16 MiB long. -/
def freshHeap : HeapRun :=
  ⟨⟨mmInitGlobal largeImage, fun _ => [], fun _ => ⟨0, fun _ => 0⟩⟩, fun _ => none⟩

theorem reachable_freshHeap : (heapMachine largeImage).Reachable freshHeap :=
  .init (by simp [heapMachine, freshHeap])

theorem heapSizing_freshHeap : Meets (alloc freshHeap.heap 0x100000) 0x100000 :=
  ((heapSizing_iff reachable_freshHeap).1 0x100000).mpr (Or.inl (by decide))

/-- The managed pages are free after `mm_init_global`. -/
theorem not_exhausted_mmInitGlobal {img : VmmImage} {p : Nat} (hp : p < numOfPages ∧ img.Managed p) :
    ¬ Exhausted (mmInitGlobal img) 0 := by
  obtain ⟨hinv, hnone, hres⟩ := mmInitGlobal_spec img
  obtain ⟨x, hx, hhead, hxp, hpx⟩ := hinv.tiling.covered p hp.1
  have hfree : ((mmInitGlobal img).page x).type = .free := by
    cases htype : ((mmInitGlobal img).page x).type with
    | free => rfl
    | notHead => exact absurd htype hhead
    | allocated => exact absurd htype (hnone x)
    | reserved =>
      rw [hinv.reserved x htype] at hpx
      have heq : x = p := by omega
      exact absurd hp (heq ▸ (hres x).mp htype)
  have hmem := (hinv.mem_freepage _ x).mpr ⟨hx, hfree, rfl⟩
  have hle := hinv.tiling.order_le x hx hhead
  intro hex
  rw [hex _ (Nat.zero_le _) (Nat.lt_succ_of_le hle)] at hmem
  exact absurd hmem List.not_mem_nil

/-- A request for 2 GiB is answered with one page. -/
theorem not_meets_freshHeap : ¬ Meets (alloc freshHeap.heap 0x80000000) 0x80000000 := by
  obtain ⟨cls, hinv⟩ := heapInv_of_reachable reachable_freshHeap
  rw [hinv.meets_alloc_iff]
  rintro (hle | hnone)
  · exact absurd hle (by decide)
  · have hpage : 8192 < numOfPages ∧ largeImage.Managed 8192 := by decide
    exact not_exhausted_mmInitGlobal hpage (by simpa [freshHeap] using hnone)

end OnDemandVirt.Vmm
