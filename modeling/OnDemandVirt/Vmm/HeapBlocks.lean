import OnDemandVirt.Vmm.Heap

/-!
# The blocks of the heap

Pages are cut for one size class each, and their headers say which small blocks are in use. Taking
and freeing blocks keep that, and no block that a caller has is given out again.
-/

namespace OnDemandVirt.Vmm

open Lib.Buddy

/-! ### Headers -/

/-- Small block `b` of a page is in use. -/
def Allocdata.used (d : Allocdata) (b : Nat) : Bool := (d.data (b / 8)).getLsbD (b % 8)

/-- The size class in a header. -/
def Allocdata.cls (d : Allocdata) : Nat := (d.n &&& ~~~0x80).toNat

theorem alloclistSize_eq (n : Nat) : alloclistSize n = 2 ^ (n + 4) := by
  rw [alloclistSize, Nat.shiftLeft_eq, Nat.one_mul, Nat.pow_add]

theorem alloclistSize_pos (n : Nat) : 0 < alloclistSize n := by
  rw [alloclistSize_eq]
  exact Nat.two_pow_pos _

theorem alloclistSize_dvd {n : Nat} (hn : n < numOfAlloclist) : alloclistSize n ∣ 4096 := by
  have hn : n < 7 := hn
  rw [alloclistSize_eq]
  exact Nat.pow_dvd_pow 2 (show n + 4 ≤ 12 by omega)

theorem getLsbD_one_shiftLeft {j k : Nat} (hk : k < 8) : (1#8 <<< j).getLsbD k = decide (k = j) := by
  rw [BitVec.getLsbD_shiftLeft, BitVec.getLsbD_one]
  by_cases hkj : k = j
  · simp [hkj]
    omega
  · simp [hk, hkj]
    omega

/-- A small block that `alloclist_alloc` finds was not in use, and now is. -/
theorem alloclistAlloc_spec {d d' : Allocdata} {n offset : Nat}
    (h : alloclistAlloc d n = some (offset, d')) :
    ∃ b, offset = b * alloclistSize n ∧ b < alloclistDatabit n ∧ d.used b = false ∧ d'.n = d.n ∧
      ∀ b', d'.used b' = (d.used b' || decide (b' = b)) := by
  unfold alloclistAlloc at h
  cases hi : (List.range (alloclistDatasize n)).find? fun i => d.data i != 0xFF with
  | none =>
    rw [hi] at h
    cases h
  | some i =>
    rw [hi] at h
    dsimp only at h
    have hdata : d.data i ≠ 0xFF := by
      have := List.find?_some hi
      exact fun heq => by simp [heq] at this
    cases hj : (List.range 8).find? fun j => !(d.data i).getLsbD j with
    | none =>
      -- a byte that is not full has a bit that is not set
      refine absurd (BitVec.eq_of_getLsbD_eq fun j hlt => ?_) hdata
      have hset := List.find?_eq_none.mp hj j (List.mem_range.mpr hlt)
      have hall : ∀ j < 8, (0xFF : BitVec 8).getLsbD j = true := by decide
      rw [hall j hlt]
      simpa using hset
    | some j =>
      have hj8 : j < 8 := List.mem_range.mp (List.mem_of_find?_eq_some hj)
      have hclear : (d.data i).getLsbD j = false := by
        have := List.find?_some hj
        simpa using this
      rw [hj, Option.getD_some] at h
      split_ifs at h with hlt
      cases h
      have hdiv : (i * 8 + j) / 8 = i := by omega
      have hmod : (i * 8 + j) % 8 = j := by omega
      refine ⟨i * 8 + j, rfl, Nat.lt_of_not_le hlt, ?_, rfl, fun b' => ?_⟩
      · rw [Allocdata.used, hdiv, hmod, hclear]
      · unfold Allocdata.used
        dsimp only
        rw [Function.update_apply]
        have hb' := Nat.mod_lt b' (show 8 > 0 by decide)
        split_ifs with heq
        · rw [BitVec.getLsbD_or, getLsbD_one_shiftLeft hb', heq]
          congr 1
          exact decide_eq_decide.mpr ⟨fun h => by omega, fun h => by omega⟩
        · have hne : b' ≠ i * 8 + j := fun h => heq (by omega)
          simp [hne]

/-- A small block that is in use can be freed. -/
theorem alloclistFree_spec {d : Allocdata} {n b : Nat} (hb : d.used b = true) :
    ∃ d', alloclistFree d n (b * alloclistSize n) = some d' ∧ d'.n = d.n ∧
      ∀ b', d'.used b' = (d.used b' && decide (b' ≠ b)) := by
  have hbit : b * alloclistSize n / alloclistSize n = b :=
    Nat.mul_div_cancel b (alloclistSize_pos n)
  unfold alloclistFree
  dsimp only
  rw [hbit, if_pos (show (d.data (b / 8)).getLsbD (b % 8) = true from hb)]
  refine ⟨_, rfl, rfl, fun b' => ?_⟩
  unfold Allocdata.used
  dsimp only
  rw [Function.update_apply]
  have hb' := Nat.mod_lt b' (show 8 > 0 by decide)
  split_ifs with heq
  · rw [BitVec.getLsbD_and, BitVec.getLsbD_not, getLsbD_one_shiftLeft hb', heq]
    have hiff : b' % 8 = b % 8 ↔ b' = b := ⟨fun h => by omega, fun h => by omega⟩
    by_cases hbb : b' = b
    · simp [hbb]
    · simp [hbb, hiff, hb']
  · have hne : b' ≠ b := fun h => heq (by rw [h])
    simp [hne]

/-! ### The invariant -/

/-- What a caller has: a small block of a page that is cut for its size class, or a block of pages
that is not cut. -/
inductive BlockOf (cls : Nat → Option Nat) (h : Heap) : (a size : Nat) → Prop
  | small {p i b : Nat} : cls p = some i → 0 < b → b < alloclistDatabit i →
      (h.header p).used b = true →
        BlockOf cls h (pageToVirt p + b * alloclistSize i) (alloclistSize i)
  | pages {p k : Nat} : cls p = none → k < numOfAllocsize → h.pages.page p = ⟨.allocated, k⟩ →
      BlockOf cls h (pageToVirt p) (allocsize k)

/-- What holds of the heap, where `live` are the blocks that callers have, with their lengths, and
`cls` says which pages are cut, and for which size class. -/
structure HeapInv (cls : Nat → Option Nat) (h : Heap) (live : Nat → Option Nat) : Prop where
  pages : PageInv h.pages
  cls_lt : ∀ p i, cls p = some i → i < numOfAlloclist
  cut : ∀ p i, cls p = some i → (h.pages.page p).type = .allocated ∧ (h.header p).cls = i
  listed : ∀ p i, p ∈ h.alloclist i → cls p = some i ∧ (h.header p).n &&& 0x80 = 0
  nodup : ∀ i, (h.alloclist i).Nodup
  lt : ∀ p, (h.pages.page p).type = .allocated → p < numOfPages
  live : ∀ a size, live a = some size → BlockOf cls h a size

/-! ### Addresses of blocks -/

theorem virtToPage_add (p : Nat) {offset : Nat} (h : offset < 4096) :
    virtToPage (pageToVirt p + offset) = p ∧ (pageToVirt p + offset) % 4096 = offset := by
  rw [virtToPage, pageToVirt, vmmStartVirt, Nat.shiftRight_eq_div_pow]
  constructor <;> omega

theorem virtToPage_pageToVirt (p : Nat) :
    virtToPage (pageToVirt p) = p ∧ pageToVirt p % 4096 = 0 := by
  have h := virtToPage_add p (show 0 < 4096 by decide)
  rw [Nat.add_zero] at h
  exact h

theorem databit_mul {i b : Nat} (hi : i < numOfAlloclist) (hb : b < alloclistDatabit i) :
    b * alloclistSize i + alloclistSize i ≤ 4096 := by
  have hmul := Nat.mul_le_mul_right (alloclistSize i) hb
  rw [Nat.succ_mul, alloclistDatabit, Nat.div_mul_cancel (alloclistSize_dvd hi)] at hmul
  exact hmul

/-- Page and number of a small block are determined by its address. -/
theorem small_inj {i p q b c : Nat} (hi : i < numOfAlloclist) (hb : b < alloclistDatabit i)
    (hc : c < alloclistDatabit i)
    (h : pageToVirt p + b * alloclistSize i = pageToVirt q + c * alloclistSize i) :
    p = q ∧ b = c := by
  have hpos := alloclistSize_pos i
  have hlb := databit_mul hi hb
  have hlc := databit_mul hi hc
  obtain ⟨hp, hbo⟩ := virtToPage_add p (show b * alloclistSize i < 4096 by omega)
  obtain ⟨hq, hco⟩ := virtToPage_add q (show c * alloclistSize i < 4096 by omega)
  rw [h] at hp hbo
  exact ⟨hp.symm.trans hq, Nat.eq_of_mul_eq_mul_right hpos (hbo.symm.trans hco)⟩

section

variable {cls : Nat → Option Nat} {h h' : Heap} {live : Nat → Option Nat}

/-- A small block is not at the beginning of a page. -/
theorem small_offset {i b p : Nat} (hi : i < numOfAlloclist) (h0 : 0 < b)
    (hb : b < alloclistDatabit i) :
    virtToPage (pageToVirt p + b * alloclistSize i) = p ∧
      (pageToVirt p + b * alloclistSize i) % 4096 = b * alloclistSize i ∧
      b * alloclistSize i ≠ 0 := by
  have hpos := alloclistSize_pos i
  have hle := databit_mul hi hb
  obtain ⟨hp, ho⟩ := virtToPage_add p (show b * alloclistSize i < 4096 by omega)
  exact ⟨hp, ho, Nat.ne_of_gt (Nat.mul_pos h0 hpos)⟩

/-- `get_alloc_len` knows the length of a block, and a small block ends within its page. -/
theorem HeapInv.getAllocLen (hinv : HeapInv cls h live) {a size : Nat} (hb : BlockOf cls h a size) :
    (getAllocLen h a).1.toNat = size ∧ (a % 4096 ≠ 0 → a % 4096 + size ≤ 4096) := by
  cases hb with
  | @small p i b hcls h0 hb hused =>
    have hi := hinv.cls_lt p i hcls
    obtain ⟨hp, ho, hne⟩ := small_offset (p := p) hi h0 hb
    have hle := databit_mul hi hb
    unfold Vmm.getAllocLen
    rw [hp, ho, if_neg hne]
    have hn : ((h.header p).n &&& ~~~0x80).toNat = i := (hinv.cut p i hcls).2
    dsimp only
    rw [hn, BitVec.toNat_ofNat]
    exact ⟨Nat.mod_eq_of_lt (by omega), fun _ => hle⟩
  | @pages p k hcls hk hpage =>
    obtain ⟨hp, ho⟩ := virtToPage_pageToVirt p
    unfold Vmm.getAllocLen
    rw [hp, ho, if_pos rfl, hpage]
    dsimp only
    have hall : ∀ k < numOfAllocsize, (BitVec.ofNat 32 (allocsize k)).toNat = allocsize k := by decide
    exact ⟨hall k hk, fun h => absurd rfl h⟩

theorem BlockOf.size_le {a size : Nat} (hb : BlockOf cls h a size) (hcls : ∀ p i, cls p = some i → i < numOfAlloclist) :
    size ≤ 2 ^ 24 := by
  cases hb with
  | @small p i b hc _ _ _ =>
    have hle := Nat.le_of_dvd (by decide) (alloclistSize_dvd (hcls p i hc))
    omega
  | @pages p k _ hk _ =>
    have hall : ∀ k < numOfAllocsize, allocsize k ≤ 2 ^ 24 := by decide
    exact hall k hk

/-- A block that is returned is recorded. -/
theorem HeapInv.addLive (hinv : HeapInv cls h live) {a size : Nat} (hb : BlockOf cls h a size) :
    HeapInv cls h (Function.update live a (some size)) := by
  refine ⟨hinv.pages, hinv.cls_lt, hinv.cut, hinv.listed, hinv.nodup, hinv.lt, fun a' size' ha => ?_⟩
  rw [Function.update_apply] at ha
  split_ifs at ha with heq
  · cases ha
    rw [heq]
    exact hb
  · exact hinv.live a' size' ha

/-- A block stays one where its page and its bit stay. -/
theorem BlockOf.mono {cls' : Nat → Option Nat} {a size : Nat} (hb : BlockOf cls h a size)
    (hsmall : ∀ p i b, cls p = some i → (h.header p).used b = true →
      a = pageToVirt p + b * alloclistSize i → b < alloclistDatabit i →
        cls' p = some i ∧ (h'.header p).used b = true)
    (hpages : ∀ p k, cls p = none → h.pages.page p = ⟨.allocated, k⟩ → a = pageToVirt p →
      cls' p = none ∧ h'.pages.page p = ⟨.allocated, k⟩) : BlockOf cls' h' a size := by
  cases hb with
  | @small p i b hcls h0 hb hused =>
    obtain ⟨hcls', hused'⟩ := hsmall p i b hcls hused rfl hb
    exact .small hcls' h0 hb hused'
  | @pages p k hcls hk hpage =>
    obtain ⟨hcls', hpage'⟩ := hpages p k hcls hpage rfl
    exact .pages hcls' hk hpage'

theorem pageToVirt_inj {p q : Nat} (h : pageToVirt p = pageToVirt q) : p = q :=
  (virtToPage_pageToVirt p).1.symm.trans (h ▸ (virtToPage_pageToVirt q).1)

/-- A block that begins with a page is a block of pages. -/
theorem HeapInv.not_small (hinv : HeapInv cls h live) {p size : Nat}
    (hb : BlockOf cls h (pageToVirt p) size) :
    cls p = none ∧ ∃ k, h.pages.page p = ⟨.allocated, k⟩ := by
  generalize ha : pageToVirt p = a at hb
  cases hb with
  | @small q i b hcls h0 hb hused =>
    obtain ⟨-, ho, hne⟩ := small_offset (p := q) (hinv.cls_lt q i hcls) h0 hb
    rw [← ha, (virtToPage_pageToVirt p).2] at ho
    exact absurd ho.symm hne
  | @pages q k hcls hk hpage =>
    rw [pageToVirt_inj ha]
    exact ⟨hcls, k, hpage⟩

/-- A small block of a page that is cut. -/
theorem HeapInv.is_small (hinv : HeapInv cls h live) {p i b size : Nat} (hcls : cls p = some i)
    (h0 : 0 < b) (hb : b < alloclistDatabit i)
    (hblock : BlockOf cls h (pageToVirt p + b * alloclistSize i) size) :
    (h.header p).used b = true := by
  have hi := hinv.cls_lt p i hcls
  obtain ⟨hp, ho, hne⟩ := small_offset (p := p) hi h0 hb
  generalize ha : pageToVirt p + b * alloclistSize i = a at hblock
  cases hblock with
  | @small q j c hcls' h0' hc hused =>
    obtain ⟨hq, -, -⟩ := small_offset (p := q) (hinv.cls_lt q j hcls') h0' hc
    have hpq : p = q := by
      rw [ha] at hp
      exact hp.symm.trans hq
    subst hpq
    rw [hcls] at hcls'
    cases hcls'
    rw [(small_inj hi hb hc ha).2]
    exact hused
  | @pages q k _ _ _ =>
    rw [ha, (virtToPage_pageToVirt q).2] at ho
    exact absurd ho.symm hne

/-! ### Taking pages -/

theorem pageOrder_spec {n : BitVec 32} {k : Nat} (h : pageOrder n = some k) :
    k < numOfAllocsize ∧ (n * 0x1000).sle (BitVec.ofNat 32 (allocsize k)) = true := by
  unfold pageOrder at h
  exact ⟨List.mem_range.mp (List.mem_of_find?_eq_some h),
    List.find?_some (p := fun i => (n * 0x1000).sle (BitVec.ofNat 32 (allocsize i))) h⟩

theorem allocPages_eq_some {n : BitVec 32} {a : Nat} (ha : allocPages h n = some (a, h')) :
    ∃ k p pages, pageOrder n = some k ∧ mmPageAlloc (numOfAllocsize - k) h.pages k = some (p, pages) ∧
      a = pageToVirt p ∧ h' = { h with pages := pages } := by
  unfold allocPages at ha
  cases hk : pageOrder n with
  | none =>
    rw [hk] at ha
    cases ha
  | some k =>
    rw [hk] at ha
    obtain ⟨⟨p, pages⟩, hp, heq⟩ := Option.map_eq_some_iff.mp ha
    cases heq
    exact ⟨k, p, pages, rfl, hp, rfl, rfl⟩

theorem returned_of_mmPageAlloc (hinv : PageInv h.pages) {k p : Nat} {pages : PageAlloc}
    (hk : k < numOfAllocsize) (hp : mmPageAlloc (numOfAllocsize - k) h.pages k = some (p, pages)) :
    Returned h.pages pages k p := by
  have hsum : numOfAllocsize - k + k = numOfAllocsize := Nat.sub_add_cancel (Nat.le_of_lt hk)
  rcases mmPageAlloc_spec (numOfAllocsize - k) hsum hinv with hnone | ⟨q, pages', heq, hret⟩
  · rw [mmPageAlloc_of_exhausted (numOfAllocsize - k) hsum hnone] at hp
    cases hp
  · rw [heq] at hp
    cases hp
    exact hret

/-- A block of pages is taken: no caller has it, and it is not cut. -/
theorem HeapInv.takePages (hinv : HeapInv cls h live) {k p : Nat} {pages : PageAlloc}
    (hret : Returned h.pages pages k p) :
    HeapInv cls { h with pages := pages } live ∧ cls p = none ∧ live (pageToVirt p) = none := by
  have hcls : cls p = none := by
    cases hc : cls p with
    | none => rfl
    | some i => exact absurd (Or.inl (hinv.cut p i hc).1) hret.new
  have hsame : ∀ x, (h.pages.page x).type = .allocated → pages.page x = h.pages.page x :=
    fun x hx => hret.other x (fun heq => hret.new (heq ▸ Or.inl hx)) (Or.inl (Or.inl hx))
  refine ⟨⟨hret.pages, hinv.cls_lt, fun q i hq => ?_, hinv.listed, hinv.nodup, fun x hx => ?_,
    fun a size ha => ?_⟩, hcls, ?_⟩
  · obtain ⟨htype, hheader⟩ := hinv.cut q i hq
    refine ⟨?_, hheader⟩
    dsimp only
    rw [hsame q htype]
    exact htype
  · by_cases heq : x = p
    · exact heq ▸ hret.lt
    · rw [hret.other x heq (Or.inr (Or.inl hx))] at hx
      exact hinv.lt x hx
  · refine (hinv.live a size ha).mono (fun q i b hq hused _ _ => ⟨hq, hused⟩) fun q k' hq hpage _ =>
      ⟨hq, ?_⟩
    exact (hsame q (by rw [hpage])).trans hpage
  · cases hlive : live (pageToVirt p) with
    | none => rfl
    | some size =>
      obtain ⟨-, k', hpage⟩ := hinv.not_small (hinv.live _ _ hlive)
      exact absurd (Or.inl (by rw [hpage])) hret.new

/-! ### Cutting pages -/

/-- A block of one page that no caller has is cut. -/
theorem HeapInv.cutPage (hinv : HeapInv cls h live) {p i k : Nat} (hi : i < numOfAlloclist)
    (hcls : cls p = none) (hlive : live (pageToVirt p) = none)
    (hpage : h.pages.page p = ⟨.allocated, k⟩) :
    HeapInv (Function.update cls p (some i))
      { h with header := Function.update h.header p (newAllocdata i) } live := by
  have hne : ∀ q j, cls q = some j → q ≠ p := by
    rintro q j hq rfl
    rw [hcls] at hq
    cases hq
  refine ⟨hinv.pages, fun q j hq => ?_, fun q j hq => ?_, fun q j hq => ?_, hinv.nodup, hinv.lt,
    fun a size ha => ?_⟩
  · rw [Function.update_apply] at hq
    split_ifs at hq with heq
    · cases hq
      exact hi
    · exact hinv.cls_lt q j hq
  · rw [Function.update_apply] at hq
    dsimp only
    rw [Function.update_apply]
    split_ifs at hq ⊢ with heq
    · cases hq
      have hall : ∀ i < numOfAlloclist, (newAllocdata i).cls = i := by decide
      exact ⟨by rw [heq, hpage], hall i hi⟩
    · exact hinv.cut q j hq
  · obtain ⟨hq, hflag⟩ := hinv.listed q j hq
    dsimp only
    rw [Function.update_of_ne (hne q j hq), Function.update_of_ne (hne q j hq)]
    exact ⟨hq, hflag⟩
  · refine (hinv.live a size ha).mono (fun q j b hq hused _ _ => ?_) fun q k' hq hpage' heq => ?_
    · dsimp only
      rw [Function.update_of_ne (hne q j hq), Function.update_of_ne (hne q j hq)]
      exact ⟨hq, hused⟩
    · have hqp : q ≠ p := by
        rintro rfl
        rw [heq, hlive] at ha
        cases ha
      rw [Function.update_of_ne hqp]
      exact ⟨hq, hpage'⟩

/-- A small block of a page is taken: no caller has it. -/
theorem HeapInv.allocFrom (hinv : HeapInv cls h live) {p i a : Nat} {ps : List Nat}
    {r : Nat × Allocdata} (hcls : cls p = some i) (hflag : (h.header p).n &&& 0x80 = 0)
    (hps : ∀ q ∈ ps, q ∈ h.alloclist i) (hnodup : (p :: ps).Nodup)
    (hr : alloclistAlloc (h.header p) i = some r) (ha : Vmm.allocFrom h i p ps r = some (a, h')) :
    HeapInv cls h' live ∧ live a = none ∧ BlockOf cls h' a (alloclistSize i) := by
  obtain ⟨offset, d⟩ := r
  obtain ⟨b, rfl, hb, hfree, hn, hused⟩ := alloclistAlloc_spec hr
  unfold Vmm.allocFrom at ha
  dsimp only at ha
  split_ifs at ha with hassert
  cases ha
  have h0 : 0 < b := Nat.pos_of_ne_zero fun h => hassert.1 (by rw [h, Nat.zero_mul])
  refine ⟨⟨hinv.pages, hinv.cls_lt, fun q j hq => ?_, fun q j hq => ?_, fun j => ?_, hinv.lt,
    fun a size ha => ?_⟩, ?_, .small hcls h0 hb ?_⟩
  · dsimp only
    rw [Function.update_apply]
    split_ifs with heq
    · subst heq
      obtain ⟨htype, hheader⟩ := hinv.cut q j hq
      refine ⟨htype, ?_⟩
      rw [Allocdata.cls, hn]
      exact hheader
    · exact hinv.cut q j hq
  · dsimp only at hq ⊢
    have hflag' : ∀ q, (h.header q).n &&& 0x80 = 0 →
        (Function.update h.header p d q).n &&& 0x80 = 0 := by
      intro q hq
      rw [Function.update_apply]
      split_ifs with heq
      · rw [hn]
        exact hflag
      · exact hq
    rw [Function.update_apply] at hq
    split_ifs at hq with hj
    · rcases List.mem_cons.mp hq with rfl | hq
      · exact ⟨hj ▸ hcls, hflag' q hflag⟩
      · obtain ⟨hq, hqflag⟩ := hinv.listed q i (hps q hq)
        exact ⟨hj ▸ hq, hflag' q hqflag⟩
    · obtain ⟨hq, hqflag⟩ := hinv.listed q j hq
      exact ⟨hq, hflag' q hqflag⟩
  · dsimp only
    rw [Function.update_apply]
    split_ifs
    · exact hnodup
    · exact hinv.nodup j
  · refine (hinv.live a size ha).mono (fun q j c hq hc _ _ => ⟨hq, ?_⟩) fun q k hq hpage _ => ⟨hq, hpage⟩
    dsimp only
    rw [Function.update_apply]
    split_ifs with heq
    · rw [hused, ← heq, hc]
      rfl
    · exact hc
  · cases hlive : live (pageToVirt p + b * alloclistSize i) with
    | none => rfl
    | some size =>
      rw [hinv.is_small hcls h0 hb (hinv.live _ _ hlive)] at hfree
      cases hfree
  · dsimp only
    rw [Function.update_self, hused]
    simp

/-- The first page of a list is marked and leaves it. -/
theorem HeapInv.markFull (hinv : HeapInv cls h live) {p i : Nat} {ps : List Nat}
    (hlist : h.alloclist i = p :: ps) : HeapInv cls { h with
      header := Function.update h.header p { h.header p with n := (h.header p).n ||| 0x80 }
      alloclist := Function.update h.alloclist i ps } live := by
  obtain ⟨hcls, hflag⟩ := hinv.listed p i (hlist ▸ List.mem_cons_self)
  have hnodup := hinv.nodup i
  rw [hlist] at hnodup
  have hmask : ∀ n : BitVec 8, (n ||| 0x80) &&& ~~~0x80 = n &&& ~~~0x80 := by decide
  refine ⟨hinv.pages, hinv.cls_lt, fun q j hq => ?_, fun q j hq => ?_, fun j => ?_, hinv.lt,
    fun a size ha => ?_⟩
  · dsimp only
    rw [Function.update_apply]
    split_ifs with heq
    · subst heq
      obtain ⟨htype, hheader⟩ := hinv.cut q j hq
      refine ⟨htype, ?_⟩
      rw [Allocdata.cls, hmask]
      exact hheader
    · exact hinv.cut q j hq
  · dsimp only at hq ⊢
    rw [Function.update_apply] at hq
    have hqp : q ≠ p := by
      rintro rfl
      split_ifs at hq with hj
      · exact (List.nodup_cons.mp hnodup).1 hq
      · obtain ⟨hq, -⟩ := hinv.listed q j hq
        rw [hcls] at hq
        exact hj (Option.some.inj hq).symm
    rw [Function.update_of_ne hqp]
    split_ifs at hq with hj
    · exact hj ▸ hinv.listed q i (hlist ▸ List.mem_cons_of_mem p hq)
    · exact hinv.listed q j hq
  · dsimp only
    rw [Function.update_apply]
    split_ifs
    · exact (List.nodup_cons.mp hnodup).2
    · exact hinv.nodup j
  · refine (hinv.live a size ha).mono (fun q j c hq hc _ _ => ⟨hq, ?_⟩) fun q k hq hpage _ =>
      ⟨hq, hpage⟩
    dsimp only
    rw [Function.update_apply]
    split_ifs with heq
    · rw [← heq]
      exact hc
    · exact hc

/-- The loop of `alloc` takes a small block of the size class. -/
theorem HeapInv.allocLoop (hinv : HeapInv cls h live) {i a : Nat} (hi : i < numOfAlloclist)
    (ps : List Nat) (hlist : h.alloclist i = ps) (ha : Vmm.allocLoop i ps h = some (a, h')) :
    ∃ cls', HeapInv cls' h' live ∧ live a = none ∧ BlockOf cls' h' a (alloclistSize i) := by
  induction ps generalizing h with
  | nil =>
    rw [Vmm.allocLoop] at ha
    obtain ⟨⟨p, h₁⟩, hnew, ha⟩ := Option.bind_eq_some_iff.mp ha
    obtain ⟨r, hr, ha⟩ := Option.bind_eq_some_iff.mp ha
    obtain ⟨⟨tmp, h₂⟩, hpages, heq⟩ := Option.map_eq_some_iff.mp hnew
    obtain ⟨k, q, pages, hk, halloc, rfl, rfl⟩ := allocPages_eq_some hpages
    cases heq
    rw [(virtToPage_pageToVirt q).1] at ha hr
    have hret := returned_of_mmPageAlloc hinv.pages (pageOrder_spec hk).1 halloc
    obtain ⟨hinv₂, hcls, hlive⟩ := hinv.takePages hret
    have hcut := hinv₂.cutPage (i := i) hi hcls hlive hret.page
    have hall : ∀ i < numOfAlloclist, (newAllocdata i).n &&& 0x80 = 0 := by decide
    refine ⟨_, hcut.allocFrom (Function.update_self _ _ _) ?_
      (fun x hx => absurd hx List.not_mem_nil) (by simp) hr ha⟩
    dsimp only
    rw [Function.update_self]
    exact hall i hi
  | cons p ps ih =>
    obtain ⟨hcls, hflag⟩ := hinv.listed p i (hlist ▸ List.mem_cons_self)
    have hnodup := hinv.nodup i
    rw [hlist] at hnodup
    rw [Vmm.allocLoop] at ha
    cases hr : alloclistAlloc (h.header p) i with
    | some r =>
      rw [hr] at ha
      exact ⟨cls, hinv.allocFrom hcls hflag (fun q hq => hlist ▸ List.mem_cons_of_mem p hq) hnodup hr ha⟩
    | none =>
      -- the page is full and leaves the list
      rw [hr] at ha
      exact ih (hinv.markFull hlist) (Function.update_self _ _ _) ha

/-! ### Freeing -/

/-- A block that a caller has can be freed. -/
theorem HeapInv.heapFree (hinv : HeapInv cls h live) {a size : Nat} (ha : live a = some size) :
    ∃ h', Vmm.heapFree h a = some h' ∧ HeapInv cls h' (Function.update live a none) := by
  have hother : ∀ a' size', Function.update live a none a' = some size' →
      a' ≠ a ∧ live a' = some size' := by
    intro a' size' ha'
    rw [Function.update_apply] at ha'
    split_ifs at ha' with heq
    exact ⟨heq, ha'⟩
  have hblock := hinv.live a size ha
  cases hblock with
  | @pages p k hcls hk hpage =>
    obtain ⟨hp, ho⟩ := virtToPage_pageToVirt p
    unfold Vmm.heapFree
    rw [hp, ho, if_pos rfl]
    refine ⟨_, rfl, ?_⟩
    have htype : (h.pages.page p).type = .allocated := by rw [hpage]
    obtain ⟨hpages, hfree, hsame⟩ := mmPageFree_spec hinv.pages (hinv.lt p htype) (Or.inl htype)
    refine ⟨hpages, hinv.cls_lt, fun q j hq => ?_, hinv.listed, hinv.nodup, fun x hx => ?_,
      fun a' size' ha' => ?_⟩
    · obtain ⟨hqtype, hheader⟩ := hinv.cut q j hq
      have hqp : q ≠ p := by
        rintro rfl
        rw [hcls] at hq
        cases hq
      refine ⟨?_, hheader⟩
      dsimp only
      rw [hsame q hqp (Or.inl (Or.inl hqtype))]
      exact hqtype
    · dsimp only at hx
      have hxp : x ≠ p := by
        rintro rfl
        exact hfree (Or.inl hx)
      rw [hsame x hxp (Or.inr (Or.inl hx))] at hx
      exact hinv.lt x hx
    · obtain ⟨hne, hold⟩ := hother a' size' ha'
      refine (hinv.live a' size' hold).mono (fun q j c hq hc _ _ => ⟨hq, hc⟩) fun q k' hq hq' heq =>
        ⟨hq, ?_⟩
      have hqp : q ≠ p := fun hqp => hne (by rw [heq, hqp])
      exact (hsame q hqp (Or.inl (Or.inl (by rw [hq'])))).trans hq'
  | @small p i b hcls h0 hb hused =>
    have hi := hinv.cls_lt p i hcls
    obtain ⟨hp, ho, hne⟩ := small_offset (p := p) hi h0 hb
    obtain ⟨htype, hheader⟩ := hinv.cut p i hcls
    -- the page comes back to its list if it was full
    obtain ⟨h₁, heq, hinv₁, hclass, hused₁⟩ : ∃ h₁ : Heap,
        (if (h.header p).n &&& 0x80 ≠ 0 then
          { h with
            header := Function.update h.header p { h.header p with n := (h.header p).n &&& ~~~0x80 }
            alloclist := Function.update h.alloclist ((h.header p).n &&& ~~~0x80).toNat
              (p :: h.alloclist ((h.header p).n &&& ~~~0x80).toNat) }
        else h) = h₁ ∧ HeapInv cls h₁ live ∧ (h₁.header p).n.toNat = i ∧
          (h₁.header p).used b = true := by
      by_cases hflag : (h.header p).n &&& 0x80 ≠ 0
      · rw [if_pos hflag]
        refine ⟨_, rfl, ⟨hinv.pages, hinv.cls_lt, fun q j hq => ?_, fun q j hq => ?_, fun j => ?_,
          hinv.lt, fun a' size' ha' => ?_⟩, ?_, ?_⟩
        · dsimp only
          rw [Function.update_apply]
          split_ifs with heq
          · subst heq
            obtain ⟨hqtype, hq'⟩ := hinv.cut q j hq
            refine ⟨hqtype, ?_⟩
            have hmask : ∀ n : BitVec 8, (n &&& ~~~0x80) &&& ~~~0x80 = n &&& ~~~0x80 := by decide
            rw [Allocdata.cls, hmask]
            exact hq'
          · exact hinv.cut q j hq
        · dsimp only at hq ⊢
          have hn : ((h.header p).n &&& ~~~0x80).toNat = i := hheader
          rw [hn, Function.update_apply] at hq
          have hclear : ∀ n : BitVec 8, (n &&& ~~~0x80) &&& 0x80 = 0 := by decide
          have hold : q ∈ h.alloclist j → cls q = some j ∧
              (Function.update h.header p { h.header p with n := (h.header p).n &&& ~~~0x80 } q).n &&&
                0x80 = 0 := by
            intro hq
            obtain ⟨hq, hqflag⟩ := hinv.listed q j hq
            have hqp : q ≠ p := by
              rintro rfl
              exact hflag hqflag
            rw [Function.update_of_ne hqp]
            exact ⟨hq, hqflag⟩
          split_ifs at hq with hj
          · rcases List.mem_cons.mp hq with rfl | hq
            · rw [Function.update_self]
              exact ⟨hj ▸ hcls, hclear _⟩
            · exact hold (hj ▸ hq)
          · exact hold hq
        · dsimp only
          rw [Function.update_apply]
          split_ifs
          · exact List.nodup_cons.mpr ⟨fun hp => hflag (hinv.listed p _ hp).2, hinv.nodup _⟩
          · exact hinv.nodup j
        · refine (hinv.live a' size' ha').mono (fun q j c hq hc _ _ => ⟨hq, ?_⟩) fun q k hq hpage _ =>
            ⟨hq, hpage⟩
          dsimp only
          rw [Function.update_apply]
          split_ifs with heq
          · rw [← heq]
            exact hc
          · exact hc
        · dsimp only
          rw [Function.update_self]
          exact hheader
        · dsimp only
          rw [Function.update_self]
          exact hused
      · rw [if_neg hflag]
        have hmask : ∀ n : BitVec 8, n &&& 0x80 = 0 → n &&& ~~~0x80 = n := by decide
        refine ⟨h, rfl, hinv, ?_, hused⟩
        rw [← hmask _ (not_not.mp hflag)]
        exact hheader
    obtain ⟨d, hfree, hn, hbits⟩ := alloclistFree_spec (n := i) hused₁
    unfold Vmm.heapFree
    dsimp only
    rw [hp, ho, if_neg hne, heq, hclass, hfree]
    refine ⟨_, rfl, hinv₁.pages, hinv₁.cls_lt, fun q j hq => ?_, fun q j hq => ?_, hinv₁.nodup,
      hinv₁.lt, fun a' size' ha' => ?_⟩
    · dsimp only
      rw [Function.update_apply]
      split_ifs with heq
      · subst heq
        obtain ⟨hqtype, hq'⟩ := hinv₁.cut q j hq
        refine ⟨hqtype, ?_⟩
        rw [Allocdata.cls, hn]
        exact hq'
      · exact hinv₁.cut q j hq
    · obtain ⟨hq, hqflag⟩ := hinv₁.listed q j hq
      dsimp only
      rw [Function.update_apply]
      split_ifs with heq
      · rw [hn, ← heq]
        exact ⟨hq, hqflag⟩
      · exact ⟨hq, hqflag⟩
    · obtain ⟨hne', hold⟩ := hother a' size' ha'
      refine (hinv₁.live a' size' hold).mono (fun q j c hq hc hac hcb => ⟨hq, ?_⟩)
        fun q k hq hpage _ => ⟨hq, hpage⟩
      dsimp only
      rw [Function.update_apply]
      split_ifs with heq
      · -- another block of the same page
        subst heq
        rw [hcls] at hq
        cases hq
        have hcb : c ≠ b := fun hcb => hne' (by rw [hac, hcb])
        rw [hbits, hc]
        simpa using hcb
      · exact hc

end

end OnDemandVirt.Vmm
