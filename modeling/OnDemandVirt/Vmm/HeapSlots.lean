import OnDemandVirt.Vmm.HeapSizing

/-!
# The slots of pages that are cut

A slot of a page is covered by the header or belongs to a caller exactly where its bit is set. A
page that is off its list is full, so that a page with a free slot is always found. No page that was
cut is given back.
-/

namespace OnDemandVirt.Vmm

open Lib.Buddy

/-! ### Headers -/

theorem getLsbD_foldl_or (P : Nat → Prop) [DecidablePred P] {n k : Nat} (hn : n ≤ 8) :
    ((List.range n).foldl (fun b j => if P j then b ||| 1#8 <<< j else b) 0).getLsbD k =
      (decide (k < n) && decide (P k)) := by
  induction n with
  | zero => simp
  | succ n ih =>
    rw [List.range_succ, List.foldl_append, List.foldl_cons, List.foldl_nil]
    have hk : k < n + 1 ↔ k < n ∨ k = n := Nat.lt_succ_iff_lt_or_eq
    split_ifs with hP
    · rw [BitVec.getLsbD_or, ih (by omega)]
      by_cases hkn : k = n
      · subst hkn
        simp [hP, show k < 8 by omega]
      · simp [hk, hkn, BitVec.getLsbD_shiftLeft, BitVec.getLsbD_one]
        omega
    · rw [ih (by omega)]
      by_cases hkn : k = n
      · subst hkn
        simp [hP]
      · simp [hk, hkn]

/-- The slots of a new page that are in use are those that the header covers. -/
theorem used_newAllocdata (i b : Nat) :
    (newAllocdata i).used b = decide (b * alloclistSize i < alloclistHeadersize i) := by
  unfold Allocdata.used newAllocdata
  dsimp only
  rw [getLsbD_foldl_or (fun j => (b / 8 * 8 + j) * alloclistSize i < alloclistHeadersize i)
    (Nat.le_refl 8), Nat.div_add_mod']
  simp [Nat.mod_lt]

/-- A page in which `alloclist_alloc` finds nothing is full. -/
theorem used_of_alloclistAlloc_none {d : Allocdata} {i b : Nat} (h : alloclistAlloc d i = none)
    (hb : b < alloclistDatabit i) : d.used b = true := by
  have hones : ∀ j < 8, (0xFF : BitVec 8).getLsbD j = true := by decide
  have hmod := Nat.mod_lt b (show 8 > 0 by decide)
  unfold alloclistAlloc at h
  cases hk : (List.range (alloclistDatasize i)).find? fun k => d.data k != 0xFF with
  | none =>
    have hfull := List.find?_eq_none.mp hk (b / 8) (List.mem_range.mpr (by
      unfold alloclistDatasize
      omega))
    have hbyte : d.data (b / 8) = 0xFF := by simpa using hfull
    rw [Allocdata.used, hbyte, hones _ hmod]
  | some k =>
    rw [hk] at h
    dsimp only at h
    split_ifs at h with hle
    obtain ⟨-, -, hfirst⟩ := List.find?_range_eq_some.mp hk
    -- the first slot that is free is beyond the page
    by_contra hfree
    have hkb : k ≤ b / 8 := by
      by_contra hlt
      have hbyte : d.data (b / 8) = 0xFF := by simpa using hfirst _ (Nat.lt_of_not_le hlt)
      exact hfree (by rw [Allocdata.used, hbyte, hones _ hmod])
    cases hj : (List.range 8).find? fun j => !(d.data k).getLsbD j with
    | none =>
      rw [hj, Option.getD_none] at hle
      have hbit := List.find?_range_eq_none.mp hj _ hmod
      have hne : k ≠ b / 8 := by
        rintro rfl
        exact hfree (by simpa [Allocdata.used] using hbit)
      omega
    | some j =>
      rw [hj, Option.getD_some] at hle
      obtain ⟨-, hj8, hbefore⟩ := List.find?_range_eq_some.mp hj
      have hj8 := List.mem_range.mp hj8
      have heq : k = b / 8 := by omega
      have hbit := hbefore (b % 8) (by omega)
      exact hfree (by simpa [Allocdata.used, heq] using hbit)

/-! ### The invariant -/

/-- The address of a small block. -/
def slotAddr (p i b : Nat) : Nat := pageToVirt p + b * alloclistSize i

/-- What holds of a page that is cut for a size class, with its header. -/
structure PageSlots (live : Nat → Option Nat) (p i : Nat) (d : Allocdata) : Prop where
  covered : ∀ b, b * alloclistSize i < alloclistHeadersize i → d.used b = true
  full : d.n &&& 0x80 ≠ 0 → ∀ b < alloclistDatabit i, d.used b = true
  owned : ∀ b < alloclistDatabit i, d.used b = true →
    alloclistHeadersize i ≤ b * alloclistSize i →
      live (slotAddr p i b) = some (alloclistSize i)
  after : ∀ b, 0 < b → b < alloclistDatabit i → (live (slotAddr p i b)).isSome = true →
    alloclistHeadersize i ≤ b * alloclistSize i

/-- What holds of the pages that are cut. -/
structure Slots (cls : Nat → Option Nat) (h : Heap) (live : Nat → Option Nat) : Prop where
  heap : HeapInv cls h live
  linked : ∀ p i, cls p = some i → (h.header p).n &&& 0x80 = 0 → p ∈ h.alloclist i
  page : ∀ p i, cls p = some i → PageSlots live p i (h.header p)

section

variable {cls : Nat → Option Nat} {h h' : Heap} {live live' : Nat → Option Nat} {a p i : Nat}

/-- A block that does not begin with a page is a slot. -/
theorem HeapInv.slot_of_block (hinv : HeapInv cls h live) {size : Nat} (hb : BlockOf cls h a size)
    (ho : a % 4096 ≠ 0) : ∃ i b, cls (virtToPage a) = some i ∧ size = alloclistSize i ∧ 0 < b ∧
      b < alloclistDatabit i ∧ a = slotAddr (virtToPage a) i b ∧
        (h.header (virtToPage a)).used b = true := by
  cases hb with
  | @small p i b hcls h0 hb hused =>
    obtain ⟨hp, -, -⟩ := small_offset (p := p) (hinv.cls_lt p i hcls) h0 hb
    rw [hp]
    exact ⟨i, b, hcls, rfl, h0, hb, rfl, hused⟩
  | @pages p k _ _ _ => exact absurd (virtToPage_pageToVirt p).2 ho

theorem HeapInv.page_of_block (hinv : HeapInv cls h live) {size : Nat} (hb : BlockOf cls h a size)
    (ho : a % 4096 = 0) : cls (virtToPage a) = none ∧ a = pageToVirt (virtToPage a) := by
  cases hb with
  | @small p i b hcls h0 hb _ =>
    obtain ⟨-, ho', hne⟩ := small_offset (p := p) (hinv.cls_lt p i hcls) h0 hb
    exact absurd (ho'.symm.trans ho) hne
  | @pages p k hcls _ _ =>
    rw [(virtToPage_pageToVirt p).1]
    exact ⟨hcls, rfl⟩

/-- A page that is cut and not full is pushed on its list. -/
theorem HeapInv.link (hinv : HeapInv cls h live) (hcls : cls p = some i)
    (hflag : (h.header p).n &&& 0x80 = 0) (hnew : p ∉ h.alloclist i) : HeapInv cls
      { h with alloclist := Function.update h.alloclist i (p :: h.alloclist i) } live := by
  refine ⟨hinv.pages, hinv.cls_lt, hinv.cut, fun q j hq => ?_, fun j => ?_, hinv.lt,
    fun a size ha => (hinv.live a size ha).mono (fun q j c hq hc _ _ => ⟨hq, hc⟩)
      fun q k hq hpage _ => ⟨hq, hpage⟩⟩
  · dsimp only at hq ⊢
    rw [Function.update_apply] at hq
    split_ifs at hq with hj
    · rcases List.mem_cons.mp hq with rfl | hq
      · exact ⟨hj ▸ hcls, hflag⟩
      · exact hj ▸ hinv.listed q i hq
    · exact hinv.listed q j hq
  · dsimp only
    rw [Function.update_apply]
    split_ifs
    · exact List.nodup_cons.mpr ⟨hnew, hinv.nodup i⟩
    · exact hinv.nodup j

theorem pos_of_headersize_le {b : Nat} (hle : alloclistHeadersize i ≤ b * alloclistSize i) :
    0 < b := by
  refine Nat.pos_of_ne_zero ?_
  rintro rfl
  unfold alloclistHeadersize at hle
  omega

theorem PageSlots.congr {d : Allocdata} (hpage : PageSlots live p i d)
    (hlive : ∀ b, 0 < b → b < alloclistDatabit i → live' (slotAddr p i b) = live (slotAddr p i b)) :
    PageSlots live' p i d := by
  refine ⟨hpage.covered, hpage.full, fun b hb hused hle => ?_, fun b h0 hb hsome => ?_⟩
  · rw [hlive b (pos_of_headersize_le hle) hb]
    exact hpage.owned b hb hused hle
  · rw [hlive b h0 hb] at hsome
    exact hpage.after b h0 hb hsome

/-- Blocks of pages come and go without regard to the pages that are cut. -/
theorem Slots.pages_congr {pages : PageAlloc} (hslots : Slots cls h live)
    (hinv : HeapInv cls { h with pages := pages } live')
    (hlive : ∀ a, a % 4096 ≠ 0 → live' a = live a) : Slots cls { h with pages := pages } live' := by
  refine ⟨hinv, hslots.linked, fun p i hcls => (hslots.page p i hcls).congr fun b h0 hb => ?_⟩
  obtain ⟨-, ho, hne⟩ := small_offset (p := p) (hinv.cls_lt p i hcls) h0 hb
  refine hlive _ ?_
  rw [slotAddr, ho]
  exact hne

/-- A page that is cut is linked, and has no slot that belongs to a caller. -/
theorem Slots.cutPage (hslots : Slots cls h live) (hcls : cls p = none)
    (hinv : HeapInv (Function.update cls p (some i))
      { h with
        header := Function.update h.header p (newAllocdata i)
        alloclist := Function.update h.alloclist i (p :: h.alloclist i) } live) :
    Slots (Function.update cls p (some i))
      { h with
        header := Function.update h.header p (newAllocdata i)
        alloclist := Function.update h.alloclist i (p :: h.alloclist i) } live := by
  have hi := hinv.cls_lt p i (Function.update_self _ _ _)
  refine ⟨hinv, fun q j hq hflag => ?_, fun q j hq => ?_⟩
  · dsimp only at hflag ⊢
    by_cases heq : q = p
    · subst heq
      rw [Function.update_self] at hq
      cases hq
      rw [Function.update_self]
      exact List.mem_cons_self
    · rw [Function.update_of_ne heq] at hq hflag
      have hmem := hslots.linked q j hq hflag
      rw [Function.update_apply]
      split_ifs with hj
      · exact List.mem_cons_of_mem _ (hj ▸ hmem)
      · exact hmem
  · dsimp only
    by_cases heq : q = p
    · subst heq
      rw [Function.update_self] at hq
      cases hq
      rw [Function.update_self]
      have hflag : ∀ i < numOfAlloclist, (newAllocdata i).n &&& 0x80 = 0 := by decide
      refine ⟨fun b hb => ?_, fun hn => absurd (hflag i hi) hn, fun b _ hused hle => ?_,
        fun b h0 hb hsome => ?_⟩
      · rw [used_newAllocdata]
        exact decide_eq_true hb
      · rw [used_newAllocdata, decide_eq_true_iff] at hused
        omega
      · -- nobody has a block of a page that was not cut
        obtain ⟨size, hlive⟩ := Option.isSome_iff_exists.mp hsome
        obtain ⟨hq, ho, hne⟩ := small_offset (p := q) hi h0 hb
        obtain ⟨j, -, hj, -⟩ := hslots.heap.slot_of_block (hslots.heap.live _ _ hlive)
          (by rw [slotAddr, ho]; exact hne)
        rw [slotAddr, hq, hcls] at hj
        cases hj
    · rw [Function.update_of_ne heq] at hq ⊢
      exact hslots.page q j hq

/-- The first page of a list leaves it where it is full. -/
theorem Slots.markFull (hslots : Slots cls h live) {ps : List Nat} (hlist : h.alloclist i = p :: ps)
    (hnone : alloclistAlloc (h.header p) i = none) : Slots cls { h with
      header := Function.update h.header p { h.header p with n := (h.header p).n ||| 0x80 }
      alloclist := Function.update h.alloclist i ps } live := by
  obtain ⟨hcls, -⟩ := hslots.heap.listed p i (hlist ▸ List.mem_cons_self)
  refine ⟨hslots.heap.markFull hlist, fun q j hq hflag => ?_, fun q j hq => ?_⟩
  · dsimp only at hflag ⊢
    have hqp : q ≠ p := by
      rintro rfl
      rw [Function.update_self] at hflag
      have hset : ∀ n : BitVec 8, (n ||| 0x80) &&& 0x80 ≠ 0 := by decide
      exact hset _ hflag
    rw [Function.update_of_ne hqp] at hflag
    have hmem := hslots.linked q j hq hflag
    rw [Function.update_apply]
    split_ifs with hj
    · rw [hj, hlist] at hmem
      exact (List.mem_cons.mp hmem).resolve_left hqp
    · exact hmem
  · have hpage := hslots.page q j hq
    dsimp only
    rw [Function.update_apply]
    split_ifs with heq
    · subst heq
      rw [hcls] at hq
      cases hq
      have hfull : ∀ b < alloclistDatabit i, (h.header q).used b = true :=
        fun b hb => used_of_alloclistAlloc_none hnone hb
      exact ⟨hpage.covered, fun _ => hfull, hpage.owned, hpage.after⟩
    · exact hpage

/-- A slot of the first page of a list goes to a caller. -/
theorem Slots.allocFrom (hslots : Slots cls h live) {ps : List Nat}
    (hlist : h.alloclist i = p :: ps) {r : Nat × Allocdata}
    (hr : alloclistAlloc (h.header p) i = some r) (ha : Vmm.allocFrom h i p ps r = some (a, h')) :
    Slots cls h' (Function.update live a (some (alloclistSize i))) ∧ live a = none ∧
      virtToPage a = p ∧ a % 4096 ≠ 0 := by
  obtain ⟨hcls, hflag⟩ := hslots.heap.listed p i (hlist ▸ List.mem_cons_self)
  have hnodup := hslots.heap.nodup i
  rw [hlist] at hnodup
  obtain ⟨hinv, hnone, hblock⟩ := hslots.heap.allocFrom hcls hflag
    (fun q hq => hlist ▸ List.mem_cons_of_mem p hq) hnodup hr ha
  obtain ⟨offset, d⟩ := r
  obtain ⟨b, rfl, hb, hfree, hn, hused⟩ := alloclistAlloc_spec hr
  unfold Vmm.allocFrom at ha
  dsimp only at ha
  split_ifs at ha with hassert
  cases ha
  have h0 : 0 < b := Nat.pos_of_ne_zero fun h => hassert.1 (by rw [h, Nat.zero_mul])
  have hi := hslots.heap.cls_lt p i hcls
  obtain ⟨hp, ho, hne⟩ := small_offset (p := p) hi h0 hb
  refine ⟨⟨hinv.addLive hblock, fun q j hq hflag' => ?_, fun q j hq => ?_⟩, hnone, hp,
    fun hzero => hne (ho.symm.trans hzero)⟩
  · dsimp only at hflag' ⊢
    rw [← hlist, Function.update_eq_self]
    refine hslots.linked q j hq ?_
    rw [Function.update_apply] at hflag'
    split_ifs at hflag' with heq
    · rw [heq]
      exact hflag
    · exact hflag'
  · have hpage := hslots.page q j hq
    dsimp only
    by_cases heq : q = p
    · subst heq
      rw [hcls] at hq
      cases hq
      rw [Function.update_self]
      have hother : ∀ c < alloclistDatabit i, c ≠ b → Function.update live
          (pageToVirt q + b * alloclistSize i) (some (alloclistSize i)) (slotAddr q i c) =
            live (slotAddr q i c) :=
        fun c hc hcb => Function.update_of_ne (fun h => hcb (small_inj hi hc hb h).2) _ _
      refine ⟨fun c hc => ?_, fun hset => ?_, fun c hc hcu hle => ?_, fun c hc0 hc hsome => ?_⟩
      · rw [hused, hpage.covered c hc]
        rfl
      · rw [hn] at hset
        exact absurd hflag hset
      · by_cases hcb : c = b
        · rw [hcb]
          exact Function.update_self _ _ _
        · rw [hother c hc hcb]
          rw [hused, decide_eq_false hcb, Bool.or_false] at hcu
          exact hpage.owned c hc hcu hle
      · by_cases hcb : c = b
        · -- the slot was free, and what the header covers is not
          by_contra hlt
          rw [hpage.covered b (hcb ▸ Nat.lt_of_not_le hlt)] at hfree
          cases hfree
        · rw [hother c hc hcb] at hsome
          exact hpage.after c hc0 hc hsome
    · rw [Function.update_of_ne heq]
      refine hpage.congr fun c hc0 hc => Function.update_of_ne (fun h => heq ?_) _ _
      rw [← hp, ← h]
      exact (small_offset (hslots.heap.cls_lt q j hq) hc0 hc).1.symm

theorem allocFrom_pushed (h : Heap) (list : List Nat) {ps : List Nat} (r : Nat × Allocdata) :
    Vmm.allocFrom { h with alloclist := Function.update h.alloclist i list } i p ps r =
      Vmm.allocFrom h i p ps r := by
  unfold Vmm.allocFrom
  simp only [Function.update_idem]

/-- The loop of `alloc` gives a slot of a page that is cut for the size class, or now is. -/
theorem Slots.allocLoop (hslots : Slots cls h live) (hi : i < numOfAlloclist) (ps : List Nat)
    (hlist : h.alloclist i = ps) (ha : Vmm.allocLoop i ps h = some (a, h')) :
    Slots (Function.update cls (virtToPage a) (some i)) h'
      (Function.update live a (some (alloclistSize i))) ∧ live a = none ∧ a % 4096 ≠ 0 ∧
        ∀ j, cls (virtToPage a) = some j → j = i := by
  induction ps generalizing h with
  | nil =>
    rw [Vmm.allocLoop] at ha
    obtain ⟨⟨p, h₁⟩, hnew, ha⟩ := Option.bind_eq_some_iff.mp ha
    obtain ⟨r, hr, ha⟩ := Option.bind_eq_some_iff.mp ha
    obtain ⟨⟨tmp, h₂⟩, hpages, heq⟩ := Option.map_eq_some_iff.mp hnew
    obtain ⟨k, q, pages, hk, halloc, rfl, rfl⟩ := allocPages_eq_some hpages
    cases heq
    rw [(virtToPage_pageToVirt q).1] at ha hr
    have hret := returned_of_mmPageAlloc hslots.heap.pages (pageOrder_spec hk).1 halloc
    obtain ⟨hinv₂, hcls, hlive⟩ := hslots.heap.takePages hret
    have hcut := hinv₂.cutPage (i := i) hi hcls hlive hret.page
    have hflag : ∀ i < numOfAlloclist, (newAllocdata i).n &&& 0x80 = 0 := by decide
    have hnot : q ∉ h.alloclist i := by
      rw [hlist]
      exact List.not_mem_nil
    have hlink := hcut.link (Function.update_self _ _ _)
      (by dsimp only; rw [Function.update_self]; exact hflag i hi) hnot
    -- the page is pushed on the list that it was not taken from
    have hslots' := (hslots.pages_congr hinv₂ fun _ _ => rfl).cutPage hcls hlink
    rw [← allocFrom_pushed _ (q :: h.alloclist i)] at ha
    obtain ⟨hslots'', hnone, hp, hne⟩ := hslots'.allocFrom
      ((Function.update_self _ _ _).trans (congrArg (q :: ·) hlist)) hr ha
    rw [hp, hcls]
    refine ⟨hslots'', hnone, hne, ?_⟩
    rintro j ⟨⟩
  | cons p ps ih =>
    rw [Vmm.allocLoop] at ha
    cases hr : alloclistAlloc (h.header p) i with
    | some r =>
      rw [hr] at ha
      obtain ⟨hslots', hnone, hp, hne⟩ := hslots.allocFrom hlist hr ha
      obtain ⟨hcls, -⟩ := hslots.heap.listed p i (hlist ▸ List.mem_cons_self)
      rw [hp, ← hcls, Function.update_eq_self]
      exact ⟨hslots', hnone, hne, fun j hj => Option.some.inj (hj.symm.trans hcls)⟩
    | none =>
      rw [hr] at ha
      exact ih (hslots.markFull hlist hr) (Function.update_self _ _ _) ha

/-- What `free` does with a slot: its bit is cleared, and its page is linked if it was marked. -/
theorem heapFree_slot {b : Nat} (hi : i < numOfAlloclist) (h0 : 0 < b) (hb : b < alloclistDatabit i)
    (hcls : (h.header p).cls = i) (hused : (h.header p).used b = true) :
    ∃ d : Allocdata, Vmm.heapFree h (slotAddr p i b) = some
        { h with
          header := Function.update h.header p d
          alloclist := if (h.header p).n &&& 0x80 ≠ 0 then
            Function.update h.alloclist i (p :: h.alloclist i) else h.alloclist } ∧
      d.n &&& 0x80 = 0 ∧ ∀ c, d.used c = ((h.header p).used c && decide (c ≠ b)) := by
  obtain ⟨hp, ho, hne⟩ := small_offset (p := p) hi h0 hb
  have hn : ((h.header p).n &&& ~~~0x80).toNat = i := hcls
  unfold Vmm.heapFree slotAddr
  dsimp only
  rw [hp, ho, if_neg hne]
  by_cases hflag : (h.header p).n &&& 0x80 ≠ 0
  · have hclear : ∀ n : BitVec 8, (n &&& ~~~0x80) &&& 0x80 = 0 := by decide
    obtain ⟨d, hfree, hdn, hbits⟩ := alloclistFree_spec (n := i)
      (d := { h.header p with n := (h.header p).n &&& ~~~0x80 }) (b := b) hused
    refine ⟨d, ?_, by rw [hdn]; exact hclear _, hbits⟩
    rw [if_pos hflag, if_pos hflag]
    dsimp only
    rw [Function.update_self, hn, hfree, Option.map_some, Function.update_idem]
  · have hsame : ∀ n : BitVec 8, n &&& 0x80 = 0 → n &&& ~~~0x80 = n := by decide
    rw [hsame _ (not_not.mp hflag)] at hn
    obtain ⟨d, hfree, hdn, hbits⟩ := alloclistFree_spec (n := i) hused
    refine ⟨d, ?_, by rw [hdn]; exact not_not.mp hflag, hbits⟩
    rw [if_neg hflag, if_neg hflag, hn, hfree]
    rfl

/-- A slot that was freed belongs to nobody. -/
theorem PageSlots.free {d d' : Allocdata} {b : Nat} (hpage : PageSlots live p i d)
    (hi : i < numOfAlloclist) (h0 : 0 < b) (hb : b < alloclistDatabit i)
    (hlive : (live (slotAddr p i b)).isSome = true) (hn : d'.n &&& 0x80 = 0)
    (hused : ∀ c, d'.used c = (d.used c && decide (c ≠ b))) :
    PageSlots (Function.update live (slotAddr p i b) none) p i d' := by
  have hother : ∀ c < alloclistDatabit i, c ≠ b →
      Function.update live (slotAddr p i b) none (slotAddr p i c) = live (slotAddr p i c) :=
    fun c hc hcb => Function.update_of_ne (fun h => hcb (small_inj hi hc hb h).2) _ _
  have hle := hpage.after b h0 hb hlive
  refine ⟨fun c hc => ?_, fun hset => absurd hn hset, fun c hc hcu hle' => ?_,
    fun c hc0 hc hsome => ?_⟩
  · have hcb : c ≠ b := by
      rintro rfl
      omega
    rw [hused, hpage.covered c hc, decide_eq_true hcb]
    rfl
  · rw [hused, Bool.and_eq_true, decide_eq_true_iff] at hcu
    rw [hother c hc hcu.2]
    exact hpage.owned c hc hcu.1 hle'
  · by_cases hcb : c = b
    · exact hcb ▸ hle
    · rw [hother c hc hcb] at hsome
      exact hpage.after c hc0 hc hsome

/-- A block that a caller has is freed. -/
theorem Slots.heapFree (hslots : Slots cls h live) {size : Nat} (ha : live a = some size)
    (hfree : Vmm.heapFree h a = some h') : Slots cls h' (Function.update live a none) := by
  obtain ⟨h₁, hfree', hinv⟩ := hslots.heap.heapFree ha
  have heq : h₁ = h' := Option.some.inj (hfree'.symm.trans hfree)
  subst heq
  by_cases ho : a % 4096 = 0
  · unfold Vmm.heapFree at hfree
    rw [if_pos ho] at hfree
    cases hfree
    refine hslots.pages_congr hinv fun x hx => Function.update_of_ne ?_ _ _
    rintro rfl
    exact hx ho
  · obtain ⟨i, b, hcls, -, h0, hb, haddr, hused⟩ :=
      hslots.heap.slot_of_block (hslots.heap.live a size ha) ho
    have hi := hslots.heap.cls_lt _ i hcls
    have hheader := (hslots.heap.cut _ i hcls).2
    obtain ⟨d, hslot, hn, hbits⟩ := heapFree_slot hi h0 hb hheader hused
    rw [← haddr, hfree] at hslot
    cases hslot
    have hmem : ∀ q j, q ∈ h.alloclist j → q ∈ (if (h.header (virtToPage a)).n &&& 0x80 ≠ 0 then
        Function.update h.alloclist i (virtToPage a :: h.alloclist i) else h.alloclist) j := by
      intro q j hq
      split_ifs
      · rw [Function.update_apply]
        split_ifs with hj
        · exact List.mem_cons_of_mem _ (hj ▸ hq)
        · exact hq
      · exact hq
    refine ⟨hinv, fun q j hq hflag => ?_, fun q j hq => ?_⟩
    · dsimp only at hflag ⊢
      by_cases hqp : q = virtToPage a
      · subst hqp
        rw [hcls] at hq
        cases hq
        by_cases hset : (h.header (virtToPage a)).n &&& 0x80 ≠ 0
        · rw [if_pos hset, Function.update_self]
          exact List.mem_cons_self
        · rw [if_neg hset]
          exact hslots.linked _ i hcls (not_not.mp hset)
      · rw [Function.update_of_ne hqp] at hflag
        exact hmem q j (hslots.linked q j hq hflag)
    · have hpage := hslots.page q j hq
      dsimp only
      by_cases hqp : q = virtToPage a
      · subst hqp
        rw [hcls] at hq
        cases hq
        rw [Function.update_self]
        have hfreed := hpage.free hi h0 hb (by rw [← haddr, ha]; rfl) hn hbits
        rw [← haddr] at hfreed
        exact hfreed
      · rw [Function.update_of_ne hqp]
        refine hpage.congr fun c hc0 hc => Function.update_of_ne (fun h => hqp ?_) _ _
        rw [← h]
        exact (small_offset (hslots.heap.cls_lt q j hq) hc0 hc).1.symm

/-- Pages go to a caller. -/
theorem Slots.allocPages (hslots : Slots cls h live) {n : BitVec 32}
    (ha : Vmm.allocPages h n = some (a, h')) : ∃ size,
      Slots cls h' (Function.update live a (some size)) ∧ live a = none ∧ a % 4096 = 0 := by
  obtain ⟨k, p, pages, hk, halloc, rfl, rfl⟩ := allocPages_eq_some ha
  have hret := returned_of_mmPageAlloc hslots.heap.pages (pageOrder_spec hk).1 halloc
  obtain ⟨hinv, hcls, hnone⟩ := hslots.heap.takePages hret
  have hzero := (virtToPage_pageToVirt p).2
  refine ⟨allocsize k, hslots.pages_congr (hinv.addLive (.pages hcls (pageOrder_spec hk).1
    hret.page)) fun x hx => Function.update_of_ne ?_ _ _, hnone, hzero⟩
  rintro rfl
  exact hx hzero

/-- What `alloc` returns nobody has, and it is a slot where the length is one of a size class. -/
theorem Slots.alloc (hslots : Slots cls h live) {len : BitVec 32}
    (ha : Vmm.alloc h len = some (a, h')) : ∃ cls' size, Slots cls' h'
        (Function.update live a (some size)) ∧ live a = none ∧
      (a % 4096 = 0 → cls' = cls) ∧
      (a % 4096 ≠ 0 → ∃ i, cls' = Function.update cls (virtToPage a) (some i) ∧
        ∀ j, cls (virtToPage a) = some j → j = i) ∧
      (len ≤ 1024 → a % 4096 ≠ 0 ∧ len.toNat ≤ size) := by
  unfold Vmm.alloc at ha
  cases hi : (List.range numOfAlloclist).find? fun i => len ≤ BitVec.ofNat 32 (alloclistSize i) with
  | some i =>
    rw [hi] at ha
    have hi7 := List.mem_range.mp (List.mem_of_find?_eq_some hi)
    obtain ⟨hslots', hnone, hne, hsame⟩ := hslots.allocLoop hi7 _ rfl ha
    have hle : len ≤ BitVec.ofNat 32 (alloclistSize i) := by simpa using List.find?_some hi
    have hall : ∀ i < numOfAlloclist, (BitVec.ofNat 32 (alloclistSize i)).toNat = alloclistSize i := by
      decide
    exact ⟨_, _, hslots', hnone, fun hzero => absurd hzero hne, fun _ => ⟨i, rfl, hsame⟩,
      fun _ => ⟨hne, hall i hi7 ▸ BitVec.le_def.mp hle⟩⟩
  | none =>
    rw [hi] at ha
    have hlong : ¬ len ≤ 1024 := by
      have hlast : ¬ len ≤ BitVec.ofNat 32 (alloclistSize 6) := by
        simpa using List.find?_range_eq_none.mp hi 6 (by decide)
      exact hlast
    obtain ⟨size, hslots', hnone, hzero⟩ := hslots.allocPages ha
    exact ⟨cls, size, hslots', hnone, fun _ => rfl, fun hne => absurd hzero hne,
      fun hle => absurd hle hlong⟩

/-- The pages of a block, which no other block has a part of. -/
theorem HeapInv.extent (hinv : HeapInv cls h live) {size : Nat} (hb : BlockOf cls h a size) :
    ∃ p k, h.pages.page p = ⟨.allocated, k⟩ ∧ pageToVirt p ≤ a ∧
      a + size ≤ pageToVirt p + 4096 * 2 ^ k ∧ virtToPage a = p := by
  cases hb with
  | @small p i b hcls h0 hb _ =>
    have hi := hinv.cls_lt p i hcls
    obtain ⟨hp, -, -⟩ := small_offset (p := p) hi h0 hb
    have hle := databit_mul hi hb
    have hpos := Nat.two_pow_pos (h.pages.page p).allocsize
    refine ⟨p, (h.pages.page p).allocsize, ?_, Nat.le_add_right _ _, ?_, hp⟩
    · rw [← (hinv.cut p i hcls).1]
    · omega
  | @pages p k _ _ hpage =>
    refine ⟨p, k, hpage, Nat.le_refl _, ?_, (virtToPage_pageToVirt p).1⟩
    rw [allocsize, Nat.shiftLeft_eq]

/-- Blocks that callers have are disjoint. -/
theorem HeapInv.disjoint (hinv : HeapInv cls h live) {b size size' : Nat}
    (ha : live a = some size) (hb : live b = some size') (hne : a ≠ b) :
    a + size ≤ b ∨ b + size' ≤ a := by
  have hblock := hinv.live a size ha
  have hblock' := hinv.live b size' hb
  obtain ⟨p, k, hp, hap, hae, hpa⟩ := hinv.extent hblock
  obtain ⟨q, l, hq, hbq, hbe, hqb⟩ := hinv.extent hblock'
  have hlt : p < numOfPages := hinv.lt p (by rw [hp])
  have hlt' : q < numOfPages := hinv.lt q (by rw [hq])
  by_cases hpq : p = q
  · rw [← hpa, ← hqb] at hpq
    by_cases hao : a % 4096 = 0
    · obtain ⟨hcls, haddr⟩ := hinv.page_of_block hblock hao
      by_cases hbo : b % 4096 = 0
      · rw [hpq, ← (hinv.page_of_block hblock' hbo).2] at haddr
        exact absurd haddr hne
      · obtain ⟨j, -, hj, -⟩ := hinv.slot_of_block hblock' hbo
        rw [← hpq, hcls] at hj
        cases hj
    · obtain ⟨i, c, hi, rfl, -, -, haddr, -⟩ := hinv.slot_of_block hblock hao
      by_cases hbo : b % 4096 = 0
      · rw [hpq, (hinv.page_of_block hblock' hbo).1] at hi
        cases hi
      · obtain ⟨j, d, hj, rfl, -, -, haddr', -⟩ := hinv.slot_of_block hblock' hbo
        rw [← hpq, hi] at hj
        cases hj
        rw [← hpq] at haddr'
        have hcd : c ≠ d := fun hcd => hne (by rw [haddr, haddr', hcd])
        rw [haddr, haddr']
        unfold slotAddr
        rcases Nat.lt_or_gt_of_ne hcd with hlt | hlt
        · have := Nat.mul_le_mul_right (alloclistSize i) hlt
          rw [Nat.succ_mul] at this
          omega
        · have := Nat.mul_le_mul_right (alloclistSize i) hlt
          rw [Nat.succ_mul] at this
          omega
  · have hhead : ∀ {x m}, h.pages.page x = ⟨.allocated, m⟩ → (h.pages.page x).type ≠ .notHead := by
      intro x m hx
      rw [hx]
      nofun
    unfold pageToVirt at hap hae hbq hbe
    rcases Nat.lt_or_gt_of_ne hpq with hlt | hlt
    · have hend : p + 2 ^ k ≤ q := by
        by_contra hgt
        refine (hinv.pages.tiling.inner p ‹_› (hhead hp) q hlt ?_).1 (hhead hq)
        rw [hp]
        exact Nat.lt_of_not_le hgt
      omega
    · have hend : q + 2 ^ l ≤ p := by
        by_contra hgt
        refine (hinv.pages.tiling.inner q ‹_› (hhead hq) p hlt ?_).1 (hhead hp)
        rw [hq]
        exact Nat.lt_of_not_le hgt
      omega

end

/-! ### Runs -/

/-- The heap, the blocks that callers have, with their lengths, and the pages that slots were ever
given out of, with their size classes. -/
structure SlotRun where
  heap : Heap
  live : Nat → Option Nat
  cut : Nat → Option Nat

/-- A block is returned to a caller. -/
def SlotRun.ret (s : SlotRun) (a : Nat) (h : Heap) : SlotRun where
  heap := h
  live := Function.update s.live a (some (getAllocLen h a).1.toNat)
  cut := if a % 4096 = 0 then s.cut
    else Function.update s.cut (virtToPage a) (some (h.header (virtToPage a)).cls)

inductive SlotEvent where
  | alloc (len : BitVec 32)
  | allocPages (n : BitVec 32)
  | free (virt : Nat)

/-- Calls by callers who free only what they have; no step where one panics. -/
def slotMachine (img : VmmImage) : Lib.Machine SlotRun SlotEvent where
  init s := s.heap.pages = mmInitGlobal img ∧ s.heap.alloclist = (fun _ => []) ∧
    s.live = (fun _ => none) ∧ s.cut = fun _ => none
  step s
    | .alloc len => (alloc s.heap len).map fun (a, h) => s.ret a h
    | .allocPages n => (allocPages s.heap n).map fun (a, h) => s.ret a h
    | .free virt =>
      if (s.live virt).isSome then
        (heapFree s.heap virt).map fun h => { s with
          heap := h
          live := Function.update s.live virt none }
      else none

/-- A page has a slot that the header does not cover and nobody has. -/
def SlotRun.HasFree (s : SlotRun) (p i : Nat) : Prop :=
  ∃ b < alloclistDatabit i, alloclistHeadersize i ≤ b * alloclistSize i ∧
    s.live (slotAddr p i b) = none

/-- What is returned keeps the invariant, and the page of a slot stays cut for its size class. -/
theorem Slots.ret {s : SlotRun} {cls : Nat → Option Nat} {h : Heap} {a size : Nat}
    (hslots : Slots cls h (Function.update s.live a (some size)))
    (hpage : a % 4096 = 0 → cls = s.cut)
    (hslot : a % 4096 ≠ 0 → ∃ i, cls = Function.update s.cut (virtToPage a) (some i) ∧
      ∀ j, s.cut (virtToPage a) = some j → j = i) :
    (s.ret a h).cut = cls ∧ (s.ret a h).live = Function.update s.live a (some size) ∧
      ∀ p i, s.cut p = some i → (s.ret a h).cut p = some i := by
  have hblock := hslots.heap.live a size (Function.update_self _ _ _)
  unfold SlotRun.ret
  dsimp only
  rw [(hslots.heap.getAllocLen hblock).1]
  by_cases ho : a % 4096 = 0
  · rw [if_pos ho]
    exact ⟨(hpage ho).symm, rfl, fun _ _ hp => hp⟩
  · obtain ⟨i, rfl, hsame⟩ := hslot ho
    rw [if_neg ho, (hslots.heap.cut _ i (Function.update_self _ _ _)).2]
    refine ⟨rfl, rfl, fun p j hp => ?_⟩
    rw [Function.update_apply]
    split_ifs with heq
    · rw [hsame j (heq ▸ hp)]
    · exact hp

section

variable {img : VmmImage} {s s' : SlotRun}

theorem Slots.step_alloc {len : BitVec 32} (hslots : Slots s.cut s.heap s.live)
    (hs : (slotMachine img).step s (.alloc len) = some s') :
    (Slots s'.cut s'.heap s'.live ∧ ∀ p i, s.cut p = some i → s'.cut p = some i) ∧
      ∃ a size, s.live a = none ∧ s'.live = Function.update s.live a (some size) ∧
        (len ≤ 1024 → a % 4096 ≠ 0 ∧ len.toNat ≤ size) := by
  obtain ⟨⟨a, h⟩, ha, rfl⟩ := Option.map_eq_some_iff.mp hs
  obtain ⟨cls', size, hslots', hnone, hpage, hslot, hshort⟩ := hslots.alloc ha
  obtain ⟨hcut, hlive, hsame⟩ := hslots'.ret hpage hslot
  refine ⟨⟨?_, hsame⟩, a, size, hnone, hlive, hshort⟩
  rw [hcut, hlive]
  exact hslots'

/-- A step keeps the invariant, and pages stay cut for their size classes. -/
theorem Slots.step {e : SlotEvent} (hslots : Slots s.cut s.heap s.live)
    (hs : (slotMachine img).step s e = some s') :
    Slots s'.cut s'.heap s'.live ∧ ∀ p i, s.cut p = some i → s'.cut p = some i := by
  cases e with
  | alloc len => exact (hslots.step_alloc hs).1
  | allocPages n =>
    obtain ⟨⟨a, h⟩, ha, rfl⟩ := Option.map_eq_some_iff.mp hs
    obtain ⟨size, hslots', -, hzero⟩ := hslots.allocPages ha
    obtain ⟨hcut, hlive, hsame⟩ := hslots'.ret (fun _ => rfl) fun hne => absurd hzero hne
    refine ⟨?_, hsame⟩
    rw [hcut, hlive]
    exact hslots'
  | free virt =>
    simp only [slotMachine] at hs
    split_ifs at hs with hvirt
    obtain ⟨size, hvirt⟩ := Option.isSome_iff_exists.mp hvirt
    obtain ⟨h, hfree, rfl⟩ := Option.map_eq_some_iff.mp hs
    exact ⟨hslots.heapFree hvirt hfree, fun _ _ hp => hp⟩

theorem slots_of_reachable (hs : (slotMachine img).Reachable s) : Slots s.cut s.heap s.live := by
  refine Lib.Machine.ReachableWhen.invariant (I := fun s => Slots s.cut s.heap s.live) ?_
    (fun _ _ _ hslots _ hstep => (hslots.step hstep).1) hs
  rintro s ⟨hpages, hlist, hlive, hcut⟩
  obtain ⟨hinv, hnone, -⟩ := mmInitGlobal_spec img
  rw [hcut, hlive]
  refine ⟨⟨by rw [hpages]; exact hinv, nofun, nofun, fun p i hp => ?_, fun i => ?_, fun p hp => ?_,
    nofun⟩, nofun, nofun⟩
  · rw [hlist] at hp
    exact absurd hp List.not_mem_nil
  · rw [hlist]
    exact List.nodup_nil
  · rw [hpages] at hp
    exact absurd hp (hnone p)

/-- What callers have is disjoint, and small blocks are behind the header of their page. A page with
a free slot is on its list, one that is not is marked and full, and pages that were cut stay
allocated. -/
theorem slots_consistent (hs : (slotMachine img).Reachable s) :
    (∀ a size b size', s.live a = some size → s.live b = some size' → a ≠ b →
      a + size ≤ b ∨ b + size' ≤ a) ∧
    (∀ a size, s.live a = some size → a % 4096 ≠ 0 → ∃ i, s.cut (virtToPage a) = some i ∧
      size = alloclistSize i ∧ alloclistHeadersize i ≤ a % 4096 ∧ a % 4096 + size ≤ 4096) ∧
    (∀ len s', (slotMachine img).step s (.alloc len) = some s' → len ≤ 1024 → ∃ a size,
      a % 4096 ≠ 0 ∧ s.live a = none ∧ s'.live = Function.update s.live a (some size) ∧
        len.toNat ≤ size) ∧
    (∀ p i, p ∈ s.heap.alloclist i → s.cut p = some i) ∧
    (∀ p i, s.cut p = some i → (s.heap.pages.page p).type = .allocated ∧
      (s.HasFree p i → p ∈ s.heap.alloclist i) ∧
      (p ∉ s.heap.alloclist i ↔ (s.heap.header p).n &&& 0x80 ≠ 0)) ∧
    ∀ e s', (slotMachine img).step s e = some s' → ∀ p i, s.cut p = some i → s'.cut p = some i := by
  have hslots := slots_of_reachable hs
  refine ⟨fun _ _ _ _ ha hb hne => hslots.heap.disjoint ha hb hne, fun a size ha ho => ?_,
    fun len s' hstep hlen => ?_, fun p i hp => (hslots.heap.listed p i hp).1, fun p i hp => ?_,
    fun e s' hstep => (hslots.step hstep).2⟩
  · obtain ⟨i, b, hcls, rfl, h0, hb, haddr, -⟩ :=
      hslots.heap.slot_of_block (hslots.heap.live _ _ ha) ho
    have hi := hslots.heap.cls_lt _ i hcls
    have hafter := (hslots.page _ i hcls).after b h0 hb (by rw [← haddr, ha]; rfl)
    have hend := databit_mul hi hb
    obtain ⟨-, ho', -⟩ := small_offset (p := virtToPage a) hi h0 hb
    rw [← slotAddr, ← haddr] at ho'
    rw [ho']
    exact ⟨i, hcls, rfl, hafter, hend⟩
  · obtain ⟨-, a, size, hnone, hlive, hshort⟩ := hslots.step_alloc hstep
    exact ⟨a, size, (hshort hlen).1, hnone, hlive, (hshort hlen).2⟩
  · have hpage := hslots.page p i hp
    refine ⟨(hslots.heap.cut p i hp).1, ?_, fun hnot hzero => hnot (hslots.linked p i hp hzero),
      fun hset hmem => hset (hslots.heap.listed p i hmem).2⟩
    rintro ⟨b, hb, hle, hfree⟩
    refine hslots.linked p i hp ?_
    by_contra hset
    rw [hpage.owned b hb (hpage.full hset b hb) hle] at hfree
    cases hfree

end

/-- The heap before any call, in a VMM whose image is 16 MiB long. -/
def freshSlots : SlotRun := ⟨freshHeap.heap, fun _ => none, fun _ => none⟩

theorem reachable_freshSlots : (slotMachine largeImage).Reachable freshSlots :=
  .init (by simp [slotMachine, freshSlots, freshHeap])

/-- The largest size class. -/
theorem alloc_largest (h : Heap) : alloc h 1024 = allocLoop 6 (h.alloclist 6) h := by
  have hfind : (List.range numOfAlloclist).find? (fun i =>
      decide ((1024 : BitVec 32) ≤ BitVec.ofNat 32 (alloclistSize i))) = some 6 := by decide
  unfold alloc
  rw [hfind]

/-- A run in which a page of the largest size class is the only one on its list. -/
structure OnePage (img : VmmImage) (p : Nat) (d : Allocdata) (s : SlotRun) : Prop where
  reachable : (slotMachine img).Reachable s
  alloclist : s.heap.alloclist 6 = [p]
  header : s.heap.header p = d
  cls : d.cls = 6
  cut : s.cut p = some 6

/-- A slot of the page goes to a caller. -/
theorem onePage_ret {img : VmmImage} {p b : Nat} {s : SlotRun} {h : Heap} {d : Allocdata}
    (hs : (slotMachine img).Reachable s) (h0 : 0 < b) (hb : b < 4)
    (ha : alloc s.heap 1024 = some (slotAddr p 6 b, h)) (hlist : h.alloclist 6 = [p])
    (hheader : h.header p = d) (hcls : d.cls = 6) : ∃ s', OnePage img p d s' ∧
      s'.live = Function.update s.live (slotAddr p 6 b) (some 1024) := by
  obtain ⟨hp, ho, hne⟩ := small_offset (p := p) (i := 6) (by decide) h0 hb
  rw [← slotAddr] at hp ho
  have hn : (d.n &&& ~~~0x80).toNat = 6 := hcls
  refine ⟨s.ret (slotAddr p 6 b) h, ⟨hs.step (e := .alloc 1024) trivial ?_, hlist, hheader, hcls, ?_⟩,
    ?_⟩
  · simp only [slotMachine, ha]
    rfl
  · unfold SlotRun.ret
    dsimp only
    rw [hp, ho, if_neg hne, hheader, hcls, Function.update_self]
  · unfold SlotRun.ret getAllocLen
    dsimp only
    rw [hp, ho, if_neg hne, hheader, hn]
    rfl

theorem cls_of_alloclistAlloc {d d' : Allocdata} {n offset : Nat}
    (h : alloclistAlloc d n = some (offset, d')) : d'.cls = d.cls := by
  obtain ⟨-, -, -, -, hn, -⟩ := alloclistAlloc_spec h
  rw [Allocdata.cls, hn, Allocdata.cls]

/-- The page is cut for the first slot. -/
theorem onePage_new {img : VmmImage} {s : SlotRun} {a b : Nat} {h : Heap} {d : Allocdata}
    (hs : (slotMachine img).Reachable s) (hlist : s.heap.alloclist 6 = [])
    (hpages : allocPages s.heap 1 = some (a, h)) (h0 : 0 < b) (hb : b < 4)
    (hd : alloclistAlloc (newAllocdata 6) 6 = some (b * alloclistSize 6, d)) :
    ∃ p s', OnePage img p d s' ∧
      s'.live = Function.update s.live (slotAddr p 6 b) (some 1024) := by
  obtain ⟨k, p, pages, -, -, rfl, rfl⟩ := allocPages_eq_some hpages
  have hoffset : b * alloclistSize 6 ≠ 0 ∧ b * alloclistSize 6 < 4096 := by
    rw [show alloclistSize 6 = 1024 from rfl]
    omega
  have hlist' : Function.update s.heap.alloclist 6 [p] 6 = [p] := Function.update_self ..
  have hheader : Function.update s.heap.header p d p = d := Function.update_self ..
  refine ⟨p, onePage_ret (h := ⟨pages, Function.update s.heap.alloclist 6 [p],
    Function.update s.heap.header p d⟩) hs h0 hb ?_ hlist' hheader
    ((cls_of_alloclistAlloc hd).trans (by decide))⟩
  rw [alloc_largest, hlist, allocLoop, alloclistNew, hpages]
  simp only [Option.map_some, Option.bind_some, (virtToPage_pageToVirt p).1, Function.update_self, hd]
  refine (if_pos hoffset).trans ?_
  simp only [Function.update_idem, slotAddr]

/-- The next slot is one of the same page. -/
theorem onePage_next {img : VmmImage} {p b : Nat} {s : SlotRun} {d d' : Allocdata}
    (hpage : OnePage img p d s) (h0 : 0 < b) (hb : b < 4)
    (hd : alloclistAlloc d 6 = some (b * alloclistSize 6, d')) : ∃ s', OnePage img p d' s' ∧
      s'.live = Function.update s.live (slotAddr p 6 b) (some 1024) := by
  have hoffset : b * alloclistSize 6 ≠ 0 ∧ b * alloclistSize 6 < 4096 := by
    rw [show alloclistSize 6 = 1024 from rfl]
    omega
  have hlist : Function.update s.heap.alloclist 6 [p] 6 = [p] := Function.update_self ..
  have hheader : Function.update s.heap.header p d' p = d' := Function.update_self ..
  refine onePage_ret (h := ⟨s.heap.pages, Function.update s.heap.alloclist 6 [p],
    Function.update s.heap.header p d'⟩) hpage.reachable h0 hb ?_ hlist hheader
    ((cls_of_alloclistAlloc hd).trans hpage.cls)
  rw [alloc_largest, hpage.alloclist, allocLoop, hpage.header, hd]
  exact if_pos hoffset

/-- The three slots of a page of the largest size class. -/
theorem alloclistAlloc_largest : ∃ d₁ d₂ d₃, alloclistAlloc (newAllocdata 6) 6 = some (1024, d₁) ∧
    alloclistAlloc d₁ 6 = some (2048, d₂) ∧ alloclistAlloc d₂ 6 = some (3072, d₃) :=
  ⟨_, _, _, rfl, rfl, rfl⟩

/-- Slots of one page are given out, until there is none left. -/
theorem reachable_slots {img : VmmImage} {s : SlotRun} (hs : (slotMachine img).Reachable s)
    (hlist : s.heap.alloclist 6 = []) {a : Nat} {h : Heap}
    (hpages : allocPages s.heap 1 = some (a, h)) : ∃ p s₁ d₁ s₃ d₃, OnePage img p d₁ s₁ ∧
      s₁.live = Function.update s.live (slotAddr p 6 1) (some 1024) ∧
      OnePage img p d₃ s₃ ∧ ¬ s₃.HasFree p 6 := by
  obtain ⟨d₁, d₂, d₃, h₁, h₂, h₃⟩ := alloclistAlloc_largest
  obtain ⟨p, s₁, hs₁, hlive₁⟩ := onePage_new (b := 1) hs hlist hpages (by decide) (by decide) h₁
  obtain ⟨s₂, hs₂, hlive₂⟩ := onePage_next (b := 2) hs₁ (by decide) (by decide) h₂
  obtain ⟨s₃, hs₃, hlive₃⟩ := onePage_next (b := 3) hs₂ (by decide) (by decide) h₃
  refine ⟨p, s₁, d₁, s₃, d₃, hs₁, hlive₁, hs₃, ?_⟩
  rintro ⟨b, hb, hle, hfree⟩
  have hb : b < 4 := hb
  have h0 := pos_of_headersize_le hle
  have hcases : b = 1 ∨ b = 2 ∨ b = 3 := by omega
  rw [hlive₃, hlive₂, hlive₁] at hfree
  simp only [Function.update_apply] at hfree
  rcases hcases with rfl | rfl | rfl <;> simp at hfree

/-- So it is in the fresh heap. -/
theorem exists_slots : ∃ p s₁ d₁ s₃ d₃, OnePage largeImage p d₁ s₁ ∧
    s₁.live = Function.update freshSlots.live (slotAddr p 6 1) (some 1024) ∧
    OnePage largeImage p d₃ s₃ ∧ ¬ s₃.HasFree p 6 := by
  obtain ⟨cls, hinv⟩ := heapInv_of_reachable reachable_freshHeap
  have hmanaged : 8192 < numOfPages ∧ largeImage.Managed 8192 := by decide
  have hsome : ¬ Exhausted freshSlots.heap.pages 0 := by
    simpa [freshSlots, freshHeap] using not_exhausted_mmInitGlobal hmanaged
  obtain ⟨a, h, hpages⟩ := hinv.allocPages_isSome (n := 1) (k := 0) (by decide) hsome
  exact reachable_slots reachable_freshSlots rfl hpages

theorem slots_consistent_oneBlock : ∃ (s : SlotRun) (p : Nat), s.cut p = some 6 ∧
    s.live (slotAddr p 6 1) = some 1024 ∧ (s.heap.pages.page p).type = .allocated ∧
    (s.HasFree p 6 → p ∈ s.heap.alloclist 6) := by
  obtain ⟨p, s, _, _, _, hs, hlive, -⟩ := exists_slots
  have hpage := (slots_consistent hs.reachable).2.2.2.2.1 p 6 hs.cut
  refine ⟨s, p, hs.cut, ?_, hpage.1, hpage.2.1⟩
  rw [hlive, Function.update_self]

/-- A page stays on its list when it gets full, and it stays allocated when its last block is
freed. -/
theorem not_slots_exact :
    (¬ ∀ img s, (slotMachine img).Reachable s → ∀ p i, s.cut p = some i →
      (p ∈ s.heap.alloclist i ↔ s.HasFree p i)) ∧
    ¬ ∀ img s, (slotMachine img).Reachable s → ∀ p i, s.cut p = some i →
      ((s.heap.pages.page p).type = .allocated ↔
        ∃ b < alloclistDatabit i, 0 < b ∧ (s.live (slotAddr p i b)).isSome = true) := by
  obtain ⟨p, s₁, d₁, s₃, d₃, hs₁, hlive₁, hs₃, hfull⟩ := exists_slots
  refine ⟨fun hall => ?_, fun hall => ?_⟩
  · refine hfull ((hall _ _ hs₃.reachable p 6 hs₃.cut).1 ?_)
    rw [hs₃.alloclist]
    exact List.mem_singleton_self p
  · -- the first block is freed again
    have hlive : s₁.live (slotAddr p 6 1) = some 1024 := by
      rw [hlive₁, Function.update_self]
    have hslots := slots_of_reachable hs₁.reachable
    obtain ⟨h', hfree, -⟩ := hslots.heap.heapFree hlive
    have hstep : (slotMachine largeImage).step s₁ (.free (slotAddr p 6 1)) = some { s₁ with
        heap := h'
        live := Function.update s₁.live (slotAddr p 6 1) none } := by
      simp only [slotMachine, hlive, hfree]
      rfl
    have hs₂ := hs₁.reachable.step trivial hstep
    have hslots₂ := slots_of_reachable hs₂
    obtain ⟨b, -, -, hsome⟩ := (hall _ _ hs₂ p 6 hs₁.cut).1 (hslots₂.heap.cut p 6 hs₁.cut).1
    dsimp only at hsome
    rw [hlive₁, Function.update_idem, Function.update_apply] at hsome
    split_ifs at hsome <;> cases hsome

end OnDemandVirt.Vmm
