import OnDemandVirt.Vmm.Ept

/-!
# The cursor and the pool of the extended page tables

`EptTables` says what the tables in use look like: every entry above the last level that points to
a table points to a page of the pool in use, and no two point to the same one. `Coherent` says that
the cursor holds entries that a fresh walk visits. Mapping a page only writes to entries that lead
nowhere and to fresh pages, so that both hold on, and walks only get longer, until the pool is
used up and everything is dropped.
-/

namespace OnDemandVirt.Vmm

open Lib.Paging

/-! ### Bits of addresses and entries -/

theorem toNat_and_511 (x : BitVec 64) : (x &&& 0x1FF).toNat = x.toNat % 512 := by
  rw [BitVec.toNat_and]
  exact Nat.and_two_pow_sub_one_eq_mod x.toNat 9

/-- The bits of a page's address and of a place in a page do not meet. -/
theorem page_or {a b : Nat} (ha : 4096 ∣ a) (hb : b < 4096) : a ||| b = a + b := by
  obtain ⟨t, rfl⟩ := ha
  have hor : t <<< 12 ||| b = t <<< 12 + b := (Nat.shiftLeft_add_eq_or_of_lt hb t).symm
  rw [Nat.shiftLeft_eq] at hor
  rw [Nat.mul_comm]
  exact hor

theorem index_eq_shift (g : BitVec 64) (level : Nat) :
    ((g >>> (9 * level + 12)) &&& 0x1FF).toNat = index g.toNat level := by
  rw [toNat_and_511, BitVec.toNat_ushiftRight, Nat.shiftRight_eq_div_pow, index, Nat.add_comm 12]

namespace EptPages

variable (P : EptPages)

theorem link_toNat (i : Nat) : (P.link i).toNat = P.tbl i + 7 := by
  have hlt := P.tbl_lt i
  rw [link, BitVec.toNat_or, BitVec.toNat_ofNat, Nat.mod_eq_of_lt (by omega)]
  exact page_or (P.tbl_page i) (by decide)

theorem present_link (i : Nat) : present (P.link i) = true := by
  rw [present, ← BitVec.testBit_toNat, link_toNat, Nat.testBit_zero]
  obtain ⟨t, ht⟩ := P.tbl_page i
  rw [decide_eq_true_iff]
  omega

theorem large_link (i : Nat) : large (P.link i) = false := by
  rw [large, ← BitVec.testBit_toNat, link_toNat, Nat.testBit_eq_decide_div_mod_eq]
  obtain ⟨t, ht⟩ := P.tbl_page i
  rw [decide_eq_false_iff_not]
  omega

theorem isTable_link (i : Nat) : isTable (P.link i) = true := by
  rw [isTable, present_link, large_link]
  rfl

theorem tableBase_link (i : Nat) : tableBase (P.link i) = P.tbl i := by
  have hlt := P.tbl_lt i
  obtain ⟨t, ht⟩ := P.tbl_page i
  rw [tableBase, link_toNat]
  omega

theorem link_inj {i j : Nat} (hi : i < numOfEptbl) (hj : j < numOfEptbl)
    (h : P.link i = P.link j) : i = j :=
  P.tbl_inj i hi j hj (by rw [← tableBase_link, h, tableBase_link])

end EptPages

/-- The bits of an address above the lowest `n`. -/
theorem and_not_low (x : BitVec 64) (n : Nat) :
    (x &&& ~~~(BitVec.ofNat 64 (2 ^ n - 1))).toNat = x.toNat / 2 ^ n * 2 ^ n := by
  have heq : x &&& ~~~(BitVec.ofNat 64 (2 ^ n - 1)) = (x >>> n) <<< n := by
    apply BitVec.eq_of_getLsbD_eq
    intro i hi
    rw [BitVec.getLsbD_and, BitVec.getLsbD_not, BitVec.getLsbD_ofNat,
      Nat.testBit_two_pow_sub_one, BitVec.getLsbD_shiftLeft, BitVec.getLsbD_ushiftRight]
    by_cases hlow : i < n
    · simp [hlow]
    · simp [hi, hlow, Nat.add_sub_cancel' (Nat.le_of_not_lt hlow)]
  rw [heq, BitVec.toNat_shiftLeft, BitVec.toNat_ushiftRight, Nat.shiftLeft_eq,
    Nat.shiftRight_eq_div_pow]
  exact Nat.mod_eq_of_lt (Nat.lt_of_le_of_lt (Nat.div_mul_le_self _ _) x.isLt)

theorem and_not_pagesizeMask (x : BitVec 64) :
    (x &&& ~~~pagesizeMask).toNat = x.toNat / 4096 * 4096 := and_not_low x 12

theorem and_not_pagesize2mMask (x : BitVec 64) :
    (x &&& ~~~pagesize2mMask).toNat = x.toNat / 2 ^ 21 * 2 ^ 21 := and_not_low x 21

/-- The bits of an entry's place in its table. -/
theorem toNat_and_0xFF8 (x : BitVec 64) : (x &&& 0xFF8).toNat = 8 * (x.toNat / 8 % 512) := by
  have heq : (x &&& 0xFF8 : BitVec 64) =
      ((x >>> (3 : Nat)) &&& (0x1FF : BitVec 64)) <<< (3 : Nat) := by
    have hmask : (0xFF8 : BitVec 64) = (0x1FF : BitVec 64) <<< (3 : Nat) := rfl
    rw [hmask]
    apply BitVec.eq_of_getLsbD_eq
    intro i hi
    rw [BitVec.getLsbD_and, BitVec.getLsbD_shiftLeft, BitVec.getLsbD_shiftLeft,
      BitVec.getLsbD_and, BitVec.getLsbD_ushiftRight]
    by_cases hlow : i < 3
    · simp [hlow]
    · simp only [hi, hlow, Nat.add_sub_cancel' (Nat.le_of_not_lt hlow), decide_true, decide_false,
        Bool.not_false, Bool.true_and]
  rw [heq, BitVec.toNat_shiftLeft, toNat_and_511, BitVec.toNat_ushiftRight, Nat.shiftLeft_eq,
    Nat.shiftRight_eq_div_pow]
  have := Nat.mod_lt (x.toNat / 2 ^ 3) (show 512 > 0 by decide)
  omega

theorem nextEntry_link (P : EptPages) (i : Nat) (g : BitVec 64) (level : Nat) :
    nextEntry (P.link i) g (level + 1) = P.tbl i + 8 * index g.toNat level := by
  have hbase : (P.link i &&& ~~~pagesizeMask).toNat = P.tbl i := by
    obtain ⟨t, ht⟩ := P.tbl_page i
    rw [and_not_pagesizeMask, P.link_toNat]
    omega
  have hindex : ((g >>> (9 * (level + 1))) &&& 0xFF8).toNat = 8 * index g.toNat level := by
    have hpow : 2 ^ (9 * (level + 1)) * 8 = 2 ^ (12 + 9 * level) := by
      rw [show 12 + 9 * level = 9 * (level + 1) + 3 by omega, Nat.pow_add]
    rw [toNat_and_0xFF8, BitVec.toNat_ushiftRight, Nat.shiftRight_eq_div_pow,
      Nat.div_div_eq_div_mul, hpow, index]
  have hlt := Nat.mod_lt (g.toNat / 2 ^ (12 + 9 * level)) (show 512 > 0 by decide)
  rw [nextEntry, BitVec.toNat_or, hbase, hindex]
  exact page_or (P.tbl_page i) (by
    unfold index entries
    omega)

/-- The mask that `cur_move` compares addresses with at a level. -/
def levelMask (level : Nat) : BitVec 64 := 0xFFFFFFFFFFFFF000#64 <<< (9 * level)

theorem levelMask_succ (level : Nat) : levelMask level <<< 9 = levelMask (level + 1) := by
  rw [levelMask, levelMask, ← BitVec.shiftLeft_add, Nat.mul_succ]

/-- Addresses that are equal under the mask of a level have the same indices from it on. -/
theorem index_eq_of_levelMask {g g' : BitVec 64} {level : Nat}
    (h : g &&& levelMask level = g' &&& levelMask level) :
    ∀ l, level ≤ l → index g.toNat l = index g'.toNat l := by
  have hmask : levelMask level = BitVec.allOnes 64 <<< (12 + 9 * level) := by
    rw [BitVec.shiftLeft_add]
    rfl
  have hshift : g >>> (12 + 9 * level) = g' >>> (12 + 9 * level) := by
    apply BitVec.eq_of_getLsbD_eq
    intro i hi
    have hbit := congrArg (fun x => x.getLsbD (12 + 9 * level + i)) h
    rw [hmask] at hbit
    simp only [BitVec.getLsbD_and, BitVec.getLsbD_shiftLeft, BitVec.getLsbD_allOnes] at hbit
    rw [BitVec.getLsbD_ushiftRight, BitVec.getLsbD_ushiftRight]
    by_cases hlt : 12 + 9 * level + i < 64
    · simpa [hlt, Nat.add_sub_cancel_left, hi] using hbit
    · rw [BitVec.getLsbD_of_ge _ _ (Nat.le_of_not_lt hlt),
        BitVec.getLsbD_of_ge _ _ (Nat.le_of_not_lt hlt)]
  have hdiv := congrArg BitVec.toNat hshift
  rw [BitVec.toNat_ushiftRight, BitVec.toNat_ushiftRight, Nat.shiftRight_eq_div_pow,
    Nat.shiftRight_eq_div_pow] at hdiv
  intro l hl
  obtain ⟨n, rfl⟩ := Nat.exists_eq_add_of_le hl
  have hpow : 2 ^ (12 + 9 * (level + n)) = 2 ^ (12 + 9 * level) * 2 ^ (9 * n) := by
    rw [← Nat.pow_add]
    congr 1
    omega
  rw [index, index, hpow, ← Nat.div_div_eq_div_mul, ← Nat.div_div_eq_div_mul, hdiv]

/-! ### The tables in use -/

/-- The address of a table, `none` for the topmost one. -/
def EptPages.page (P : EptPages) : Option Nat → Nat
  | none => P.ncr3tbl
  | some i => P.tbl i

/-- The level of a table, where `lvl` are the levels of the pages of the pool. -/
def tableLevel (lvl : Nat → Nat) : Option Nat → Nat
  | none => 3
  | some i => lvl i

/-- The table is in use. -/
def InUse (cnt : Nat) (t : Option Nat) : Prop := ∀ i, t = some i → i < cnt

/-- The entries that point to tables point to pages of the pool, each to its own. -/
structure EptTables (P : EptPages) (m : PhysMem) (cnt : Nat) (lvl : Nat → Nat) : Prop where
  cnt_le : cnt ≤ numOfEptbl
  lvl_lt : ∀ i < cnt, lvl i < 3
  link : ∀ t k, InUse cnt t → 0 < tableLevel lvl t → k < entries →
    isTable (m (P.page t + 8 * k)) = true →
      ∃ j < cnt, m (P.page t + 8 * k) = P.link j ∧ lvl j + 1 = tableLevel lvl t
  unique : ∀ t k t' k' j, InUse cnt t → InUse cnt t' → 0 < tableLevel lvl t →
    0 < tableLevel lvl t' → k < entries → k' < entries → j < cnt →
      m (P.page t + 8 * k) = P.link j → m (P.page t' + 8 * k') = P.link j → t = t' ∧ k = k'

theorem InUse.mono {cnt cnt' : Nat} {t : Option Nat} (h : InUse cnt t) (hle : cnt ≤ cnt') :
    InUse cnt' t := fun i hi => Nat.lt_of_lt_of_le (h i hi) hle

theorem inUse_none (cnt : Nat) : InUse cnt none := by
  rintro i ⟨⟩

section

variable {P : EptPages} {m : PhysMem} {cnt : Nat} {lvl : Nat → Nat}

theorem EptPages.page_dvd (t : Option Nat) : 4096 ∣ P.page t := by
  cases t with
  | none => exact P.root_page
  | some i => exact P.tbl_page i

/-- Entries of different tables, or at different places, have different addresses. -/
theorem EptPages.slot_inj {t t' : Option Nat} {k k' : Nat} (ht : InUse numOfEptbl t)
    (ht' : InUse numOfEptbl t') (hk : k < entries) (hk' : k' < entries)
    (h : P.page t + 8 * k = P.page t' + 8 * k') : t = t' ∧ k = k' := by
  obtain ⟨a, ha⟩ := P.page_dvd t
  obtain ⟨b, hb⟩ := P.page_dvd t'
  unfold entries at hk hk'
  have hpage : P.page t = P.page t' := by omega
  have hkk : k = k' := by omega
  refine ⟨?_, hkk⟩
  cases t with
  | none =>
    cases t' with
    | none => rfl
    | some j => exact absurd hpage.symm (P.root_ne j (ht' j rfl))
  | some i =>
    cases t' with
    | none => exact absurd hpage (P.root_ne i (ht i rfl))
    | some j => rw [P.tbl_inj i (ht i rfl) j (ht' j rfl) hpage]

theorem index_lt (va level : Nat) : index va level < entries :=
  Nat.mod_lt _ (by decide)

/-- A walk visits entries of tables in use, one level after the other. -/
theorem EptTables.located (h : EptTables P m cnt lvl) {va d a : Nat} (hd : d ≤ 3)
    (ha : entryAt m P.ncr3tbl va d = some a) :
    ∃ t, InUse cnt t ∧ tableLevel lvl t = 3 - d ∧ a = P.page t + 8 * index va (3 - d) := by
  induction d generalizing a with
  | zero =>
    cases ha
    exact ⟨none, inUse_none cnt, rfl, rfl⟩
  | succ d ih =>
    obtain ⟨p, hp, htable, rfl⟩ := entryAt_succ_eq_some.mp ha
    obtain ⟨t, ht, hlevel, rfl⟩ := ih (by omega) hp
    obtain ⟨j, hj, hlink, hlvl⟩ := h.link t _ ht (by omega) (index_lt _ _) htable
    refine ⟨some j, fun i hi => ?_, ?_, ?_⟩
    · cases hi
      exact hj
    · change lvl j = 3 - (d + 1)
      omega
    · rw [hlink, P.tableBase_link, show 3 - (d + 1) = 2 - d by omega]
      rfl

/-- Writing to the last level, or putting a page or nothing in place of a page or nothing. -/
theorem EptTables.write (h : EptTables P m cnt lvl) {t : Option Nat} {k : Nat} {v : BitVec 64}
    (ht : InUse cnt t) (hk : k < entries) (hv : tableLevel lvl t = 0 ∨ isTable v = false) :
    EptTables P (Function.update m (P.page t + 8 * k) v) cnt lvl := by
  have hold : ∀ t' k', InUse cnt t' → 0 < tableLevel lvl t' → k' < entries →
      isTable (Function.update m (P.page t + 8 * k) v (P.page t' + 8 * k')) = true →
      Function.update m (P.page t + 8 * k) v (P.page t' + 8 * k') = m (P.page t' + 8 * k') := by
    intro t' k' ht' hpos hk' htable
    by_cases heq : P.page t' + 8 * k' = P.page t + 8 * k
    · obtain ⟨rfl, rfl⟩ := EptPages.slot_inj (ht'.mono h.cnt_le) (ht.mono h.cnt_le) hk' hk heq
      rw [Function.update_self] at htable
      rcases hv with hzero | hv
      · omega
      · exact absurd (hv.symm.trans htable) Bool.false_ne_true
    · exact Function.update_of_ne heq _ _
  constructor
  · exact h.cnt_le
  · exact h.lvl_lt
  · intro t' k' ht' hpos hk' htable
    have heq := hold t' k' ht' hpos hk' htable
    rw [heq] at htable ⊢
    exact h.link t' k' ht' hpos hk' htable
  · intro t₁ k₁ t₂ k₂ j ht₁ ht₂ hpos₁ hpos₂ hk₁ hk₂ hj h₁ h₂
    have heq₁ := hold t₁ k₁ ht₁ hpos₁ hk₁ (by rw [h₁, P.isTable_link])
    have heq₂ := hold t₂ k₂ ht₂ hpos₂ hk₂ (by rw [h₂, P.isTable_link])
    exact h.unique t₁ k₁ t₂ k₂ j ht₁ ht₂ hpos₁ hpos₂ hk₁ hk₂ hj (heq₁ ▸ h₁) (heq₂ ▸ h₂)

/-- Such a write changes no walk. -/
theorem EptTables.entryAt_write (h : EptTables P m cnt lvl) {t : Option Nat} {k : Nat}
    {v : BitVec 64} (ht : InUse cnt t) (hk : k < entries)
    (hv : tableLevel lvl t = 0 ∨ (isTable v = false ∧ isTable (m (P.page t + 8 * k)) = false))
    {va d : Nat} (hd : d ≤ 3) :
    entryAt (Function.update m (P.page t + 8 * k) v) P.ncr3tbl va d =
      entryAt m P.ncr3tbl va d := by
  refine entryAt_congr fun e he p hp => ?_
  obtain ⟨t', ht', hlevel, rfl⟩ := h.located (by omega) hp
  by_cases heq : P.page t' + 8 * index va (3 - e) = P.page t + 8 * k
  · obtain ⟨rfl, hkk⟩ := EptPages.slot_inj (ht'.mono h.cnt_le) (ht.mono h.cnt_le) (index_lt _ _) hk heq
    rcases hv with hzero | ⟨hv, hold⟩
    · omega
    · rw [heq, Function.update_self]
      exact Or.inr ⟨hold, hv⟩
  · exact Or.inl (Function.update_of_ne heq _ _)

theorem zeroPage_page {t : Option Nat} {page k : Nat} (hpage : 4096 ∣ page) (hk : k < entries)
    (hne : P.page t ≠ page) : zeroPage m page (P.page t + 8 * k) = m (P.page t + 8 * k) := by
  obtain ⟨a, ha⟩ := P.page_dvd t
  obtain ⟨b, hb⟩ := hpage
  unfold entries at hk
  exact if_neg (by omega)

theorem zeroPage_self {page k : Nat} (hk : k < entries) : zeroPage m page (page + 8 * k) = 0 := by
  unfold entries at hk
  exact if_pos (by omega)

/-- What a fresh page and its link leave in the tables that were in use. -/
theorem fill_slot (hle : cnt < numOfEptbl) {t t' : Option Nat} {k k' : Nat} (ht : InUse cnt t)
    (ht' : InUse cnt t') (hk : k < entries) (hk' : k' < entries) :
    zeroPage (Function.update m (P.page t + 8 * k) (P.link cnt)) (P.tbl cnt) (P.page t' + 8 * k') =
      if t' = t ∧ k' = k then P.link cnt else m (P.page t' + 8 * k') := by
  have hne : P.page t' ≠ P.tbl cnt := by
    cases t' with
    | none => exact fun h => P.root_ne cnt hle h.symm
    | some i =>
      intro h
      have hi := ht' i rfl
      have := P.tbl_inj i (Nat.lt_trans hi hle) cnt hle h
      omega
  rw [zeroPage_page (P.tbl_page cnt) hk' hne]
  split_ifs with heq
  · obtain ⟨rfl, rfl⟩ := heq
    exact Function.update_self _ _ _
  · refine Function.update_of_ne (fun h => heq ?_) _ _
    exact EptPages.slot_inj (ht'.mono (Nat.le_of_lt hle)) (ht.mono (Nat.le_of_lt hle)) hk' hk h

/-- A fresh page is linked: the tables stay well formed, with the page one level below. -/
theorem EptTables.fill (h : EptTables P m cnt lvl) {t : Option Nat} {k : Nat} (ht : InUse cnt t)
    (hpos : 0 < tableLevel lvl t) (hk : k < entries) (hcnt : cnt < numOfEptbl) :
    EptTables P (zeroPage (Function.update m (P.page t + 8 * k) (P.link cnt)) (P.tbl cnt)) (cnt + 1)
      (Function.update lvl cnt (tableLevel lvl t - 1)) := by
  have hlvl : ∀ t', InUse cnt t' →
      tableLevel (Function.update lvl cnt (tableLevel lvl t - 1)) t' = tableLevel lvl t' := by
    intro t' ht'
    cases t' with
    | none => rfl
    | some i => exact Function.update_of_ne (Nat.ne_of_lt (ht' i rfl)) _ _
  -- an entry that points to a table is an old one or the new link
  have hentry : ∀ t' k', InUse (cnt + 1) t' → k' < entries →
      isTable (zeroPage (Function.update m (P.page t + 8 * k) (P.link cnt)) (P.tbl cnt)
        (P.page t' + 8 * k')) = true →
      InUse cnt t' ∧ zeroPage (Function.update m (P.page t + 8 * k) (P.link cnt)) (P.tbl cnt)
        (P.page t' + 8 * k') = if t' = t ∧ k' = k then P.link cnt else m (P.page t' + 8 * k') := by
    intro t' k' ht' hk' htable
    by_cases hnew : t' = some cnt
    · subst hnew
      rw [EptPages.page, zeroPage_self hk'] at htable
      exact absurd htable (by decide)
    · have hold : InUse cnt t' := fun i hi => by
        have := ht' i hi
        have : i ≠ cnt := fun heq => hnew (heq ▸ hi)
        omega
      exact ⟨hold, fill_slot hcnt ht hold hk hk'⟩
  constructor
  · exact hcnt
  · intro i hi
    by_cases heq : i = cnt
    · subst heq
      rw [Function.update_self]
      have hlt : tableLevel lvl t ≤ 3 := by
        cases t with
        | none => exact Nat.le_refl _
        | some j => exact Nat.le_of_lt (h.lvl_lt j (ht j rfl))
      omega
    · rw [Function.update_of_ne heq]
      exact h.lvl_lt i (by omega)
  · intro t' k' ht' hpos' hk' htable
    obtain ⟨hold, hval⟩ := hentry t' k' ht' hk' htable
    rw [hlvl t' hold] at hpos' ⊢
    rw [hval] at htable ⊢
    split_ifs at htable ⊢ with heq
    · refine ⟨cnt, Nat.lt_succ_self _, rfl, ?_⟩
      rw [Function.update_self, heq.1]
      omega
    · obtain ⟨j, hj, hlink, hl⟩ := h.link t' k' hold hpos' hk' htable
      refine ⟨j, Nat.lt_succ_of_lt hj, hlink, ?_⟩
      rw [Function.update_of_ne (Nat.ne_of_lt hj)]
      exact hl
  · intro t₁ k₁ t₂ k₂ j ht₁ ht₂ hpos₁ hpos₂ hk₁ hk₂ hj h₁ h₂
    obtain ⟨hold₁, hval₁⟩ := hentry t₁ k₁ ht₁ hk₁ (by rw [h₁, P.isTable_link])
    obtain ⟨hold₂, hval₂⟩ := hentry t₂ k₂ ht₂ hk₂ (by rw [h₂, P.isTable_link])
    rw [hlvl t₁ hold₁] at hpos₁
    rw [hlvl t₂ hold₂] at hpos₂
    rw [hval₁] at h₁
    rw [hval₂] at h₂
    -- an old link is not to the fresh page
    have hfresh : ∀ t' k', InUse cnt t' → 0 < tableLevel lvl t' → k' < entries →
        m (P.page t' + 8 * k') ≠ P.link cnt := by
      intro t' k' ht' hpos' hk' heq
      obtain ⟨i, hi, hlink, -⟩ := h.link t' k' ht' hpos' hk' (by rw [heq, P.isTable_link])
      have := P.link_inj (Nat.lt_trans hi hcnt) hcnt (hlink.symm.trans heq)
      omega
    have hlt : j < numOfEptbl := Nat.lt_of_lt_of_le hj hcnt
    split_ifs at h₁ h₂ with heq₁ heq₂ heq₂
    · exact ⟨heq₁.1.trans heq₂.1.symm, heq₁.2.trans heq₂.2.symm⟩
    · rw [← h₁] at h₂
      exact absurd h₂ (hfresh t₂ k₂ hold₂ hpos₂ hk₂)
    · rw [← h₂] at h₁
      exact absurd h₁ (hfresh t₁ k₁ hold₁ hpos₁ hk₁)
    · have hj' : j < cnt := by
        rcases Nat.lt_succ_iff_lt_or_eq.mp hj with hj | rfl
        · exact hj
        · exact absurd h₁ (hfresh t₁ k₁ hold₁ hpos₁ hk₁)
      exact h.unique t₁ k₁ t₂ k₂ j hold₁ hold₂ hpos₁ hpos₂ hk₁ hk₂ hj' h₁ h₂

/-- Walks go on as they did, and further where they ended at the entry. -/
theorem EptTables.entryAt_fill (h : EptTables P m cnt lvl) {t : Option Nat} {k : Nat}
    (ht : InUse cnt t) (hk : k < entries) (hcnt : cnt < numOfEptbl)
    (hoff : isTable (m (P.page t + 8 * k)) = false) {va d a : Nat} (hd : d ≤ 3)
    (ha : entryAt m P.ncr3tbl va d = some a) :
    entryAt (zeroPage (Function.update m (P.page t + 8 * k) (P.link cnt)) (P.tbl cnt))
      P.ncr3tbl va d = some a := by
  induction d generalizing a with
  | zero => exact ha
  | succ d ih =>
    obtain ⟨p, hp, htable, rfl⟩ := entryAt_succ_eq_some.mp ha
    obtain ⟨t', ht', -, rfl⟩ := h.located (by omega) hp
    have hsame : zeroPage (Function.update m (P.page t + 8 * k) (P.link cnt)) (P.tbl cnt)
        (P.page t' + 8 * index va (3 - d)) = m (P.page t' + 8 * index va (3 - d)) := by
      rw [fill_slot hcnt ht ht' hk (index_lt _ _), if_neg]
      rintro ⟨rfl, rfl⟩
      exact absurd (hoff.symm.trans htable) Bool.false_ne_true
    refine entryAt_succ_eq_some.mpr ⟨_, ih (by omega) hp, ?_, ?_⟩
    · rw [hsame]
      exact htable
    · rw [hsame]

end

/-! ### Moving the cursor -/

/-- The cursor holds the entries that a fresh walk visits, from the topmost one down to its level. -/
def Coherent (P : EptPages) (s : VtEpt) : Prop :=
  ∀ l, s.level ≤ l → l ≤ 3 → entryAt s.mem P.ncr3tbl s.gphys.toNat (3 - l) = some (s.entry l)

/-- The cursor ends where a fresh walk ends. -/
def Exact (P : EptPages) (s : VtEpt) : Prop :=
  Coherent P s ∧ EndsAt s.mem P.ncr3tbl s.gphys.toNat s.level (s.entry s.level)

/-- What holds of the tables and the cursor between two operations. -/
structure EptInv (P : EptPages) (s : VtEpt) : Prop where
  tables : ∃ lvl, EptTables P s.mem s.cnt lvl
  level_le : s.level ≤ 4
  coherent : Coherent P s

theorem isTable_eq_not (e : BitVec 64) : isTable e = !(!present e || large e) := by
  rw [isTable, Bool.not_or, Bool.not_not]

theorem raiseLevel_spec (cur g : BitVec 64) (n level : Nat) (hn : level + n = 4) :
    level ≤ raiseLevel cur g n level (levelMask level) ∧
      raiseLevel cur g n level (levelMask level) ≤ 4 ∧
      (raiseLevel cur g n level (levelMask level) < 4 →
        g &&& levelMask (raiseLevel cur g n level (levelMask level)) =
          cur &&& levelMask (raiseLevel cur g n level (levelMask level))) := by
  induction n generalizing level with
  | zero => exact ⟨Nat.le_refl _, Nat.le_of_eq hn, fun h => absurd h (by simp [raiseLevel]; omega)⟩
  | succ n ih =>
    rw [raiseLevel]
    split_ifs with hne
    · rw [levelMask_succ]
      obtain ⟨hle, hlt, hmask⟩ := ih (level + 1) (by omega)
      exact ⟨Nat.le_of_succ_le hle, hlt, hmask⟩
    · exact ⟨Nat.le_refl _, by omega, fun _ => not_not.mp hne⟩

/-- Going down from an entry that the walk visits. -/
theorem descend_spec {P : EptPages} {m : PhysMem} {cnt : Nat} {lvl : Nat → Nat}
    (ht : EptTables P m cnt lvl) {g : BitVec 64} (level : Nat) (entry : Nat → Nat)
    (hlevel : level ≤ 3)
    (hc : ∀ l, level ≤ l → l ≤ 3 → entryAt m P.ncr3tbl g.toNat (3 - l) = some (entry l)) :
    (descend m g level (entry level) entry).1 ≤ 3 ∧
      (∀ l, (descend m g level (entry level) entry).1 ≤ l → l ≤ 3 →
        entryAt m P.ncr3tbl g.toNat (3 - l) =
          some ((descend m g level (entry level) entry).2 l)) ∧
      ((descend m g level (entry level) entry).1 = 0 ∨
        isTable (m ((descend m g level (entry level) entry).2
          (descend m g level (entry level) entry).1)) = false) := by
  induction level generalizing entry with
  | zero => exact ⟨Nat.zero_le _, hc, Or.inl rfl⟩
  | succ level ih =>
    have hp := hc (level + 1) (Nat.le_refl _) hlevel
    rw [descend]
    dsimp only
    by_cases hoff : (!present (m (entry (level + 1))) || large (m (entry (level + 1)))) = true
    · rw [if_pos hoff]
      refine ⟨hlevel, hc, Or.inr ?_⟩
      rw [isTable_eq_not, hoff]
      rfl
    · rw [if_neg hoff]
      have htable : isTable (m (entry (level + 1))) = true := by
        rw [isTable_eq_not, Bool.eq_false_iff.mpr hoff]
        rfl
      obtain ⟨t, hin, htl, hat⟩ := ht.located (by omega) hp
      obtain ⟨j, -, hlink, -⟩ := ht.link t _ hin (by omega) (index_lt _ _) (hat ▸ htable)
      rw [← hat] at hlink
      have hnext : nextEntry (m (entry (level + 1))) g (level + 1) =
          tableBase (m (entry (level + 1))) + 8 * index g.toNat level := by
        rw [hlink, nextEntry_link, P.tableBase_link]
      generalize hq : nextEntry (m (entry (level + 1))) g (level + 1) = q at hnext
      have hself : Function.update entry level q level = q := Function.update_self _ _ _
      have hdown := ih (Function.update entry level q) (by omega) fun l hl hl3 => by
        rcases Nat.eq_or_lt_of_le hl with rfl | hlt
        · rw [hself, show 3 - level = (3 - (level + 1)) + 1 by omega]
          refine entryAt_succ_eq_some.mpr ⟨_, hp, htable, ?_⟩
          rw [hnext, show 2 - (3 - (level + 1)) = level by omega]
        · rw [Function.update_of_ne (Nat.ne_of_gt hlt)]
          exact hc l hlt hl3
      rw [hself] at hdown
      exact hdown

/-- Moving the cursor changes no table, and the cursor then ends where a fresh walk ends. -/
theorem curMove_spec {P : EptPages} {s : VtEpt} (hs : EptInv P s) (g : BitVec 64) :
    (curMove P s g).mem = s.mem ∧ (curMove P s g).cnt = s.cnt ∧
      (curMove P s g).cleared = s.cleared ∧ (curMove P s g).gphys = g ∧ Exact P (curMove P s g) := by
  obtain ⟨lvl, ht⟩ := hs.tables
  unfold curMove
  dsimp only
  have hlevel := hs.level_le
  obtain ⟨hle, hle4, hmask⟩ := raiseLevel_spec s.gphys g (4 - s.level) s.level
    (by omega)
  have hlm : levelMask s.level = 0xFFFFFFFFFFFFF000#64 <<< (9 * s.level) := rfl
  rw [← hlm]
  generalize raiseLevel s.gphys g (4 - s.level) s.level (levelMask s.level) = level at *
  -- the entries from the new level on are those of the walk of the new address
  have hc : level < 4 → ∀ l, level ≤ l → l ≤ 3 →
      entryAt s.mem P.ncr3tbl g.toNat (3 - l) = some (s.entry l) := by
    intro hlt l hl hl3
    rw [← hs.coherent l (by omega) hl3]
    exact entryAt_index_congr (by omega) fun l' hl' _ =>
      index_eq_of_levelMask (hmask hlt) l' (by omega)
  split_ifs with hzero hfour
  · subst hzero
    exact ⟨rfl, rfl, rfl, rfl, hc (by omega), Nat.zero_le _, hc (by omega) 0 (Nat.le_refl _)
      (by omega), Or.inl rfl⟩
  · have hroot : P.ncr3tbl + 8 * ((g >>> 39) &&& 0x1FF).toNat =
        P.ncr3tbl + 8 * index g.toNat 3 := by
      rw [← index_eq_shift]
    rw [hroot]
    have hself : Function.update s.entry 3 (P.ncr3tbl + 8 * index g.toNat 3) 3 =
      P.ncr3tbl + 8 * index g.toNat 3 := Function.update_self _ _ _
    have hdown := descend_spec ht (g := g) 3
      (Function.update s.entry 3 (P.ncr3tbl + 8 * index g.toNat 3)) (Nat.le_refl _)
      fun l hl hl3 => by
        rw [Nat.le_antisymm hl3 hl, hself]
        rfl
    rw [hself] at hdown
    exact ⟨rfl, rfl, rfl, rfl, hdown.2.1, hdown.1, hdown.2.1 _ (Nat.le_refl _) hdown.1, hdown.2.2⟩
  · have hdown := descend_spec ht (g := g) level s.entry (by omega) (hc (by omega))
    exact ⟨rfl, rfl, rfl, rfl, hdown.2.1, hdown.1, hdown.2.1 _ (Nat.le_refl _) hdown.1, hdown.2.2⟩

/-! ### Filling in tables -/

/-- Every walk of `m` is the beginning of one of `m'`. -/
def Grows (P : EptPages) (m m' : PhysMem) : Prop :=
  ∀ va d a, d ≤ 3 → entryAt m P.ncr3tbl va d = some a → entryAt m' P.ncr3tbl va d = some a

/-- The entries of the last level that `m` has are the same in `m'`. -/
def KeepsLeaves (P : EptPages) (m m' : PhysMem) : Prop :=
  ∀ va a, entryAt m P.ncr3tbl va 3 = some a → m' a = m a

theorem Grows.refl (P : EptPages) (m : PhysMem) : Grows P m m := fun _ _ _ _ => id

theorem Grows.trans {P : EptPages} {m m' m'' : PhysMem} (h : Grows P m m') (h' : Grows P m' m'') :
    Grows P m m'' := fun va d a hd ha => h' va d a hd (h va d a hd ha)

/-- The walk of `g` visits the entry `p` of a level, in a table in use. -/
structure Visits (P : EptPages) (m : PhysMem) (cnt : Nat) (lvl : Nat → Nat) (g : BitVec 64)
    (level p : Nat) : Prop where
  level_le : level ≤ 3
  at_entry : entryAt m P.ncr3tbl g.toNat (3 - level) = some p
  off : level = 0 ∨ isTable (m p) = false

theorem fillLoop_spec {P : EptPages} {g : BitVec 64} (n : Nat) {l p : Nat} {s : VtEpt}
    {lvl : Nat → Nat} (ht : EptTables P s.mem s.cnt lvl) (hn : n ≤ l)
    (hv : Visits P s.mem s.cnt lvl g l p) (hcnt : s.cnt + n ≤ numOfEptbl) :
    ∃ m' lvl', fillLoop P g n l p s =
        ({ s with mem := m', cnt := s.cnt + n }, (fillLoop P g n l p s).2) ∧
      EptTables P m' (s.cnt + n) lvl' ∧ Grows P s.mem m' ∧ KeepsLeaves P s.mem m' ∧
      Visits P m' (s.cnt + n) lvl' g (l - n) (fillLoop P g n l p s).2 := by
  induction n generalizing l p s lvl with
  | zero => exact ⟨s.mem, lvl, rfl, ht, Grows.refl P _, fun _ _ _ => rfl, hv⟩
  | succ n ih =>
    obtain ⟨t, hin, htl, hp⟩ := ht.located (by omega) hv.at_entry
    have hl3 : 3 - (3 - l) = l := by
      have := hv.level_le
      omega
    rw [hl3] at htl hp
    have hoff : isTable (s.mem p) = false := hv.off.resolve_left (by omega)
    rw [hp] at hoff
    have hlt : s.cnt < numOfEptbl := by omega
    have ht' := ht.fill hin (by omega) (index_lt g.toNat l) hlt
    rw [← hp] at ht'
    have hgrow : Grows P s.mem
        (zeroPage (Function.update s.mem p (P.link s.cnt)) (P.tbl s.cnt)) := by
      intro va d a hd ha
      rw [hp]
      exact ht.entryAt_fill hin (index_lt g.toNat l) hlt hoff hd ha
    have hleaves : KeepsLeaves P s.mem
        (zeroPage (Function.update s.mem p (P.link s.cnt)) (P.tbl s.cnt)) := by
      intro va a ha
      obtain ⟨t', hin', htl', ha'⟩ := ht.located (Nat.le_refl 3) ha
      rw [ha', hp, fill_slot hlt hin hin' (index_lt _ _) (index_lt _ _), if_neg]
      rintro ⟨rfl, -⟩
      omega
    -- the entry now leads to the fresh page
    have hlink : zeroPage (Function.update s.mem p (P.link s.cnt)) (P.tbl s.cnt) p =
        P.link s.cnt := by
      rw [hp, fill_slot hlt hin hin (index_lt _ _) (index_lt _ _), if_pos ⟨rfl, rfl⟩]
    have hindex : ((g >>> (9 * l + 3)) &&& 0x1FF).toNat = index g.toNat (l - 1) := by
      rw [← index_eq_shift, show 9 * (l - 1) + 12 = 9 * l + 3 by omega]
    have hvisit : Visits P (zeroPage (Function.update s.mem p (P.link s.cnt)) (P.tbl s.cnt))
        (s.cnt + 1) (Function.update lvl s.cnt (tableLevel lvl t - 1)) g (l - 1)
        (P.tbl s.cnt + 8 * index g.toNat (l - 1)) := by
      have hle := hv.level_le
      refine ⟨by omega, ?_, Or.inr ?_⟩
      · rw [show 3 - (l - 1) = (3 - l) + 1 by omega]
        refine entryAt_succ_eq_some.mpr ⟨p, hgrow _ _ _ (by omega) hv.at_entry, ?_, ?_⟩
        · rw [hlink, P.isTable_link]
        · rw [hlink, P.tableBase_link, show 2 - (3 - l) = l - 1 by omega]
      · rw [zeroPage_self (index_lt _ _)]
        rfl
    obtain ⟨m', lvl', heq, htab, hg, hleaf, hvis⟩ := ih
      (s := { s with
        mem := zeroPage (Function.update s.mem p (P.link s.cnt)) (P.tbl s.cnt), cnt := s.cnt + 1 })
      ht' (by omega) hvisit (by dsimp only; omega)
    rw [fillLoop]
    dsimp only at heq htab hg hleaf hvis ⊢
    rw [hindex]
    rw [show s.cnt + 1 + n = s.cnt + (n + 1) by omega] at heq htab hvis
    rw [show l - 1 - n = l - (n + 1) by omega] at hvis
    exact ⟨m', lvl', heq, htab, hgrow.trans hg,
      fun va a ha => (hleaf va a (hgrow va 3 a (Nat.le_refl 3) ha)).trans (hleaves va a ha), hvis⟩

/-- Nothing is left of the tables. -/
theorem resetTables_tables (P : EptPages) (s : VtEpt) (level : Nat) (lvl : Nat → Nat) :
    EptTables P (resetTables P s level).mem (resetTables P s level).cnt lvl := by
  have hnone : ∀ t, InUse 0 t → t = none := by
    intro t ht
    cases t with
    | none => rfl
    | some i => exact absurd (ht i rfl) (Nat.not_lt_zero i)
  have hzero : ∀ t k, InUse 0 t → k < entries →
      (resetTables P s level).mem (P.page t + 8 * k) = 0 := by
    intro t k ht hk
    rw [hnone t ht]
    exact zeroPage_self hk
  constructor
  · exact Nat.zero_le _
  · exact fun i hi => absurd hi (Nat.not_lt_zero i)
  · intro t k ht _ hk htable
    rw [hzero t k ht hk] at htable
    exact absurd htable (by decide)
  · exact fun _ _ _ _ j _ _ _ _ _ _ hj => absurd hj (Nat.not_lt_zero j)

/-- All walks and all mappings of single pages stay, unless everything is dropped. -/
def KeepsWalks (P : EptPages) (s s' : VtEpt) : Prop :=
  s'.cleared = true ∨
    (s'.cleared = s.cleared ∧ Grows P s.mem s'.mem ∧ KeepsLeaves P s.mem s'.mem)

/-- The loop of `cur_fill` from a state whose cursor is at the end of the walk. -/
theorem fillFrom_spec {P : EptPages} {s : VtEpt} {level : Nat} (hs : EptInv P s)
    (hlevel3 : s.level ≤ 3)
    (hoff : s.level = 0 ∨ isTable (s.mem (s.entry s.level)) = false) (hlevel : level ≤ s.level)
    (hcnt : s.cnt + (s.level - level) ≤ numOfEptbl) :
    ∃ m' cnt' p lvl, fillLoop P s.gphys (s.level - level) s.level (s.entry s.level) s =
        ({ s with mem := m', cnt := cnt' }, p) ∧ EptInv P { s with mem := m', cnt := cnt' } ∧
      Grows P s.mem m' ∧ KeepsLeaves P s.mem m' ∧ EptTables P m' cnt' lvl ∧
      Visits P m' cnt' lvl s.gphys level p := by
  obtain ⟨lvl, ht⟩ := hs.tables
  obtain ⟨m', lvl', heq, htab, hgrow, hleaf, hvis⟩ := fillLoop_spec (g := s.gphys) (s.level - level) ht
    (Nat.sub_le _ _) ⟨hlevel3, hs.coherent s.level (Nat.le_refl _) hlevel3, hoff⟩ hcnt
  rw [Nat.sub_sub_self hlevel] at hvis
  refine ⟨m', _, _, lvl', heq, ⟨⟨lvl', htab⟩, hs.level_le, fun l hl hl3 => ?_⟩, hgrow, hleaf,
    htab, hvis⟩
  exact hgrow _ _ _ (Nat.sub_le _ _) (hs.coherent l hl hl3)

/-- After `cur_fill` the walk visits the entry to write, and it leads to no table. -/
theorem curFill_spec {P : EptPages} {s : VtEpt} (level : Nat) (hs : EptInv P s)
    (hexact : Exact P s) (hlevel : level ≤ s.level) :
    ∃ s' p lvl, curFill P s s.gphys level = (s', p) ∧ EptInv P s' ∧ KeepsWalks P s s' ∧
      s'.gphys = s.gphys ∧ EptTables P s'.mem s'.cnt lvl ∧
      Visits P s'.mem s'.cnt lvl s.gphys level p := by
  obtain ⟨hle3, hat, hoff⟩ := hexact.2
  unfold curFill
  dsimp only
  split_ifs with hfull
  · -- the pool is used up; only the entry of the topmost table is left of the cursor
    have htop : entryAt s.mem P.ncr3tbl s.gphys.toNat 0 = some (s.entry 3) :=
      hexact.1 3 hle3 (Nat.le_refl _)
    have hzero : (resetTables P s 3).mem (s.entry 3) = 0 := by
      rw [← Option.some.inj htop]
      exact zeroPage_self (index_lt _ _)
    have hreset : EptInv P (resetTables P s 3) := by
      refine ⟨⟨fun _ => 0, resetTables_tables P s 3 _⟩, Nat.le_succ 3, fun l hl hl3 => ?_⟩
      rw [Nat.le_antisymm hl3 hl]
      exact htop
    obtain ⟨m', cnt', p, lvl, heq, hinv, -, -, htab, hvis⟩ := fillFrom_spec hreset (Nat.le_refl 3)
      (Or.inr (by rw [show (resetTables P s 3).level = 3 from rfl]; exact hzero ▸ rfl))
      (Nat.le_trans hlevel hle3) (by
        change 0 + (3 - level) ≤ 1024
        omega)
    exact ⟨_, p, lvl, heq, hinv, Or.inl rfl, rfl, htab, hvis⟩
  · obtain ⟨m', cnt', p, lvl, heq, hinv, hgrow, hleaf, htab, hvis⟩ := fillFrom_spec hs hle3 hoff
      hlevel (by omega)
    exact ⟨_, p, lvl, heq, hinv, Or.inr ⟨rfl, hgrow, hleaf⟩, rfl, htab, hvis⟩

/-! ### Two walks to one entry -/

/-- Walks that visit the same entry are of addresses with the same indices so far. -/
theorem EptTables.index_eq {P : EptPages} {m : PhysMem} {cnt : Nat} {lvl : Nat → Nat}
    (h : EptTables P m cnt lvl) {va va' d a : Nat} (hd : d ≤ 3)
    (ha : entryAt m P.ncr3tbl va d = some a) (ha' : entryAt m P.ncr3tbl va' d = some a) :
    ∀ l, 3 - d ≤ l → l ≤ 3 → index va l = index va' l := by
  induction d generalizing a with
  | zero =>
    intro l hl hl3
    rw [Nat.le_antisymm hl3 hl]
    have heq : P.ncr3tbl + 8 * index va 3 = P.ncr3tbl + 8 * index va' 3 :=
      (Option.some.inj ha).trans (Option.some.inj ha').symm
    omega
  | succ d ih =>
    obtain ⟨p, hp, htable, hap⟩ := entryAt_succ_eq_some.mp ha
    obtain ⟨p', hp', htable', hap'⟩ := entryAt_succ_eq_some.mp ha'
    obtain ⟨t, ht, htl, rfl⟩ := h.located (by omega) hp
    obtain ⟨t', ht', htl', rfl⟩ := h.located (by omega) hp'
    obtain ⟨j, hj, hlink, -⟩ := h.link t _ ht (by omega) (index_lt _ _) htable
    obtain ⟨j', hj', hlink', -⟩ := h.link t' _ ht' (by omega) (index_lt _ _) htable'
    rw [hlink, P.tableBase_link] at hap
    rw [hlink', P.tableBase_link] at hap'
    have huse : ∀ i < cnt, InUse numOfEptbl (some i) := by
      rintro i hi _ ⟨⟩
      exact Nat.lt_of_lt_of_le hi h.cnt_le
    obtain ⟨hjj, hindex⟩ := EptPages.slot_inj (P := P) (huse j hj) (huse j' hj') (index_lt va (2 - d))
      (index_lt va' (2 - d)) (hap.symm.trans hap')
    cases hjj
    obtain ⟨rfl, hkk⟩ := h.unique t _ t' _ j ht ht' (by omega) (by omega) (index_lt _ _)
      (index_lt _ _) hj hlink hlink'
    intro l hl hl3
    rcases Nat.lt_or_ge l (3 - d) with hlt | hge
    · rw [show l = 2 - d by omega]
      exact hindex
    · rw [← hkk] at hp'
      exact ih (by omega) hp hp' l hge hl3

/-- Two addresses below 2^48 with the same entry in the last level are in one page. -/
theorem EptTables.page_eq {P : EptPages} {m : PhysMem} {cnt : Nat} {lvl : Nat → Nat}
    (h : EptTables P m cnt lvl) {va va' a : Nat} (hva : va < 2 ^ 48) (hva' : va' < 2 ^ 48)
    (ha : entryAt m P.ncr3tbl va 3 = some a) (ha' : entryAt m P.ncr3tbl va' 3 = some a) :
    va / 4096 = va' / 4096 := by
  have hindex := h.index_eq (Nat.le_refl 3) ha ha'
  have h0 := hindex 0 (Nat.zero_le _) (by decide)
  have h1 := hindex 1 (Nat.zero_le _) (by decide)
  have h2 := hindex 2 (Nat.zero_le _) (by decide)
  have h3 := hindex 3 (Nat.zero_le _) (by decide)
  unfold index entries at h0 h1 h2 h3
  norm_num at h0 h1 h2 h3
  omega

end OnDemandVirt.Vmm
