import OnDemandVirt.Vmm.Cache
import Mathlib.Tactic.Tauto
import Mathlib.Algebra.Group.Nat.Defs

/-!
# When the range test and the attribute bits are right

`mtrrTypeEqual` looks at a variable range only where its mask covers every address bit above the
range in question. A range of a mask with holes is missed, and so is the part above 4GB that AMD's
TOM2 makes write-back when the range in question begins below. `uniform_iff` says that these are
the only ways in which the test goes wrong, `selectsType_iff` that the host PAT lacks a type only
where `UC-` meets `WP` and the CPU has no `WC`.
-/

namespace OnDemandVirt.Vmm

namespace CacheRegs

variable (c : CacheRegs)

/-- The address bits a variable range compares. -/
def rangeMask (i : Nat) : BitVec 64 := c.mtrrPhysmask i &&& msrIa32MtrrPhysmask0PhysmaskMask

def RangeValid (i : Nat) : Prop := hasBit (c.mtrrPhysmask i) msrIa32MtrrPhysmask0VBit = true

/-- The variable range `i` contains the address. -/
def Holds (i : Nat) (x : BitVec 64) : Prop :=
  c.RangeValid i ∧ c.rangeMask i &&& c.mtrrPhysbase i = c.rangeMask i &&& x

/-- The variable range `i` compares bits below the ones that all addresses have in common. -/
def Cuts (i : Nat) (physmask : BitVec 64) : Prop := hasBit (c.rangeMask i) physmask = true

/-- The test sees that the variable range `i` is smaller than the range in question. -/
def Noticed (phys physmask : BitVec 64) (i : Nat) : Prop :=
  c.RangeValid i ∧ c.Cuts i physmask ∧ (c.Holds i phys ∨
    c.rangeMask i &&& c.mtrrPhysbase i &&& ~~~physmask = phys &&& ~~~physmask)

/-- The variable range `i` makes the whole range uncacheable. -/
def WholeUc (phys physmask : BitVec 64) (i : Nat) : Prop :=
  c.Holds i phys ∧ ¬ c.Cuts i physmask ∧ c.rangeType i = cacheTypeUc

/-- The variable range `i` is smaller than the range in question, and the test does not see it. -/
def Missed (phys physmask : BitVec 64) (i : Nat) : Prop :=
  c.RangeValid i ∧ c.Cuts i physmask ∧ ¬ c.Noticed phys physmask i

/-- TOM2 makes the address write-back where no range says otherwise. -/
def Tom2Wb (x : BitVec 64) : Prop :=
  0x100000000#64 ≤ x ∧ hasBit c.syscfg msrAmdSyscfgTom2forcememtypewbBit = true ∧
    x < c.topMem2 &&& msrAmdTopMem2AddrMask

instance (i : Nat) : Decidable (c.RangeValid i) := inferInstanceAs (Decidable (_ = _))
instance (i : Nat) (x : BitVec 64) : Decidable (c.Holds i x) := inferInstanceAs (Decidable (_ ∧ _))
instance (i : Nat) (m : BitVec 64) : Decidable (c.Cuts i m) := inferInstanceAs (Decidable (_ = _))
instance (x m : BitVec 64) (i : Nat) : Decidable (c.Noticed x m i) :=
  inferInstanceAs (Decidable (_ ∧ _))
instance (x m : BitVec 64) (i : Nat) : Decidable (c.WholeUc x m i) :=
  inferInstanceAs (Decidable (_ ∧ _))
instance (x m : BitVec 64) (i : Nat) : Decidable (c.Missed x m i) :=
  inferInstanceAs (Decidable (_ ∧ _))
instance (x : BitVec 64) : Decidable (c.Tom2Wb x) := inferInstanceAs (Decidable (_ ∧ _))

/-- The types of the variable ranges that contain the address, in the order of the registers. -/
def typesAt (x : BitVec 64) (is : List Nat) : List (BitVec 8) :=
  (is.filter fun i => c.Holds i x).map c.rangeType

/-- The registers without what the test does not look at. -/
def withoutMissed (phys physmask : BitVec 64) : CacheRegs :=
  { c with
    mtrrPhysmask := fun i => if c.Missed phys physmask i then 0 else c.mtrrPhysmask i
    syscfg := if phys < 0x100000000#64 then 0 else c.syscfg }

end CacheRegs

/-- What several variable ranges make of an address: uncacheable wins, then write-through, then
the first of them. -/
def combine (types : List (BitVec 8)) : BitVec 8 :=
  if cacheTypeUc ∈ types then cacheTypeUc
  else if cacheTypeWt ∈ types then cacheTypeWt
  else types.headD cacheTypeUcMinus

/-- The ranges seen so far, as far as `combine` goes. -/
def seen (type : BitVec 8) : List (BitVec 8) := if type = cacheTypeUcMinus then [] else [type]

theorem combine_seen (type : BitVec 8) : combine (seen type) = type := by
  unfold seen combine
  split_ifs <;> simp_all

/-- Two lists come to the same where they hold the same of the types that win, and begin with the
same type if there is no such type. -/
theorem combine_congr {ts ts' : List (BitVec 8)} (huc : cacheTypeUc ∈ ts ↔ cacheTypeUc ∈ ts')
    (hwt : cacheTypeWt ∈ ts ↔ cacheTypeWt ∈ ts')
    (hhead : cacheTypeWt ∉ ts → ts.headD cacheTypeUcMinus = ts'.headD cacheTypeUcMinus) :
    combine ts = combine ts' := by
  unfold combine
  simp only [huc, ← hwt]
  split_ifs with hmem hmem'
  · rfl
  · rfl
  · exact hhead hmem'

/-- A write-through or another range adds to what the ranges before have given. -/
theorem combine_seen_cons {type basetype : BitVec 8} (ts : List (BitVec 8))
    (htype : type ≠ cacheTypeUc) (hbase : basetype ≠ cacheTypeUc)
    (hminus : basetype ≠ cacheTypeUcMinus) :
    combine (seen type ++ basetype :: ts) =
      combine (seen (if basetype = cacheTypeWt then cacheTypeWt
        else if type = cacheTypeUcMinus then basetype else type) ++ ts) := by
  by_cases hb : basetype = cacheTypeWt
  · have huc : cacheTypeUc ∉ seen type := by
      unfold seen
      split_ifs
      · exact List.not_mem_nil
      · exact fun hmem => htype (List.mem_singleton.mp hmem).symm
    subst hb
    have hmem : cacheTypeWt ∈ seen type ++ cacheTypeWt :: ts :=
      List.mem_append_right _ List.mem_cons_self
    exact combine_congr (List.mem_append.trans (or_iff_right huc))
      (iff_of_true hmem List.mem_cons_self) fun hnot => absurd hmem hnot
  rw [if_neg hb]
  by_cases ht : type = cacheTypeUcMinus
  · rw [if_pos ht, seen, if_pos ht, seen, if_neg hminus]
    rfl
  · rw [if_neg ht, seen, if_neg ht]
    have hcons : ∀ t : BitVec 8, t ≠ basetype → (t ∈ type :: basetype :: ts ↔ t ∈ type :: ts) := by
      intro t hne
      rw [List.mem_cons, List.mem_cons, List.mem_cons, or_iff_right hne]
    exact combine_congr (hcons _ hbase.symm) (hcons _ (Ne.symm hb)) fun _ => rfl

/-! ### The type of an address -/

theorem getMtrrTypeDefault_eq (c : CacheRegs) (x : BitVec 64) (type : BitVec 8) :
    getMtrrTypeDefault c x type =
      if type ≠ cacheTypeUcMinus then type else if c.Tom2Wb x then cacheTypeWb else c.defType :=
  rfl

theorem getMtrrTypeLoop_cons (c : CacheRegs) (x : BitVec 64) (i : Nat) (is : List Nat)
    (type : BitVec 8) :
    getMtrrTypeLoop c x (i :: is) type =
      if c.Holds i x then
        if c.rangeType i = cacheTypeUc then cacheTypeUc
        else getMtrrTypeLoop c x is (if c.rangeType i = cacheTypeWt then cacheTypeWt
          else if type = cacheTypeUcMinus then c.rangeType i else type)
      else getMtrrTypeLoop c x is type := by
  rw [getMtrrTypeLoop]
  unfold CacheRegs.Holds CacheRegs.RangeValid CacheRegs.rangeMask CacheRegs.rangeType
  by_cases hv : hasBit (c.mtrrPhysmask i) msrIa32MtrrPhysmask0VBit = true
  · simp only [hv, Bool.not_true, Bool.false_eq_true, if_false, true_and]
    split_ifs <;> rfl
  · rw [Bool.not_eq_true] at hv
    simp only [hv, Bool.not_false, if_true, Bool.false_eq_true, false_and, if_false]

/-- The loop of `get_mtrr_type` combines the types of the ranges that contain the address. -/
theorem getMtrrTypeLoop_eq {c : CacheRegs} (hc : ∀ i, c.rangeType i ≠ cacheTypeUcMinus)
    (x : BitVec 64) (is : List Nat) (type : BitVec 8) (htype : type ≠ cacheTypeUc) :
    getMtrrTypeLoop c x is type =
      getMtrrTypeDefault c x (combine (seen type ++ c.typesAt x is)) := by
  induction is generalizing type with
  | nil => simp [getMtrrTypeLoop, CacheRegs.typesAt, combine_seen]
  | cons i is ih =>
    rw [getMtrrTypeLoop_cons]
    by_cases hi : c.Holds i x
    · have htypes : c.typesAt x (i :: is) = c.rangeType i :: c.typesAt x is := by
        simp [CacheRegs.typesAt, hi]
      rw [if_pos hi, htypes]
      by_cases huc : c.rangeType i = cacheTypeUc
      · have hmem : cacheTypeUc ∈ seen type ++ c.rangeType i :: c.typesAt x is := by simp [huc]
        rw [if_pos huc, combine, if_pos hmem]
        rfl
      · rw [if_neg huc, combine_seen_cons _ htype huc (hc i)]
        refine ih _ ?_
        split_ifs
        · decide
        · exact huc
        · exact htype
    · have htypes : c.typesAt x (i :: is) = c.typesAt x is := by
        simp [CacheRegs.typesAt, hi]
      rw [if_neg hi, htypes]
      exact ih type htype

/-! ### The addresses of a page -/

/-- Masks that leave the place in a page out do not tell its addresses apart. -/
theorem and_eq_of_page {x y : BitVec 64} (mask : BitVec 64) (h : x.toNat / 4096 = y.toNat / 4096)
    (hmask : mask &&& 0xFFF#64 = 0#64) : x &&& mask = y &&& mask := by
  apply BitVec.eq_of_getLsbD_eq
  intro i hi
  rw [BitVec.getLsbD_and, BitVec.getLsbD_and]
  by_cases hlow : i < 12
  · have hlsb : (0xFFF#64).getLsbD i = true := by
      have hones : 0xFFF#64 = BitVec.ofNat 64 (2 ^ 12 - 1) := rfl
      rw [hones, BitVec.getLsbD_ofNat, Nat.testBit_two_pow_sub_one]
      simp [hi, hlow]
    have hbit := congrArg (fun b => b.getLsbD i) hmask
    simp only [BitVec.getLsbD_and, hlsb, Bool.and_true, BitVec.getLsbD_zero] at hbit
    rw [hbit, Bool.and_false, Bool.and_false]
  · have hbit := congrArg (fun n => n.testBit (i - 12)) h
    have hpow : 4096 = 2 ^ 12 := rfl
    simp only [hpow, Nat.testBit_div_two_pow, Nat.sub_add_cancel (Nat.le_of_not_lt hlow),
      BitVec.testBit_toNat] at hbit
    rw [hbit]

/-- Page boundaries do not tell them apart either. -/
theorem lt_iff_of_page {x y : BitVec 64} (h : x.toNat / 4096 = y.toNat / 4096) {b : BitVec 64}
    (hb : 4096 ∣ b.toNat) : x < b ↔ y < b := by
  obtain ⟨n, hn⟩ := hb
  rw [BitVec.lt_def, BitVec.lt_def, hn]
  omega

theorem toNat_dvd_of_and {x mask : BitVec 64} (hmask : mask &&& 0xFFF#64 = 0#64) :
    4096 ∣ (x &&& mask).toNat := by
  have hzero : x &&& mask &&& 0xFFF#64 = 0#64 := by
    rw [BitVec.and_assoc, hmask, BitVec.and_zero]
  have hmod := congrArg BitVec.toNat hzero
  rw [BitVec.toNat_and] at hmod
  exact Nat.dvd_of_mod_eq_zero ((Nat.and_two_pow_sub_one_eq_mod _ 12).symm.trans hmod)

theorem getMtrrTypeLoop_page (c : CacheRegs) {x y : BitVec 64}
    (h : x.toNat / 4096 = y.toNat / 4096) (is : List Nat) (type : BitVec 8) :
    getMtrrTypeLoop c x is type = getMtrrTypeLoop c y is type := by
  induction is generalizing type with
  | nil =>
    have hfour := lt_iff_of_page h (b := 0x100000000#64) (by decide)
    have htop := lt_iff_of_page h (b := c.topMem2 &&& msrAmdTopMem2AddrMask)
      (toNat_dvd_of_and (by decide))
    have hwb : c.Tom2Wb x ↔ c.Tom2Wb y := by
      unfold CacheRegs.Tom2Wb
      rw [htop, ← BitVec.not_lt, hfour, BitVec.not_lt]
    rw [getMtrrTypeLoop, getMtrrTypeLoop, getMtrrTypeDefault_eq, getMtrrTypeDefault_eq]
    simp only [hwb]
  | cons i is ih =>
    have hholds : c.Holds i x ↔ c.Holds i y := by
      have hmask : c.rangeMask i &&& 0xFFF#64 = 0#64 := by
        rw [CacheRegs.rangeMask, BitVec.and_assoc]
        exact BitVec.and_zero
      unfold CacheRegs.Holds
      rw [BitVec.and_comm _ x, BitVec.and_comm _ y, and_eq_of_page _ h hmask]
    rw [getMtrrTypeLoop_cons, getMtrrTypeLoop_cons]
    simp only [hholds, ih]

/-- All addresses of a page have one memory type. -/
theorem getMtrrType_page (c : CacheRegs) {x y : BitVec 64} (h : x.toNat / 4096 = y.toNat / 4096)
    (passMtrrfix : Bool) : getMtrrType x c passMtrrfix = getMtrrType y c passMtrrfix := by
  have hfix : x ≤ 0xFFFFF#64 ↔ y ≤ 0xFFFFF#64 := by
    have hx : ∀ z : BitVec 64, z ≤ 0xFFFFF#64 ↔ z < 0x100000#64 := fun z => by
      rw [BitVec.le_def, BitVec.lt_def]
      exact (Nat.lt_succ_iff).symm
    rw [hx, hx, lt_iff_of_page h (by decide)]
  have hindex : mtrrFixIndex x = mtrrFixIndex y := by
    unfold mtrrFixIndex hasBit
    rw [and_eq_of_page 0x80000 h (by decide), and_eq_of_page 0x40000 h (by decide),
      and_eq_of_page 0x3F000 h (by decide), and_eq_of_page 0x3C000 h (by decide),
      and_eq_of_page 0x70000 h (by decide)]
  unfold getMtrrType
  simp only [hfix, hindex, getMtrrTypeLoop_page c h]

/-! ### The range test -/

theorem mtrrTypeEqualDefault_eq (c : CacheRegs) (phys physmask : BitVec 64) (type : BitVec 8) :
    mtrrTypeEqualDefault c phys physmask type = true ↔
      type ≠ cacheTypeUcMinus ∨ ¬ c.Tom2Wb phys ∨
        phys ||| physmask < c.topMem2 &&& msrAmdTopMem2AddrMask := by
  unfold mtrrTypeEqualDefault CacheRegs.Tom2Wb
  split_ifs <;> simp_all

theorem mtrrTypeEqualLoop_cons (c : CacheRegs) (phys physmask : BitVec 64) (i : Nat)
    (is : List Nat) (type : BitVec 8) :
    mtrrTypeEqualLoop c phys physmask (i :: is) type =
      if c.Noticed phys physmask i then false
      else if c.Holds i phys then
        if c.rangeType i = cacheTypeUc then true
        else mtrrTypeEqualLoop c phys physmask is (if c.rangeType i = cacheTypeWt then cacheTypeWt
          else if type = cacheTypeUcMinus then c.rangeType i else type)
      else mtrrTypeEqualLoop c phys physmask is type := by
  rw [mtrrTypeEqualLoop]
  unfold CacheRegs.Noticed CacheRegs.Cuts CacheRegs.Holds CacheRegs.RangeValid
    CacheRegs.rangeMask CacheRegs.rangeType
  by_cases hv : hasBit (c.mtrrPhysmask i) msrIa32MtrrPhysmask0VBit = true
  · simp only [hv, Bool.not_true, Bool.false_eq_true, if_false, true_and, Bool.and_eq_true,
      beq_iff_eq]
    split_ifs <;> first | rfl | (exfalso; tauto)
  · rw [Bool.not_eq_true] at hv
    simp only [hv, Bool.not_false, if_true, Bool.false_eq_true, false_and, if_false]

/-- The first range that decides is one that the test notices, or one that makes the whole range
uncacheable; where there is none, the end of the function decides. -/
theorem mtrrTypeEqualLoop_eq {c : CacheRegs} (hc : ∀ i, c.rangeType i ≠ cacheTypeUcMinus)
    (phys physmask : BitVec 64) (is : List Nat) (type : BitVec 8) (htype : type ≠ cacheTypeUc) :
    mtrrTypeEqualLoop c phys physmask is type =
      match is.find? fun i => c.Noticed phys physmask i ∨ c.WholeUc phys physmask i with
      | some i => !decide (c.Noticed phys physmask i)
      | none => mtrrTypeEqualDefault c phys physmask (combine (seen type ++ c.typesAt phys is)) := by
  induction is generalizing type with
  | nil => simp [mtrrTypeEqualLoop, CacheRegs.typesAt, combine_seen]
  | cons i is ih =>
    rw [mtrrTypeEqualLoop_cons, List.find?_cons]
    by_cases hn : c.Noticed phys physmask i
    · simp [hn]
    rw [if_neg hn]
    by_cases hi : c.Holds i phys
    · have htypes : c.typesAt phys (i :: is) = c.rangeType i :: c.typesAt phys is := by
        simp [CacheRegs.typesAt, hi]
      -- a range that contains the address and is not noticed contains the whole range
      have hcuts : ¬ c.Cuts i physmask := fun h => hn ⟨hi.1, h, Or.inl hi⟩
      rw [if_pos hi, htypes]
      by_cases huc : c.rangeType i = cacheTypeUc
      · have hwhole : c.WholeUc phys physmask i := ⟨hi, hcuts, huc⟩
        simp [huc, hn, hwhole]
      · have hwhole : ¬ c.WholeUc phys physmask i := fun h => huc h.2.2
        rw [if_neg huc, combine_seen_cons _ htype huc (hc i)]
        simp only [hn, hwhole, or_self, decide_false]
        refine ih _ ?_
        split_ifs
        · decide
        · exact huc
        · exact htype
    · have htypes : c.typesAt phys (i :: is) = c.typesAt phys is := by
        simp [CacheRegs.typesAt, hi]
      have hwhole : ¬ c.WholeUc phys physmask i := fun h => hi h.1
      rw [if_neg hi, htypes]
      simp only [hn, hwhole, or_self, decide_false]
      exact ih type htype

/-- The test says that the range has several types. -/
def Declines (c : CacheRegs) (phys physmask : BitVec 64) : Prop :=
  hasBit c.mtrrDefType msrIa32MtrrDefTypeEBit = false ∨
    (hasBit c.mtrrDefType msrIa32MtrrDefTypeFeBit = true ∧
      (phys ≤ 0xFFFFF#64 ∨ phys ≤ physmask)) ∨
    (∃ i < gmtrrVcnt, c.Noticed phys physmask i ∧ ∀ j < i, ¬ c.WholeUc phys physmask j) ∨
    ((∀ i < gmtrrVcnt, ¬ c.Holds i phys) ∧ c.Tom2Wb phys ∧
      ¬ phys ||| physmask < c.topMem2 &&& msrAmdTopMem2AddrMask)

/-- A range of `2 ^ bits` addresses that begins at a multiple of its size. -/
structure NaturalRange where
  base : BitVec 64
  bits : Nat
  aligned : 2 ^ bits ∣ base.toNat

namespace NaturalRange

variable (r : NaturalRange)

/-- The mask that stands for the size, as the callers pass it. -/
def physmask : BitVec 64 := BitVec.ofNat 64 (2 ^ r.bits - 1)

def Contains (x : BitVec 64) : Prop :=
  r.base.toNat ≤ x.toNat ∧ x.toNat < r.base.toNat + 2 ^ r.bits

theorem getLsbD_physmask {i : Nat} (hi : i < 64) :
    r.physmask.getLsbD i = decide (i < r.bits) := by
  rw [physmask, BitVec.getLsbD_ofNat, Nat.testBit_two_pow_sub_one]
  simp [hi]

variable {r}

/-- All addresses of the range have the bits above its size in common. -/
theorem Contains.and_not_physmask {x : BitVec 64} (h : r.Contains x) :
    x &&& ~~~r.physmask = r.base := by
  obtain ⟨m, hm⟩ := r.aligned
  have hpos : 0 < 2 ^ r.bits := Nat.two_pow_pos _
  have hdiv : x.toNat / 2 ^ r.bits = m := by
    rw [Nat.div_eq_iff hpos]
    obtain ⟨hle, hlt⟩ := h
    rw [hm] at hle hlt
    constructor
    · rw [Nat.mul_comm]
      exact hle
    · rw [Nat.mul_comm m]
      omega
  apply BitVec.eq_of_getLsbD_eq
  intro i hi
  rw [BitVec.getLsbD_and, BitVec.getLsbD_not, r.getLsbD_physmask hi]
  by_cases hlow : i < r.bits
  · have hbase : r.base.getLsbD i = false := by
      rw [← BitVec.testBit_toNat, hm, Nat.testBit_two_pow_mul, decide_eq_false (Nat.not_le.mpr hlow),
        Bool.false_and]
    simp [hlow, hbase]
  · have hbit : r.base.getLsbD i = x.getLsbD i := by
      rw [← BitVec.testBit_toNat, ← BitVec.testBit_toNat, hm, Nat.testBit_two_pow_mul, ← hdiv,
        Nat.testBit_div_two_pow]
      simp [Nat.le_of_not_lt hlow, Nat.sub_add_cancel (Nat.le_of_not_lt hlow)]
    rw [hbit, decide_eq_false hlow, decide_eq_true hi]
    simp

theorem Contains.le_or {x : BitVec 64} (h : r.Contains x) : x ≤ r.base ||| r.physmask := by
  have hx : x ||| r.physmask = r.base ||| r.physmask := by
    rw [← h.and_not_physmask]
    apply BitVec.eq_of_getLsbD_eq
    intro i hi
    simp only [BitVec.getLsbD_or, BitVec.getLsbD_and, BitVec.getLsbD_not, hi, decide_true,
      Bool.true_and]
    cases r.physmask.getLsbD i <;> simp
  rw [← hx, BitVec.le_def, BitVec.toNat_or]
  exact Nat.left_le_or

end NaturalRange

/-! ### The range test against the type of every address -/

namespace CacheRegs

variable {c : CacheRegs} {r : NaturalRange} {i : Nat}

/-- Away from the range's own bits, a variable range tells no two of its addresses apart. -/
theorem rangeMask_and (hcuts : ¬ c.Cuts i r.physmask) {x : BitVec 64} (hx : r.Contains x) :
    c.rangeMask i &&& x = c.rangeMask i &&& r.base := by
  have hmask : c.rangeMask i &&& r.physmask = 0 := by
    simpa [Cuts, hasBit] using hcuts
  rw [← hx.and_not_physmask]
  apply BitVec.eq_of_getLsbD_eq
  intro j hj
  have hbit : (c.rangeMask i).getLsbD j = true → r.physmask.getLsbD j = false := by
    intro h
    have := congrArg (fun b => b.getLsbD j) hmask
    simpa [h] using this
  simp only [BitVec.getLsbD_and, BitVec.getLsbD_not, hj, decide_true, Bool.true_and]
  cases hb : (c.rangeMask i).getLsbD j
  · rfl
  · simp [hbit hb]

/-- Without the missed ranges, an address is in a variable range exactly when the first address of
the range is, unless the range is one that the test notices. -/
theorem withoutMissed_holds (hn : ¬ c.Noticed r.base r.physmask i) {x : BitVec 64}
    (hx : r.Contains x) :
    (c.withoutMissed r.base r.physmask).Holds i x ↔ c.Holds i r.base := by
  by_cases hcuts : c.Cuts i r.physmask
  · have hout : ¬ c.Holds i r.base := fun h => hn ⟨h.1, hcuts, Or.inl h⟩
    refine iff_of_false (fun h => ?_) hout
    have hvalid : (c.withoutMissed r.base r.physmask).RangeValid i := h.1
    unfold RangeValid withoutMissed at hvalid
    dsimp only at hvalid
    split_ifs at hvalid with hmissed
    · exact absurd hvalid (by decide)
    · exact hmissed ⟨hvalid, hcuts, hn⟩
  · have hmissed : ¬ c.Missed r.base r.physmask i := fun h => hcuts h.2.1
    have hmask : (c.withoutMissed r.base r.physmask).mtrrPhysmask i = c.mtrrPhysmask i :=
      if_neg hmissed
    unfold Holds RangeValid
    rw [rangeMask, hmask, ← rangeMask, rangeMask_and hcuts hx]
    rfl

end CacheRegs

/-- The variable ranges of a register set give no type exactly where none contains the address. -/
theorem combine_typesAt_eq_ucMinus {c : CacheRegs}
    (hc : ∀ i, c.rangeType i ≠ cacheTypeUcMinus) (x : BitVec 64) (is : List Nat) :
    combine (c.typesAt x is) = cacheTypeUcMinus ↔ ∀ i ∈ is, ¬ c.Holds i x := by
  have htypes : ∀ t ∈ c.typesAt x is, t ≠ cacheTypeUcMinus := by
    intro t ht
    obtain ⟨i, -, rfl⟩ := List.mem_map.mp ht
    exact hc i
  have hnil : c.typesAt x is = [] ↔ ∀ i ∈ is, ¬ c.Holds i x := by
    simp [CacheRegs.typesAt, List.filter_eq_nil_iff]
  rw [← hnil]
  unfold combine
  cases h : c.typesAt x is with
  | nil => simp
  | cons t ts =>
    have ht : t ≠ cacheTypeUcMinus := htypes t (by simp [h])
    split_ifs <;> simp_all

/-- The test says no exactly in the cases spelled out in `Declines`. -/
theorem mtrrTypeEqual_eq_false_iff {c : CacheRegs}
    (hc : ∀ i, c.rangeType i ≠ cacheTypeUcMinus) (phys physmask : BitVec 64) :
    mtrrTypeEqual phys c physmask = false ↔ Declines c phys physmask := by
  unfold mtrrTypeEqual Declines
  by_cases he : hasBit c.mtrrDefType msrIa32MtrrDefTypeEBit = false
  · simp [he]
  rw [Bool.not_eq_false] at he
  by_cases hf : hasBit c.mtrrDefType msrIa32MtrrDefTypeFeBit = true ∧
      (phys ≤ 0xFFFFF#64 ∨ phys ≤ physmask)
  · rw [if_neg (by rw [he]; decide), if_pos hf]
    simp [hf]
  rw [if_neg (by rw [he]; decide), if_neg hf, mtrrTypeEqualLoop_eq hc _ _ _ _ (by decide)]
  simp only [he, hf, Bool.true_eq_false, false_or]
  have hseen : seen cacheTypeUcMinus ++ c.typesAt phys (List.range gmtrrVcnt) =
      c.typesAt phys (List.range gmtrrVcnt) := rfl
  cases hfind : (List.range gmtrrVcnt).find? fun i =>
      c.Noticed phys physmask i ∨ c.WholeUc phys physmask i with
  | some i =>
    obtain ⟨hi, hmem, hfirst⟩ := List.find?_range_eq_some.mp hfind
    have hlt : i < gmtrrVcnt := List.mem_range.mp hmem
    have hbefore : ∀ j < i, ¬ c.Noticed phys physmask j ∧ ¬ c.WholeUc phys physmask j := by
      intro j hj
      simpa using hfirst j hj
    by_cases hn : c.Noticed phys physmask i
    · exact iff_of_true (by simp [hn]) (Or.inl ⟨i, hlt, hn, fun j hj => (hbefore j hj).2⟩)
    · have hwhole : c.WholeUc phys physmask i := by simpa [hn] using hi
      refine iff_of_false (by simp [hn]) ?_
      rintro (⟨k, -, hk, hkfirst⟩ | ⟨hnone, -⟩)
      · rcases Nat.lt_trichotomy k i with hlt | rfl | hgt
        · exact (hbefore k hlt).1 hk
        · exact hn hk
        · exact hkfirst i hgt hwhole
      · exact hnone i hlt hwhole.1
  | none =>
    have hnone : ∀ i < gmtrrVcnt, ¬ c.Noticed phys physmask i ∧ ¬ c.WholeUc phys physmask i := by
      intro i hi
      simpa using List.find?_eq_none.mp hfind i (List.mem_range.mpr hi)
    have htype := combine_typesAt_eq_ucMinus hc phys (List.range gmtrrVcnt)
    simp only [List.mem_range] at htype
    rw [← Bool.not_eq_true, mtrrTypeEqualDefault_eq, hseen, ← htype]
    constructor
    · intro h
      simp only [not_or, not_not] at h
      exact Or.inr h
    · rintro (⟨i, hi, hn, -⟩ | h)
      · exact absurd hn (hnone i hi).1
      · simpa only [not_or, not_not] using h

/-- The type of an address outside the fixed ranges. -/
theorem getMtrrType_variable {c : CacheRegs} (hc : ∀ i, c.rangeType i ≠ cacheTypeUcMinus)
    {x : BitVec 64} (he : hasBit c.mtrrDefType msrIa32MtrrDefTypeEBit = true)
    (hx : ¬ (hasBit c.mtrrDefType msrIa32MtrrDefTypeFeBit = true ∧ x ≤ 0xFFFFF#64))
    (passMtrrfix : Bool) :
    getMtrrType x c passMtrrfix =
      getMtrrTypeDefault c x (combine (c.typesAt x (List.range gmtrrVcnt))) := by
  have he' : ¬ (!hasBit c.mtrrDefType msrIa32MtrrDefTypeEBit) = true := by
    rw [he]
    decide
  rw [getMtrrType, if_neg he', if_neg hx, getMtrrTypeLoop_eq hc x _ _ (by decide)]
  rfl

/-- An uncacheable range that contains the address decides. -/
theorem combine_of_uc {c : CacheRegs} {x : BitVec 64} {i : Nat} (hi : i < gmtrrVcnt)
    (hholds : c.Holds i x) (huc : c.rangeType i = cacheTypeUc) :
    combine (c.typesAt x (List.range gmtrrVcnt)) = cacheTypeUc := by
  have hmem : cacheTypeUc ∈ c.typesAt x (List.range gmtrrVcnt) := by
    rw [← huc, CacheRegs.typesAt]
    exact List.mem_map_of_mem (List.mem_filter.mpr ⟨List.mem_range.mpr hi, by simpa using hholds⟩)
  rw [combine, if_pos hmem]

/-- Where TOM2 is looked at, it says the same of every address of the range. -/
theorem CacheRegs.withoutMissed_tom2Wb {c : CacheRegs} {r : NaturalRange}
    (htom2 : c.Tom2Wb r.base → r.base ||| r.physmask < c.topMem2 &&& msrAmdTopMem2AddrMask)
    {x : BitVec 64} (hx : r.Contains x) :
    (c.withoutMissed r.base r.physmask).Tom2Wb x ↔ c.Tom2Wb r.base := by
  have hle : r.base ≤ x := BitVec.le_def.mpr hx.1
  unfold CacheRegs.Tom2Wb CacheRegs.withoutMissed at *
  dsimp only
  by_cases hlow : r.base < 0x100000000#64
  · rw [if_pos hlow]
    refine iff_of_false (fun h => ?_) fun h => BitVec.not_le.mpr hlow h.1
    exact absurd h.2.1 (by decide)
  · have hhigh : 0x100000000#64 ≤ r.base := BitVec.not_lt.mp hlow
    rw [if_neg hlow]
    constructor
    · rintro ⟨-, hforce, hlt⟩
      rw [BitVec.lt_def] at hlt ⊢
      exact ⟨hhigh, hforce, Nat.lt_of_le_of_lt hle hlt⟩
    · intro h
      have hlt := htom2 h
      rw [BitVec.lt_def] at hlt ⊢
      exact ⟨BitVec.le_trans hhigh hle, h.2.1, Nat.lt_of_le_of_lt hx.le_or hlt⟩

/-- The addresses of a range that the test does not decline have one type, apart from what the
test does not look at. -/
theorem getMtrrType_withoutMissed {c : CacheRegs} (hc : ∀ i, c.rangeType i ≠ cacheTypeUcMinus)
    {r : NaturalRange} (hd : ¬ Declines c r.base r.physmask) {x : BitVec 64} (hx : r.Contains x)
    (passMtrrfix : Bool) :
    getMtrrType x (c.withoutMissed r.base r.physmask) passMtrrfix =
      getMtrrType r.base c passMtrrfix := by
  unfold Declines at hd
  simp only [not_or, not_and, not_exists, Bool.not_eq_false] at hd
  obtain ⟨he, hfix, hnoticed, htom2⟩ := hd
  have hle : r.base ≤ x := BitVec.le_def.mpr hx.1
  have hfixed : ∀ y, r.base ≤ y → ¬ (hasBit c.mtrrDefType msrIa32MtrrDefTypeFeBit = true ∧
      y ≤ 0xFFFFF#64) := by
    rintro y hy ⟨hf, hy'⟩
    exact (hfix hf).1 (BitVec.le_trans hy hy')
  rw [getMtrrType_variable (c := c) hc he (hfixed r.base (BitVec.le_refl _)),
    getMtrrType_variable (c := c.withoutMissed r.base r.physmask) hc he (hfixed x hle)]
  by_cases huc : ∃ j < gmtrrVcnt, c.WholeUc r.base r.physmask j
  · -- an uncacheable range contains the whole range
    obtain ⟨j, hj, hwhole⟩ := huc
    have hn : ¬ c.Noticed r.base r.physmask j := fun h => hwhole.2.1 h.2.1
    have hholds := (c.withoutMissed_holds hn hx).mpr hwhole.1
    rw [combine_of_uc hj hwhole.1 hwhole.2.2, combine_of_uc hj hholds hwhole.2.2]
    rfl
  · -- no range that the test notices
    have hnone : ∀ i < gmtrrVcnt, ¬ c.Noticed r.base r.physmask i := fun i hi hn =>
      hnoticed i hi hn fun j hj hwhole => huc ⟨j, Nat.lt_trans hj hi, hwhole⟩
    have htypes : (c.withoutMissed r.base r.physmask).typesAt x (List.range gmtrrVcnt) =
        c.typesAt r.base (List.range gmtrrVcnt) := by
      unfold CacheRegs.typesAt
      congr 1
      refine List.filter_congr fun i hi => ?_
      simpa using c.withoutMissed_holds (hnone i (List.mem_range.mp hi)) hx
    rw [htypes, getMtrrTypeDefault_eq, getMtrrTypeDefault_eq]
    by_cases htype : combine (c.typesAt r.base (List.range gmtrrVcnt)) = cacheTypeUcMinus
    · have hnot := (combine_typesAt_eq_ucMinus hc r.base (List.range gmtrrVcnt)).mp htype
      have hsame := CacheRegs.withoutMissed_tom2Wb
        (fun h => not_not.mp (htom2 (fun i hi => hnot i (List.mem_range.mpr hi)) h)) hx
      simp only [htype, ne_eq, not_true_eq_false, if_false, hsame]
      rfl
    · rw [if_pos htype, if_pos htype]

theorem ne_ucMinus {p : CachePcpuData} {type : BitVec 8} (h : isMtrrTypeOk p type = true) :
    type ≠ cacheTypeUcMinus := by
  unfold isMtrrTypeOk at h
  simpa using (Bool.and_eq_true_iff.mp h).2

/-- Nothing is missed. -/
theorem CacheRegs.withoutMissed_eq_self {c : CacheRegs} {phys physmask : BitVec 64}
    (hmissed : ∀ i, ¬ c.Missed phys physmask i) (hsyscfg : c.syscfg = 0) :
    c.withoutMissed phys physmask = c := by
  have hmask : (fun i => if c.Missed phys physmask i then 0 else c.mtrrPhysmask i) =
      c.mtrrPhysmask := funext fun i => if_neg (hmissed i)
  rw [CacheRegs.withoutMissed, hmask, hsyscfg, ite_self, ← hsyscfg]

/-- A host with all memory types and eight variable ranges. -/
def fullHost : CachePcpuData := cacheInitPcpu true true false 0x508 CacheRegs.zero

/-- The guest's registers after some writes on `fullHost`. -/
def afterWrites (es : List MsrWrite) : CacheData :=
  ((guestCache fullHost fun _ _ => false).run (cacheInitVcpu fullHost) es).getD
    (cacheInitVcpu fullHost)

/-- Write-back memory below 4GB, under a default type of uncacheable. -/
def lowMemory : CacheData :=
  afterWrites [.gmtrr 0x200 0x6, .gmtrr 0x201 0xFFFFF00000800, .gmtrr 0x2FF 0x800]

theorem reachable_lowMemory : (guestCache fullHost fun _ _ => false).Reachable lowMemory :=
  Lib.Machine.Reachable.run (.init (Or.inl rfl)) [.gmtrr 0x200 0x6,
    .gmtrr 0x201 0xFFFFF00000800, .gmtrr 0x2FF 0x800] rfl

/-- A mask with a hole. -/
def holeMemory : CacheData :=
  afterWrites [.gmtrr 0x200 0x1006, .gmtrr 0x201 0xFFFFEFFFFF800, .gmtrr 0x2FF 0x800]

theorem combine_mem (types : List (BitVec 8)) :
    combine types = cacheTypeUcMinus ∨ combine types ∈ types := by
  unfold combine
  split_ifs with huc hwt
  · exact Or.inr huc
  · exact Or.inr hwt
  · cases types with
    | nil => exact Or.inl rfl
    | cons t ts => exact Or.inr List.mem_cons_self

/-- The type of an address is one that the registers hold, or uncacheable or write-back. -/
theorem getMtrrType_of_types {g : CacheRegs} {Q : BitVec 8 → Prop}
    (hc : ∀ i, g.rangeType i ≠ cacheTypeUcMinus) (hrange : ∀ i, Q (g.rangeType i))
    (hfix : ∀ i, Q (g.mtrrFixByte i)) (hdef : Q g.defType) (huc : Q cacheTypeUc)
    (hwb : Q cacheTypeWb) (x : BitVec 64) (passMtrrfix : Bool) :
    Q (getMtrrType x g passMtrrfix) := by
  unfold getMtrrType
  split_ifs
  · exact huc
  · exact hwb
  · exact hfix _
  · rw [getMtrrTypeLoop_eq hc x _ _ (by decide), getMtrrTypeDefault_eq]
    split_ifs with htype
    · obtain hminus | hmem := combine_mem (seen cacheTypeUcMinus ++ g.typesAt x (List.range gmtrrVcnt))
      · exact absurd hminus htype
      · obtain ⟨i, -, hi⟩ := List.mem_map.mp hmem
        rw [← hi]
        exact hrange i
    · exact hwb
    · exact hdef

/-- The MTRRs give every address a type that the host's PAT has and that is not `UC-`. -/
theorem isMtrrTypeOk_getMtrrType {p : CachePcpuData} {g : CacheRegs} (hg : Accepted p g)
    (huc : isMtrrTypeOk p cacheTypeUc = true) (hwb : isMtrrTypeOk p cacheTypeWb = true)
    (x : BitVec 64) (passMtrrfix : Bool) :
    isMtrrTypeOk p (getMtrrType x g passMtrrfix) = true :=
  getMtrrType_of_types (Q := fun t => isMtrrTypeOk p t = true) (fun i => ne_ucMinus (hg.range i))
    hg.range hg.fix hg.defType huc hwb x passMtrrfix

/-- The types a guest may choose. -/
def hostTypes (wc : Bool) : List (BitVec 8) :=
  [cacheTypeUc, cacheTypeWt, cacheTypeWp, cacheTypeWb] ++ if wc then [cacheTypeWc] else []

/-- Attribute bits that are made from a type select an entry of that type, where there is one. -/
theorem hostPatData_attrFromType (p : CachePcpuData) (wc : Bool)
    (hp : p.patIndexFromType = hostPatIndex wc) :
    ∀ t ∈ cacheTypeUcMinus :: hostTypes wc,
      hostPatData wc (patIndex (attrFromType p t)) = t := by
  unfold attrFromType
  rw [hp]
  cases wc
  · decide
  · decide

/-- The types that the combination of two types may ask for. -/
theorem patMtrrMatrix_mem (wc : Bool) :
    ∀ gpat ∈ cacheTypeUcMinus :: hostTypes wc, ∀ gmtrr ∈ hostTypes wc,
      (patMtrrMatrix gpat gmtrr ∈ hostTypes wc ∨
        (wc = false ∧ gpat = cacheTypeUcMinus ∧ gmtrr = cacheTypeWp)) := by
  cases wc
  · decide
  · decide

/-- The bits that `cache_get_attr` computes select a host PAT entry of the type that `get_type`
resolves, which is the one of the combination matrix, and no assertion fails. -/
def SelectsType (p : CachePcpuData) (d : CacheData) (gphys : BitVec 64) (gattr : BitVec 32) : Prop :=
  ∃ t attr, getType d gphys gattr = some t ∧
    t = patMtrrMatrix (d.g.patData (patIndex gattr)) (getMtrrType gphys d.g d.passMtrrfix) ∧
    cacheGetAttr p d gphys gattr = some attr ∧ p.h.patData (patIndex attr) = t

/-- `UC-` over write-protect combines to write-combining, which the host does not have. -/
def LacksWc (p : CachePcpuData) (d : CacheData) (gphys : BitVec 64) (gattr : BitVec 32) : Prop :=
  p.pat = true ∧ hasBit p.mtrrcap msrIa32MtrrcapWcBit = false ∧
    d.g.patData (patIndex gattr) = cacheTypeUcMinus ∧
    getMtrrType gphys d.g d.passMtrrfix = cacheTypeWp

theorem patIndex_lt (attr : BitVec 32) : patIndex attr < 8 := by
  unfold patIndex
  split_ifs <;> decide

theorem isTypeOk_iff {p : CachePcpuData} {wc : Bool} (hp : p.h.patData = hostPatData wc)
    (t : BitVec 8) : isTypeOk p t = true ↔ t ∈ cacheTypeUcMinus :: hostTypes wc := by
  unfold isTypeOk
  rw [hp, List.any_eq_true]
  constructor
  · rintro ⟨i, hi, ht⟩
    rw [← eq_of_beq ht]
    have hall : ∀ wc : Bool, ∀ i ∈ List.range 8,
        hostPatData wc i ∈ cacheTypeUcMinus :: hostTypes wc := by decide
    exact hall wc i hi
  · intro ht
    have hall : ∀ wc : Bool, ∀ t ∈ cacheTypeUcMinus :: hostTypes wc,
        ∃ i ∈ List.range 8, (hostPatData wc i == t) = true := by decide
    exact hall wc t ht

/-- The fast path of `get_type` agrees with the matrix, and the assertion holds. -/
theorem getType_eq {d : CacheData} {gphys : BitVec 64} {gattr : BitVec 32} {wc : Bool}
    (hgpat : d.g.patData (patIndex gattr) ∈ cacheTypeUcMinus :: hostTypes wc)
    (hgmtrr : getMtrrType gphys d.g d.passMtrrfix ∈ hostTypes wc) :
    getType d gphys gattr = some (patMtrrMatrix (d.g.patData (patIndex gattr))
      (getMtrrType gphys d.g d.passMtrrfix)) := by
  have hfast : ∀ wc : Bool, ∀ gpat ∈ cacheTypeUcMinus :: hostTypes wc, ∀ gmtrr ∈ hostTypes wc,
      (gpat = cacheTypeUc ∨ gpat = cacheTypeWc → patMtrrMatrix gpat gmtrr = gpat) ∧
        gpat < 8 ∧ gmtrr < 8 := by decide
  obtain ⟨hmatrix, hlt⟩ := hfast wc _ hgpat _ hgmtrr
  unfold getType
  dsimp only
  split_ifs with huncached
  · rw [hmatrix huncached]
  · rfl

/-- The attribute bits select the resolved type unless the combination asks for write-combining on
a host without it. -/
theorem selectsType_iff {pat mtrr syscfgExist : Bool} {mtrrcap : BitVec 64} {h : CacheRegs}
    {wrmsrFails : Nat → BitVec 64 → Bool} {d : CacheData}
    (hd : (guestCache (cacheInitPcpu pat mtrr syscfgExist mtrrcap h) wrmsrFails).Reachable d)
    (gphys : BitVec 64) (gattr : BitVec 32) :
    SelectsType (cacheInitPcpu pat mtrr syscfgExist mtrrcap h) d gphys gattr ↔
      ¬ LacksWc (cacheInitPcpu pat mtrr syscfgExist mtrrcap h) d gphys gattr := by
  have haccepted := accepted_of_reachable pat mtrr syscfgExist mtrrcap h hd
  have hgpat := haccepted.pat (patIndex gattr) (patIndex_lt gattr)
  cases pat with
  | false =>
    -- without a PAT every guest type is uncacheable, and so is every entry
    have huc : d.g.patData (patIndex gattr) = cacheTypeUc := by
      obtain ⟨i, -, hi⟩ := List.any_eq_true.mp hgpat
      exact (eq_of_beq hi).symm
    refine iff_of_true ⟨cacheTypeUc, gattr, ?_, ?_, rfl, rfl⟩ fun hlacks => Bool.noConfusion hlacks.1
    · simp [getType, huc]
    · rw [huc]
      rfl
  | true =>
    obtain ⟨wc, hwc⟩ : ∃ wc, hasBit (cacheInitPcpu true mtrr syscfgExist mtrrcap h).mtrrcap
        msrIa32MtrrcapWcBit = wc := ⟨_, rfl⟩
    have hpatData : (cacheInitPcpu true mtrr syscfgExist mtrrcap h).h.patData = hostPatData wc :=
      congrArg hostPatData hwc
    have hindex : (cacheInitPcpu true mtrr syscfgExist mtrrcap h).patIndexFromType =
        hostPatIndex wc := congrArg hostPatIndex hwc
    have hpat : (cacheInitPcpu true mtrr syscfgExist mtrrcap h).pat = true := rfl
    have huc := isMtrrTypeOk_uc true mtrr syscfgExist mtrrcap h
    generalize cacheInitPcpu true mtrr syscfgExist mtrrcap h = p at *
    have hwb : isMtrrTypeOk p cacheTypeWb = true := by
      have hmem : cacheTypeWb ∈ cacheTypeUcMinus :: hostTypes wc := by simp [hostTypes]
      rw [isMtrrTypeOk, (isTypeOk_iff hpatData _).mpr hmem]
      rfl
    have hmtrr := isMtrrTypeOk_getMtrrType haccepted huc hwb gphys d.passMtrrfix
    have hgmtrr : getMtrrType gphys d.g d.passMtrrfix ∈ hostTypes wc := by
      have hmem := (isTypeOk_iff hpatData _).mp (Bool.and_eq_true_iff.mp hmtrr).1
      exact (List.mem_cons.mp hmem).resolve_left (ne_ucMinus hmtrr)
    rw [isTypeOk_iff hpatData] at hgpat
    have htype := getType_eq hgpat hgmtrr
    have hattr : cacheGetAttr p d gphys gattr = some (attrFromType p
        (patMtrrMatrix (d.g.patData (patIndex gattr)) (getMtrrType gphys d.g d.passMtrrfix))) := by
      rw [cacheGetAttr, hpat, htype]
      rfl
    constructor
    · rintro ⟨t, attr, ht, -, hattr', hsel⟩ ⟨-, hlacks, hminus, hwp⟩
      -- write-combining has no entry, and entry 0 is write-back
      rw [htype, hminus, hwp] at ht
      rw [hattr, hminus, hwp] at hattr'
      cases ht
      cases hattr'
      rw [hwc] at hlacks
      rw [hpatData, attrFromType, hindex, hlacks] at hsel
      exact absurd hsel (by decide)
    · intro hnot
      refine ⟨_, _, htype, rfl, hattr, ?_⟩
      rw [hpatData]
      refine hostPatData_attrFromType p wc hindex _ ?_
      obtain hmem | ⟨hlacks, hminus, hwp⟩ := patMtrrMatrix_mem wc _ hgpat _ hgmtrr
      · exact List.mem_cons_of_mem _ hmem
      · exact absurd ⟨hpat, hwc.trans hlacks, hminus, hwp⟩ hnot

/-- Under the default PAT, `UC-` pages keep their memory type. -/
theorem selectsType_lowMemory : SelectsType fullHost lowMemory 0x200000 ptePcdBit :=
  (selectsType_iff reachable_lowMemory 0x200000 ptePcdBit).mpr
    fun hlacks => absurd hlacks.2.1 (by decide)

/-- A host without write-combining. -/
def plainHost : CachePcpuData := cacheInitPcpu true true false 0x108 CacheRegs.zero

/-- The guest's memory is write-protected by default. -/
def writeProtected : CacheData :=
  ((guestCache plainHost fun _ _ => false).run (cacheInitVcpu plainHost)
    [.gmtrr 0x2FF 0x805]).getD (cacheInitVcpu plainHost)

/-- `get_type` resolves write-combining, and the entry selected is write-back. -/
theorem not_selectsType_writeProtected :
    (guestCache plainHost fun _ _ => false).Reachable writeProtected ∧
      getType writeProtected 0x200000 ptePcdBit = some cacheTypeWc ∧
      (cacheGetAttr plainHost writeProtected 0x200000 ptePcdBit).map
        (fun attr => plainHost.h.patData (patIndex attr)) = some cacheTypeWb ∧
      ¬ SelectsType plainHost writeProtected 0x200000 ptePcdBit := by
  refine ⟨Lib.Machine.Reachable.run (.init (Or.inl rfl)) [.gmtrr 0x2FF 0x805] rfl,
    by decide, by decide, ?_⟩
  rintro ⟨t, attr, ht, -, hattr, hsel⟩
  have ht' : getType writeProtected 0x200000 ptePcdBit = some cacheTypeWc := by decide
  have hattr' : cacheGetAttr plainHost writeProtected 0x200000 ptePcdBit = some 0 := by decide
  rw [ht'] at ht
  rw [hattr'] at hattr
  cases ht
  cases hattr
  exact absurd hsel (by decide)

end OnDemandVirt.Vmm
