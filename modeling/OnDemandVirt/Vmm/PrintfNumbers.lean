import OnDemandVirt.Vmm.PrintfIso

/-!
# Numbers in formatted output

The tables of powers give the digits of a number, and what `do_conversion_int` puts is laid out as
it should be. The characters say which number it is.
-/

namespace OnDemandVirt.Vmm.Printf

/-! ### Numbers -/

theorem subtract_eq {sub : Nat} (hsub : 0 < sub) (digit val : Nat) :
    subtract sub digit val = (digit + val / sub, val % sub) := by
  induction val using Nat.strong_induction_on generalizing digit with
  | h val ih =>
    rw [subtract]
    split_ifs with h
    · obtain ⟨-, hle⟩ := h
      rw [ih _ (by omega), Nat.div_eq_sub_div hsub hle, Nat.mod_eq_sub_mod hle]
      congr 1
      omega
    · have hlt : val < sub := Nat.lt_of_not_le fun hle => h ⟨hsub, hle⟩
      rw [Nat.div_eq_of_lt hlt, Nat.mod_eq_of_lt hlt, Nat.add_zero]

/-- Digits by subtraction, from a power of the base down. -/
theorem valconvLoop_powers {base : Nat} (hbase : 1 < base) (str : CString) (n : Nat) {val : Nat}
    (hval : val < base ^ n) : valconvLoop str (powers base n) val =
      List.replicate (n - (Nat.digits base val).length) (str.getD 0 0) ++
        (Nat.digits base val).reverse.map (str.getD · 0) := by
  induction n generalizing val with
  | zero =>
    have hzero : val = 0 := by rw [Nat.pow_zero] at hval; omega
    subst hzero
    rw [Nat.digits_zero]
    rfl
  | succ n ih =>
    have hpos : 0 < base ^ n := Nat.pow_pos (by omega)
    have hmod := Nat.mod_lt val hpos
    have hlen : (Nat.digits base (val % base ^ n)).length ≤ n :=
      (Nat.digits_length_le_iff hbase _).mpr hmod
    rw [powers, valconvLoop, if_neg (by omega), subtract_eq hpos, Nat.zero_add]
    dsimp only
    rw [ih hmod]
    by_cases hq : val / base ^ n = 0
    · have hlt : val < base ^ n := (Nat.div_eq_zero_iff_lt hpos).mp hq
      rw [Nat.mod_eq_of_lt hlt] at hlen ⊢
      rw [hq, ← List.cons_append, ← List.replicate_succ, Nat.sub_add_comm hlen]
    · have hqlt : val / base ^ n < base := by
        rw [Nat.div_lt_iff_lt_mul hpos, ← Nat.pow_succ']
        exact hval
      have hdigits := Nat.digits_append_zeroes_append_digits (n := val % base ^ n)
        (k := n - (Nat.digits base (val % base ^ n)).length) hbase (Nat.pos_of_ne_zero hq)
      rw [Nat.add_sub_cancel' hlen, Nat.digits_of_lt _ _ hq hqlt, Nat.mod_add_div] at hdigits
      rw [← hdigits]
      have hsub : n + 1 - (Nat.digits base (val % base ^ n) ++
          List.replicate (n - (Nat.digits base (val % base ^ n)).length) 0 ++
            [val / base ^ n]).length = 0 := by
        simp only [List.length_append, List.length_replicate, List.length_singleton]
        omega
      rw [hsub]
      simp [List.map_reverse, List.reverse_append]

theorem dropWhile_powers {base : Nat} (hbase : 1 < base) {val : Nat} (hval : val ≠ 0) (n : Nat)
    (hlt : val < base ^ n) : ((powers base n).dropWhile fun sub => decide (val < sub)) =
      powers base (Nat.digits base val).length := by
  induction n with
  | zero =>
    rw [Nat.pow_zero] at hlt
    omega
  | succ n ih =>
    by_cases hsmall : val < base ^ n
    · rw [powers, List.dropWhile_cons_of_pos (by simpa using hsmall), ih hsmall]
    · have hlen : (Nat.digits base val).length = n + 1 := by
        have hle := (Nat.digits_length_le_iff hbase val).mpr hlt
        have hgt := (Nat.lt_digits_length_iff hbase val).mpr (Nat.le_of_not_lt hsmall)
        omega
      rw [hlen, powers, List.dropWhile_cons_of_neg (by simpa using hsmall)]

theorem valconv_eq {base : Nat} (hbase : 1 < base) (str : CString) (n : Nat) {val : Nat}
    (hval : val ≠ 0) (hlt : val < base ^ n) : valconv val (powers base n) str =
      (Nat.digits base val).reverse.map (str.getD · 0) := by
  rw [valconv, if_neg hval, dropWhile_powers hbase hval n hlt,
    valconvLoop_powers hbase str _ (Nat.lt_base_pow_length_digits hbase), Nat.sub_self]
  rfl

theorem map_digits {base : Nat} {capital : Bool} {str : CString} (val : Nat) (hbase : 1 < base)
    (hstr : ∀ d < base, str.getD d 0 = digitChar capital d) :
    (Nat.digits base val).reverse.map (str.getD · 0) =
      (Nat.digits base val).reverse.map (digitChar capital) :=
  List.map_congr_left fun d hd => hstr d (Nat.digits_lt_base hbase (List.mem_reverse.mp hd))

/-- The base of a conversion of a number, and whether its digits are capital ones. -/
structure Format.Number (f : Format) (base : Nat) (capital : Bool) : Prop where
  decimal : base = 10 → f.conversionDecimal = true
  base_lt : base ≠ 10 → f.conversionDecimal = false
  octal : base = 8 → f.conversionOctal = true
  octal_ne : base ≠ 8 → f.conversionOctal = false
  hexadecimal : base = 16 → f.conversionHexadecimal = true
  capital_eq : f.conversionCapital = capital
  base_eq : base = 10 ∧ capital = false ∨ base = 8 ∧ capital = false ∨ base = 16

theorem convertVal_eq {f : Format} {base : Nat} {capital : Bool} (h : f.Number base capital)
    {val : Nat} (hval : val ≠ 0) (hlt : val < 2 ^ 64) :
    convertVal val f = (Nat.digits base val).reverse.map (digitChar capital) := by
  unfold convertVal
  rcases h.base_eq with ⟨rfl, rfl⟩ | ⟨rfl, rfl⟩ | rfl
  · rw [if_pos (h.decimal rfl), sub10, valconv_eq (by decide) _ _ hval (by omega)]
    exact map_digits val (by decide) (by decide)
  · rw [if_neg (by rw [h.base_lt (by decide)]; decide), if_pos (h.octal rfl), sub8,
      valconv_eq (by decide) _ _ hval (by omega)]
    exact map_digits val (by decide) (by decide)
  · rw [if_neg (by rw [h.base_lt (by decide)]; decide),
      if_neg (by rw [h.octal_ne (by decide)]; decide), h.hexadecimal rfl, h.capital_eq]
    cases capital with
    | true =>
      rw [if_pos rfl, sub16, valconv_eq (by decide) _ _ hval (by omega)]
      exact map_digits val (by decide) (by decide)
    | false =>
      rw [if_neg (by decide), if_pos rfl, sub16, valconv_eq (by decide) _ _ hval (by omega)]
      exact map_digits val (by decide) (by decide)

theorem convertVal_zero {f : Format} {base : Nat} {capital : Bool} (h : f.Number base capital) :
    convertVal 0 f = [ascii '0'] := by
  unfold convertVal valconv
  rcases h.base_eq with ⟨rfl, rfl⟩ | ⟨rfl, rfl⟩ | rfl
  · rw [if_pos (h.decimal rfl)]
    rfl
  · rw [if_neg (by rw [h.base_lt (by decide)]; decide), if_pos (h.octal rfl)]
    rfl
  · rw [if_neg (by rw [h.base_lt (by decide)]; decide),
      if_neg (by rw [h.octal_ne (by decide)]; decide), h.hexadecimal rfl, h.capital_eq]
    cases capital <;> rfl

/-- The digits that are due, unless a zero has none. -/
theorem replicate_leftZero {f : Format} {base : Nat} {capital : Bool} (h : f.Number base capital)
    {val precision : Nat} (hlt : val < 2 ^ 64)
    (hsome : ¬ (f.hasPrecision = true ∧ precision = 0 ∧ val = 0)) :
    List.replicate (leftZero f precision (convertVal val f).length) (ascii '0') ++
      convertVal val f = isoDigits base capital (if f.hasPrecision then precision else 1) val := by
  unfold leftZero isoDigits
  dsimp only
  by_cases hval : val = 0
  · subst hval
    rw [convertVal_zero h, Nat.digits_zero]
    cases hp : f.hasPrecision with
    | false => rfl
    | true =>
      have hpos : 0 < precision := Nat.pos_of_ne_zero fun hzero => hsome ⟨hp, hzero, rfl⟩
      obtain ⟨k, rfl⟩ : ∃ k, precision = k + 1 := ⟨precision - 1, by omega⟩
      simp only [List.length_singleton, Bool.true_and, gt_iff_lt, decide_eq_true_eq, if_pos,
        List.reverse_nil, List.map_nil, List.length_nil, Nat.sub_zero, List.append_nil]
      have hk : (if 1 < k + 1 then k + 1 - 1 else 0) = k := by split_ifs <;> omega
      rw [List.replicate_succ', hk]
  · have hlen : 1 ≤ (Nat.digits base val).length :=
      List.length_pos_iff.mpr (Nat.digits_ne_nil_iff_ne_zero.mpr hval)
    rw [convertVal_eq h hval hlt]
    congr 2
    rw [List.length_map, List.length_reverse]
    cases hp : f.hasPrecision with
    | false =>
      rw [if_neg (by simp), if_neg (by simp)]
      omega
    | true =>
      rw [if_pos rfl]
      simp only [Bool.true_and, decide_eq_true_eq]
      split_ifs <;> omega

theorem conversionInt_eq {f : Format} {val : BitVec 64} {width precision : Nat}
    (hc : f.conversionCharacter = false)
    (hsome : ¬ (f.hasPrecision = true ∧ precision = 0 ∧ val = 0)) {lead body : CString}
    {leftzero : Nat} (hzero : leftZero f precision (convertVal val.toNat f).length = leftzero)
    (hlead : leftBuf val.toNat f leftzero = lead)
    (hbody : List.replicate leftzero (ascii '0') ++ convertVal val.toNat f = body) :
    conversionInt val f width precision =
      if f.hasWidth = true ∧ intMax < lead.length + body.length then none
      else some (layout f.leftAdjusted (f.zeroPadded && !f.hasPrecision)
        (if f.hasWidth then width else 0) lead body) := by
  have hlen : leftzero + (convertVal val.toNat f).length = body.length := by
    rw [← hbody, List.length_append, List.length_replicate]
  have hnone : f.hasPrecision = false → leftzero = 0 := by
    intro hp
    rw [← hzero, leftZero, hp]
    rfl
  unfold conversionInt layout
  rw [if_neg (by rw [hc]; decide), if_neg (by simpa using hsome)]
  dsimp only
  rw [hzero, hlead, Nat.add_assoc, hlen]
  by_cases hlarge : f.hasWidth = true ∧ intMax < lead.length + body.length
  · rw [if_pos (by simpa using hlarge), if_pos hlarge]
  · rw [if_neg (by simpa using hlarge), if_neg hlarge]
    have hsp : (if (f.hasWidth && decide (width > lead.length + body.length)) = true then
        width - (lead.length + body.length) else 0) =
          (if f.hasWidth = true then width else 0) - (lead.length + body.length) := by
      cases f.hasWidth with
      | false => simp
      | true =>
        simp only [Bool.true_and, decide_eq_true_eq, if_true]
        split_ifs <;> omega
    rw [hsp, ← hbody]
    cases hleft : f.leftAdjusted with
    | true => simp
    | false =>
      cases hpad : f.zeroPadded && !f.hasPrecision with
      | true =>
        have hp : f.hasPrecision = false := by simpa using (Bool.and_eq_true_iff.mp hpad).2
        simp [hnone hp]
      | false => simp

theorem head_isoDigits {base : Nat} (hbase : base = 8) {v minimum : Nat} (hv : v ≠ 0)
    (hle : minimum ≤ (Nat.digits base v).length) :
    (isoDigits base false minimum v).head? ≠ some (ascii '0') := by
  have hne := Nat.digits_ne_nil_iff_ne_zero (b := base).mpr hv
  have hlast := Nat.getLast_digit_ne_zero base hv
  have hlt := Nat.digits_lt_base (b := base) (by omega) (List.getLast_mem hne)
  have hchar : ∀ d < 8, d ≠ 0 → digitChar false d ≠ ascii '0' := by decide
  have hlen : minimum - ((Nat.digits base v).reverse.map (digitChar false)).length = 0 := by
    rw [List.length_map, List.length_reverse]
    omega
  rw [isoDigits, hlen, List.replicate_zero, List.nil_append, List.head?_map, List.head?_reverse,
    List.getLast?_eq_some_getLast hne, Option.map_some]
  exact fun h => hchar _ (by omega) hlast (Option.some.inj h)

/-- Where the zero of an octal number stands makes no difference. -/
theorem layout_zero (leftAdjusted zeroPadded : Bool) (width : Nat) (body : CString) :
    layout leftAdjusted zeroPadded width [ascii '0'] body =
      layout leftAdjusted zeroPadded width [] (ascii '0' :: body) := by
  have hlen : [ascii '0'].length + body.length =
      ([] : CString).length + (ascii '0' :: body).length := by
    simp only [List.length_nil, List.length_cons]
    omega
  unfold layout
  rw [hlen]
  cases leftAdjusted with
  | true => rfl
  | false =>
    cases zeroPadded with
    | true =>
      simp only [Bool.false_eq_true, if_false, if_true, List.nil_append, List.singleton_append]
      rw [← List.replicate_succ, List.replicate_succ', List.append_assoc, List.singleton_append]
    | false => simp

/-! ### What a number is -/

/-- The number that characters stand for in a base; what is no digit is skipped. -/
def readNumber (base : Nat) (n : Nat) (s : CString) : Nat :=
  s.foldl (fun n c => if digitToNum c base < base then n * base + digitToNum c base else n) n

theorem readNumber_append (base n : Nat) (s t : CString) :
    readNumber base n (s ++ t) = readNumber base (readNumber base n s) t :=
  List.foldl_append

theorem readNumber_blanks {base : Nat} (hbase : base = 10 ∨ base = 8 ∨ base = 16) (n k : Nat) :
    readNumber base n (List.replicate k (ascii ' ')) = n := by
  have hblank : ¬ digitToNum (ascii ' ') base < base := by
    rcases hbase with rfl | rfl | rfl <;> decide
  induction k with
  | zero => rfl
  | succ k ih =>
    rw [List.replicate_succ, readNumber, List.foldl_cons, if_neg hblank]
    exact ih

theorem readNumber_zeros {base : Nat} (hbase : base = 10 ∨ base = 8 ∨ base = 16) (k : Nat) :
    readNumber base 0 (List.replicate k (ascii '0')) = 0 := by
  have hzero : digitToNum (ascii '0') base = 0 := by
    rcases hbase with rfl | rfl | rfl <;> decide
  induction k with
  | zero => rfl
  | succ k ih =>
    rw [List.replicate_succ, readNumber, List.foldl_cons, hzero, Nat.zero_mul, Nat.add_zero]
    split_ifs <;> exact ih

theorem digitToNum_digitChar {base : Nat} (hbase : base = 10 ∨ base = 8 ∨ base = 16)
    (capital : Bool) : ∀ d < base, digitToNum (digitChar capital d) base = d := by
  rcases hbase with rfl | rfl | rfl <;> cases capital <;> decide

theorem readNumber_digits {base : Nat} (hbase : base = 10 ∨ base = 8 ∨ base = 16) (capital : Bool)
    (v : Nat) :
    readNumber base 0 ((Nat.digits base v).reverse.map (digitChar capital)) = v := by
  have hfold : ∀ ds : List Nat, (∀ d ∈ ds, d < base) →
      readNumber base 0 (ds.reverse.map (digitChar capital)) = Nat.ofDigits base ds := by
    intro ds hds
    induction ds with
    | nil => rfl
    | cons d ds ih =>
      have hd := hds d List.mem_cons_self
      rw [List.reverse_cons, List.map_append, readNumber_append,
        ih fun e he => hds e (List.mem_cons_of_mem _ he), List.map_singleton, readNumber,
        List.foldl_cons, List.foldl_nil, digitToNum_digitChar hbase capital d hd, if_pos hd,
        Nat.ofDigits_cons, Nat.mul_comm, Nat.add_comm]
  rw [hfold _ fun d hd => Nat.digits_lt_base (by omega) hd, Nat.ofDigits_digits]

theorem readNumber_isoDigits {base : Nat} (hbase : base = 10 ∨ base = 8 ∨ base = 16)
    (capital : Bool) (minimum v : Nat) :
    readNumber base 0 (isoDigits base capital minimum v) = v := by
  rw [isoDigits, readNumber_append, readNumber_zeros hbase, readNumber_digits hbase]

theorem readNumber_layout {base : Nat} (hbase : base = 10 ∨ base = 8 ∨ base = 16)
    (leftAdjusted zeroPadded : Bool) (width : Nat) {lead : CString} (body : CString)
    (hlead : readNumber base 0 lead = 0) :
    readNumber base 0 (layout leftAdjusted zeroPadded width lead body) =
      readNumber base 0 body := by
  unfold layout
  dsimp only
  split_ifs
  · rw [readNumber_append, readNumber_append, hlead, readNumber_blanks hbase]
  · rw [readNumber_append, readNumber_append, hlead, readNumber_zeros hbase]
  · rw [readNumber_append, readNumber_append, readNumber_blanks hbase, hlead]

theorem minus_mem_layout {leftAdjusted zeroPadded : Bool} {width : Nat} {lead body : CString}
    (hbody : ascii '-' ∉ body) :
    ascii '-' ∈ layout leftAdjusted zeroPadded width lead body ↔ ascii '-' ∈ lead := by
  have hblank : ∀ k, ascii '-' ∉ List.replicate k (ascii ' ') := fun k h =>
    absurd (List.eq_of_mem_replicate h) (by decide)
  have hzero : ∀ k, ascii '-' ∉ List.replicate k (ascii '0') := fun k h =>
    absurd (List.eq_of_mem_replicate h) (by decide)
  unfold layout
  dsimp only
  split_ifs <;> simp only [List.mem_append, hbody, hblank, hzero, or_false, false_or]

theorem minus_not_mem_isoDigits {base : Nat} (hbase : base = 10 ∨ base = 8 ∨ base = 16)
    (capital : Bool) (minimum v : Nat) : ascii '-' ∉ isoDigits base capital minimum v := by
  have hchar : ∀ capital, ∀ d < 16, digitChar capital d ≠ ascii '-' := by decide
  intro h
  rcases List.mem_append.mp h with h | h
  · exact absurd (List.eq_of_mem_replicate h) (by decide)
  · obtain ⟨d, hd, heq⟩ := List.mem_map.mp h
    have hlt := Nat.digits_lt_base (b := base) (by omega) (List.mem_reverse.mp hd)
    exact hchar capital d (by omega) heq

end OnDemandVirt.Vmm.Printf
