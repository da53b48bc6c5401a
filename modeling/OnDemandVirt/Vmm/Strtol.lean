import Mathlib.Data.List.Basic
import Mathlib.Data.List.TakeWhile
import Mathlib.Data.BitVec
import Mathlib.Data.Nat.Digits.Defs

/-!
# Number parsing

`strtol` looks at an overflow twice for each digit: before the multiplication, and at the sum. With
no sign the limit is that of the type itself, so that the sum can wrap around in between; and a
prefix `0x` is skipped whether or not a digit follows. `strtol_iff` says that nothing else goes
wrong.

A string is the list of its characters without the terminating zero, and a pointer into it is what
is left of the list.
-/

namespace OnDemandVirt.Vmm

abbrev CString := List (BitVec 8)

/-- `*s`. -/
def CString.char (s : CString) : BitVec 8 := s.headD 0

def isBlank (c : BitVec 8) : Bool := c = 0x20 || c = 0x09

def isSpace (c : BitVec 8) : Bool := isBlank c || c = 0x0C || c = 0x0A || c = 0x0D || c = 0x0B

/-- `digit_to_num`; what is no digit gives the base. -/
def digitToNum (c : BitVec 8) (base : Nat) : Nat :=
  let n :=
    if 0x30 ≤ c && c ≤ 0x39 then c.toNat - 0x30
    else if 0x41 ≤ c && c ≤ 0x5A then c.toNat - 0x41 + 10
    else if 0x61 ≤ c && c ≤ 0x7A then c.toNat - 0x61 + 10
    else base
  let n := if n ≥ base then base else n
  if base < 2 || base > 36 then base else n

inductive Sign
  | none
  | plus
  | minus
deriving DecidableEq

/-- `valmax`. -/
def Sign.valmax : Sign → BitVec 64
  | .none => 0xFFFFFFFFFFFFFFFF
  | .plus => 0x7FFFFFFFFFFFFFFF
  | .minus => 0x8000000000000000

/-- What is returned for a value. -/
def Sign.apply : Sign → BitVec 64 → BitVec 64
  | .minus, val => -val
  | _, val => val

/-- The sign, and what comes after it. -/
def takeSign (s : CString) : Sign × CString :=
  if s.char = 0x2B then (.plus, s.tail)
  else if s.char = 0x2D then (.minus, s.tail)
  else (.none, s)

/-- `b`, the base that the prefix stands for. -/
def prefixBase (s : CString) : Nat :=
  if s.char = 0x30 then
    if CString.char s.tail = 0x58 || CString.char s.tail = 0x78 then 16 else 8
  else 10

/-- The loop, with `none` for `overflow_or_underflow`, and `*e`. -/
def strtolLoop (base : Nat) (valmax : BitVec 64) : BitVec 64 → CString → Option (BitVec 64) × CString
  | val, [] => (some val, [])
  | val, ch :: s =>
    let c := digitToNum ch base
    if c = base then (some val, ch :: s)
    else if val > valmax / BitVec.ofNat 64 base then (none, ch :: s)
    else
      let val := val * BitVec.ofNat 64 base + BitVec.ofNat 64 c
      if val > valmax then (none, ch :: s)
      else strtolLoop base valmax val s

/-- `strtol`: what it returns, and `*e`. -/
def strtol (s : CString) (base : Nat) : BitVec 64 × CString :=
  let (sign, s) := takeSign (s.dropWhile isSpace)
  let b := prefixBase s
  let base := if base = 0 then b else base
  let s := if base = 16 && b = 16 then s.drop 2 else s
  let (val, e) := strtolLoop base sign.valmax 0 s
  (sign.apply (val.getD sign.valmax), e)

/-! ### What is to be returned -/

/-- What a character stands for. -/
def digitValue (c : BitVec 8) : Option Nat :=
  if 0x30 ≤ c ∧ c ≤ 0x39 then some (c.toNat - 0x30)
  else if 0x41 ≤ c ∧ c ≤ 0x5A then some (c.toNat - 0x41 + 10)
  else if 0x61 ≤ c ∧ c ≤ 0x7A then some (c.toNat - 0x61 + 10)
  else none

/-- The longest prefix of digits. -/
def digitsOf (base : Nat) : CString → List Nat
  | [] => []
  | c :: s =>
    match (digitValue c).filter (· < base) with
    | some d => d :: digitsOf base s
    | none => []

/-- The value of digits that come after the digits of `v`. -/
def valueFrom (base v : Nat) (ds : List Nat) : Nat := ds.foldl (fun v d => v * base + d) v

/-- How many digits can be taken after those of `v` before the value is over the limit. -/
def consumed (base limit : Nat) : Nat → List Nat → Nat
  | _, [] => 0
  | v, d :: ds => if v * base + d ≤ limit then consumed base limit (v * base + d) ds + 1 else 0

/-- Where the digits begin: a prefix `0x` is one only if a digit follows. -/
def digitPart (base : Nat) (s : CString) : CString :=
  if base = 16 ∧ prefixBase s = 16 ∧ digitsOf 16 (s.drop 2) ≠ [] then s.drop 2 else s

/-- The number in a string: its sign, its base, and the string from the prefix on. -/
structure Number where
  sign : Sign
  base : Nat
  start : CString

def numberOf (s : CString) (base : Nat) : Number :=
  let (sign, t) := takeSign (s.dropWhile isSpace)
  ⟨sign, if base = 0 then prefixBase t else base, t⟩

namespace Number

variable (n : Number)

def limit : Nat := n.sign.valmax.toNat

def digits : List Nat := digitsOf n.base (digitPart n.base n.start)

/-- The value of all the digits. -/
def value : Nat := Nat.ofDigits n.base n.digits.reverse

/-- How many of the digits are taken. -/
def taken : Nat := consumed n.base n.limit 0 n.digits

/-- A prefix `0x` and no digit. -/
def BarePrefix : Prop := n.base = 16 ∧ prefixBase n.start = 16 ∧ digitsOf 16 (n.start.drop 2) = []

/-- With no sign, the digits up to the one that takes the value over the limit make just the
quotient of the limit and the base. -/
def Wraps : Prop :=
  n.sign = .none ∧ n.limit < n.value ∧
    Nat.ofDigits n.base (n.digits.take n.taken).reverse = n.limit / n.base

end Number

/-- `strtol` returns the value of the digits or the limit, and where the digits that were taken
end. -/
def StrtolOk (s : CString) (base : Nat) : Prop :=
  let n := numberOf s base
  strtol s base = (n.sign.apply (BitVec.ofNat 64 (min n.value n.limit)),
    (digitPart n.base n.start).drop n.taken)

/-! ### Digits -/

theorem valueFrom_append (base v : Nat) (ds : List Nat) (d : Nat) :
    valueFrom base v (ds ++ [d]) = valueFrom base v ds * base + d :=
  List.foldl_concat ..

theorem ofDigits_reverse (base : Nat) (ds : List Nat) :
    Nat.ofDigits base ds.reverse = valueFrom base 0 ds := by
  induction ds using List.reverseRecOn with
  | nil => rfl
  | append_singleton ds d ih =>
    rw [List.reverse_concat, Nat.ofDigits_cons, ih, valueFrom_append]
    exact (Nat.add_comm d _).trans (congrArg (· + d) (Nat.mul_comm base _))

theorem le_valueFrom {base : Nat} (hb : 0 < base) (v : Nat) (ds : List Nat) :
    v ≤ valueFrom base v ds := by
  induction ds generalizing v with
  | nil => exact Nat.le_refl v
  | cons d ds ih =>
    have hstep : v ≤ v * base + d := Nat.le_add_right_of_le (Nat.le_mul_of_pos_right v hb)
    exact Nat.le_trans hstep (ih (v * base + d))

/-- A digit that is too great is none. -/
theorem filter_getD (base n : Nat) :
    ((some n).filter (· < base)).getD base = if n ≥ base then base else n := by
  by_cases h : n < base
  · rw [if_neg (Nat.not_le.mpr h), Option.filter_some_pos (by simpa using h), Option.getD_some]
  · rw [if_pos (Nat.not_lt.mp h), Option.filter_some_neg (by simpa using h), Option.getD_none]

theorem digitToNum_eq {base : Nat} (hb : 2 ≤ base) (hb' : base ≤ 36) (c : BitVec 8) :
    digitToNum c base = ((digitValue c).filter (· < base)).getD base := by
  have hbase : (base < 2 || base > 36) = false := by
    rw [Bool.or_eq_false_iff, decide_eq_false_iff_not, decide_eq_false_iff_not]
    omega
  unfold digitToNum digitValue
  simp only [hbase, Bool.and_eq_true, decide_eq_true_eq, Bool.false_eq_true, if_false]
  split_ifs with h1 h2 h3
  all_goals first
    | rw [filter_getD]; simp_all
    | simp

/-- The loop at a character that is no digit. -/
theorem strtolLoop_end {base : Nat} (hb : 2 ≤ base) (hb' : base ≤ 36) {c : BitVec 8}
    (hc : (digitValue c).filter (· < base) = none) (valmax val : BitVec 64) (s : CString) :
    strtolLoop base valmax val (c :: s) = (some val, c :: s) := by
  rw [strtolLoop, digitToNum_eq hb hb', hc]
  simp

/-- The loop at a digit. -/
theorem strtolLoop_digit {base d : Nat} (hb : 2 ≤ base) (hb' : base ≤ 36) {c : BitVec 8}
    (hc : (digitValue c).filter (· < base) = some d) (valmax val : BitVec 64) (s : CString) :
    strtolLoop base valmax val (c :: s) =
      if val > valmax / BitVec.ofNat 64 base then (none, c :: s)
      else if val * BitVec.ofNat 64 base + BitVec.ofNat 64 d > valmax then (none, c :: s)
      else strtolLoop base valmax (val * BitVec.ofNat 64 base + BitVec.ofNat 64 d) s := by
  have hd : d ≠ base := by
    have hlt := (Option.filter_eq_some_iff.mp hc).2
    simp only [decide_eq_true_eq] at hlt
    omega
  rw [strtolLoop, digitToNum_eq hb hb', hc, Option.getD_some]
  dsimp only
  rw [if_neg hd]

/-! ### The loop -/

/-- The digits of `ds` that can be taken after `v` make just the quotient of the limit and the base,
and there are more. -/
def WrapsFrom (base limit v : Nat) (ds : List Nat) : Prop :=
  limit < valueFrom base v ds ∧
    valueFrom base v (ds.take (consumed base limit v ds)) = limit / base

section Loop

variable {base limit v d : Nat} {ds : List Nat}

theorem consumed_cons_of_le (h : v * base + d ≤ limit) :
    consumed base limit v (d :: ds) = consumed base limit (v * base + d) ds + 1 := by
  rw [consumed, if_pos h]

theorem consumed_cons_of_lt (h : limit < v * base + d) : consumed base limit v (d :: ds) = 0 := by
  rw [consumed, if_neg (Nat.not_le.mpr h)]

theorem wrapsFrom_cons_of_le (h : v * base + d ≤ limit) :
    WrapsFrom base limit v (d :: ds) ↔ WrapsFrom base limit (v * base + d) ds := by
  unfold WrapsFrom
  rw [consumed_cons_of_le h, List.take_succ_cons]
  rfl

/-- A digit that takes the value over the limit although the test before the multiplication passes
is one after the quotient. -/
theorem eq_div_of_lt (hd : d < base) (hv : v ≤ limit / base) (h : limit < v * base + d) :
    v = limit / base := by
  by_contra hne
  have hle : (v + 1) * base ≤ limit := by
    rw [← Nat.le_div_iff_mul_le (by omega)]
    omega
  rw [Nat.succ_mul] at hle
  omega

theorem wrapsFrom_cons_of_lt (hb : 0 < base) (hd : d < base) (hv : v ≤ limit / base)
    (h : limit < v * base + d) : WrapsFrom base limit v (d :: ds) := by
  refine ⟨Nat.lt_of_lt_of_le h (le_valueFrom hb _ ds), ?_⟩
  rw [consumed_cons_of_lt h]
  exact eq_div_of_lt hd hv h

variable (hb : 2 ≤ base) (hb' : base ≤ 36)
include hb hb'

theorem toNat_ofNat_base : (BitVec.ofNat 64 base).toNat = base :=
  BitVec.toNat_ofNat .. |>.trans (Nat.mod_eq_of_lt (by omega))

theorem toNat_step {val : BitVec 64} (hd : d < base) (h : val.toNat * base + d < 2 ^ 64) :
    (val * BitVec.ofNat 64 base + BitVec.ofNat 64 d).toNat = val.toNat * base + d := by
  rw [BitVec.toNat_add, BitVec.toNat_mul, toNat_ofNat_base hb hb', BitVec.toNat_ofNat,
    Nat.mod_eq_of_lt (show val.toNat * base < 2 ^ 64 by omega),
    Nat.mod_eq_of_lt (show d < 2 ^ 64 by omega), Nat.mod_eq_of_lt h]

theorem gt_div_iff {val valmax : BitVec 64} :
    val > valmax / BitVec.ofNat 64 base ↔ valmax.toNat / base < val.toNat := by
  rw [gt_iff_lt, BitVec.lt_def, BitVec.toNat_udiv, toNat_ofNat_base hb hb']

/-- Where the value does not wrap around, the loop takes the digits that fit. -/
theorem strtolLoop_eq (valmax : BitVec 64) {val : BitVec 64} (hval : val ≤ valmax) (s : CString)
    (hw : valmax.toNat + base < 2 ^ 64 ∨
      ¬ WrapsFrom base valmax.toNat val.toNat (digitsOf base s)) :
    strtolLoop base valmax val s =
      (if valueFrom base val.toNat (digitsOf base s) ≤ valmax.toNat then
        some (BitVec.ofNat 64 (valueFrom base val.toNat (digitsOf base s))) else none,
      s.drop (consumed base valmax.toNat val.toNat (digitsOf base s))) := by
  have hb0 : 0 < base := Nat.lt_of_lt_of_le Nat.two_pos hb
  have hval' : val.toNat ≤ valmax.toNat := hval
  induction s generalizing val with
  | nil =>
    change (some val, []) = _
    simp [digitsOf, valueFrom, consumed, hval']
  | cons c s ih =>
    cases hc : (digitValue c).filter (· < base) with
    | none =>
      rw [strtolLoop_end hb hb' hc]
      simp [digitsOf, hc, valueFrom, consumed, hval']
    | some d =>
      have hd : d < base := of_decide_eq_true (Option.filter_eq_some_iff.mp hc).2
      have hds : digitsOf base (c :: s) = d :: digitsOf base s := by rw [digitsOf, hc]
      rw [hds] at hw ⊢
      rw [strtolLoop_digit hb hb' hc]
      have hover : valmax.toNat < val.toNat * base + d →
          (none, c :: s) = (if valueFrom base val.toNat (d :: digitsOf base s) ≤ valmax.toNat then
            some (BitVec.ofNat 64 (valueFrom base val.toNat (d :: digitsOf base s))) else none,
            (c :: s).drop (consumed base valmax.toNat val.toNat (d :: digitsOf base s))) := by
        intro hlt
        have hvalue : valmax.toNat < valueFrom base val.toNat (d :: digitsOf base s) :=
          Nat.lt_of_lt_of_le hlt (le_valueFrom hb0 _ (digitsOf base s))
        rw [if_neg (Nat.not_le.mpr hvalue), consumed_cons_of_lt hlt, List.drop_zero]
      by_cases hdiv : valmax.toNat / base < val.toNat
      · rw [if_pos ((gt_div_iff hb hb').mpr hdiv)]
        have hmul := (Nat.div_lt_iff_lt_mul hb0).mp hdiv
        exact hover (by omega)
      · rw [if_neg fun hgt => hdiv ((gt_div_iff hb hb').mp hgt)]
        have hmul : val.toNat * base ≤ valmax.toNat :=
          (Nat.le_div_iff_mul_le hb0).mp (Nat.not_lt.mp hdiv)
        have hfit : val.toNat * base + d < 2 ^ 64 := by
          rcases hw with hw | hw
          · omega
          · by_contra hge
            have hlt : valmax.toNat < val.toNat * base + d := by have := valmax.isLt; omega
            exact hw (wrapsFrom_cons_of_lt hb0 hd (Nat.not_lt.mp hdiv) hlt)
        have hstep := toNat_step hb hb' hd hfit
        by_cases hle : val.toNat * base + d ≤ valmax.toNat
        · rw [if_neg (by rw [gt_iff_lt, BitVec.lt_def, hstep]; omega), ih, hstep,
            consumed_cons_of_le hle, List.drop_succ_cons]
          · rfl
          · exact BitVec.le_def.mpr (hstep ▸ hle)
          · rw [hstep]
            exact hw.imp_right fun hw => fun hwraps => hw ((wrapsFrom_cons_of_le hle).mpr hwraps)
          · exact hstep ▸ hle
        · rw [if_pos (by rw [gt_iff_lt, BitVec.lt_def, hstep]; omega)]
          exact hover (Nat.not_le.mp hle)

omit hb hb' in
/-- What the loop leaves of a string. -/
theorem strtolLoop_length_le (valmax val : BitVec 64) (s : CString) :
    (strtolLoop base valmax val s).2.length ≤ s.length := by
  induction s generalizing val with
  | nil => exact Nat.le_refl _
  | cons c s ih =>
    rw [strtolLoop]
    dsimp only
    split_ifs
    · exact Nat.le_refl _
    · exact Nat.le_refl _
    · exact Nat.le_refl _
    · exact Nat.le_succ_of_le (ih _)

/-- Where the value wraps around, the loop takes a digit too many. -/
theorem strtolLoop_length_lt {val : BitVec 64} (s : CString)
    (hw : WrapsFrom base (2 ^ 64 - 1) val.toNat (digitsOf base s)) :
    (strtolLoop base 0xFFFFFFFFFFFFFFFF val s).2.length <
      (s.drop (consumed base (2 ^ 64 - 1) val.toNat (digitsOf base s))).length := by
  have hb0 : 0 < base := Nat.lt_of_lt_of_le Nat.two_pos hb
  have hmax : ∀ x : BitVec 64, ¬ x > 0xFFFFFFFFFFFFFFFF := fun x => BitVec.not_lt.mpr (by
    rw [BitVec.le_def]
    have hx := x.isLt
    change x.toNat ≤ 0xFFFFFFFFFFFFFFFF
    omega)
  induction s generalizing val with
  | nil =>
    have hlt := hw.1
    have hval := val.isLt
    change 2 ^ 64 - 1 < val.toNat at hlt
    omega
  | cons c s ih =>
    cases hc : (digitValue c).filter (· < base) with
    | none =>
      have hlt := hw.1
      have hval := val.isLt
      rw [digitsOf, hc] at hlt
      change 2 ^ 64 - 1 < val.toNat at hlt
      omega
    | some d =>
      have hd : d < base := of_decide_eq_true (Option.filter_eq_some_iff.mp hc).2
      have hds : digitsOf base (c :: s) = d :: digitsOf base s := by rw [digitsOf, hc]
      rw [hds] at hw ⊢
      by_cases hle : val.toNat * base + d ≤ 2 ^ 64 - 1
      · have hstep := toNat_step hb hb' hd (Nat.lt_of_le_of_lt hle (by decide))
        have hdiv : ¬ val > 0xFFFFFFFFFFFFFFFF / BitVec.ofNat 64 base := by
          rw [gt_div_iff hb hb', Nat.not_lt, Nat.le_div_iff_mul_le hb0]
          exact Nat.le_trans (Nat.le_add_right _ d) hle
        rw [strtolLoop_digit hb hb' hc, if_neg hdiv, if_neg (hmax _), consumed_cons_of_le hle,
          List.drop_succ_cons, ← hstep]
        refine ih ?_
        rw [hstep]
        exact (wrapsFrom_cons_of_le hle).mp hw
      · have heq : val.toNat = (2 ^ 64 - 1) / base := by
          have heq := hw.2
          rwa [consumed_cons_of_lt (Nat.not_le.mp hle)] at heq
        have hdiv : ¬ val > 0xFFFFFFFFFFFFFFFF / BitVec.ofNat 64 base := by
          rw [gt_div_iff hb hb', heq]
          exact Nat.lt_irrefl _
        rw [strtolLoop_digit hb hb' hc, if_neg hdiv, if_neg (hmax _),
          consumed_cons_of_lt (Nat.not_le.mp hle), List.drop_zero]
        exact Nat.lt_succ_of_le (strtolLoop_length_le _ _ s)

end Loop

/-! ### The result -/

theorem Number.value_eq (n : Number) : n.value = valueFrom n.base 0 n.digits := ofDigits_reverse ..

theorem base_numberOf (s : CString) {base : Nat} (hb : base = 0 ∨ 2 ≤ base ∧ base ≤ 36) :
    2 ≤ (numberOf s base).base ∧ (numberOf s base).base ≤ 36 := by
  unfold numberOf
  dsimp only
  split_ifs
  · unfold prefixBase
    split_ifs <;> decide
  · omega

/-- `strtol` in terms of the number in the string. -/
theorem strtol_eq (s : CString) (base : Nat) :
    strtol s base =
      let n := numberOf s base
      let r := strtolLoop n.base n.sign.valmax 0
        (if n.base = 16 ∧ prefixBase n.start = 16 then n.start.drop 2 else n.start)
      (n.sign.apply (r.1.getD n.sign.valmax), r.2) := by
  unfold strtol numberOf
  simp only [Bool.and_eq_true, decide_eq_true_eq]

/-- With a sign there is room above the limit. -/
theorem limit_add_lt {sign : Sign} (hs : sign ≠ .none) {base : Nat} (hb : base ≤ 36) :
    sign.valmax.toNat + base < 2 ^ 64 := by
  cases sign with
  | none => exact absurd rfl hs
  | plus => exact Nat.lt_of_le_of_lt (Nat.add_le_add_left hb _) (by decide)
  | minus => exact Nat.lt_of_le_of_lt (Nat.add_le_add_left hb _) (by decide)

theorem Number.wraps_iff (n : Number) :
    n.Wraps ↔ n.sign = .none ∧ WrapsFrom n.base n.limit 0 n.digits := by
  unfold Number.Wraps WrapsFrom Number.taken
  rw [n.value_eq, ofDigits_reverse]

/-- A prefix `0x`. -/
theorem prefixBase_eq_16 {s : CString} (h : prefixBase s = 16) :
    ∃ x rest, s = 0x30 :: x :: rest ∧ (x = 0x58 ∨ x = 0x78) := by
  unfold prefixBase at h
  split_ifs at h with h0 hx
  · match s, h0, hx with
    | [c], _, hx => exact absurd hx (by simp [CString.char])
    | c :: x :: rest, h0, hx =>
      refine ⟨x, rest, ?_, by simpa [CString.char] using hx⟩
      rw [show c = 0x30 from h0]
  · exact absurd h (by decide)
  · exact absurd h (by decide)

/-- The zero of a prefix `0x` is the only digit where no digit follows. -/
theorem digitsOf_prefix {x : BitVec 8} (hx : x = 0x58 ∨ x = 0x78) (rest : CString) :
    digitsOf 16 (0x30 :: x :: rest) = [0] := by
  rcases hx with rfl | rfl <;> rfl

theorem Number.not_ok_of_barePrefix {n : Number} (h : n.BarePrefix) :
    (strtolLoop n.base n.sign.valmax 0 (n.start.drop 2)).2 ≠
      (digitPart n.base n.start).drop n.taken := by
  obtain ⟨hbase, hsixteen, hdigits⟩ := h
  obtain ⟨x, rest, hstart, hx⟩ := prefixBase_eq_16 hsixteen
  have hpart : digitPart n.base n.start = n.start := by
    unfold digitPart
    rw [if_neg fun h => h.2.2 hdigits]
  have htaken : n.taken ≤ 1 := by
    unfold Number.taken Number.digits
    rw [hpart, hbase, hstart, digitsOf_prefix hx, consumed]
    split_ifs
    · exact Nat.le_refl 1
    · exact Nat.zero_le 1
  intro heq
  have hlen : (strtolLoop n.base n.sign.valmax 0 (n.start.drop 2)).2.length ≤
      (n.start.drop 2).length := strtolLoop_length_le _ _ _
  rw [heq, hpart, hstart, List.length_drop, List.length_drop, List.length_cons,
    List.length_cons] at hlen
  omega

/-- `strtol` returns the value or the limit, and the end of the digits, except after a prefix `0x`
without a digit, and where the value wraps around. -/
theorem strtol_iff (s : CString) {base : Nat} (hb : base = 0 ∨ 2 ≤ base ∧ base ≤ 36) :
    StrtolOk s base ↔ ¬ (numberOf s base).BarePrefix ∧ ¬ (numberOf s base).Wraps := by
  obtain ⟨hb2, hb36⟩ := base_numberOf s hb
  unfold StrtolOk
  rw [strtol_eq]
  generalize numberOf s base = n at hb2 hb36 ⊢
  dsimp only
  by_cases hbare : n.BarePrefix
  · refine iff_of_false (fun heq => ?_) fun h => h.1 hbare
    rw [if_pos ⟨hbare.1, hbare.2.1⟩] at heq
    exact Number.not_ok_of_barePrefix hbare (congrArg Prod.snd heq)
  · have hpart : (if n.base = 16 ∧ prefixBase n.start = 16 then n.start.drop 2 else n.start) =
        digitPart n.base n.start := by
      unfold digitPart
      by_cases hsixteen : n.base = 16 ∧ prefixBase n.start = 16
      · have hdigits : digitsOf 16 (n.start.drop 2) ≠ [] := fun h =>
          hbare ⟨hsixteen.1, hsixteen.2, h⟩
        rw [if_pos hsixteen, if_pos ⟨hsixteen.1, hsixteen.2, hdigits⟩]
      · rw [if_neg hsixteen, if_neg fun h => hsixteen ⟨h.1, h.2.1⟩]
    rw [hpart, n.wraps_iff]
    constructor
    · refine fun heq => ⟨hbare, fun ⟨hsign, hwraps⟩ => ?_⟩
      -- the code goes on behind the digit that wraps around
      have hlimit : n.limit = 2 ^ 64 - 1 := by
        unfold Number.limit
        rw [hsign]
        rfl
      rw [hlimit] at hwraps
      have hlt := strtolLoop_length_lt hb2 hb36 _ (show WrapsFrom n.base (2 ^ 64 - 1)
        (0 : BitVec 64).toNat (digitsOf n.base (digitPart n.base n.start)) from hwraps)
      have hend := congrArg Prod.snd heq
      rw [hsign] at hend
      change (strtolLoop n.base 0xFFFFFFFFFFFFFFFF 0 _).2 = _ at hend
      rw [hend, Number.taken, hlimit] at hlt
      exact Nat.lt_irrefl _ hlt
    · rintro ⟨-, hnot⟩
      have hw : n.sign.valmax.toNat + n.base < 2 ^ 64 ∨ ¬ WrapsFrom n.base n.sign.valmax.toNat
          (0 : BitVec 64).toNat (digitsOf n.base (digitPart n.base n.start)) := by
        by_cases hsign : n.sign = .none
        · exact .inr fun hwraps => hnot ⟨hsign, hwraps⟩
        · exact .inl (limit_add_lt hsign hb36)
      have hrun := strtolLoop_eq hb2 hb36 n.sign.valmax (Nat.zero_le _) _ hw
      have hvalue : n.value = valueFrom n.base (0 : BitVec 64).toNat
          (digitsOf n.base (digitPart n.base n.start)) := n.value_eq
      rw [hrun, ← hvalue]
      refine Prod.ext ?_ rfl
      change n.sign.apply (Option.getD (if n.value ≤ n.limit then _ else _) _) = _
      by_cases hle : n.value ≤ n.limit
      · rw [if_pos hle, Nat.min_eq_left hle, Option.getD_some]
      · rw [if_neg hle, Nat.min_eq_right (Nat.le_of_not_le hle), Option.getD_none, Number.limit,
          BitVec.ofNat_toNat, BitVec.setWidth_eq]

/-- `-0x7f` with base 0. -/
theorem strtol_iff_negativeHex : StrtolOk [0x2D, 0x30, 0x78, 0x37, 0x66] 0 :=
  (strtol_iff [0x2D, 0x30, 0x78, 0x37, 0x66] (.inl rfl)).mpr ⟨by
    rintro ⟨-, -, h⟩
    exact absurd h (by decide), fun h => absurd h.1 (by decide)⟩

/-- `18446744073709551616` in base 10 is 0. -/
theorem not_strtolOk_wrapped : ¬ ∀ s base, base = 0 ∨ 2 ≤ base ∧ base ≤ 36 → StrtolOk s base := by
  intro hall
  have hok := hall [0x31, 0x38, 0x34, 0x34, 0x36, 0x37, 0x34, 0x34, 0x30, 0x37, 0x33, 0x37, 0x30,
    0x39, 0x35, 0x35, 0x31, 0x36, 0x31, 0x36] 10 (.inr (by decide))
  have hvalue := congrArg Prod.fst hok
  exact absurd hvalue (by decide)

end OnDemandVirt.Vmm
