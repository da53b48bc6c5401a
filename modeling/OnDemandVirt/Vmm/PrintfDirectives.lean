import OnDemandVirt.Vmm.PrintfFields

/-!
# Conversion specifications

When the characters that the code puts for a directive are those that are due.
-/

namespace OnDemandVirt.Vmm.Printf

/-- The value of what was passed as a number with a sign. -/
def Arg.signed : Arg → Int
  | .int v => v.toInt
  | .long v => v.toInt
  | _ => 0

def Arg.unsigned : Arg → Nat
  | .int v => v.toNat
  | .long v => v.toNat
  | _ => 0

theorem layout_lead (leftAdjusted : Bool) (width : Nat) (lead body : CString) :
    layout leftAdjusted false width lead body =
      layout leftAdjusted false width [] (lead ++ body) := by
  unfold layout
  cases leftAdjusted <;> simp

theorem length_layout (leftAdjusted zeroPadded : Bool) (width : Nat) (lead body : CString) :
    (layout leftAdjusted zeroPadded width lead body).length =
      max width (lead.length + body.length) := by
  unfold layout
  dsimp only
  split_ifs <;> simp only [List.length_append, List.length_replicate] <;> omega

theorem layout_of_le (leftAdjusted zeroPadded : Bool) {width : Nat} (body : CString)
    (h : width ≤ body.length) : layout leftAdjusted zeroPadded width [] body = body := by
  unfold layout
  dsimp only
  rw [List.length_nil, Nat.zero_add, Nat.sub_eq_zero_of_le h]
  split_ifs <;> simp

theorem stringLen_eq (f : Format) (precision len : Nat) (str : CString) :
    stringLen f precision len str = len + (if f.hasPrecision then
      (str.takeWhile (· ≠ 0)).take (precision - len) else str.takeWhile (· ≠ 0)).length := by
  induction str generalizing len with
  | nil => simp [stringLen]
  | cons c str ih =>
    rw [stringLen]
    by_cases hc : c = 0
    · subst hc
      simp
    · by_cases hp : f.hasPrecision = true ∧ precision ≤ len
      · rw [if_pos (by simp [hp])]
        simp [hp.1, Nat.sub_eq_zero_of_le hp.2]
      · have hgo : ¬ (f.hasPrecision && decide (precision ≤ len) || decide (c = 0)) = true := by
          simpa using ⟨fun hf => Nat.lt_of_not_le fun hle => hp ⟨hf, hle⟩, hc⟩
        rw [if_neg hgo, ih, List.takeWhile_cons_of_pos (by simpa using hc)]
        cases hf : f.hasPrecision with
        | false => simp [Nat.add_assoc, Nat.add_comm 1]
        | true =>
          have hlt : len < precision := Nat.lt_of_not_le fun hle => hp ⟨hf, hle⟩
          obtain ⟨k, rfl⟩ : ∃ k, precision = len + 1 + k := ⟨precision - (len + 1), by omega⟩
          simp only [if_true, Nat.add_sub_cancel_left]
          rw [show len + 1 + k - len = k + 1 by omega, List.take_succ_cons, List.length_cons]
          omega

namespace Directive

variable (d : Directive)

/-- The value that the code converts. -/
def value (a : Arg) : Int := if d.Signed then a.signed else a.unsigned

/-- The value that is to be converted. -/
def isoValue (a : Arg) : Option Int :=
  if d.Signed then isoSigned d.length a else (isoUnsigned d.length a).map Nat.cast

/-- A value is one of the type that the length modifier is for. -/
def InRange (a : Arg) : Prop :=
  if d.Signed then -2 ^ (bits d.length - 1) ≤ a.signed ∧ a.signed < 2 ^ (bits d.length - 1)
  else a.unsigned < 2 ^ bits d.length

theorem isoValue_signed {d : Directive} (h : d.Signed) {a : Arg} {w : Int}
    (hw : isoSigned d.length a = some w) : d.isoValue a = some w :=
  (if_pos h).trans hw

theorem isoValue_unsigned {d : Directive} (h : ¬ d.Signed) {a : Arg} {n : Nat}
    (hn : isoUnsigned d.length a = some n) : d.isoValue a = some (n : Int) := by
  rw [isoValue, if_neg h, hn]
  rfl

theorem parts_integer (h : d.Integer) {a : Arg} {p : CString × CString} (hp : d.parts a = some p) :
    ∃ w, d.isoValue a = some w ∧ p = d.numberParts w := by
  obtain ⟨hc, hs, hp', hpercent⟩ := h
  unfold parts at hp
  cases hconv : d.conversion with
  | c => exact absurd hconv hc
  | s => exact absurd hconv hs
  | p => exact absurd hconv hp'
  | percent => exact absurd hconv hpercent
  | d =>
    rw [hconv] at hp
    dsimp only at hp
    split_ifs at hp
    obtain ⟨w, hw, rfl⟩ := Option.map_eq_some_iff.mp hp
    exact ⟨w, isoValue_signed (.inl hconv) hw, by rw [numberParts, hconv]⟩
  | i =>
    rw [hconv] at hp
    dsimp only at hp
    split_ifs at hp
    obtain ⟨w, hw, rfl⟩ := Option.map_eq_some_iff.mp hp
    exact ⟨w, isoValue_signed (.inr hconv) hw, by rw [numberParts, hconv]⟩
  | u =>
    have hsigned : ¬ d.Signed := by rw [Signed, hconv]; decide
    rw [hconv] at hp
    dsimp only at hp
    split_ifs at hp
    obtain ⟨n, hn, rfl⟩ := Option.map_eq_some_iff.mp hp
    exact ⟨n, isoValue_unsigned hsigned hn, by rw [numberParts, hconv]; rfl⟩
  | o =>
    have hsigned : ¬ d.Signed := by rw [Signed, hconv]; decide
    rw [hconv] at hp
    obtain ⟨n, hn, rfl⟩ := Option.map_eq_some_iff.mp hp
    exact ⟨n, isoValue_unsigned hsigned hn, by rw [numberParts, hconv]; rfl⟩
  | x =>
    have hsigned : ¬ d.Signed := by rw [Signed, hconv]; decide
    rw [hconv] at hp
    obtain ⟨n, hn, rfl⟩ := Option.map_eq_some_iff.mp hp
    exact ⟨n, isoValue_unsigned hsigned hn, by rw [numberParts, hconv]; rfl⟩
  | X =>
    have hsigned : ¬ d.Signed := by rw [Signed, hconv]; decide
    rw [hconv] at hp
    obtain ⟨n, hn, rfl⟩ := Option.map_eq_some_iff.mp hp
    exact ⟨n, isoValue_unsigned hsigned hn, by rw [numberParts, hconv]; rfl⟩

theorem conversionInt_int (h : d.Integer) : d.fields.conversionInt = decide d.Signed := by
  obtain ⟨hc, -⟩ := h
  unfold fields
  refine decide_eq_decide.mpr ⟨fun h => ?_, fun h => ?_⟩
  · rcases h with h | h | h
    · exact .inl h
    · exact .inr h
    · exact absurd h hc
  · rcases h with h | h
    · exact .inl h
    · exact .inr (.inl h)

/-- A conversion of a number puts the value that was passed. -/
theorem convert_integer (h : d.Integer) {a : Arg} {w : Int} (hw : d.isoValue a = some w)
    (ap : List Arg) : convert d.fields (number d.width) d.precisionNumber (a :: ap) =
      (d.putNumber (d.value a)).map fun out => (out, ap) := by
  unfold convert
  by_cases hs : d.Signed
  · have hint : d.fields.conversionInt = true := (d.conversionInt_int h).trans (decide_eq_true hs)
    obtain ⟨val, hfetch, hval⟩ : ∃ val : BitVec 64, fetchInt d.fields (·.signExtend 64) (a :: ap) =
        some (val, ap) ∧ val.toInt = a.signed := by
      rw [isoValue, if_pos hs] at hw
      rw [fetchInt_fields]
      cases a with
      | int v =>
        rw [isoSigned] at hw
        split_ifs at hw with hbits
        exact ⟨_, if_pos hbits, BitVec.toInt_signExtend_of_le (by decide)⟩
      | long v =>
        rw [isoSigned] at hw
        split_ifs at hw with hbits
        exact ⟨_, if_pos hbits, rfl⟩
      | charp s => cases hw
      | voidp v => cases hw
    rw [if_pos hint, hfetch, value, if_pos hs, ← hval, ← d.conversionInt_signed hs]
    rfl
  · have hint : ¬ d.fields.conversionInt = true := by
      rw [d.conversionInt_int h]
      simpa using hs
    have huint : d.fields.conversionUint = true := by
      obtain ⟨hc, hs', hp, hpercent⟩ := h
      unfold fields
      unfold Signed at hs
      cases hconv : d.conversion <;> simp_all
    obtain ⟨val, hfetch, hval⟩ : ∃ val : BitVec 64, fetchInt d.fields (·.setWidth 64) (a :: ap) =
        some (val, ap) ∧ val.toNat = a.unsigned := by
      rw [isoValue, if_neg hs] at hw
      rw [fetchInt_fields]
      cases a with
      | int v =>
        rw [isoUnsigned] at hw
        split_ifs at hw with hbits
        · exact ⟨_, if_pos hbits, BitVec.toNat_setWidth_of_le (by decide)⟩
        · cases hw
      | long v =>
        rw [isoUnsigned] at hw
        split_ifs at hw with hbits
        · exact ⟨_, if_pos hbits, rfl⟩
        · cases hw
      | charp s => cases hw
      | voidp v => cases hw
    rw [if_neg hint, if_pos huint, hfetch, value, if_neg hs, ← hval,
      ← d.conversionInt_unsigned h hs]
    rfl

theorem bits_cases (length : Option Length) : bits length = 8 ∨ bits length = 16 ∨
    bits length = 32 ∨ bits length = 64 := by
  rcases length with - | length
  · exact .inr (.inr (.inl rfl))
  · cases length <;> decide

theorem toInt_setWidth_eq_iff (v : BitVec 32) {b : Nat} (hb : b = 8 ∨ b = 16 ∨ b = 32) :
    v.toInt = (v.setWidth b).toInt ↔ -2 ^ (b - 1) ≤ v.toInt ∧ v.toInt < 2 ^ (b - 1) := by
  have hlt := v.isLt
  rw [BitVec.toInt_setWidth, BitVec.toInt_eq_toNat_cond]
  unfold Int.bmod
  rcases hb with rfl | rfl | rfl <;> norm_num <;> split_ifs <;> omega

/-- The values that the length modifier does not change. -/
theorem value_eq_iff {a : Arg} {w : Int} (hw : d.isoValue a = some w) :
    d.value a = w ↔ d.InRange a := by
  have hbits := bits_cases d.length
  unfold isoValue at hw
  unfold value InRange
  by_cases hs : d.Signed
  · rw [if_pos hs] at hw
    rw [if_pos hs, if_pos hs]
    cases a with
    | int v =>
      rw [isoSigned] at hw
      split_ifs at hw with hle
      obtain rfl := Option.some.inj hw
      exact toInt_setWidth_eq_iff v (by omega)
    | long v =>
      have hlow := BitVec.le_toInt v
      have hhigh : v.toInt < 2 ^ (64 - 1) := BitVec.toInt_lt
      rw [isoSigned] at hw
      split_ifs at hw with hb
      obtain rfl := Option.some.inj hw
      rw [hb]
      exact iff_of_true rfl ⟨hlow, hhigh⟩
    | charp s => cases hw
    | voidp v => cases hw
  · rw [if_neg hs] at hw
    rw [if_neg hs, if_neg hs]
    cases a with
    | int v =>
      rw [isoUnsigned] at hw
      split_ifs at hw with hle
      · obtain rfl := Option.some.inj hw
        rw [BitVec.toNat_setWidth, Arg.unsigned]
        have hpos : 0 < 2 ^ bits d.length := Nat.two_pow_pos _
        constructor
        · intro heq
          have := Nat.mod_lt v.toNat hpos
          omega
        · intro hlt
          rw [Nat.mod_eq_of_lt hlt]
      · cases hw
    | long v =>
      rw [isoUnsigned] at hw
      split_ifs at hw with hb
      · obtain rfl := Option.some.inj hw
        rw [hb]
        exact iff_of_true rfl v.isLt
      · cases hw
    | charp s => cases hw
    | voidp v => cases hw

/-- The parts of what is not a number. -/
theorem field_plain (h : d.Plain) (body : CString) :
    layout (d.has .leftAdjusted) (d.has .zeroPadded && d.precision.isNone) (number d.width) []
      body = layout (d.has .leftAdjusted) false (number d.width) [] body := by
  rw [h.2.1]
  rfl

theorem conversionString_eq (str : CString) :
    conversionString str d.fields (number d.width) d.precisionNumber =
      layout (d.has .leftAdjusted) false (number d.width) [] (match d.precision with
        | none => str.takeWhile (· ≠ 0)
        | some ds => (str.takeWhile (· ≠ 0)).take (number ds)) := by
  obtain ⟨body, hbody⟩ : ∃ body : CString, body = (match d.precision with
      | none => str.takeWhile (· ≠ 0)
      | some ds => (str.takeWhile (· ≠ 0)).take (number ds)) := ⟨_, rfl⟩
  have hlen : stringLen d.fields d.precisionNumber 0 str = body.length := by
    rw [stringLen_eq, Nat.zero_add, hbody, Nat.sub_zero, precisionNumber,
      show d.fields.hasPrecision = d.precision.isSome from rfl]
    cases d.precision <;> rfl
  have htake : str.take body.length = body := by
    have hsub : body <+: str := by
      rw [hbody]
      cases d.precision with
      | none => exact List.takeWhile_prefix _
      | some ds => exact (List.take_prefix _ _).trans (List.takeWhile_prefix _)
    exact (List.prefix_iff_eq_take.mp hsub).symm
  have hsp : (if (d.fields.hasWidth && decide (number d.width > body.length)) = true then
      number d.width - body.length else 0) = number d.width - body.length := by
    split_ifs with hgt
    · rfl
    · cases hw : d.width with
      | nil => exact (Nat.zero_sub _).symm
      | cons digit ds =>
        have hhas : d.fields.hasWidth = true := by
          unfold fields
          rw [hw]
          rfl
        rw [hhas, hw] at hgt
        simp only [Bool.true_and, decide_eq_true_eq] at hgt
        omega
  rw [← hbody]
  unfold conversionString layout
  dsimp only
  rw [hlen, htake, hsp, show d.fields.leftAdjusted = d.has .leftAdjusted from rfl,
    List.length_nil, Nat.zero_add]
  cases d.has .leftAdjusted <;> simp

/-- A pointer is put as its number is. -/
theorem convert_pointer (hconv : d.conversion = .p) (hplain : d.Plain) (hp : d.precision = none)
    (v : BitVec 64) (ap : List Arg) :
    convert d.fields (number d.width) d.precisionNumber (.voidp v :: ap) =
      some (layout (d.has .leftAdjusted) false (number d.width) []
        ((if v = 0 then [] else [ascii '0', ascii 'x']) ++ isoDigits 16 false 1 v.toNat), ap) := by
  have hn := d.number_hexadecimal false (.inr (.inr hconv)) (by rw [hconv]; rfl)
  have hminimum : d.minimum = 1 := by rw [minimum, hp]
  have hsome : ¬ (d.minimum = 0 ∧ v = 0) := fun h => absurd (hminimum.symm.trans h.1) (by decide)
  have hbody : List.replicate (leftZero d.fields d.precisionNumber
      (convertVal v.toNat d.fields).length) (ascii '0') ++ convertVal v.toNat d.fields = _ :=
    replicate_leftZero hn v.isLt
      fun h => hsome ⟨d.minimum_eq_zero.mpr ⟨h.1, h.2.1⟩, BitVec.eq_of_toNat_eq h.2.2⟩
  rw [← minimum_eq, hminimum] at hbody
  have hlead : leftBuf v.toNat d.fields (leftZero d.fields d.precisionNumber
      (convertVal v.toNat d.fields).length) = if v = 0 then [] else [ascii '0', ascii 'x'] := by
    have hzero : v.toNat = 0 ↔ v = 0 := by
      rw [← BitVec.toNat_inj]
      rfl
    unfold leftBuf fields
    by_cases hv : v = 0
    · simp [hconv, hv]
    · simp [hconv, hzero]
  have hlen : (isoDigits 16 false 1 v.toNat).length ≤ 16 := by
    have hdigits := (Nat.digits_length_le_iff (b := 16) (k := 16) (by decide) v.toNat).mpr v.isLt
    rw [isoDigits, List.length_append, List.length_replicate, List.length_map, List.length_reverse]
    omega
  have hput := d.conversionInt_fields false false (by rw [hconv]; decide) hsome rfl hlead hbody
  unfold convert
  rw [if_neg (by simp [fields, hconv]), if_neg (by simp [fields, hconv]),
    if_pos (by simp [fields, hconv]), vaVoidp, Option.bind_some]
  dsimp only
  have hsmall : ¬ (d.width ≠ [] ∧ intMax < (if v = 0 then [] else [ascii '0', ascii 'x']).length +
      (isoDigits 16 false 1 v.toNat).length) := by
    rintro ⟨-, hlt⟩
    have hmax : intMax = 0x7FFFFFFF := rfl
    split_ifs at hlt <;> simp only [List.length_nil, List.length_cons] at hlt <;> omega
  rw [if_neg hsmall, field, hplain.2.1, Bool.false_and, layout_lead] at hput
  exact congrArg (Option.map fun out => (out, ap)) hput

/-- The code's characters for a directive, and the arguments that it leaves. -/
def put (ap : List Arg) : Option (CString × List Arg) :=
  if number d.width ≤ intMax ∧ d.precisionNumber ≤ intMax then
    if d.conversion = .percent then some ([ascii '%'], ap)
    else convert d.fields (number d.width) d.precisionNumber ap
  else none

/-- The directives and arguments that the code gets right. -/
structure Fits (d : Directive) (ap : List Arg) : Prop where
  width : number d.width ≤ intMax
  precision : d.precisionNumber ≤ intMax
  inRange : d.Integer → ∀ a ∈ ap.head?, d.InRange a
  zero : d.Integer → ∀ a ∈ ap.head?, d.minimum = 0 → d.value a = 0 → d.NoCharacters
  length : d.Integer → ∀ a ∈ ap.head?, d.width ≠ [] →
    (d.numberParts (d.value a)).1.length + (d.numberParts (d.value a)).2.length ≤ intMax
  character : d.conversion = .c → number d.width ≤ 1 ∧
    ∀ a ∈ ap.head?, 0 ≤ a.signed ∨ a.unsigned % 128 = 0

theorem fits_of_not_integer {d : Directive} {ap : List Arg} (h : ¬ d.Integer)
    (hc : d.conversion ≠ .c) : d.Fits ap ↔ number d.width ≤ intMax ∧ d.precisionNumber ≤ intMax :=
  ⟨fun hfits => ⟨hfits.width, hfits.precision⟩, fun ⟨hwidth, hprecision⟩ =>
    ⟨hwidth, hprecision, fun hint => absurd hint h, fun hint => absurd hint h,
      fun hint => absurd hint h, fun heq => absurd heq hc⟩⟩

/-- A character is put without its padding. -/
theorem convert_character (hconv : d.conversion = .c) (hlength : d.length = none) (v : BitVec 32)
    (ap : List Arg) : ∃ c : BitVec 8,
      convert d.fields (number d.width) d.precisionNumber (.int v :: ap) = some ([c], ap) ∧
        (c = v.setWidth 8 ↔ 0 ≤ v.toInt ∨ v.toNat % 128 = 0) := by
  have hchar : ∀ (f : Format) (val : BitVec 64), f.conversionCharacter = true →
      conversionInt val f (number d.width) d.precisionNumber = some [val.setWidth 8] :=
    fun f val hf => if_pos hf
  have hcharacter : d.fields.conversionCharacter = true := decide_eq_true hconv
  have hbits : bits d.length ≤ 32 := by rw [hlength]; decide
  have hlt := v.isLt
  unfold convert
  rw [if_pos (by simp [fields, hconv]), fetchInt_fields]
  dsimp only
  rw [if_pos hbits, Option.bind_some]
  dsimp only
  rw [hchar { d.fields with flagMinus := true } _ hcharacter,
    hchar { d.fields with flagPlus := true } _ hcharacter]
  by_cases hneg : (v.signExtend 64).slt 0 = true
  · have hsigned : v.toInt < 0 := by
      rw [BitVec.slt_iff_toInt_lt, BitVec.toInt_signExtend_of_le (by decide)] at hneg
      exact hneg
    refine ⟨_, by rw [if_pos hneg]; rfl, ?_⟩
    have hmsb : v.msb = true := by
      rw [BitVec.msb_eq_toInt]
      exact decide_eq_true hsigned
    rw [← BitVec.toNat_inj, BitVec.toNat_setWidth, BitVec.toNat_setWidth, BitVec.toNat_neg,
      BitVec.toNat_signExtend, BitVec.toNat_setWidth, hmsb, if_pos rfl]
    omega
  · have hsigned : 0 ≤ v.toInt := by
      rw [BitVec.slt_iff_toInt_lt, BitVec.toInt_signExtend_of_le (by decide)] at hneg
      exact Int.le_of_not_gt hneg
    refine ⟨_, by rw [if_neg hneg]; rfl, iff_of_true ?_ (.inl hsigned)⟩
    have hmsb : v.msb = false := by
      rw [BitVec.msb_eq_toInt]
      exact decide_eq_false (Int.not_lt.mpr hsigned)
    rw [← BitVec.toNat_inj, BitVec.toNat_setWidth, BitVec.toNat_setWidth, BitVec.toNat_signExtend,
      BitVec.toNat_setWidth, hmsb]
    simp only [Bool.false_eq_true, if_false]
    omega

theorem isoValue_nonneg {a : Arg} {w : Int} (hw : d.isoValue a = some w) (hs : ¬ d.Signed) :
    0 ≤ w := by
  rw [isoValue, if_neg hs] at hw
  obtain ⟨n, -, rfl⟩ := Option.map_eq_some_iff.mp hw
  exact Int.natCast_nonneg n

theorem value_nonneg (a : Arg) (hs : ¬ d.Signed) : 0 ≤ d.value a := by
  rw [value, if_neg hs]
  exact Int.natCast_nonneg _

theorem character_iff (hconv : d.conversion = .c) (hplain : d.Plain) (v : BitVec 32)
    (ap : List Arg) : convert d.fields (number d.width) d.precisionNumber (.int v :: ap) =
      some (layout (d.has .leftAdjusted) false (number d.width) [] [v.setWidth 8], ap) ↔
        number d.width ≤ 1 ∧ (0 ≤ v.toInt ∨ v.toNat % 128 = 0) := by
  obtain ⟨c, hput, hc⟩ := d.convert_character hconv hplain.2.2 v ap
  have hlen := length_layout (d.has .leftAdjusted) false (number d.width) [] [v.setWidth 8]
  rw [hput, ← hc]
  constructor
  · intro heq
    have hout : [c] = layout (d.has .leftAdjusted) false (number d.width) [] [v.setWidth 8] :=
      congrArg Prod.fst (Option.some.inj heq)
    have hwidth : number d.width ≤ 1 := by
      rw [← hout, List.length_nil, List.length_singleton, List.length_singleton] at hlen
      omega
    have hpad : layout (d.has .leftAdjusted) false (number d.width) [] [v.setWidth 8] =
        [v.setWidth 8] := layout_of_le _ _ _ hwidth
    rw [hpad] at hout
    exact ⟨hwidth, List.singleton_inj.mp hout⟩
  · rintro ⟨hwidth, rfl⟩
    rw [layout_of_le _ _ _ hwidth]

theorem convert_string (hconv : d.conversion = .s) (s : CString) (ap : List Arg) :
    convert d.fields (number d.width) d.precisionNumber (.charp (some s) :: ap) =
      some (layout (d.has .leftAdjusted) false (number d.width) [] (match d.precision with
        | none => s.takeWhile (· ≠ 0)
        | some ds => (s.takeWhile (· ≠ 0)).take (number ds)), ap) := by
  rw [← conversionString_eq]
  unfold convert
  rw [if_neg (by simp [fields, hconv]), if_neg (by simp [fields, hconv]),
    if_neg (by simp [fields, hconv]), if_pos (by simp [fields, hconv]), vaCharp]
  rfl

/-- A conversion of a number, and what is due. -/
theorem integer_iff (hint : d.Integer) {a : Arg} {p : CString × CString} (hp : d.parts a = some p)
    (ap : List Arg) : convert d.fields (number d.width) d.precisionNumber (a :: ap) =
      some (d.field p.1 p.2, ap) ↔
        d.InRange a ∧ (d.minimum = 0 → d.value a = 0 → d.NoCharacters) ∧ (d.width ≠ [] →
          (d.numberParts (d.value a)).1.length + (d.numberParts (d.value a)).2.length ≤
            intMax) := by
  obtain ⟨w, hw, rfl⟩ := d.parts_integer hint hp
  have hsome : (d.putNumber (d.value a)).map (fun out => (out, ap)) =
      some (d.field (d.numberParts w).1 (d.numberParts w).2, ap) ↔
        d.putNumber (d.value a) = some (d.field (d.numberParts w).1 (d.numberParts w).2) := by
    cases d.putNumber (d.value a) <;> simp
  rw [d.convert_integer hint hw ap, hsome, ← d.value_eq_iff hw]
  exact d.putNumber_eq_iff hint (d.value_nonneg a) (d.isoValue_nonneg hw)

/-- An argument of a directive: it is what the parts are of, or a number. -/
theorem convert_iff (hpercent : d.conversion ≠ .percent) {a : Arg} {p : CString × CString}
    (hp : d.parts a = some p) (ap : List Arg)
    (hnumbers : number d.width ≤ intMax ∧ d.precisionNumber ≤ intMax) :
    convert d.fields (number d.width) d.precisionNumber (a :: ap) = some (d.field p.1 p.2, ap) ↔
      d.Fits (a :: ap) := by
  by_cases hint : d.Integer
  · rw [d.integer_iff hint hp ap]
    constructor
    · rintro ⟨hrange, hzero, hlength⟩
      refine ⟨hnumbers.1, hnumbers.2, fun _ b hb => ?_, fun _ b hb => ?_, fun _ b hb => ?_,
        fun hc => absurd hc hint.1⟩ <;> obtain rfl := Option.some.inj hb
      · exact hrange
      · exact hzero
      · exact hlength
    · intro hfits
      exact ⟨hfits.inRange hint a rfl, hfits.zero hint a rfl, hfits.length hint a rfl⟩
  · unfold parts at hp
    unfold field
    cases hconv : d.conversion with
    | percent => exact absurd hconv hpercent
    | d => exact absurd (by rw [Integer, hconv]; decide) hint
    | i => exact absurd (by rw [Integer, hconv]; decide) hint
    | o => exact absurd (by rw [Integer, hconv]; decide) hint
    | u => exact absurd (by rw [Integer, hconv]; decide) hint
    | x => exact absurd (by rw [Integer, hconv]; decide) hint
    | X => exact absurd (by rw [Integer, hconv]; decide) hint
    | c =>
      rw [hconv] at hp
      cases a with
      | int v =>
        dsimp only at hp
        split_ifs at hp with hplain
        obtain rfl := Option.some.inj hp
        rw [d.field_plain hplain.1, d.character_iff hconv hplain.1 v ap]
        constructor
        · rintro ⟨hwidth, hc⟩
          refine ⟨hnumbers.1, hnumbers.2, fun h => absurd h hint, fun h => absurd h hint,
            fun h => absurd h hint, fun _ => ⟨hwidth, fun b hb => ?_⟩⟩
          obtain rfl := Option.some.inj hb
          exact hc
        · intro hfits
          obtain ⟨hwidth, hc⟩ := hfits.character hconv
          exact ⟨hwidth, hc (.int v) rfl⟩
      | long v => cases hp
      | charp s => cases hp
      | voidp v => cases hp
    | s =>
      rw [hconv] at hp
      cases a with
      | charp s =>
        cases s with
        | none => cases hp
        | some s =>
          dsimp only at hp
          split_ifs at hp with hplain
          obtain rfl := Option.some.inj hp
          rw [d.field_plain hplain]
          exact iff_of_true (d.convert_string hconv s ap)
            ((fits_of_not_integer hint (by rw [hconv]; decide)).mpr hnumbers)
      | int v => cases hp
      | long v => cases hp
      | voidp v => cases hp
    | p =>
      rw [hconv] at hp
      cases a with
      | voidp v =>
        dsimp only at hp
        by_cases hplain : d.Plain ∧ d.precision = none
        · rw [if_pos hplain] at hp
          obtain rfl := Option.some.inj hp
          rw [d.field_plain hplain.1]
          exact iff_of_true (d.convert_pointer hconv hplain.1 hplain.2 v ap)
            ((fits_of_not_integer hint (by rw [hconv]; decide)).mpr hnumbers)
        · rw [if_neg hplain] at hp
          cases hp
      | int v => cases hp
      | long v => cases hp
      | charp s => cases hp

/-- What is put for a directive is what is due exactly if the directive and its argument fit. -/
theorem put_iff {ap ap' : List Arg} {out : CString} (h : d.iso ap = some (out, ap')) :
    d.put ap = some (out, ap') ↔ d.Fits ap := by
  unfold put
  by_cases hnumbers : number d.width ≤ intMax ∧ d.precisionNumber ≤ intMax
  · rw [if_pos hnumbers]
    unfold iso at h
    by_cases hpercent : d.conversion = .percent
    · rw [if_pos hpercent] at h ⊢
      split_ifs at h
      have hint : ¬ d.Integer := fun hint => hint.2.2.2 hpercent
      exact iff_of_true h ((fits_of_not_integer hint (by rw [hpercent]; decide)).mpr hnumbers)
    · rw [if_neg hpercent] at h ⊢
      cases ap with
      | nil => cases h
      | cons a ap =>
        obtain ⟨p, hp, heq⟩ := Option.map_eq_some_iff.mp h
        rw [← heq]
        exact d.convert_iff hpercent hp ap hnumbers
  · rw [if_neg hnumbers]
    exact iff_of_false nofun fun hfits => hnumbers ⟨hfits.width, hfits.precision⟩

end Directive

end OnDemandVirt.Vmm.Printf
