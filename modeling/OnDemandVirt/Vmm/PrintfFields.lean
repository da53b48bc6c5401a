import OnDemandVirt.Vmm.PrintfNumbers
import OnDemandVirt.Vmm.PrintfParse

/-!
# Conversions of numbers

What the code puts for a number is what is due for it, but for a zero with precision zero. Different
numbers give different characters.
-/

namespace OnDemandVirt.Vmm.Printf

theorem parseConversion_char (f : Format) (c : Conversion) : parseConversion f c.char = { f with
    alternateForm := f.alternateForm || decide (c = .p)
    conversionInt := f.conversionInt || decide (c = .d ∨ c = .i ∨ c = .c)
    conversionDecimal := f.conversionDecimal || decide (c = .d ∨ c = .i ∨ c = .u)
    conversionUint := f.conversionUint || decide (c = .o ∨ c = .u ∨ c = .x ∨ c = .X)
    conversionOctal := f.conversionOctal || decide (c = .o)
    conversionCapital := f.conversionCapital || decide (c = .X)
    conversionHexadecimal := f.conversionHexadecimal || decide (c = .x ∨ c = .X ∨ c = .p)
    conversionCharacter := f.conversionCharacter || decide (c = .c)
    conversionCharp := f.conversionCharp || decide (c = .s)
    conversionVoidp := f.conversionVoidp || decide (c = .p)
    conversionNone := f.conversionNone || decide (c = .percent) } := by
  cases c <;> simp [parseConversion, Conversion.char, ascii]

theorem sameLength_eq (f : Format) : sameLength f = { f with
    lengthLong := f.lengthLong || (!f.lengthIntmax && (f.lengthSize || f.lengthPtrdiff))
    lengthLonglong := f.lengthLonglong || f.lengthIntmax } := by
  unfold sameLength
  cases hintmax : f.lengthIntmax with
  | true => simp
  | false =>
    cases hsize : f.lengthSize with
    | true => simp
    | false =>
      cases hptrdiff : f.lengthPtrdiff with
      | true => simp
      | false =>
        cases f
        simp_all

namespace Directive

variable (d : Directive)

/-- `f` for a directive, in `do_printf`. -/
def fields : Format where
  alternateForm := d.has .alternateForm || decide (d.conversion = .p)
  zeroPadded := d.has .zeroPadded
  leftAdjusted := d.has .leftAdjusted
  positiveBlank := d.has .positiveBlank
  positiveSign := d.has .positiveSign
  hasWidth := !d.width.isEmpty
  hasPrecision := d.precision.isSome
  lengthShort := decide (d.length = some .short ∨ d.length = some .char)
  lengthChar := decide (d.length = some .char)
  lengthLong := decide (d.length = some .long ∨ d.length = some .longlong ∨
    d.length = some .size ∨ d.length = some .ptrdiff)
  lengthLonglong := decide (d.length = some .longlong ∨ d.length = some .intmax)
  lengthIntmax := decide (d.length = some .intmax)
  lengthSize := decide (d.length = some .size)
  lengthPtrdiff := decide (d.length = some .ptrdiff)
  conversionInt := decide (d.conversion = .d ∨ d.conversion = .i ∨ d.conversion = .c)
  conversionDecimal := decide (d.conversion = .d ∨ d.conversion = .i ∨ d.conversion = .u)
  conversionUint :=
    decide (d.conversion = .o ∨ d.conversion = .u ∨ d.conversion = .x ∨ d.conversion = .X)
  conversionOctal := decide (d.conversion = .o)
  conversionCapital := decide (d.conversion = .X)
  conversionHexadecimal := decide (d.conversion = .x ∨ d.conversion = .X ∨ d.conversion = .p)
  conversionCharacter := decide (d.conversion = .c)
  conversionCharp := decide (d.conversion = .s)
  conversionVoidp := decide (d.conversion = .p)
  conversionNone := decide (d.conversion = .percent)

theorem sameLength_format : sameLength d.format = d.fields := by
  have hlong : ∀ l : Option Length, (decide (l = some .long ∨ l = some .longlong) ||
      (!decide (l = some .intmax) && (decide (l = some .size) || decide (l = some .ptrdiff)))) =
        decide (l = some .long ∨ l = some .longlong ∨ l = some .size ∨ l = some .ptrdiff) := by
    intro l
    rcases l with - | l
    · rfl
    · cases l <;> rfl
  have hlonglong : ∀ l : Option Length,
      (decide (l = some .longlong) || decide (l = some .intmax)) =
        decide (l = some .longlong ∨ l = some .intmax) :=
    fun l => (Bool.decide_or _ _).symm
  unfold format fields
  rw [parseConversion_char, sameLength_eq]
  unfold Format.withLength Format.withFlags
  simp only [Bool.false_or, hlong, hlonglong]
  rfl

theorem conversionNone_format : d.format.conversionNone = decide (d.conversion = .percent) := by
  unfold format
  rw [parseConversion_char]
  rfl

/-- The argument of a conversion of a number. -/
theorem fetchInt_fields (extend : BitVec 32 → BitVec 64) (a : Arg) (ap : List Arg) :
    fetchInt d.fields extend (a :: ap) =
      (match a with
        | .int v => if bits d.length ≤ 32 then some (extend v, ap) else none
        | .long v => if bits d.length = 64 then some (v, ap) else none
        | _ => none) := by
  unfold fetchInt fields
  cases hl : d.length with
  | none => cases a <;> rfl
  | some length => cases length <;> cases a <;> rfl

theorem minimum_eq : d.minimum = if d.fields.hasPrecision then d.precisionNumber else 1 := by
  unfold minimum precisionNumber
  rw [show d.fields.hasPrecision = d.precision.isSome from rfl]
  cases d.precision <;> rfl

theorem minimum_eq_zero : d.minimum = 0 ↔
    d.fields.hasPrecision = true ∧ d.precisionNumber = 0 := by
  rw [minimum_eq]
  cases d.fields.hasPrecision <;> simp

/-- What is converted and its padding, as the flags say. -/
def field (lead body : CString) : CString :=
  layout (d.has .leftAdjusted) (d.has .zeroPadded && d.precision.isNone) (number d.width) lead body

theorem conversionInt_fields (minus plus : Bool) {val : BitVec 64} (hc : d.conversion ≠ .c)
    (hsome : ¬ (d.minimum = 0 ∧ val = 0)) {lead body : CString} {leftzero : Nat}
    (hzero : leftZero d.fields d.precisionNumber (convertVal val.toNat d.fields).length = leftzero)
    (hlead : leftBuf val.toNat { d.fields with flagMinus := minus, flagPlus := plus } leftzero =
      lead)
    (hbody : List.replicate leftzero (ascii '0') ++ convertVal val.toNat d.fields = body) :
    conversionInt val { d.fields with flagMinus := minus, flagPlus := plus } (number d.width)
        d.precisionNumber =
      if d.width ≠ [] ∧ intMax < lead.length + body.length then none
      else some (d.field lead body) := by
  rw [minimum_eq_zero, and_assoc] at hsome
  rw [conversionInt_eq (f := { d.fields with flagMinus := minus, flagPlus := plus })
    (decide_eq_false hc) hsome hzero hlead hbody]
  have hwidth : (if d.fields.hasWidth = true then number d.width else 0) = number d.width := by
    unfold fields
    cases hw : d.width with
    | nil => rfl
    | cons digit ds => rfl
  have hempty : (!d.width.isEmpty) = true ↔ d.width ≠ [] := by
    cases d.width <;> simp
  have hnone : (!d.precision.isSome) = d.precision.isNone := by
    cases d.precision <;> rfl
  unfold field
  rw [← hnone]
  refine (if_congr (and_congr_left fun _ => hempty) rfl ?_)
  exact congrArg some (congrArg (fun w => layout _ _ w lead body) hwidth)

/-- A conversion of a number. -/
def Integer : Prop := d.conversion ≠ .c ∧ d.conversion ≠ .s ∧ d.conversion ≠ .p ∧
  d.conversion ≠ .percent

/-- A conversion of a signed number. -/
def Signed : Prop := d.conversion = .d ∨ d.conversion = .i

instance : Decidable d.Signed := by unfold Signed; infer_instance

/-- What a number is converted to. -/
def numberParts (v : Int) : CString × CString :=
  match d.conversion with
  | .o => ([], d.octal v.natAbs)
  | .x => (d.radix (ascii 'x') v.natAbs, isoDigits 16 false d.minimum v.natAbs)
  | .X => (d.radix (ascii 'X') v.natAbs, isoDigits 16 true d.minimum v.natAbs)
  | .u => ([], isoDigits 10 false d.minimum v.natAbs)
  | _ => (d.sign v, isoDigits 10 false d.minimum v.natAbs)

/-- What the code puts for a number. -/
def putNumber (v : Int) : Option CString :=
  if d.minimum = 0 ∧ v = 0 then some []
  else if d.width ≠ [] ∧ intMax < (d.numberParts v).1.length + (d.numberParts v).2.length then none
  else some (d.field (d.numberParts v).1 (d.numberParts v).2)

theorem conversionInt_zero (minus plus : Bool) {val : BitVec 64} (hc : d.conversion ≠ .c)
    (hzero : d.minimum = 0 ∧ val = 0) : conversionInt val
      { d.fields with flagMinus := minus, flagPlus := plus } (number d.width) d.precisionNumber =
        some [] := by
  rw [minimum_eq_zero] at hzero
  unfold conversionInt
  rw [if_neg (by simpa [fields] using hc), if_pos (by simpa [and_assoc] using hzero)]

/-- A conversion in a base, with what is to be put ahead. -/
theorem putNumber_eq {base : Nat} {capital : Bool} (minus plus : Bool) {val : BitVec 64} {v : Int}
    (hv : v.natAbs = val.toNat) (hn : d.fields.Number base capital) (hc : d.conversion ≠ .c)
    {lead : CString}
    (hlead : leftBuf val.toNat { d.fields with flagMinus := minus, flagPlus := plus }
      (leftZero d.fields d.precisionNumber (convertVal val.toNat d.fields).length) = lead)
    (hparts : ¬ (d.minimum = 0 ∧ v = 0) →
      d.numberParts v = (lead, isoDigits base capital d.minimum val.toNat) ∨
        lead = [ascii '0'] ∧
          d.numberParts v = ([], ascii '0' :: isoDigits base capital d.minimum val.toNat)) :
    conversionInt val { d.fields with flagMinus := minus, flagPlus := plus } (number d.width)
      d.precisionNumber = d.putNumber v := by
  have hiff : val = 0 ↔ v = 0 := by
    rw [← BitVec.toNat_inj, ← hv]
    exact Int.natAbs_eq_zero
  by_cases hzero : d.minimum = 0 ∧ v = 0
  · rw [putNumber, if_pos hzero, d.conversionInt_zero minus plus hc ⟨hzero.1, hiff.mpr hzero.2⟩]
  · have hsome : ¬ (d.minimum = 0 ∧ val = 0) := fun h => hzero ⟨h.1, hiff.mp h.2⟩
    have hbody : List.replicate (leftZero d.fields d.precisionNumber
        (convertVal val.toNat d.fields).length) (ascii '0') ++ convertVal val.toNat d.fields = _ :=
      replicate_leftZero hn val.isLt
        fun h => hsome ⟨d.minimum_eq_zero.mpr ⟨h.1, h.2.1⟩, BitVec.eq_of_toNat_eq h.2.2⟩
    rw [← minimum_eq] at hbody
    rw [d.conversionInt_fields minus plus hc hsome rfl hlead hbody, putNumber, if_neg hzero]
    rcases hparts hzero with heq | ⟨rfl, heq⟩
    · rw [heq]
    · rw [heq]
      dsimp only
      rw [field, layout_zero, List.length_singleton, List.length_nil, List.length_cons,
        Nat.zero_add, Nat.add_comm 1]
      rfl

theorem number_decimal (h : d.conversion = .d ∨ d.conversion = .i ∨ d.conversion = .u) :
    d.fields.Number 10 false := by
  have hc : ∀ c : Conversion, (c = .d ∨ c = .i ∨ c = .u) →
      c ≠ .o ∧ c ≠ .X ∧ ¬ (c = .x ∨ c = .X ∨ c = .p) := by
    intro c
    cases c <;> decide
  obtain ⟨ho, hX, -⟩ := hc _ h
  exact ⟨fun _ => decide_eq_true h, fun h => absurd rfl h, nofun, fun _ => decide_eq_false ho,
    nofun, decide_eq_false hX, .inl ⟨rfl, rfl⟩⟩

theorem number_octal (h : d.conversion = .o) : d.fields.Number 8 false := by
  have hdecimal : d.fields.conversionDecimal = false := by rw [fields, h]; rfl
  have hcapital : d.fields.conversionCapital = false := by rw [fields, h]; rfl
  exact ⟨nofun, fun _ => hdecimal, fun _ => decide_eq_true h, fun h => absurd rfl h, nofun,
    hcapital, .inr (.inl ⟨rfl, rfl⟩)⟩

theorem number_hexadecimal (capital : Bool) (h : d.conversion = .x ∨ d.conversion = .X ∨
    d.conversion = .p) (hcapital : capital = decide (d.conversion = .X)) :
    d.fields.Number 16 capital := by
  have hc : ∀ c : Conversion, (c = .x ∨ c = .X ∨ c = .p) →
      c ≠ .o ∧ ¬ (c = .d ∨ c = .i ∨ c = .u) := by
    intro c
    cases c <;> decide
  obtain ⟨ho, hdecimal⟩ := hc _ h
  exact ⟨nofun, fun _ => decide_eq_false hdecimal, nofun, fun _ => decide_eq_false ho,
    fun _ => decide_eq_true h, hcapital.symm, .inr (.inr rfl)⟩

/-- A signed number, with the flag that says whether it is negative. -/
theorem conversionInt_signed (h : d.Signed) (val : BitVec 64) :
    (if val.slt 0 then
      conversionInt (-val) { d.fields with flagMinus := true } (number d.width) d.precisionNumber
    else conversionInt val { d.fields with flagPlus := true } (number d.width) d.precisionNumber) =
      d.putNumber val.toInt := by
  have hdecimal : d.conversion = .d ∨ d.conversion = .i ∨ d.conversion = .u := by
    rcases h with h | h
    · exact .inl h
    · exact .inr (.inl h)
  have hc : d.conversion ≠ .c := by
    rcases h with h | h <;> rw [h] <;> decide
  have hparts : ∀ v, d.numberParts v = (d.sign v, isoDigits 10 false d.minimum v.natAbs) := by
    intro v
    unfold numberParts
    rcases h with h | h <;> rw [h]
  have hn := d.number_decimal hdecimal
  have hdec : d.fields.conversionDecimal = true := hn.decimal rfl
  by_cases hneg : val.slt 0 = true
  · have hlt : val.toInt < 0 := by simpa [BitVec.slt_iff_toInt_lt] using hneg
    have habs : val.toInt.natAbs = (-val).toNat := by
      have hbound := val.isLt
      rw [BitVec.toInt_eq_toNat_cond] at hlt ⊢
      rw [BitVec.toNat_neg]
      split_ifs at hlt ⊢ with hmsb <;> omega
    rw [if_pos hneg]
    refine d.putNumber_eq true false habs hn hc (?_ : _ = [ascii '-']) fun _ => .inl ?_
    · unfold leftBuf
      rw [if_pos hdec]
      rfl
    · rw [hparts, habs, sign, if_pos hlt]
  · have hle : ¬ val.toInt < 0 := by simpa [BitVec.slt_iff_toInt_lt] using hneg
    have habs : val.toInt.natAbs = val.toNat := by
      have hbound := val.isLt
      rw [BitVec.toInt_eq_toNat_cond] at hle ⊢
      split_ifs at hle ⊢ with hmsb <;> omega
    rw [if_neg hneg]
    refine d.putNumber_eq false true habs hn hc (?_ : _ = d.sign val.toInt) fun _ => .inl ?_
    · unfold leftBuf sign
      rw [if_pos hdec, if_pos rfl, if_neg hle]
      rfl
    · rw [hparts, habs]

/-- The zero ahead of an octal number is where the digits have none. -/
theorem octal_cases (hconv : d.conversion = .o) {val : Nat} (hlt : val < 2 ^ 64)
    (hsome : ¬ (d.minimum = 0 ∧ val = 0)) {lead : CString}
    (hlead : leftBuf val d.fields (leftZero d.fields d.precisionNumber
      (convertVal val d.fields).length) = lead) :
    (([] : CString), d.octal val) = (lead, isoDigits 8 false d.minimum val) ∨ lead = [ascii '0'] ∧
      (([] : CString), d.octal val) = ([], ascii '0' :: isoDigits 8 false d.minimum val) := by
  have hn := d.number_octal hconv
  have hbody : List.replicate (leftZero d.fields d.precisionNumber (convertVal val d.fields).length)
      (ascii '0') ++ convertVal val d.fields = _ :=
    replicate_leftZero hn hlt fun h => hsome ⟨d.minimum_eq_zero.mpr ⟨h.1, h.2.1⟩, h.2.2⟩
  rw [← minimum_eq] at hbody
  have halternate : d.fields.alternateForm = d.has .alternateForm := by
    unfold fields
    simp [hconv]
  have hdecimal : d.fields.conversionDecimal = false := by rw [fields, hconv]; rfl
  have hoctal : d.fields.conversionOctal = true := by rw [fields, hconv]; rfl
  have hhexadecimal : d.fields.conversionHexadecimal = false := by rw [fields, hconv]; rfl
  unfold leftBuf at hlead
  rw [hdecimal, halternate, hoctal, hhexadecimal] at hlead
  unfold octal
  cases hhas : d.has .alternateForm with
  | false =>
    rw [hhas] at hlead
    subst hlead
    exact .inl rfl
  | true =>
    rw [hhas] at hlead
    by_cases hval : val = 0
    · -- the least number of digits is not zero
      subst hval
      subst hlead
      obtain ⟨k, hk⟩ : ∃ k, d.minimum = k + 1 :=
        ⟨d.minimum - 1, by have := fun h => hsome ⟨h, rfl⟩; omega⟩
      rw [hk]
      exact .inl rfl
    · by_cases hzero : leftZero d.fields d.precisionNumber (convertVal val d.fields).length = 0
      · rw [hzero] at hlead
        have hle : d.minimum ≤ (Nat.digits 8 val).length := by
          have hlen : 1 ≤ (Nat.digits 8 val).length :=
            List.length_pos_iff.mpr (Nat.digits_ne_nil_iff_ne_zero.mpr hval)
          rw [convertVal_eq hn hval hlt, List.length_map, List.length_reverse, leftZero] at hzero
          rw [minimum_eq]
          cases hp : d.fields.hasPrecision with
          | false => exact hlen
          | true =>
            rw [hp] at hzero
            simp only [Bool.true_and, decide_eq_true_eq] at hzero
            rw [if_pos rfl]
            split_ifs at hzero <;> omega
        refine .inr ⟨?_, ?_⟩
        · rw [← hlead]
          simp [hval]
        · dsimp only
          rw [if_pos ⟨rfl, head_isoDigits rfl hval hle⟩]
      · obtain ⟨k, hk⟩ := Nat.exists_eq_succ_of_ne_zero hzero
        rw [hk, List.replicate_succ, List.cons_append] at hbody
        have hlead' : lead = [] := by
          rw [← hlead]
          simp [hzero]
        refine .inl ?_
        rw [hlead', ← hbody]
        rfl

/-- A number without a sign. -/
theorem conversionInt_unsigned (h : d.Integer) (hs : ¬ d.Signed) (val : BitVec 64) :
    conversionInt val d.fields (number d.width) d.precisionNumber = d.putNumber val.toNat := by
  obtain ⟨hc, hs', hp, hpercent⟩ := h
  cases hconv : d.conversion with
  | d => exact absurd (.inl hconv) hs
  | i => exact absurd (.inr hconv) hs
  | c => exact absurd hconv hc
  | s => exact absurd hconv hs'
  | p => exact absurd hconv hp
  | percent => exact absurd hconv hpercent
  | u =>
    have hn := d.number_decimal (.inr (.inr hconv))
    refine d.putNumber_eq false false rfl hn hc (?_ : _ = []) fun _ => .inl ?_
    · unfold leftBuf
      rw [if_pos (show d.fields.conversionDecimal = true from hn.decimal rfl)]
      rfl
    · rw [numberParts, hconv]
      rfl
  | x =>
    have hn := d.number_hexadecimal false (.inl hconv) (by rw [hconv]; rfl)
    refine d.putNumber_eq false false rfl hn hc (?_ : _ = d.radix (ascii 'x') val.toNat)
      fun _ => .inl ?_
    · unfold leftBuf radix fields
      simp [hconv]
    · rw [numberParts, hconv]
      rfl
  | X =>
    have hn := d.number_hexadecimal true (.inr (.inl hconv)) (by rw [hconv]; rfl)
    refine d.putNumber_eq false false rfl hn hc (?_ : _ = d.radix (ascii 'X') val.toNat)
      fun _ => .inl ?_
    · unfold leftBuf radix fields
      simp [hconv]
    · rw [numberParts, hconv]
      rfl
  | o =>
    have hn := d.number_octal hconv
    refine d.putNumber_eq false false rfl hn hc rfl fun hsome => ?_
    have hparts : d.numberParts val.toNat = ([], d.octal val.toNat) := by
      rw [numberParts, hconv]
      rfl
    rw [hparts]
    exact d.octal_cases hconv val.isLt (fun h => hsome ⟨h.1, by rw [h.2]; rfl⟩) rfl

/-- The number can be read again from what it is converted to. -/
theorem numberParts_spec (h : d.Integer) : ∃ base, (base = 10 ∨ base = 8 ∨ base = 16) ∧
    ∀ v : Int, readNumber base 0 (d.numberParts v).1 = 0 ∧
      readNumber base 0 (d.numberParts v).2 = v.natAbs ∧
      ascii '-' ∉ (d.numberParts v).2 ∧ (ascii '-' ∈ (d.numberParts v).1 ↔ d.Signed ∧ v < 0) := by
  have hradix : ∀ (x : BitVec 8) (n : Nat), ¬ digitToNum x 16 < 16 →
      readNumber 16 0 (d.radix x n) = 0 := by
    intro x n hx
    unfold radix
    split_ifs
    · rw [readNumber, List.foldl_cons, List.foldl_cons, List.foldl_nil, if_neg hx]
      rfl
    · rfl
  have hminus : ∀ (x : BitVec 8) (n : Nat), ascii '-' ≠ x → ascii '-' ∉ d.radix x n := by
    intro x n hx
    unfold radix
    split_ifs
    · simp only [List.mem_cons, List.not_mem_nil, or_false, not_or]
      exact ⟨by decide, hx⟩
    · exact List.not_mem_nil
  have hsign : d.Signed → ∀ v : Int, readNumber 10 0 (d.sign v) = 0 ∧
      (ascii '-' ∈ d.sign v ↔ d.Signed ∧ v < 0) := by
    intro hs v
    unfold sign
    split_ifs with hneg
    · exact ⟨rfl, iff_of_true List.mem_cons_self ⟨hs, hneg⟩⟩
    · exact ⟨rfl, iff_of_false (by decide) fun h => hneg h.2⟩
    · exact ⟨rfl, iff_of_false (by decide) fun h => hneg h.2⟩
    · exact ⟨rfl, iff_of_false (by decide) fun h => hneg h.2⟩
  obtain ⟨hc, hs, hp, hpercent⟩ := h
  unfold numberParts
  cases hconv : d.conversion with
  | d =>
    refine ⟨10, .inl rfl, fun v => ?_⟩
    obtain ⟨hzero, hiff⟩ := hsign (.inl hconv) v
    exact ⟨hzero, readNumber_isoDigits (.inl rfl) .., minus_not_mem_isoDigits (.inl rfl) _ _ _,
      hiff⟩
  | i =>
    refine ⟨10, .inl rfl, fun v => ?_⟩
    obtain ⟨hzero, hiff⟩ := hsign (.inr hconv) v
    exact ⟨hzero, readNumber_isoDigits (.inl rfl) .., minus_not_mem_isoDigits (.inl rfl) _ _ _,
      hiff⟩
  | u =>
    have hs : ¬ d.Signed := by rw [Signed, hconv]; decide
    exact ⟨10, .inl rfl, fun v => ⟨rfl, readNumber_isoDigits (.inl rfl) ..,
      minus_not_mem_isoDigits (.inl rfl) _ _ _, iff_of_false List.not_mem_nil fun h => hs h.1⟩⟩
  | o =>
    have hs : ¬ d.Signed := by rw [Signed, hconv]; decide
    have hnot := minus_not_mem_isoDigits (.inr (.inl rfl)) false d.minimum
    refine ⟨8, .inr (.inl rfl), fun v => ⟨rfl, ?_, ?_, iff_of_false List.not_mem_nil
      fun h => hs h.1⟩⟩
    · show readNumber 8 0 (d.octal v.natAbs) = v.natAbs
      unfold octal
      dsimp only
      split_ifs
      · exact readNumber_isoDigits (.inr (.inl rfl)) false d.minimum v.natAbs
      · exact readNumber_isoDigits (.inr (.inl rfl)) false d.minimum v.natAbs
    · show ascii '-' ∉ d.octal v.natAbs
      unfold octal
      dsimp only
      split_ifs
      · rw [List.mem_cons, not_or]
        exact ⟨by decide, hnot _⟩
      · exact hnot _
  | x =>
    have hs : ¬ d.Signed := by rw [Signed, hconv]; decide
    exact ⟨16, .inr (.inr rfl), fun v => ⟨hradix _ _ (by decide),
      readNumber_isoDigits (.inr (.inr rfl)) .., minus_not_mem_isoDigits (.inr (.inr rfl)) _ _ _,
      iff_of_false (hminus _ _ (by decide)) fun h => hs h.1⟩⟩
  | X =>
    have hs : ¬ d.Signed := by rw [Signed, hconv]; decide
    exact ⟨16, .inr (.inr rfl), fun v => ⟨hradix _ _ (by decide),
      readNumber_isoDigits (.inr (.inr rfl)) .., minus_not_mem_isoDigits (.inr (.inr rfl)) _ _ _,
      iff_of_false (hminus _ _ (by decide)) fun h => hs h.1⟩⟩
  | c => exact absurd hconv hc
  | s => exact absurd hconv hs
  | p => exact absurd hconv hp
  | percent => exact absurd hconv hpercent

/-- A zero with precision zero that has no characters. -/
def NoCharacters : Prop := d.width = [] ∧
  (d.Signed → d.has .positiveSign = false ∧ d.has .positiveBlank = false) ∧
    (d.conversion = .o → d.has .alternateForm = false)

theorem number_width_eq_zero (h : number d.width = 0) : d.width = [] := by
  cases hw : d.width with
  | nil => rfl
  | cons digit ds =>
    have hne : digit ≠ 0 := fun heq => d.width_head (by rw [hw, heq]; rfl)
    have hpos : 0 < digit.val := Nat.pos_of_ne_zero fun heq => hne (Fin.ext heq)
    have hle : 0 * 10 + digit.val ≤ number d.width := by
      rw [hw]
      exact le_numberFrom (0 * 10 + digit.val) ds
    omega

theorem layout_eq_nil {leftAdjusted zeroPadded : Bool} {width : Nat} {lead body : CString}
    (h : layout leftAdjusted zeroPadded width lead body = []) :
    width = 0 ∧ lead = [] ∧ body = [] := by
  unfold layout at h
  dsimp only at h
  split_ifs at h <;>
    simp only [List.append_eq_nil_iff, List.replicate_eq_nil_iff] at h <;>
    obtain ⟨⟨h₁, h₂⟩, h₃⟩ := h <;>
    simp_all

/-- For which zeros nothing is to be put. -/
theorem field_zero_eq_nil (h : d.Integer) (hminimum : d.minimum = 0) :
    d.field (d.numberParts 0).1 (d.numberParts 0).2 = [] ↔ d.NoCharacters := by
  have hdigits : ∀ base capital, isoDigits base capital d.minimum 0 = [] := by
    intro base capital
    rw [hminimum, isoDigits, Nat.digits_zero]
    rfl
  have hsign : d.sign 0 = [] ↔ d.has .positiveSign = false ∧ d.has .positiveBlank = false := by
    unfold sign
    cases d.has .positiveSign <;> cases d.has .positiveBlank <;> decide
  have hoctal : d.octal 0 = [] ↔ d.has .alternateForm = false := by
    rw [octal, hdigits]
    cases d.has .alternateForm <;> decide
  have hradix : ∀ x, d.radix x 0 = [] := fun x => if_neg fun h => h.2 rfl
  have hparts : (d.numberParts 0).1 = [] ∧ (d.numberParts 0).2 = [] ↔
      (d.Signed → d.has .positiveSign = false ∧ d.has .positiveBlank = false) ∧
        (d.conversion = .o → d.has .alternateForm = false) := by
    obtain ⟨hc, hs, hp, hpercent⟩ := h
    unfold numberParts Signed
    cases hconv : d.conversion with
    | d => simp [hdigits, hsign]
    | i => simp [hdigits, hsign]
    | u => simp [hdigits]
    | o => simp [hoctal]
    | x => simp [hradix, hdigits]
    | X => simp [hradix, hdigits]
    | c => exact absurd hconv hc
    | s => exact absurd hconv hs
    | p => exact absurd hconv hp
    | percent => exact absurd hconv hpercent
  rw [NoCharacters, ← hparts]
  constructor
  · intro hnil
    obtain ⟨hwidth, hlead, hbody⟩ := layout_eq_nil hnil
    exact ⟨d.number_width_eq_zero hwidth, hlead, hbody⟩
  · rintro ⟨hwidth, hlead, hbody⟩
    rw [field, hlead, hbody, hwidth]
    unfold layout
    split_ifs <;> rfl

/-- Different numbers are converted to different characters. -/
theorem field_numberParts_inj (h : d.Integer) {v w : Int} (hv : ¬ d.Signed → 0 ≤ v)
    (hw : ¬ d.Signed → 0 ≤ w) (heq : d.field (d.numberParts v).1 (d.numberParts v).2 =
      d.field (d.numberParts w).1 (d.numberParts w).2) : v = w := by
  obtain ⟨base, hbase, hspec⟩ := d.numberParts_spec h
  have hfield : ∀ v, readNumber base 0 (d.field (d.numberParts v).1 (d.numberParts v).2) =
      v.natAbs := fun v =>
    (readNumber_layout hbase _ _ _ _ (hspec v).1).trans (hspec v).2.1
  have hminus : ∀ v, ascii '-' ∈ d.field (d.numberParts v).1 (d.numberParts v).2 ↔
      d.Signed ∧ v < 0 := fun v =>
    (minus_mem_layout (hspec v).2.2.1).trans (hspec v).2.2.2
  have habs : v.natAbs = w.natAbs := by
    rw [← hfield v, ← hfield w, heq]
  have hneg : d.Signed ∧ v < 0 ↔ d.Signed ∧ w < 0 := by
    rw [← hminus v, ← hminus w, heq]
  by_cases hs : d.Signed
  · have hiff : v < 0 ↔ w < 0 := by simpa [hs] using hneg
    omega
  · have := hv hs
    have := hw hs
    omega

/-- When the code puts for `v` what is due for `w`. -/
theorem putNumber_eq_iff (h : d.Integer) {v w : Int} (hv : ¬ d.Signed → 0 ≤ v)
    (hw : ¬ d.Signed → 0 ≤ w) :
    d.putNumber v = some (d.field (d.numberParts w).1 (d.numberParts w).2) ↔
      v = w ∧ (d.minimum = 0 → v = 0 → d.NoCharacters) ∧
        (d.width ≠ [] → (d.numberParts v).1.length + (d.numberParts v).2.length ≤ intMax) := by
  unfold putNumber
  by_cases hzero : d.minimum = 0 ∧ v = 0
  · obtain ⟨hminimum, rfl⟩ := hzero
    rw [if_pos ⟨hminimum, rfl⟩, Option.some_inj]
    constructor
    · intro hnil
      obtain ⟨-, hlead, hbody⟩ := layout_eq_nil hnil.symm
      obtain ⟨base, -, hspec⟩ := d.numberParts_spec h
      obtain ⟨-, habs, -, -⟩ := hspec w
      have hw0 : (0 : Int) = w := by
        rw [hbody] at habs
        exact (Int.natAbs_eq_zero.mp habs.symm).symm
      subst hw0
      have hnone := (d.field_zero_eq_nil h hminimum).mp hnil.symm
      exact ⟨rfl, fun _ _ => hnone, fun hne => absurd hnone.1 hne⟩
    · rintro ⟨rfl, hnone, -⟩
      exact ((d.field_zero_eq_nil h hminimum).mpr (hnone hminimum rfl)).symm
  · rw [if_neg hzero]
    by_cases hlarge : d.width ≠ [] ∧
        intMax < (d.numberParts v).1.length + (d.numberParts v).2.length
    · rw [if_pos hlarge]
      exact iff_of_false nofun fun hfits => absurd (hfits.2.2 hlarge.1) (Nat.not_le.mpr hlarge.2)
    · rw [if_neg hlarge, Option.some_inj]
      constructor
      · intro heq
        exact ⟨d.field_numberParts_inj h hv hw heq,
          fun hminimum hv0 => absurd ⟨hminimum, hv0⟩ hzero,
          fun hne => Nat.le_of_not_lt fun hlt => hlarge ⟨hne, hlt⟩⟩
      · rintro ⟨rfl, -, -⟩
        rfl

end Directive

end OnDemandVirt.Vmm.Printf
