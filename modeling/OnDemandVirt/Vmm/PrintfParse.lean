import OnDemandVirt.Vmm.PrintfIso

/-!
# Formats of the grammar

`parse_format` reads every directive of the grammar, but for numbers that are none of type `int`.
-/

namespace OnDemandVirt.Vmm.Printf

def Format.withFlags (f : Format) (flags : List Flag) : Format :=
  { f with
    alternateForm := f.alternateForm || decide (.alternateForm ∈ flags)
    zeroPadded := f.zeroPadded || decide (.zeroPadded ∈ flags)
    leftAdjusted := f.leftAdjusted || decide (.leftAdjusted ∈ flags)
    positiveBlank := f.positiveBlank || decide (.positiveBlank ∈ flags)
    positiveSign := f.positiveSign || decide (.positiveSign ∈ flags) }

def Format.withLength (f : Format) (length : Option Length) : Format :=
  { f with
    lengthShort := f.lengthShort || decide (length = some .short ∨ length = some .char)
    lengthChar := f.lengthChar || decide (length = some .char)
    lengthLong := f.lengthLong || decide (length = some .long ∨ length = some .longlong)
    lengthLonglong := f.lengthLonglong || decide (length = some .longlong)
    lengthIntmax := f.lengthIntmax || decide (length = some .intmax)
    lengthSize := f.lengthSize || decide (length = some .size)
    lengthPtrdiff := f.lengthPtrdiff || decide (length = some .ptrdiff) }

theorem Flag.forall {P : Flag → Prop} : (∀ flag, P flag) ↔ P .alternateForm ∧ P .zeroPadded ∧
    P .leftAdjusted ∧ P .positiveBlank ∧ P .positiveSign := by
  refine ⟨fun h => ⟨h _, h _, h _, h _, h _⟩, fun ⟨h₁, h₂, h₃, h₄, h₅⟩ flag => ?_⟩
  cases flag <;> assumption

theorem parseFlags_map (f : Format) (flags : List Flag) {s : CString}
    (hs : ∀ flag : Flag, s.head? ≠ some flag.char) :
    parseFlags f (flags.map Flag.char ++ s) = (f.withFlags flags, s) := by
  induction flags generalizing f with
  | nil =>
    have hsame : f.withFlags [] = f := by simp [Format.withFlags]
    rw [hsame]
    cases s with
    | nil => rfl
    | cons c s =>
      have hne : ∀ flag : Flag, c ≠ flag.char := fun flag heq => hs flag (congrArg some heq)
      simp only [Flag.forall, Flag.char] at hne
      rw [List.map_nil, List.nil_append, parseFlags, if_neg hne.1, if_neg hne.2.1,
        if_neg hne.2.2.1, if_neg hne.2.2.2.1, if_neg hne.2.2.2.2]
  | cons flag flags ih =>
    rw [List.map_cons, List.cons_append, parseFlags]
    cases flag with
    | alternateForm =>
      rw [if_pos (show Flag.alternateForm.char = ascii '#' from rfl), ih]
      simp [Format.withFlags]
    | zeroPadded =>
      rw [if_neg (by decide), if_pos (show Flag.zeroPadded.char = ascii '0' from rfl), ih]
      simp [Format.withFlags]
    | leftAdjusted =>
      rw [if_neg (by decide), if_neg (by decide),
        if_pos (show Flag.leftAdjusted.char = ascii '-' from rfl), ih]
      simp [Format.withFlags]
    | positiveBlank =>
      rw [if_neg (by decide), if_neg (by decide), if_neg (by decide),
        if_pos (show Flag.positiveBlank.char = ascii ' ' from rfl), ih]
      simp [Format.withFlags]
    | positiveSign =>
      rw [if_neg (by decide), if_neg (by decide), if_neg (by decide), if_neg (by decide),
        if_pos (show Flag.positiveSign.char = ascii '+' from rfl), ih]
      simp [Format.withFlags]

theorem le_numberFrom (n : Nat) (ds : List (Fin 10)) : n ≤ numberFrom n ds := by
  induction ds generalizing n with
  | nil => exact Nat.le_refl n
  | cons d ds ih => exact Nat.le_trans (by omega) (ih (n * 10 + d))

theorem isDigit_digitText : ∀ d : Fin 10, isDigit (digitText d) = true ∧
    (digitText d).toNat - (ascii '0').toNat = d := by
  decide

theorem parseNumber_map (n : Nat) (hn : n ≤ intMax) (ds : List (Fin 10)) {s : CString}
    (hs : ∀ c, s.head? = some c → isDigit c = false) : parseNumber n (ds.map digitText ++ s) =
      if numberFrom n ds ≤ intMax then some (numberFrom n ds, s) else none := by
  induction ds generalizing n with
  | nil =>
    rw [numberFrom, List.foldl_nil, if_pos hn, List.map_nil, List.nil_append]
    cases s with
    | nil => rfl
    | cons c s => rw [parseNumber, if_neg (by rw [hs c rfl]; decide)]
  | cons d ds ih =>
    obtain ⟨hdigit, hval⟩ := isDigit_digitText d
    have hcons : numberFrom n (d :: ds) = numberFrom (n * 10 + d) ds := rfl
    rw [List.map_cons, List.cons_append, parseNumber, if_pos hdigit, addDigit, hval, hcons]
    by_cases hle : n * 10 + d ≤ intMax
    · rw [if_pos hle, Option.bind_some, ih _ hle]
    · have hmono := le_numberFrom (n * 10 + d) ds
      rw [if_neg hle, Option.bind_none, if_neg (by omega)]

theorem parseLength_text {f : Format} (hshort : f.lengthShort = false)
    (hlong : f.lengthLong = false) (d : Directive) (rest : CString) :
    parseLength f (d.lengthText ++ d.conversion.char :: rest) =
      (f.withLength d.length, d.conversion.char :: rest) := by
  have hend : ∀ f : Format, parseLength f (d.conversion.char :: rest) =
      (f, d.conversion.char :: rest) := by
    intro f
    rw [parseLength]
    cases d.conversion <;> rfl
  unfold Directive.lengthText
  cases d.length with
  | none =>
    have hsame : f.withLength none = f := by simp [Format.withLength]
    rw [hsame]
    exact hend f
  | some length =>
    show parseLength f (length.text ++ _ :: rest) = _
    cases length with
    | short =>
      rw [Length.text, List.singleton_append, parseLength, if_pos rfl, hend, hshort]
      simp [Format.withLength]
    | char =>
      rw [Length.text, List.cons_append, List.singleton_append, parseLength, if_pos rfl, hshort,
        parseLength, if_pos rfl, hend]
      simp [Format.withLength]
    | long =>
      rw [Length.text, List.singleton_append, parseLength, if_neg (by decide), if_pos rfl, hend,
        hlong]
      simp [Format.withLength]
    | longlong =>
      rw [Length.text, List.cons_append, List.singleton_append, parseLength, if_neg (by decide),
        if_pos rfl, hlong, parseLength, if_neg (by decide), if_pos rfl, hend]
      simp [Format.withLength]
    | intmax =>
      rw [Length.text, List.singleton_append, parseLength, if_neg (by decide), if_neg (by decide),
        if_pos rfl, hend]
      simp [Format.withLength]
    | size =>
      rw [Length.text, List.singleton_append, parseLength, if_neg (by decide), if_neg (by decide),
        if_neg (by decide), if_pos rfl, hend]
      simp [Format.withLength]
    | ptrdiff =>
      rw [Length.text, List.singleton_append, parseLength, if_neg (by decide), if_neg (by decide),
        if_neg (by decide), if_neg (by decide), if_pos rfl, hend]
      simp [Format.withLength]

namespace Directive

variable (d : Directive)

/-- `f` for a directive. -/
def format : Format :=
  parseConversion (({ hasWidth := !d.width.isEmpty, hasPrecision := d.precision.isSome } :
    Format).withFlags d.flags |>.withLength d.length) d.conversion.char

/-- `precision` for a directive. -/
def precisionNumber : Nat := (d.precision.map number).getD 0

/-- What is ahead of the conversion is no flag and no digit. -/
theorem lengthText_head (rest : CString) {c : BitVec 8}
    (h : (d.lengthText ++ d.conversion.char :: rest).head? = some c) :
    (∀ flag : Flag, c ≠ flag.char) ∧ isDigit c = false ∧ c ≠ ascii '.' := by
  have hlength : ∀ length : Length, ∀ c, length.text.head? = some c →
      (∀ flag : Flag, c ≠ flag.char) ∧ isDigit c = false ∧ c ≠ ascii '.' := by
    intro length c hc
    cases length <;> cases hc <;>
      exact ⟨fun flag => by cases flag <;> decide, by decide, by decide⟩
  have hconversion : ∀ conversion : Conversion,
      (∀ flag : Flag, conversion.char ≠ flag.char) ∧ isDigit conversion.char = false ∧
        conversion.char ≠ ascii '.' := by
    intro conversion
    cases conversion <;> exact ⟨fun flag => by cases flag <;> decide, by decide, by decide⟩
  unfold lengthText at h
  cases hl : d.length with
  | none =>
    rw [hl] at h
    cases h
    exact hconversion _
  | some length =>
    rw [hl] at h
    dsimp only at h
    cases ht : length.text with
    | nil => cases length <;> cases ht
    | cons c' s =>
      rw [ht] at h
      cases h
      exact hlength length c (by rw [ht]; rfl)

/-- What the precision and what follows it begins with. -/
theorem precisionText_head (rest : CString) {c : BitVec 8}
    (h : (d.precisionText ++ (d.lengthText ++ d.conversion.char :: rest)).head? = some c) :
    (∀ flag : Flag, c ≠ flag.char) ∧ isDigit c = false := by
  unfold precisionText at h
  cases hp : d.precision with
  | none =>
    rw [hp] at h
    obtain ⟨hflag, hdigit, -⟩ := d.lengthText_head rest h
    exact ⟨hflag, hdigit⟩
  | some ds =>
    rw [hp] at h
    cases h
    exact ⟨fun flag => by cases flag <;> decide, by decide⟩

theorem parseRest_text {f : Format} (hshort : f.lengthShort = false) (hlong : f.lengthLong = false)
    (width precision : Nat) (rest : CString) :
    parseRest f width precision (d.lengthText ++ d.conversion.char :: rest) =
      .done (parseConversion (f.withLength d.length) d.conversion.char) width precision rest := by
  unfold parseRest
  rw [parseLength_text hshort hlong]

/-- A directive is parsed, unless a number is none of type `int`. -/
theorem parseFormat_text (rest : CString) : parseFormat (d.text ++ rest) =
    if number d.width ≤ intMax ∧ d.precisionNumber ≤ intMax then
      .done d.format (number d.width) d.precisionNumber rest
    else .overflow := by
  have hzero : (0 : Nat) ≤ intMax := Nat.zero_le _
  obtain ⟨tail, htail⟩ : ∃ tail : CString,
      tail = d.precisionText ++ (d.lengthText ++ d.conversion.char :: rest) := ⟨_, rfl⟩
  have hhead : ∀ c, tail.head? = some c → (∀ flag : Flag, c ≠ flag.char) ∧ isDigit c = false := by
    rw [htail]
    exact fun c h => d.precisionText_head rest h
  have htext : d.text ++ rest = d.flags.map Flag.char ++ (d.width.map digitText ++ tail) := by
    rw [htail]
    simp only [text, List.append_assoc, List.singleton_append]
  have hflags : ∀ flag : Flag, (d.width.map digitText ++ tail).head? ≠ some flag.char := by
    intro flag h
    cases hw : d.width with
    | nil =>
      rw [hw] at h
      exact (hhead _ h).1 flag rfl
    | cons digit ds =>
      have hne : digit ≠ 0 := fun heq => d.width_head (by rw [hw, heq]; rfl)
      have hdigit : ∀ digit : Fin 10, digit ≠ 0 → ∀ flag : Flag, digitText digit ≠ flag.char := by
        intro digit hne flag
        revert digit
        cases flag <;> decide
      rw [hw] at h
      exact hdigit digit hne flag (Option.some.inj h)
  have hwidth : isDigit (CString.char (d.width.map digitText ++ tail)) = !d.width.isEmpty := by
    cases hw : d.width with
    | nil =>
      cases ht : tail with
      | nil => rfl
      | cons c s => exact (hhead c (by rw [ht]; rfl)).2
    | cons digit ds => exact (isDigit_digitText digit).1
  rw [htext, parseFormat, parseFlags_map {} d.flags hflags]
  dsimp only
  rw [parseNumber_map 0 hzero d.width fun c h => (hhead c h).2, hwidth]
  by_cases hle : numberFrom 0 d.width ≤ intMax
  · rw [if_pos hle]
    dsimp only
    unfold precisionNumber format
    cases hp : d.precision with
    | none =>
      have htail : tail = d.lengthText ++ d.conversion.char :: rest := by
        rw [htail, precisionText, hp]
        rfl
      have hdot : ¬ CString.char tail = ascii '.' := by
        rw [htail]
        cases ht : d.lengthText ++ d.conversion.char :: rest with
        | nil => decide
        | cons c s => exact (d.lengthText_head rest (by rw [ht]; rfl)).2.2
      rw [if_neg hdot, htail, d.parseRest_text rfl rfl, if_pos ⟨hle, hzero⟩]
      rfl
    | some ds =>
      have htail : tail = ascii '.' :: (ds.map digitText ++
          (d.lengthText ++ d.conversion.char :: rest)) := by
        rw [htail, precisionText, hp]
        rfl
      have hdot : CString.char tail = ascii '.' := by
        rw [htail]
        rfl
      rw [if_pos hdot, htail, List.tail_cons, parseNumber_map 0 hzero ds
        fun c h => (d.lengthText_head rest h).2.1]
      by_cases hle' : numberFrom 0 ds ≤ intMax
      · rw [if_pos hle', if_pos ⟨hle, hle'⟩]
        exact d.parseRest_text rfl rfl _ _ rest
      · rw [if_neg hle', if_neg fun h => hle' h.2]
  · rw [if_neg hle, if_neg fun h => hle h.1]

end Directive

end OnDemandVirt.Vmm.Printf
