import OnDemandVirt.Vmm.PrintfDirectives

/-!
# Formatted output and ISO C

`do_printf` gives its function the characters of a format in turn, and `vsnprintf` stores what fits.
`printf_iff` says for which formats of the grammar these are the characters that ISO C prescribes:
nothing goes wrong but the padding of a character and of a zero with precision zero, negative
characters, values that the length modifier would narrow, and numbers that are too large.
-/

namespace OnDemandVirt.Vmm.Printf

/-! ### The characters of a format -/

/-- All characters that `do_printf` gives to its function, if none is refused. -/
def chars : (format : CString) → List Arg → Option CString
  | [], _ => some []
  | c :: format, ap =>
    if c = ascii '%' then
      match hparsed : parseFormat format with
      | .endString => some []
      | .overflow => none
      | .done f width precision rest =>
        if f.conversionNone then (chars rest ap).map (ascii '%' :: ·)
        else
          match convert (sameLength f) width precision ap with
          | none => none
          | some (out, ap) => (chars rest ap).map (out ++ ·)
    else (chars format ap).map (c :: ·)
termination_by format => format.length
decreasing_by
  · exact Nat.lt_succ_of_lt (parseFormat_length hparsed)
  · exact Nat.lt_succ_of_lt (parseFormat_length hparsed)
  · exact Nat.lt_succ_self _

section

variable {σ : Type} {func : BitVec 8 → σ → Option σ}

theorem putchars_append (hsticky : ∀ c data, func c data = none → ∀ c', func c' data = none)
    (xs ys : CString) (data : σ) : putchars func (xs ++ ys) data =
      ((putchars func xs data).1 + (putchars func ys (putchars func xs data).2).1,
        (putchars func ys (putchars func xs data).2).2) := by
  have hrefused : ∀ data, (∃ c, func c data = none) → ∀ ys, putchars func ys data = (0, data) := by
    rintro data ⟨c, hc⟩ ys
    cases ys with
    | nil => rfl
    | cons c' ys => rw [putchars, hsticky c data hc c']
  induction xs generalizing data with
  | nil => simp [putchars]
  | cons c xs ih =>
    rw [List.cons_append, putchars, putchars]
    cases hc : func c data with
    | none =>
      dsimp only
      rw [hrefused data ⟨c, hc⟩]
      rfl
    | some data' =>
      dsimp only
      rw [ih data']
      ext
      · dsimp only
        omega
      · rfl

theorem doPrintf_char {c : BitVec 8} (hc : c ≠ ascii '%') (format : CString) (ap : List Arg)
    (data : σ) : doPrintf func (c :: format) ap data =
      match func c data with
      | none => some (0, data)
      | some data => (doPrintf func format ap data).map fun (n, data) => (n + 1, data) := by
  rw [doPrintf]
  exact if_neg hc

theorem doPrintf_endString {format : CString} (h : parseFormat format = .endString)
    (ap : List Arg) (data : σ) : doPrintf func (ascii '%' :: format) ap data = some (0, data) := by
  rw [doPrintf, if_pos rfl]
  split
  · rfl
  · next heq => cases h.symm.trans heq
  · next heq => cases h.symm.trans heq

theorem doPrintf_overflow {format : CString} (h : parseFormat format = .overflow)
    (ap : List Arg) (data : σ) : doPrintf func (ascii '%' :: format) ap data = none := by
  rw [doPrintf, if_pos rfl]
  split
  · next heq => cases h.symm.trans heq
  · rfl
  · next heq => cases h.symm.trans heq

theorem doPrintf_done {format rest : CString} {f : Format} {width precision : Nat}
    (h : parseFormat format = .done f width precision rest) (ap : List Arg) (data : σ) :
    doPrintf func (ascii '%' :: format) ap data =
      if f.conversionNone then
        match func (ascii '%') data with
        | none => some (0, data)
        | some data => (doPrintf func rest ap data).map fun (n, data) => (n + 1, data)
      else
        match convert (sameLength f) width precision ap with
        | none => none
        | some (out, ap) =>
          let (put, data) := putchars func out data
          (doPrintf func rest ap data).map fun (n, data) => (put + n, data) := by
  rw [doPrintf, if_pos rfl]
  split
  · next heq => cases h.symm.trans heq
  · next heq => cases h.symm.trans heq
  · next heq =>
    cases h.symm.trans heq
    rfl

/-- A function that goes on to refuse what comes after a refused character gets them all in turn. -/
theorem doPrintf_eq (hsticky : ∀ c data, func c data = none → ∀ c', func c' data = none)
    (format : CString) (ap : List Arg) {out : CString} (h : chars format ap = some out) (data : σ) :
    doPrintf func format ap data = some (putchars func out data) := by
  have hcons : ∀ (c : BitVec 8) (out : CString) (data : σ), putchars func (c :: out) data =
      match func c data with
      | none => (0, data)
      | some data => ((putchars func out data).1 + 1, (putchars func out data).2) :=
    fun _ _ _ => rfl
  fun_induction chars format ap generalizing out data with
  | case1 ap =>
    cases h
    rw [doPrintf]
    rfl
  | case2 format ap hparsed =>
    cases h
    exact doPrintf_endString hparsed ap data
  | case3 format ap hparsed => cases h
  | case4 format ap f width precision rest hparsed hnone ih =>
    obtain ⟨out, hout, rfl⟩ := Option.map_eq_some_iff.mp h
    rw [doPrintf_done hparsed, if_pos hnone, hcons]
    cases func (ascii '%') data with
    | none => rfl
    | some data =>
      dsimp only
      rw [ih hout]
      rfl
  | case5 format ap f width precision rest hparsed hnone hconvert => cases h
  | case6 format ap f width precision rest hparsed hnone out' ap' hconvert ih =>
    obtain ⟨out, hout, rfl⟩ := Option.map_eq_some_iff.mp h
    rw [doPrintf_done hparsed, if_neg hnone, hconvert, putchars_append hsticky]
    dsimp only
    rw [ih hout]
    rfl
  | case7 c format ap hc ih =>
    obtain ⟨out, hout, rfl⟩ := Option.map_eq_some_iff.mp h
    rw [doPrintf_char hc, hcons]
    cases func c data with
    | none => rfl
    | some data =>
      dsimp only
      rw [ih hout]
      rfl

end

/-- The function that takes every character. -/
def append (c : BitVec 8) (out : CString) : Option CString := some (out ++ [c])

/-- All characters that `do_printf` gives to a function that refuses none. -/
def emitted (format : CString) (ap : List Arg) : Option CString :=
  (doPrintf append format ap []).map Prod.snd

theorem putchars_append_eq (cs out : CString) :
    putchars append cs out = (cs.length, out ++ cs) := by
  induction cs generalizing out with
  | nil => simp [putchars]
  | cons c cs ih =>
    rw [putchars, append]
    dsimp only
    rw [ih]
    simp

theorem doPrintf_append_eq_none (format : CString) (ap : List Arg) (h : chars format ap = none)
    (out : CString) : doPrintf append format ap out = none := by
  fun_induction chars format ap generalizing out with
  | case1 ap => cases h
  | case2 format ap hparsed => cases h
  | case3 format ap hparsed => exact doPrintf_overflow hparsed ap out
  | case4 format ap f width precision rest hparsed hnone ih =>
    rw [doPrintf_done hparsed, if_pos hnone, append]
    dsimp only
    rw [ih (Option.map_eq_none_iff.mp h)]
    rfl
  | case5 format ap f width precision rest hparsed hnone hconvert =>
    rw [doPrintf_done hparsed, if_neg hnone, hconvert]
  | case6 format ap f width precision rest hparsed hnone out' ap' hconvert ih =>
    rw [doPrintf_done hparsed, if_neg hnone, hconvert]
    dsimp only
    rw [ih (Option.map_eq_none_iff.mp h)]
    rfl
  | case7 c format ap hc ih =>
    rw [doPrintf_char hc, append]
    dsimp only
    rw [ih (Option.map_eq_none_iff.mp h)]
    rfl

theorem emitted_eq (format : CString) (ap : List Arg) : emitted format ap = chars format ap := by
  have hsticky : ∀ (c : BitVec 8) (data : CString), append c data = none →
      ∀ c', append c' data = none := nofun
  unfold emitted
  cases h : chars format ap with
  | none =>
    rw [doPrintf_append_eq_none format ap h]
    rfl
  | some out =>
    rw [doPrintf_eq hsticky format ap h, putchars_append_eq]
    rfl

/-! ### Formats of the grammar -/

theorem chars_text_nil (ap : List Arg) : chars (text []) ap = some [] := by
  rw [text, List.flatMap_nil, chars]

theorem chars_char {c : BitVec 8} (hc : c ≠ ascii '%') (format : CString) (ap : List Arg) :
    chars (c :: format) ap = (chars format ap).map (c :: ·) := by
  rw [chars, if_neg hc]

theorem chars_overflow {format : CString} (h : parseFormat format = .overflow) (ap : List Arg) :
    chars (ascii '%' :: format) ap = none := by
  rw [chars, if_pos rfl]
  split
  · next heq => cases h.symm.trans heq
  · rfl
  · next heq => cases h.symm.trans heq

theorem chars_done {format rest : CString} {f : Format} {width precision : Nat}
    (h : parseFormat format = .done f width precision rest) (ap : List Arg) :
    chars (ascii '%' :: format) ap =
      if f.conversionNone then (chars rest ap).map (ascii '%' :: ·)
      else
        match convert (sameLength f) width precision ap with
        | none => none
        | some (out, ap) => (chars rest ap).map (out ++ ·) := by
  rw [chars, if_pos rfl]
  split
  · next heq => cases h.symm.trans heq
  · next heq => cases h.symm.trans heq
  · next heq =>
    cases h.symm.trans heq
    rfl

namespace Directive

variable (d : Directive)

/-- A directive puts its characters, and what follows has the arguments that are left. -/
theorem chars_text (items : List Item) (ap : List Arg) :
    chars (Printf.text (.directive d :: items)) ap =
      (d.put ap).bind fun (out, ap) => (chars (Printf.text items) ap).map (out ++ ·) := by
  have htext : Printf.text (.directive d :: items) =
      ascii '%' :: (d.text ++ Printf.text items) := rfl
  have hparse := d.parseFormat_text (Printf.text items)
  rw [htext]
  unfold put
  by_cases hnumbers : number d.width ≤ intMax ∧ d.precisionNumber ≤ intMax
  · rw [if_pos hnumbers] at hparse ⊢
    rw [chars_done hparse, conversionNone_format, sameLength_format]
    by_cases hpercent : d.conversion = .percent
    · rw [if_pos (decide_eq_true hpercent), if_pos hpercent]
      rfl
    · rw [if_neg (by simpa using hpercent), if_neg hpercent]
      cases convert d.fields (number d.width) d.precisionNumber ap <;> rfl
  · rw [if_neg hnumbers] at hparse ⊢
    exact chars_overflow hparse ap

/-- The arguments after those of a directive. -/
def rest (ap : List Arg) : List Arg := if d.conversion = .percent then ap else ap.tail

theorem iso_rest {ap ap' : List Arg} {out : CString} (h : d.iso ap = some (out, ap')) :
    ap' = d.rest ap := by
  unfold iso at h
  unfold rest
  by_cases hpercent : d.conversion = .percent
  · rw [if_pos hpercent] at h ⊢
    split_ifs at h
    cases h
    rfl
  · rw [if_neg hpercent] at h ⊢
    cases ap with
    | nil => cases h
    | cons a ap =>
      obtain ⟨p, -, heq⟩ := Option.map_eq_some_iff.mp h
      cases heq
      rfl

theorem fetchInt_rest {f : Format} {extend : BitVec 32 → BitVec 64} {ap ap' : List Arg}
    {val : BitVec 64} (h : fetchInt f extend ap = some (val, ap')) : ap' = ap.tail := by
  unfold fetchInt at h
  rcases ap with - | ⟨a, ap⟩
  · split_ifs at h <;> cases h
  · cases a <;> split_ifs at h <;> cases h <;> rfl

theorem put_rest {ap ap' : List Arg} {out : CString} (h : d.put ap = some (out, ap')) :
    ap' = d.rest ap := by
  unfold put at h
  unfold rest
  split_ifs at h ⊢ with hnumbers hpercent
  · cases h
    rfl
  · unfold convert at h
    split_ifs at h with hint huint hvoidp hcharp
    · obtain ⟨⟨val, ap₂⟩, hfetch, h⟩ := Option.bind_eq_some_iff.mp h
      obtain ⟨out, -, heq⟩ := Option.map_eq_some_iff.mp h
      cases heq
      exact fetchInt_rest hfetch
    · obtain ⟨⟨val, ap₂⟩, hfetch, h⟩ := Option.bind_eq_some_iff.mp h
      obtain ⟨out, -, heq⟩ := Option.map_eq_some_iff.mp h
      cases heq
      exact fetchInt_rest hfetch
    · obtain ⟨⟨val, ap₂⟩, hfetch, h⟩ := Option.bind_eq_some_iff.mp h
      obtain ⟨out, -, heq⟩ := Option.map_eq_some_iff.mp h
      cases heq
      rcases ap with - | ⟨a, ap⟩
      · cases hfetch
      · cases a <;> cases hfetch
        rfl
    · obtain ⟨⟨s, ap₂⟩, hfetch, heq⟩ := Option.map_eq_some_iff.mp h
      cases heq
      rcases ap with - | ⟨a, ap⟩
      · cases hfetch
      · cases a <;> cases hfetch
        rfl
    · -- every conversion is one of the four
      exfalso
      unfold fields at hint huint hvoidp hcharp
      cases hconv : d.conversion <;> simp_all

end Directive

/-- All directives and their arguments fit. -/
def AllFit : List Item → List Arg → Prop
  | [], _ => True
  | .char _ _ :: items, ap => AllFit items ap
  | .directive d :: items, ap => d.Fits ap ∧ AllFit items (d.rest ap)

/-- Directive by directive, the characters are those that are due exactly if all fit. -/
theorem chars_take_iff {items : List Item} {ap : List Arg} {out : CString}
    (h : isoPrintf items ap = some out) :
    (∀ k, chars (text (items.take k)) ap = isoPrintf (items.take k) ap) ↔ AllFit items ap := by
  induction items generalizing ap out with
  | nil =>
    refine iff_of_true (fun k => ?_) trivial
    rw [List.take_nil, chars_text_nil]
    rfl
  | cons item items ih =>
    cases item with
    | char c hc =>
      obtain ⟨out, hout, -⟩ := Option.map_eq_some_iff.mp h
      have hcons : ∀ items, chars (text (.char c hc :: items)) ap =
          (chars (text items) ap).map (c :: ·) :=
        fun items => chars_char hc.2 (text items) ap
      rw [AllFit, ← ih hout]
      refine ⟨fun hall k => ?_, fun hall k => ?_⟩
      · have hk := hall (k + 1)
        rw [List.take_succ_cons, hcons, isoPrintf] at hk
        exact Option.map_injective (List.cons_injective) hk
      · cases k with
        | zero =>
          rw [List.take_zero, chars_text_nil]
          rfl
        | succ k => rw [List.take_succ_cons, hcons, isoPrintf, hall k]
    | directive d =>
      obtain ⟨⟨out₁, ap₁⟩, hiso, h⟩ := Option.bind_eq_some_iff.mp h
      obtain ⟨out₂, hout, -⟩ := Option.map_eq_some_iff.mp h
      have hrest := d.iso_rest hiso
      have hcons : ∀ items, isoPrintf (.directive d :: items) ap =
          (isoPrintf items ap₁).map (out₁ ++ ·) := by
        intro items
        rw [isoPrintf, hiso]
        rfl
      rw [AllFit, ← hrest, ← ih hout, ← d.put_iff hiso]
      refine ⟨fun hall => ?_, fun ⟨hput, hall⟩ k => ?_⟩
      · have hput : d.put ap = some (out₁, ap₁) := by
          have hone := hall 1
          rw [List.take_succ_cons, List.take_zero, d.chars_text, hcons] at hone
          obtain ⟨⟨out', ap'⟩, hput, heq⟩ := Option.bind_eq_some_iff.mp hone
          have hap := d.put_rest hput
          dsimp only at heq
          rw [chars_text_nil] at heq
          have hout' : out' ++ [] = out₁ ++ [] := Option.some.inj heq
          rw [List.append_nil, List.append_nil] at hout'
          rw [hput, hout', hap, hrest]
        refine ⟨hput, fun k => ?_⟩
        have hk := hall (k + 1)
        rw [List.take_succ_cons, d.chars_text, hcons, hput, Option.bind_some] at hk
        exact Option.map_injective (List.append_right_injective out₁) hk
      · cases k with
        | zero =>
          rw [List.take_zero, chars_text_nil]
          rfl
        | succ k =>
          rw [List.take_succ_cons, d.chars_text, hcons, hput, Option.bind_some]
          dsimp only
          rw [hall k]

/-! ### Into memory -/

/-- The memory with the first `size - 1` characters and a NUL. -/
def stored (mem : Nat → BitVec 8) (str size : Nat) (out : CString) (a : Nat) : BitVec 8 :=
  let n := min out.length (size - 1)
  if size = 0 then mem a
  else if str ≤ a ∧ a < str + n then out.getD (a - str) 0
  else if a = str + n then 0
  else mem a

theorem doSnputchar_sticky (c : BitVec 8) (p : SnputcharData) (h : doSnputchar c p = none)
    (c' : BitVec 8) : doSnputchar c' p = none := by
  unfold doSnputchar at h ⊢
  split_ifs at h ⊢
  rfl

theorem stored_putchars (mem : Nat → BitVec 8) (str size : Nat) (out : CString) :
    ((doSnputchar 0 (putchars doSnputchar out ⟨mem, str, size⟩).2).getD
      (putchars doSnputchar out ⟨mem, str, size⟩).2).mem = stored mem str size out := by
  induction out generalizing mem str size with
  | nil =>
    rw [putchars]
    unfold doSnputchar
    dsimp only
    funext a
    unfold stored
    dsimp only
    rw [List.length_nil, Nat.zero_min, Nat.add_zero]
    by_cases hsize : size = 0
    · rw [if_pos hsize, if_pos hsize]
      rfl
    · rw [if_neg hsize, if_neg hsize, ite_self, Option.getD_some]
      dsimp only
      rw [Function.update_apply, if_neg (show ¬ (str ≤ a ∧ a < str + 0) by omega), Nat.add_zero]
  | cons c out ih =>
    rw [putchars]
    by_cases hsize : size = 0
    · have hnone : ∀ c, doSnputchar c ⟨mem, str, size⟩ = none := fun c => if_pos hsize
      rw [hnone, hnone]
      funext a
      rw [stored, if_pos hsize]
      rfl
    · have hsome : doSnputchar c ⟨mem, str, size⟩ = some ⟨Function.update mem str
          (if size - 1 = 0 then 0 else c), str + 1, size - 1⟩ := if_neg hsize
      rw [hsome]
      dsimp only
      rw [ih]
      funext a
      unfold stored
      dsimp only
      rw [List.length_cons, Function.update_apply]
      by_cases hone : size - 1 = 0
      · rw [if_pos hone, if_pos hone, if_neg hsize, hone, Nat.min_zero, Nat.add_zero,
          if_neg (show ¬ (str ≤ a ∧ a < str) by omega)]
      · rw [if_neg hone, if_neg hone, if_neg hsize]
        have hmin : min (out.length + 1) (size - 1) = min out.length (size - 1 - 1) + 1 := by omega
        rw [hmin]
        generalize min out.length (size - 1 - 1) = n
        by_cases hin : str + 1 ≤ a ∧ a < str + 1 + n
        · obtain ⟨k, rfl⟩ : ∃ k, a = str + (k + 1) := ⟨a - (str + 1), by omega⟩
          rw [if_pos hin, if_pos (show str ≤ str + (k + 1) ∧ _ by omega),
            show str + (k + 1) - (str + 1) = k by omega, Nat.add_sub_cancel_left]
          rfl
        · rw [if_neg hin]
          by_cases ha : a = str
          · subst ha
            rw [if_neg (show ¬ a = a + 1 + n by omega), if_pos rfl,
              if_pos (show a ≤ a ∧ a < a + (n + 1) by omega), Nat.sub_self]
            rfl
          · rw [if_neg ha, if_neg (show ¬ (str ≤ a ∧ a < str + (n + 1)) by omega), Nat.add_assoc,
              Nat.add_comm 1]

/-- `vsnprintf` stores the characters of a format. -/
theorem vsnprintf_eq (mem : Nat → BitVec 8) (str size : Nat) {format : CString} {ap : List Arg}
    {out : CString} (h : chars format ap = some out) :
    (vsnprintf mem str size format ap).map Prod.snd = some (stored mem str size out) := by
  rw [vsnprintf, doPrintf_eq doSnputchar_sticky format ap h, Option.map_some, Option.map_some,
    ← stored_putchars]

/-- For a format of the grammar and arguments for which ISO C says what is due, `do_printf` gives
its function just that, directive by directive, and `vsnprintf` stores it, exactly if all directives
and their arguments fit. -/
theorem printf_iff {items : List Item} {ap : List Arg} {out : CString}
    (h : isoPrintf items ap = some out) :
    ((∀ k, emitted (text (items.take k)) ap = isoPrintf (items.take k) ap) ∧
      ∀ mem str size, (vsnprintf mem str size (text items) ap).map Prod.snd =
        some (stored mem str size out)) ↔ AllFit items ap := by
  rw [← chars_take_iff h]
  simp only [emitted_eq]
  refine and_iff_left_of_imp fun hall mem str size => vsnprintf_eq mem str size ?_
  have hfull := hall items.length
  rwa [List.take_length, h] at hfull

/-- `%3s`. -/
def stringDirective : Directive := ⟨[], [3], none, none, .s, by decide⟩

theorem printf_iff_string :
    emitted (text [.directive stringDirective]) [.charp (some [ascii 'o', ascii 'k'])] =
      some [ascii ' ', ascii 'o', ascii 'k'] := by
  have hiso : isoPrintf [.directive stringDirective] [.charp (some [ascii 'o', ascii 'k'])] =
      some [ascii ' ', ascii 'o', ascii 'k'] := by rfl
  have hint : ¬ stringDirective.Integer := fun h => h.2.1 rfl
  have hfits : stringDirective.Fits [.charp (some [ascii 'o', ascii 'k'])] :=
    (Directive.fits_of_not_integer hint (by decide)).mpr ⟨by decide, by decide⟩
  exact (((printf_iff hiso).2 ⟨hfits, trivial⟩).1 1).trans hiso

/-- `%2c`. -/
def characterDirective : Directive := ⟨[], [2], none, none, .c, by decide⟩

/-- A character is not padded. -/
theorem not_printf_character : ¬ ∀ items ap out, isoPrintf items ap = some out →
    emitted (text items) ap = some out ∧ ∀ mem str size,
      (vsnprintf mem str size (text items) ap).map Prod.snd = some (stored mem str size out) := by
  intro hall
  have hiso : isoPrintf [.directive characterDirective] [.int 0x78] =
      some [ascii ' ', ascii 'x'] := by rfl
  have hemitted := (hall _ _ _ hiso).1
  rw [emitted_eq] at hemitted
  have htake : ∀ k, chars (text ([.directive characterDirective].take k)) [.int 0x78] =
      isoPrintf ([.directive characterDirective].take k) [.int 0x78] := by
    intro k
    cases k with
    | zero => exact chars_text_nil _
    | succ k => rw [List.take_succ_cons, List.take_nil, hemitted, hiso]
  have hfits := ((chars_take_iff hiso).1 htake).1
  exact absurd (hfits.character rfl).1 (by decide)

end OnDemandVirt.Vmm.Printf
