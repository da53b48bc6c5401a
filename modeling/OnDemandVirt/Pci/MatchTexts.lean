import OnDemandVirt.Pci.Match

/-!
# Texts of tokens

Words with blanks around them, and values with alternatives, as `get_token` reads them from a text.
What `match_token` does with a value is `Value.globs`.
-/

namespace OnDemandVirt.Pci.Match

open Vmm (CString isBlank)
open Vmm.Printf (ascii)

/-! ### Words -/

def isSeparator (c : BitVec 8) : Bool := c = ascii '=' || c = ascii ',' || c = ascii '|'

def isWordChar (c : BitVec 8) : Bool :=
  !(c = backslash || c = quote || isSeparator c || isBlank c)

/-- What needs no quotes. -/
structure Word where
  chars : CString
  ne_nil : chars ≠ []
  allChars : chars.all isWordChar = true

theorem Word.wordChars (w : Word) : ∀ c ∈ w.chars, isWordChar c = true :=
  List.all_eq_true.1 w.allChars

def isLiteralChar (c : BitVec 8) : Bool := !(c = ascii '*' || c = ascii '?')

/-- A word that is no pattern. -/
def Word.Literal (w : Word) : Prop := w.chars.all isLiteralChar = true

/-- The blanks around a word. -/
structure Gap where
  before : CString
  after : Nat
  blank : ∀ c ∈ before, isBlank c = true

/-- A word with its blanks. -/
structure Cell where
  gap : Gap
  word : Word

namespace Cell

variable (c : Cell) (t : CString)

def stop : CString := List.replicate c.gap.after (ascii ' ') ++ t

def start : CString := c.word.chars ++ c.stop t

def text : CString := c.gap.before ++ c.start t

end Cell

/-! ### Values -/

/-- One word or several alternatives. -/
inductive Value
  | one (c : Cell)
  | alt (c : Cell) (v : Value)

namespace Value

def text : Value → CString → CString
  | one c, t => c.text t
  | alt c v, t => c.text (ascii '|' :: text v t)

def start : Value → CString → CString
  | one c, t => c.start t
  | alt c v, t => c.start (ascii '|' :: text v t)

def stop : Value → CString → CString
  | one c, t => c.stop t
  | alt _ v, t => stop v t

/-- The blanks before the first word. -/
def before : Value → CString
  | one c => c.gap.before
  | alt c _ => c.gap.before

/-- A value without the blanks around it. -/
def raw : Value → CString
  | one c => c.word.chars
  | alt c v => c.word.chars ++ c.stop (ascii '|' :: (v.before ++ raw v))

/-- The token of a value before `t`. -/
def token (v : Value) (t : CString) : Token := ⟨some (v.start t), v.stop t, t.tail⟩

end Value

/-- A name and its value. -/
structure Setting where
  name : Cell
  value : Value

namespace Setting

variable (o : Setting) (t : CString)

def text : CString := o.name.text (ascii '=' :: o.value.text t)

/-- The token of the name. -/
def token : Token := (Value.one o.name).token (ascii '=' :: o.value.text t)

end Setting

/-- Things with a comma before each. -/
def tailText {α : Type} (text : α → CString → CString) : List α → CString → CString
  | [], t => t
  | a :: as, t => ascii ',' :: text a (tailText text as t)

/-- The strings that a word matches: `*` is any string, and `?` is any character. -/
def glob : CString → CString → Bool
  | [], str => str.isEmpty
  | c :: w, str =>
    if c = ascii '*' then str.tails.any (glob w)
    else
      match str with
      | [] => false
      | x :: str => (c = ascii '?' || c = x) && glob w str

theorem glob_cons (c : BitVec 8) (w str : CString) : glob (c :: w) str =
    if c = ascii '*' then str.tails.any (glob w)
    else
      match str with
      | [] => false
      | x :: str => (c = ascii '?' || c = x) && glob w str := by
  conv_lhs => unfold glob

theorem glob_star (w str : CString) : glob (ascii '*' :: w) str = str.tails.any (glob w) := by
  rw [glob_cons, if_pos rfl]

/-- The strings that one of the alternatives matches. -/
def Value.globs : Value → CString → Bool
  | one c, str => glob c.word.chars str
  | alt c v, str => glob c.word.chars str || globs v str

/-! ### Reading -/

/-- What ends a token. -/
inductive Stops : CString → Prop
  | nil : Stops []
  | cons {c : BitVec 8} {p : CString} (h : isSeparator c = true) : Stops (c :: p)

theorem getTokenLoop_spaces {t : CString} (ht : Stops t) (start stop : CString) (n : Nat) :
    getTokenLoop start false stop (List.replicate n (ascii ' ') ++ t) =
      (⟨some start, stop, t.tail⟩, t.char) := by
  induction n with
  | zero =>
    rw [List.replicate_zero, List.nil_append]
    cases ht with
    | nil => rfl
    | @cons c p h =>
      have hsep : c = ascii '=' ∨ c = ascii ',' ∨ c = ascii '|' := by
        simpa [isSeparator, or_assoc] using h
      have hbackslash : c ≠ backslash := by
        rintro rfl
        revert h
        decide
      have hquote : c ≠ quote := by
        rintro rfl
        revert h
        decide
      rw [getTokenLoop_cons _ _ _ hbackslash, if_neg hquote, if_pos ⟨rfl, hsep⟩]
      rfl
  | succ n ih =>
    rw [List.replicate_succ, List.cons_append, getTokenLoop_cons _ _ _ (by decide),
      if_neg (by decide), if_neg (by decide), if_pos rfl]
    exact ih

/-- The end moves with the characters of a word. -/
theorem getTokenLoop_word {w : CString} (hw : ∀ c ∈ w, isWordChar c = true) (start p : CString) :
    getTokenLoop start false (w ++ p) (w ++ p) = getTokenLoop start false p p := by
  induction w with
  | nil => rfl
  | cons c w ih =>
    have hc := hw c List.mem_cons_self
    simp only [isWordChar, isSeparator, isBlank, Bool.not_eq_true', Bool.or_eq_false_iff,
      decide_eq_false_iff_not] at hc
    obtain ⟨⟨⟨hbackslash, hquote⟩, ⟨heq, hcomma⟩, hbar⟩, hspace, -⟩ := hc
    rw [List.cons_append, getTokenLoop_cons _ _ _ hbackslash, if_neg hquote,
      if_neg (by simp [heq, hcomma, hbar]), if_neg (show c ≠ ascii ' ' from hspace)]
    exact ih fun c hc => hw c (List.mem_cons_of_mem _ hc)

theorem not_isBlank_of_isWordChar {c : BitVec 8} (h : isWordChar c = true) : isBlank c = false := by
  simp only [isWordChar, Bool.not_eq_true', Bool.or_eq_false_iff] at h
  exact h.2

namespace Cell

variable (c : Cell) (t : CString)

theorem dropWhile_start : (c.start t).dropWhile isBlank = c.start t := by
  have hchars := c.word.wordChars
  rw [start]
  cases hword : c.word.chars with
  | nil => exact absurd hword c.word.ne_nil
  | cons x chars =>
    rw [hword] at hchars
    exact List.dropWhile_cons_of_neg (Bool.eq_false_iff.mp
      (not_isBlank_of_isWordChar (hchars x List.mem_cons_self)))

theorem dropWhile_text : (c.text t).dropWhile isBlank = c.start t := by
  rw [text, List.dropWhile_append_of_pos c.gap.blank, dropWhile_start]

theorem length_stop_lt : (c.stop t).length < (c.start t).length := by
  have hpos := List.length_pos_iff.mpr c.word.ne_nil
  rw [start, List.length_append]
  omega

theorem length_start_le : (c.start t).length ≤ (c.text t).length := by
  rw [text, List.length_append]
  exact Nat.le_add_left _ _

theorem length_lt : t.length < (c.text t).length := by
  have hlt := c.length_stop_lt t
  have hle := c.length_start_le t
  rw [stop, List.length_append] at hlt
  omega

theorem chars_token (next : CString) :
    (⟨some (c.start t), c.stop t, next⟩ : Token).chars = c.word.chars := by
  change (c.start t).take ((c.start t).length - (c.stop t).length) = c.word.chars
  rw [start, List.length_append, Nat.add_sub_cancel, List.take_left]

variable {t}

theorem getToken2_eq (ht : Stops t) {p : CString} (hp : p.dropWhile isBlank = c.start t) :
    getToken2 p = (⟨some (c.start t), c.stop t, t.tail⟩, t.char) := by
  unfold getToken2
  dsimp only
  rw [hp]
  nth_rewrite 2 3 [start]
  rw [getTokenLoop_word c.word.wordChars]
  nth_rewrite 2 [stop]
  exact getTokenLoop_spaces ht _ _ _

end Cell

namespace Value

variable (v : Value) (t : CString)

theorem dropWhile_text : (v.text t).dropWhile isBlank = v.start t := by
  cases v with
  | one c => exact c.dropWhile_text t
  | alt c v => exact c.dropWhile_text _

theorem dropWhile_start : (v.start t).dropWhile isBlank = v.start t := by
  cases v with
  | one c => exact c.dropWhile_start t
  | alt c v => exact c.dropWhile_start _

theorem length_stop_le : (v.stop t).length ≤ (v.text t).length := by
  induction v with
  | one c => exact Nat.le_trans (c.length_stop_lt t).le (c.length_start_le t)
  | alt c v ih =>
    have hlt := c.length_lt (ascii '|' :: v.text t)
    rw [List.length_cons] at hlt
    rw [stop, text]
    omega

theorem text_eq : v.text t = v.before ++ v.start t := by
  cases v with
  | one c => rfl
  | alt c v => rfl

theorem start_eq : v.start t = v.raw ++ v.stop t := by
  induction v with
  | one c => rfl
  | alt c v ih =>
    rw [start, raw, stop, text_eq, ih, Cell.start, Cell.stop, Cell.stop]
    simp

theorem chars_token : (v.token t).chars = v.raw := by
  change (v.start t).take ((v.start t).length - (v.stop t).length) = v.raw
  rw [start_eq, List.length_append, Nat.add_sub_cancel, List.take_left]

theorem length_lt : t.length < (v.text t).length := by
  induction v with
  | one c => exact c.length_lt t
  | alt c v ih =>
    have hlt := c.length_lt (ascii '|' :: v.text t)
    rw [List.length_cons] at hlt
    rw [text]
    omega

variable {t}

theorem getToken_text (ht : Stops t) (hbar : t.char ≠ ascii '|') :
    getToken (v.text t) = (v.token t, t.char) := by
  induction v with
  | one c =>
    have htoken := c.getToken2_eq ht (c.dropWhile_text t)
    rw [text, getToken, dif_neg (by rw [htoken]; exact hbar), htoken]
    rfl
  | alt c v ih =>
    have htoken := c.getToken2_eq (t := ascii '|' :: v.text t) (.cons (by decide))
      (c.dropWhile_text _)
    rw [text, getToken, dif_pos (by rw [htoken]; rfl)]
    dsimp only
    rw [htoken]
    dsimp only
    rw [List.tail_cons, ih]
    rfl

end Value

/-! ### Matching -/

theorem any_tails_glob_star (p str : CString) :
    str.tails.any (glob (ascii '*' :: p)) = str.tails.any (glob p) := by
  rw [Bool.eq_iff_iff, List.any_eq_true, List.any_eq_true]
  constructor
  · rintro ⟨s, hs, h⟩
    rw [glob_star, List.any_eq_true] at h
    obtain ⟨s', hs', h⟩ := h
    rw [List.mem_tails] at hs hs'
    exact ⟨s', (List.mem_tails _ _).2 (hs'.trans hs), h⟩
  · rintro ⟨s, hs, h⟩
    refine ⟨s, hs, ?_⟩
    rw [glob_star, List.any_eq_true]
    exact ⟨s, (List.mem_tails _ _).2 (List.suffix_refl s), h⟩

/-- Several stars are one. -/
theorem any_tails_glob_dropWhile (p str : CString) :
    str.tails.any (glob (p.dropWhile (· = ascii '*'))) = str.tails.any (glob p) := by
  induction p with
  | nil => rfl
  | cons c p ih =>
    by_cases hstar : c = ascii '*'
    · rw [List.dropWhile_cons_of_pos (by simpa using hstar), ih, hstar, any_tails_glob_star]
    · rw [List.dropWhile_cons_of_neg (by simpa using hstar)]

theorem matchToken2_eq {w : CString} (hw : ∀ c ∈ w, isWordChar c = true) (str : CString) :
    matchToken2 str w = glob w str := by
  -- a star drops the stars after it, so the pattern gets shorter by more than one
  induction hn : w.length using Nat.strong_induction_on generalizing w str with
  | _ n ih =>
    cases w with
    | nil => exact matchToken2.eq_def str []
    | cons c p =>
      have hp : ∀ x ∈ p, isWordChar x = true := fun x hx => hw x (List.mem_cons_of_mem c hx)
      have hlt : p.length < n := by
        rw [← hn, List.length_cons]
        exact Nat.lt_succ_self _
      have hword : isWordChar c = true := hw c List.mem_cons_self
      have hquote : c ≠ quote := by
        rintro rfl
        exact absurd hword (by decide)
      have hbackslash : c ≠ backslash := by
        rintro rfl
        exact absurd hword (by decide)
      refine (matchToken2.eq_def str (c :: p)).trans ?_
      dsimp only
      rw [if_neg hquote]
      by_cases hstar : c = ascii '*'
      · have hdrop : ∀ s, matchToken2 s (p.dropWhile (· = ascii '*')) =
            glob (p.dropWhile (· = ascii '*')) s := fun s =>
          ih _ (Nat.lt_of_le_of_lt (List.length_dropWhile_le _ p) hlt)
            (fun x hx => hp x ((List.dropWhile_sublist _).subset hx)) s rfl
        rw [if_pos hstar, hstar, glob_star, ← any_tails_glob_dropWhile]
        simp only [hdrop]
      · rw [if_neg hstar, glob_cons, if_neg hstar]
        cases str with
        | nil => simp [hbackslash]
        | cons x str =>
          simp only [if_neg hbackslash, ih _ hlt hp str rfl]
          by_cases hany : c = ascii '?'
          · simp [hany]
          · simp [hany, eq_comm]

theorem matchToken_token (v : Value) {t : CString} (ht : Stops t) (hbar : t.char ≠ ascii '|')
    (str : CString) : matchToken str (v.token t) = v.globs str := by
  have hloop : ∀ p : CString, p.dropWhile isBlank = v.start t →
      matchTokenLoop str (v.stop t) p = v.globs str := by
    induction v with
    | one c =>
      intro p hp
      have hle := List.length_dropWhile_le isBlank p
      have hlt := c.length_stop_lt t
      rw [hp] at hle
      change (c.start t).length ≤ p.length at hle
      rw [Value.stop, matchTokenLoop, dif_pos (Nat.lt_of_lt_of_le hlt hle), c.getToken2_eq ht hp]
      dsimp only
      rw [c.chars_token, matchToken2_eq c.word.wordChars, if_neg hbar, Value.globs]
      simp
    | alt c v ih =>
      intro p hp
      have hle := List.length_dropWhile_le isBlank p
      have hlt := c.length_stop_lt (ascii '|' :: v.text t)
      have hstop := v.length_stop_le t
      rw [hp] at hle
      have hrest : (ascii '|' :: v.text t).length ≤ (c.stop (ascii '|' :: v.text t)).length := by
        rw [Cell.stop, List.length_append]
        exact Nat.le_add_left _ _
      rw [List.length_cons] at hrest
      change (c.start (ascii '|' :: v.text t)).length ≤ p.length at hle
      rw [Value.stop, matchTokenLoop, dif_pos (by omega), c.getToken2_eq (.cons (by decide)) hp]
      dsimp only
      rw [c.chars_token, matchToken2_eq c.word.wordChars, List.tail_cons,
        if_pos (show CString.char (ascii '|' :: v.text t) = ascii '|' from rfl),
        ih _ (v.dropWhile_text t), Value.globs]
      simp
  exact hloop _ (v.dropWhile_start t)

end OnDemandVirt.Pci.Match
