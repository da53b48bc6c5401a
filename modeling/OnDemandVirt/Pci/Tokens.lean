import OnDemandVirt.Vmm.PrintfIso

/-!
# Tokens

`token.h`: a token goes up to a separator, without the blanks around it, and may have alternatives
between bars, each of them a pattern. A pointer into a string is what is left of the string.
-/

namespace OnDemandVirt.Pci.Match

open Vmm (CString isBlank)
open Vmm.Printf (ascii)

def backslash : BitVec 8 := 0x5C

def quote : BitVec 8 := 0x22

/-- `struct token`; `start` is `NULL` after an error. -/
structure Token where
  start : Option CString
  stop : CString
  next : CString
deriving DecidableEq

namespace Token

/-- `start == end`. -/
def isEmpty (t : Token) : Bool := t.start = some t.stop

/-- What lies between `start` and `end`. -/
def chars (t : Token) : CString :=
  let start := t.start.getD []
  start.take (start.length - t.stop.length)

end Token

/-- The loop of `get_token2`, with what it returns. -/
def getTokenLoop (start : CString) : Bool → CString → CString → Token × BitVec 8
  | f, stop, [] => (⟨if f then none else some start, stop, []⟩, 0)
  | f, stop, c :: p =>
    if c = backslash then
      match p with
      | [] => (⟨none, stop, []⟩, 0)
      | _ :: p => getTokenLoop start f p p
    else if c = quote then getTokenLoop start (!f) p p
    else if f = false ∧ (c = ascii '=' ∨ c = ascii ',' ∨ c = ascii '|') then
      (⟨some start, stop, p⟩, c)
    else if c = ascii ' ' then getTokenLoop start f stop p
    else getTokenLoop start f p p

theorem getTokenLoop_cons (start : CString) (f : Bool) (stop : CString) {c : BitVec 8}
    (hc : c ≠ backslash) (p : CString) : getTokenLoop start f stop (c :: p) =
      if c = quote then getTokenLoop start (!f) p p
      else if f = false ∧ (c = ascii '=' ∨ c = ascii ',' ∨ c = ascii '|') then
        (⟨some start, stop, p⟩, c)
      else if c = ascii ' ' then getTokenLoop start f stop p
      else getTokenLoop start f p p := by
  conv_lhs => unfold getTokenLoop
  exact if_neg hc

/-- `get_token2`. -/
def getToken2 (p : CString) : Token × BitVec 8 :=
  let p := p.dropWhile isBlank
  getTokenLoop p false p p

theorem getTokenLoop_next (start : CString) (f : Bool) (stop p : CString) :
    (getTokenLoop start f stop p).1.next.length ≤ p.length - 1 := by
  fun_induction getTokenLoop start f stop p with
  | case1 f stop => exact Nat.le_refl _
  | case2 f stop => exact Nat.zero_le _
  | case3 f stop x p ih =>
    simp only [List.length_cons]
    omega
  | case4 f stop p _ ih =>
    simp only [List.length_cons]
    omega
  | case5 stop c p => exact Nat.le_refl _
  | case6 f stop p _ _ _ ih =>
    simp only [List.length_cons]
    omega
  | case7 f stop c p _ _ _ _ ih =>
    simp only [List.length_cons]
    omega

theorem getToken2_next_le (p : CString) : (getToken2 p).1.next.length ≤ p.length - 1 := by
  have hle : (p.dropWhile isBlank).length ≤ p.length := List.length_dropWhile_le isBlank p
  have hnext := getTokenLoop_next (p.dropWhile isBlank) false (p.dropWhile isBlank)
    (p.dropWhile isBlank)
  unfold getToken2
  dsimp only
  omega

theorem length_pos_of_getToken2 {p : CString} (h : (getToken2 p).2 = ascii '|') :
    0 < p.length := by
  cases p with
  | nil => exact absurd h (by decide)
  | cons c p => exact Nat.succ_pos _

/-- `get_token`. The loop over the alternatives moves the end; an error in the last one that is
read is one of the token. -/
def getToken (p : CString) : Token × BitVec 8 :=
  if h : (getToken2 p).2 = ascii '|' then
    let last := getToken (getToken2 p).1.next
    (⟨if last.1.start.isSome then (getToken2 p).1.start else none, last.1.stop, last.1.next⟩,
      last.2)
  else getToken2 p
termination_by p.length
decreasing_by
  have hpos := length_pos_of_getToken2 h
  have hle := getToken2_next_le p
  omega

/-- Blanks to the end of the string. -/
theorem getToken_blank {p : CString} (hp : ∀ c ∈ p, isBlank c = true) :
    getToken p = (⟨some [], [], []⟩, 0) := by
  have hdrop : p.dropWhile isBlank = [] := List.dropWhile_eq_nil_iff.mpr hp
  have htoken : getToken2 p = (⟨some [], [], []⟩, 0) := by
    unfold getToken2
    rw [hdrop]
    rfl
  rw [getToken, dif_neg (by rw [htoken]; decide), htoken]

theorem getToken_nil_isEmpty : (getToken []).1.isEmpty = true := by
  rw [getToken_blank fun c hc => absurd hc List.not_mem_nil]
  rfl

theorem getToken_next_le (p : CString) : (getToken p).1.next.length ≤ p.length - 1 := by
  fun_induction getToken p with
  | case1 p h last ih =>
    have hle := getToken2_next_le p
    exact Nat.le_trans ih (Nat.le_trans (Nat.sub_le _ _) hle)
  | case2 p h => exact getToken2_next_le p

/-- A token that is not empty has been read from somewhere. -/
theorem getToken_next_lt {p : CString} (h : (getToken p).1.isEmpty = false) :
    (getToken p).1.next.length < p.length := by
  have hle := getToken_next_le p
  cases p with
  | nil =>
    rw [getToken] at h
    exact absurd h (by decide)
  | cons c p =>
    rw [List.length_cons] at hle ⊢
    omega

/-- `match_token2`, with the part of the pattern up to `end`. -/
def matchToken2 (str : CString) : CString → Bool
  | [] => str.isEmpty
  | c :: p =>
    if c = quote then matchToken2 str p
    else if c = ascii '*' then
      str.tails.any fun str => matchToken2 str (p.dropWhile (· = ascii '*'))
    else if c = ascii '?' then
      match str with
      | [] => false
      | _ :: str => matchToken2 str p
    else if c = backslash then
      match p, str with
      | c :: p, x :: str => x = c && matchToken2 str p
      | _, _ => false
    else
      match str with
      | [] => false
      | x :: str => x = c && matchToken2 str p
termination_by p => p.length
decreasing_by
  all_goals simp_wf
  exact List.length_dropWhile_le _ _

/-- The loop of `match_token1`: the alternatives from `p` on. -/
def matchTokenLoop (str : CString) (stop : CString) (p : CString) : Bool :=
  if h : stop.length < p.length then
    let (tmp, c) := getToken2 p
    if matchToken2 str tmp.chars then true
    else if c = ascii '|' then matchTokenLoop str stop (getToken2 p).1.next
    else false
  else false
termination_by p.length
decreasing_by
  have hle := getToken2_next_le p
  omega

/-- `match_token`. -/
def matchToken (str : CString) (t : Token) : Bool := matchTokenLoop str t.stop (t.start.getD [])

end OnDemandVirt.Pci.Match
