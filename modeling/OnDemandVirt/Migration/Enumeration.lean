import OnDemandVirt.Migration.Walk

/-!
# All calls of `get_start_addr`

`get_start_addr` keeps its place in a static variable and looks at the bit array as it is when it
is called. Here the bits may be anything at the first call and anything else at every later one,
whatever was set in between. The loop over the units that were already sent is given a second
time, as relations without fuel: which addresses it looks up in the bit array (`Examines`), and
how it ends (`StopsAt`). What all calls together return is `Enumerates`.
-/

namespace OnDemandVirt.Migration

/-! ### One call -/

/-- The loop of `get_start_addr`, entered at an address, looks up the bit of another one. -/
inductive Examines (bits : Nat → BitVec 64) : Nat → Nat → Prop
  | here (a : Nat) : Examines bits a a
  | next {a b : Nat} : getBitarray bits a = true → getNextAddr a ≠ endOfMemory →
      Examines bits (getNextAddr a) b → Examines bits a b

/-- The loop, entered at an address, ends with another one. -/
inductive StopsAt (bits : Nat → BitVec 64) : Nat → Nat → Prop
  | clear {a : Nat} : getBitarray bits a = false → StopsAt bits a a
  | ended {a : Nat} : getBitarray bits a = true → getNextAddr a = endOfMemory →
      StopsAt bits a endOfMemory
  | next {a b : Nat} : getBitarray bits a = true → getNextAddr a ≠ endOfMemory →
      StopsAt bits (getNextAddr a) b → StopsAt bits a b

variable {bits : Nat → BitVec 64} {a b : Nat}

theorem Examines.isGranUnit (h : Examines bits a b) (ha : IsGranUnit a) : IsGranUnit b := by
  induction h with
  | here => exact ha
  | next _ hne _ ih => exact ih (ha.next.resolve_left hne)

/-- The word of a unit's bit is inside of the bit array. -/
theorem IsGranUnit.word_lt {u : Nat} (h : IsGranUnit u) : u >>> 21 < bitarrayWords := by
  have hlt := h.lt
  rw [word_index]
  unfold bitarrayWords
  omega

/-- The fuel of `skipSent` is enough. -/
theorem skipSent_stopsAt (fuel u : Nat) (hu : IsGranUnit u)
    (hfuel : (0x476800000 - u) / 0x8000 ≤ fuel) : StopsAt bits u (skipSent bits fuel u) := by
  induction fuel generalizing u with
  | zero =>
    have hlt := hu.lt
    have ha := hu.aligned
    omega
  | succ fuel ih =>
    rw [skipSent]
    by_cases hmark : getBitarray bits u = true
    · rw [if_pos hmark]
      dsimp only
      split_ifs with hend
      · exact .ended hmark hend
      · have hnext := hu.next.resolve_left hend
        have hlt := hu.lt_next
        have hal := hu.aligned
        have hal' := hnext.aligned
        exact .next hmark hend (ih _ hnext (by omega))
    · rw [if_neg hmark]
      exact .clear (by simpa using hmark)

theorem getStartAddr_stopsAt (ha : IsGranUnit a) : StopsAt bits a (getStartAddr bits a).1 := by
  have hstop := @skipSent_stopsAt bits (2 ^ 20) a ha (by omega)
  rw [getStartAddr, if_neg ha.ne_end]
  dsimp only
  split_ifs with hend
  · rwa [hend] at hstop
  · exact hstop

/-! ### All calls -/

variable (calls : Nat → Nat → BitVec 64)

/-- The static `start_addr` before call `n`, with the bits `calls i` at call `i`. -/
def cursor : Nat → Nat
  | 0 => 0
  | n + 1 => (getStartAddr (calls n) (cursor n)).2

/-- What call `n` returns. -/
def visited (n : Nat) : Nat := (getStartAddr (calls n) (cursor calls n)).1

/-- What the calls do. -/
structure Enumerates : Prop where
  /-- Only whole units are looked at, and their bits are in the bit array. -/
  units : ∀ n a, cursor calls n ≠ endOfMemory → Examines (calls n) (cursor calls n) a →
    IsGranUnit a ∧ a >>> 21 < bitarrayWords
  /-- Every call returns. -/
  returns : ∀ n, (cursor calls n = endOfMemory ∧ visited calls n = endOfMemory) ∨
    StopsAt (calls n) (cursor calls n) (visited calls n)
  /-- What a call returns is a unit that is not sent yet, or the end. -/
  clear : ∀ n, visited calls n ≠ endOfMemory →
    IsGranUnit (visited calls n) ∧ getBitarray (calls n) (visited calls n) = false
  /-- A unit that is behind the cursor and whose bit has stayed clear has been returned. -/
  noneSkipped : ∀ n u, IsGranUnit u → u < cursor calls n →
    (∀ i < n, getBitarray (calls i) u = false) → ∃ i < n, visited calls i = u
  /-- At some call the end is reached, it is returned from then on, and all units are behind. -/
  ends : ∃ n, ∀ m, n ≤ m → visited calls m = endOfMemory ∧
    ∀ u, IsGranUnit u → u < cursor calls m

theorem walkAt_cursor (n : Nat) : WalkAt (cursor calls n) := by
  induction n with
  | zero => exact .inr isGranUnit_zero
  | succ n ih => exact (getStartAddr_spec ih rfl).walkAt

theorem startAddr_visited (n : Nat) :
    StartAddr (calls n) (cursor calls n) (visited calls n) (cursor calls (n + 1)) :=
  getStartAddr_spec (walkAt_cursor calls n) rfl

theorem visited_of_cursor_end {n : Nat} (h : cursor calls n = endOfMemory) :
    visited calls n = endOfMemory := by
  by_contra hne
  have hle := (startAddr_visited calls n).le
  have hlt := ((startAddr_visited calls n).unit hne).1.lt
  rw [h] at hle
  exact absurd (lt_of_le_of_lt hle hlt) (by decide)

/-- The unit that a call passes over is marked, or it is the one that is returned. -/
theorem visited_of_passed {n u : Nat} (hu : IsGranUnit u) (hle : cursor calls n ≤ u)
    (hlt : u < cursor calls (n + 1)) (hclear : getBitarray (calls n) u = false) :
    visited calls n = u := by
  have hspec := startAddr_visited calls n
  have hnot : ¬ u < visited calls n := fun h => by
    rw [hspec.passed u hu hle h] at hclear
    cases hclear
  by_cases hend : visited calls n = endOfMemory
  · have := hu.lt
    rw [hend] at hnot
    exact absurd (lt_trans this (by decide)) hnot
  · obtain ⟨hunit, -, hnext⟩ := hspec.unit hend
    rcases Nat.eq_or_lt_of_le (Nat.le_of_not_lt hnot) with heq | hgt
    · exact heq
    · have := hunit.next_le hu hgt
      omega

theorem exists_visited {n u : Nat} (hu : IsGranUnit u) (hlt : u < cursor calls n)
    (hclear : ∀ i < n, getBitarray (calls i) u = false) : ∃ i < n, visited calls i = u := by
  induction n with
  | zero => exact absurd hlt (Nat.not_lt_zero u)
  | succ n ih =>
    by_cases hbefore : u < cursor calls n
    · obtain ⟨i, hi, hv⟩ := ih hbefore fun i hi => hclear i (by omega)
      exact ⟨i, by omega, hv⟩
    · exact ⟨n, by omega,
        visited_of_passed calls hu (Nat.le_of_not_lt hbefore) hlt (hclear n (by omega))⟩

/-- Every call that does not find the end moves the cursor on. -/
theorem cursor_lt {n : Nat} (h : visited calls n ≠ endOfMemory) :
    cursor calls n < cursor calls (n + 1) := by
  have hspec := startAddr_visited calls n
  obtain ⟨hunit, -, hnext⟩ := hspec.unit h
  rw [hnext]
  exact lt_of_le_of_lt hspec.le hunit.lt_next

theorem cursor_end_succ {n : Nat} (h : visited calls n = endOfMemory) :
    cursor calls (n + 1) = endOfMemory :=
  (startAddr_visited calls n).ended h

theorem cursor_end_or_le (n : Nat) : cursor calls n = endOfMemory ∨ n ≤ cursor calls n := by
  induction n with
  | zero => exact .inr (Nat.zero_le _)
  | succ n ih =>
    by_cases hend : visited calls n = endOfMemory
    · exact .inl (cursor_end_succ calls hend)
    · have hlt := cursor_lt calls hend
      rcases ih with he | hle
      · exact absurd (visited_of_cursor_end calls he) hend
      · exact .inr (by omega)

/-- After as many calls as there are addresses the cursor is at the end. -/
theorem cursor_eq_end {n : Nat} (hn : 0x476800000 ≤ n) : cursor calls n = endOfMemory := by
  rcases cursor_end_or_le calls n with h | h
  · exact h
  · rcases walkAt_cursor calls n with he | hu
    · exact he
    · have := hu.lt
      omega

/-- What all calls of `get_start_addr` return together, whatever bits are set between them. -/
theorem enumerates : Enumerates calls where
  units n a hne hex := by
    have hu := hex.isGranUnit ((walkAt_cursor calls n).resolve_left hne)
    exact ⟨hu, hu.word_lt⟩
  returns n := by
    rcases walkAt_cursor calls n with hend | hu
    · exact .inl ⟨hend, visited_of_cursor_end calls hend⟩
    · exact .inr (getStartAddr_stopsAt hu)
  clear n hne := by
    obtain ⟨hu, hclear, -⟩ := (startAddr_visited calls n).unit hne
    exact ⟨hu, hclear⟩
  noneSkipped _ _ hu hlt hclear := exists_visited calls hu hlt hclear
  ends := by
    refine ⟨0x476800000, fun m hm => ?_⟩
    have hend := cursor_eq_end calls hm
    refine ⟨visited_of_cursor_end calls hend, fun u hu => ?_⟩
    rw [hend]
    exact lt_trans hu.lt (by decide)

end OnDemandVirt.Migration
