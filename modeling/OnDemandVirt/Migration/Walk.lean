import OnDemandVirt.Migration.Client

/-!
# The walk of the background copy over the units

`get_next_addr` enumerates the units of `usable_mem_list_gran` in increasing order, and
`get_start_addr` goes on from its static address to the first unit whose bit is not set.
-/

namespace OnDemandVirt.Migration

open Lib

/-- The units that the background copy enumerates. -/
def IsGranUnit (u : Nat) : Prop := u % addrOffset = 0 ∧ ∃ a ∈ usableMemListGran, a.Holds u

theorem isGranUnit_iff (u : Nat) : IsGranUnit u ↔ u % 0x8000 = 0 ∧
    (u ≤ 0x97fff ∨ (0x100000 ≤ u ∧ u ≤ 0x3fffffff) ∨ (0x60000000 ≤ u ∧ u ≤ 0x7e7fffff) ∨
      (0x86b48000 ≤ u ∧ u ≤ 0x86b97fff) ∨ (0x86fc0000 ≤ u ∧ u ≤ 0x86fcffff) ∨
      (0x87fd0000 ≤ u ∧ u ≤ 0x87ffffff) ∨ (0x100000000 ≤ u ∧ u ≤ 0x4767fffff)) := by
  simp [IsGranUnit, usableMemListGran, MemArea.Holds]

theorem isGranUnit_zero : IsGranUnit 0 := by
  rw [isGranUnit_iff]
  omega

namespace IsGranUnit

variable {u v : Nat}

theorem aligned (h : IsGranUnit u) : u % 0x8000 = 0 := h.1

theorem lt (h : IsGranUnit u) : u < 0x476800000 := by
  rw [isGranUnit_iff] at h
  omega

theorem ne_end (h : IsGranUnit u) : u ≠ endOfMemory := by
  have := h.lt
  unfold endOfMemory
  omega

/-- The next unit is a unit, or the enumeration is over. -/
theorem next (h : IsGranUnit u) : getNextAddr u = endOfMemory ∨ IsGranUnit (getNextAddr u) := by
  rw [isGranUnit_iff] at h
  rw [isGranUnit_iff, getNextAddr_eq]
  split_ifs <;> omega

theorem lt_next (h : IsGranUnit u) : u < getNextAddr u := by
  have := h.lt
  rw [getNextAddr_eq, endOfMemory]
  split_ifs <;> omega

/-- No unit lies between a unit and the next one. -/
theorem next_le (h : IsGranUnit u) (hv : IsGranUnit v) (huv : u < v) : getNextAddr u ≤ v := by
  rw [isGranUnit_iff] at h hv
  rw [getNextAddr_eq]
  split_ifs <;> omega

end IsGranUnit

/-- Where the walk stands: at a unit, or at the end. -/
def WalkAt (a : Nat) : Prop := a = endOfMemory ∨ IsGranUnit a

/-- The units from `a` up to `b` are marked. -/
def MarkedBetween (bits : Nat → BitVec 64) (a b : Nat) : Prop :=
  ∀ u, IsGranUnit u → a ≤ u → u < b → getBitarray bits u = true

theorem MarkedBetween.trans {bits : Nat → BitVec 64} {a b c : Nat} (hab : MarkedBetween bits a b)
    (hbc : MarkedBetween bits b c) : MarkedBetween bits a c := by
  intro u hu ha hc
  rcases Nat.lt_or_ge u b with hub | hub
  · exact hab u hu ha hub
  · exact hbc u hu hub hc

theorem markedBetween_next {bits : Nat → BitVec 64} {u : Nat} (hu : IsGranUnit u)
    (hmark : getBitarray bits u = true) : MarkedBetween bits u (getNextAddr u) := by
  intro v hv huv hvn
  rcases Nat.eq_or_lt_of_le huv with rfl | hlt
  · exact hmark
  · exact absurd (hu.next_le hv hlt) (Nat.not_le.mpr hvn)

/-- The loop over marked units: it stops at an unmarked unit or at the end, and has passed over
marked units only. The fuel is the number of 32KB steps to the end of memory. -/
theorem skipSent_spec (bits : Nat → BitVec 64) (fuel u : Nat) (hu : IsGranUnit u)
    (hfuel : (0x476800000 - u) / 0x8000 ≤ fuel) :
    (skipSent bits fuel u = endOfMemory ∨
      (IsGranUnit (skipSent bits fuel u) ∧ getBitarray bits (skipSent bits fuel u) = false)) ∧
      u ≤ skipSent bits fuel u ∧ MarkedBetween bits u (skipSent bits fuel u) := by
  induction fuel generalizing u with
  | zero =>
    have hlt := hu.lt
    have ha := hu.aligned
    omega
  | succ fuel ih =>
    rw [skipSent]
    by_cases hmark : getBitarray bits u = true
    · rw [if_pos hmark]
      have hpass := markedBetween_next hu hmark
      have hlt := hu.lt_next
      dsimp only
      split_ifs with hend
      · rw [hend] at hpass hlt
        exact ⟨.inl rfl, hlt.le, hpass⟩
      · have hnext := hu.next.resolve_left hend
        have hfuel' : (0x476800000 - getNextAddr u) / 0x8000 ≤ fuel := by
          have ha := hu.aligned
          have hb := hnext.aligned
          omega
        obtain ⟨hstop, hle, hbetween⟩ := ih (getNextAddr u) hnext hfuel'
        exact ⟨hstop, hlt.le.trans hle, hpass.trans hbetween⟩
    · rw [if_neg hmark]
      exact ⟨.inr ⟨hu, by simpa using hmark⟩, le_rfl, fun v _ h1 h2 => absurd h2 (by omega)⟩

/-- What `get_start_addr` finds from `start` on. -/
structure StartAddr (bits : Nat → BitVec 64) (start a next : Nat) : Prop where
  /-- A unit that is not marked, unless the walk is over. -/
  unit : a ≠ endOfMemory → IsGranUnit a ∧ getBitarray bits a = false ∧ next = getNextAddr a
  ended : a = endOfMemory → next = endOfMemory
  le : start ≤ a
  passed : MarkedBetween bits start a

theorem getStartAddr_spec {bits : Nat → BitVec 64} {start a next : Nat} (hs : WalkAt start)
    (h : getStartAddr bits start = (a, next)) : StartAddr bits start a next := by
  unfold getStartAddr at h
  split_ifs at h with h0
  · cases h
    exact ⟨fun hne => absurd rfl hne, fun _ => rfl, h0.le,
      fun u hu h1 h2 => absurd hu.lt (by subst h0; omega)⟩
  · have hu := hs.resolve_left h0
    obtain ⟨hstop, hle, hbetween⟩ := skipSent_spec bits (2 ^ 20) start hu (by omega)
    simp only at h
    split_ifs at h with hend
    · cases h
      rw [hend] at hle hbetween
      exact ⟨fun hne => absurd rfl hne, fun _ => rfl, hle, hbetween⟩
    · cases h
      have hunit := hstop.resolve_left hend
      exact ⟨fun _ => ⟨hunit.1, hunit.2, rfl⟩, fun he => absurd he hend, hle, hbetween⟩

theorem StartAddr.walkAt {bits : Nat → BitVec 64} {start a next : Nat}
    (h : StartAddr bits start a next) : WalkAt next := by
  by_cases ha : a = endOfMemory
  · exact .inl (h.ended ha)
  · obtain ⟨hu, -, hn⟩ := h.unit ha
    rw [hn]
    exact hu.next

end OnDemandVirt.Migration
