import Mathlib.Data.List.Perm.Basic
import Mathlib.Algebra.BigOperators.Group.List.Basic
import Mathlib.Algebra.GroupWithZero.Nat

/-!
# Segments that tile a block

A row of segments that are not empty runs from one end of a block to the other. A collection of
segments tiles the block if it is such a row in some order; segments that tile a block are disjoint,
and two that touch can be made one.
-/

namespace OnDemandVirt.Lib

structure Segment where
  off : Nat
  len : Nat
  deriving DecidableEq

namespace Segment

/-- Where a segment ends. -/
def stop (s : Segment) : Nat := s.off + s.len

/-- A row of segments from one place to another. -/
def Row : Nat → List Segment → Nat → Prop
  | a, [], b => a = b
  | a, s :: l, b => s.off = a ∧ 0 < s.len ∧ Row s.stop l b

/-- The segments are a row in some order. -/
def Tiles (l : List Segment) (n : Nat) : Prop := ∃ r, r.Perm l ∧ Row 0 r n

variable {a b n : Nat} {l m : List Segment} {s x y : Segment}

theorem row_append : Row a (l ++ m) b ↔ ∃ c, Row a l c ∧ Row c m b := by
  induction l generalizing a with
  | nil => simp [Row]
  | cons s l ih =>
    simp only [List.cons_append, Row, ih]
    constructor
    · rintro ⟨hoff, hlen, c, hl, hm⟩
      exact ⟨c, ⟨hoff, hlen, hl⟩, hm⟩
    · rintro ⟨c, ⟨hoff, hlen, hl⟩, hm⟩
      exact ⟨hoff, hlen, c, hl, hm⟩

theorem Row.bounds (h : Row a l b) :
    a ≤ b ∧ ∀ s ∈ l, a ≤ s.off ∧ s.stop ≤ b ∧ 0 < s.len := by
  induction l generalizing a with
  | nil => exact ⟨Nat.le_of_eq h, fun s hs => absurd hs List.not_mem_nil⟩
  | cons t l ih =>
    obtain ⟨hoff, hlen, hrow⟩ := h
    obtain ⟨hle, hall⟩ := ih hrow
    have hstop : t.stop = t.off + t.len := rfl
    refine ⟨by omega, fun s hs => ?_⟩
    rcases List.mem_cons.mp hs with rfl | hs
    · exact ⟨by omega, hle, hlen⟩
    · obtain ⟨hl, hr, hpos⟩ := hall s hs
      exact ⟨by omega, hr, hpos⟩

theorem Row.sum (h : Row a l b) : a + (l.map len).sum = b := by
  induction l generalizing a with
  | nil => exact h
  | cons t l ih =>
    obtain ⟨hoff, -, hrow⟩ := h
    have := ih hrow
    rw [List.map_cons, List.sum_cons]
    unfold stop at this
    omega

/-- Earlier segments end before later ones begin. -/
theorem Row.pairwise (h : Row a l b) : l.Pairwise fun s t => s.stop ≤ t.off := by
  induction l generalizing a with
  | nil => exact List.Pairwise.nil
  | cons t l ih =>
    obtain ⟨-, -, hrow⟩ := h
    exact List.pairwise_cons.mpr ⟨fun s hs => (hrow.bounds.2 s hs).1, ih hrow⟩

theorem Tiles.perm (h : Tiles l n) (hp : l.Perm m) : Tiles m n := by
  obtain ⟨r, hr, hrow⟩ := h
  exact ⟨r, hr.trans hp, hrow⟩

theorem tiles_single (hn : 0 < n) : Tiles [⟨0, n⟩] n :=
  ⟨[⟨0, n⟩], List.Perm.refl _, rfl, hn, Nat.zero_add n⟩

theorem Tiles.bounds (h : Tiles l n) : ∀ s ∈ l, s.stop ≤ n ∧ 0 < s.len := by
  obtain ⟨r, hr, hrow⟩ := h
  exact fun s hs => (hrow.bounds.2 s (hr.mem_iff.mpr hs)).2

theorem Tiles.sum (h : Tiles l n) : (l.map len).sum = n := by
  obtain ⟨r, hr, hrow⟩ := h
  rw [← (hr.map len).sum_eq, ← hrow.sum, Nat.zero_add]

/-- Segments that tile a block are disjoint. -/
theorem Tiles.pairwise (h : Tiles l n) :
    l.Pairwise fun s t => s.stop ≤ t.off ∨ t.stop ≤ s.off := by
  obtain ⟨r, hr, hrow⟩ := h
  refine (hr.pairwise_iff fun hst => hst.symm).1 ?_
  exact hrow.pairwise.imp Or.inl

/-- A segment as long as the block is the only one. -/
theorem Tiles.eq_of_whole (h : Tiles (s :: l) n) (hs : s.len = n) : s = ⟨0, n⟩ ∧ l = [] := by
  have hsum := h.sum
  rw [List.map_cons, List.sum_cons, hs] at hsum
  obtain ⟨hstop, -⟩ := h.bounds s List.mem_cons_self
  have hl : l = [] := by
    cases l with
    | nil => rfl
    | cons t l =>
      have hpos := (h.bounds t (List.mem_cons_of_mem s List.mem_cons_self)).2
      rw [List.map_cons, List.sum_cons] at hsum
      omega
  refine ⟨?_, hl⟩
  cases s with
  | mk off len =>
    have hlen : len = n := hs
    have hend : off + len ≤ n := hstop
    rw [hlen, show off = 0 by omega]

/-- Where no two segments touch, there is only one. -/
theorem Tiles.eq_single (h : Tiles l n) (hn : 0 < n) (happ : ∀ x ∈ l, ∀ y ∈ l, x.stop ≠ y.off) :
    l = [⟨0, n⟩] := by
  obtain ⟨r, hr, hrow⟩ := h
  cases r with
  | nil => exact absurd hrow (Nat.ne_of_lt hn)
  | cons s r =>
    cases r with
    | nil =>
      obtain ⟨heq, -⟩ := Tiles.eq_of_whole (l := []) ⟨[s], List.Perm.refl _, hrow⟩ (by
        simpa using hrow.sum)
      exact (List.perm_singleton.mp hr.symm).trans (by rw [heq])
    | cons t r =>
      obtain ⟨-, -, ht, -⟩ := hrow
      have hs : s ∈ l := hr.mem_iff.mp List.mem_cons_self
      have ht' : t ∈ l := hr.mem_iff.mp (List.mem_cons_of_mem _ List.mem_cons_self)
      exact absurd ht.symm (happ s hs t ht')

/-- Two segments that touch can be made one. -/
theorem Tiles.merge (h : Tiles (x :: y :: l) n) (hxy : x.stop = y.off) :
    Tiles (⟨x.off, x.len + y.len⟩ :: l) n := by
  obtain ⟨r, hr, hrow⟩ := h
  obtain ⟨r₁, r₂, rfl⟩ := List.append_of_mem (hr.mem_iff.mpr List.mem_cons_self)
  have hrest : (r₁ ++ r₂).Perm (y :: l) := by
    have hmiddle : (r₁ ++ x :: r₂).Perm (x :: (r₁ ++ r₂)) := List.perm_middle
    exact List.Perm.cons_inv (hmiddle.symm.trans hr)
  obtain ⟨c, hrow₁, hoff, hlen, hrow₂⟩ := row_append.1 hrow
  have hy : 0 < y.len := by
    refine (Tiles.bounds ⟨_, hr, hrow⟩ y ?_).2
    exact List.mem_cons_of_mem _ List.mem_cons_self
  -- the segment after `x` is `y`
  rcases List.mem_append.mp (hrest.mem_iff.mpr List.mem_cons_self) with hmem | hmem
  · have hle := (hrow₁.bounds.2 y hmem).2.1
    unfold stop at hle hxy
    omega
  · cases r₂ with
    | nil => exact absurd hmem List.not_mem_nil
    | cons z r₃ =>
      obtain ⟨hz, hzlen, hrow₃⟩ := hrow₂
      have hyz : y = z := by
        rcases List.mem_cons.mp hmem with heq | hmem
        · exact heq
        · have hle := (hrow₃.bounds.2 y hmem).1
          unfold stop at hle hxy hz
          omega
      subst hyz
      refine ⟨r₁ ++ ⟨x.off, x.len + y.len⟩ :: r₃, ?_, row_append.2 ⟨c, hrow₁, hoff, ?_, ?_⟩⟩
      · refine List.perm_middle.trans (List.Perm.cons _ ?_)
        exact List.Perm.cons_inv (List.perm_middle.symm.trans hrest)
      · exact Nat.lt_of_lt_of_le hlen (Nat.le_add_right _ _)
      · have hstop : (Segment.mk x.off (x.len + y.len)).stop = y.stop := by
          unfold stop at hxy ⊢
          dsimp only
          omega
        rw [hstop]
        exact hrow₃

end Segment

end OnDemandVirt.Lib
