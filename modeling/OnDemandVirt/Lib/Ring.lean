import Mathlib.Data.List.DropRight
import Mathlib.Data.Nat.ModEq
import Mathlib.Logic.Function.Basic

/-!
# Rings of cells

A ring has `size` cells, and its contents are the `len` cells from the offset on, modulo the size.
The offset need not be less than the size. What is written behind the contents or ahead of them is
added to them (`contents_append`, `contents_prepend`); in a full ring the first of them is lost
(`contents_full`).
-/

namespace OnDemandVirt.Lib.Ring

variable {α : Type*} {size off off' len n : Nat} {cells : Nat → α}

/-- The contents, in order. -/
def contents (size : Nat) (cells : Nat → α) (off len : Nat) : List α :=
  (List.range len).map fun i => cells ((off + i) % size)

@[simp] theorem length_contents : (contents size cells off len).length = len := by
  simp [contents]

theorem contents_succ :
    contents size cells off (len + 1) =
      contents size cells off len ++ [cells ((off + len) % size)] := by
  simp [contents, List.range_succ]

theorem contents_cons :
    contents size cells off (len + 1) = cells (off % size) :: contents size cells (off + 1) len := by
  unfold contents
  rw [List.range_succ_eq_map, List.map_cons, List.map_map]
  refine congrArg₂ _ rfl (List.map_congr_left fun i _ => ?_)
  change cells ((off + (i + 1)) % size) = cells ((off + 1 + i) % size)
  rw [Nat.add_comm i 1, Nat.add_assoc]

/-- Only the remainder of the offset counts. -/
theorem contents_congr (h : off % size = off' % size) :
    contents size cells off len = contents size cells off' len := by
  refine List.map_congr_left fun i _ => congrArg cells ?_
  rw [Nat.add_mod, h, ← Nat.add_mod]

/-- Two cells that are less than the size apart are different ones. -/
theorem ne_of_lt {i j : Nat} (hij : i < j) (hj : j < i + size) : i % size ≠ j % size := by
  intro heq
  have hdvd : size ∣ j - i := (Nat.modEq_iff_dvd' (Nat.le_of_lt hij)).mp heq
  have hle := Nat.le_of_dvd (by omega) hdvd
  omega

theorem contents_update {i : Nat} (c : α) (hi : ∀ k < len, (off + k) % size ≠ i) :
    contents size (Function.update cells i c) off len = contents size cells off len :=
  List.map_congr_left fun k hk => Function.update_of_ne (hi k (List.mem_range.mp hk)) ..

/-- A cell behind the contents. -/
theorem contents_append (c : α) (hlen : len < size) :
    contents size (Function.update cells ((off + len) % size) c) off (len + 1) =
      contents size cells off len ++ [c] := by
  rw [contents_succ, Function.update_self,
    contents_update c fun k hk => ne_of_lt (by omega) (by omega)]

/-- A cell ahead of the contents. -/
theorem contents_prepend (c : α) (hlen : len < size) (hoff : (off' + 1) % size = off % size) :
    contents size (Function.update cells (off' % size) c) off' (len + 1) =
      c :: contents size cells off len := by
  rw [contents_cons, Function.update_self, contents_update c fun k hk => ?_, contents_congr hoff]
  exact (ne_of_lt (by omega) (by omega)).symm

/-- The first cell of a full ring becomes the last one. -/
theorem contents_full (c : α) (hoff : off' % size = (off + 1) % size) (hsize : 0 < size) :
    contents size (Function.update cells ((off + size) % size) c) off' size =
      (contents size cells off size).tail ++ [c] := by
  obtain ⟨n, rfl⟩ := Nat.exists_eq_add_of_le' hsize
  have htail : (contents (n + 1) cells off (n + 1)).tail = contents (n + 1) cells (off + 1) n := by
    rw [contents_cons, List.tail_cons]
  rw [contents_congr hoff, htail, show off + (n + 1) = off + 1 + n by omega,
    contents_append c (Nat.lt_succ_self n)]

/-! ### The last part of a list -/

variable {l m : List α}

theorem rtake_of_length_le (h : l.length ≤ n) : l.rtake n = l := by
  rw [List.rtake, Nat.sub_eq_zero_of_le h, List.drop_zero]

theorem length_rtake : (l.rtake n).length = min n l.length := by
  rw [List.rtake, List.length_drop]
  omega

/-- What does not fit of the first list is lost, and then what does not fit of the second. -/
theorem rtake_append : (l ++ m).rtake n = l.rtake (n - m.length) ++ m.rtake n := by
  unfold List.rtake
  rw [List.drop_append, List.length_append]
  rcases Nat.le_total m.length n with h | h
  · rw [show l.length + m.length - n = l.length - (n - m.length) by omega,
      show l.length - (n - m.length) - l.length = m.length - n by omega]
  · rw [List.drop_eq_nil_of_le (show l.length ≤ l.length + m.length - n by omega),
      show l.length + m.length - n - l.length = m.length - n by omega,
      List.drop_eq_nil_of_le (show l.length ≤ l.length - (n - m.length) by omega)]

theorem rtake_rtake_append : (l.rtake n ++ m).rtake n = (l ++ m).rtake n := by
  rw [rtake_append, rtake_append]
  refine congrArg (· ++ _) ?_
  unfold List.rtake
  rw [List.drop_drop, List.length_drop]
  congr 1
  omega

theorem rtake_rtake_append_right : (l ++ m.rtake n).rtake n = (l ++ m).rtake n := by
  have hlen := length_rtake (n := n) (l := m)
  rw [rtake_append, rtake_append]
  refine congrArg₂ (· ++ ·) ?_ (rtake_of_length_le (by omega))
  unfold List.rtake
  congr 1
  rw [← List.rtake, hlen]
  omega

theorem tail_append_rtake (c : α) (h : l.length = n) (hn : 0 < n) :
    l.tail ++ [c] = (l ++ [c]).rtake n := by
  rw [rtake_append, rtake_of_length_le (show [c].length ≤ n from hn), List.rtake, h]
  congr 1
  rw [← List.drop_one]
  congr 1
  simp only [List.length_singleton]
  omega

end OnDemandVirt.Lib.Ring
