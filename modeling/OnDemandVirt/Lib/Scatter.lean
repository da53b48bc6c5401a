import OnDemandVirt.Lib.Memory
import Mathlib.Algebra.GroupWithZero.Nat

/-!
# Scatter lists

A scatter list names buffers in memory, each by its address and length. `gather` puts their bytes
one after another, `scatter` cuts a string of bytes at their boundaries and stores the pieces, in
the order of the list.
-/

namespace OnDemandVirt.Lib

/-- The address and the length of each buffer. -/
abbrev ScatterList := List (Nat × Nat)

namespace ScatterList

/-- The bytes of the whole list. -/
def len (sg : ScatterList) : Nat := (sg.map Prod.snd).sum

@[simp] theorem len_nil : len [] = 0 := rfl

@[simp] theorem len_cons (a n : Nat) (sg : ScatterList) : len ((a, n) :: sg) = n + len sg :=
  List.sum_cons

@[simp] theorem len_append (sg sg' : ScatterList) : len (sg ++ sg') = len sg + len sg' := by
  rw [len, List.map_append, List.sum_append]
  rfl

/-- The bytes of the buffers. -/
def gather (m : ByteMem) : ScatterList → List (BitVec 8)
  | [] => []
  | (a, n) :: sg => m.read a n ++ gather m sg

theorem length_gather (m : ByteMem) (sg : ScatterList) : (gather m sg).length = sg.len := by
  induction sg with
  | nil => rfl
  | cons b sg ih => rw [gather, List.length_append, ByteMem.length_read, ih, len_cons]

/-- Storing the pieces of `bs`. -/
def scatter : ScatterList → List (BitVec 8) → ByteMem → ByteMem
  | [], _, m => m
  | (a, n) :: sg, bs, m => scatter sg (bs.drop n) (m.write a (bs.take n))

/-- A block that has no byte in common with a buffer. -/
def Apart (a n : Nat) (b : Nat × Nat) : Prop := a + n ≤ b.1 ∨ b.1 + b.2 ≤ a

theorem read_scatter_of_apart {a n : Nat} (sg : ScatterList) (h : ∀ b ∈ sg, Apart a n b)
    (bs : List (BitVec 8)) (m : ByteMem) : (scatter sg bs m).read a n = m.read a n := by
  induction sg generalizing bs m with
  | nil => rfl
  | cons b sg ih =>
    have hlen : (bs.take b.2).length ≤ b.2 := List.length_take_le _ _
    rw [scatter, ih (fun c hc => h c (List.mem_cons_of_mem _ hc))]
    refine ByteMem.read_write_of_disjoint _ _ _ _ _ ?_
    rcases h b List.mem_cons_self with hb | hb
    · exact .inl hb
    · exact .inr (by omega)

/-- A buffer that no later buffer overlaps holds its piece. -/
theorem read_scatter {a n : Nat} (pre post : ScatterList) (hpost : ∀ b ∈ post, Apart a n b)
    (bs : List (BitVec 8)) (hlen : len (pre ++ (a, n) :: post) ≤ bs.length) (m : ByteMem) :
    (scatter (pre ++ (a, n) :: post) bs m).read a n = (bs.drop pre.len).take n := by
  induction pre generalizing bs m with
  | nil =>
    rw [List.nil_append, len_cons] at hlen
    rw [List.nil_append, scatter, read_scatter_of_apart _ hpost]
    exact ByteMem.read_write_all _ _ _ _ (List.length_take_of_le (by omega))
  | cons b pre ih =>
    rw [List.cons_append, len_cons] at hlen
    rw [List.cons_append, scatter, ih _ (by rw [List.length_drop]; omega), List.drop_drop, len_cons]

end ScatterList

end OnDemandVirt.Lib
