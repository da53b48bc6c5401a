import Mathlib.Logic.Function.Basic

/-!
# Tables of slots that are scanned by counting

A table has slots that are empty or hold something. A scan that counts the slots that hold
something, and ends when it has seen as many as there are, sees all of them, provided that its
count is right whenever it goes on. `countBelow t k` is the count that is right at slot `k`.
-/

namespace OnDemandVirt.Lib.Slots

variable {n : Nat} {α : Type*}

/-- What slot `k` holds; there is nothing past the end of the table. -/
def at? (t : Fin n → Option α) (k : Nat) : Option α := if h : k < n then t ⟨k, h⟩ else none

/-- How many of the slots below `k` hold something. -/
def countBelow (t : Fin n → Option α) : Nat → Nat
  | 0 => 0
  | k + 1 => countBelow t k + if (at? t k).isSome then 1 else 0

/-- How many slots hold something. -/
def count (t : Fin n → Option α) : Nat := countBelow t n

variable {t : Fin n → Option α} {i j : Fin n} {k l : Nat} {x : α}

@[simp] theorem at?_val : at? t i.val = t i := dif_pos i.isLt

theorem countBelow_succ_val : countBelow t (i.val + 1) =
    countBelow t i.val + if (t i).isSome then 1 else 0 := by
  rw [countBelow, at?_val]

theorem countBelow_mono (h : k ≤ l) : countBelow t k ≤ countBelow t l := by
  induction h with
  | refl => exact Nat.le_refl _
  | step _ ih => exact Nat.le_trans ih (Nat.le_add_right _ _)

/-- Past a slot that holds something the count is larger. -/
theorem countBelow_lt_count (hi : k ≤ i.val) (h : t i = some x) : countBelow t k < count t := by
  have hstep : countBelow t (i.val + 1) = countBelow t i.val + 1 := by
    rw [countBelow_succ_val, h]
    rfl
  have hle := countBelow_mono (t := t) hi
  have htop : countBelow t (i.val + 1) ≤ countBelow t n := countBelow_mono i.isLt
  unfold count
  omega

theorem countBelow_update_of_le (h : k ≤ i.val) (y : Option α) :
    countBelow (Function.update t i y) k = countBelow t k := by
  induction k with
  | zero => rfl
  | succ k ih =>
    have hk : k < n := Nat.lt_trans (Nat.lt_of_succ_le h) i.isLt
    have hne : (⟨k, hk⟩ : Fin n) ≠ i := fun he => by
      subst he
      exact absurd h (Nat.not_succ_le_self k)
    have hat : at? (Function.update t i y) k = at? t k := by
      unfold at?
      rw [dif_pos hk, dif_pos hk, Function.update_of_ne hne]
    rw [countBelow, countBelow, ih (Nat.le_of_succ_le h), hat]

/-- A slot that changes counts in all counts past it. -/
theorem countBelow_update (h : i.val < k) (y : Option α) :
    countBelow (Function.update t i y) k + (if (t i).isSome then 1 else 0) =
      countBelow t k + if y.isSome then 1 else 0 := by
  induction k with
  | zero => exact absurd h (Nat.not_lt_zero _)
  | succ k ih =>
    rcases Nat.eq_or_lt_of_le (Nat.le_of_lt_succ h) with rfl | hlt
    · rw [countBelow_succ_val, countBelow_succ_val, countBelow_update_of_le (Nat.le_refl _),
        Function.update_self]
      omega
    · have hat : at? (Function.update t i y) k = at? t k := by
        unfold at?
        split
        next hk =>
          exact Function.update_of_ne (fun he => absurd (congrArg Fin.val he) (Nat.ne_of_gt hlt)) ..
        next => rfl
      have hk := ih hlt
      rw [countBelow, countBelow, hat]
      omega

theorem count_fill (h : t i = none) (x : α) :
    count (Function.update t i (some x)) = count t + 1 := by
  have hup := countBelow_update (t := t) i.isLt (some x)
  rw [h] at hup
  exact hup

theorem count_empty (h : t i = some x) : count (Function.update t i none) + 1 = count t := by
  have hup := countBelow_update (t := t) i.isLt none
  rw [h] at hup
  exact hup

end OnDemandVirt.Lib.Slots
