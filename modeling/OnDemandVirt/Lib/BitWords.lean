import Mathlib.Data.Nat.Bitwise
import Mathlib.Logic.Function.Basic

/-!
# Bit arrays kept in machine words

An array of words, the bit `n` of which is bit `n % w` of word `n / w`. Reading a bit is a shift
and a mask, setting one is an or with a shifted one, as C programs write them; `test_set` is all
that a client of the array needs to know.
-/

namespace OnDemandVirt.Lib.BitWords

variable {w : Nat}

/-- `(a[pos] >> k) & 1`. -/
def test (a : Nat → BitVec w) (pos k : Nat) : Bool := ((a pos >>> k) &&& 1#w) == 1#w

/-- `a[pos] |= 1 << k`. -/
def set (a : Nat → BitVec w) (pos k : Nat) : Nat → BitVec w :=
  Function.update a pos (a pos ||| (1#w <<< k))

theorem test_eq_getLsbD (a : Nat → BitVec w) (pos k : Nat) (hk : k < w) :
    test a pos k = (a pos).getLsbD k := by
  have hw : 0 < w := by omega
  rw [Bool.eq_iff_iff, test, beq_iff_eq]
  constructor
  · intro h
    have := congrArg (fun x => x.getLsbD 0) h
    simpa [hw] using this
  · intro h
    apply BitVec.eq_of_getLsbD_eq
    intro i hi
    rcases Nat.eq_zero_or_pos i with rfl | hpos
    · simp [h, hw]
    · simp [show i ≠ 0 by omega]

theorem test_zero (pos k : Nat) (hk : k < w) : test (fun _ => 0#w) pos k = false := by
  rw [test_eq_getLsbD _ _ _ hk]
  simp

/-- Setting one bit leaves every other bit as it is. -/
theorem test_set (a : Nat → BitVec w) (pos k pos' k' : Nat) (hk : k < w) (hk' : k' < w) :
    test (set a pos k) pos' k' = (decide (pos' = pos ∧ k' = k) || test a pos' k') := by
  rw [test_eq_getLsbD _ _ _ hk', test_eq_getLsbD _ _ _ hk', set]
  by_cases hpos : pos' = pos
  · subst hpos
    rw [Function.update_self, BitVec.getLsbD_or, Bool.or_comm]
    congr 1
    rw [BitVec.getLsbD_shiftLeft]
    by_cases hkk : k' = k
    · subst hkk
      simp [hk', show 0 < w by omega]
    · simp [hkk, hk', BitVec.getLsbD_one]
      omega
  · simp [hpos]

end OnDemandVirt.Lib.BitWords
