import Mathlib.Data.Nat.Bitwise
import Mathlib.Tactic.Common

/-!
# The low part of a word

A part of a register is read and written through the low `n` bits of the whole register. Reading is
the remainder by `2 ^ n`; writing leaves the other bits as they are.
-/

namespace OnDemandVirt.Lib.LowBits

variable {w : Nat}

/-- The mask of the low `n` bits. -/
def mask (w n : Nat) : BitVec w := BitVec.ofNat w (2 ^ n - 1)

/-- The low `n` bits. -/
def low (n : Nat) (x : BitVec w) : BitVec w := x &&& mask w n

/-- `x` with the low `n` bits of `d`. -/
def setLow (n : Nat) (x d : BitVec w) : BitVec w := (x &&& ~~~mask w n) ||| (d &&& mask w n)

theorem toNat_mask {n : Nat} (h : n ≤ w) : (mask w n).toNat = 2 ^ n - 1 := by
  have hle : 2 ^ n ≤ 2 ^ w := Nat.pow_le_pow_right (by decide) h
  have hpos : 0 < 2 ^ n := Nat.two_pow_pos n
  rw [mask, BitVec.toNat_ofNat, Nat.mod_eq_of_lt (by omega)]

theorem toNat_low {n : Nat} (h : n ≤ w) (x : BitVec w) : (low n x).toNat = x.toNat % 2 ^ n := by
  rw [low, BitVec.toNat_and, toNat_mask h, Nat.and_two_pow_sub_one_eq_mod]

theorem toNat_low_lt {n : Nat} (h : n ≤ w) (x : BitVec w) : (low n x).toNat < 2 ^ n := by
  rw [toNat_low h]
  exact Nat.mod_lt _ (Nat.two_pow_pos n)

theorem low_low (n : Nat) (x : BitVec w) : low n (low n x) = low n x := by
  rw [low, low, BitVec.and_assoc, BitVec.and_self]

/-- Reading back what was written. -/
theorem low_setLow (n : Nat) (x d : BitVec w) : low n (setLow n x d) = low n d := by
  ext i hi
  simp only [low, setLow, BitVec.getElem_and, BitVec.getElem_or, BitVec.getElem_not]
  cases (mask w n)[i] <;> simp

theorem low_of_lt {n : Nat} (h : n ≤ w) {x : BitVec w} (hx : x.toNat < 2 ^ n) : low n x = x := by
  apply BitVec.eq_of_toNat_eq
  rw [toNat_low h, Nat.mod_eq_of_lt hx]

/-- The written word as a sum of the part that stays and the part that is written. -/
theorem setLow_eq_add (n : Nat) (x d : BitVec w) : setLow n x d = (x &&& ~~~mask w n) + low n d := by
  rw [setLow, low, BitVec.add_eq_or_of_and_eq_zero]
  ext i hi
  simp only [BitVec.getElem_and, BitVec.getElem_not, BitVec.getElem_zero]
  cases (mask w n)[i] <;> simp

theorem setLow_low (n : Nat) (x : BitVec w) : setLow n x (low n x) = x := by
  ext i hi
  simp only [low, setLow, BitVec.getElem_and, BitVec.getElem_or, BitVec.getElem_not]
  cases (mask w n)[i] <;> simp

/-- The word without its low bits. -/
theorem toNat_clear {n : Nat} (h : n ≤ w) (x : BitVec w) :
    (x &&& ~~~mask w n).toNat = x.toNat - x.toNat % 2 ^ n := by
  have hand : (x &&& ~~~mask w n) &&& low n x = 0#w := by
    ext i hi
    simp only [low, BitVec.getElem_and, BitVec.getElem_not, BitVec.getElem_zero]
    cases (mask w n)[i] <;> simp
  have hsum : (x &&& ~~~mask w n) + low n x = x := by
    have := setLow_low n x
    rwa [setLow_eq_add, low_low] at this
  have hnat := BitVec.toNat_add_of_and_eq_zero hand
  rw [hsum, toNat_low h] at hnat
  omega

theorem low_add {n : Nat} (h : n ≤ w) {x x' y y' : BitVec w} (hx : low n x = low n x')
    (hy : low n y = low n y') : low n (x + y) = low n (x' + y') := by
  have hdvd : 2 ^ n ∣ 2 ^ w := Nat.pow_dvd_pow 2 h
  have hxn := congrArg BitVec.toNat hx
  have hyn := congrArg BitVec.toNat hy
  rw [toNat_low h, toNat_low h] at hxn hyn
  apply BitVec.eq_of_toNat_eq
  rw [toNat_low h, toNat_low h, BitVec.toNat_add, BitVec.toNat_add, Nat.mod_mod_of_dvd _ hdvd,
    Nat.mod_mod_of_dvd _ hdvd, Nat.add_mod, hxn, hyn, ← Nat.add_mod]

variable {n k : Nat} {x : BitVec w}

theorem toNat_sub_ofNat (hk : k ≤ x.toNat) : (x - BitVec.ofNat w k).toNat = x.toNat - k := by
  have hlt := x.isLt
  have hkw : (BitVec.ofNat w k).toNat = k := by
    rw [BitVec.toNat_ofNat, Nat.mod_eq_of_lt (by omega)]
  rw [BitVec.toNat_sub_of_le (by rw [BitVec.le_def, hkw]; exact hk), hkw]

/-- A count that is at least `k` goes down by `k` without a borrow. -/
theorem setLow_sub (h : n ≤ w) (hk : k ≤ (low n x).toNat) :
    setLow n x (low n x - BitVec.ofNat w k) = x - BitVec.ofNat w k := by
  have hlt := toNat_low_lt h x
  have hd : low n (low n x - BitVec.ofNat w k) = low n x - BitVec.ofNat w k :=
    low_of_lt h (by rw [toNat_sub_ofNat hk]; omega)
  have hx := setLow_low n x
  rw [setLow_eq_add, low_low] at hx
  rw [setLow_eq_add, hd, BitVec.sub_eq_add_neg, ← BitVec.add_assoc, hx, ← BitVec.sub_eq_add_neg]

theorem toNat_low_sub (h : n ≤ w) (hk : k ≤ (low n x).toNat) :
    (low n (x - BitVec.ofNat w k)).toNat = (low n x).toNat - k := by
  rw [← setLow_sub h hk, low_setLow, ← toNat_sub_ofNat hk, toNat_low h, Nat.mod_eq_of_lt]
  have := toNat_low_lt h x
  rw [toNat_sub_ofNat hk]
  omega

/-- The low part tells a word from the next one. -/
theorem low_add_one_ne (hn : 0 < n) (h : n ≤ w) : low n (x + BitVec.ofNat w 1) ≠ low n x := by
  intro heq
  have hdiff := low_add h heq (rfl : low n (-x) = low n (-x))
  rw [BitVec.add_comm x, BitVec.add_assoc, BitVec.add_right_neg, BitVec.add_zero] at hdiff
  have hnat := congrArg BitVec.toNat hdiff
  rw [toNat_low h, toNat_low h, BitVec.toNat_ofNat, BitVec.toNat_zero, Nat.zero_mod,
    Nat.mod_mod_of_dvd _ (Nat.pow_dvd_pow 2 h), Nat.mod_eq_of_lt (Nat.one_lt_two_pow (by omega))]
    at hnat
  exact absurd hnat (by decide)

end OnDemandVirt.Lib.LowBits
