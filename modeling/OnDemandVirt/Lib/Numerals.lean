import Mathlib.Algebra.GroupWithZero.Nat

/-!
# Numerals of the types that tables are indexed by

`Fin n` has numerals where `n` is not 0. For the sizes that registers, ports and descriptors come in
this is said here once.
-/

namespace OnDemandVirt.Lib

instance neZero_eight : NeZero 8 := ⟨Nat.succ_ne_zero 7⟩

instance neZero_sixteen : NeZero 16 := ⟨Nat.succ_ne_zero 15⟩

instance neZero_thirtyTwo : NeZero 32 := ⟨Nat.succ_ne_zero 31⟩

instance neZero_byte : NeZero 256 := ⟨Nat.succ_ne_zero 255⟩

end OnDemandVirt.Lib
