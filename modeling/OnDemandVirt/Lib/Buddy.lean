import Mathlib.Logic.Function.Basic
import Mathlib.Tactic.NormNum

/-!
# Buddy blocks

A row of `N` units is tiled by blocks of `2 ^ k` units, `k ≤ M`, each at a multiple of its length.
`head` says which units are first units of blocks, and `order` gives the order of a block at its
head. Elsewhere `order` is that of the block that would begin there had all larger blocks been
split: splitting a block need not set it.
-/

namespace OnDemandVirt.Lib.Buddy

/-- The largest power of two that divides `x` is `2 ^ k`. -/
def ExactPow (k x : Nat) : Prop := 2 ^ k ∣ x ∧ ¬ 2 ^ (k + 1) ∣ x

theorem exactPow_add {n x : Nat} (h : 2 ^ (n + 1) ∣ x) : ExactPow n (x + 2 ^ n) := by
  have hn : 2 ^ n ∣ x := Nat.dvd_trans (Nat.pow_dvd_pow 2 (Nat.le_succ n)) h
  refine ⟨Nat.dvd_add hn (Nat.dvd_refl _), fun hdvd => ?_⟩
  have hle := Nat.le_of_dvd (Nat.two_pow_pos n) ((Nat.dvd_add_right h).mp hdvd)
  rw [Nat.pow_succ] at hle
  have := Nat.two_pow_pos n
  omega

theorem ExactPow.unique {j k x : Nat} (hj : ExactPow j x) (hk : ExactPow k x) : j = k := by
  have lt : ∀ {j k}, ExactPow j x → ExactPow k x → ¬ j < k := fun hj hk hlt =>
    hj.2 (Nat.dvd_trans (Nat.pow_dvd_pow 2 hlt) hk.1)
  have h₁ := lt hj hk
  have h₂ := lt hk hj
  omega

theorem add_le_of_dvd {d x N : Nat} (hx : d ∣ x) (hN : d ∣ N) (hlt : x < N) : x + d ≤ N := by
  obtain ⟨a, rfl⟩ := hx
  obtain ⟨b, rfl⟩ := hN
  have := Nat.mul_le_mul_left d (Nat.lt_of_mul_lt_mul_left hlt)
  rw [Nat.mul_succ] at this
  exact this

/-- Every unit is in exactly one block. -/
structure Tiling (N M : Nat) (head : Nat → Prop) (order : Nat → Nat) : Prop where
  order_le : ∀ x < N, head x → order x ≤ M
  aligned : ∀ x < N, head x → 2 ^ order x ∣ x
  inner : ∀ x < N, head x → ∀ y, x < y → y < x + 2 ^ order x → ¬ head y ∧ ExactPow (order y) y
  covered : ∀ y < N, ∃ x < N, head x ∧ x ≤ y ∧ y < x + 2 ^ order x

namespace Tiling

variable {N M : Nat} {head head' : Nat → Prop} {order order' : Nat → Nat}

/-- A block ends within the row. -/
theorem end_le (h : Tiling N M head order) (hN : 2 ^ M ∣ N) {x : Nat} (hx : x < N)
    (hhead : head x) : x + 2 ^ order x ≤ N :=
  add_le_of_dvd (h.aligned x hx hhead)
    (Nat.dvd_trans (Nat.pow_dvd_pow 2 (h.order_le x hx hhead)) hN) hx

/-- Blocks that have a unit in common are the same. -/
theorem disjoint (h : Tiling N M head order) {x y z : Nat} (hx : x < N) (hy : y < N)
    (hhx : head x) (hhy : head y) (hxz : x ≤ z) (hzx : z < x + 2 ^ order x) (hyz : y ≤ z)
    (hzy : z < y + 2 ^ order y) : x = y := by
  rcases Nat.lt_trichotomy x y with hlt | heq | hlt
  · exact absurd hhy (h.inner x hx hhx y hlt (by omega)).1
  · exact heq
  · exact absurd hhx (h.inner y hy hhy x hlt (by omega)).1

/-- A tiling depends on heads and orders of the row only. -/
theorem congr (h : Tiling N M head order) (hhead : ∀ x, head' x ↔ head x)
    (horder : ∀ x, order' x = order x) : Tiling N M head' order' := by
  have hh : head' = head := funext fun x => propext (hhead x)
  have ho : order' = order := funext horder
  rw [hh, ho]
  exact h

/-- Two blocks of the same order become one. -/
theorem merge (h : Tiling N M head order) {n x : Nat} (hx : x < N) (hy : x + 2 ^ n < N)
    (hhx : head x) (hhy : head (x + 2 ^ n)) (hox : order x = n) (hoy : order (x + 2 ^ n) = n)
    (hdvd : 2 ^ (n + 1) ∣ x) (hn : n < M)
    (hhead : ∀ z, head' z ↔ head z ∧ z ≠ x + 2 ^ n)
    (horder : ∀ z, order' z = if z = x then n + 1 else order z) : Tiling N M head' order' := by
  have hpow : 2 ^ (n + 1) = 2 ^ n + 2 ^ n := by rw [Nat.pow_succ, Nat.mul_two]
  have hpos := Nat.two_pow_pos n
  constructor
  · intro z hz hhz
    rw [horder]
    split_ifs
    · exact hn
    · exact h.order_le z hz ((hhead z).mp hhz).1
  · intro z hz hhz
    rw [horder]
    split_ifs with heq
    · rw [heq]
      exact hdvd
    · exact h.aligned z hz ((hhead z).mp hhz).1
  · intro z hz hhz w hzw hwz
    obtain ⟨hhz, hne⟩ := (hhead z).mp hhz
    rw [horder] at hwz
    rw [hhead, horder]
    -- `w` is not `x`, since no block has a head inside
    split_ifs at hwz with heq
    · subst heq
      rw [if_neg (Nat.ne_of_gt hzw)]
      rcases Nat.lt_trichotomy w (z + 2 ^ n) with hlt | rfl | hlt
      · obtain ⟨hnot, hexact⟩ := h.inner z hz hhz w hzw (by rw [hox]; exact hlt)
        exact ⟨fun hw => hnot hw.1, hexact⟩
      · rw [hoy]
        exact ⟨fun hw => hw.2 rfl, exactPow_add hdvd⟩
      · obtain ⟨hnot, hexact⟩ := h.inner _ hy hhy w hlt (by rw [hoy]; omega)
        exact ⟨fun hw => hnot hw.1, hexact⟩
    · obtain ⟨hnot, hexact⟩ := h.inner z hz hhz w hzw hwz
      have hwx : w ≠ x := fun heq => hnot (heq ▸ hhx)
      rw [if_neg hwx]
      exact ⟨fun hw => hnot hw.1, hexact⟩
  · intro z hz
    obtain ⟨w, hw, hhw, hwz, hzw⟩ := h.covered z hz
    by_cases hwx : w = x ∨ w = x + 2 ^ n
    · refine ⟨x, hx, (hhead x).mpr ⟨hhx, by omega⟩, ?_, ?_⟩
      · omega
      · rw [horder, if_pos rfl]
        rcases hwx with rfl | rfl
        · rw [hox] at hzw
          omega
        · rw [hoy] at hzw
          omega
    · refine ⟨w, hw, (hhead w).mpr ⟨hhw, fun heq => hwx (Or.inr heq)⟩, hwz, ?_⟩
      rw [horder, if_neg fun heq => hwx (Or.inl heq)]
      exact hzw

/-- The second half of a block has the order that a split leaves it with. -/
theorem order_half (h : Tiling N M head order) {n x : Nat} (hx : x < N) (hhx : head x)
    (hox : order x = n + 1) : order (x + 2 ^ n) = n := by
  have hpow : 2 ^ (n + 1) = 2 ^ n + 2 ^ n := by rw [Nat.pow_succ, Nat.mul_two]
  have hpos := Nat.two_pow_pos n
  have hdvd := h.aligned x hx hhx
  obtain ⟨-, hexact⟩ := h.inner x hx hhx (x + 2 ^ n) (by omega) (by rw [hox]; omega)
  rw [hox] at hdvd
  exact hexact.unique (exactPow_add hdvd)

/-- One block becomes two. -/
theorem split (h : Tiling N M head order) (hN : 2 ^ M ∣ N) {n x : Nat} (hx : x < N)
    (hhx : head x) (hox : order x = n + 1) (hhead : ∀ z, head' z ↔ head z ∨ z = x + 2 ^ n)
    (horder : ∀ z, order' z = if z = x then n else order z) : Tiling N M head' order' := by
  have hpow : 2 ^ (n + 1) = 2 ^ n + 2 ^ n := by rw [Nat.pow_succ, Nat.mul_two]
  have hpos := Nat.two_pow_pos n
  have hdvd := h.aligned x hx hhx
  have hle := h.order_le x hx hhx
  have hend := h.end_le hN hx hhx
  have hoy := h.order_half hx hhx hox
  rw [hox] at hdvd hle hend
  have hne : x + 2 ^ n ≠ x := by omega
  constructor
  · intro z hz hhz
    rw [horder]
    rcases (hhead z).mp hhz with hold | rfl
    · split_ifs
      · omega
      · exact h.order_le z hz hold
    · rw [if_neg hne, hoy]
      omega
  · intro z hz hhz
    rw [horder]
    rcases (hhead z).mp hhz with hold | rfl
    · split_ifs with heq
      · rw [heq]
        exact Nat.dvd_trans (Nat.pow_dvd_pow 2 (Nat.le_succ n)) hdvd
      · exact h.aligned z hz hold
    · rw [if_neg hne, hoy]
      exact (exactPow_add hdvd).1
  · intro z hz hhz w hzw hwz
    rw [horder] at hwz
    rw [hhead, horder]
    -- the units inside the halves are inside the block, and no half begins there
    rcases (hhead z).mp hhz with hold | rfl
    · split_ifs at hwz with heq
      · subst heq
        obtain ⟨hnot, hexact⟩ := h.inner z hz hold w hzw (by rw [hox]; omega)
        rw [if_neg (Nat.ne_of_gt hzw)]
        exact ⟨fun hw => hw.elim hnot (by omega), hexact⟩
      · obtain ⟨hnot, hexact⟩ := h.inner z hz hold w hzw hwz
        have hwx : w ≠ x := fun heq => hnot (heq ▸ hhx)
        rw [if_neg hwx]
        refine ⟨fun hw => hw.elim hnot fun hwy => heq ?_, hexact⟩
        exact h.disjoint hz hx hold hhx (Nat.le_of_lt hzw) hwz (by omega) (by rw [hox]; omega)
    · rw [if_neg hne, hoy] at hwz
      obtain ⟨hnot, hexact⟩ := h.inner x hx hhx w (by omega) (by rw [hox]; omega)
      rw [if_neg (by omega)]
      exact ⟨fun hw => hw.elim hnot (by omega), hexact⟩
  · intro z hz
    obtain ⟨w, hw, hhw, hwz, hzw⟩ := h.covered z hz
    by_cases hwx : w = x
    · subst hwx
      rw [hox] at hzw
      rcases Nat.lt_or_ge z (w + 2 ^ n) with hlt | hge
      · exact ⟨w, hw, (hhead w).mpr (Or.inl hhw), hwz, by rw [horder, if_pos rfl]; exact hlt⟩
      · refine ⟨w + 2 ^ n, by omega, (hhead _).mpr (Or.inr rfl), hge, ?_⟩
        rw [horder, if_neg hne, hoy]
        omega
    · refine ⟨w, hw, (hhead w).mpr (Or.inl hhw), hwz, ?_⟩
      rw [horder, if_neg hwx]
      exact hzw

end Tiling

end OnDemandVirt.Lib.Buddy
