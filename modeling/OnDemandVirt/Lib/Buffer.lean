import Mathlib.Data.List.Basic
import Mathlib.Logic.Function.Basic

/-!
# A buffer that is written through two pointers

A buffer seen through a pointer to 64-bit words and through one to 16-bit words at the same
address, little-endian. A list of stores with pairwise separate footprints leaves every one of
its values in the buffer (`loadLong_storeAll`, `loadShort_storeAll`).
-/

namespace OnDemandVirt.Lib

/-- A buffer, by 16-bit cell. -/
abbrev Buf := Nat → BitVec 16

/-- A store through the long pointer or through the short one, with its index there. -/
inductive Store
  | long (i : Nat) (v : BitVec 64)
  | short (i : Nat) (v : BitVec 16)

namespace Buf

/-- `*((unsigned short *)buf + i)`. -/
def loadShort (b : Buf) (i : Nat) : BitVec 16 := b i

/-- `*((unsigned long *)buf + i)`. -/
def loadLong (b : Buf) (i : Nat) : BitVec 64 :=
  b (4 * i + 3) ++ b (4 * i + 2) ++ b (4 * i + 1) ++ b (4 * i)

/-- One store. -/
def store (b : Buf) : Store → Buf
  | .long i v => fun k => if k / 4 = i then v.extractLsb' (16 * (k % 4)) 16 else b k
  | .short i v => Function.update b i v

/-- The stores, in order. -/
def storeAll (l : List Store) (b : Buf) : Buf := l.foldl store b

end Buf

/-- The first cell and the number of cells a store writes. -/
def Store.footprint : Store → Nat × Nat
  | .long i _ => (4 * i, 4)
  | .short i _ => (i, 1)

/-- The footprints have no cell in common. -/
def Apart (p q : Nat × Nat) : Prop := p.1 + p.2 ≤ q.1 ∨ q.1 + q.2 ≤ p.1

instance (p q : Nat × Nat) : Decidable (Apart p q) := inferInstanceAs (Decidable (_ ∨ _))

namespace Buf

/-- A store changes nothing outside its footprint. -/
theorem store_of_outside (b : Buf) (s : Store) {k : Nat}
    (h : k < s.footprint.1 ∨ s.footprint.1 + s.footprint.2 ≤ k) : b.store s k = b k := by
  cases s with
  | long i v =>
    simp only [Store.footprint] at h
    simp only [store]
    rw [if_neg (by omega)]
  | short i v =>
    simp only [Store.footprint] at h
    exact Function.update_of_ne (by omega) _ _

theorem storeAll_of_outside (l : List Store) (b : Buf) {k : Nat}
    (h : ∀ s ∈ l, k < s.footprint.1 ∨ s.footprint.1 + s.footprint.2 ≤ k) :
    storeAll l b k = b k := by
  induction l generalizing b with
  | nil => rfl
  | cons s l ih =>
    rw [storeAll, List.foldl_cons, ← storeAll, ih _ fun s' hs' => h s' (by simp [hs'])]
    exact store_of_outside b s (h s (by simp))

theorem loadLong_store (b : Buf) (i : Nat) (v : BitVec 64) :
    (b.store (.long i v)).loadLong i = v := by
  have h3 : (4 * i + 3) / 4 = i := by omega
  have h2 : (4 * i + 2) / 4 = i := by omega
  have h1 : (4 * i + 1) / 4 = i := by omega
  have h0 : 4 * i / 4 = i := by omega
  simp only [loadLong, store, h3, h2, h1, h0, if_true, Nat.mul_add_mod, Nat.mul_mod_right]
  apply BitVec.eq_of_getLsbD_eq
  intro k hk
  simp only [BitVec.getLsbD_append, BitVec.getLsbD_extractLsb']
  split_ifs with c0 c1 c2
  · simp [c0]
  · simp only [c1, decide_true, Bool.true_and]
    congr 1
    omega
  · simp only [c2, decide_true, Bool.true_and]
    congr 1
    omega
  · simp only [show k - 16 - 16 - 16 < 16 by omega, decide_true, Bool.true_and]
    congr 1
    omega

/-- The value of a store is in the buffer after the later stores too. -/
theorem storeAll_cell {l : List Store} {s : Store} (hs : s ∈ l)
    (hl : (l.map Store.footprint).Pairwise Apart) (b : Buf) {k : Nat}
    (hk : s.footprint.1 ≤ k ∧ k < s.footprint.1 + s.footprint.2) :
    ∃ b' : Buf, storeAll l b k = b'.store s k := by
  induction l generalizing b with
  | nil => cases hs
  | cons t l ih =>
    rw [List.map_cons, List.pairwise_cons] at hl
    rcases List.mem_cons.mp hs with rfl | hs
    · refine ⟨b, ?_⟩
      rw [storeAll, List.foldl_cons, ← storeAll]
      refine storeAll_of_outside l _ fun t ht => ?_
      have := hl.1 _ (List.mem_map_of_mem ht)
      unfold Apart at this
      omega
    · rw [storeAll, List.foldl_cons, ← storeAll]
      exact ih hs hl.2 _

theorem loadShort_storeAll {l : List Store} {i : Nat} {v : BitVec 16} (hs : .short i v ∈ l)
    (hl : (l.map Store.footprint).Pairwise Apart) (b : Buf) : (storeAll l b).loadShort i = v := by
  obtain ⟨b', hb'⟩ := storeAll_cell hs hl b (k := i) ⟨Nat.le_refl _, Nat.lt_succ_self i⟩
  rw [loadShort, hb']
  exact Function.update_self _ _ _

theorem loadLong_storeAll {l : List Store} {i : Nat} {v : BitVec 64} (hs : .long i v ∈ l)
    (hl : (l.map Store.footprint).Pairwise Apart) (b : Buf) : (storeAll l b).loadLong i = v := by
  have cell : ∀ k, 4 * i ≤ k ∧ k < 4 * i + 4 → storeAll l b k = b.store (.long i v) k := by
    intro k hk
    obtain ⟨b', hb'⟩ := storeAll_cell hs hl b hk
    rw [hb']
    simp only [store]
    rw [if_pos (by omega), if_pos (by omega)]
  rw [loadLong, cell _ (by omega), cell _ (by omega), cell _ (by omega), cell _ (by omega)]
  exact loadLong_store b i v

/-- The value the first store to the long `i` writes. -/
def longAt : List Store → Nat → Option (BitVec 64)
  | [], _ => none
  | .long j v :: l, i => if j = i then some v else longAt l i
  | .short _ _ :: l, i => longAt l i

/-- The value the first store to the short `i` writes. -/
def shortAt : List Store → Nat → Option (BitVec 16)
  | [], _ => none
  | .long _ _ :: l, i => shortAt l i
  | .short j v :: l, i => if j = i then some v else shortAt l i

theorem mem_of_longAt {l : List Store} {i : Nat} {v : BitVec 64} (h : longAt l i = some v) :
    .long i v ∈ l := by
  induction l with
  | nil => cases h
  | cons s l ih =>
    cases s with
    | long j w =>
      rw [longAt] at h
      split_ifs at h with hj
      · cases h
        subst hj
        exact List.mem_cons_self
      · exact List.mem_cons_of_mem _ (ih h)
    | short j w => exact List.mem_cons_of_mem _ (ih h)

theorem mem_of_shortAt {l : List Store} {i : Nat} {v : BitVec 16} (h : shortAt l i = some v) :
    .short i v ∈ l := by
  induction l with
  | nil => cases h
  | cons s l ih =>
    cases s with
    | long j w => exact List.mem_cons_of_mem _ (ih h)
    | short j w =>
      rw [shortAt] at h
      split_ifs at h with hj
      · cases h
        subst hj
        exact List.mem_cons_self
      · exact List.mem_cons_of_mem _ (ih h)

end Buf

end OnDemandVirt.Lib
