import Mathlib.Logic.Function.Basic
import Mathlib.Tactic.NormNum

/-!
# Four-level paging

Tables of 512 eight-byte entries in physical memory, the walk of a virtual address through them
and the addresses a slot of the topmost table stands for. Permissions other than the present bit
are left out.
-/

namespace OnDemandVirt.Lib.Paging

/-- Physical memory in eight-byte words, by address. -/
abbrev PhysMem := Nat → BitVec 64

/-- Entries in a table. -/
abbrev entries : Nat := 512

/-- A 48-bit address, sign extended to 64 bits. -/
def Canonical (va : Nat) : Prop := va < 2 ^ 47 ∨ (2 ^ 64 - 2 ^ 47 ≤ va ∧ va < 2 ^ 64)

/-- The present bit. -/
def present (e : BitVec 64) : Bool := e.getLsbD 0

/-- The page size bit. -/
def large (e : BitVec 64) : Bool := e.getLsbD 7

/-- The table or page an entry points to: bits 51 to 12. -/
def tableBase (e : BitVec 64) : Nat := e.toNat % 2 ^ 52 / 2 ^ 12 * 2 ^ 12

/-- The index of an address into its table of a level; level 3 is the topmost one. -/
def index (va level : Nat) : Nat := va / 2 ^ (12 + 9 * level) % entries

/-- The walk with `level` tables to go, the first of them at `base`. -/
def walkFrom (m : PhysMem) (va : Nat) : (level : Nat) → (base : Nat) → Option Nat
  | 0, base => some (base + va % 2 ^ 12)
  | level + 1, base =>
    let e := m (base + 8 * index va level)
    if !present e then none
    else if level ≠ 0 && large e then
      if level = 3 then none
      else some (tableBase e / 2 ^ (12 + 9 * level) * 2 ^ (12 + 9 * level) +
        va % 2 ^ (12 + 9 * level))
    else walkFrom m va level (tableBase e)

/-- The physical address a virtual address stands for under `cr3`. -/
def walk (m : PhysMem) (cr3 : BitVec 64) (va : Nat) : Option Nat :=
  walkFrom m va 4 (tableBase cr3)

/-- One level of a walk through an entry that points to a table. -/
theorem walkFrom_succ {m : PhysMem} {va level base : Nat} {e : BitVec 64}
    (he : m (base + 8 * index va level) = e) (hp : present e = true) (hl : large e = false) :
    walkFrom m va (level + 1) base = walkFrom m va level (tableBase e) := by
  rw [walkFrom, he]
  simp [hp, hl]

/-! ### The first address of a slot of the topmost table -/

theorem index_slot {i : Nat} (hi : i < entries) : index (i * 2 ^ 39) 3 = i := by
  unfold index entries at *
  norm_num
  omega

theorem index_slot_lower (i : Nat) {level : Nat} (h : level < 3) :
    index (i * 2 ^ 39) level = 0 := by
  unfold index entries
  rcases level with _ | _ | _ | level
  · norm_num
    omega
  · norm_num
    omega
  · norm_num
    omega
  · omega

/-- A slot's first address is canonical without sign extension in the lower half only. -/
theorem canonical_slot_iff {i : Nat} (hi : i < entries) : Canonical (i * 2 ^ 39) ↔ i < 256 := by
  unfold Canonical entries at *
  norm_num
  omega

/-- A slot whose first entries lead through three tables to a page. -/
theorem walk_slot {m : PhysMem} {cr3 e₃ e₂ e₁ e₀ : BitVec 64} {i : Nat} (hi : i < entries)
    (h₃ : m (tableBase cr3 + 8 * i) = e₃) (h₂ : m (tableBase e₃) = e₂)
    (h₁ : m (tableBase e₂) = e₁) (h₀ : m (tableBase e₁) = e₀)
    (hp : ∀ e ∈ [e₃, e₂, e₁, e₀], present e = true ∧ large e = false) :
    walk m cr3 (i * 2 ^ 39) = some (tableBase e₀) := by
  obtain ⟨hp₃, hl₃⟩ := hp e₃ (by simp)
  obtain ⟨hp₂, hl₂⟩ := hp e₂ (by simp)
  obtain ⟨hp₁, hl₁⟩ := hp e₁ (by simp)
  obtain ⟨hp₀, hl₀⟩ := hp e₀ (by simp)
  have lower : ∀ {e e' : BitVec 64} {level : Nat}, level < 3 → m (tableBase e) = e' →
      m (tableBase e + 8 * index (i * 2 ^ 39) level) = e' := by
    intro e e' level hlevel h
    rw [index_slot_lower i hlevel, Nat.mul_zero, Nat.add_zero, h]
  have hoffset : i * 2 ^ 39 % 2 ^ 12 = 0 := by
    norm_num
    omega
  have h₃' : m (tableBase cr3 + 8 * index (i * 2 ^ 39) 3) = e₃ := by rw [index_slot hi, h₃]
  rw [walk, walkFrom_succ h₃' hp₃ hl₃, walkFrom_succ (lower (by decide) h₂) hp₂ hl₂,
    walkFrom_succ (lower (by decide) h₁) hp₁ hl₁, walkFrom_succ (lower (by decide) h₀) hp₀ hl₀,
    walkFrom, hoffset, Nat.add_zero]

/-! ### The entries a walk visits -/

/-- The entry points to a table of the next level. -/
def isTable (e : BitVec 64) : Bool := present e && !large e

/-- The address of the entry that the walk of `va` visits after `d` tables, the first of them at
`root`; `none` where the walk has ended before. -/
def entryAt (m : PhysMem) (root va : Nat) : Nat → Option Nat
  | 0 => some (root + 8 * index va 3)
  | d + 1 => (entryAt m root va d).bind fun p =>
    if isTable (m p) then some (tableBase (m p) + 8 * index va (2 - d)) else none

theorem entryAt_succ_eq_some {m : PhysMem} {root va d a : Nat} :
    entryAt m root va (d + 1) = some a ↔ ∃ p, entryAt m root va d = some p ∧
      isTable (m p) = true ∧ a = tableBase (m p) + 8 * index va (2 - d) := by
  rw [entryAt, Option.bind_eq_some_iff]
  constructor
  · rintro ⟨p, hp, h⟩
    split_ifs at h with htable
    exact ⟨p, hp, htable, (Option.some.inj h).symm⟩
  · rintro ⟨p, hp, htable, rfl⟩
    exact ⟨p, hp, if_pos htable⟩

/-- A walk depends on the entries it visits only, and on those that lead to no table only in that
they lead to none. -/
theorem entryAt_congr {m m' : PhysMem} {root va d : Nat}
    (h : ∀ k < d, ∀ p, entryAt m root va k = some p →
      m' p = m p ∨ (isTable (m p) = false ∧ isTable (m' p) = false)) :
    entryAt m' root va d = entryAt m root va d := by
  induction d with
  | zero => rfl
  | succ d ih =>
    have hd := ih fun k hk => h k (Nat.lt_succ_of_lt hk)
    rw [entryAt, entryAt, hd]
    cases hp : entryAt m root va d with
    | none => rfl
    | some p =>
      rw [Option.bind_some, Option.bind_some]
      rcases h d (Nat.lt_succ_self d) p hp with heq | ⟨hoff, hoff'⟩
      · rw [heq]
      · simp [hoff, hoff']

/-- A walk depends on the indices of the address in the tables it visits only. -/
theorem entryAt_index_congr {m : PhysMem} {root va va' d : Nat} (hd : d ≤ 3)
    (h : ∀ l, 3 - d ≤ l → l ≤ 3 → index va l = index va' l) :
    entryAt m root va d = entryAt m root va' d := by
  induction d with
  | zero => rw [entryAt, entryAt, h 3 (Nat.le_refl _) (Nat.le_refl _)]
  | succ d ih =>
    rw [entryAt, entryAt, ih (by omega) fun l hl => h l (by omega), h (2 - d) (by omega) (by omega)]

/-- The walk of `va` ends at the entry `a` of a level. -/
def EndsAt (m : PhysMem) (root va level a : Nat) : Prop :=
  level ≤ 3 ∧ entryAt m root va (3 - level) = some a ∧ (level = 0 ∨ isTable (m a) = false)

end OnDemandVirt.Lib.Paging
