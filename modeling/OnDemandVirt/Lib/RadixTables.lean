import Mathlib.Data.Nat.Basic
import Mathlib.Logic.Function.Basic
import Mathlib.Tactic.Common
import Mathlib.Algebra.Group.Nat.Defs

/-!
# Trees of tables that grow on demand

Tables of `fanout` entries on pages of a memory, `top` levels of them over each root. The digits of
a key lead from a root to a table of level 1, and `build` makes the tables that are missing on the
way. `Shape` says which page holds which table, so that it gives the entries of a table by the
tables below it or by the leaves, and is kept by everything that is done to the tables.
-/

namespace OnDemandVirt.Lib.Radix

/-- The entries of the tables. -/
structure Format (ε : Type*) where
  fanout : Nat
  fanout_pos : 0 < fanout
  zero : ε
  /-- The entry that points to a table, written over an entry that was there. -/
  link : ε → Nat → ε
  child : ε → Option Nat
  child_zero : child zero = none
  child_link : ∀ e p, p ≠ 0 → child (link e p) = some p

/-- The pages that are handed out, one after the other. -/
structure Supply where
  page : Nat → Nat
  inj : Function.Injective page
  ne_zero : ∀ n, page n ≠ 0

/-- A memory of tables, and the pages taken so far. -/
structure Store (ε : Type*) where
  next : Nat
  mem : Nat → Nat → ε

variable {ε δ : Type*} (F : Format ε) (σ : Supply)

/-- The store after the next page was taken, which is filled with zeros. -/
def Store.alloc (s : Store ε) : Store ε where
  next := s.next + 1
  mem := Function.update s.mem (σ.page s.next) fun _ => F.zero

def Store.set (s : Store ε) (p j : Nat) (e : ε) : Store ε :=
  { s with mem := Function.update s.mem p (Function.update (s.mem p) j e) }

/-- From a table of level `n + 1` down to one of level 1: its page, and the store with the tables
that were missing. -/
def build (key : Nat) : (n parent : Nat) → Store ε → Nat × Store ε
  | 0, parent, s => (parent, s)
  | n + 1, parent, s =>
    match F.child (s.mem parent (key / F.fanout ^ (n + 1) % F.fanout)) with
    | some c => build key n c s
    | none => build key n (σ.page s.next) ((s.alloc F σ).set parent
        (key / F.fanout ^ (n + 1) % F.fanout)
        (F.link (s.mem parent (key / F.fanout ^ (n + 1) % F.fanout)) (σ.page s.next)))

/-- A table: its tree, its level and the digits of the keys that lead to it. -/
abbrev Node (δ : Type*) := δ × Nat × Nat

theorem Format.digits_div (k : Nat) {j : Nat} (hj : j < F.fanout) :
    (F.fanout * k + j) / F.fanout = k := by
  rw [Nat.mul_add_div F.fanout_pos, Nat.div_eq_of_lt hj, Nat.add_zero]

theorem Format.digits_mod (k : Nat) {j : Nat} (hj : j < F.fanout) :
    (F.fanout * k + j) % F.fanout = j := by
  rw [Nat.mul_add_mod, Nat.mod_eq_of_lt hj]

/-- The entry for a table that there is or is not. -/
def Format.entry : Option Nat → ε
  | some p => F.link F.zero p
  | none => F.zero

/-- Which tables there are and on which pages, and the leaves below them. -/
structure Shape (top : Nat) (tbl : Node δ → Option Nat) (leaf : δ × Nat → ε) (s : Store ε) :
    Prop where
  inj : ∀ {n n' p}, tbl n = some p → tbl n' = some p → n = n'
  used : ∀ {n p}, tbl n = some p → ∃ i < s.next, p = σ.page i
  inner : ∀ {d l k p}, tbl (d, l + 2, k) = some p →
    ∀ j < F.fanout, s.mem p j = F.entry (tbl (d, l + 1, F.fanout * k + j))
  leaves : ∀ {d k p}, tbl (d, 1, k) = some p →
    ∀ j < F.fanout, s.mem p j = leaf (d, F.fanout * k + j)
  reached : ∀ {d f}, leaf (d, f) ≠ F.zero → tbl (d, 1, f / F.fanout) ≠ none
  parent : ∀ {d l k}, tbl (d, l, k) ≠ none → l < top → tbl (d, l + 1, k / F.fanout) ≠ none
  level : ∀ {d l k}, tbl (d, l, k) ≠ none → l ≤ top
  root : ∀ {d k}, tbl (d, top, k) ≠ none → k = 0

namespace Shape

variable {F σ} {top l k n f p q : Nat} {d : δ} {tbl : Node δ → Option Nat} {leaf : δ × Nat → ε}
  {s : Store ε} {e : ε}

/-- Pages may be taken for something else. -/
theorem mono (h : Shape F σ top tbl leaf s) {m : Nat} (hm : s.next ≤ m) :
    Shape F σ top tbl leaf { s with next := m } :=
  { h with
    used := fun hn => by
      obtain ⟨i, hi, hp⟩ := h.used hn
      exact ⟨i, Nat.lt_of_lt_of_le hi hm, hp⟩ }

theorem ne_zero (h : Shape F σ top tbl leaf s) {n : Node δ} (hn : tbl n = some p) : p ≠ 0 := by
  obtain ⟨i, -, rfl⟩ := h.used hn
  exact σ.ne_zero i

theorem ne_fresh (h : Shape F σ top tbl leaf s) {n : Node δ} (hn : tbl n = some p) :
    p ≠ σ.page s.next := by
  obtain ⟨i, hi, rfl⟩ := h.used hn
  exact fun heq => Nat.ne_of_lt hi (σ.inj heq)

/-- There are tables all the way down to a leaf that is not empty. -/
theorem ne_none_of_leaf (h : Shape F σ top tbl leaf s) (hf : leaf (d, f) ≠ F.zero)
    (hn : n + 1 ≤ top) : tbl (d, n + 1, f / F.fanout ^ (n + 1)) ≠ none := by
  induction n with
  | zero =>
    rw [Nat.pow_one]
    exact h.reached hf
  | succ n ih =>
    rw [Nat.pow_succ, ← Nat.div_div_eq_div_mul]
    exact h.parent (ih (by omega)) (by omega)

theorem child_eq (h : Shape F σ top tbl leaf s) (n : Node δ) :
    F.child (F.entry (tbl n)) = tbl n := by
  cases hn : tbl n with
  | none => exact F.child_zero
  | some p => exact F.child_link _ p (h.ne_zero hn)

variable [DecidableEq δ]

/-- A leaf is written to the table that it is in. -/
theorem setLeaf (h : Shape F σ top tbl leaf s) (hp : tbl (d, 1, f / F.fanout) = some p) (e : ε) :
    Shape F σ top tbl (Function.update leaf (d, f) e) (s.set p (f % F.fanout) e) where
  inj := h.inj
  used := h.used
  inner {d' l' k' p'} hp' j hj := by
    have hne : p' ≠ p := by
      rintro rfl
      have := h.inj hp' hp
      simp at this
    rw [Store.set]
    dsimp only
    rw [Function.update_of_ne hne]
    exact h.inner hp' j hj
  leaves {d' k' p'} hp' j hj := by
    rw [Store.set]
    dsimp only
    by_cases hpage : p' = p
    · subst hpage
      have hnode := h.inj hp' hp
      simp only [Prod.mk.injEq, true_and] at hnode
      obtain ⟨rfl, rfl⟩ := hnode
      rw [Function.update_self]
      by_cases hkey : j = f % F.fanout
      · rw [hkey, Function.update_self, Nat.div_add_mod, Function.update_self]
      · have hne : F.fanout * (f / F.fanout) + j ≠ f := by
          intro heq
          refine hkey ?_
          rw [← heq, F.digits_mod _ hj]
        rw [Function.update_of_ne hkey, Function.update_of_ne fun heq => hne (Prod.mk.inj heq).2]
        exact h.leaves hp' j hj
    · have hne : (d', F.fanout * k' + j) ≠ (d, f) := by
        intro heq
        obtain ⟨rfl, hkey⟩ := Prod.mk.inj heq
        have hk : f / F.fanout = k' := by
          rw [← hkey, F.digits_div k' hj]
        rw [hk, hp'] at hp
        exact hpage (Option.some.inj hp)
      rw [Function.update_of_ne hpage, Function.update_of_ne hne]
      exact h.leaves hp' j hj
  reached {d' f'} hne := by
    by_cases heq : (d', f') = (d, f)
    · obtain ⟨rfl, rfl⟩ := Prod.mk.inj heq
      rw [hp]
      exact Option.some_ne_none p
    · rw [Function.update_of_ne heq] at hne
      exact h.reached hne
  parent := h.parent
  level := h.level
  root := h.root

/-- A fresh page becomes the table of a node, and its place in the table above a link to it. -/
theorem grow (h : Shape F σ top tbl leaf s) {s' : Store ε} (hnone : tbl (d, l, k) = none)
    (hl : 1 ≤ l ∧ l ≤ top) (hroot : l = top → k = 0)
    (hparent : l < top → tbl (d, l + 1, k / F.fanout) ≠ none) (hnext : s'.next = s.next + 1)
    (hnew : ∀ j, s'.mem (σ.page s.next) j = F.zero)
    (hold : ∀ {d' l' k' q}, tbl (d', l', k') = some q → ∀ j < F.fanout,
      s'.mem q j = if (d', l', F.fanout * k' + j) = (d, l + 1, k) then F.link F.zero (σ.page s.next)
        else s.mem q j) :
    Shape F σ top (Function.update tbl (d, l, k) (some (σ.page s.next))) leaf s' where
  inj {n n' q} hn hn' := by
    by_cases heq : n = (d, l, k) <;> by_cases heq' : n' = (d, l, k)
    · rw [heq, heq']
    · rw [heq, Function.update_self] at hn
      rw [Function.update_of_ne heq'] at hn'
      exact absurd (Option.some.inj hn).symm (h.ne_fresh hn')
    · rw [Function.update_of_ne heq] at hn
      rw [heq', Function.update_self] at hn'
      exact absurd (Option.some.inj hn').symm (h.ne_fresh hn)
    · rw [Function.update_of_ne heq] at hn
      rw [Function.update_of_ne heq'] at hn'
      exact h.inj hn hn'
  used {n q} hn := by
    rw [hnext]
    by_cases heq : n = (d, l, k)
    · rw [heq, Function.update_self] at hn
      exact ⟨s.next, Nat.lt_succ_self _, (Option.some.inj hn).symm⟩
    · rw [Function.update_of_ne heq] at hn
      obtain ⟨i, hi, hq⟩ := h.used hn
      exact ⟨i, Nat.lt_succ_of_lt hi, hq⟩
  inner {d' l' k' q} hq j hj := by
    by_cases heq : (d', l' + 2, k') = (d, l, k)
    · -- the fresh table is empty, and nothing is below it
      rw [heq, Function.update_self] at hq
      simp only [Prod.mk.injEq] at heq
      obtain ⟨rfl, rfl, rfl⟩ := heq
      have hbelow : tbl (d', l' + 1, F.fanout * k' + j) = none := by
        by_contra hne
        refine h.parent hne (by omega) ?_
        rw [F.digits_div k' hj]
        exact hnone
      rw [← Option.some.inj hq, hnew, Function.update_of_ne (by simp), hbelow]
      rfl
    · rw [Function.update_of_ne heq] at hq
      rw [hold hq j hj, h.inner hq j hj]
      by_cases hslot : (d', l' + 2, F.fanout * k' + j) = (d, l + 1, k)
      · simp only [Prod.mk.injEq] at hslot
        obtain ⟨rfl, hl', rfl⟩ := hslot
        obtain rfl : l = l' + 1 := by omega
        rw [if_pos rfl, Function.update_self]
        rfl
      · rw [if_neg hslot, Function.update_of_ne]
        intro heq'
        simp only [Prod.mk.injEq] at heq' hslot
        exact hslot ⟨heq'.1, by omega, heq'.2.2⟩
  leaves {d' k' q} hq j hj := by
    by_cases heq : (d', 1, k') = (d, l, k)
    · rw [heq, Function.update_self] at hq
      rw [← heq] at hnone
      rw [← Option.some.inj hq, hnew]
      by_contra hne
      refine h.reached (Ne.symm hne) ?_
      rw [F.digits_div k' hj]
      exact hnone
    · rw [Function.update_of_ne heq] at hq
      rw [hold hq j hj, if_neg, h.leaves hq j hj]
      simp only [Prod.mk.injEq]
      omega
  reached {d' f} hne := by
    by_cases heq : (d', 1, f / F.fanout) = (d, l, k)
    · rw [heq, Function.update_self]
      exact Option.some_ne_none _
    · rw [Function.update_of_ne heq]
      exact h.reached hne
  parent {d' l' k'} hne hlt := by
    have hup : tbl (d', l' + 1, k' / F.fanout) ≠ none := by
      by_cases heq : (d', l', k') = (d, l, k)
      · simp only [Prod.mk.injEq] at heq
        obtain ⟨rfl, rfl, rfl⟩ := heq
        exact hparent hlt
      · rw [Function.update_of_ne heq] at hne
        exact h.parent hne hlt
    by_cases heq : (d', l' + 1, k' / F.fanout) = (d, l, k)
    · rw [heq, Function.update_self]
      exact Option.some_ne_none _
    · rwa [Function.update_of_ne heq]
  level {d' l' k'} hne := by
    by_cases heq : (d', l', k') = (d, l, k)
    · simp only [Prod.mk.injEq] at heq
      omega
    · rw [Function.update_of_ne heq] at hne
      exact h.level hne
  root {d' k'} hne := by
    by_cases heq : (d', top, k') = (d, l, k)
    · simp only [Prod.mk.injEq] at heq
      obtain ⟨-, hl', rfl⟩ := heq
      exact hroot hl'.symm
    · rw [Function.update_of_ne heq] at hne
      exact h.root hne

/-- A root for a tree that had none. -/
theorem addRoot (h : Shape F σ top tbl leaf s) (htop : 1 ≤ top) (hnone : tbl (d, top, 0) = none) :
    Shape F σ top (Function.update tbl (d, top, 0) (some (σ.page s.next))) leaf (s.alloc F σ) := by
  refine h.grow hnone ⟨htop, Nat.le_refl _⟩ (fun _ => rfl) (fun hlt => absurd hlt (lt_irrefl _)) rfl
    (fun j => ?_) fun {d' l' k' q} hq j _ => ?_
  · rw [Store.alloc]
    dsimp only
    rw [Function.update_self]
  · have hle : l' ≤ top := h.level (by rw [hq]; exact Option.some_ne_none _)
    rw [Store.alloc, if_neg]
    · dsimp only
      rw [Function.update_of_ne (h.ne_fresh hq)]
    · simp only [Prod.mk.injEq]
      omega

/-- A table below one that there is. -/
theorem attach (h : Shape F σ top tbl leaf s) (hp : tbl (d, l + 2, k / F.fanout) = some p)
    (hnone : tbl (d, l + 1, k) = none) (hl : l + 2 ≤ top) :
    Shape F σ top (Function.update tbl (d, l + 1, k) (some (σ.page s.next))) leaf
      ((s.alloc F σ).set p (k % F.fanout) (F.link F.zero (σ.page s.next))) := by
  have hfresh : p ≠ σ.page s.next := h.ne_fresh hp
  have hsome : tbl (d, l + 2, k / F.fanout) ≠ none := by
    rw [hp]
    exact Option.some_ne_none _
  refine h.grow hnone (by omega) (by omega) (fun _ => hsome) rfl (fun j => ?_)
    fun {d' l' k' q} hq j hj => ?_
  · rw [Store.set, Store.alloc]
    dsimp only
    rw [Function.update_of_ne hfresh.symm, Function.update_self]
  · rw [Store.set, Store.alloc]
    dsimp only
    rw [Function.update_of_ne hfresh]
    by_cases hqp : q = p
    · subst hqp
      have hnode := h.inj hq hp
      simp only [Prod.mk.injEq] at hnode
      obtain ⟨rfl, rfl, rfl⟩ := hnode
      rw [Function.update_self]
      by_cases hj' : j = k % F.fanout
      · rw [hj', Function.update_self, Nat.div_add_mod, if_pos rfl]
      · rw [Function.update_of_ne hj', if_neg]
        simp only [Prod.mk.injEq, true_and]
        intro heq
        exact hj' (by rw [← heq, F.digits_mod _ hj])
    · rw [Function.update_of_ne hqp, Function.update_of_ne (h.ne_fresh hq), if_neg]
      simp only [Prod.mk.injEq]
      rintro ⟨rfl, rfl, rfl⟩
      rw [F.digits_div k' hj, hq] at hp
      exact hqp (Option.some.inj hp)

/-- The way down ends at the table of level 1, and no root changes. -/
theorem build (h : Shape F σ top tbl leaf s) (hp : tbl (d, n + 1, f / F.fanout ^ (n + 1)) = some p)
    (hn : n + 1 ≤ top) :
    ∃ tbl', Shape F σ top tbl' leaf (build F σ f n p s).2 ∧
      (∀ d k, tbl' (d, top, k) = tbl (d, top, k)) ∧
      tbl' (d, 1, f / F.fanout) = some (build F σ f n p s).1 := by
  induction n generalizing p s tbl with
  | zero =>
    rw [Nat.pow_one] at hp
    exact ⟨tbl, h, fun _ _ => rfl, hp⟩
  | succ n ih =>
    have hdown : f / F.fanout ^ (n + 1) / F.fanout = f / F.fanout ^ (n + 1 + 1) := by
      rw [Nat.div_div_eq_div_mul, ← Nat.pow_succ]
    have hlt : f / F.fanout ^ (n + 1) % F.fanout < F.fanout := Nat.mod_lt _ F.fanout_pos
    have hentry := h.inner hp _ hlt
    rw [← hdown, Nat.div_add_mod] at hentry
    rw [Radix.build, hentry, h.child_eq]
    cases hc : tbl (d, n + 1, f / F.fanout ^ (n + 1)) with
    | some c => exact ih h hc (by omega)
    | none =>
      rw [← hdown] at hp
      have hattach := h.attach hp hc hn
      obtain ⟨tbl', hshape, hroots, hleaf⟩ :=
        ih hattach (Function.update_self _ _ _) (by omega)
      refine ⟨tbl', hshape, fun d' k => ?_, hleaf⟩
      rw [hroots, Function.update_of_ne]
      simp only [ne_eq, Prod.mk.injEq]
      omega

end Shape

end OnDemandVirt.Lib.Radix
