import Mathlib.Logic.Function.Basic

/-!
# Walks through levels of tables, and a cache of the last walk

A walk goes down from an entry of a level to the one below it, whose address depends on the entry
and on a key, until it is at a wanted level or at an entry that ends it. A cache holds the entries
of a walk from the topmost level `top` down to `low`. It is coherent when these are what a walk
from the top would find now.
-/

namespace OnDemandVirt.Lib

/-- How tables of addresses `α`, entries `β` and keys `κ` are linked. -/
structure Tables (α β κ : Type*) where
  /-- Whether an entry of a level ends a walk. -/
  stops : Nat → β → Bool
  /-- Where the entry of a level is, from the entry of the level above. -/
  addr : Nat → β → κ → α

namespace Tables

variable {α β κ : Type*} (T : Tables α β κ)

/-- The level and the entry at which a walk towards level `cur` ends. -/
def find (read : α → β) (k : κ) (cur : Nat) : (level : Nat) → β → Nat × β
  | 0, e => (0, e)
  | l + 1, e =>
    if l + 1 ≤ cur ∨ T.stops (l + 1) e = true then (l + 1, e)
    else find read k cur l (read (T.addr l e k))

/-- The cached entries, and the addresses they were read from, are those of a walk. -/
structure Coherent (read : α → β) (k : κ) (root : β) (low top : Nat) (entry : Nat → β)
    (entryaddr : Nat → α) : Prop where
  root : entry top = root
  low_le : low ≤ top
  goesOn : ∀ l, low ≤ l → l < top → T.stops (l + 1) (entry (l + 1)) = false
  addr : ∀ l, low ≤ l → l < top → entryaddr l = T.addr l (entry (l + 1)) k
  entry : ∀ l, low ≤ l → l < top → entry l = read (entryaddr l)

variable {T} {read read' : α → β} {k k' : κ} {root e : β} {low low' cur top l : Nat}
  {entry : Nat → β} {entryaddr : Nat → α}

theorem find_of_le (h : l ≤ cur) (e : β) : T.find read k cur l e = (l, e) := by
  cases l with
  | zero => rfl
  | succ l => rw [find, if_pos (Or.inl h)]

theorem find_of_stops (h : T.stops (l + 1) e = true) :
    T.find read k cur (l + 1) e = (l + 1, e) := by
  rw [find, if_pos (Or.inr h)]

theorem find_succ (h : cur ≤ l) (hgo : T.stops (l + 1) e = false) :
    T.find read k cur (l + 1) e = T.find read k cur l (read (T.addr l e k)) := by
  rw [find, if_neg]
  rintro (hle | hstop)
  · omega
  · rw [hgo] at hstop
    cases hstop

namespace Coherent

/-- A cache of the topmost entry alone. -/
theorem init (hroot : entry top = root) : T.Coherent read k root top top entry entryaddr :=
  ⟨hroot, Nat.le_refl _, fun _ h h' => absurd h' (Nat.not_lt.mpr h),
    fun _ h h' => absurd h' (Nat.not_lt.mpr h), fun _ h h' => absurd h' (Nat.not_lt.mpr h)⟩

/-- Forgetting the lower levels. -/
theorem raise (h : T.Coherent read k root low top entry entryaddr) (hlow : low ≤ low')
    (htop : low' ≤ top) : T.Coherent read k root low' top entry entryaddr :=
  ⟨h.root, htop, fun l hl => h.goesOn l (Nat.le_trans hlow hl),
    fun l hl => h.addr l (Nat.le_trans hlow hl), fun l hl => h.entry l (Nat.le_trans hlow hl)⟩

/-- Going on from the lowest cached entry is going on from the top. -/
theorem find_eq (h : T.Coherent read k root low top entry entryaddr) (hcur : cur ≤ low) :
    T.find read k cur low (entry low) = T.find read k cur top root := by
  obtain ⟨n, rfl⟩ := Nat.exists_eq_add_of_le h.low_le
  induction n generalizing low with
  | zero => rw [Nat.add_zero, ← h.root, Nat.add_zero]
  | succ n ih =>
    have hlt : low < low + (n + 1) := by omega
    rw [h.entry low (Nat.le_refl _) hlt, h.addr low (Nat.le_refl _) hlt,
      ← find_succ hcur (h.goesOn low (Nat.le_refl _) hlt)]
    have htop : low + (n + 1) = low + 1 + n := by omega
    rw [htop] at h ⊢
    exact ih (Nat.le_succ_of_le hcur) (h.raise (Nat.le_succ _) (Nat.le_add_right _ _))

/-- A walk to a cached level ends at the entry that the cache has. -/
theorem find_cached (h : T.Coherent read k root low top entry entryaddr) (hlow : low ≤ cur)
    (htop : cur ≤ top) : T.find read k cur top root = (cur, entry cur) := by
  rw [← (h.raise hlow htop).find_eq (Nat.le_refl _)]
  exact find_of_le (Nat.le_refl _) _

/-- Fetching the entry below the lowest cached one. -/
theorem fetch [DecidableEq α] (h : T.Coherent read k root (l + 1) top entry entryaddr)
    (hgo : T.stops (l + 1) (entry (l + 1)) = false) {a : α} (ha : a = T.addr l (entry (l + 1)) k) :
    T.Coherent read k root l top (Function.update entry l (read a))
      (Function.update entryaddr l a) := by
  have hne : ∀ {l'}, l + 1 ≤ l' → l' ≠ l := fun h => by omega
  have habove : ∀ {l'}, l + 1 ≤ l' → Function.update entry l (read a) l' = entry l' :=
    fun hl => Function.update_of_ne (hne hl) _ _
  refine ⟨(habove h.low_le).trans h.root, Nat.le_of_succ_le h.low_le, fun l' hl hl' => ?_,
    fun l' hl hl' => ?_, fun l' hl hl' => ?_⟩
  · rw [habove (Nat.succ_le_succ hl)]
    rcases Nat.eq_or_lt_of_le hl with rfl | hlt
    · exact hgo
    · exact h.goesOn l' hlt hl'
  · rw [habove (Nat.succ_le_succ hl)]
    rcases Nat.eq_or_lt_of_le hl with rfl | hlt
    · rw [Function.update_self]
      exact ha
    · rw [Function.update_of_ne (hne hlt)]
      exact h.addr l' hlt hl'
  · rcases Nat.eq_or_lt_of_le hl with rfl | hlt
    · rw [Function.update_self, Function.update_self]
    · rw [habove hlt, Function.update_of_ne (hne hlt)]
      exact h.entry l' hlt hl'

/-- The same entries serve another key that every cached level looks up at the same place. -/
theorem congr_key (h : T.Coherent read k root low top entry entryaddr)
    (hk : ∀ l, low ≤ l → l < top → ∀ e, T.addr l e k = T.addr l e k') :
    T.Coherent read k' root low top entry entryaddr :=
  ⟨h.root, h.low_le, h.goesOn, fun l hl hl' => (h.addr l hl hl').trans (hk l hl hl' _), h.entry⟩

/-- A change of memory at none of the cached addresses. -/
theorem congr_read (h : T.Coherent read k root low top entry entryaddr)
    (hr : ∀ l, low ≤ l → l < top → read' (entryaddr l) = read (entryaddr l)) :
    T.Coherent read' k root low top entry entryaddr :=
  ⟨h.root, h.low_le, h.goesOn, h.addr,
    fun l hl hl' => (h.entry l hl hl').trans (hr l hl hl').symm⟩

/-- Writing the entry of a cached level `cur`. The ones cached below it stay right when the new
entry leads to the same table. -/
theorem write (h : T.Coherent read k root low top entry entryaddr) (hlow : low ≤ cur)
    (htop : cur < top) (hself : read' (entryaddr cur) = e)
    (hother : ∀ l, low ≤ l → l < top → l ≠ cur → read' (entryaddr l) = read (entryaddr l))
    (hbelow : low < cur → T.stops cur e = false ∧
      ∀ l, l + 1 = cur → T.addr l e k = T.addr l (entry cur) k) :
    T.Coherent read' k root low top (Function.update entry cur e) entryaddr := by
  refine ⟨?_, h.low_le, fun l hl hl' => ?_, fun l hl hl' => ?_, fun l hl hl' => ?_⟩
  · rw [Function.update_of_ne (Nat.ne_of_gt htop)]
    exact h.root
  · by_cases heq : l + 1 = cur
    · subst heq
      rw [Function.update_self]
      exact (hbelow (Nat.lt_succ_of_le hl)).1
    · rw [Function.update_of_ne heq]
      exact h.goesOn l hl hl'
  · by_cases heq : l + 1 = cur
    · subst heq
      rw [Function.update_self, (hbelow (Nat.lt_succ_of_le hl)).2 l rfl]
      exact h.addr l hl hl'
    · rw [Function.update_of_ne heq]
      exact h.addr l hl hl'
  · by_cases heq : l = cur
    · subst heq
      rw [Function.update_self, hself]
    · rw [Function.update_of_ne heq, hother l hl hl' heq]
      exact h.entry l hl hl'

end Coherent

end Tables

end OnDemandVirt.Lib
