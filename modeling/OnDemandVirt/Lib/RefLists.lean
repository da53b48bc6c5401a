import Mathlib.Data.List.Count

/-!
# Lists with shared tails and reference counts

A node has a value, the next node and a reference count. Holders have the address of the first
node of a list, or none: a list may be held by several holders, and go on in a node that other lists
go on in. The cells are numbered as they are allocated, and a cell that was freed is not used again.

`Counted holders cells` says that each count is the number of holders of the node and of nodes
before it, and that a node is there as long as this number is not zero. The four operations keep it,
each for its own change of the holders.
-/

namespace OnDemandVirt.Lib.RefLists

variable {V : Type*}

/-- A node. -/
structure Cell (V : Type*) where
  val : V
  next : Option Nat
  ref : Nat

/-- The cells; those that were freed are `none`. -/
abbrev Cells (V : Type*) := List (Option (Cell V))

/-- The node at an address. -/
def read (cells : Cells V) (a : Nat) : Option (Cell V) := (cells[a]?).join

/-- One more reference to a node. -/
def share (x : Option Nat) (cells : Cells V) : Cells V :=
  match x with
  | none => cells
  | some a =>
    match read cells a with
    | none => cells
    | some c => cells.set a (some { c with ref := c.ref + 1 })

/-- A new node before a list that is held. -/
def cons (x : Option Nat) (v : V) (cells : Cells V) : Option Nat × Cells V :=
  (some cells.length, cells ++ [some ⟨v, x, 1⟩])

/-- The holder of a list goes on to the next node. -/
def pop (a : Nat) (c : Cell V) (cells : Cells V) : Cells V :=
  if c.ref - 1 = 0 then cells.set a none
  else share c.next (cells.set a (some { c with ref := c.ref - 1 }))

/-- A list is given up: its nodes are freed up to one that is still referred to. -/
def releaseLoop : Nat → Option Nat → Cells V → Cells V
  | 0, _, cells => cells
  | _ + 1, none, cells => cells
  | fuel + 1, some a, cells =>
    match read cells a with
    | none => cells
    | some c =>
      if c.ref - 1 = 0 then releaseLoop fuel c.next (cells.set a none)
      else cells.set a (some { c with ref := c.ref - 1 })

/-- The addresses descend along a list, so that there are enough steps. -/
def release (x : Option Nat) (cells : Cells V) : Cells V := releaseLoop cells.length x cells

/-! ### Counting -/

/-- What the nodes refer to. -/
def links (cells : Cells V) : List (Option Nat) := cells.map fun o => o.bind (·.next)

/-- The number of references to an address. -/
def refs (holders : List (Option Nat)) (cells : Cells V) (a : Nat) : Nat :=
  holders.count (some a) + (links cells).count (some a)

/-- The counts are the numbers of references, and the nodes are those that are referred to. -/
structure Counted (holders : List (Option Nat)) (cells : Cells V) : Prop where
  ref : ∀ a c, read cells a = some c → c.ref = refs holders cells a
  live : ∀ a, (∃ c, read cells a = some c) ↔ 0 < refs holders cells a
  older : ∀ a c b, read cells a = some c → c.next = some b → b < a

variable {holders : List (Option Nat)} {cells : Cells V} {a b : Nat} {c : Cell V} {x : Option Nat}

theorem read_lt (h : read cells a = some c) : a < cells.length := by
  by_contra hge
  rw [read, List.getElem?_eq_none (Nat.not_lt.mp hge)] at h
  cases h

theorem read_set {o : Option (Cell V)} (ha : a < cells.length) :
    read (cells.set a o) b = if b = a then o else read cells b := by
  unfold read
  rw [List.getElem?_set]
  by_cases hab : a = b
  · rw [if_pos hab, if_pos ha, if_pos hab.symm]
    rfl
  · rw [if_neg hab, if_neg (Ne.symm hab)]

theorem getElem?_of_read (h : read cells a = some c) : cells[a]? = some (some c) :=
  Option.join_eq_some_iff.mp h

/-- Replacing a node changes the references by what it refers to. -/
theorem refs_set {o : Option (Cell V)} (h : read cells a = some c) :
    refs holders (cells.set a o) b + (if c.next = some b then 1 else 0) =
      refs holders cells b + (if o.bind (·.next) = some b then 1 else 0) := by
  have hlt : a < (links cells).length := by
    unfold links
    rw [List.length_map]
    exact read_lt h
  have hat : (links cells)[a] = c.next := by
    rw [List.getElem_eq_iff]
    unfold links
    rw [List.getElem?_map, getElem?_of_read h]
    rfl
  unfold refs
  have hset : links (cells.set a o) = (links cells).set a (o.bind (·.next)) := by
    unfold links
    rw [List.map_set]
  have hpos : c.next = some b → 0 < (links cells).count (some b) := fun heq =>
    List.count_pos_iff.mpr (heq ▸ hat ▸ List.getElem_mem hlt)
  rw [hset, List.count_set hlt, hat]
  simp only [beq_iff_eq]
  by_cases hb : c.next = some b
  · have := hpos hb
    rw [if_pos hb]
    omega
  · rw [if_neg hb]
    omega

theorem refs_set_ref {n : Nat} (h : read cells a = some c) :
    refs holders (cells.set a (some { c with ref := n })) b = refs holders cells b := by
  have hset : refs holders (cells.set a (some { c with ref := n })) b + _ = _ := refs_set h
  exact Nat.add_right_cancel hset

theorem refs_cons (x : Option Nat) (holders : List (Option Nat)) (cells : Cells V) (b : Nat) :
    refs (x :: holders) cells b = refs holders cells b + if x = some b then 1 else 0 := by
  unfold refs
  rw [List.count_cons]
  simp only [beq_iff_eq]
  omega

/-- Only the number of holders of each node matters. -/
theorem Counted.congr {holders' : List (Option Nat)} (h : Counted holders cells)
    (heq : ∀ a, holders'.count (some a) = holders.count (some a)) : Counted holders' cells where
  ref := fun a c hc => (h.ref a c hc).trans (by unfold refs; rw [heq])
  live := fun a => (h.live a).trans (by unfold refs; rw [heq])
  older := h.older

theorem Counted.nil : Counted [] ([] : Cells V) where
  ref := fun a c hc => by cases hc
  live := fun a => ⟨fun ⟨c, hc⟩ => (by cases hc), fun h => absurd h (Nat.lt_irrefl 0)⟩
  older := fun a c b hc => by cases hc

/-! ### The operations -/

/-- A holder refers to a node that is there. -/
theorem Counted.exists_read (h : Counted (some a :: holders) cells) :
    ∃ c, read cells a = some c := by
  rw [h.live, refs_cons, if_pos rfl]
  exact Nat.succ_pos _

theorem Counted.drop_none (h : Counted (none :: holders) cells) : Counted holders cells :=
  h.congr fun a => by simp

theorem Counted.add_none (h : Counted holders cells) : Counted (none :: holders) cells :=
  h.congr fun a => by simp

/-- The count of a node is set, with one holder more or less for it. -/
theorem Counted.set_ref {holders' : List (Option Nat)} {n : Nat} (h : Counted holders cells)
    (hc : read cells a = some c) (hn : n = refs holders' cells a) (hpos : 0 < n)
    (hother : ∀ b ≠ a, refs holders' cells b = refs holders cells b) :
    Counted holders' (cells.set a (some { c with ref := n })) := by
  have hread : ∀ b, read (cells.set a (some { c with ref := n })) b =
      if b = a then some { c with ref := n } else read cells b := fun b => read_set (read_lt hc)
  refine ⟨fun b c' hb => ?_, fun b => ?_, fun b c' d hb hnext => ?_⟩
  · rw [refs_set_ref hc]
    rw [hread] at hb
    by_cases hba : b = a
    · rw [if_pos hba] at hb
      cases hb
      rw [hba]
      exact hn
    · rw [if_neg hba] at hb
      rw [hother b hba]
      exact h.ref b c' hb
  · rw [refs_set_ref hc, hread]
    by_cases hba : b = a
    · rw [if_pos hba, hba, ← hn]
      exact ⟨fun _ => hpos, fun _ => ⟨_, rfl⟩⟩
    · rw [if_neg hba, hother b hba]
      exact h.live b
  · rw [hread] at hb
    by_cases hba : b = a
    · rw [if_pos hba] at hb
      cases hb
      rw [hba]
      exact h.older a c d hc hnext
    · rw [if_neg hba] at hb
      exact h.older b c' d hb hnext

/-- One more holder of a node that a holder has. -/
theorem Counted.share (h : Counted holders cells)
    (hx : ∀ a, x = some a → ∃ c, read cells a = some c) :
    Counted (x :: holders) (share x cells) := by
  cases x with
  | none => exact h.add_none
  | some a =>
    obtain ⟨c, hc⟩ := hx a rfl
    unfold RefLists.share
    simp only [hc]
    refine h.set_ref hc ?_ (Nat.succ_pos _) fun b hb => ?_
    · rw [refs_cons, if_pos rfl, h.ref a c hc]
    · rw [refs_cons, if_neg fun heq => hb (Option.some.inj heq).symm]
      rfl

/-- The new node is held in place of the list behind it. -/
theorem Counted.cons (h : Counted (x :: holders) cells) (v : V) :
    Counted ((cons x v cells).1 :: holders) (cons x v cells).2 := by
  have hlinks : links (cells ++ [some ⟨v, x, 1⟩]) = links cells ++ [x] := by
    unfold links
    rw [List.map_append]
    rfl
  have hold : ∀ {b c}, read cells b = some c → b < cells.length := fun hb => read_lt hb
  have hread : ∀ b, read (cells ++ [some ⟨v, x, 1⟩]) b =
      if b = cells.length then some ⟨v, x, 1⟩ else read cells b := by
    intro b
    unfold read
    rw [List.getElem?_append]
    by_cases hlt : b < cells.length
    · rw [if_pos hlt, if_neg (Nat.ne_of_lt hlt)]
    · rw [if_neg hlt]
      by_cases hb : b = cells.length
      · rw [if_pos hb, hb]
        simp
      · rw [if_neg hb, List.getElem?_eq_none (by simp; omega), List.getElem?_eq_none (by omega)]
  have hrefs : ∀ b, refs (some cells.length :: holders) (cells ++ [some ⟨v, x, 1⟩]) b =
      refs (x :: holders) cells b + if cells.length = b then 1 else 0 := by
    intro b
    rw [refs_cons, refs_cons]
    unfold refs
    rw [hlinks, List.count_append, List.count_singleton]
    simp only [beq_iff_eq, Option.some.injEq]
    omega
  have hnew : refs (x :: holders) cells cells.length = 0 := by
    by_contra hne
    obtain ⟨c, hc⟩ := (h.live _).mpr (Nat.pos_of_ne_zero hne)
    exact absurd (read_lt hc) (Nat.lt_irrefl _)
  change Counted (some cells.length :: holders) (cells ++ [some ⟨v, x, 1⟩])
  refine ⟨fun b c hb => ?_, fun b => ?_, fun b c d hb hnext => ?_⟩
  · rw [hrefs]
    rw [hread] at hb
    by_cases hbl : b = cells.length
    · rw [if_pos hbl] at hb
      cases hb
      rw [hbl, hnew, if_pos rfl]
    · rw [if_neg hbl] at hb
      rw [if_neg (Ne.symm hbl)]
      exact h.ref b c hb
  · rw [hrefs, hread]
    by_cases hbl : b = cells.length
    · rw [if_pos hbl, hbl, hnew, if_pos rfl]
      exact ⟨fun _ => Nat.one_pos, fun _ => ⟨_, rfl⟩⟩
    · rw [if_neg hbl, if_neg (Ne.symm hbl)]
      exact h.live b
  · rw [hread] at hb
    by_cases hbl : b = cells.length
    · rw [if_pos hbl] at hb
      cases hb
      rw [hbl]
      obtain ⟨c', hc'⟩ := (show Counted (some d :: holders) cells from hnext ▸ h).exists_read
      exact read_lt hc'
    · rw [if_neg hbl] at hb
      exact h.older b c d hb hnext

/-- A node that is referred to once is freed, and its holder has the next one. -/
theorem Counted.free (h : Counted (some a :: holders) cells) (hc : read cells a = some c)
    (hone : c.ref = 1) : Counted (c.next :: holders) (cells.set a none) := by
  have hread : ∀ b, read (cells.set a none) b = if b = a then none else read cells b :=
    fun b => read_set (read_lt hc)
  have hself : ¬ c.next = some a := fun heq => Nat.lt_irrefl a (h.older a c a hc heq)
  have hrefs : ∀ b, refs (c.next :: holders) (cells.set a none) b + (if a = b then 1 else 0) =
      refs (some a :: holders) cells b := by
    intro b
    have hset : refs holders (cells.set a none) b + _ = _ := refs_set hc
    rw [refs_cons, refs_cons]
    simp only [Option.bind_none, reduceCtorEq, if_false, Nat.add_zero, Option.some.injEq] at hset ⊢
    omega
  refine ⟨fun b c' hb => ?_, fun b => ?_, fun b c' d hb hnext => ?_⟩
  · rw [hread] at hb
    by_cases hba : b = a
    · rw [if_pos hba] at hb
      cases hb
    · rw [if_neg hba] at hb
      rw [h.ref b c' hb, ← hrefs b, if_neg (Ne.symm hba), Nat.add_zero]
  · rw [hread]
    by_cases hba : b = a
    · have hzero := hrefs a
      rw [if_pos rfl, ← h.ref a c hc, hone] at hzero
      rw [if_pos hba, hba]
      refine ⟨fun ⟨c', hc'⟩ => (by cases hc'), fun hpos => ?_⟩
      omega
    · rw [if_neg hba, h.live b, ← hrefs b, if_neg (Ne.symm hba), Nat.add_zero]
  · rw [hread] at hb
    by_cases hba : b = a
    · rw [if_pos hba] at hb
      cases hb
    · rw [if_neg hba] at hb
      exact h.older b c' d hb hnext

/-- One holder less of a node that is referred to otherwise. -/
theorem Counted.unref (h : Counted (some a :: holders) cells) (hc : read cells a = some c)
    (hmore : c.ref - 1 ≠ 0) : Counted holders (cells.set a (some { c with ref := c.ref - 1 })) := by
  refine h.set_ref hc ?_ (Nat.pos_of_ne_zero hmore) fun b hb => ?_
  · rw [h.ref a c hc, refs_cons, if_pos rfl]
    rfl
  · rw [refs_cons, if_neg fun heq => hb (Option.some.inj heq).symm]
    rfl

theorem Counted.pos (h : Counted holders cells) (hc : read cells a = some c) : 0 < c.ref := by
  rw [h.ref a c hc]
  exact (h.live a).mp ⟨c, hc⟩

/-- The holder of a list goes on to its next node. -/
theorem Counted.pop (h : Counted (some a :: holders) cells) (hc : read cells a = some c) :
    Counted (c.next :: holders) (pop a c cells) := by
  unfold RefLists.pop
  split
  case isTrue hone =>
    have := h.pos hc
    exact h.free hc (by omega)
  case isFalse hmore =>
    refine (h.unref hc hmore).share fun b hb => ?_
    have hlt := h.older a c b hc hb
    have hpos : 0 < refs holders (cells.set a (some { c with ref := c.ref - 1 })) b := by
      rw [refs_set_ref hc]
      refine Nat.add_pos_right _ (List.count_pos_iff.mpr ?_)
      exact List.mem_map.mpr ⟨some c, List.mem_of_getElem? (getElem?_of_read hc), hb⟩
    exact ((h.unref hc hmore).live b).mpr hpos

theorem Counted.releaseLoop {fuel : Nat} (h : Counted (x :: holders) cells)
    (hfuel : ∀ a, x = some a → a < fuel) : Counted holders (releaseLoop fuel x cells) := by
  induction fuel generalizing x cells with
  | zero =>
    cases x with
    | none => exact h.drop_none
    | some a => exact absurd (hfuel a rfl) (Nat.not_lt_zero a)
  | succ fuel ih =>
    cases x with
    | none => exact h.drop_none
    | some a =>
      obtain ⟨c, hc⟩ := h.exists_read
      unfold RefLists.releaseLoop
      simp only [hc]
      split
      case isTrue hone =>
        have hpos := h.pos hc
        refine ih (h.free hc (by omega)) fun b hb => ?_
        have hlt := h.older a c b hc hb
        have := hfuel a rfl
        omega
      case isFalse hmore => exact h.unref hc hmore

/-- A holder gives its list up. -/
theorem Counted.release (h : Counted (x :: holders) cells) : Counted holders (release x cells) := by
  refine h.releaseLoop fun a ha => ?_
  subst ha
  obtain ⟨c, hc⟩ := h.exists_read
  exact read_lt hc

/-- Without holders there are no nodes. -/
theorem Counted.read_eq_none (h : Counted [] cells) (a : Nat) : read cells a = none := by
  -- a node that is referred to has a node before it, with a greater address
  by_contra hne
  obtain ⟨c, hc⟩ := Option.ne_none_iff_exists'.mp hne
  have hmore : ∀ n, ∃ b c, read cells b = some c ∧ a + n ≤ b := by
    intro n
    induction n with
    | zero => exact ⟨a, c, hc, Nat.le_refl a⟩
    | succ n ih =>
      obtain ⟨b, cb, hb, hle⟩ := ih
      have hpos : 0 < refs [] cells b := (h.live b).mp ⟨cb, hb⟩
      have hmem : some b ∈ links cells := by
        unfold refs at hpos
        rw [List.count_nil, Nat.zero_add] at hpos
        exact List.count_pos_iff.mp hpos
      obtain ⟨o, ho, hnext⟩ := List.mem_map.mp hmem
      obtain ⟨c', rfl, hc'⟩ := Option.bind_eq_some_iff.mp hnext
      obtain ⟨i, hi, heq⟩ := List.mem_iff_getElem.mp ho
      have hread : read cells i = some c' := by
        rw [read, List.getElem?_eq_getElem hi, heq]
        rfl
      have hlt := h.older i c' b hread hc'
      exact ⟨i, c', hread, by omega⟩
  obtain ⟨b, cb, hb, hle⟩ := hmore cells.length
  have := read_lt hb
  omega

end OnDemandVirt.Lib.RefLists
