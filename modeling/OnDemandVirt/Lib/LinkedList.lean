import Mathlib.Data.List.Chain
import Mathlib.Data.List.Nodup
import Mathlib.Logic.Function.Basic
import Mathlib.Logic.Relation

/-!
# Lists linked through pointers

The nodes of a list hold the pointer to the next one, and the last holds a pointer of its own, which
may lead back into the list. Writing two pointers inserts a node behind another, writing one takes
the node out. Beside it the pointers to the previous node, of which some nodes may have none.
-/

namespace OnDemandVirt.Lib.LinkedList

variable {α : Type*}

/-- The pointers lead through the list in order, and from its last node to `e`. -/
def Linked (next : α → Option α) : List α → Option α → Prop
  | [], _ => True
  | a :: l, e => next a = l.head?.or e ∧ Linked next l e

/-- The pointers lead back through the list. Between two `fixed` nodes there may be none. -/
def BackLinked (fixed : α → Prop) (prev : α → Option α) (l : List α) : Prop :=
  l.IsChain fun a b => prev b = some a ∨ fixed a ∧ fixed b ∧ prev b = none

variable {next prev : α → Option α} {fixed : α → Prop} {l l₁ l₂ : List α} {a x y : α}
  {e e' v : Option α}

/-! ### Following -/

theorem linked_append :
    Linked next (l₁ ++ l₂) e ↔ Linked next l₁ (l₂.head?.or e) ∧ Linked next l₂ e := by
  induction l₁ with
  | nil => exact ⟨fun h => ⟨trivial, h⟩, And.right⟩
  | cons b l₁ ih =>
    simp only [List.cons_append, Linked, ih, List.head?_append, Option.or_assoc, and_assoc]

theorem Linked.next_eq (h : Linked next (l₁ ++ a :: l₂) e) : next a = l₂.head?.or e :=
  (linked_append.1 h).2.1

/-- The pointers lead out of the list at its end only. -/
theorem Linked.mem_of_next (h : Linked next l e) (hx : x ∈ l) (hy : next x = some y) :
    y ∈ l ∨ e = some y := by
  obtain ⟨l₁, l₂, rfl⟩ := List.append_of_mem hx
  rw [h.next_eq, Option.or_eq_some_iff] at hy
  rcases hy with hy | ⟨-, hy⟩
  · exact .inl (by simp [List.mem_of_head? hy])
  · exact .inr hy

/-- What is reached by following the pointers. -/
def Reaches (next : α → Option α) : α → α → Prop :=
  Relation.ReflTransGen fun x y => next x = some y

theorem Linked.reaches_of_mem (h : Linked next (a :: l) e) (hx : x ∈ a :: l) : Reaches next a x := by
  induction l generalizing a with
  | nil =>
    rw [List.mem_singleton.mp hx]
    exact .refl
  | cons b l ih =>
    rcases List.mem_cons.mp hx with rfl | hx
    · exact .refl
    · exact .head h.1 (ih h.2 hx)

/-- A list whose end leads into it is closed. -/
theorem Linked.mem_of_reaches (h : Linked next l e) (he : ∀ y, e = some y → y ∈ l) (hx : x ∈ l)
    (hr : Reaches next x y) : y ∈ l := by
  induction hr with
  | refl => exact hx
  | tail _ hstep ih => exact (h.mem_of_next ih hstep).elim id (he _)

/-- From the first node on, the pointers visit the nodes of the list and no others. -/
theorem Linked.reaches_iff (h : Linked next (a :: l) e) (he : ∀ y, e = some y → y ∈ a :: l) :
    Reaches next a x ↔ x ∈ a :: l :=
  ⟨h.mem_of_reaches he List.mem_cons_self, h.reaches_of_mem⟩

theorem Linked.follow (h : Linked next (a :: l) (some y)) :
    Relation.TransGen (fun x y => next x = some y) a y := by
  induction l generalizing a with
  | nil => exact .single h.1
  | cons b l ih => exact .head h.1 (ih h.2)

/-- A node that following the pointers comes back to. -/
def OnCycle (next : α → Option α) (x : α) : Prop := Relation.TransGen (fun x y => next x = some y) x x

/-- The nodes on a cycle are those from the node that the end leads to. -/
theorem Linked.onCycle_iff (h : Linked next (l₁ ++ l₂) l₂.head?) (hd : (l₁ ++ l₂).Nodup)
    (hx : x ∈ l₁ ++ l₂) : OnCycle next x ↔ x ∈ l₂ := by
  have h₂ : Linked next l₂ l₂.head? := (linked_append.1 h).2
  constructor
  · intro hcycle
    rcases List.mem_append.mp hx with hx | hx
    · -- behind `x` the list is closed, and does not hold `x`
      obtain ⟨l, l', rfl⟩ := List.append_of_mem hx
      rw [List.append_assoc, List.cons_append] at h hd
      have hrest := (linked_append.1 h).2.2
      have hend : ∀ y, l₂.head? = some y → y ∈ l' ++ l₂ := fun y hy =>
        List.mem_append_right _ (List.mem_of_head? hy)
      have hnot : x ∉ l' ++ l₂ := (List.nodup_cons.mp (List.nodup_append.mp hd).2.1).1
      obtain ⟨y, hxy, hyx⟩ := Relation.TransGen.head'_iff.mp hcycle
      rw [h.next_eq] at hxy
      have hy : y ∈ l' ++ l₂ := by
        rcases Option.or_eq_some_iff.mp hxy with hxy | ⟨-, hxy⟩
        · exact List.mem_of_head? hxy
        · exact hend y hxy
      exact absurd (hrest.mem_of_reaches hend hy hyx) hnot
    · exact hx
  · intro hx
    obtain ⟨l, l', rfl⟩ := List.append_of_mem hx
    cases hhead : (l ++ x :: l').head? with
    | none => simp at hhead
    | some b =>
      rw [hhead] at h₂
      obtain ⟨rest, hrest⟩ : ∃ rest, l ++ x :: l' = b :: rest := List.head?_eq_some_iff.mp hhead
      have hback : Reaches next b x := by
        rw [hrest] at h₂
        exact h₂.reaches_of_mem (hrest ▸ by simp)
      exact (linked_append.1 h₂).2.follow.trans_left hback

/-- Following the pointers from one node until another comes for the first time. -/
theorem exists_linked (h : Relation.TransGen (fun x y => next x = some y) a y) :
    ∃ l, Linked next (a :: l) (some y) ∧ y ∉ l ∧ (a :: l).Nodup := by
  induction h using Relation.TransGen.head_induction_on with
  | single h => exact ⟨[], ⟨h, trivial⟩, List.not_mem_nil, List.nodup_singleton _⟩
  | head hab hby ih =>
    rename_i a b
    obtain ⟨l, hl, hy, hd⟩ := ih
    by_cases hb : b = y
    · exact ⟨[], ⟨hb ▸ hab, trivial⟩, List.not_mem_nil, List.nodup_singleton _⟩
    · have hy' : y ∉ b :: l := fun hmem => (List.mem_cons.mp hmem).elim (fun h => hb h.symm) hy
      by_cases ha : a ∈ b :: l
      · -- the way leads back to `a`: what follows there is a shorter one
        obtain ⟨l₁, l₂, heq⟩ := List.append_of_mem ha
        rw [heq] at hl hd hy'
        exact ⟨l₂, (linked_append.1 hl).2,
          fun hmem => hy' (List.mem_append_right _ (List.mem_cons_of_mem _ hmem)),
          (List.nodup_append.mp hd).2.1⟩
      · exact ⟨b :: l, ⟨hab, hl⟩, hy', List.nodup_cons.mpr ⟨ha, hd⟩⟩

/-- There is only one way from one node until another comes for the first time. -/
theorem Linked.unique {l' : List α} (h : Linked next (a :: l) (some y)) (hy : y ∉ l)
    (h' : Linked next (a :: l') (some y)) (hy' : y ∉ l') : l = l' := by
  induction l generalizing a l' with
  | nil =>
    cases l' with
    | nil => rfl
    | cons b l' =>
      have heq : some b = some y := h'.1.symm.trans h.1
      cases heq
      exact absurd List.mem_cons_self hy'
  | cons b l ih =>
    cases l' with
    | nil =>
      have heq : some b = some y := h.1.symm.trans h'.1
      cases heq
      exact absurd List.mem_cons_self hy
    | cons b' l' =>
      have heq : some b = some b' := h.1.symm.trans h'.1
      cases heq
      rw [ih h.2 (fun hm => hy (List.mem_cons_of_mem _ hm)) h'.2
        fun hm => hy' (List.mem_cons_of_mem _ hm)]

/-- On the way until a node comes for the first time no node comes twice. -/
theorem Linked.nodup (h : Linked next (a :: l) (some y)) (hy : y ∉ l) : (a :: l).Nodup := by
  obtain ⟨l', hl', hy', hd⟩ := exists_linked h.follow
  rw [h.unique hy hl' hy']
  exact hd

theorem BackLinked.congr (h : BackLinked fixed prev l) (heq : ∀ b ∈ l.tail, next b = prev b) :
    BackLinked fixed next l :=
  h.imp_of_mem_tail_imp fun _ b _ hb hab => by rwa [heq b hb]

/-- A node that may not be fixed has the pointer to the one before it. -/
theorem BackLinked.prev_eq (h : BackLinked fixed prev (l₁ ++ a :: x :: l₂)) (hx : ¬fixed x) :
    prev x = some a :=
  (List.isChain_append_cons_cons.mp h).2.1.resolve_right fun h => hx h.2.1

/-! ### Writing -/

variable [DecidableEq α]

/-- The write through a pointer, if it is not null. -/
def setAt (f : α → Option α) : Option α → Option α → α → Option α
  | some y, v => Function.update f y v
  | none, _ => f

theorem setAt_eq_self {f : α → Option α} {p : Option α} (h : ∀ y ∈ p, f y = v) : setAt f p v = f := by
  cases p with
  | none => rfl
  | some y =>
    rw [setAt, ← h y rfl]
    exact Function.update_eq_self ..

theorem setAt_of_notMem {f : α → Option α} {p : Option α} (h : x ∉ p) : setAt f p v x = f x := by
  cases p with
  | none => rfl
  | some y =>
    refine Function.update_of_ne ?_ ..
    rintro rfl
    exact h rfl

theorem linked_update_of_notMem (ha : a ∉ l) :
    Linked (Function.update next a v) l e ↔ Linked next l e := by
  induction l with
  | nil => exact Iff.rfl
  | cons b l ih =>
    rw [List.mem_cons, not_or] at ha
    rw [Linked, Linked, ih ha.2, Function.update_of_ne (Ne.symm ha.1)]

/-- The pointer of the last node. -/
theorem Linked.setEnd (h : Linked next (l ++ [a]) e) (ha : a ∉ l) :
    Linked (Function.update next a e') (l ++ [a]) e' := by
  rw [linked_append] at h ⊢
  refine ⟨(linked_update_of_notMem ha).mpr h.1, ?_, trivial⟩
  rw [Function.update_self]
  rfl

/-- A node goes in behind another. -/
theorem Linked.insert (h : Linked next (l₁ ++ a :: l₂) e) (hd : (l₁ ++ a :: x :: l₂).Nodup) :
    Linked (Function.update (Function.update next x (next a)) a (some x)) (l₁ ++ a :: x :: l₂) e := by
  have ha := h.next_eq
  rw [List.nodup_append, List.nodup_cons, List.nodup_cons] at hd
  obtain ⟨-, ⟨hax, hxl, -⟩, hdisj⟩ := hd
  rw [List.mem_cons, not_or] at hax
  have hxl₁ : x ∉ l₁ := fun hx => hdisj x hx x (by simp) rfl
  have hal₁ : a ∉ l₁ := fun ha => hdisj a ha a (by simp) rfl
  rw [linked_append] at h ⊢
  obtain ⟨h₁, -, h₂⟩ := h
  refine ⟨?_, by rw [Function.update_self]; rfl, ?_, ?_⟩
  · rw [linked_update_of_notMem hal₁, linked_update_of_notMem hxl₁]
    exact h₁
  · rw [Function.update_of_ne (Ne.symm hax.1), Function.update_self, ha]
  · rw [linked_update_of_notMem hax.2, linked_update_of_notMem hxl]
    exact h₂

/-- A node goes in behind the last one. -/
theorem Linked.append (h : Linked next (l ++ [a]) e) (hd : (l ++ [a, x]).Nodup) :
    Linked (Function.update (Function.update next x v) a (some x)) (l ++ [a, x]) v := by
  rw [List.nodup_append, List.nodup_cons] at hd
  obtain ⟨-, ⟨hax, -⟩, hdisj⟩ := hd
  rw [List.mem_singleton] at hax
  rw [linked_append] at h ⊢
  refine ⟨?_, by rw [Function.update_self]; rfl, ?_, trivial⟩
  · rw [linked_update_of_notMem fun ha => hdisj a ha a (by simp) rfl,
      linked_update_of_notMem fun hx => hdisj x hx x (by simp) rfl]
    exact h.1
  · rw [Function.update_of_ne (Ne.symm hax), Function.update_self]
    rfl

/-- A node is taken out. -/
theorem Linked.remove (h : Linked next (l₁ ++ a :: x :: l₂) e) (hd : (l₁ ++ a :: x :: l₂).Nodup) :
    Linked (Function.update next a (next x)) (l₁ ++ a :: l₂) e := by
  rw [List.nodup_append, List.nodup_cons, List.nodup_cons] at hd
  obtain ⟨-, ⟨hax, -, -⟩, hdisj⟩ := hd
  rw [List.mem_cons, not_or] at hax
  have hal₁ : a ∉ l₁ := fun ha => hdisj a ha a (by simp) rfl
  rw [linked_append] at h ⊢
  obtain ⟨h₁, -, hx, h₂⟩ := h
  refine ⟨(linked_update_of_notMem hal₁).mpr h₁, ?_, (linked_update_of_notMem hax.2).mpr h₂⟩
  rw [Function.update_self, hx]

/-- The pointers back where a node goes in. -/
theorem BackLinked.insert (h : BackLinked fixed prev (l₁ ++ a :: l₂))
    (hd : (l₁ ++ a :: x :: l₂).Nodup) :
    BackLinked fixed (setAt (Function.update prev x (some a)) l₂.head? (some x))
      (l₁ ++ a :: x :: l₂) := by
  rw [List.nodup_append, List.nodup_cons, List.nodup_cons] at hd
  obtain ⟨-, ⟨hax, hxl, hdl⟩, hdisj⟩ := hd
  have hbefore : ∀ b ∈ (l₁ ++ [a]).tail, b ∉ x :: l₂ := by
    intro b hb hbl
    rcases List.mem_append.mp (List.mem_of_mem_tail hb) with hb | hb
    · exact hdisj b hb b (List.mem_cons_of_mem _ hbl) rfl
    · exact hax (List.mem_singleton.mp hb ▸ hbl)
  rw [BackLinked, List.isChain_append_cons_cons]
  cases l₂ with
  | nil =>
    refine ⟨BackLinked.congr h fun b hb => ?_, .inl (Function.update_self ..), List.isChain_singleton x⟩
    exact Function.update_of_ne (fun hbx => hbefore b hb (by simp [hbx])) ..
  | cons y l₂ =>
    rw [BackLinked, List.isChain_append_cons_cons] at h
    rw [List.mem_cons, not_or] at hxl
    rw [List.head?_cons, setAt, List.isChain_cons_cons]
    refine ⟨BackLinked.congr h.1 fun b hb => ?_, .inl ?_, .inl (Function.update_self ..),
      BackLinked.congr h.2.2 fun b hb => ?_⟩
    · have hb := hbefore b hb
      rw [List.mem_cons, List.mem_cons, not_or, not_or] at hb
      rw [Function.update_of_ne hb.2.1, Function.update_of_ne hb.1]
    · rw [Function.update_of_ne hxl.1, Function.update_self]
    · rw [Function.update_of_ne, Function.update_of_ne]
      · exact fun hbx => hxl.2 (hbx ▸ hb)
      · exact fun hby => (List.nodup_cons.mp hdl).1 (hby ▸ hb)

/-- The pointers back where a node is taken out. -/
theorem BackLinked.remove (h : BackLinked fixed prev (l₁ ++ a :: x :: l₂))
    (hd : (l₁ ++ a :: x :: l₂).Nodup) (hx : prev x = some a) :
    BackLinked fixed (setAt prev l₂.head? (prev x)) (l₁ ++ a :: l₂) := by
  rw [List.nodup_append, List.nodup_cons, List.nodup_cons] at hd
  obtain ⟨-, ⟨hax, -, hdl⟩, hdisj⟩ := hd
  rw [BackLinked, List.isChain_append_cons_cons] at h
  cases l₂ with
  | nil => exact h.1
  | cons y l₂ =>
    rw [BackLinked, List.isChain_append_cons_cons, List.head?_cons, setAt]
    refine ⟨BackLinked.congr h.1 fun b hb => Function.update_of_ne ?_ ..,
      .inl (by rw [Function.update_self, hx]),
      BackLinked.congr (List.isChain_cons_cons.mp h.2.2).2 fun b hb => Function.update_of_ne ?_ ..⟩
    · rintro rfl
      rcases List.mem_append.mp (List.mem_of_mem_tail hb) with hb | hb
      · exact hdisj b hb b (by simp) rfl
      · exact hax (by simp [← List.mem_singleton.mp hb])
    · rintro rfl
      exact (List.nodup_cons.mp hdl).1 hb

/-! ### The last node -/

/-- A node that goes in behind the last one becomes the last. -/
theorem getLast?_insert {t : α} (h : (l₁ ++ a :: l₂).getLast? = some t)
    (hd : (l₁ ++ a :: l₂).Nodup) :
    (l₁ ++ a :: x :: l₂).getLast? = some (if a = t then x else t) := by
  rw [List.getLast?_append_cons] at h ⊢
  cases l₂ with
  | nil =>
    rw [List.getLast?_singleton, Option.some.injEq] at h
    rw [if_pos h, List.getLast?_cons_cons, List.getLast?_singleton]
  | cons y l₂ =>
    rw [List.getLast?_cons_cons] at h
    have hat : a ≠ t := by
      rintro rfl
      exact (List.nodup_cons.mp (List.nodup_append.mp hd).2.1).1 (List.mem_of_getLast? h)
    rw [if_neg hat, List.getLast?_cons_cons, List.getLast?_cons_cons, h]

/-- Where the last node is taken out, the one before it becomes the last. -/
theorem getLast?_remove {t : α} (h : (l₁ ++ a :: x :: l₂).getLast? = some t)
    (hd : (l₁ ++ a :: x :: l₂).Nodup) :
    (l₁ ++ a :: l₂).getLast? = some (if t = x then a else t) := by
  rw [List.getLast?_append_cons, List.getLast?_cons_cons] at h
  rw [List.getLast?_append_cons]
  cases l₂ with
  | nil =>
    rw [List.getLast?_singleton, Option.some.injEq] at h
    rw [if_pos h.symm, List.getLast?_singleton]
  | cons y l₂ =>
    rw [List.getLast?_cons_cons] at h
    have htx : t ≠ x := by
      rintro rfl
      have hd := (List.nodup_append.mp hd).2.1
      exact (List.nodup_cons.mp (List.nodup_cons.mp hd).2).1 (List.mem_of_getLast? h)
    rw [if_neg htx, List.getLast?_cons_cons, h]

end OnDemandVirt.Lib.LinkedList
