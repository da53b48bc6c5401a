import Mathlib.Data.List.Chain
import Mathlib.Data.List.Nodup
import Mathlib.Logic.Function.Basic

/-!
# Lists with links in both directions

A list with its head at both ends is a ring of positions, and each position has a link forward and
one backward, in some encoding of where they lead. Seen so, the ends of a list are no special
cases: a node is put in or taken out by the links of its two neighbours. `Refines.run` says that
operations which do that keep any number of lists as they should be.
-/

namespace OnDemandVirt.Lib.DoubleLinks

/-! ### Lists as they should be -/

inductive Op (H α : Type*)
  | init (h : H)
  | add (h : H) (x : α)
  | insert (h : H) (y : Option α) (x : α)
  | push (h : H) (x : α)
  | delete (h : H) (x : α)
  | pop (h : H)

/-- The lists by their heads, of which some are not initialised. -/
abbrev Lists (H α : Type*) := H → Option (List α)

section Abstract

variable {H α : Type*} [DecidableEq H] [DecidableEq α]

/-- The list with `x` ahead of `y`. -/
def insertBefore (y x : α) : List α → List α
  | [] => []
  | z :: l => if z = y then x :: z :: l else z :: insertBefore y x l

namespace Lists

def modify (s : Lists H α) (h : H) (f : List α → List α) : Lists H α :=
  Function.update s h ((s h).map f)

/-- `x` is in no list. -/
def Free (s : Lists H α) (x : α) : Prop := ∀ h l, s h = some l → x ∉ l

/-- An operation that may be called: what is put in is a free node of the pool, and what is taken
out or put ahead of is in the list. -/
def Valid (pool : α → Prop) (s : Lists H α) : Op H α → Prop
  | .init _ => True
  | .add h x | .insert h none x | .push h x => (s h).isSome ∧ pool x ∧ s.Free x
  | .insert h (some y) x => (∃ l, s h = some l ∧ y ∈ l) ∧ pool x ∧ s.Free x
  | .delete h x => ∃ l, s h = some l ∧ x ∈ l
  | .pop h => (s h).isSome

def apply (s : Lists H α) : Op H α → Lists H α
  | .init h => Function.update s h (some [])
  | .add h x | .insert h none x => s.modify h (· ++ [x])
  | .insert h (some y) x => s.modify h (insertBefore y x)
  | .push h x => s.modify h (x :: ·)
  | .delete h x => s.modify h (·.erase x)
  | .pop h => s.modify h List.tail

/-- What an operation returns. -/
def result (s : Lists H α) : Op H α → Option α
  | .delete _ x => some x
  | .pop h => (s h).bind List.head?
  | _ => none

/-- A sequence of operations each of which may be called. -/
def ValidRun (pool : α → Prop) : Lists H α → List (Op H α) → Prop
  | _, [] => True
  | s, op :: ops => s.Valid pool op ∧ ValidRun pool (s.apply op) ops

def run : List (Op H α) → Lists H α → List (Option α) × Lists H α
  | [], s => ([], s)
  | op :: ops, s =>
    let r := run ops (s.apply op)
    (s.result op :: r.1, r.2)

/-- The nodes are of the pool, and each is in one place. -/
structure Ok (pool : α → Prop) (s : Lists H α) : Prop where
  pool : ∀ h l, s h = some l → ∀ x ∈ l, pool x
  nodup : ∀ h l, s h = some l → l.Nodup
  apart : ∀ h h' l l', s h = some l → s h' = some l' → h ≠ h' → l.Disjoint l'

end Lists

end Abstract

/-! ### Rings -/

/-- Where a link leads: to a head or a node. -/
inductive Pos (H α : Type*)
  | head (h : H)
  | node (x : α)
deriving DecidableEq

/-- The node at a position, if there is one. -/
def Pos.node? {H α : Type*} : Pos H α → Option α
  | head _ => none
  | node x => some x

section Links

variable {P F B : Type*} (encF : P → F) (encB : P → B)

/-- Neighbours. -/
def Link (fwd : P → F) (bwd : P → B) (p q : P) : Prop := fwd p = encF q ∧ bwd q = encB p

/-- The links lead around the ring of `r` and `l`. -/
def Ring (fwd : P → F) (bwd : P → B) (r : P) (l : List P) : Prop :=
  (r :: (l ++ [r])).IsChain (Link encF encB fwd bwd)

/-- The links are changed so that `x` is between `p` and `q`. -/
structure Inserted (fwd : P → F) (bwd : P → B) (fwd' : P → F) (bwd' : P → B) (x p q : P) :
    Prop where
  left : Link encF encB fwd' bwd' p x
  right : Link encF encB fwd' bwd' x q
  fwd_eq : ∀ a, a ≠ p → a ≠ x → fwd' a = fwd a
  bwd_eq : ∀ b, b ≠ q → b ≠ x → bwd' b = bwd b

/-- The links are changed so that `x` is not between `p` and `q`. -/
structure Removed (fwd : P → F) (bwd : P → B) (fwd' : P → F) (bwd' : P → B) (x p q : P) :
    Prop where
  link : Link encF encB fwd' bwd' p q
  fwd_eq : ∀ a, a ≠ p → a ≠ x → fwd' a = fwd a
  bwd_eq : ∀ b, b ≠ q → b ≠ x → bwd' b = bwd b

variable {encF encB} {fwd fwd' : P → F} {bwd bwd' : P → B} {r p q x : P} {l l₁ l₂ : List P}

theorem Inserted.of_update [DecidableEq P] (hp : p ≠ x) (hq : q ≠ x)
    (hf : fwd' = Function.update (Function.update fwd x (encF q)) p (encF x))
    (hb : bwd' = Function.update (Function.update bwd x (encB p)) q (encB x)) :
    Inserted encF encB fwd bwd fwd' bwd' x p q := by
  subst hf hb
  refine ⟨⟨Function.update_self .., ?_⟩, ⟨?_, Function.update_self ..⟩, fun a ha hx => ?_,
    fun b hb hx => ?_⟩
  · rw [Function.update_of_ne hq.symm, Function.update_self]
  · rw [Function.update_of_ne hp.symm, Function.update_self]
  · rw [Function.update_of_ne ha, Function.update_of_ne hx]
  · rw [Function.update_of_ne hb, Function.update_of_ne hx]

theorem Removed.of_update [DecidableEq P] (hf : fwd' = Function.update fwd p (encF q))
    (hb : bwd' = Function.update bwd q (encB p)) :
    Removed encF encB fwd bwd fwd' bwd' x p q := by
  subst hf hb
  exact ⟨⟨Function.update_self .., Function.update_self ..⟩,
    fun a ha _ => Function.update_of_ne ha .., fun b hb _ => Function.update_of_ne hb ..⟩

theorem isChain_congr (h : l.IsChain (Link encF encB fwd bwd))
    (hf : ∀ p ∈ l.dropLast, fwd' p = fwd p) (hb : ∀ q ∈ l.tail, bwd' q = bwd q) :
    l.IsChain (Link encF encB fwd' bwd') := by
  induction l with
  | nil => exact .nil
  | cons a l ih =>
    cases l with
    | nil => exact .singleton a
    | cons b l =>
      obtain ⟨⟨hfwd, hbwd⟩, hrest⟩ := List.isChain_cons_cons.mp h
      refine List.isChain_cons_cons.mpr ⟨⟨?_, ?_⟩, ih hrest ?_ ?_⟩
      · rw [hf a (by simp), hfwd]
      · rw [hb b (by simp), hbwd]
      · exact fun p hp => hf p (by simp [hp])
      · exact fun q hq => hb q (List.mem_of_mem_tail hq)

theorem Ring.congr (h : Ring encF encB fwd bwd r l) (hf : ∀ p ∈ r :: l, fwd' p = fwd p)
    (hb : ∀ q ∈ r :: l, bwd' q = bwd q) : Ring encF encB fwd' bwd' r l := by
  refine isChain_congr h (fun p hp => hf p ?_) fun q hq => hb q ?_
  · rwa [← List.cons_append, List.dropLast_concat] at hp
  · rw [List.tail_cons, List.mem_append, List.mem_singleton] at hq
    exact List.mem_cons.mpr hq.symm

/-- A ring that is cut open. -/
theorem ring_iff : Ring encF encB fwd bwd r (l₁ ++ l₂) ↔
    (r :: l₁).IsChain (Link encF encB fwd bwd) ∧ (l₂ ++ [r]).IsChain (Link encF encB fwd bwd) ∧
      ∀ p ∈ (r :: l₁).getLast?, ∀ q ∈ (l₂ ++ [r]).head?, Link encF encB fwd bwd p q := by
  unfold Ring
  rw [List.append_assoc, ← List.cons_append, List.isChain_append]

/-- The last position before a place in the ring, and the first one after it. -/
structure Between (r : P) (l₁ l₂ : List P) (p q : P) : Prop where
  last : (r :: l₁).getLast? = some p
  first : (l₂ ++ [r]).head? = some q

theorem exists_between (r : P) (l₁ l₂ : List P) : ∃ p q, Between r l₁ l₂ p q := by
  refine ⟨(r :: l₁).getLast (List.cons_ne_nil _ _), (l₂ ++ [r]).head (by simp), ?_, ?_⟩
  · exact List.getLast?_eq_some_getLast _
  · exact List.head?_eq_some_head _

namespace Between

theorem left_mem (h : Between r l₁ l₂ p q) : p ∈ r :: l₁ := List.mem_of_getLast? h.last

theorem right_mem (h : Between r l₁ l₂ p q) : q ∈ r :: l₂ := by
  have hq := List.mem_of_head? h.first
  rw [List.mem_append, List.mem_singleton] at hq
  exact List.mem_cons.mpr hq.symm

theorem link (h : Between r l₁ l₂ p q) (hring : Ring encF encB fwd bwd r (l₁ ++ l₂)) :
    Link encF encB fwd bwd p q :=
  (ring_iff.1 hring).2.2 p h.last q h.first

/-- The two open ends of the ring do not change if only the links at the place do. -/
theorem congr (h : Between r l₁ l₂ p q) (hleft : (r :: l₁).IsChain (Link encF encB fwd bwd))
    (hright : (l₂ ++ [r]).IsChain (Link encF encB fwd bwd)) (hnodup : (r :: (l₁ ++ l₂)).Nodup)
    (hf : ∀ a ∈ r :: (l₁ ++ l₂), a ≠ p → fwd' a = fwd a)
    (hb : ∀ b ∈ r :: (l₁ ++ l₂), b ≠ q → bwd' b = bwd b) :
    (r :: l₁).IsChain (Link encF encB fwd' bwd') ∧
      (l₂ ++ [r]).IsChain (Link encF encB fwd' bwd') := by
  obtain ⟨hnot, hnodup⟩ := List.nodup_cons.mp hnodup
  obtain ⟨hnodup₁, hnodup₂, hapart⟩ := List.nodup_append'.mp hnodup
  obtain ⟨A, hA⟩ : ∃ A, r :: l₁ = A ++ [p] := List.getLast?_eq_some_iff.mp h.last
  obtain ⟨C, hC⟩ : ∃ C, l₂ ++ [r] = q :: C := List.head?_eq_some_iff.mp h.first
  have hnotA : p ∉ A := by
    have hnodupA : (A ++ [p]).Nodup := hA ▸ List.nodup_cons.mpr
      ⟨fun hr => hnot (List.mem_append_left _ hr), hnodup₁⟩
    exact fun hp => (List.nodup_append'.mp hnodupA).2.2 hp (by simp)
  have hnotC : q ∉ C := by
    have hnodupC : (q :: C).Nodup := hC ▸ List.nodup_append'.mpr ⟨hnodup₂, by simp, by
      simpa using fun hr => hnot (List.mem_append_right _ hr)⟩
    exact (List.nodup_cons.mp hnodupC).1
  constructor
  · refine isChain_congr hleft (fun a ha => ?_) fun b hb' => ?_
    · rw [hA, List.dropLast_concat] at ha
      have hmem : a ∈ r :: l₁ := hA ▸ List.mem_append_left _ ha
      refine hf a ?_ (ne_of_mem_of_not_mem ha hnotA)
      rw [← List.cons_append]
      exact List.mem_append_left _ hmem
    · have hmem : b ∈ l₁ := hb'
      refine hb b (List.mem_cons_of_mem _ (List.mem_append_left _ hmem)) ?_
      rintro rfl
      rcases List.mem_cons.mp h.right_mem with rfl | hq
      · exact hnot (List.mem_append_left _ hmem)
      · exact hapart hmem hq
  · refine isChain_congr hright (fun a ha => ?_) fun b hb' => ?_
    · rw [List.dropLast_concat] at ha
      refine hf a (List.mem_cons_of_mem _ (List.mem_append_right _ ha)) ?_
      rintro rfl
      rcases List.mem_cons.mp h.left_mem with rfl | hp
      · exact hnot (List.mem_append_right _ ha)
      · exact hapart hp ha
    · have hmem : b ∈ C := by rwa [hC] at hb'
      have hmem' : b ∈ l₂ ++ [r] := hC ▸ List.mem_cons_of_mem _ hmem
      refine hb b ?_ (ne_of_mem_of_not_mem hmem hnotC)
      rw [List.mem_append, List.mem_singleton] at hmem'
      rcases hmem' with hb₂ | rfl
      · exact List.mem_cons_of_mem _ (List.mem_append_right _ hb₂)
      · exact List.mem_cons_self

end Between

/-- A position is put into a ring. -/
theorem Ring.insert (hring : Ring encF encB fwd bwd r (l₁ ++ l₂)) (h : Between r l₁ l₂ p q)
    (hnodup : (r :: (l₁ ++ l₂)).Nodup) (hx : x ∉ r :: (l₁ ++ l₂))
    (hins : Inserted encF encB fwd bwd fwd' bwd' x p q) :
    Ring encF encB fwd' bwd' r (l₁ ++ x :: l₂) := by
  have hne : ∀ a ∈ r :: (l₁ ++ l₂), a ≠ x := fun a ha => ne_of_mem_of_not_mem ha hx
  obtain ⟨hleft, hright, -⟩ := ring_iff.1 hring
  obtain ⟨hleft, hright⟩ := h.congr hleft hright hnodup
    (fun a ha hp => hins.fwd_eq a hp (hne a ha)) fun b hb hq => hins.bwd_eq b hq (hne b hb)
  refine ring_iff.2 ⟨hleft, ?_, fun a ha b hb => ?_⟩
  · refine hright.cons fun b hb => ?_
    rw [h.first, Option.mem_some] at hb
    exact hb ▸ hins.right
  · rw [h.last, Option.mem_some] at ha
    rw [List.cons_append, List.head?_cons, Option.mem_some] at hb
    exact ha ▸ hb ▸ hins.left

/-- A position in a ring and its neighbours. -/
theorem Ring.links (hring : Ring encF encB fwd bwd r (l₁ ++ x :: l₂))
    (h : Between r l₁ l₂ p q) :
    Link encF encB fwd bwd p x ∧ Link encF encB fwd bwd x q := by
  obtain ⟨-, hright, hlink⟩ := ring_iff.1 hring
  exact ⟨hlink p h.last x rfl, (List.isChain_cons.mp hright).1 q h.first⟩

/-- A position is taken out of a ring. -/
theorem Ring.remove (hring : Ring encF encB fwd bwd r (l₁ ++ x :: l₂)) (h : Between r l₁ l₂ p q)
    (hnodup : (r :: (l₁ ++ x :: l₂)).Nodup) (hrem : Removed encF encB fwd bwd fwd' bwd' x p q) :
    Ring encF encB fwd' bwd' r (l₁ ++ l₂) := by
  have hperm : (r :: (l₁ ++ x :: l₂)).Perm (x :: r :: (l₁ ++ l₂)) :=
    (List.perm_middle.cons r).trans (List.Perm.swap x r _)
  obtain ⟨hx, hnodup'⟩ := List.nodup_cons.mp (hperm.nodup_iff.mp hnodup)
  have hne : ∀ a ∈ r :: (l₁ ++ l₂), a ≠ x := fun a ha => ne_of_mem_of_not_mem ha hx
  obtain ⟨hleft, hright, -⟩ := ring_iff.1 hring
  obtain ⟨hleft', hright'⟩ := h.congr hleft hright.of_cons hnodup'
    (fun a ha hp => hrem.fwd_eq a hp (hne a ha)) fun b hb hq => hrem.bwd_eq b hq (hne b hb)
  refine ring_iff.2 ⟨hleft', hright', fun a ha b hb => ?_⟩
  rw [h.last, Option.mem_some] at ha
  rw [h.first, Option.mem_some] at hb
  exact ha ▸ hb ▸ hrem.link

end Links

/-! ### Lists in a memory -/

section Memory

variable {H α B M : Type*} [DecidableEq H] [DecidableEq α]

/-- The operations of an implementation. -/
structure Impl (H α M : Type*) where
  init : H → M → M
  add : H → α → M → M
  insert : H → Option α → α → M → M
  push : H → α → M → M
  delete : H → α → M → M
  first : H → M → Option α

namespace Impl

variable (I : Impl H α M)

/-- An operation: what it returns, and the memory. -/
def exec : Op H α → M → Option α × M
  | .init h, m => (none, I.init h m)
  | .add h x, m => (none, I.add h x m)
  | .insert h y x, m => (none, I.insert h y x m)
  | .push h x, m => (none, I.push h x m)
  | .delete h x, m => (some x, I.delete h x m)
  | .pop h, m =>
    match I.first h m with
    | none => (none, m)
    | some x => (some x, I.delete h x m)

def run : List (Op H α) → M → List (Option α) × M
  | [], m => ([], m)
  | op :: ops, m =>
    let r := run ops (I.exec op m).2
    ((I.exec op m).1 :: r.1, r.2)

end Impl

/-- The head `h`, or a node of the pool other than `x`. -/
def Near (pool : α → Prop) (h : H) (x : α) : Pos H α → Prop
  | .head h' => h' = h
  | .node z => pool z ∧ z ≠ x

variable (pool : α → Prop) (encB : Pos H α → B)

/-- Each operation changes the links at its own place only, and as it should. -/
structure Impl.Lawful (I : Impl H α M) (fwd : M → Pos H α → Option α) (bwd : M → Pos H α → B) :
    Prop where
  first : ∀ h m, I.first h m = fwd m (.head h)
  init : ∀ h m, Link Pos.node? encB (fwd (I.init h m)) (bwd (I.init h m)) (.head h) (.head h) ∧
    ∀ a, a ≠ .head h → fwd (I.init h m) a = fwd m a ∧ bwd (I.init h m) a = bwd m a
  add : ∀ h x p m, pool x → Near pool h x p → Link Pos.node? encB (fwd m) (bwd m) p (.head h) →
    Inserted Pos.node? encB (fwd m) (bwd m) (fwd (I.add h x m)) (bwd (I.add h x m)) (.node x) p
      (.head h)
  insert : ∀ h x y p m, pool x → pool y → y ≠ x → Near pool h x p →
    Link Pos.node? encB (fwd m) (bwd m) p (.node y) →
    Inserted Pos.node? encB (fwd m) (bwd m) (fwd (I.insert h (some y) x m))
      (bwd (I.insert h (some y) x m)) (.node x) p (.node y)
  insert_none : ∀ h x m, I.insert h none x m = I.add h x m
  push : ∀ h x q m, pool x → Near pool h x q → Link Pos.node? encB (fwd m) (bwd m) (.head h) q →
    Inserted Pos.node? encB (fwd m) (bwd m) (fwd (I.push h x m)) (bwd (I.push h x m)) (.node x)
      (.head h) q
  delete : ∀ h x p q m, pool x → Near pool h x p → Near pool h x q → (p = q → p = .head h) →
    Link Pos.node? encB (fwd m) (bwd m) p (.node x) →
    Link Pos.node? encB (fwd m) (bwd m) (.node x) q →
    Removed Pos.node? encB (fwd m) (bwd m) (fwd (I.delete h x m)) (bwd (I.delete h x m)) (.node x)
      p q

/-- The links hold the lists. -/
structure Holds (fwd : Pos H α → Option α) (bwd : Pos H α → B) (s : Lists H α) : Prop where
  ok : s.Ok pool
  rings : ∀ h l, s h = some l → Ring Pos.node? encB fwd bwd (.head h) (l.map .node)

variable {pool encB} {fwd fwd' : Pos H α → Option α} {bwd bwd' : Pos H α → B} {s : Lists H α}
  {h : H} {x y : α} {l l₁ l₂ : List α} {p q : Pos H α}

omit [DecidableEq H] [DecidableEq α] in
theorem nodup_ring (hl : l.Nodup) : (Pos.head h :: l.map Pos.node).Nodup := by
  refine List.nodup_cons.mpr ⟨by simp, ?_⟩
  exact hl.map fun a b hab => by injection hab

omit [DecidableEq H] [DecidableEq α] in
theorem near_of_mem (hp : p ∈ Pos.head h :: l.map Pos.node) (hpool : ∀ z ∈ l, pool z)
    (hx : x ∉ l) : Near pool h x p := by
  rcases List.mem_cons.mp hp with rfl | hp
  · rfl
  · obtain ⟨z, hz, rfl⟩ := List.mem_map.mp hp
    exact ⟨hpool z hz, ne_of_mem_of_not_mem hz hx⟩

omit [DecidableEq α] in
theorem of_update {h' : H} {l' : List α} (hl' : Function.update s h (some l) h' = some l') :
    (h' = h ∧ l' = l) ∨ (h' ≠ h ∧ s h' = some l') := by
  by_cases hne : h' = h
  · rw [hne, Function.update_self] at hl'
    exact .inl ⟨hne, (Option.some.inj hl').symm⟩
  · rw [Function.update_of_ne hne] at hl'
    exact .inr ⟨hne, hl'⟩

omit [DecidableEq α] in
/-- One list is replaced. -/
theorem Lists.Ok.update (hok : s.Ok pool) (hpool : ∀ x ∈ l, pool x) (hnodup : l.Nodup)
    (hapart : ∀ h' l', h' ≠ h → s h' = some l' → l.Disjoint l') :
    Lists.Ok pool (Function.update s h (some l)) where
  pool h' l' hl' := by
    rcases of_update hl' with ⟨-, rfl⟩ | ⟨-, hl'⟩
    · exact hpool
    · exact hok.pool h' l' hl'
  nodup h' l' hl' := by
    rcases of_update hl' with ⟨-, rfl⟩ | ⟨-, hl'⟩
    · exact hnodup
    · exact hok.nodup h' l' hl'
  apart h₁ h₂ l₁ l₂ hl₁ hl₂ hne := by
    rcases of_update hl₁ with ⟨rfl, rfl⟩ | ⟨hne₁, hold₁⟩
    · rcases of_update hl₂ with ⟨rfl, -⟩ | ⟨hne₂, hold₂⟩
      · exact absurd rfl hne
      · exact hapart h₂ l₂ hne₂ hold₂
    · rcases of_update hl₂ with ⟨rfl, rfl⟩ | ⟨-, hold₂⟩
      · exact fun z hz hz' => hapart h₁ l₁ hne₁ hold₁ hz' hz
      · exact hok.apart h₁ h₂ l₁ l₂ hold₁ hold₂ hne

omit [DecidableEq H] [DecidableEq α] in
/-- A position of a list is no position of another. -/
theorem ne_of_other (hok : s.Ok pool) {h' : H} {l' : List α} (hl : s h = some l)
    (hl' : s h' = some l') (hne : h' ≠ h) {a : Pos H α} (ha : a ∈ Pos.head h' :: l'.map Pos.node)
    (hp : p ∈ Pos.head h :: l.map Pos.node) : a ≠ p := by
  rintro rfl
  rcases List.mem_cons.mp ha with rfl | ha
  · rcases List.mem_cons.mp hp with hp | hp
    · injection hp with hp
      exact hne hp
    · simp at hp
  · obtain ⟨z, hz, rfl⟩ := List.mem_map.mp ha
    have hz' : z ∈ l := by simpa using hp
    exact hok.apart h h' l l' hl hl' hne.symm hz' hz

omit [DecidableEq α] in
/-- A list is replaced by one whose ring is made, where the links of no other list change. -/
theorem Holds.update {l' : List α} (hs : Holds pool encB fwd bwd s)
    (hok : Lists.Ok pool (Function.update s h (some l')))
    (hring : Ring Pos.node? encB fwd' bwd' (.head h) (l'.map .node))
    (hf : ∀ h' l', h' ≠ h → s h' = some l' → ∀ a ∈ Pos.head h' :: l'.map Pos.node,
      fwd' a = fwd a ∧ bwd' a = bwd a) :
    Holds pool encB fwd' bwd' (Function.update s h (some l')) := by
  refine ⟨hok, fun h₁ l₁ hl₁ => ?_⟩
  rcases of_update hl₁ with ⟨rfl, rfl⟩ | ⟨hne, hl₁⟩
  · exact hring
  · exact (hs.rings h₁ l₁ hl₁).congr (fun a ha => (hf h₁ l₁ hne hl₁ a ha).1)
      fun a ha => (hf h₁ l₁ hne hl₁ a ha).2

omit [DecidableEq α] in
/-- A free node is put in. -/
theorem Holds.insert (hs : Holds pool encB fwd bwd s) (hl : s h = some (l₁ ++ l₂)) (hx : pool x)
    (hfree : s.Free x) (hb : Between (.head h) (l₁.map .node) (l₂.map .node) p q)
    (hins : Inserted Pos.node? encB fwd bwd fwd' bwd' (.node x) p q) :
    Holds pool encB fwd' bwd' (Function.update s h (some (l₁ ++ x :: l₂))) := by
  have hnotin : x ∉ l₁ ++ l₂ := hfree h _ hl
  have hperm : (l₁ ++ x :: l₂).Perm (x :: (l₁ ++ l₂)) := List.perm_middle
  have hok : Lists.Ok pool (Function.update s h (some (l₁ ++ x :: l₂))) := by
    refine hs.ok.update (fun z hz => ?_) ?_ fun h' l' hne hl' => ?_
    · rcases List.mem_cons.mp (hperm.mem_iff.mp hz) with rfl | hz
      · exact hx
      · exact hs.ok.pool h _ hl z hz
    · exact hperm.nodup_iff.mpr (List.nodup_cons.mpr ⟨hnotin, hs.ok.nodup h _ hl⟩)
    · intro z hz hz'
      rcases List.mem_cons.mp (hperm.mem_iff.mp hz) with rfl | hz
      · exact hfree h' l' hl' hz'
      · exact hs.ok.apart h h' _ _ hl hl' hne.symm hz hz'
  have hring := hs.rings h _ hl
  rw [List.map_append] at hring
  have hnew := hring.insert hb (by
    rw [← List.map_append]
    exact nodup_ring (hs.ok.nodup h _ hl)) (by
    rw [← List.map_append]
    simpa using hnotin) hins
  refine hs.update hok (by rwa [List.map_append, List.map_cons]) fun h' l' hne hl' a ha => ?_
  have hp : p ∈ Pos.head h :: (l₁ ++ l₂).map Pos.node := by
    rw [List.map_append, ← List.cons_append]
    exact List.mem_append_left _ hb.left_mem
  have hq : q ∈ Pos.head h :: (l₁ ++ l₂).map Pos.node := by
    rcases List.mem_cons.mp hb.right_mem with rfl | hq
    · exact List.mem_cons_self
    · rw [List.map_append]
      exact List.mem_cons_of_mem _ (List.mem_append_right _ hq)
  have hax : a ≠ .node x := by
    rintro rfl
    exact hfree h' l' hl' (by simpa using ha)
  exact ⟨hins.fwd_eq a (ne_of_other hs.ok hl hl' hne ha hp) hax,
    hins.bwd_eq a (ne_of_other hs.ok hl hl' hne ha hq) hax⟩

omit [DecidableEq α] in
/-- A node is taken out. -/
theorem Holds.remove (hs : Holds pool encB fwd bwd s) (hl : s h = some (l₁ ++ x :: l₂))
    (hb : Between (.head h) (l₁.map .node) (l₂.map .node) p q)
    (hrem : Removed Pos.node? encB fwd bwd fwd' bwd' (.node x) p q) :
    Holds pool encB fwd' bwd' (Function.update s h (some (l₁ ++ l₂))) := by
  have hsub : ∀ z ∈ l₁ ++ l₂, z ∈ l₁ ++ x :: l₂ := fun z hz => by
    rw [List.mem_append] at hz
    simp only [List.mem_append, List.mem_cons]
    tauto
  have hok : Lists.Ok pool (Function.update s h (some (l₁ ++ l₂))) := by
    refine hs.ok.update (fun z hz => hs.ok.pool h _ hl z (hsub z hz)) ?_ fun h' l' hne hl' => ?_
    · exact (List.nodup_cons.mp (List.perm_middle.nodup_iff.mp (hs.ok.nodup h _ hl))).2
    · exact fun z hz hz' => hs.ok.apart h h' _ _ hl hl' hne.symm (hsub z hz) hz'
  have hnodup := nodup_ring (H := H) (h := h) (hs.ok.nodup h _ hl)
  have hring := hs.rings h _ hl
  rw [List.map_append, List.map_cons] at hring hnodup
  have hnew := hring.remove hb hnodup hrem
  refine hs.update hok (by rwa [List.map_append]) fun h' l' hne hl' a ha => ?_
  have hp : p ∈ Pos.head h :: (l₁ ++ x :: l₂).map Pos.node := by
    rw [List.map_append, ← List.cons_append]
    exact List.mem_append_left _ hb.left_mem
  have hq : q ∈ Pos.head h :: (l₁ ++ x :: l₂).map Pos.node := by
    rcases List.mem_cons.mp hb.right_mem with rfl | hq
    · exact List.mem_cons_self
    · rw [List.map_append, List.map_cons]
      exact List.mem_cons_of_mem _ (List.mem_append_right _ (List.mem_cons_of_mem _ hq))
  have hx : Pos.node x ∈ Pos.head h :: (l₁ ++ x :: l₂).map Pos.node := by simp
  have hax := ne_of_other hs.ok hl hl' hne ha hx
  exact ⟨hrem.fwd_eq a (ne_of_other hs.ok hl hl' hne ha hp) hax,
    hrem.bwd_eq a (ne_of_other hs.ok hl hl' hne ha hq) hax⟩

omit [DecidableEq α] in
/-- A list is initialised. -/
theorem Holds.init (hs : Holds pool encB fwd bwd s)
    (hlink : Link Pos.node? encB fwd' bwd' (.head h) (.head h))
    (hf : ∀ a, a ≠ .head h → fwd' a = fwd a ∧ bwd' a = bwd a) :
    Holds pool encB fwd' bwd' (Function.update s h (some [])) := by
  refine hs.update (hs.ok.update (by simp) List.nodup_nil (by simp)) ?_ fun h' l' hne hl' a ha => ?_
  · exact List.isChain_pair.mpr hlink
  · refine hf a ?_
    rintro rfl
    rcases List.mem_cons.mp ha with ha | ha
    · injection ha with ha
      exact hne ha.symm
    · simp at ha

/-! ### Runs -/

theorem insertBefore_eq (hy : y ∉ l₁) :
    insertBefore y x (l₁ ++ y :: l₂) = l₁ ++ x :: y :: l₂ := by
  induction l₁ with
  | nil => exact if_pos rfl
  | cons z l₁ ih =>
    rw [List.mem_cons, not_or] at hy
    rw [List.cons_append, insertBefore, if_neg (Ne.symm hy.1), ih hy.2]
    rfl

omit [DecidableEq H] [DecidableEq α] in
theorem Holds.between (hs : Holds pool encB fwd bwd s) (hl : s h = some (l₁ ++ l₂))
    (hx : x ∉ l₁ ++ l₂) : ∃ p q, Between (.head h) (l₁.map .node) (l₂.map .node) p q ∧
      Link Pos.node? encB fwd bwd p q ∧ Near pool h x p ∧ Near pool h x q := by
  obtain ⟨p, q, hb⟩ := exists_between (Pos.head h) (l₁.map .node) (l₂.map .node)
  have hpool := hs.ok.pool h _ hl
  rw [List.mem_append, not_or] at hx
  have hring := hs.rings h _ hl
  rw [List.map_append] at hring
  exact ⟨p, q, hb, hb.link hring,
    near_of_mem hb.left_mem (fun z hz => hpool z (List.mem_append_left _ hz)) hx.1,
    near_of_mem hb.right_mem (fun z hz => hpool z (List.mem_append_right _ hz)) hx.2⟩

variable {I : Impl H α M} {fwd : M → Pos H α → Option α} {bwd : M → Pos H α → B} {m : M}

omit [DecidableEq α] in
theorem Holds.add (hI : I.Lawful pool encB fwd bwd) (hs : Holds pool encB (fwd m) (bwd m) s)
    (hl : s h = some l) (hx : pool x) (hfree : s.Free x) :
    Holds pool encB (fwd (I.add h x m)) (bwd (I.add h x m))
      (Function.update s h (some (l ++ [x]))) := by
  rw [← List.append_nil l] at hl
  obtain ⟨p, q, hb, hlink, hp, -⟩ := hs.between hl (hfree h _ hl)
  obtain rfl : Pos.head h = q := Option.some.inj hb.first
  exact hs.insert hl hx hfree hb (hI.add h x p m hx hp hlink)

omit [DecidableEq α] in
theorem Holds.push (hI : I.Lawful pool encB fwd bwd) (hs : Holds pool encB (fwd m) (bwd m) s)
    (hl : s h = some l) (hx : pool x) (hfree : s.Free x) :
    Holds pool encB (fwd (I.push h x m)) (bwd (I.push h x m))
      (Function.update s h (some (x :: l))) := by
  rw [← List.nil_append l] at hl
  obtain ⟨p, q, hb, hlink, -, hq⟩ := hs.between hl (hfree h _ hl)
  obtain rfl : Pos.head h = p := Option.some.inj hb.last
  exact hs.insert hl hx hfree hb (hI.push h x q m hx hq hlink)

theorem Holds.insertBefore (hI : I.Lawful pool encB fwd bwd)
    (hs : Holds pool encB (fwd m) (bwd m) s) (hl : s h = some l) (hy : y ∈ l) (hx : pool x)
    (hfree : s.Free x) :
    Holds pool encB (fwd (I.insert h (some y) x m)) (bwd (I.insert h (some y) x m))
      (Function.update s h (some (insertBefore y x l))) := by
  obtain ⟨l₁, l₂, rfl⟩ := List.append_of_mem hy
  have hnot : y ∉ l₁ := fun hy₁ =>
    (List.nodup_append'.mp (hs.ok.nodup h _ hl)).2.2 hy₁ List.mem_cons_self
  rw [insertBefore_eq hnot]
  obtain ⟨p, q, hb, hlink, hp, -⟩ := hs.between hl (hfree h _ hl)
  obtain rfl : Pos.node y = q := Option.some.inj hb.first
  have hne : y ≠ x := fun hyx => hfree h _ hl (hyx ▸ hy)
  exact hs.insert hl hx hfree hb
    (hI.insert h x y p m hx (hs.ok.pool h _ hl y hy) hne hp hlink)

theorem Holds.delete (hI : I.Lawful pool encB fwd bwd) (hs : Holds pool encB (fwd m) (bwd m) s)
    (hl : s h = some l) (hx : x ∈ l) :
    Holds pool encB (fwd (I.delete h x m)) (bwd (I.delete h x m))
      (Function.update s h (some (l.erase x))) := by
  obtain ⟨l₁, l₂, rfl⟩ := List.append_of_mem hx
  obtain ⟨hnot, hnodup⟩ :=
    List.nodup_cons.mp (List.perm_middle.nodup_iff.mp (hs.ok.nodup h _ hl))
  rw [List.mem_append, not_or] at hnot
  rw [List.erase_append_right _ hnot.1, List.erase_cons_head]
  have hpool := hs.ok.pool h _ hl
  obtain ⟨p, q, hb⟩ := exists_between (Pos.head h) (l₁.map .node) (l₂.map .node)
  have hring := hs.rings h _ hl
  rw [List.map_append, List.map_cons] at hring
  obtain ⟨hleft, hright⟩ := hring.links hb
  have hp : Near pool h x p := near_of_mem hb.left_mem
    (fun z hz => hpool z (List.mem_append_left _ hz)) hnot.1
  have hq : Near pool h x q := near_of_mem hb.right_mem
    (fun z hz => hpool z (List.mem_append_right _ (List.mem_cons_of_mem _ hz))) hnot.2
  have hpq : p = q → p = .head h := by
    rintro rfl
    rcases List.mem_cons.mp hb.left_mem with hp | hp
    · exact hp
    · rcases List.mem_cons.mp hb.right_mem with hq | hq
      · exact hq
      · obtain ⟨z, hz, rfl⟩ := List.mem_map.mp hp
        have hz' : z ∈ l₂ := by simpa using hq
        exact absurd hz' fun hz' => (List.nodup_append'.mp hnodup).2.2 hz hz'
  exact hs.remove hl hb (hI.delete h x p q m (hpool x hx) hp hq hpq hleft hright)

omit [DecidableEq H] [DecidableEq α] in
/-- The head leads to the first node. -/
theorem Holds.first (hI : I.Lawful pool encB fwd bwd) (hs : Holds pool encB (fwd m) (bwd m) s)
    (hl : s h = some l) : I.first h m = l.head? := by
  have hring := hs.rings h l hl
  rw [hI.first]
  cases l with
  | nil => exact (List.isChain_pair.mp hring).1
  | cons x l => exact (List.isChain_cons_cons.mp hring).1.1

/-- An operation keeps the lists, and returns what it should. -/
theorem Holds.exec (hI : I.Lawful pool encB fwd bwd) (hs : Holds pool encB (fwd m) (bwd m) s)
    {op : Op H α} (hv : s.Valid pool op) :
    Holds pool encB (fwd (I.exec op m).2) (bwd (I.exec op m).2) (s.apply op) ∧
      (I.exec op m).1 = s.result op := by
  cases op with
  | init h => exact ⟨hs.init (hI.init h m).1 (hI.init h m).2, rfl⟩
  | add h x =>
    obtain ⟨hsome, hx, hfree⟩ := hv
    obtain ⟨l, hl⟩ := Option.isSome_iff_exists.mp hsome
    refine ⟨?_, rfl⟩
    rw [Lists.apply, Lists.modify, hl]
    exact hs.add hI hl hx hfree
  | insert h y x =>
    cases y with
    | none =>
      obtain ⟨hsome, hx, hfree⟩ := hv
      obtain ⟨l, hl⟩ := Option.isSome_iff_exists.mp hsome
      refine ⟨?_, rfl⟩
      rw [Lists.apply, Lists.modify, hl, Impl.exec, hI.insert_none]
      exact hs.add hI hl hx hfree
    | some y =>
      obtain ⟨⟨l, hl, hy⟩, hx, hfree⟩ := hv
      refine ⟨?_, rfl⟩
      rw [Lists.apply, Lists.modify, hl]
      exact hs.insertBefore hI hl hy hx hfree
  | push h x =>
    obtain ⟨hsome, hx, hfree⟩ := hv
    obtain ⟨l, hl⟩ := Option.isSome_iff_exists.mp hsome
    refine ⟨?_, rfl⟩
    rw [Lists.apply, Lists.modify, hl]
    exact hs.push hI hl hx hfree
  | delete h x =>
    obtain ⟨l, hl, hx⟩ := hv
    refine ⟨?_, rfl⟩
    rw [Lists.apply, Lists.modify, hl]
    exact hs.delete hI hl hx
  | pop h =>
    obtain ⟨l, hl⟩ := Option.isSome_iff_exists.mp hv
    rw [Lists.apply, Lists.modify, Lists.result, hl, Impl.exec, hs.first hI hl]
    cases l with
    | nil =>
      refine ⟨?_, rfl⟩
      have hsame : Function.update s h (some []) = s := by rw [← hl, Function.update_eq_self]
      exact hsame.symm ▸ hs
    | cons x l =>
      refine ⟨?_, rfl⟩
      have hdel := hs.delete hI hl List.mem_cons_self
      rwa [List.erase_cons_head] at hdel

/-- So does any sequence of operations. -/
theorem Holds.run (hI : I.Lawful pool encB fwd bwd) {ops : List (Op H α)}
    (hs : Holds pool encB (fwd m) (bwd m) s) (hv : Lists.ValidRun pool s ops) :
    Holds pool encB (fwd (I.run ops m).2) (bwd (I.run ops m).2) (Lists.run ops s).2 ∧
      (I.run ops m).1 = (Lists.run ops s).1 := by
  induction ops generalizing s m with
  | nil => exact ⟨hs, rfl⟩
  | cons op ops ih =>
    obtain ⟨hexec, hresult⟩ := hs.exec hI hv.1
    obtain ⟨hrun, hresults⟩ := ih hexec hv.2
    exact ⟨hrun, congrArg₂ List.cons hresult hresults⟩

omit [DecidableEq H] [DecidableEq α] in
/-- Before any list is initialised there is nothing to hold. -/
theorem holds_none (fwd : Pos H α → Option α) (bwd : Pos H α → B) :
    Holds pool encB fwd bwd fun _ => none :=
  ⟨⟨fun _ _ h => by simp at h, fun _ _ h => by simp at h, fun _ _ _ _ h => by simp at h⟩,
    fun _ _ h => by simp at h⟩

/-! ### Following the links -/

/-- The nodes that are met, if the walk ends in so many steps. -/
def follow (next : α → Option α) : Nat → Option α → Option (List α)
  | _, none => some []
  | 0, some _ => none
  | n + 1, some x => (follow next n (next x)).map (x :: ·)

omit [DecidableEq H] [DecidableEq α] in
theorem follow_eq (link : Pos H α → Option α) {n : Nat} {a : Pos H α} (hn : l.length ≤ n)
    (h : (a :: (l.map .node ++ [.head h])).IsChain fun p q => link p = q.node?) :
    follow (fun x => link (.node x)) n (link a) = some l := by
  induction l generalizing a n with
  | nil =>
    have hnone := List.isChain_pair.mp h
    dsimp only [Pos.node?] at hnone
    rw [hnone, follow]
  | cons x l ih =>
    obtain ⟨hx, hrest⟩ := List.isChain_cons_cons.mp h
    obtain ⟨n, rfl⟩ := Nat.exists_eq_add_of_le' (Nat.lt_of_lt_of_le (Nat.succ_pos _) hn)
    have hsome : link a = some x := hx
    rw [hsome, follow, ih (Nat.le_of_succ_le_succ hn) hrest]
    rfl

omit [DecidableEq H] [DecidableEq α] in
/-- The links forward lead through the list, and those backward through its reverse. -/
theorem Holds.follow {fwd : Pos H α → Option α} {bwd : Pos H α → B}
    (hs : Holds pool encB fwd bwd s) (hl : s h = some l) (decB : B → Option α)
    (hdec : ∀ p, decB (encB p) = p.node?) {n : Nat} (hn : l.length ≤ n) :
    DoubleLinks.follow (fun x => fwd (.node x)) n (fwd (.head h)) = some l ∧
      DoubleLinks.follow (fun x => decB (bwd (.node x))) n (decB (bwd (.head h))) =
        some l.reverse := by
  have hring := hs.rings h l hl
  constructor
  · exact follow_eq fwd hn (hring.imp fun p q hpq => hpq.1)
  · refine follow_eq (fun p => decB (bwd p)) (h := h) (by rwa [List.length_reverse]) ?_
    have hback := (hring.imp (S := fun p q => decB (bwd q) = p.node?) fun p q hpq => by
      rw [hpq.2, hdec])
    have hrev := List.isChain_reverse.mpr hback
    simpa using hrev

end Memory

end OnDemandVirt.Lib.DoubleLinks
