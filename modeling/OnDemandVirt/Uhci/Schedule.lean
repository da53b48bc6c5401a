import Mathlib
import OnDemandVirt.Lib.LinkedList
import OnDemandVirt.Lib.Numerals

/-!
# The schedule of the host

The URBs that the host controller works on, linked twice: `link_prev` and `link_next` of the driver,
and `link` of the QHs for the controller. Skeletons come first, each followed by the interrupt URBs
of its interval, then the control URBs, then the bulk URBs, of which the last leads back to the first.
`uhci_activate_urb` and `uhci_deactivate_urb` keep the two in step, with the four cached pointers
(`schedule_mirrored`). Only between two skeletons there may be no `link_prev`: `init_hframelist` does
not set it.
-/

namespace OnDemandVirt.Uhci

open Lib.LinkedList

/-- A URB in the schedule, with its QH. -/
inductive Node
  | skelton (n : Fin 8)
  | urb (u : Nat)
deriving DecidableEq

def Node.isSkelton : Node → Bool
  | .skelton _ => true
  | .urb _ => false

/-- The transfer type of the endpoint; control without one. -/
inductive TransType
  | interrupt (bInterval : BitVec 8)
  | control
  | bulk
deriving DecidableEq

/-- The status of a URB: `active` is any from its activation on until it is `URB_STATUS_UNLINKED`. -/
inductive UrbStatus
  | new
  | active
  | unlinked
deriving DecidableEq

/-- `struct uhci_host` and the URBs. A pointer to a URB stands for the address of its QH too, and no
pointer for `UHCI_QH_LINK_TE`. -/
structure Schedule where
  linkPrev : Node → Option Node
  linkNext : Node → Option Node
  qhLink : Node → Option Node
  tailControl : Node
  tailBulk : Node
  fsbr : Bool
  fsbrLoopHead : Option Node
  fsbrLoopTail : Option Node
  status : Nat → UrbStatus
  type : Nat → TransType
  preventDel : Nat → Bool
  deferredDel : Nat → Bool

/-- The links between the skeletons. -/
def skeltonLink : Node → Option Node
  | .skelton n => if n = 0 then none else some (.skelton (n - 1))
  | .urb _ => none

/-- `init_hframelist`. -/
def initHframelist : Schedule where
  linkPrev := fun _ => none
  linkNext := skeltonLink
  qhLink := skeltonLink
  tailControl := .skelton 0
  tailBulk := .skelton 0
  fsbr := false
  fsbrLoopHead := none
  fsbrLoopTail := none
  status := fun _ => .new
  type := fun _ => .control
  preventDel := fun _ => false
  deferredDel := fun _ => false

/-- The skeleton of an interval: `__ffs (bInterval | (1 << (UHCI_NUM_SKELTYPES - 1)))`. -/
def skeltonOf (bInterval : BitVec 8) : Node :=
  .skelton (((List.finRange 8).find? fun i : Fin 8 => (bInterval ||| 0x80).getLsbD i.val).getD 7)

/-- Behind which URB a new one goes. -/
def Schedule.insertionPoint (s : Schedule) : TransType → Node
  | .interrupt bInterval => skeltonOf bInterval
  | .control => s.tailControl
  | .bulk => s.tailBulk

/-- The tails of the control and the bulk URBs with the new one. -/
def Schedule.newTails (s : Schedule) (urb : Node) : TransType → Node × Node
  | .interrupt bInterval =>
    (if skeltonOf bInterval = s.tailControl then urb else s.tailControl,
      if skeltonOf bInterval = s.tailBulk then urb else s.tailBulk)
  | .control => (urb, if s.tailControl = s.tailBulk then urb else s.tailBulk)
  | .bulk => (s.tailControl, urb)

/-- `uhci_activate_urb`. `none` is a null pointer that is followed. -/
def uhciActivateUrb (s : Schedule) (u : Nat) (type : TransType) : Option Schedule :=
  let urb := Node.urb u
  let prev := s.insertionPoint type
  let next := s.linkNext prev
  let append := next = none ∧ type = .bulk
  let head := if append ∧ s.fsbr = false then some urb else s.fsbrLoopHead
  let tail := if append then some urb else s.fsbrLoopTail
  if tail ≠ none ∧ head = none then none
  else some
    { s with
      linkPrev := setAt (Function.update s.linkPrev urb (some prev)) next (some urb)
      linkNext := Function.update (Function.update s.linkNext urb next) prev (some urb)
      qhLink := Function.update (setAt (Function.update s.qhLink urb (s.qhLink prev)) tail head) prev
        (some urb)
      tailControl := (s.newTails urb type).1
      tailBulk := (s.newTails urb type).2
      fsbr := if append then true else s.fsbr
      fsbrLoopHead := head
      fsbrLoopTail := tail
      status := Function.update s.status u .active
      type := Function.update s.type u type }

/-- The part of `uhci_deactivate_urb` that takes the QH out. -/
def Schedule.unlinkQh (s : Schedule) (urb prev : Node) : Option Schedule :=
  if s.fsbrLoopHead = some urb ∧ s.fsbrLoopTail = some urb then
    some { s with
      fsbr := false, fsbrLoopHead := none, fsbrLoopTail := none
      qhLink := Function.update s.qhLink prev none }
  else if s.fsbrLoopTail = some urb then
    s.fsbrLoopHead.map fun head =>
      { s with fsbrLoopTail := some prev, qhLink := Function.update s.qhLink prev (some head) }
  else if s.fsbrLoopHead = some urb then
    s.fsbrLoopTail.bind fun tail => (s.linkNext urb).map fun head =>
      let qhLink := Function.update s.qhLink tail (some head)
      { s with fsbrLoopHead := some head, qhLink := Function.update qhLink prev (qhLink urb) }
  else some { s with qhLink := Function.update s.qhLink prev (s.qhLink urb) }

/-- `uhci_deactivate_urb` behind its checks. -/
def Schedule.removeUrb (s : Schedule) (u : Nat) (prev : Node) : Option Schedule :=
  let urb := Node.urb u
  (s.unlinkQh urb prev).map fun s =>
    { s with
      qhLink := Function.update s.qhLink urb none
      linkNext := Function.update s.linkNext prev (s.linkNext urb)
      linkPrev := setAt s.linkPrev (s.linkNext urb) (s.linkPrev urb)
      status := Function.update s.status u .unlinked
      tailControl := if s.type u ≠ .bulk ∧ s.tailControl = urb then prev else s.tailControl
      tailBulk := if s.tailBulk = urb then prev else s.tailBulk }

/-- `uhci_deactivate_urb`. `none` is a null pointer that is followed. -/
def uhciDeactivateUrb (s : Schedule) (u : Nat) : Option Schedule :=
  if s.status u = .unlinked then some s
  else if s.preventDel u = true then
    some { s with deferredDel := Function.update s.deferredDel u true }
  else (s.linkPrev (.urb u)).bind (s.removeUrb u)

/-! ### Runs -/

/-- The calls on the schedule: activation, deactivation, and the lock against removal that
`uhci_check_advance` takes on a URB and releases. -/
inductive Call
  | activate (u : Nat) (type : TransType)
  | deactivate (u : Nat)
  | prevent (u : Nat)
  | allow (u : Nat)

/-- What the callers keep to: a URB is activated when it has been created, and only URBs that have
been activated are deactivated or checked. -/
def Call.Proper (s : Schedule) : Call → Prop
  | activate u _ => s.status u ≠ .active
  | deactivate u => s.status u ≠ .new
  | prevent u => s.status u ≠ .new
  | allow u => s.status u ≠ .new

def step (s : Schedule) : Call → Option Schedule
  | .activate u type => uhciActivateUrb s u type
  | .deactivate u => uhciDeactivateUrb s u
  | .prevent u => some { s with preventDel := Function.update s.preventDel u true }
  | .allow u =>
    let s := { s with preventDel := Function.update s.preventDel u false }
    if s.deferredDel u = true then
      uhciDeactivateUrb { s with deferredDel := Function.update s.deferredDel u false } u
    else some s

/-- The schedules of the runs from `init_hframelist` on. -/
inductive Reachable : Schedule → Prop
  | init : Reachable initHframelist
  | step {s s' : Schedule} {c : Call} :
    Reachable s → c.Proper s → step s c = some s' → Reachable s'

/-- The groups of URBs that a schedule holds in both lists. -/
structure Mirror (s : Schedule) (is cs bs : List Node) : Prop where
  nodup : (is ++ cs ++ bs).Nodup
  software : Linked s.linkNext (is ++ cs ++ bs) none
  hardware : Linked s.qhLink (is ++ cs ++ bs) bs.head?
  back : BackLinked (fun x => x.isSkelton = true) s.linkPrev (is ++ cs ++ bs)
  first : is.head? = some (.skelton 7)
  linkPrev_first : s.linkPrev (.skelton 7) = none
  skeltons : is.filter Node.isSkelton = (List.finRange 8).reverse.map .skelton
  active : ∀ u, Node.urb u ∈ is ++ cs ++ bs ↔ s.status u = .active
  interrupt : ∀ u, Node.urb u ∈ is → ∃ bInterval, s.type u = .interrupt bInterval
  control : ∀ x ∈ cs, ∃ u, x = .urb u ∧ s.type u = .control
  bulk : ∀ x ∈ bs, ∃ u, x = .urb u ∧ s.type u = .bulk
  fsbr : s.fsbr = !bs.isEmpty
  fsbrLoopHead : s.fsbrLoopHead = bs.head?
  fsbrLoopTail : s.fsbrLoopTail = bs.getLast?
  tailControl : (is ++ cs).getLast? = some s.tailControl
  tailBulk : (is ++ cs ++ bs).getLast? = some s.tailBulk

variable {s s' : Schedule} {is cs bs : List Node} {u : Nat} {x : Node}

theorem mirror_initHframelist :
    Mirror initHframelist ((List.finRange 8).reverse.map .skelton) [] [] where
  nodup := by decide
  software := by
    refine ⟨?_, ?_, ?_, ?_, ?_, ?_, ?_, ?_, trivial⟩ <;> decide
  hardware := by
    refine ⟨?_, ?_, ?_, ?_, ?_, ?_, ?_, ?_, trivial⟩ <;> decide
  back := by
    unfold BackLinked
    decide
  first := by decide
  linkPrev_first := rfl
  skeltons := by decide
  active := fun u => by simp [initHframelist]
  interrupt := fun u hu => by simp at hu
  control := nofun
  bulk := nofun
  fsbr := rfl
  fsbrLoopHead := rfl
  fsbrLoopTail := rfl
  tailControl := by decide
  tailBulk := by decide

/-! ### Activation -/

theorem Mirror.urb_notMem (h : Mirror s is cs bs) (hu : s.status u ≠ .active) :
    Node.urb u ∉ is ++ cs ++ bs :=
  fun hmem => hu ((h.active u).mp hmem)

theorem Mirror.skelton_mem (h : Mirror s is cs bs) (n : Fin 8) : Node.skelton n ∈ is := by
  have hmem : Node.skelton n ∈ is.filter Node.isSkelton := by
    rw [h.skeltons, List.mem_map]
    exact ⟨n, by simp, rfl⟩
  exact List.mem_of_mem_filter hmem

/-- The last bulk URB leads to the first. -/
theorem Mirror.qhLink_loopTail (h : Mirror s is cs bs) : ∀ y ∈ s.fsbrLoopTail, s.qhLink y = bs.head? := by
  intro y hy
  rw [h.fsbrLoopTail, Option.mem_def] at hy
  obtain ⟨l, rfl⟩ := List.getLast?_eq_some_iff.mp hy
  have hhw := h.hardware
  rw [← List.append_assoc] at hhw
  rw [hhw.next_eq]
  rfl

/-- No URB leads to the first skeleton. -/
theorem Mirror.first_notMem_linkNext (h : Mirror s is cs bs) {a : Node} (ha : a ∈ is ++ cs ++ bs) :
    Node.skelton 7 ∉ s.linkNext a := by
  obtain ⟨l₁, l₂, hall⟩ := List.append_of_mem ha
  have hsoft := h.software
  have hd := h.nodup
  have hhead : (is ++ cs ++ bs).head? = some (.skelton 7) := by
    rw [List.append_assoc, List.head?_append, h.first]
    rfl
  rw [hall] at hsoft hd hhead
  rw [hsoft.next_eq, Option.or_none]
  intro hmem
  have hmem := List.mem_of_head? hmem
  obtain ⟨-, hd₂, hdisj⟩ := List.nodup_append.mp hd
  cases l₁ with
  | nil =>
    cases hhead
    exact (List.nodup_cons.mp hd₂).1 hmem
  | cons b l₁ =>
    cases hhead
    exact hdisj _ List.mem_cons_self _ (List.mem_cons_of_mem _ hmem) rfl

theorem nodup_insert {l₁ l₂ : List Node} {a : Node} (hd : (l₁ ++ a :: l₂).Nodup)
    (hx : x ∉ l₁ ++ a :: l₂) : (l₁ ++ a :: x :: l₂).Nodup := by
  have hperm : (l₁ ++ a :: x :: l₂).Perm (x :: (l₁ ++ a :: l₂)) := by
    rw [show l₁ ++ a :: x :: l₂ = (l₁ ++ [a]) ++ x :: l₂ by simp,
      show x :: (l₁ ++ a :: l₂) = x :: ((l₁ ++ [a]) ++ l₂) by simp]
    exact List.perm_middle
  exact hperm.nodup_iff.mpr (List.nodup_cons.mpr ⟨hx, hd⟩)

theorem mem_insert {l₁ l₂ : List Node} {a y : Node} :
    y ∈ l₁ ++ a :: x :: l₂ ↔ y = x ∨ y ∈ l₁ ++ a :: l₂ := by
  simp only [List.mem_append, List.mem_cons]
  tauto

theorem active_insert {l₁ l₂ : List Node} {a : Node}
    (h : ∀ v, Node.urb v ∈ l₁ ++ a :: l₂ ↔ s.status v = .active) (v : Nat) :
    Node.urb v ∈ l₁ ++ a :: .urb u :: l₂ ↔ Function.update s.status u .active v = .active := by
  rw [mem_insert, h]
  by_cases hv : v = u
  · rw [hv, Function.update_self]
    simp
  · rw [Function.update_of_ne hv]
    simp [hv]

/-- The URBs of a group keep their type when another URB gets one. -/
theorem group_update {type t : TransType} {l : List Node}
    (h : ∀ x ∈ l, ∃ v, x = .urb v ∧ s.type v = t) (hu : Node.urb u ∉ l) :
    ∀ x ∈ l, ∃ v, x = .urb v ∧ Function.update s.type u type v = t := by
  intro x hx
  obtain ⟨v, rfl, hv⟩ := h x hx
  refine ⟨v, rfl, ?_⟩
  rw [Function.update_of_ne, hv]
  rintro rfl
  exact hu hx

/-- A URB that goes in behind another in front of the bulk URBs. -/
theorem Mirror.activate_front (type : TransType) {a : Node} {l₁ l₂ is' cs' : List Node}
    (h : Mirror s is cs bs) (hu : s.status u ≠ .active) (htype : type ≠ .bulk)
    (ha : s.insertionPoint type = a)
    (htails : s.newTails (.urb u) type = (if a = s.tailControl then .urb u else s.tailControl,
      if a = s.tailBulk then .urb u else s.tailBulk))
    (hold : is ++ cs = l₁ ++ a :: l₂) (hnew : is' ++ cs' = l₁ ++ a :: .urb u :: l₂)
    (hfirst : is'.head? = some (.skelton 7))
    (hskel : is'.filter Node.isSkelton = is.filter Node.isSkelton)
    (his : ∀ v, Node.urb v ∈ is' → ∃ b, Function.update s.type u type v = .interrupt b)
    (hcs : ∀ x ∈ cs', ∃ v, x = .urb v ∧ Function.update s.type u type v = .control) :
    ∃ s', uhciActivateUrb s u type = some s' ∧ Mirror s' is' cs' bs := by
  have hnot := h.urb_notMem hu
  have hbs : Node.urb u ∉ bs := fun hmem => hnot (List.mem_append_right _ hmem)
  have hall : is ++ cs ++ bs = l₁ ++ a :: (l₂ ++ bs) := by rw [hold]; simp
  have hall' : is' ++ cs' ++ bs = l₁ ++ a :: .urb u :: (l₂ ++ bs) := by rw [hnew]; simp
  have hd := h.nodup
  rw [hall] at hd hnot
  have hd' := nodup_insert hd hnot
  have hsoft := h.software
  rw [hall] at hsoft
  have hback := h.back
  rw [hall] at hback
  have hhw := h.hardware
  rw [hall] at hhw
  have hnext : s.linkNext a = (l₂ ++ bs).head? := by rw [hsoft.next_eq, Option.or_none]
  have hcrash : ¬(s.fsbrLoopTail ≠ none ∧ s.fsbrLoopHead = none) := by
    rw [h.fsbrLoopTail, h.fsbrLoopHead]
    cases bs <;> simp
  have hloop : setAt (Function.update s.qhLink (.urb u) (s.qhLink a)) s.fsbrLoopTail s.fsbrLoopHead =
      Function.update s.qhLink (.urb u) (s.qhLink a) := by
    refine setAt_eq_self fun y hy => ?_
    rw [Function.update_of_ne, h.qhLink_loopTail y hy, h.fsbrLoopHead]
    rintro rfl
    rw [h.fsbrLoopTail] at hy
    exact hbs (List.mem_of_getLast? hy)
  refine ⟨{ s with
    linkPrev := setAt (Function.update s.linkPrev (.urb u) (some a)) (s.linkNext a) (some (.urb u))
    linkNext := Function.update (Function.update s.linkNext (.urb u) (s.linkNext a)) a (some (.urb u))
    qhLink := Function.update (Function.update s.qhLink (.urb u) (s.qhLink a)) a (some (.urb u))
    tailControl := if a = s.tailControl then .urb u else s.tailControl
    tailBulk := if a = s.tailBulk then .urb u else s.tailBulk
    status := Function.update s.status u .active
    type := Function.update s.type u type }, ?_, ?_⟩
  · rw [uhciActivateUrb]
    simp only [htype, and_false, false_and, if_false]
    rw [if_neg hcrash, ha, hloop, htails]
  · exact
      { nodup := hall' ▸ hd'
        software := hall' ▸ hsoft.insert hd'
        hardware := hall' ▸ hhw.insert hd'
        back := by
          rw [hall', hnext]
          exact hback.insert hd'
        first := hfirst
        linkPrev_first := by
          show setAt (Function.update s.linkPrev (.urb u) (some a)) (s.linkNext a) (some (.urb u))
            (.skelton 7) = none
          rw [setAt_of_notMem (h.first_notMem_linkNext (by rw [hall]; simp)),
            Function.update_of_ne (by simp), h.linkPrev_first]
        skeltons := hskel.trans h.skeltons
        active := by
          rw [hall']
          refine active_insert fun v => ?_
          rw [← hall]
          exact h.active v
        interrupt := his
        control := hcs
        bulk := group_update h.bulk hbs
        fsbr := h.fsbr
        fsbrLoopHead := h.fsbrLoopHead
        fsbrLoopTail := h.fsbrLoopTail
        tailControl := by
          rw [hnew]
          have := h.tailControl
          rw [hold] at this
          exact getLast?_insert this (hold ▸ (List.nodup_append.mp h.nodup).1)
        tailBulk := by
          rw [hall']
          have := h.tailBulk
          rw [hall] at this
          exact getLast?_insert this hd }

theorem head?_insert {l₁ l₂ : List Node} {a : Node} :
    (l₁ ++ a :: x :: l₂).head? = (l₁ ++ a :: l₂).head? := by
  cases l₁ <;> rfl

theorem filter_insert {l₁ l₂ : List Node} {a : Node} :
    (l₁ ++ a :: .urb u :: l₂).filter Node.isSkelton = (l₁ ++ a :: l₂).filter Node.isSkelton := by
  rw [List.filter_append, List.filter_append]
  cases a <;> rfl

theorem Mirror.activate_interrupt (h : Mirror s is cs bs) (hu : s.status u ≠ .active)
    (bInterval : BitVec 8) :
    ∃ s', uhciActivateUrb s u (.interrupt bInterval) = some s' ∧ ∃ is', Mirror s' is' cs bs := by
  have hnot := h.urb_notMem hu
  simp only [List.mem_append, not_or] at hnot
  obtain ⟨i₁, i₂, rfl⟩ := List.append_of_mem (show skeltonOf bInterval ∈ is from h.skelton_mem _)
  have his : ∀ v, Node.urb v ∈ i₁ ++ skeltonOf bInterval :: .urb u :: i₂ →
      ∃ b, Function.update s.type u (.interrupt bInterval) v = .interrupt b := by
    intro v hv
    by_cases hvu : v = u
    · exact ⟨bInterval, by rw [hvu, Function.update_self]⟩
    · rw [Function.update_of_ne hvu]
      exact h.interrupt v ((mem_insert.1 hv).resolve_left (by simpa using hvu))
  obtain ⟨s', hrun, hm⟩ := h.activate_front (.interrupt bInterval) hu (by simp) rfl rfl
    (List.append_assoc i₁ (skeltonOf bInterval :: i₂) cs)
    (List.append_assoc i₁ (skeltonOf bInterval :: .urb u :: i₂) cs)
    (head?_insert.trans h.first) filter_insert his (group_update h.control hnot.1.2)
  exact ⟨s', hrun, _, hm⟩

theorem Mirror.activate_control (h : Mirror s is cs bs) (hu : s.status u ≠ .active) :
    ∃ s', uhciActivateUrb s u .control = some s' ∧ ∃ cs', Mirror s' is cs' bs := by
  have hnot := h.urb_notMem hu
  simp only [List.mem_append, not_or] at hnot
  obtain ⟨l, hl⟩ := List.getLast?_eq_some_iff.mp h.tailControl
  have his : ∀ v, Node.urb v ∈ is → ∃ b, Function.update s.type u .control v = .interrupt b := by
    intro v hv
    rw [Function.update_of_ne]
    · exact h.interrupt v hv
    · rintro rfl
      exact hnot.1.1 hv
  have hcs : ∀ x ∈ cs ++ [.urb u], ∃ v, x = .urb v ∧ Function.update s.type u .control v = .control := by
    intro x hx
    rcases List.mem_append.mp hx with hx | hx
    · exact group_update h.control hnot.1.2 x hx
    · rw [List.mem_singleton.mp hx]
      exact ⟨u, rfl, Function.update_self ..⟩
  have hnew : is ++ (cs ++ [.urb u]) = l ++ s.tailControl :: .urb u :: [] := by
    rw [← List.append_assoc, hl, List.append_assoc]
    rfl
  have htails : s.newTails (.urb u) .control = (if s.tailControl = s.tailControl then .urb u
      else s.tailControl, if s.tailControl = s.tailBulk then .urb u else s.tailBulk) := by
    rw [if_pos rfl, Schedule.newTails]
  obtain ⟨s', hrun, hm⟩ := h.activate_front .control hu (by simp) rfl htails hl hnew h.first rfl his hcs
  exact ⟨s', hrun, _, hm⟩

/-- A bulk URB goes in behind the last URB, and into the loop. -/
theorem Mirror.activate_bulk (h : Mirror s is cs bs) (hu : s.status u ≠ .active) :
    ∃ s', uhciActivateUrb s u .bulk = some s' ∧ Mirror s' is cs (bs ++ [.urb u]) := by
  have hnot := h.urb_notMem hu
  have hnots := hnot
  simp only [List.mem_append, not_or] at hnots
  obtain ⟨l, hl⟩ := List.getLast?_eq_some_iff.mp h.tailBulk
  have hl' : is ++ cs ++ (bs ++ [.urb u]) = l ++ s.tailBulk :: .urb u :: [] := by
    rw [← List.append_assoc, hl, List.append_assoc]
    rfl
  have hd := h.nodup
  rw [hl] at hd hnot
  have hd' := nodup_insert hd hnot
  have hsoft := h.software
  rw [hl] at hsoft
  have hback := h.back
  rw [hl] at hback
  have hhw := h.hardware
  rw [hl] at hhw
  have hnext : s.linkNext s.tailBulk = none := hsoft.next_eq
  have hhead : (if s.fsbr = false then some (.urb u) else s.fsbrLoopHead) = (bs ++ [Node.urb u]).head? := by
    rw [h.fsbr, h.fsbrLoopHead]
    cases bs <;> rfl
  refine ⟨{ s with
    linkPrev := Function.update s.linkPrev (.urb u) (some s.tailBulk)
    linkNext := Function.update (Function.update s.linkNext (.urb u) none) s.tailBulk (some (.urb u))
    qhLink := Function.update (Function.update s.qhLink (.urb u) (bs ++ [Node.urb u]).head?) s.tailBulk
      (some (.urb u))
    tailBulk := .urb u
    fsbr := true
    fsbrLoopHead := (bs ++ [Node.urb u]).head?
    fsbrLoopTail := some (.urb u)
    status := Function.update s.status u .active
    type := Function.update s.type u .bulk }, ?_, ?_⟩
  · rw [uhciActivateUrb]
    simp only [Schedule.insertionPoint, hnext, true_and, if_true, hhead, setAt, Schedule.newTails,
      Function.update_idem]
    exact if_neg (by simp)
  · exact
      { nodup := hl' ▸ hd'
        software := hl' ▸ hsoft.append hd'
        hardware := hl' ▸ hhw.append hd'
        back := hl' ▸ hback.insert hd'
        first := h.first
        linkPrev_first := by
          show Function.update s.linkPrev (.urb u) (some s.tailBulk) (.skelton 7) = none
          rw [Function.update_of_ne (by simp), h.linkPrev_first]
        skeltons := h.skeltons
        active := by
          rw [hl']
          refine active_insert fun v => ?_
          rw [← hl]
          exact h.active v
        interrupt := fun v hv => by
          show ∃ b, Function.update s.type u .bulk v = .interrupt b
          rw [Function.update_of_ne]
          · exact h.interrupt v hv
          · rintro rfl
            exact hnots.1.1 hv
        control := group_update h.control hnots.1.2
        bulk := fun x hx => by
          rcases List.mem_append.mp hx with hx | hx
          · exact group_update h.bulk hnots.2 x hx
          · rw [List.mem_singleton.mp hx]
            exact ⟨u, rfl, Function.update_self ..⟩
        fsbr := by cases bs <;> rfl
        fsbrLoopHead := rfl
        fsbrLoopTail := List.getLast?_concat.symm
        tailControl := h.tailControl
        tailBulk := by
          rw [← List.append_assoc]
          exact List.getLast?_concat }

/-! ### Deactivation -/

theorem active_remove {l₁ l₂ : List Node} {a : Node}
    (h : ∀ v, Node.urb v ∈ l₁ ++ a :: .urb u :: l₂ ↔ s.status v = .active)
    (hnot : Node.urb u ∉ l₁ ++ a :: l₂) (v : Nat) :
    Node.urb v ∈ l₁ ++ a :: l₂ ↔ Function.update s.status u .unlinked v = .active := by
  by_cases hv : v = u
  · rw [hv, Function.update_self]
    simp [hnot]
  · rw [Function.update_of_ne hv, ← h, mem_insert]
    simp [hv]

/-- A URB that is taken out from behind another, where its QH has been taken out. -/
theorem Mirror.remove {a : Node} {l₁ l₂ is' cs' bs' : List Node} {qhLink : Node → Option Node}
    (h : Mirror s is cs bs) (hold : is ++ cs ++ bs = l₁ ++ a :: .urb u :: l₂)
    (hnew : is' ++ cs' ++ bs' = l₁ ++ a :: l₂)
    (hqh : s.unlinkQh (.urb u) a = some { s with
      fsbr := !bs'.isEmpty, fsbrLoopHead := bs'.head?, fsbrLoopTail := bs'.getLast?, qhLink := qhLink })
    (hlinked : Linked qhLink (l₁ ++ a :: l₂) bs'.head?) (hfirst : is'.head? = some (.skelton 7))
    (hskel : is'.filter Node.isSkelton = is.filter Node.isSkelton)
    (his : ∀ x ∈ is', x ∈ is) (hcs : ∀ x ∈ cs', x ∈ cs) (hbs : ∀ x ∈ bs', x ∈ bs)
    (htail : (is' ++ cs').getLast? =
      some (if s.type u ≠ .bulk ∧ s.tailControl = .urb u then a else s.tailControl)) :
    ∃ s', (s.linkPrev (.urb u)).bind (s.removeUrb u) = some s' ∧ Mirror s' is' cs' bs' := by
  have hd := h.nodup
  rw [hold] at hd
  have hsoft := h.software
  rw [hold] at hsoft
  have hback := h.back
  rw [hold] at hback
  have hprev : s.linkPrev (.urb u) = some a := hback.prev_eq (by simp [Node.isSkelton])
  have hnext : s.linkNext (.urb u) = l₂.head? := by
    rw [List.append_cons] at hsoft
    rw [hsoft.next_eq, Option.or_none]
  have hnot : Node.urb u ∉ l₁ ++ a :: l₂ := by
    rw [List.append_cons, List.nodup_middle, List.nodup_cons, ← List.append_cons] at hd
    exact hd.1
  have hd' : (l₁ ++ a :: l₂).Nodup := by
    rw [List.append_cons, List.nodup_middle, List.nodup_cons, ← List.append_cons] at hd
    exact hd.2
  refine ⟨_, by rw [hprev, Option.bind_some, Schedule.removeUrb, hqh, Option.map_some], ?_⟩
  exact
    { nodup := hnew ▸ hd'
      software := hnew ▸ hsoft.remove hd
      hardware := by
        rw [hnew]
        exact (linked_update_of_notMem hnot).mpr hlinked
      back := by
        rw [hnew]
        show BackLinked _ (setAt s.linkPrev (s.linkNext (.urb u)) (s.linkPrev (.urb u))) _
        rw [hnext]
        exact hback.remove hd hprev
      first := hfirst
      linkPrev_first := by
        show setAt s.linkPrev (s.linkNext (.urb u)) (s.linkPrev (.urb u)) (.skelton 7) = none
        rw [setAt_of_notMem (h.first_notMem_linkNext (by rw [hold]; simp)), h.linkPrev_first]
      skeltons := hskel.trans h.skeltons
      active := by
        rw [hnew]
        refine active_remove (fun v => ?_) hnot
        rw [← hold]
        exact h.active v
      interrupt := fun v hv => h.interrupt v (his _ hv)
      control := fun x hx => h.control x (hcs x hx)
      bulk := fun x hx => h.bulk x (hbs x hx)
      fsbr := rfl
      fsbrLoopHead := rfl
      fsbrLoopTail := rfl
      tailControl := htail
      tailBulk := by
        rw [hnew]
        have := h.tailBulk
        rw [hold] at this
        exact getLast?_remove this hd }

/-- A URB in front of the bulk URBs. -/
theorem Mirror.remove_front {a : Node} {l₁ l₂ is' cs' : List Node}
    (h : Mirror s is cs bs) (htype : s.type u ≠ .bulk)
    (hold : is ++ cs = l₁ ++ a :: .urb u :: l₂) (hnew : is' ++ cs' = l₁ ++ a :: l₂)
    (hfirst : is'.head? = some (.skelton 7))
    (hskel : is'.filter Node.isSkelton = is.filter Node.isSkelton)
    (his : ∀ x ∈ is', x ∈ is) (hcs : ∀ x ∈ cs', x ∈ cs) :
    ∃ s', (s.linkPrev (.urb u)).bind (s.removeUrb u) = some s' ∧ Mirror s' is' cs' bs := by
  have hall : is ++ cs ++ bs = l₁ ++ a :: .urb u :: (l₂ ++ bs) := by rw [hold]; simp
  have hall' : is' ++ cs' ++ bs = l₁ ++ a :: (l₂ ++ bs) := by rw [hnew]; simp
  have hd := h.nodup
  have hnot : Node.urb u ∉ bs := by
    intro hmem
    exact (List.nodup_append.mp hd).2.2 (.urb u) (by rw [hold]; simp) _ hmem rfl
  have hhw := h.hardware
  rw [hall] at hd hhw
  have hqh : s.unlinkQh (.urb u) a = some { s with
      fsbr := !bs.isEmpty, fsbrLoopHead := bs.head?, fsbrLoopTail := bs.getLast?,
      qhLink := Function.update s.qhLink a (s.qhLink (.urb u)) } := by
    have hhead : s.fsbrLoopHead ≠ some (.urb u) := fun hh =>
      hnot (List.mem_of_head? (h.fsbrLoopHead ▸ hh))
    have htail : s.fsbrLoopTail ≠ some (.urb u) := fun ht =>
      hnot (List.mem_of_getLast? (h.fsbrLoopTail ▸ ht))
    rw [Schedule.unlinkQh, if_neg fun hh => hhead hh.1, if_neg htail, if_neg hhead, ← h.fsbr,
      ← h.fsbrLoopHead, ← h.fsbrLoopTail]
  refine h.remove hall hall' hqh (hhw.remove hd) hfirst hskel his hcs (fun _ hx => hx) ?_
  have := h.tailControl
  rw [hold] at this
  rw [hnew, getLast?_remove this (hold ▸ (List.nodup_append.mp h.nodup).1)]
  simp [htype]

theorem Mirror.remove_interrupt (h : Mirror s is cs bs) (hu : Node.urb u ∈ is) :
    ∃ s', (s.linkPrev (.urb u)).bind (s.removeUrb u) = some s' ∧ ∃ is', Mirror s' is' cs bs := by
  obtain ⟨b, htype⟩ := h.interrupt u hu
  obtain ⟨i₁, i₂, rfl⟩ := List.append_of_mem hu
  rcases List.eq_nil_or_concat i₁ with rfl | ⟨l₁, a, rfl⟩
  · have := h.first
    simp at this
  · have hold : l₁ ++ [a] ++ .urb u :: i₂ = l₁ ++ a :: .urb u :: i₂ := by simp
    have hfirst := h.first
    have hskel := @filter_insert u l₁ i₂ a
    simp only [List.concat_eq_append, hold] at h hfirst ⊢
    obtain ⟨s', hrun, hm⟩ := h.remove_front (by simp [htype]) (List.append_assoc l₁ (a :: .urb u :: i₂) cs)
      (List.append_assoc l₁ (a :: i₂) cs) (head?_insert.symm.trans hfirst) hskel.symm
      (fun x hx => mem_insert.2 (.inr hx)) (fun x hx => hx)
    exact ⟨s', hrun, _, hm⟩

theorem Mirror.remove_control (h : Mirror s is cs bs) (hu : Node.urb u ∈ cs) :
    ∃ s', (s.linkPrev (.urb u)).bind (s.removeUrb u) = some s' ∧ ∃ cs', Mirror s' is cs' bs := by
  have htype : s.type u ≠ .bulk := by
    obtain ⟨v, hv, htype⟩ := h.control _ hu
    cases hv
    simp [htype]
  obtain ⟨c₁, c₂, rfl⟩ := List.append_of_mem hu
  rcases List.eq_nil_or_concat (is ++ c₁) with hnil | ⟨l₁, a, hl⟩
  · have := h.first
    simp [(List.append_eq_nil_iff.mp hnil).1] at this
  · rw [List.concat_eq_append] at hl
    have hold : is ++ (c₁ ++ .urb u :: c₂) = l₁ ++ a :: .urb u :: c₂ := by
      rw [← List.append_assoc, hl, List.append_assoc]
      rfl
    have hnew : is ++ (c₁ ++ c₂) = l₁ ++ a :: c₂ := by
      rw [← List.append_assoc, hl, List.append_assoc]
      rfl
    obtain ⟨s', hrun, hm⟩ := h.remove_front htype hold hnew h.first rfl (fun x hx => hx) fun x hx => by
      rcases List.mem_append.mp hx with hx | hx <;> simp [hx]
    exact ⟨s', hrun, _, hm⟩

/-- The QH of a bulk URB is taken out of the loop, which may end with it. -/
theorem Mirror.unlinkQh_bulk {a : Node} {l₁ b₁ b₂ : List Node}
    (h : Mirror s is cs (b₁ ++ .urb u :: b₂)) (hl : is ++ cs ++ b₁ = l₁ ++ [a]) :
    ∃ qhLink, s.unlinkQh (.urb u) a = some { s with
        fsbr := !(b₁ ++ b₂).isEmpty, fsbrLoopHead := (b₁ ++ b₂).head?,
        fsbrLoopTail := (b₁ ++ b₂).getLast?, qhLink := qhLink } ∧
      Linked qhLink (l₁ ++ a :: b₂) (b₁ ++ b₂).head? := by
  have hold : is ++ cs ++ (b₁ ++ .urb u :: b₂) = l₁ ++ a :: .urb u :: b₂ := by
    rw [← List.append_assoc, hl, List.append_assoc]
    rfl
  have hd := h.nodup
  have hhw := h.hardware
  rw [hold] at hd hhw
  have hal : a ∉ l₁ := fun ha => (List.nodup_append.mp hd).2.2 a ha a (by simp) rfl
  have hdb : (b₁ ++ .urb u :: b₂).Nodup := (List.nodup_append.mp h.nodup).2.1
  have hub₁ : Node.urb u ∉ b₁ := fun hu => (List.nodup_append.mp hdb).2.2 _ hu _ (by simp) rfl
  have hub₂ : Node.urb u ∉ b₂ := (List.nodup_cons.mp (List.nodup_append.mp hdb).2.1).1
  have hhead := h.fsbrLoopHead
  have htail := h.fsbrLoopTail
  have hfsbr := h.fsbr
  rw [Schedule.unlinkQh]
  cases b₁ with
  | nil =>
    cases b₂ with
    | nil =>
      -- the only bulk URB
      refine ⟨Function.update s.qhLink a none, if_pos ⟨hhead, htail⟩, ?_⟩
      rw [List.append_cons] at hhw
      exact (linked_append.mp hhw).1.setEnd hal
    | cons y b₂ =>
      -- the head of the loop
      obtain ⟨w, t, hw⟩ : ∃ w t, y :: b₂ = w ++ [t] := by
        rcases List.eq_nil_or_concat (y :: b₂) with h | ⟨w, t, h⟩
        · cases h
        · exact ⟨w, t, by rw [h, List.concat_eq_append]⟩
      have hlast : (y :: b₂).getLast? = s.fsbrLoopTail := by
        rw [htail, List.nil_append, List.getLast?_cons_cons]
      have ht : s.fsbrLoopTail = some t := by rw [← hlast, hw, List.getLast?_concat]
      have htu : some t ≠ some (.urb u) := by
        rintro h
        cases h
        exact hub₂ (hw ▸ by simp)
      have hnext : s.linkNext (.urb u) = some y := by
        have hsoft := h.software
        rw [hold, List.append_cons] at hsoft
        exact hsoft.next_eq
      refine ⟨Function.update (Function.update s.qhLink t (some y)) a
        (Function.update s.qhLink t (some y) (.urb u)), ?_, ?_⟩
      · rw [if_neg fun hh => htu (ht ▸ hh.2), if_neg (ht ▸ htu),
          if_pos (show s.fsbrLoopHead = some (.urb u) from hhead), List.nil_append, hlast,
          show (!(y :: b₂).isEmpty) = s.fsbr from hfsbr.symm, hnext, ht]
        rfl
      · have hend : l₁ ++ a :: .urb u :: (y :: b₂) = (l₁ ++ a :: .urb u :: w) ++ [t] := by
          rw [hw]
          simp
        rw [hend] at hhw hd
        have hfresh : t ∉ l₁ ++ a :: .urb u :: w := fun ht =>
          (List.nodup_append.mp hd).2.2 t ht t (by simp) rfl
        have hset : Linked _ _ (some y) := hhw.setEnd hfresh
        rw [← hend] at hset hd
        exact hset.remove hd
  | cons y b₁ =>
    have hyu : some y ≠ some (.urb u) := by
      rintro h
      cases h
      exact hub₁ List.mem_cons_self
    rw [List.cons_append, List.head?_cons] at hhead
    cases b₂ with
    | nil =>
      -- the tail of the loop
      have hlast : (y :: b₁).getLast? = some a := by
        have := congrArg List.getLast? hl
        rwa [List.getLast?_append_cons, List.getLast?_concat] at this
      refine ⟨Function.update s.qhLink a (some y), ?_, ?_⟩
      · rw [if_neg fun hh => hyu (hhead ▸ hh.1), if_pos (by rw [htail, List.getLast?_concat]), hhead,
          Option.map_some, List.append_nil, hlast, List.head?_cons, ← hhead,
          show (!(y :: b₁).isEmpty) = s.fsbr from hfsbr.symm]
      · rw [List.append_cons] at hhw
        exact (linked_append.mp hhw).1.setEnd hal
    | cons z b₂ =>
      have hlast : s.fsbrLoopTail = (y :: b₁ ++ z :: b₂).getLast? := by
        rw [htail, List.getLast?_append_cons, List.getLast?_cons_cons, List.getLast?_append_cons]
      have htu : s.fsbrLoopTail ≠ some (.urb u) := by
        rw [hlast, List.getLast?_append_cons]
        exact fun ht => hub₂ (List.mem_of_getLast? ht)
      refine ⟨Function.update s.qhLink a (s.qhLink (.urb u)), ?_, ?_⟩
      · rw [if_neg fun hh => hyu (hhead ▸ hh.1), if_neg htu, if_neg (hhead ▸ hyu), ← hlast,
          List.cons_append, List.head?_cons, ← hhead,
          show (!(y :: (b₁ ++ z :: b₂)).isEmpty) = s.fsbr from hfsbr.symm]
      · exact hhw.remove hd

theorem Mirror.remove_bulk (h : Mirror s is cs bs) (hu : Node.urb u ∈ bs) :
    ∃ s', (s.linkPrev (.urb u)).bind (s.removeUrb u) = some s' ∧ ∃ bs', Mirror s' is cs bs' := by
  have htype : s.type u = .bulk := by
    obtain ⟨v, hv, htype⟩ := h.bulk _ hu
    cases hv
    exact htype
  obtain ⟨b₁, b₂, rfl⟩ := List.append_of_mem hu
  rcases List.eq_nil_or_concat (is ++ cs ++ b₁) with hnil | ⟨l₁, a, hl⟩
  · have := h.first
    simp [(List.append_eq_nil_iff.mp (List.append_eq_nil_iff.mp hnil).1).1] at this
  · rw [List.concat_eq_append] at hl
    have hold : is ++ cs ++ (b₁ ++ .urb u :: b₂) = l₁ ++ a :: .urb u :: b₂ := by
      rw [← List.append_assoc, hl, List.append_assoc]
      rfl
    have hnew : is ++ cs ++ (b₁ ++ b₂) = l₁ ++ a :: b₂ := by
      rw [← List.append_assoc, hl, List.append_assoc]
      rfl
    obtain ⟨qhLink, hqh, hlinked⟩ := h.unlinkQh_bulk hl
    obtain ⟨s', hrun, hm⟩ := h.remove hold hnew hqh hlinked h.first rfl (fun x hx => hx)
      (fun x hx => hx) (fun x hx => by rcases List.mem_append.mp hx with hx | hx <;> simp [hx])
      (by rw [h.tailControl]; simp [htype])
    exact ⟨s', hrun, _, hm⟩

/-! ### Runs -/

theorem Mirror.deactivate (h : Mirror s is cs bs) (hu : s.status u ≠ .new) :
    ∃ s', uhciDeactivateUrb s u = some s' ∧ ∃ is' cs' bs', Mirror s' is' cs' bs' := by
  rw [uhciDeactivateUrb]
  by_cases hun : s.status u = .unlinked
  · exact ⟨s, if_pos hun, is, cs, bs, h⟩
  rw [if_neg hun]
  by_cases hprevent : s.preventDel u = true
  · exact ⟨_, if_pos hprevent, is, cs, bs, { h with }⟩
  rw [if_neg hprevent]
  have hactive : s.status u = .active := by
    cases hs : s.status u with
    | new => exact absurd hs hu
    | active => rfl
    | unlinked => exact absurd hs hun
  have hmem := (h.active u).mpr hactive
  rw [List.mem_append, List.mem_append] at hmem
  rcases hmem with (hmem | hmem) | hmem
  · obtain ⟨s', hrun, is', hm⟩ := h.remove_interrupt hmem
    exact ⟨s', hrun, _, _, _, hm⟩
  · obtain ⟨s', hrun, cs', hm⟩ := h.remove_control hmem
    exact ⟨s', hrun, _, _, _, hm⟩
  · obtain ⟨s', hrun, bs', hm⟩ := h.remove_bulk hmem
    exact ⟨s', hrun, _, _, _, hm⟩

/-- Every proper call leads to a schedule in step again. -/
theorem Mirror.step {c : Call} (h : Mirror s is cs bs) (hc : c.Proper s) :
    ∃ s', step s c = some s' ∧ ∃ is' cs' bs', Mirror s' is' cs' bs' := by
  cases c with
  | activate u type =>
    cases type with
    | interrupt bInterval =>
      obtain ⟨s', hrun, is', hm⟩ := h.activate_interrupt hc bInterval
      exact ⟨s', hrun, _, _, _, hm⟩
    | control =>
      obtain ⟨s', hrun, cs', hm⟩ := h.activate_control hc
      exact ⟨s', hrun, _, _, _, hm⟩
    | bulk =>
      obtain ⟨s', hrun, hm⟩ := h.activate_bulk hc
      exact ⟨s', hrun, _, _, _, hm⟩
  | deactivate u => exact h.deactivate hc
  | prevent u => exact ⟨_, rfl, is, cs, bs, { h with }⟩
  | allow u =>
    have hallow : Mirror { s with
        preventDel := Function.update s.preventDel u false
        deferredDel := Function.update s.deferredDel u false } is cs bs := { h with }
    rw [Uhci.step]
    by_cases hdef : s.deferredDel u = true
    · obtain ⟨s', hrun, hm⟩ := hallow.deactivate (u := u) hc
      exact ⟨s', (if_pos hdef).trans hrun, hm⟩
    · exact ⟨_, if_neg hdef, is, cs, bs, { h with }⟩

theorem mirror_of_reachable (h : Reachable s) : ∃ is cs bs, Mirror s is cs bs := by
  induction h with
  | init => exact ⟨_, _, _, mirror_initHframelist⟩
  | step _ hc hrun ih =>
    obtain ⟨is, cs, bs, hm⟩ := ih
    obtain ⟨s', hrun', hm'⟩ := hm.step hc
    cases hrun.symm.trans hrun'
    exact hm'

/-! ### The result -/

/-- The hardware goes over the list of the driver: from a skeleton on it visits the QHs behind it, and
the QHs that it comes back to are those of the bulk URBs. No pointer is missing in the next call. -/
def Mirrored (s : Schedule) : Prop :=
  (∃ is cs bs, Mirror s is cs bs ∧
    (∀ n, ∃ before after, is ++ cs ++ bs = before ++ .skelton n :: after ∧
      ∀ x, Lib.LinkedList.Reaches s.qhLink (.skelton n) x ↔ x ∈ Node.skelton n :: after) ∧
    ∀ x ∈ is ++ cs ++ bs, OnCycle s.qhLink x ↔ x ∈ bs) ∧
  ∀ c : Call, c.Proper s → (step s c).isSome

/-- From a skeleton on, the hardware visits what the driver's list has behind it. -/
theorem Mirror.visits (h : Mirror s is cs bs) (n : Fin 8) :
    ∃ before after, is ++ cs ++ bs = before ++ .skelton n :: after ∧
      ∀ x, Lib.LinkedList.Reaches s.qhLink (.skelton n) x ↔ x ∈ Node.skelton n :: after := by
  obtain ⟨before, after, rfl⟩ := List.append_of_mem (h.skelton_mem n)
  have hall : before ++ .skelton n :: after ++ cs ++ bs = before ++ .skelton n :: (after ++ cs ++ bs) := by
    simp
  have hhw := h.hardware
  rw [hall] at hhw
  refine ⟨before, after ++ cs ++ bs, hall, fun x => (linked_append.mp hhw).2.reaches_iff fun y hy => ?_⟩
  simp [List.mem_of_head? hy]

/-- After every run from `init_hframelist` the hardware's links mirror the driver's. -/
theorem schedule_mirrored (h : Reachable s) : Mirrored s := by
  obtain ⟨is, cs, bs, hm⟩ := mirror_of_reachable h
  refine ⟨⟨is, cs, bs, hm, hm.visits, fun x hx => hm.hardware.onCycle_iff hm.nodup hx⟩, fun c hc => ?_⟩
  obtain ⟨s', hrun, -⟩ := hm.step hc
  rw [hrun]
  rfl

/-- A bulk URB alone in the schedule. -/
theorem schedule_mirrored_bulk :
    ∃ s, step initHframelist (.activate 0 .bulk) = some s ∧ s.fsbrLoopHead = some (.urb 0) ∧ Mirrored s :=
  ⟨_, rfl, rfl, schedule_mirrored (.step (c := .activate 0 .bulk) .init
    (show initHframelist.status 0 ≠ .active by decide) rfl)⟩

/-- Between the skeletons `link_prev` is not the inverse of `link_next`. -/
theorem not_inverse_skeltons :
    ¬∀ s, Reachable s → ∀ a b, s.linkNext a = some b → s.linkPrev b = some a := by
  intro h
  exact absurd (h _ .init (.skelton 1) (.skelton 0) rfl) (by decide)

end OnDemandVirt.Uhci
