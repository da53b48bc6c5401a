import Mathlib.Data.List.Nodup
import OnDemandVirt.Lib.LinkedList

/-!
# The scan of the asynchronous list

The monitor of `ehci_shadow.c` follows the horizontal links of the guest's queue heads from the
first URB of `host->gurb` on, marks the URBs of the queue heads that it meets, makes URBs of those
that have none, and deletes the URBs that were not marked. It stops when it meets the first URB
again, and `get_gurb_by_address` asserts that each link is one to a queue head: so a pass ends if
and only if the links lead from the first queue head back to it.

A URB is named by the address of its queue head, for which there is no other one. The transfers of
a queue head (`register_qtdm_list` and the loop over the alternative qTDs) are a parameter, which
may have none when that part of `register_gurb` does not return. The URBs of `host->urbhash` are
those of `host->gurb`, added in the same order.
-/

namespace OnDemandVirt.Ehci

open Lib.LinkedList

/-- `phys32_t`. -/
abbrev Phys32 := BitVec 32

/-- `struct usb_request_block` of a guest's queue head; the two bits of `mark`, and whether there is
a `shadow`. -/
structure Gurb (T : Type) where
  qhPhys : Phys32
  trans : T
  status : BitVec 8
  needShadow : Bool
  updateReplaced : Bool
  inlink : BitVec 16
  shadow : Bool

/-- The guest's memory, as the monitor reads it: the horizontal links, the transfers of a queue
head, what `is_active_urb` finds in them, and whether a hook discards them. -/
structure GuestQhs (T : Type) where
  link : Phys32 → BitVec 32
  registerQtds : Phys32 → Option T
  isActiveUrb : Phys32 → T → BitVec 8
  discards : Phys32 → Bool

/-- `struct ehci_host`; `need_shadow` and `update` are lists of the addresses of queue heads. -/
structure EhciHost (T : Type) where
  gurb : List (Gurb T)
  needShadow : List Phys32
  update : List Phys32
  inlinkCounter : BitVec 16

variable {T : Type}

/-! ### The functions -/

/-- `ehci_link`. -/
def ehciLink (link : BitVec 32) : Phys32 := link &&& 0xffffffe0

/-- The assertions of `get_gurb_by_address`. -/
def IsQhLink (link : BitVec 32) : Prop := link ≠ 0 ∧ link &&& 0x1f = 2

instance : DecidablePred IsQhLink := fun link => inferInstanceAs (Decidable (link ≠ 0 ∧ _))

def EhciHost.find (s : EhciHost T) (qhPhys : Phys32) : Option (Gurb T) :=
  s.gurb.find? fun g => g.qhPhys = qhPhys

/-- Writes to the fields of a URB. -/
def EhciHost.modify (s : EhciHost T) (qhPhys : Phys32) (f : Gurb T → Gurb T) : EhciHost T :=
  { s with gurb := s.gurb.map fun g => if g.qhPhys = qhPhys then f g else g }

/-- `get_gurb_by_address`; `none` is an assertion that fails. -/
def getGurbByAddress (s : EhciHost T) (targetPhys : BitVec 32) : Option (Option (Gurb T)) :=
  if IsQhLink targetPhys then some (s.find (ehciLink targetPhys)) else none

/-- The URB that `register_gurb` makes. -/
def newGurb (guest : GuestQhs T) (qhPhys : Phys32) (trans : T) : Gurb T where
  qhPhys := qhPhys
  trans := trans
  status := guest.isActiveUrb qhPhys trans
  needShadow := false
  updateReplaced := false
  inlink := 0
  shadow := false

/-- `register_gurb`. -/
def registerGurb (guest : GuestQhs T) (qhPhys : Phys32) (s : EhciHost T) : Option (EhciHost T) :=
  (guest.registerQtds (ehciLink qhPhys)).map fun trans =>
    { s with gurb := s.gurb ++ [newGurb guest (ehciLink qhPhys) trans] }

/-- `deactivate_and_delete_urb`. -/
def deactivateAndDeleteUrb (g : Gurb T) (s : EhciHost T) : EhciHost T :=
  { s with
    gurb := s.gurb.filter fun g' => g'.qhPhys ≠ g.qhPhys
    needShadow := if g.needShadow then s.needShadow.erase g.qhPhys else s.needShadow
    update := if g.updateReplaced then s.update.erase g.qhPhys else s.update }

/-- "mark linked QH", and what is to be done with its URB. -/
def markLinkedQh (guest : GuestQhs T) (g : Gurb T) (s : EhciHost T) : EhciHost T :=
  let status := guest.isActiveUrb g.qhPhys g.trans
  if g.status ≠ status ∨ status = 2 then
    { s.modify g.qhPhys fun g =>
        { g with inlink := s.inlinkCounter, status := status, updateReplaced := true } with
      update := if g.updateReplaced then s.update else s.update ++ [g.qhPhys] }
  else if g.shadow = false ∧ status = 1 then
    { s.modify g.qhPhys fun g => { g with inlink := s.inlinkCounter, needShadow := true } with
      needShadow := if g.needShadow then s.needShadow else s.needShadow ++ [g.qhPhys] }
  else s.modify g.qhPhys fun g => { g with inlink := s.inlinkCounter }

/-- "look for the next QH", and a new URB for a new one. -/
def nextGurb (guest : GuestQhs T) (g : Gurb T) (s : EhciHost T) :
    Option (Phys32 × EhciHost T) :=
  let nextQhPhys := guest.link g.qhPhys
  (getGurbByAddress s nextQhPhys).bind fun
    | some next => some (next.qhPhys, s)
    | none => (registerGurb guest nextQhPhys s).map fun s => (ehciLink nextQhPhys, s)

/-- The loop of `mark_inlinked_urbs` from a URB on, for at most so many passes: the queue heads that
it marks, in order, and the state it leaves. `none` if it has not come back to the first URB by
then, or if an assertion fails. -/
def markInlinkedUrbs (guest : GuestQhs T) :
    (passes : Nat) → Phys32 → EhciHost T → Option (List Phys32 × EhciHost T)
  | 0, _, _ => none
  | passes + 1, qhPhys, s =>
    (s.find qhPhys).bind fun g =>
      (nextGurb guest g (markLinkedQh guest g s)).bind fun (next, s) =>
        if s.gurb.head?.map (·.qhPhys) = some next then some ([qhPhys], s)
        else (markInlinkedUrbs guest passes next s).map fun (marked, s) => (qhPhys :: marked, s)

/-- `unmark_all_gurbs`. -/
def unmarkAllGurbs (s : EhciHost T) : EhciHost T :=
  { s with inlinkCounter := s.inlinkCounter + 1 }

/-- The inner loop of `update_marked_gurbs`, on a URB whose status has changed, for at most so many
passes. `later k` is the guest's memory when the queue head is registered for the `k`-th time. -/
def replaceGurb (later : Nat → GuestQhs T) :
    (passes k : Nat) → Gurb T → EhciHost T → Option (EhciHost T)
  | 0, _, _, _ => none
  | passes + 1, k, g, s =>
    ((later k).registerQtds (ehciLink g.qhPhys)).bind fun trans =>
      let s := deactivateAndDeleteUrb g s
      let new := newGurb (later k) (ehciLink g.qhPhys) trans
      let new := { new with inlink := s.inlinkCounter, needShadow := decide (new.status = 1) }
      let s :=
        { s with
          gurb := s.gurb ++ [new]
          needShadow := if new.status = 1 then s.needShadow ++ [new.qhPhys] else s.needShadow }
      if new.status = 2 then replaceGurb later passes (k + 1) new s else some s

/-- `update_marked_gurbs`, on what is left of the list `update`. -/
def updateMarkedGurbs (later : Phys32 → Nat → GuestQhs T) (passes : Nat) :
    List Phys32 → EhciHost T → Option (EhciHost T)
  | [], s => some s
  | qhPhys :: rest, s =>
    let s := { s with update := rest }
    match s.find qhPhys with
    | none => updateMarkedGurbs later passes rest s
    | some g =>
      if g.updateReplaced then
        (replaceGurb (later qhPhys) passes 0 { g with updateReplaced := false }
          (s.modify qhPhys fun g => { g with updateReplaced := false })).bind
          (updateMarkedGurbs later passes rest)
      else updateMarkedGurbs later passes rest s

/-- `shadow_marked_gurbs`, on what is left of the list `need_shadow`. -/
def shadowMarkedGurbs (guest : GuestQhs T) : List Phys32 → EhciHost T → EhciHost T
  | [], s => s
  | qhPhys :: rest, s =>
    shadowMarkedGurbs guest rest <|
      { s with needShadow := rest }.modify qhPhys fun g =>
        if g.needShadow then
          { g with shadow := !guest.discards qhPhys, needShadow := false }
        else g

/-- `sweep_unmarked_gurbs`. -/
def sweepUnmarkedGurbs (s : EhciHost T) : EhciHost T :=
  (s.gurb.filter fun g => !g.needShadow && !g.updateReplaced && g.inlink ≠ s.inlinkCounter).foldl
    (fun s g => deactivateAndDeleteUrb g s) s

/-! ### Runs -/

/-- `ehci_shadow_async_list`. -/
def ehciShadowAsyncList (guest : GuestQhs T) (headqhPhys : BitVec 32) : Option (EhciHost T) :=
  (registerGurb guest headqhPhys ⟨[], [], [], 0⟩).map fun s =>
    { s with gurb := s.gurb.map fun g => { g with shadow := true } }

/-- `ehci_check_advance`: the transfers of some shadows have advanced, and `ehci_copyback_trans` has
set the guest's status. -/
def ehciCheckAdvance (advanced : Phys32 → Bool) (s : EhciHost T) : EhciHost T :=
  { s with gurb := s.gurb.map fun g => if advanced g.qhPhys then { g with status := 0 } else g }

/-- The first URB. -/
def EhciHost.Head (s : EhciHost T) (qhPhys : Phys32) : Prop :=
  s.gurb.head?.map (·.qhPhys) = some qhPhys

/-- One turn of the monitor. -/
inductive MonitorPass (s : EhciHost T) : EhciHost T → Prop
  | mk (guest : GuestQhs T) (later : Phys32 → Nat → GuestQhs T) (advanced : Phys32 → Bool)
      {head : Phys32} {n m : Nat} {marked : List Phys32} {s₁ s₂ : EhciHost T} (first : s.Head head)
      (mark : markInlinkedUrbs guest n head (unmarkAllGurbs s) = some (marked, s₁))
      (update : updateMarkedGurbs later m s₁.update s₁ = some s₂) :
      MonitorPass s (ehciCheckAdvance advanced
        (sweepUnmarkedGurbs (shadowMarkedGurbs guest s₂.needShadow s₂)))

/-- The states before a turn of the monitor. -/
inductive Monitored : EhciHost T → Prop
  | start {guest : GuestQhs T} {headqhPhys : BitVec 32} {s : EhciHost T}
      (h : ehciShadowAsyncList guest headqhPhys = some s) : Monitored s
  | pass {s t : EhciHost T} (h : Monitored s) (turn : MonitorPass s t) : Monitored t

/-! ### What a pass should do -/

/-- The queue head that another one's link leads to. -/
def nextQh (guest : GuestQhs T) (qhPhys : Phys32) : Option Phys32 :=
  if IsQhLink (guest.link qhPhys) then some (ehciLink (guest.link qhPhys)) else none

/-- The sweep keeps the URBs of the queue heads that the links lead to, and no others. -/
def SweepsExactly (guest : GuestQhs T) (head : Phys32) (s : EhciHost T) : Prop :=
  (∀ g ∈ s.gurb, g ∈ (sweepUnmarkedGurbs s).gurb ↔ Reaches (nextQh guest) head g.qhPhys) ∧
  (∀ g ∈ (sweepUnmarkedGurbs s).gurb, g ∈ s.gurb) ∧
  ∀ qhPhys, Reaches (nextQh guest) head qhPhys →
    ∃ g ∈ (sweepUnmarkedGurbs s).gurb, g.qhPhys = qhPhys

/-- `mark_inlinked_urbs` ends, with every queue head that the links lead to marked once, and the
sweep deletes exactly the others; at once, or after the passes in between. -/
def Scans (guest : GuestQhs T) (s : EhciHost T) : Prop :=
  ∃ head, s.Head head ∧ ∃ n marked s₁,
    markInlinkedUrbs guest n head (unmarkAllGurbs s) = some (marked, s₁) ∧
    marked.Nodup ∧ (∀ qhPhys, qhPhys ∈ marked ↔ Reaches (nextQh guest) head qhPhys) ∧
    SweepsExactly guest head s₁ ∧
    ∀ later m s₂, updateMarkedGurbs later m s₁.update s₁ = some s₂ →
      SweepsExactly guest head (shadowMarkedGurbs guest s₂.needShadow s₂)

/-! ### The table of URBs -/

/-- The queue heads that have a URB. -/
def EhciHost.addresses (s : EhciHost T) : List Phys32 := s.gurb.map (·.qhPhys)

theorem mem_addresses {s : EhciHost T} {qhPhys : Phys32} :
    qhPhys ∈ s.addresses ↔ ∃ g ∈ s.gurb, g.qhPhys = qhPhys := List.mem_map

theorem addresses_modify {s : EhciHost T} {qhPhys : Phys32} {f : Gurb T → Gurb T}
    (hf : ∀ g, (f g).qhPhys = g.qhPhys) : (s.modify qhPhys f).addresses = s.addresses := by
  unfold EhciHost.addresses EhciHost.modify
  rw [List.map_map]
  refine List.map_congr_left fun g _ => ?_
  simp only [Function.comp_apply]
  split
  · exact hf g
  · rfl

theorem find_eq_none_iff {s : EhciHost T} {qhPhys : Phys32} :
    s.find qhPhys = none ↔ qhPhys ∉ s.addresses := by
  simp [EhciHost.find, mem_addresses]

theorem mem_of_find {s : EhciHost T} {qhPhys : Phys32} {g : Gurb T} (h : s.find qhPhys = some g) :
    g ∈ s.gurb ∧ g.qhPhys = qhPhys :=
  ⟨List.mem_of_find?_eq_some h, by simpa using List.find?_some h⟩

theorem head_eq {s : EhciHost T} {head : Phys32} : s.Head head ↔ s.addresses.head? = some head := by
  unfold EhciHost.Head EhciHost.addresses
  rw [List.head?_map]

theorem Head.mem {s : EhciHost T} {head : Phys32} (h : s.Head head) : head ∈ s.addresses :=
  List.mem_of_head? (head_eq.1 h)

theorem ehciLink_ehciLink (w : BitVec 32) : ehciLink (ehciLink w) = ehciLink w := by
  unfold ehciLink
  rw [BitVec.and_assoc]
  rfl

/-- The URBs of the queue heads in `marked` have the counter of this pass, and they alone, except
perhaps that of `cur`, which is to be marked next. A URB is in the lists that its marks tell. -/
structure Marked (counter : BitVec 16) (marked : List Phys32) (cur : Option Phys32)
    (s : EhciHost T) : Prop where
  current : s.inlinkCounter = counter
  apart : s.addresses.Nodup
  aligned : ∀ g ∈ s.gurb, ehciLink g.qhPhys = g.qhPhys
  known : ∀ a ∈ marked, a ∈ s.addresses
  inlink : ∀ g ∈ s.gurb, g.qhPhys ∈ marked → g.inlink = counter
  of_inlink : ∀ g ∈ s.gurb, g.inlink = counter → g.qhPhys ∈ marked ∨ cur = some g.qhPhys
  needs : ∀ g ∈ s.gurb, g.needShadow = true → g.qhPhys ∈ s.needShadow ∧ g.qhPhys ∈ marked
  updates : ∀ g ∈ s.gurb, g.updateReplaced = true → g.qhPhys ∈ s.update ∧ g.qhPhys ∈ marked

variable {counter : BitVec 16} {marked : List Phys32} {cur : Option Phys32} {s t : EhciHost T}
  {guest : GuestQhs T}

theorem Marked.eq_of_qhPhys (h : Marked counter marked cur s) {g g' : Gurb T} (hg : g ∈ s.gurb)
    (hg' : g' ∈ s.gurb) (heq : g.qhPhys = g'.qhPhys) : g = g' :=
  List.inj_on_of_nodup_map h.apart hg hg' heq

/-- A write to one URB. -/
theorem mem_modify {qhPhys : Phys32} {f : Gurb T → Gurb T} {g : Gurb T}
    (h : g ∈ (s.modify qhPhys f).gurb) :
    ∃ g₀ ∈ s.gurb, g₀.qhPhys = qhPhys ∧ g = f g₀ ∨ g₀.qhPhys ≠ qhPhys ∧ g = g₀ := by
  obtain ⟨g₀, hg₀, rfl⟩ := List.mem_map.1 h
  refine ⟨g₀, hg₀, ?_⟩
  by_cases heq : g₀.qhPhys = qhPhys
  · exact .inl ⟨heq, if_pos heq⟩
  · exact .inr ⟨heq, if_neg heq⟩

/-! ### Marking -/

/-- The URB of `a` is marked: what is written to it keeps its queue head, and the lists grow. -/
theorem Marked.write {a : Phys32} (h : Marked counter marked (some a) s) (ha : a ∈ s.addresses)
    {f : Gurb T → Gurb T} {needShadow update : List Phys32} (hqh : ∀ g, (f g).qhPhys = g.qhPhys)
    (hinlink : ∀ g, (f g).inlink = counter) (hneeds : ∀ x ∈ s.needShadow, x ∈ needShadow)
    (hupdates : ∀ x ∈ s.update, x ∈ update)
    (hneed : ∀ g ∈ s.gurb, g.qhPhys = a → (f g).needShadow = true → a ∈ needShadow)
    (hupdate : ∀ g ∈ s.gurb, g.qhPhys = a → (f g).updateReplaced = true → a ∈ update) :
    Marked counter (marked ++ [a]) none
      { s.modify a f with needShadow := needShadow, update := update } where
  current := h.current
  apart := by
    change (s.modify a f).addresses.Nodup
    rw [addresses_modify hqh]
    exact h.apart
  aligned := by
    intro g hg
    obtain ⟨g₀, hg₀, ⟨-, rfl⟩ | ⟨-, rfl⟩⟩ := mem_modify hg
    · rw [hqh]
      exact h.aligned g₀ hg₀
    · exact h.aligned g hg₀
  known := by
    change ∀ b ∈ marked ++ [a], b ∈ (s.modify a f).addresses
    rw [addresses_modify hqh]
    intro b hb
    rcases List.mem_append.1 hb with hb | hb
    · exact h.known b hb
    · exact List.mem_singleton.1 hb ▸ ha
  inlink := by
    intro g hg hmem
    obtain ⟨g₀, hg₀, ⟨-, rfl⟩ | ⟨hne, rfl⟩⟩ := mem_modify hg
    · exact hinlink g₀
    · refine h.inlink g hg₀ ?_
      simpa [hne] using hmem
  of_inlink := by
    intro g hg hin
    left
    obtain ⟨g₀, hg₀, ⟨rfl, rfl⟩ | ⟨hne, rfl⟩⟩ := mem_modify hg
    · rw [hqh]
      simp
    · rcases h.of_inlink g hg₀ hin with hm | heq
      · exact List.mem_append_left _ hm
      · exact absurd (Option.some.inj heq).symm hne
  needs := by
    intro g hg hflag
    obtain ⟨g₀, hg₀, ⟨rfl, rfl⟩ | ⟨hne, rfl⟩⟩ := mem_modify hg
    · rw [hqh]
      exact ⟨hneed g₀ hg₀ rfl hflag, by simp⟩
    · obtain ⟨hlist, hm⟩ := h.needs g hg₀ hflag
      exact ⟨hneeds _ hlist, List.mem_append_left _ hm⟩
  updates := by
    intro g hg hflag
    obtain ⟨g₀, hg₀, ⟨rfl, rfl⟩ | ⟨hne, rfl⟩⟩ := mem_modify hg
    · rw [hqh]
      exact ⟨hupdate g₀ hg₀ rfl hflag, by simp⟩
    · obtain ⟨hlist, hm⟩ := h.updates g hg₀ hflag
      exact ⟨hupdates _ hlist, List.mem_append_left _ hm⟩

theorem addresses_markLinkedQh (guest : GuestQhs T) (g : Gurb T) (s : EhciHost T) :
    (markLinkedQh guest g s).addresses = s.addresses := by
  unfold markLinkedQh
  simp only
  split
  · exact addresses_modify fun _ => rfl
  · split
    · exact addresses_modify fun _ => rfl
    · exact addresses_modify fun _ => rfl

theorem Marked.markLinkedQh {g : Gurb T} (h : Marked counter marked (some g.qhPhys) s)
    (hg : g ∈ s.gurb) :
    Marked counter (marked ++ [g.qhPhys]) none (markLinkedQh guest g s) := by
  have ha : g.qhPhys ∈ s.addresses := mem_addresses.2 ⟨g, hg, rfl⟩
  have hneeds : ∀ g' ∈ s.gurb, g'.qhPhys = g.qhPhys → g'.needShadow = true →
      g.qhPhys ∈ s.needShadow := fun g' hg' heq hflag => heq ▸ (h.needs g' hg' hflag).1
  have hupdates : ∀ g' ∈ s.gurb, g'.qhPhys = g.qhPhys → g'.updateReplaced = true →
      g.qhPhys ∈ s.update := fun g' hg' heq hflag => heq ▸ (h.updates g' hg' hflag).1
  unfold Ehci.markLinkedQh
  simp only
  split
  · refine h.write ha (fun _ => rfl) (fun _ => h.current) (fun _ hx => hx) ?_ hneeds ?_
    · intro x hx
      split
      · exact hx
      · exact List.mem_append_left _ hx
    · intro g' hg' heq _
      split
      case isTrue hflag => exact hupdates g hg rfl hflag
      case isFalse => simp
  · split
    · refine h.write ha (fun _ => rfl) (fun _ => h.current) ?_ (fun _ hx => hx) ?_ hupdates
      · intro x hx
        split
        · exact hx
        · exact List.mem_append_left _ hx
      · intro g' hg' heq _
        split
        case isTrue hflag => exact hneeds g hg rfl hflag
        case isFalse => simp
    · exact h.write ha (fun _ => rfl) (fun _ => h.current) (fun _ hx => hx) (fun _ hx => hx) hneeds
        hupdates

/-! ### The next queue head -/

theorem nextQh_eq_some {qhPhys next : Phys32} : nextQh guest qhPhys = some next ↔
    IsQhLink (guest.link qhPhys) ∧ ehciLink (guest.link qhPhys) = next := by
  unfold nextQh
  split
  case isTrue hlink => exact ⟨fun h => ⟨hlink, Option.some.inj h⟩, fun h => congrArg some h.2⟩
  case isFalse hlink =>
    exact ⟨fun h => (Option.some_ne_none _ h.symm).elim, fun h => absurd h.1 hlink⟩

/-- Either the next queue head has a URB, or it gets one. -/
theorem nextGurb_cases {g : Gurb T} {next : Phys32} (h : nextGurb guest g s = some (next, t)) :
    nextQh guest g.qhPhys = some next ∧
      (next ∈ s.addresses ∧ t = s ∨
        next ∉ s.addresses ∧ ∃ trans, guest.registerQtds next = some trans ∧
          t = { s with gurb := s.gurb ++ [newGurb guest next trans] }) := by
  unfold nextGurb getGurbByAddress at h
  simp only at h
  split at h
  case isFalse => cases h
  case isTrue hlink =>
    rw [Option.bind_some] at h
    cases hfind : s.find (ehciLink (guest.link g.qhPhys)) with
    | some g' =>
      rw [hfind] at h
      cases h
      obtain ⟨hmem, heq⟩ := mem_of_find hfind
      exact ⟨nextQh_eq_some.2 ⟨hlink, heq.symm⟩, .inl ⟨mem_addresses.2 ⟨g', hmem, rfl⟩, rfl⟩⟩
    | none =>
      rw [hfind] at h
      unfold registerGurb at h
      simp only [Option.map_map] at h
      obtain ⟨trans, htrans, heq⟩ := Option.map_eq_some_iff.1 h
      cases heq
      exact ⟨nextQh_eq_some.2 ⟨hlink, rfl⟩, .inr ⟨find_eq_none_iff.1 hfind, trans, htrans, rfl⟩⟩

theorem exists_nextGurb {g : Gurb T} {next : Phys32} (hnext : nextQh guest g.qhPhys = some next)
    (hreg : next ∉ s.addresses → guest.registerQtds next ≠ none) :
    ∃ t, nextGurb guest g s = some (next, t) := by
  obtain ⟨hlink, rfl⟩ := nextQh_eq_some.1 hnext
  unfold nextGurb getGurbByAddress
  simp only [if_pos hlink, Option.bind_some]
  cases hfind : s.find (ehciLink (guest.link g.qhPhys)) with
  | some g' => exact ⟨s, by simp [(mem_of_find hfind).2]⟩
  | none =>
    cases hqtds : guest.registerQtds (ehciLink (guest.link g.qhPhys)) with
    | none => exact absurd hqtds (hreg (find_eq_none_iff.1 hfind))
    | some trans => exact ⟨_, by simp only [registerGurb, hqtds, Option.map_some]; rfl⟩

theorem Marked.nextGurb {g : Gurb T} {next : Phys32} (h : Marked counter marked none s)
    (hnext : nextGurb guest g s = some (next, t)) :
    Marked counter marked (some next) t := by
  obtain ⟨hqh, ⟨-, rfl⟩ | ⟨hnot, trans, -, rfl⟩⟩ := nextGurb_cases hnext
  · exact { h with of_inlink := fun g hg hin => .inl ((h.of_inlink g hg hin).resolve_right nofun) }
  · have hcases : ∀ g' ∈ s.gurb ++ [newGurb guest next trans],
        g' ∈ s.gurb ∨ g' = newGurb guest next trans := fun g' hg' => by simpa using hg'
    obtain ⟨hlink, hlinked⟩ := nextQh_eq_some.1 hqh
    constructor
    · exact h.current
    · change (List.map _ (s.gurb ++ [_])).Nodup
      rw [List.map_append]
      refine List.nodup_append.2 ⟨h.apart, List.nodup_singleton _, fun a ha b hb => ?_⟩
      rw [List.map_singleton, List.mem_singleton] at hb
      intro heq
      have hnext : a = next := heq.trans hb
      exact hnot (hnext ▸ ha)
    · intro g' hg'
      rcases hcases g' hg' with hold | rfl
      · exact h.aligned g' hold
      · change ehciLink next = next
        rw [← hlinked, ehciLink_ehciLink]
    · intro a ha
      obtain ⟨g', hg', heq⟩ := mem_addresses.1 (h.known a ha)
      exact mem_addresses.2 ⟨g', List.mem_append_left _ hg', heq⟩
    · intro g' hg' hm
      rcases hcases g' hg' with hold | rfl
      · exact h.inlink g' hold hm
      · exact absurd (h.known _ hm) hnot
    · intro g' hg' hin
      rcases hcases g' hg' with hold | rfl
      · exact .inl ((h.of_inlink g' hold hin).resolve_right nofun)
      · exact .inr rfl
    · intro g' hg' hflag
      rcases hcases g' hg' with hold | rfl
      · exact h.needs g' hold hflag
      · cases hflag
    · intro g' hg' hflag
      rcases hcases g' hg' with hold | rfl
      · exact h.updates g' hold hflag
      · cases hflag

/-- The table grows at its end. -/
theorem nextGurb_addresses {g : Gurb T} {next : Phys32}
    (h : nextGurb guest g s = some (next, t)) :
    next ∈ t.addresses ∧ (∀ a ∈ s.addresses, a ∈ t.addresses) ∧
      (∀ a ∈ t.addresses, a ∈ s.addresses ∨ a = next) ∧
      ∀ head, s.Head head → t.Head head := by
  obtain ⟨-, ⟨hmem, rfl⟩ | ⟨-, trans, -, rfl⟩⟩ := nextGurb_cases h
  · exact ⟨hmem, fun _ ha => ha, fun _ ha => .inl ha, fun _ hh => hh⟩
  · have heq : EhciHost.addresses { s with gurb := s.gurb ++ [newGurb guest next trans] } =
        s.addresses ++ [next] := List.map_append
    rw [heq]
    refine ⟨by simp, fun a ha => List.mem_append_left _ ha, fun a ha => by simpa using ha, ?_⟩
    intro head hh
    rw [head_eq] at hh ⊢
    rw [heq, List.head?_append, hh]
    rfl

/-! ### The loop -/

/-- The loop has marked the queue heads on the way back to the first one. -/
theorem markInlinkedUrbs_spec {head : Phys32} {n : Nat} {qhPhys : Phys32} {ms : List Phys32}
    (h : markInlinkedUrbs guest n qhPhys s = some (ms, t))
    (hm : Marked counter marked (some qhPhys) s) (hhead : s.Head head)
    (hfirst : head ∈ marked ++ [qhPhys]) :
    ∃ l, ms = qhPhys :: l ∧ Linked (nextQh guest) ms (some head) ∧ head ∉ l ∧
      Marked counter (marked ++ ms) none t ∧
      (∀ a ∈ t.addresses, a ∈ s.addresses ∨ a ∈ ms) ∧
      ∀ a ∈ l, a ∉ s.addresses → guest.registerQtds a ≠ none := by
  induction n generalizing qhPhys s marked ms with
  | zero => cases h
  | succ n ih =>
    obtain ⟨g, hfind, h⟩ := Option.bind_eq_some_iff.1 h
    obtain ⟨hg, rfl⟩ := mem_of_find hfind
    obtain ⟨⟨next, s'⟩, hnext, h⟩ := Option.bind_eq_some_iff.1 h
    have hmark : Marked counter (marked ++ [g.qhPhys]) none (markLinkedQh guest g s) :=
      hm.markLinkedQh hg
    have hmarked := hmark.nextGurb hnext
    have haddr := addresses_markLinkedQh guest g s
    obtain ⟨hin, hold, hnew, hkeep⟩ := nextGurb_addresses hnext
    obtain ⟨hqh, hcases⟩ := nextGurb_cases hnext
    rw [haddr] at hold hnew hcases
    have hhead' : s'.Head head := hkeep head (by rwa [head_eq, haddr, ← head_eq])
    simp only at h
    split at h
    case isTrue hend =>
      cases h
      have heq : some head = some next := hhead'.symm.trans hend
      cases heq
      refine ⟨[], rfl, ⟨hqh, trivial⟩, List.not_mem_nil, ?_, ?_, fun a ha => nomatch ha⟩
      · exact { hmarked with
          of_inlink := fun g' hg' hin => .inl <|
            (hmarked.of_inlink g' hg' hin).elim id fun heq => Option.some.inj heq ▸ hfirst }
      · intro a ha
        rcases hnew a ha with ha | rfl
        · exact .inl ha
        · exact .inl (Head.mem hhead)
    case isFalse hend =>
      obtain ⟨⟨ms', t'⟩, hrest, heq⟩ := Option.map_eq_some_iff.1 h
      cases heq
      obtain ⟨l, rfl, hlinked, hnot, hfinal, hback, hreg⟩ := ih hrest hmarked hhead'
        (List.mem_append_left _ hfirst)
      refine ⟨next :: l, rfl, ⟨hqh, hlinked⟩, ?_, ?_, ?_, ?_⟩
      · rw [List.mem_cons, not_or]
        exact ⟨fun heq => hend (heq ▸ hhead'), hnot⟩
      · rwa [List.append_assoc] at hfinal
      · intro a ha
        rcases hback a ha with ha | ha
        · rcases hnew a ha with ha | rfl
          · exact .inl ha
          · exact .inr (by simp)
        · exact .inr (List.mem_cons_of_mem _ ha)
      · intro a ha hnot
        rcases List.mem_cons.1 ha with rfl | ha
        · rcases hcases with ⟨hmem, -⟩ | ⟨-, trans, htrans, -⟩
          · exact absurd hmem hnot
          · rw [htrans]
            exact Option.some_ne_none _
        · by_cases hs' : a ∈ s'.addresses
          · rcases hnew a hs' with hs | rfl
            · exact absurd hs hnot
            · rcases hcases with ⟨hmem, -⟩ | ⟨-, trans, htrans, -⟩
              · exact absurd hmem hnot
              · rw [htrans]
                exact Option.some_ne_none _
          · exact hreg a ha hs'

/-- On a way back to the first queue head the loop comes to its end. -/
theorem exists_markInlinkedUrbs {head : Phys32} {qhPhys : Phys32} {l : List Phys32}
    (hlinked : Linked (nextQh guest) (qhPhys :: l) (some head)) (hnot : head ∉ l)
    (hmem : qhPhys ∈ s.addresses) (hhead : s.Head head)
    (hreg : ∀ a ∈ l, a ∉ s.addresses → guest.registerQtds a ≠ none) :
    ∃ n t, markInlinkedUrbs guest n qhPhys s = some (qhPhys :: l, t) := by
  induction l generalizing qhPhys s with
  | nil =>
    obtain ⟨g, hfind⟩ := Option.ne_none_iff_exists'.1 (mt find_eq_none_iff.1 (not_not.2 hmem))
    obtain ⟨hg, rfl⟩ := mem_of_find hfind
    have haddr := addresses_markLinkedQh guest g s
    have hhead' : (markLinkedQh guest g s).Head head := by rwa [head_eq, haddr, ← head_eq]
    obtain ⟨t, hnext⟩ := exists_nextGurb (s := markLinkedQh guest g s) hlinked.1
      fun hnot => absurd (Head.mem hhead') hnot
    refine ⟨1, t, ?_⟩
    unfold markInlinkedUrbs
    rw [hfind, Option.bind_some, hnext, Option.bind_some]
    exact if_pos ((nextGurb_addresses hnext).2.2.2 head hhead')
  | cons next l ih =>
    obtain ⟨g, hfind⟩ := Option.ne_none_iff_exists'.1 (mt find_eq_none_iff.1 (not_not.2 hmem))
    obtain ⟨hg, rfl⟩ := mem_of_find hfind
    have haddr := addresses_markLinkedQh guest g s
    have hhead' : (markLinkedQh guest g s).Head head := by rwa [head_eq, haddr, ← head_eq]
    obtain ⟨s', hnext⟩ := exists_nextGurb (s := markLinkedQh guest g s) hlinked.1
      fun hn => hreg next List.mem_cons_self (haddr ▸ hn)
    obtain ⟨hin, hold, -, hkeep⟩ := nextGurb_addresses hnext
    rw [haddr] at hold
    have hhead'' : s'.Head head := hkeep head hhead'
    have hne : next ≠ head := fun heq => hnot (heq ▸ List.mem_cons_self)
    obtain ⟨n, t, hrest⟩ := ih hlinked.2 (fun h => hnot (List.mem_cons_of_mem _ h)) hin hhead''
      fun a ha hn => hreg a (List.mem_cons_of_mem _ ha) (mt (hold a) hn)
    refine ⟨n + 1, t, ?_⟩
    unfold markInlinkedUrbs
    rw [hfind, Option.bind_some, hnext, Option.bind_some]
    have hend : ¬ s'.gurb.head?.map (·.qhPhys) = some next := fun heq =>
      hne (Option.some.inj (heq.symm.trans hhead''))
    simp only [if_neg hend, hrest, Option.map_some]

/-! ### The sweep -/

theorem foldl_deactivateAndDeleteUrb (l : List (Gurb T)) (s : EhciHost T) :
    (l.foldl (fun s g => deactivateAndDeleteUrb g s) s).gurb =
      s.gurb.filter fun g => ∀ d ∈ l, g.qhPhys ≠ d.qhPhys := by
  induction l generalizing s with
  | nil => simp
  | cons d l ih =>
    rw [List.foldl_cons, ih]
    unfold deactivateAndDeleteUrb
    simp only [List.filter_filter]
    refine List.filter_congr fun g _ => ?_
    simp [Bool.and_comm]

theorem foldl_deactivateAndDeleteUrb_counter (l : List (Gurb T)) (s : EhciHost T) :
    (l.foldl (fun s g => deactivateAndDeleteUrb g s) s).inlinkCounter = s.inlinkCounter := by
  induction l generalizing s with
  | nil => rfl
  | cons d l ih => exact ih _

/-- What the sweep keeps. -/
theorem Marked.mem_sweep (h : Marked counter marked none s) {g : Gurb T} :
    g ∈ (sweepUnmarkedGurbs s).gurb ↔ g ∈ s.gurb ∧ g.qhPhys ∈ marked := by
  unfold sweepUnmarkedGurbs
  rw [foldl_deactivateAndDeleteUrb, List.mem_filter]
  refine and_congr_right fun hg => ?_
  simp only [decide_eq_true_eq, List.mem_filter, Bool.and_eq_true, Bool.not_eq_eq_eq_not,
    Bool.not_true, and_imp]
  constructor
  · intro hkept
    by_contra hnot
    refine hkept g hg ?_ ?_ ?_ rfl
    · exact Bool.eq_false_iff.2 fun hflag => hnot (h.needs g hg hflag).2
    · exact Bool.eq_false_iff.2 fun hflag => hnot (h.updates g hg hflag).2
    · intro hin
      exact hnot ((h.of_inlink g hg (hin.trans h.current)).resolve_right nofun)
  · intro hmem d hd _ _ hin heq
    refine hin ?_
    rw [h.current]
    exact h.inlink d hd (heq ▸ hmem)

theorem Marked.sweepsExactly {head : Phys32} (h : Marked counter marked none s)
    (hmarked : ∀ a, a ∈ marked ↔ Reaches (nextQh guest) head a) : SweepsExactly guest head s := by
  refine ⟨fun g hg => ?_, fun g hg => (h.mem_sweep.1 hg).1, fun a ha => ?_⟩
  · rw [h.mem_sweep, ← hmarked]
    exact and_iff_right hg
  · have hm : a ∈ marked := (hmarked a).2 ha
    obtain ⟨g, hg, rfl⟩ := mem_addresses.1 (h.known a hm)
    exact ⟨g, h.mem_sweep.2 ⟨hg, hm⟩, rfl⟩

/-! ### The passes in between -/

/-- The URB of a queue head is deleted, and the queue head registered again, with the counter. -/
theorem Marked.replace (h : Marked counter marked none s) {g : Gurb T} (hm : g.qhPhys ∈ marked)
    {new : Gurb T} (hqh : new.qhPhys = g.qhPhys) (hinlink : new.inlink = counter)
    (hupdate : new.updateReplaced = false) {needShadow : List Phys32}
    (hlist : ∀ x ∈ (deactivateAndDeleteUrb g s).needShadow, x ∈ needShadow)
    (hneed : new.needShadow = true → new.qhPhys ∈ needShadow) (hup : g.updateReplaced = false) :
    Marked counter marked none
      { deactivateAndDeleteUrb g s with
        gurb := (deactivateAndDeleteUrb g s).gurb ++ [new], needShadow := needShadow } := by
  have hcases : ∀ g' ∈ (deactivateAndDeleteUrb g s).gurb ++ [new],
      g' ∈ s.gurb ∧ g'.qhPhys ≠ g.qhPhys ∨ g' = new := by
    intro g' hg'
    rcases List.mem_append.1 hg' with hold | hnew
    · left
      simpa [deactivateAndDeleteUrb] using hold
    · exact .inr (List.mem_singleton.1 hnew)
  obtain ⟨g₀, hg₀, heq₀⟩ := mem_addresses.1 (h.known _ hm)
  constructor
  · exact h.current
  · change (List.map _ (_ ++ [_])).Nodup
    rw [List.map_append]
    refine List.nodup_append.2 ⟨h.apart.sublist (List.filter_sublist.map _),
      List.nodup_singleton _, fun a ha b hb => ?_⟩
    obtain ⟨g', hg', rfl⟩ := List.mem_map.1 ha
    rw [List.map_singleton, List.mem_singleton] at hb
    rw [hb, hqh]
    have := (List.mem_filter.1 hg').2
    simpa using this
  · intro g' hg'
    rcases hcases g' hg' with ⟨hold, -⟩ | rfl
    · exact h.aligned g' hold
    · rw [hqh, ← heq₀]
      exact h.aligned g₀ hg₀
  · intro a ha
    by_cases heq : a = g.qhPhys
    · exact mem_addresses.2 ⟨new, by simp, hqh.trans heq.symm⟩
    · obtain ⟨g', hg', rfl⟩ := mem_addresses.1 (h.known a ha)
      have hkept : g' ∈ (deactivateAndDeleteUrb g s).gurb := by
        simpa [deactivateAndDeleteUrb, hg'] using heq
      exact mem_addresses.2 ⟨g', List.mem_append_left _ hkept, rfl⟩
  · intro g' hg' hmem
    rcases hcases g' hg' with ⟨hold, -⟩ | rfl
    · exact h.inlink g' hold hmem
    · exact hinlink
  · intro g' hg' hin
    rcases hcases g' hg' with ⟨hold, -⟩ | rfl
    · exact h.of_inlink g' hold hin
    · exact .inl (hqh ▸ hm)
  · intro g' hg' hflag
    rcases hcases g' hg' with ⟨hold, hne⟩ | rfl
    · obtain ⟨hin, hmem⟩ := h.needs g' hold hflag
      refine ⟨hlist _ ?_, hmem⟩
      unfold deactivateAndDeleteUrb
      simp only
      split
      · exact (List.mem_erase_of_ne hne).2 hin
      · exact hin
    · exact ⟨hneed hflag, hqh ▸ hm⟩
  · intro g' hg' hflag
    rcases hcases g' hg' with ⟨hold, -⟩ | rfl
    · have heq : (deactivateAndDeleteUrb g s).update = s.update := by
        unfold deactivateAndDeleteUrb
        rw [hup]
        rfl
      rw [show EhciHost.update _ = s.update from heq]
      exact h.updates g' hold hflag
    · rw [hupdate] at hflag
      cases hflag

theorem replaceGurb_marked {later : Nat → GuestQhs T} {n k : Nat} {g : Gurb T}
    (h : replaceGurb later n k g s = some t) (hm : Marked counter marked none s)
    (hmem : g.qhPhys ∈ marked) (hup : g.updateReplaced = false)
    (hal : ehciLink g.qhPhys = g.qhPhys) : Marked counter marked none t ∧ t.update = s.update := by
  induction n generalizing k g s with
  | zero => cases h
  | succ n ih =>
    obtain ⟨trans, -, h⟩ := Option.bind_eq_some_iff.1 h
    have hupdate : (deactivateAndDeleteUrb g s).update = s.update := by
      unfold deactivateAndDeleteUrb
      rw [hup]
      rfl
    set new : Gurb T :=
      { newGurb (later k) (ehciLink g.qhPhys) trans with
        inlink := s.inlinkCounter
        needShadow := decide ((newGurb (later k) (ehciLink g.qhPhys) trans).status = 1) } with hnew
    have hmarked : Marked counter marked none
        { deactivateAndDeleteUrb g s with
          gurb := (deactivateAndDeleteUrb g s).gurb ++ [new]
          needShadow := if new.status = 1 then
            (deactivateAndDeleteUrb g s).needShadow ++ [new.qhPhys]
            else (deactivateAndDeleteUrb g s).needShadow } := by
      refine hm.replace hmem hal hm.current rfl ?_ ?_ hup
      · intro x hx
        split
        · exact List.mem_append_left _ hx
        · exact hx
      · intro hflag
        have hstatus : new.status = 1 := of_decide_eq_true hflag
        rw [if_pos hstatus]
        simp
    simp only at h
    split at h
    · obtain ⟨hrest, heq⟩ := ih h hmarked (by rw [← hal] at hmem; exact hmem) rfl
        (ehciLink_ehciLink _)
      exact ⟨hrest, heq.trans hupdate⟩
    · cases h
      exact ⟨hmarked, hupdate⟩

/-- A write that keeps the queue head and the counter of a URB, and sets no mark. -/
theorem Marked.clear (h : Marked counter marked none s) {a : Phys32} {f : Gurb T → Gurb T}
    {needShadow update : List Phys32} (hqh : ∀ g, (f g).qhPhys = g.qhPhys)
    (hinlink : ∀ g, (f g).inlink = g.inlink)
    (hneeds : ∀ g ∈ (s.modify a f).gurb, g.needShadow = true →
      g.qhPhys ∈ needShadow ∧ g.qhPhys ∈ marked)
    (hupdates : ∀ g ∈ (s.modify a f).gurb, g.updateReplaced = true →
      g.qhPhys ∈ update ∧ g.qhPhys ∈ marked) :
    Marked counter marked none
      { s.modify a f with needShadow := needShadow, update := update } where
  current := h.current
  apart := by
    change (s.modify a f).addresses.Nodup
    rw [addresses_modify hqh]
    exact h.apart
  aligned := by
    intro g hg
    obtain ⟨g₀, hg₀, ⟨-, rfl⟩ | ⟨-, rfl⟩⟩ := mem_modify hg
    · rw [hqh]
      exact h.aligned g₀ hg₀
    · exact h.aligned g hg₀
  known := by
    change ∀ b ∈ marked, b ∈ (s.modify a f).addresses
    rw [addresses_modify hqh]
    exact h.known
  inlink := by
    intro g hg hmem
    obtain ⟨g₀, hg₀, ⟨-, rfl⟩ | ⟨hne, rfl⟩⟩ := mem_modify hg
    · rw [hinlink]
      exact h.inlink g₀ hg₀ (hqh g₀ ▸ hmem)
    · exact h.inlink g hg₀ hmem
  of_inlink := by
    intro g hg hin
    obtain ⟨g₀, hg₀, ⟨-, rfl⟩ | ⟨hne, rfl⟩⟩ := mem_modify hg
    · rw [hqh]
      exact h.of_inlink g₀ hg₀ (hinlink g₀ ▸ hin)
    · exact h.of_inlink g hg₀ hin
  needs := hneeds
  updates := hupdates

/-- The first URB of the list `update` is not marked for it. -/
theorem Marked.popUpdate (h : Marked counter marked none s) {a : Phys32} {rest : List Phys32}
    (hlist : s.update = a :: rest)
    (hnot : ∀ g ∈ s.gurb, g.qhPhys = a → g.updateReplaced = false) :
    Marked counter marked none { s with update := rest } :=
  { h with
    updates := fun g hg hflag => by
      obtain ⟨hin, hm⟩ := h.updates g hg hflag
      rw [hlist] at hin
      refine ⟨(List.mem_cons.1 hin).resolve_left fun heq => ?_, hm⟩
      rw [hnot g hg heq] at hflag
      cases hflag }

theorem updateMarkedGurbs_marked {later : Phys32 → Nat → GuestQhs T} {n : Nat}
    {rest : List Phys32} (h : updateMarkedGurbs later n rest s = some t)
    (hm : Marked counter marked none s) (hlist : s.update = rest) :
    Marked counter marked none t ∧ t.update = [] := by
  induction rest generalizing s with
  | nil =>
    cases h
    exact ⟨hm, hlist⟩
  | cons a rest ih =>
    unfold updateMarkedGurbs at h
    simp only at h
    split at h
    case h_1 hfind =>
      refine ih h (hm.popUpdate hlist fun g hg heq => ?_) rfl
      exact absurd (mem_addresses.2 ⟨g, hg, heq⟩) (find_eq_none_iff.1 hfind)
    case h_2 g hfind =>
      obtain ⟨hg, heq⟩ := mem_of_find hfind
      split at h
      case isTrue hflag =>
        obtain ⟨s', hreplace, hrest⟩ := Option.bind_eq_some_iff.1 h
        have hclear : Marked counter marked none
            { s.modify a (fun g => { g with updateReplaced := false }) with update := rest } := by
          refine hm.clear (fun _ => rfl) (fun _ => rfl) (fun g' hg' hflag' => ?_)
            fun g' hg' hflag' => ?_
          · obtain ⟨g₀, hg₀, ⟨-, rfl⟩ | ⟨-, rfl⟩⟩ := mem_modify hg'
            · exact hm.needs g₀ hg₀ hflag'
            · exact hm.needs g' hg₀ hflag'
          · obtain ⟨g₀, hg₀, ⟨-, rfl⟩ | ⟨hne, rfl⟩⟩ := mem_modify hg'
            · cases hflag'
            · obtain ⟨hin, hmem⟩ := hm.updates g' hg₀ hflag'
              rw [hlist] at hin
              exact ⟨(List.mem_cons.1 hin).resolve_left hne, hmem⟩
        obtain ⟨hmarked, hupdate⟩ := replaceGurb_marked hreplace hclear (hm.updates g hg hflag).2
          rfl (hm.aligned g hg)
        exact ih hrest hmarked hupdate
      case isFalse hflag =>
        refine ih h (hm.popUpdate hlist fun g' hg' heq' => ?_) rfl
        rw [hm.eq_of_qhPhys hg' hg (heq'.trans heq.symm)]
        exact Bool.eq_false_iff.2 hflag

theorem shadowMarkedGurbs_marked {rest : List Phys32} (hm : Marked counter marked none s)
    (hlist : s.needShadow = rest) :
    Marked counter marked none (shadowMarkedGurbs guest rest s) ∧
      (shadowMarkedGurbs guest rest s).needShadow = [] ∧
      (shadowMarkedGurbs guest rest s).update = s.update := by
  induction rest generalizing s with
  | nil => exact ⟨hm, hlist, rfl⟩
  | cons a rest ih =>
    unfold shadowMarkedGurbs
    refine ih ?_ rfl
    refine hm.clear (fun g => ?_) (fun g => ?_) (fun g hg hflag => ?_) fun g hg hflag => ?_
    · split <;> rfl
    · split <;> rfl
    · obtain ⟨g₀, hg₀, ⟨-, rfl⟩ | ⟨hne, rfl⟩⟩ := mem_modify hg
      · split at hflag
        · cases hflag
        next hnot => exact absurd hflag hnot
      · obtain ⟨hin, hmem⟩ := hm.needs g hg₀ hflag
        rw [hlist] at hin
        exact ⟨(List.mem_cons.1 hin).resolve_left hne, hmem⟩
    · obtain ⟨g₀, hg₀, ⟨-, rfl⟩ | ⟨hne, rfl⟩⟩ := mem_modify hg
      · have hold : g₀.updateReplaced = true := by
          split at hflag <;> exact hflag
        split
        · exact hm.updates g₀ hg₀ hold
        · exact hm.updates g₀ hg₀ hold
      · exact hm.updates g hg₀ hflag

/-! ### The state before a pass -/

/-- No marks are left, and every URB has the counter of the last pass. -/
structure Settled (s : EhciHost T) : Prop where
  first : ∃ head, s.Head head
  apart : s.addresses.Nodup
  aligned : ∀ g ∈ s.gurb, ehciLink g.qhPhys = g.qhPhys
  inlink : ∀ g ∈ s.gurb, g.inlink = s.inlinkCounter
  needs : ∀ g ∈ s.gurb, g.needShadow = false
  updates : ∀ g ∈ s.gurb, g.updateReplaced = false

theorem Settled.unmark (h : Settled s) {head : Phys32} :
    Marked (s.inlinkCounter + 1) [] (some head) (unmarkAllGurbs s) where
  current := rfl
  apart := h.apart
  aligned := h.aligned
  known := fun a ha => nomatch ha
  inlink := fun g hg hm => nomatch hm
  of_inlink := by
    intro g hg hin
    rw [h.inlink g hg] at hin
    exact absurd hin (by bv_omega)
  needs := fun g hg hflag => by
    rw [h.needs g hg] at hflag
    cases hflag
  updates := fun g hg hflag => by
    rw [h.updates g hg] at hflag
    cases hflag

theorem Settled.start {headqhPhys : BitVec 32} (h : ehciShadowAsyncList guest headqhPhys = some s) :
    Settled s := by
  unfold ehciShadowAsyncList registerGurb at h
  simp only [Option.map_map] at h
  obtain ⟨trans, -, rfl⟩ := Option.map_eq_some_iff.1 h
  refine ⟨⟨ehciLink headqhPhys, rfl⟩, List.nodup_singleton _, ?_, ?_, ?_, ?_⟩
  · intro g hg
    cases List.mem_singleton.1 hg
    exact ehciLink_ehciLink headqhPhys
  all_goals
    intro g hg
    cases List.mem_singleton.1 hg
    rfl

/-- After the sweep every URB that is left has the counter. -/
theorem Marked.settled (h : Marked counter marked none s) (hneeds : s.needShadow = [])
    (hupdates : s.update = []) {a : Phys32} (ha : a ∈ marked) : Settled (sweepUnmarkedGurbs s) where
  first := by
    obtain ⟨g, hg, rfl⟩ := mem_addresses.1 (h.known a ha)
    have hkept := h.mem_sweep.2 ⟨hg, ha⟩
    unfold EhciHost.Head
    cases hlist : (sweepUnmarkedGurbs s).gurb with
    | nil =>
      rw [hlist] at hkept
      cases hkept
    | cons g' l => exact ⟨g'.qhPhys, rfl⟩
  apart := by
    unfold sweepUnmarkedGurbs EhciHost.addresses
    rw [foldl_deactivateAndDeleteUrb]
    exact h.apart.sublist (List.filter_sublist.map _)
  aligned := fun g hg => h.aligned g (h.mem_sweep.1 hg).1
  inlink := by
    intro g hg
    obtain ⟨hg, hm⟩ := h.mem_sweep.1 hg
    unfold sweepUnmarkedGurbs
    rw [foldl_deactivateAndDeleteUrb_counter, h.current]
    exact h.inlink g hg hm
  needs := by
    intro g hg
    refine Bool.eq_false_iff.2 fun hflag => ?_
    have := (h.needs g (h.mem_sweep.1 hg).1 hflag).1
    rw [hneeds] at this
    cases this
  updates := by
    intro g hg
    refine Bool.eq_false_iff.2 fun hflag => ?_
    have := (h.updates g (h.mem_sweep.1 hg).1 hflag).1
    rw [hupdates] at this
    cases this

theorem Settled.advance (h : Settled s) (advanced : Phys32 → Bool) :
    Settled (ehciCheckAdvance advanced s) := by
  have hsame : ∀ g ∈ (ehciCheckAdvance advanced s).gurb, ∃ g₀ ∈ s.gurb, g.qhPhys = g₀.qhPhys ∧
      g.inlink = g₀.inlink ∧ g.needShadow = g₀.needShadow ∧
      g.updateReplaced = g₀.updateReplaced := by
    intro g hg
    obtain ⟨g₀, hg₀, rfl⟩ := List.mem_map.1 hg
    refine ⟨g₀, hg₀, ?_⟩
    split <;> exact ⟨rfl, rfl, rfl, rfl⟩
  have haddr : (ehciCheckAdvance advanced s).addresses = s.addresses := by
    unfold ehciCheckAdvance EhciHost.addresses
    rw [List.map_map]
    refine List.map_congr_left fun g _ => ?_
    simp only [Function.comp_apply]
    split <;> rfl
  refine ⟨?_, haddr ▸ h.apart, ?_, ?_, ?_, ?_⟩
  · obtain ⟨head, hhead⟩ := h.first
    refine ⟨head, ?_⟩
    rw [head_eq] at hhead ⊢
    rw [haddr, hhead]
  all_goals
    intro g hg
    obtain ⟨g₀, hg₀, hqh, hin, hneed, hup⟩ := hsame g hg
  · rw [hqh]
    exact h.aligned g₀ hg₀
  · rw [hin]
    exact h.inlink g₀ hg₀
  · rw [hneed]
    exact h.needs g₀ hg₀
  · rw [hup]
    exact h.updates g₀ hg₀

/-- What a call of `mark_inlinked_urbs` that ends has done. -/
theorem Settled.mark (h : Settled s) {head : Phys32} (hhead : s.Head head) {n : Nat}
    {ms : List Phys32} (hmark : markInlinkedUrbs guest n head (unmarkAllGurbs s) = some (ms, t)) :
    ∃ l, ms = head :: l ∧ Linked (nextQh guest) ms (some head) ∧ head ∉ l ∧
      Marked (s.inlinkCounter + 1) ms none t ∧
      ∀ a ∈ l, a ∉ s.addresses → guest.registerQtds a ≠ none := by
  obtain ⟨l, hms, hlinked, hnot, hmarked, -, hreg⟩ :=
    markInlinkedUrbs_spec (s := unmarkAllGurbs s) hmark h.unmark hhead (by simp)
  exact ⟨l, hms, hlinked, hnot, hmarked, hreg⟩

theorem Settled.pass (h : Settled s) (turn : MonitorPass s t) : Settled t := by
  obtain ⟨guest, later, advanced, hhead, hmark, hupdate⟩ := turn
  obtain ⟨l, rfl, -, -, hmarked, -⟩ := h.mark hhead hmark
  obtain ⟨hmarked, hnil⟩ := updateMarkedGurbs_marked hupdate hmarked rfl
  obtain ⟨hmarked, hneeds, hupdates⟩ := shadowMarkedGurbs_marked hmarked rfl
  exact (hmarked.settled hneeds (hupdates.trans hnil) List.mem_cons_self).advance advanced

theorem Monitored.settled (h : Monitored s) : Settled s := by
  induction h with
  | start h => exact .start h
  | pass _ turn ih => exact ih.pass turn

/-! ### The result -/

/-- A pass that ends has come back to the first queue head. -/
theorem Settled.closed (h : Settled s) (hscans : Scans guest s) :
    ∃ head, s.Head head ∧ OnCycle (nextQh guest) head ∧
      ∀ a, Reaches (nextQh guest) head a → a ∉ s.addresses → guest.registerQtds a ≠ none := by
  obtain ⟨head, hhead, n, ms, t, hmark, -⟩ := hscans
  obtain ⟨l, rfl, hlinked, -, -, hreg⟩ := h.mark hhead hmark
  refine ⟨head, hhead, hlinked.follow, fun a ha hnew => ?_⟩
  rw [hlinked.reaches_iff (fun y hy => Option.some.inj hy ▸ List.mem_cons_self)] at ha
  rcases List.mem_cons.1 ha with rfl | ha
  · exact absurd (Head.mem hhead) hnew
  · exact hreg a ha hnew

theorem Settled.scans (h : Settled s) {head : Phys32} (hhead : s.Head head)
    (hcycle : OnCycle (nextQh guest) head)
    (hreg : ∀ a, Reaches (nextQh guest) head a → a ∉ s.addresses → guest.registerQtds a ≠ none) :
    Scans guest s := by
  obtain ⟨l, hlinked, hnot, hd⟩ := exists_linked hcycle
  have hreach : ∀ a, Reaches (nextQh guest) head a ↔ a ∈ head :: l := fun a =>
    hlinked.reaches_iff fun y hy => Option.some.inj hy ▸ List.mem_cons_self
  obtain ⟨n, t, hmark⟩ := exists_markInlinkedUrbs (s := unmarkAllGurbs s) hlinked hnot
    (Head.mem hhead) hhead fun a ha hnew =>
      hreg a ((hreach a).2 (List.mem_cons_of_mem _ ha)) hnew
  obtain ⟨-, -, -, -, hmarked, -⟩ := h.mark hhead hmark
  refine ⟨head, hhead, n, head :: l, t, hmark, hd, fun a => (hreach a).symm,
    hmarked.sweepsExactly fun a => (hreach a).symm, fun later m t' hupdate => ?_⟩
  obtain ⟨hmarked', -⟩ := updateMarkedGurbs_marked hupdate hmarked rfl
  exact (shadowMarkedGurbs_marked hmarked' rfl).1.sweepsExactly fun a => (hreach a).symm

/-- Before every turn of the monitor and for any contents of the guest's memory: the pass ends,
having marked each queue head that the links lead to once and deleted the URBs of the others, if and
only if the links lead from the first queue head back to it, and `register_gurb` returns for the
queue heads on the way that have no URB. -/
theorem scans_iff (h : Monitored s) (guest : GuestQhs T) :
    Scans guest s ↔ ∃ head, s.Head head ∧ OnCycle (nextQh guest) head ∧
      ∀ a, Reaches (nextQh guest) head a → a ∉ s.addresses → guest.registerQtds a ≠ none :=
  ⟨h.settled.closed, fun ⟨_, hhead, hcycle, hreg⟩ => h.settled.scans hhead hcycle hreg⟩

/-- A guest whose queue heads have no transfers and link to the same one. -/
def idleQhs (link : BitVec 32) : GuestQhs Unit where
  link _ := link
  registerQtds _ := some ()
  isActiveUrb _ _ := 0
  discards _ := false

/-- The state in which the monitor starts, with the queue head at 0x1000. -/
def startHost : EhciHost Unit where
  gurb := [⟨0x1000, (), 0, false, false, 0, true⟩]
  needShadow := []
  update := []
  inlinkCounter := 0

theorem startHost_monitored (link : BitVec 32) : Monitored startHost :=
  have h : ehciShadowAsyncList (idleQhs link) 0x1000 = some startHost := rfl
  .start h

theorem scans_iff_self : Monitored startHost ∧ (Scans (idleQhs 0x1002) startHost ↔
    ∃ head, startHost.Head head ∧ OnCycle (nextQh (idleQhs 0x1002)) head ∧
      ∀ a, Reaches (nextQh (idleQhs 0x1002)) head a → a ∉ startHost.addresses →
        (idleQhs 0x1002).registerQtds a ≠ none) :=
  ⟨startHost_monitored 0x1002, scans_iff (startHost_monitored 0x1002) (idleQhs 0x1002)⟩

/-- The first queue head links to one that links to itself. -/
theorem not_scans_inner_cycle : Monitored startHost ∧ ¬ Scans (idleQhs 0x2002) startHost := by
  refine ⟨startHost_monitored 0x2002, fun hscans => ?_⟩
  obtain ⟨head, hhead, hcycle, -⟩ := (startHost_monitored 0x2002).settled.closed hscans
  have heq : head = 0x1000 := (Option.some.inj hhead).symm
  obtain ⟨x, -, hx⟩ := Relation.TransGen.tail'_iff.1 hcycle
  have hnext : nextQh (idleQhs 0x2002) x = some 0x2000 := by
    rw [nextQh_eq_some]
    change IsQhLink 0x2002 ∧ ehciLink 0x2002 = 0x2000
    decide
  rw [hnext, heq] at hx
  exact absurd hx (by decide)

end OnDemandVirt.Ehci
