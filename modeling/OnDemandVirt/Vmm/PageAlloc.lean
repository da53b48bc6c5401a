import Mathlib.Tactic.SplitIfs
import OnDemandVirt.Lib.Buddy
import OnDemandVirt.Lib.Machine

/-!
# The page allocator

`mm.c`: a buddy allocator on the pages of the VMM. A page descriptor is called by its place in
`pagestruct`. `mm_page_alloc` gives up the lock while it takes a larger block to split; each part
of it that runs under the lock is a definition of its own, and `mmPageAlloc` is a call that is not
interrupted.
-/

namespace OnDemandVirt.Vmm

/-- `NUM_OF_PAGES`. -/
abbrev numOfPages : Nat := 32768

/-- `NUM_OF_ALLOCSIZE`. -/
abbrev numOfAllocsize : Nat := 13

/-- `VMM_START_VIRT`. -/
def vmmStartVirt : Nat := 0x40000000

/-- `enum page_type`. -/
inductive PageType where
  | free
  | notHead
  | allocated
  | reserved
  deriving DecidableEq

/-- `struct page`; its addresses follow from its place. -/
structure Page where
  type : PageType
  allocsize : Nat

/-- `pagestruct` and `list1_freepage`. -/
structure PageAlloc where
  page : Nat → Page
  freepage : Nat → List Nat

/-- `allocsize`. -/
def allocsize (n : Nat) : Nat := 4096 <<< n

def pageToVirt (p : Nat) : Nat := vmmStartVirt + 4096 * p

def virtToPage (virt : Nat) : Nat := (virt - vmmStartVirt) >>> 12

namespace PageAlloc

def setType (s : PageAlloc) (p : Nat) (type : PageType) : PageAlloc :=
  { s with page := Function.update s.page p { s.page p with type := type } }

def setAllocsize (s : PageAlloc) (p n : Nat) : PageAlloc :=
  { s with page := Function.update s.page p { s.page p with allocsize := n } }

/-- `LIST1_ADD`. -/
def add (s : PageAlloc) (n p : Nat) : PageAlloc :=
  { s with freepage := Function.update s.freepage n (s.freepage n ++ [p]) }

/-- `LIST1_DEL`. -/
def del (s : PageAlloc) (n p : Nat) : PageAlloc :=
  { s with freepage := Function.update s.freepage n ((s.freepage n).erase p) }

/-- The end of `mm_page_alloc`: the first block of the list, whether its old type is the one that is
asserted, and the state; `none` where the list is empty. -/
def take (s : PageAlloc) (n : Nat) : Option (Nat × Bool × PageAlloc) :=
  match s.freepage n with
  | [] => none
  | p :: ps =>
    let oldType := (s.page p).type
    let s := { s with freepage := Function.update s.freepage n ps }
    some (p, oldType == .free, s.setType p .allocated)

/-- The loop body of `mm_page_alloc` after its inner call has returned `p`. -/
def split (s : PageAlloc) (n p : Nat) : PageAlloc :=
  let q := virtToPage (pageToVirt p ^^^ allocsize n)
  (((((s.setAllocsize p n).setType p .free).setType q .free).add n p).add n q)

end PageAlloc

/-- `mm_page_alloc` of one that is not interrupted, `none` where an assertion fails; `fuel` counts
the orders from `n` on. -/
def mmPageAlloc : (fuel : Nat) → PageAlloc → (n : Nat) → Option (Nat × PageAlloc)
  | 0, _, _ => none
  | fuel + 1, s, n =>
    match s.take n with
    | some (p, ok, s) => if ok then some (p, s) else none
    | none =>
      (mmPageAlloc fuel s (n + 1)).bind fun (p, s) =>
        ((s.split n p).take n).bind fun (p, ok, s) => if ok then some (p, s) else none

/-- The loop of `mm_page_free`. -/
def mergeLoop : (fuel : Nat) → PageAlloc → (p n : Nat) → PageAlloc
  | 0, s, _, _ => s
  | fuel + 1, s, p, n =>
    let virt := pageToVirt p
    let q := virtToPage (virt ^^^ allocsize n)
    if n < numOfAllocsize - 1 ∧ (s.page q).type = .free ∧ (s.page q).allocsize = n then
      let (p, q) := if virt &&& allocsize n ≠ 0 then (q, p) else (p, q)
      let s := ((s.del n p).del n q).setType q .notHead
      let n := (s.page p).allocsize + 1
      mergeLoop fuel ((s.setAllocsize p n).add n p) p n
    else s

/-- `mm_page_free`. -/
def mmPageFree (s : PageAlloc) (p : Nat) : PageAlloc :=
  let n := (s.page p).allocsize
  mergeLoop numOfAllocsize ((s.setType p .free).add n p) p n

/-- Where the image of the VMM is, in virtual addresses. -/
structure VmmImage where
  head : Nat
  last : Nat

/-- The page is neither part of the image nor kept for panics. -/
def VmmImage.Managed (img : VmmImage) (i : Nat) : Prop :=
  ¬ (img.head ≤ pageToVirt i ∧ pageToVirt i < img.last) ∧
    ¬ i < (img.last + 4096 - 1 - vmmStartVirt) >>> 12 + 256

instance (img : VmmImage) (i : Nat) : Decidable (img.Managed i) :=
  inferInstanceAs (Decidable (_ ∧ _))

/-- What `mm_init_global` does with the pages. -/
def mmInitGlobal (img : VmmImage) : PageAlloc :=
  ((List.range numOfPages).filter fun i => decide (img.Managed i)).foldl mmPageFree
    { page := fun _ => ⟨.reserved, 0⟩, freepage := fun _ => [] }

/-! ### Calls that run side by side -/

/-- Where a thread is: before it takes the lock in a call for a block of order `n`, or after such a
call has returned `p`, with the orders of the calls that wait for it. -/
inductive Caller where
  | idle
  | calling (n : Nat) (pending : List Nat)
  | returned (p : Nat) (pending : List Nat)

/-- The allocator, the threads that are in it, the blocks that callers hold, and whether the
assertion on the old type has held so far. -/
structure AllocRun where
  alloc : PageAlloc
  caller : Nat → Caller
  held : Nat → Bool
  oldTypeOk : Bool

/-- Thread `t` returns from a call. -/
def AllocRun.ret (s : AllocRun) (t p : Nat) (ok : Bool) (alloc : PageAlloc) :
    (pending : List Nat) → AllocRun
  | [] =>
    { alloc := alloc, caller := Function.update s.caller t .idle
      held := Function.update s.held p true, oldTypeOk := s.oldTypeOk && ok }
  | pending =>
    { alloc := alloc, caller := Function.update s.caller t (.returned p pending)
      held := s.held, oldTypeOk := s.oldTypeOk && ok }

/-- Thread `t` looks for a block of order `n` under the lock, which it gives up if there is none. -/
def AllocRun.look (s : AllocRun) (t : Nat) (alloc : PageAlloc) (n : Nat) (pending : List Nat) :
    AllocRun :=
  match alloc.take n with
  | none => { s with alloc := alloc, caller := Function.update s.caller t (.calling (n + 1) (n :: pending)) }
  | some (p, ok, alloc) => s.ret t p ok alloc pending

/-- A thread calls `mm_page_alloc`, a thread in it runs until it gives up the lock, or a block that
is held is passed to `mm_page_free`. -/
inductive AllocEvent where
  | call (t n : Nat)
  | lock (t : Nat)
  | free (p : Nat)

/-- The allocator under calls of any threads; no step where a request is larger than any block. -/
def pageAllocMachine (img : VmmImage) : Lib.Machine AllocRun AllocEvent where
  init s := s = ⟨mmInitGlobal img, fun _ => .idle, fun _ => false, true⟩
  step s
    | .call t n =>
      match s.caller t with
      | .idle => some { s with caller := Function.update s.caller t (.calling n []) }
      | _ => none
    | .lock t =>
      match s.caller t with
      | .calling n pending => if n < numOfAllocsize then some (s.look t s.alloc n pending) else none
      | .returned p (n :: pending) => some (s.look t (s.alloc.split n p) n pending)
      | _ => none
    | .free p =>
      if s.held p then
        some { s with alloc := mmPageFree s.alloc p, held := Function.update s.held p false }
      else none

end OnDemandVirt.Vmm
