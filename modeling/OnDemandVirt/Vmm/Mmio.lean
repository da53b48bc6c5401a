import OnDemandVirt.Lib.Machine
import Mathlib.Data.List.Basic
import Mathlib.Tactic.SplitIfs
import Mathlib.Algebra.Group.Nat.Defs

/-!
# MMIO handles

Handles are kept in one list and, sorted by address, in the lists of the 256MB buckets they reach;
all that is above 4GB is one bucket. `mmioAccessMemory` splits an access between the handles it
meets and plain memory, `mmioRange` looks for the first handle of a range.
-/

namespace OnDemandVirt.Vmm

/-- `struct mmio_handle`; a handle is called by its place in the heap. -/
structure MmioHandle where
  gphys : BitVec 64
  len : BitVec 32
  unregistered : Bool
  unlockedHandler : Bool

/-- `struct mmio_data` and the heap its pointers point into, up to `next`. -/
structure MmioData where
  heap : Nat → MmioHandle
  next : Nat
  handle : List Nat
  mmio : Nat → List Nat
  unregisterFlag : Bool

/-- The bucket of an address. -/
def bucketOf (a : BitVec 64) : Nat := if a ≤ 0xFFFFFFFF#64 then (a >>> 28).toNat else 16

/-- `rangecheck`: `none` where the ranges have nothing in common, else the first and the last
address they have in common and what the function asserts about them. -/
def rangecheck (h : MmioHandle) (gphys : BitVec 64) (len : BitVec 32) :
    Option (BitVec 64 × BitVec 64 × Bool) :=
  if h.unregistered then none
  else
    let a := gphys - h.gphys
    let b := gphys + len.setWidth 64 - 1 - h.gphys
    let c := h.gphys - h.gphys
    let d := h.gphys + h.len.setWidth 64 - 1 - h.gphys
    if d < a ∧ a ≤ b then none
    else
      let a := if d < a then c else a
      let b := if d < b then d else b
      some (a + h.gphys, b + h.gphys, decide (a ≤ b))

/-! ### Registration -/

/-- `scan`: the buckets of a range. -/
def scanBuckets (gphys : BitVec 64) (len : BitVec 32) : List Nat :=
  let last := gphys + len.setWidth 64 - 1
  let last := last ||| 0x0FFFFFFF#64
  let gphys := gphys &&& ~~~0x0FFFFFFF#64
  let s := bucketOf gphys
  let e := bucketOf last
  List.range' s (e + 1 - s)

/-- `add`, for one bucket: before the first handle of a higher address. -/
def addHandle (heap : Nat → MmioHandle) (p : Nat) (l : List Nat) : List Nat :=
  l.takeWhile (fun d => (heap d).gphys ≤ (heap p).gphys) ++
    p :: l.dropWhile fun d => (heap d).gphys ≤ (heap p).gphys

/-- `scan (gphys, len, func, p)`. -/
def scan (gphys : BitVec 64) (len : BitVec 32) (func : Nat → List Nat → List Nat) (p : Nat)
    (mmio : Nat → List Nat) : Nat → List Nat := fun i =>
  if i ∈ scanBuckets gphys len then func p (mmio i) else mmio i

/-- `mmio_register_internal`; the flush of the mappings that are there may fail. -/
def mmioRegister (gphys : BitVec 64) (len : BitVec 32) (unlockedHandler flushFails : Bool)
    (s : MmioData) : MmioData :=
  if s.handle.any fun p => (rangecheck (s.heap p) gphys len).isSome then s
  else if flushFails then s
  else
    let p := s.next
    let heap := Function.update s.heap p
      { gphys := gphys, len := len, unregistered := false, unlockedHandler := unlockedHandler }
    { heap := heap
      next := p + 1
      handle := s.handle ++ [p]
      mmio := scan gphys len (addHandle heap) p s.mmio
      unregisterFlag := s.unregisterFlag }

/-- `LIST1_DEL (handle, p)`, `scan (p->gphys, p->len, del, p)`. -/
def removeHandle (s : MmioData) (p : Nat) : MmioData :=
  { s with
    handle := s.handle.erase p
    mmio := scan (s.heap p).gphys (s.heap p).len (fun p l => l.erase p) p s.mmio }

/-- `mmio_unregister`; while the lock is held the handle is marked only. -/
def mmioUnregister (p : Nat) (locked : Bool) (s : MmioData) : MmioData :=
  if locked then
    { s with
      heap := Function.update s.heap p { s.heap p with unregistered := true }
      unregisterFlag := true }
  else removeHandle s p

/-- What `mmio_unlock` does when it can take the lock. -/
def mmioUnlock (s : MmioData) : MmioData :=
  if s.unregisterFlag then
    (s.handle.filter fun p => (s.heap p).unregistered).foldl removeHandle
      { s with unregisterFlag := false }
  else s

/-- `mmio_init`. -/
def mmioInit : MmioData where
  heap _ := { gphys := 0, len := 0, unregistered := false, unlockedHandler := false }
  next := 0
  handle := []
  mmio _ := []
  unregisterFlag := false

inductive MmioEvent
  | register (gphys : BitVec 64) (len : BitVec 32) (unlockedHandler flushFails : Bool)
  | unregister (p : Nat) (locked : Bool)
  | unlock

/-- Registering and unregistering; only a handle that is there can be unregistered. -/
def mmioMachine : Lib.Machine MmioData MmioEvent where
  init s := s = mmioInit
  step s
    | .register gphys len unlockedHandler flushFails =>
      some (mmioRegister gphys len unlockedHandler flushFails s)
    | .unregister p locked => if p ∈ s.handle then some (mmioUnregister p locked s) else none
    | .unlock => some (mmioUnlock s)

/-! ### Access -/

/-- Where bytes of an access go. -/
inductive Target
  | memory
  | handler (p : Nat)
deriving DecidableEq

/-- Some bytes of an access, with their place in the caller's buffer. -/
structure Access where
  target : Target
  gphys : Nat
  off : Nat
  len : Nat
deriving DecidableEq

/-- `mmio_gphys_access`. -/
def mmioGphysAccess (gphys : BitVec 64) (off : Nat) (len : BitVec 32) : List Access :=
  if len = 0 then [] else [{ target := .memory, gphys := gphys.toNat, off := off, len := len.toNat }]

/-- A call of the handler of `p`; where it does not handle the access, memory is accessed. -/
def callHandler (handled : Nat → BitVec 64 → BitVec 32 → Bool) (p : Nat) (gphys : BitVec 64)
    (off : Nat) (len : BitVec 32) : List Access :=
  { target := .handler p, gphys := gphys.toNat, off := off, len := len.toNat } ::
    if handled p gphys len then [] else mmioGphysAccess gphys off len

/-- The variables of `mmio_access_memory`; `q` is the place in the caller's buffer. -/
structure AccessState where
  gphysaddr : BitVec 64
  q : Nat
  len : BitVec 32
  r : Bool
  unlockedHandler : Option (Nat × BitVec 64 × Nat × BitVec 32)
  accesses : List Access

/-- The body of the loop for a handle that the access meets at `gphys2` for `len2` bytes; `none`
where the function panics. -/
def accessHandle (handled : Nat → BitVec 64 → BitVec 32 → Bool) (h : MmioHandle) (p : Nat)
    (gphys2 : BitVec 64) (len2 : BitVec 32) (s : AccessState) : Option AccessState :=
  let tmp := (gphys2 - s.gphysaddr).setWidth 32
  let accesses := s.accesses ++ mmioGphysAccess s.gphysaddr s.q tmp
  let gphysaddr := s.gphysaddr + tmp.setWidth 64
  let q := s.q + tmp.toNat
  let len := s.len - tmp
  if h.unlockedHandler && s.unlockedHandler.isSome then none
  else some
    { gphysaddr := gphysaddr + len2.setWidth 64
      q := q + len2.toNat
      len := len - len2
      r := true
      unlockedHandler :=
        if h.unlockedHandler then some (p, gphysaddr, q, len2) else s.unlockedHandler
      accesses :=
        if h.unlockedHandler then accesses else accesses ++ callHandler handled p gphysaddr q len2 }

/-- The loop over one bucket; `true` says that it left both loops. -/
def accessBucket (heap : Nat → MmioHandle) (handled : Nat → BitVec 64 → BitVec 32 → Bool) :
    List Nat → AccessState → Option (Bool × AccessState)
  | [], s => some (false, s)
  | p :: ps, s =>
    if s.gphysaddr + s.len.setWidth 64 ≤ (heap p).gphys then some (true, s)
    else
      match rangecheck (heap p) s.gphysaddr s.len with
      | none => accessBucket heap handled ps s
      | some (a, b, f) =>
        if !f then none
        else
          match accessHandle handled (heap p) p a ((b - a + 1).setWidth 32) s with
          | none => none
          | some s => if s.len = 0 then some (true, s) else accessBucket heap handled ps s

/-- The loop over the buckets. -/
def accessBuckets (m : MmioData) (handled : Nat → BitVec 64 → BitVec 32 → Bool) :
    List Nat → AccessState → Option AccessState
  | [], s => some s
  | i :: is, s =>
    match accessBucket m.heap handled (m.mmio i) s with
    | none => none
    | some (true, s) => some s
    | some (false, s) => accessBuckets m handled is s

/-- What is left to do after the loops. -/
def accessOut (handled : Nat → BitVec 64 → BitVec 32 → Bool) (s : AccessState) :
    Bool × List Access :=
  (s.r, s.accesses ++ (if s.r then mmioGphysAccess s.gphysaddr s.q s.len else []) ++
    match s.unlockedHandler with
    | none => []
    | some (p, gphys, off, len) => callHandler handled p gphys off len)

/-- `mmio_access_memory`: what it returns and the accesses it makes, `none` where it panics. What
a handler answers is `handled`. -/
def mmioAccessMemory (m : MmioData) (handled : Nat → BitVec 64 → BitVec 32 → Bool)
    (gphysaddr : BitVec 64) (len : BitVec 32) : Option (Bool × List Access) :=
  let i := bucketOf gphysaddr
  let j := bucketOf (gphysaddr + len.setWidth 64 - 1)
  let s : AccessState :=
    { gphysaddr := gphysaddr, q := 0, len := len, r := false, unlockedHandler := none
      accesses := [] }
  if len = 0 then some (accessOut handled s)
  else (accessBuckets m handled (List.range' i (j + 1 - i)) s).map (accessOut handled)

/-- The loop of `mmio_range` over one bucket; `some` where the function returns. -/
def rangeBucket (heap : Nat → MmioHandle) (gphysaddr : BitVec 64) (len : BitVec 32) :
    List Nat → Option (BitVec 64)
  | [] => none
  | p :: ps =>
    if gphysaddr + len.setWidth 64 ≤ (heap p).gphys then some 0
    else if (rangecheck (heap p) gphysaddr len).isSome then
      some ((heap p).gphys + (heap p).len.setWidth 64)
    else rangeBucket heap gphysaddr len ps

/-- `mmio_range`. -/
def mmioRange (m : MmioData) (gphysaddr : BitVec 64) (len : BitVec 32) : BitVec 64 :=
  let i := bucketOf gphysaddr
  let j := bucketOf (gphysaddr + len.setWidth 64 - 1)
  if len = 0 then 0
  else ((List.range' i (j + 1 - i)).findSome? fun i =>
    rangeBucket m.heap gphysaddr len (m.mmio i)).getD 0

/-! ### Ranges -/

/-- A handle is not empty and ends within the address space. -/
def MmioHandle.Sound (h : MmioHandle) : Prop :=
  0 < h.len.toNat ∧ h.gphys.toNat + h.len.toNat ≤ 2 ^ 64

/-- The handle contains the address. -/
def MmioHandle.Covers (h : MmioHandle) (k : Nat) : Prop :=
  h.gphys.toNat ≤ k ∧ k < h.gphys.toNat + h.len.toNat

/-- The handle has an address in common with `[lo, hi)`. -/
def MmioHandle.Meets (h : MmioHandle) (lo hi : Nat) : Prop :=
  h.gphys.toNat < hi ∧ lo < h.gphys.toNat + h.len.toNat

section

variable {h : MmioHandle} {gphys : BitVec 64} {len : BitVec 32}

/-- The last address of a range that does not wrap. -/
theorem toNat_last (hlen : 0 < len.toNat) (hend : gphys.toNat + len.toNat ≤ 2 ^ 64) :
    (gphys + len.setWidth 64 - 1).toNat = gphys.toNat + len.toNat - 1 := by
  have hlt := len.isLt
  have hwidth : (len.setWidth 64).toNat = len.toNat := by
    rw [BitVec.toNat_setWidth]
    exact Nat.mod_eq_of_lt (by omega)
  have hone : (len.setWidth 64 - 1).toNat = len.toNat - 1 := by
    rw [BitVec.toNat_sub_of_le, hwidth]
    · rfl
    · rw [BitVec.le_def, hwidth]
      exact hlen
  rw [BitVec.sub_eq_add_neg, BitVec.add_assoc, ← BitVec.sub_eq_add_neg, BitVec.toNat_add, hone,
    Nat.mod_eq_of_lt (by omega)]
  omega

/-- The distance to an address, around the end of the address space where it is behind. -/
theorem toNat_distance (x y : BitVec 64) :
    (y.toNat ≤ x.toNat ∧ (x - y).toNat = x.toNat - y.toNat) ∨
      (x.toNat < y.toNat ∧ (x - y).toNat = 2 ^ 64 - y.toNat + x.toNat) := by
  have hx := x.isLt
  have hy := y.isLt
  rw [BitVec.toNat_sub]
  rcases Nat.lt_or_ge x.toNat y.toNat with hlt | hge
  · right
    exact ⟨hlt, Nat.mod_eq_of_lt (by omega)⟩
  · left
    refine ⟨hge, ?_⟩
    rw [show 2 ^ 64 - y.toNat + x.toNat = x.toNat - y.toNat + 2 ^ 64 by omega, Nat.add_mod_right]
    exact Nat.mod_eq_of_lt (by omega)

/-- From the first address of a range to its last one. -/
theorem toNat_last_sub (hlen : 0 < len.toNat) (hend : gphys.toNat + len.toNat ≤ 2 ^ 64) :
    (gphys + len.setWidth 64 - 1 - gphys).toNat = len.toNat - 1 := by
  have hlast := toNat_last hlen hend
  rcases toNat_distance (gphys + len.setWidth 64 - 1) gphys with ⟨_, hd⟩ | ⟨hlt, _⟩
  · rw [hd, hlast]
    omega
  · omega

theorem rangecheck_isSome_iff (gphys : BitVec 64) (hh : h.Sound) (hlen : 0 < len.toNat)
    (hend : gphys.toNat + len.toNat ≤ 2 ^ 64) :
    (rangecheck h gphys len).isSome = true ↔
      h.unregistered = false ∧ h.Meets gphys.toNat (gphys.toNat + len.toNat) := by
  obtain ⟨hpos, hle⟩ := hh
  have hlt := h.len.isLt
  have hlt' := len.isLt
  have hlast := toNat_last hlen hend
  unfold rangecheck MmioHandle.Meets
  cases h.unregistered with
  | true => simp
  | false =>
    have ha := toNat_distance gphys h.gphys
    have hb := toNat_distance (gphys + len.setWidth 64 - 1) h.gphys
    have hd := toNat_last_sub hpos hle
    rw [hlast] at hb
    clear hlast
    generalize gphys - h.gphys = a at *
    generalize gphys + len.setWidth 64 - 1 - h.gphys = b at *
    generalize h.gphys + h.len.setWidth 64 - 1 - h.gphys = d at *
    have hif : d < a ∧ a ≤ b ↔ ¬ (h.gphys.toNat < gphys.toNat + len.toNat ∧
        gphys.toNat < h.gphys.toNat + h.len.toNat) := by
      rw [BitVec.lt_def, BitVec.le_def]
      omega
    by_cases hout : d < a ∧ a ≤ b
    · simp [hout, hif.mp hout]
    · simp [hout, not_not.mp (mt hif.mpr hout)]

/-- What the ranges have in common; what the function asserts holds. -/
theorem rangecheck_eq_some (hh : h.Sound) (hlen : 0 < len.toNat)
    (hend : gphys.toNat + len.toNat ≤ 2 ^ 64) {a' b' : BitVec 64} {f : Bool}
    (hr : rangecheck h gphys len = some (a', b', f)) :
    f = true ∧ a'.toNat = max gphys.toNat h.gphys.toNat ∧
      b'.toNat + 1 = min (gphys.toNat + len.toNat) (h.gphys.toNat + h.len.toNat) := by
  obtain ⟨hpos, hle⟩ := hh
  have hlt := h.len.isLt
  have hlt' := len.isLt
  have hlast := toNat_last hlen hend
  unfold rangecheck at hr
  cases hu : h.unregistered with
  | true => simp [hu] at hr
  | false =>
    have ha := toNat_distance gphys h.gphys
    have hb := toNat_distance (gphys + len.setWidth 64 - 1) h.gphys
    have hd := toNat_last_sub hpos hle
    have hc : (h.gphys - h.gphys).toNat = 0 := by simp
    rw [hlast] at hb
    clear hlast
    simp only [hu, Bool.false_eq_true, if_false] at hr
    generalize gphys - h.gphys = a at *
    generalize gphys + len.setWidth 64 - 1 - h.gphys = b at *
    generalize h.gphys + h.len.setWidth 64 - 1 - h.gphys = d at *
    generalize h.gphys - h.gphys = c at *
    by_cases hout : d < a ∧ a ≤ b
    · simp [hout] at hr
    rw [if_neg hout] at hr
    obtain ⟨rfl, rfl, rfl⟩ : (if d < a then c else a) + h.gphys = a' ∧
        (if d < b then d else b) + h.gphys = b' ∧
        decide ((if d < a then c else a) ≤ if d < b then d else b) = f := by
      simpa using hr
    rw [BitVec.lt_def, BitVec.le_def] at hout
    have hfirst : (if d < a then c else a).toNat + h.gphys.toNat =
        max gphys.toNat h.gphys.toNat := by
      split_ifs with hda
      · rw [BitVec.lt_def] at hda
        omega
      · rw [BitVec.lt_def] at hda
        omega
    have hsecond : (if d < b then d else b).toNat + h.gphys.toNat + 1 =
        min (gphys.toNat + len.toNat) (h.gphys.toNat + h.len.toNat) := by
      split_ifs with hdb
      · rw [BitVec.lt_def] at hdb
        omega
      · rw [BitVec.lt_def] at hdb
        omega
    refine ⟨?_, ?_, ?_⟩
    · rw [decide_eq_true_iff, BitVec.le_def]
      omega
    · rw [BitVec.toNat_add, Nat.mod_eq_of_lt (by omega)]
      exact hfirst
    · rw [BitVec.toNat_add, Nat.mod_eq_of_lt (by omega)]
      exact hsecond

end

end OnDemandVirt.Vmm
