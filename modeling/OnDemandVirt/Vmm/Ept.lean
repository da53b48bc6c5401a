import OnDemandVirt.Lib.Paging
import OnDemandVirt.Vmm.MemoryType
import OnDemandVirt.Vmm.Mmio

/-!
# Extended page tables

`vt_ept.c`: the tables are taken from a pool of pages, and when the pool is used up all mappings
are dropped. A cursor remembers the entries of the last walk, from the topmost one down to
`level`, so that the next walk need not begin at the root.
-/

namespace OnDemandVirt.Vmm

open Lib.Paging

/-- `NUM_OF_EPTBL`. -/
abbrev numOfEptbl : Nat := 1024

def pagesizeMask : BitVec 64 := 0xFFF
def pagesize2mMask : BitVec 64 := 0x1FFFFF

/-- `VMMSIZE_ALL`. -/
def vmmsizeAll : BitVec 64 := 0x8000000

/-- The pages of the tables: the topmost one and the pool. -/
structure EptPages where
  ncr3tbl : Nat
  tbl : Nat → Nat
  root_page : 4096 ∣ ncr3tbl
  tbl_page : ∀ i, 4096 ∣ tbl i
  tbl_lt : ∀ i, tbl i < 2 ^ 52
  root_ne : ∀ i < numOfEptbl, tbl i ≠ ncr3tbl
  tbl_inj : ∀ i < numOfEptbl, ∀ j < numOfEptbl, tbl i = tbl j → i = j

/-- The entry that points to page `i` of the pool. -/
def EptPages.link (P : EptPages) (i : Nat) : BitVec 64 := BitVec.ofNat 64 (P.tbl i) ||| 0x7

/-- `struct vt_ept`, and the memory its tables are in. -/
structure VtEpt where
  mem : PhysMem
  cnt : Nat
  cleared : Bool
  level : Nat
  gphys : BitVec 64
  entry : Nat → Nat

/-- What a mapping depends on: where the VMM is, the guest's memory types, the registered MMIO
handles, and the ranges that are always mapped, which four levels of tables can address. -/
structure EptEnv where
  vmmStartPhys : BitVec 64
  physBlank : BitVec 64
  cache : CacheRegs
  mmio : MmioData
  uefiMmioSpace : List (BitVec 64 × BitVec 64)
  vmm_page : vmmStartPhys &&& pagesizeMask = 0
  type_lt : ∀ x, getMtrrType x cache false < 8
  uefi_le : ∀ r ∈ uefiMmioSpace, r.1.toNat + (r.2 <<< (12 : Nat)).toNat ≤ 2 ^ 48

section

variable (env : EptEnv)

/-- `phys_in_vmm`. -/
def physInVmm (phys : BitVec 64) : Bool :=
  decide (env.vmmStartPhys ≤ phys ∧ phys < env.vmmStartPhys + vmmsizeAll)

/-- `gmm_pass_gp2hp`: the host address, and whether the page is part of the VMM. -/
def gp2hp (gp : BitVec 64) : BitVec 64 × Bool :=
  if physInVmm env gp then (env.physBlank, true) else (gp, false)

/-- `gmm_pass_gp2hp_2m`, `none` for `GMM_GP2HP_2M_FAIL`. -/
def gp2hp2m (gp : BitVec 64) : Option (BitVec 64) :=
  if gp &&& pagesize2mMask ≠ 0 then none
  else if physInVmm env gp then none
  else some gp

end

/-- `memset (p, 0, PAGESIZE)`. -/
def zeroPage (m : PhysMem) (page : Nat) : PhysMem := fun a =>
  if page ≤ a ∧ a < page + 4096 then 0 else m a

/-! ### The cursor -/

/-- The first loop of `cur_move`, for at most `n` levels. -/
def raiseLevel (cur gphys : BitVec 64) : (n level : Nat) → (mask : BitVec 64) → Nat
  | 0, level, _ => level
  | n + 1, level, mask =>
    if gphys &&& mask ≠ cur &&& mask then raiseLevel cur gphys n (level + 1) (mask <<< 9) else level

/-- The entry of the next table that a walk visits. -/
def nextEntry (e gphys : BitVec 64) (level : Nat) : Nat :=
  ((e &&& ~~~pagesizeMask) ||| ((gphys >>> (9 * level)) &&& 0xFF8)).toNat

/-- The second loop of `cur_move`: down from the entry at `p`. -/
def descend (m : PhysMem) (gphys : BitVec 64) : (level p : Nat) → (Nat → Nat) → Nat × (Nat → Nat)
  | 0, _, entry => (0, entry)
  | level + 1, p, entry =>
    let e := m p
    if !present e || large e then (level + 1, entry)
    else
      let p := nextEntry e gphys (level + 1)
      descend m gphys level p (Function.update entry level p)

/-- `cur_move`. -/
def curMove (P : EptPages) (s : VtEpt) (gphys : BitVec 64) : VtEpt :=
  let mask := 0xFFFFFFFFFFFFF000#64 <<< (9 * s.level)
  let level := raiseLevel s.gphys gphys (4 - s.level) s.level mask
  if level = 0 then { s with level := level, gphys := gphys }
  else if 4 ≤ level then
    let p := P.ncr3tbl + 8 * ((gphys >>> 39) &&& 0x1FF).toNat
    let r := descend s.mem gphys 3 p (Function.update s.entry 3 p)
    { s with level := r.1, gphys := gphys, entry := r.2 }
  else
    let r := descend s.mem gphys level (s.entry level) s.entry
    { s with level := r.1, gphys := gphys, entry := r.2 }

/-- The loop of `cur_fill`, for `n` levels from the entry at `p` of level `l`. -/
def fillLoop (P : EptPages) (gphys : BitVec 64) : (n l p : Nat) → VtEpt → VtEpt × Nat
  | 0, _, p, s => (s, p)
  | n + 1, l, p, s =>
    let m := Function.update s.mem p (P.link s.cnt)
    let m := zeroPage m (P.tbl s.cnt)
    let p := P.tbl s.cnt + 8 * ((gphys >>> (9 * l + 3)) &&& 0x1FF).toNat
    fillLoop P gphys n (l - 1) p { s with mem := m, cnt := s.cnt + 1 }

/-- All mappings are dropped. -/
def resetTables (P : EptPages) (s : VtEpt) (level : Nat) : VtEpt :=
  { s with mem := zeroPage s.mem P.ncr3tbl, cleared := true, cnt := 0, level := level }

/-- `cur_fill`: the state and the entry to write. -/
def curFill (P : EptPages) (s : VtEpt) (gphys : BitVec 64) (level : Nat) : VtEpt × Nat :=
  let s := if numOfEptbl < s.cnt + s.level - level then resetTables P s 3 else s
  fillLoop P gphys (s.level - level) s.level (s.entry s.level) s

/-! ### Mapping -/

/-- The memory type of an address in an entry, with all permissions. -/
def hattr (env : EptEnv) (gphys : BitVec 64) : BitVec 64 :=
  ((getMtrrType gphys env.cache false).setWidth 64 <<< 3) ||| 0x7

/-- The entry that `vt_ept_map_page_sub` writes. -/
def pageValue (env : EptEnv) (gphys : BitVec 64) : BitVec 64 :=
  let (hp, fakerom) := gp2hp env gphys
  let hphys := hp &&& ~~~pagesizeMask
  hphys ||| if fakerom then hattr env gphys &&& ~~~0x2 else hattr env gphys

/-- `vt_ept_map_page_sub`, `none` where it panics. -/
def vtEptMapPageSub (P : EptPages) (env : EptEnv) (s : VtEpt) (write : Bool) (gphys : BitVec 64) :
    Option VtEpt :=
  let s := curMove P s gphys
  let (s, p) := curFill P s gphys 0
  if (gp2hp env gphys).2 && write then none
  else some { s with mem := Function.update s.mem p (pageValue env gphys) }

/-- `vt_ept_map_2mpage`; `false` says that the page is mapped. -/
def vtEptMap2mpage (P : EptPages) (env : EptEnv) (s : VtEpt) (gphys : BitVec 64) : Bool × VtEpt :=
  let s := curMove P s gphys
  if s.level = 0 then (true, s)
  else
    match gp2hp2m env (gphys &&& ~~~pagesize2mMask) with
    | none => (true, s)
    | some hphys =>
      if !mtrrTypeEqual (gphys &&& ~~~pagesize2mMask) env.cache pagesize2mMask then (true, s)
      else
        let hattr := hattr env (gphys &&& ~~~pagesize2mMask) ||| 0x80
        let (s, p) := curFill P s gphys 1
        (false, { s with mem := Function.update s.mem p (hphys ||| hattr) })

/-- `vt_ept_level`. -/
def vtEptLevel (P : EptPages) (s : VtEpt) (gphys : BitVec 64) : Nat × VtEpt :=
  let s := curMove P s gphys
  (s.level, s)

/-- One round of the loop over a range that is always mapped, where no large page is made. -/
def forceMapPage (P : EptPages) (env : EptEnv) (s : VtEpt) (base : BitVec 64) :
    Option (BitVec 64 × VtEpt) :=
  let nextPhys := mmioRange env.mmio base 0x1000
  if nextPhys = 0 then (vtEptMapPageSub P env s true base).map fun s => (0x1000, s)
  else some ((nextPhys - base + 0x1000 - 1) &&& ~~~pagesizeMask, s)

/-- One round of the loop over a range that is always mapped: what it goes on by, and the state. -/
def forceMapStep (P : EptPages) (env : EptEnv) (s : VtEpt) (base : BitVec 64) :
    Option (BitVec 64 × VtEpt) :=
  let (level, s) := vtEptLevel P s base
  if 0 < level ∧ mmioRange env.mmio (base &&& ~~~pagesize2mMask) 0x200000 = 0 then
    match vtEptMap2mpage P env s base with
    | (false, s) => some ((base ||| pagesize2mMask) + 1 - base, s)
    | (true, s) => forceMapPage P env s base
  else forceMapPage P env s base

/-- The inner loop of `vt_ept_map_page_clear_cleared`; it would not end where a round of it goes on
by nothing, so `none` where `fuel` is used up. -/
def forceMapLoop (P : EptPages) (env : EptEnv) :
    (fuel : Nat) → (base len : BitVec 64) → VtEpt → Option VtEpt
  | 0, _, len, s => if len = 0 then some s else none
  | fuel + 1, base, len, s =>
    if len = 0 then some s
    else (forceMapStep P env s base).bind fun r =>
      let size := if len < r.1 then len else r.1
      forceMapLoop P env fuel (base + size) (len - size) r.2

/-- The ranges that `getforcemap` lists: up to the first one that is empty. -/
def forceMaps (env : EptEnv) : List (BitVec 64 × BitVec 64) :=
  (env.uefiMmioSpace.map fun (base, npages) => (base, npages <<< (12 : Nat))).takeWhile
    fun (_, len) => len != 0

/-- The loop over one range. -/
def forceMap (P : EptPages) (env : EptEnv) (s : VtEpt) (range : BitVec 64 × BitVec 64) :
    Option VtEpt :=
  let (base, len) := range
  let len := len + (base &&& pagesizeMask)
  forceMapLoop P env (len.toNat + 1) (base &&& ~~~pagesizeMask) len s

/-- `vt_ept_map_page_clear_cleared`, `none` where it panics. -/
def vtEptMapPageClearCleared (P : EptPages) (env : EptEnv) (s : VtEpt) : Option VtEpt :=
  ((forceMaps env).foldlM (forceMap P env) { s with cleared := false }).bind fun s =>
    if s.cleared then none else some s

/-- `vt_ept_map_page`. -/
def vtEptMapPage (P : EptPages) (env : EptEnv) (s : VtEpt) (write : Bool) (gphys : BitVec 64) :
    Option VtEpt :=
  (if s.cleared then vtEptMapPageClearCleared P env s else some s).bind fun s =>
    (vtEptMapPageSub P env s write gphys).bind fun s =>
      if s.cleared then vtEptMapPageClearCleared P env s else some s

/-! ### Dropping mappings -/

/-- `vt_ept_clear_all`. -/
def vtEptClearAll (P : EptPages) (s : VtEpt) : VtEpt := resetTables P s 4

/-- The entry maps a page of the range. -/
def mapsRange (mask start last e : BitVec 64) : Bool :=
  if !present e then false
  else
    let tmp1 := e &&& mask
    let tmp2 := tmp1 ||| 0xFFF
    let tmp1 := if large e then tmp1 &&& ~~~0x1FFFFF else tmp1
    let tmp2 := if large e then tmp2 ||| 0x1FFFFF else tmp2
    decide (start ≤ tmp2 ∧ tmp1 ≤ last)

/-- `vt_ept_extern_mapsearch`. On another processor the search is for a mapping, on the current
one every entry that maps a page of the range is cleared. -/
def vtEptExternMapsearch (P : EptPages) (mask : BitVec 64) (current : Bool)
    (start last : BitVec 64) (s : VtEpt) : Bool × VtEpt :=
  let found (a : Nat) : Bool := mapsRange mask start last (s.mem a)
  let entriesOf (i : Nat) : List Nat := (List.range entries).map fun j => P.tbl i + 8 * j
  let all := (List.range s.cnt).flatMap entriesOf
  if !current then (all.any found, s)
  else (false, { s with mem := fun a => if a ∈ all ∧ found a then 0 else s.mem a })

end OnDemandVirt.Vmm
