import OnDemandVirt.Lib.WalkCache
import OnDemandVirt.Vmm.Cache

/-!
# Page table cursors

`pmap_t` of `mm.c`: a cursor into page tables of two, three or four levels. It keeps the entries
of its last walk, from the root down to `readlevel`, and reads on from there. Levels count from 0
here, as `curlevel` and `readlevel` do; the callers' levels are one more.
-/

namespace OnDemandVirt.Vmm

def pdePBit : BitVec 64 := 0x1
def pdePsBit : BitVec 64 := 0x80
def pde4mPatBit : BitVec 64 := 0x1000

/-- `enum pmap_type`. -/
inductive PmapType
  | vmm
  | guest
  | guestAtomic
  deriving DecidableEq

/-- `pmap_t`. -/
structure Pmap where
  entry : Nat → BitVec 64
  entryaddr : Nat → BitVec 64
  curaddr : BitVec 64
  curlevel : Nat
  readlevel : Nat
  levels : Nat
  type : PmapType

/-- The memory the tables are in, by the addresses of its words. A word is as long as an entry of
the tables. -/
abbrev TableMem := BitVec 64 → BitVec 64

/-- `pmap_open_vmm`. -/
def pmapOpenVmm (m : Pmap) (cr3 : BitVec 64) (levels : Nat) : Pmap :=
  { m with
    levels := levels
    readlevel := levels
    curlevel := levels - 1
    entry := Function.update m.entry levels ((cr3 &&& ~~~0xFFF#64) ||| pdePBit)
    type := .vmm }

/-- `pmap_open_guest`. -/
def pmapOpenGuest (m : Pmap) (cr3 : BitVec 64) (levels : Nat) (atomic : Bool) : Pmap :=
  { m with
    levels := levels
    readlevel := levels
    curlevel := levels - 1
    entry := Function.update m.entry levels
      (if levels = 3 then (cr3 &&& (~~~0x1F#64 ||| 0x8 ||| 0x10)) ||| pdePBit
      else (cr3 &&& (~~~0xFFF#64 ||| 0x8 ||| 0x10)) ||| pdePBit)
    type := if atomic then .guestAtomic else .guest }

/-- `pmap_getreadlevel`. -/
def pmapGetreadlevel (m : Pmap) : Nat := m.readlevel + 1

/-- `pmap_setlevel`. -/
def pmapSetlevel (m : Pmap) (level : Nat) : Pmap := { m with curlevel := level - 1 }

/-- `masks` of `pmap_seek`: what two addresses share that have the entry of a level in common. -/
def seekMasks : (levels level : Nat) → BitVec 64
  | 2, 0 => 0xFFFFF000
  | 2, 1 => 0xFFC00000
  | 3, 0 => 0xFFFFF000
  | 3, 1 => 0xFFE00000
  | 3, 2 => 0xC0000000
  | 4, 0 => 0x0000FFFFFFFFF000
  | 4, 1 => 0x0000FFFFFFE00000
  | 4, 2 => 0x0000FFFFC0000000
  | 4, 3 => 0x0000FF8000000000
  | _, _ => 0

/-- The loop of `pmap_seek` with `n` levels left below the root. -/
def seekLoop (levels : Nat) (curaddr virtaddr : BitVec 64) : (n readlevel : Nat) → Nat
  | 0, readlevel => readlevel
  | n + 1, readlevel =>
    if curaddr &&& seekMasks levels readlevel = virtaddr &&& seekMasks levels readlevel then
      readlevel
    else seekLoop levels curaddr virtaddr n (readlevel + 1)

/-- `pmap_seek`. -/
def pmapSeek (m : Pmap) (virtaddr : BitVec 64) (level : Nat) : Pmap :=
  { pmapSetlevel m level with
    readlevel := seekLoop m.levels m.curaddr virtaddr (m.levels - m.readlevel) m.readlevel
    curaddr := virtaddr }

/-- A value as an entry of `w` bits holds it. -/
def wordOf (w : Nat) (x : BitVec 64) : BitVec 64 := (x.setWidth w).setWidth 64

/-- `pmap_rd32` and `pmap_rd64`. For the atomic type an exchange of 0 for 0 finds what is there. -/
def pmapRd (w : Nat) (mem : TableMem) (phys : BitVec 64) : BitVec 64 := wordOf w (mem phys)

def pmapRd32 : TableMem → BitVec 64 → BitVec 64 := pmapRd 32
def pmapRd64 : TableMem → BitVec 64 → BitVec 64 := pmapRd 64

/-- Reading an entry. -/
def rdEntry (levels : Nat) (mem : TableMem) (phys : BitVec 64) : BitVec 64 :=
  if levels = 2 then pmapRd32 mem phys else pmapRd64 mem phys

/-- `pmap_wr32` and `pmap_wr64`: whether an exchange failed, the memory and the entry. -/
def pmapWr (w : Nat) (type : PmapType) (mem : TableMem) (phys oldentry entry : BitVec 64) :
    Bool × TableMem × BitVec 64 :=
  match type with
  | .guestAtomic =>
    if wordOf w oldentry = pmapRd w mem phys then
      (false, Function.update mem phys (wordOf w entry), entry)
    else (true, mem, pmapRd w mem phys)
  | _ => (false, Function.update mem phys (wordOf w entry), entry)

def pmapWr32 (type : PmapType) (mem : TableMem) (phys oldentry entry : BitVec 64) :
    Bool × TableMem × BitVec 64 := pmapWr 32 type mem phys oldentry entry
def pmapWr64 (type : PmapType) (mem : TableMem) (phys oldentry entry : BitVec 64) :
    Bool × TableMem × BitVec 64 := pmapWr 64 type mem phys oldentry entry

/-- Writing an entry. -/
def wrEntry (levels : Nat) (type : PmapType) (mem : TableMem) (phys oldentry entry : BitVec 64) :
    Bool × TableMem × BitVec 64 :=
  if levels = 2 then pmapWr32 type mem phys oldentry entry
  else pmapWr64 type mem phys oldentry entry

/-- A 2MiB entry made from a 1GiB one. -/
def splitPdpe (curaddr tmp : BitVec 64) : BitVec 64 :=
  (tmp &&& ~~~0x3FE00000#64) ||| (curaddr &&& 0x3FE00000)

/-- The label `handle_pde_ps_bit`: a 4KiB entry made from a 2MiB or a 4MiB one. -/
def handlePdePsBit (levels : Nat) (curaddr tmp : BitVec 64) : BitVec 64 :=
  let tmp := tmp &&& ~~~pdePsBit
  let tmp :=
    if tmp &&& pde4mPatBit ≠ 0 then (tmp ||| ptePatBit.setWidth 64) &&& ~~~pde4mPatBit else tmp
  if levels = 2 then
    -- bits 20 to 13 are bits 39 to 32 of the address
    let tmp := tmp ||| (((tmp &&& 0x1FE000#64) >>> (13 : Nat)) <<< (32 : Nat))
    (tmp &&& ~~~0x3FF000#64) ||| (curaddr &&& 0x3FF000)
  else (tmp &&& ~~~0x1FF000#64) ||| (curaddr &&& 0x1FF000)

/-- Where the table is that an entry of `level` points to. -/
def tableMask (levels level : Nat) : BitVec 64 :=
  if levels = 3 ∧ level = 3 then 0xFFFFFFE0 else 0x0000FFFFFFFFF000

/-- The address of the entry of `level`, from the entry of the level above. -/
def entryAddrOf (levels level : Nat) (tmp curaddr : BitVec 64) : BitVec 64 :=
  (tmp &&& tableMask levels (level + 1)) |||
    (if levels = 2 then (curaddr >>> (10 + 10 * level)) &&& 0xFFC
    else (curaddr >>> (9 + 9 * level)) &&& 0xFF8)

/-- The loop of `pmap_read` with `n` levels to go. -/
def readLoop (mem : TableMem) : (n : Nat) → Pmap → BitVec 64 × Pmap
  | 0, m => (m.entry m.curlevel, m)
  | n + 1, m =>
    let tmp := m.entry m.readlevel
    if tmp &&& pdePBit = 0 then (0, m)
    else if m.readlevel = 2 ∧ tmp &&& pdePsBit ≠ 0 then
      if m.curlevel = 0 then (handlePdePsBit m.levels m.curaddr (splitPdpe m.curaddr tmp), m)
      else (splitPdpe m.curaddr tmp, m)
    else if m.readlevel = 1 ∧ tmp &&& pdePsBit ≠ 0 then
      (handlePdePsBit m.levels m.curaddr tmp, m)
    else
      let level := m.readlevel - 1
      let phys := entryAddrOf m.levels level tmp m.curaddr
      readLoop mem n { m with
        readlevel := level
        entryaddr := Function.update m.entryaddr level phys
        entry := Function.update m.entry level (rdEntry m.levels mem phys) }

/-- `pmap_read`. -/
def pmapRead (mem : TableMem) (m : Pmap) : BitVec 64 × Pmap :=
  readLoop mem (m.readlevel - m.curlevel) m

/-- `attrdef` of `pmap_write`. -/
def attrdef (m : Pmap) : BitVec 32 :=
  if m.levels = 3 ∧ m.curlevel = 2 then 0
  else if m.curlevel = 0 then 0x2 ||| 0x4 ||| 0x20 ||| 0x40
  else 0x2 ||| 0x4 ||| 0x20

/-- The entry that `pmap_write` is to write. -/
def writeEntry (m : Pmap) (e : BitVec 64) (attrmask : BitVec 32) : BitVec 64 :=
  (e &&& (~~~0xFFF#64 ||| attrmask.setWidth 64)) ||| (attrdef m &&& ~~~attrmask).setWidth 64

/-- `pmap_write`: whether it failed, the memory and the cursor; `none` where its assertion fails
or there is no such level of tables. -/
def pmapWrite (mem : TableMem) (m : Pmap) (e : BitVec 64) (attrmask : BitVec 32) :
    Option (Bool × TableMem × Pmap) :=
  if m.readlevel ≤ m.curlevel ∧ m.curlevel < m.levels then
    let (fail, mem, e) := wrEntry m.levels m.type mem (m.entryaddr m.curlevel)
      (m.entry m.curlevel) (writeEntry m e attrmask)
    some (fail, mem, { m with
      entry := Function.update m.entry m.curlevel e
      readlevel := if fail then m.curlevel else m.readlevel })
  else none

/-- `memset (phys_to_virt (phys), 0, size)`. -/
def memZero (mem : TableMem) (phys : BitVec 64) (size : Nat) : TableMem :=
  fun a => if (a - phys).toNat < size then 0 else mem a

/-- The size of the table of the entries of level `curlevel`, as `pmap_clear` clears it. -/
def clearSize (m : Pmap) : Nat := if m.levels = 3 ∧ m.curlevel = 2 then 8 * 4 else 4096

/-- `pmap_clear`, `none` where an assertion fails or there is no such level of tables. -/
def pmapClear (mem : TableMem) (m : Pmap) : Option (TableMem × Pmap) :=
  if m.readlevel ≤ m.curlevel + 1 ∧ m.entry (m.curlevel + 1) &&& pdePBit ≠ 0 ∧
      ¬ (m.curlevel = 0 ∧ m.entry 1 &&& pdePsBit ≠ 0) ∧ m.type = .vmm ∧ m.curlevel < m.levels then
    some (memZero mem (m.entry (m.curlevel + 1) &&& ~~~0xFFF#64) (clearSize m),
      { m with readlevel := m.curlevel + 1 })
  else none

/-- The loop of `pmap_autoalloc` from the label `readskip` on. The pages are what `alloc_page`
returns, one after the other. -/
def autoallocLoop : (pages : List (BitVec 64)) → TableMem → Pmap → Option (TableMem × Pmap)
  | [], _, _ => none
  | phys :: pages, mem, m =>
    let written := pmapWrite (memZero mem phys 4096) { m with curlevel := m.readlevel }
      (phys ||| pdePBit) 0x1
    written.bind fun (_, mem, m') =>
      let m' := (pmapRead mem { m' with curlevel := m.curlevel }).2
      if m'.readlevel ≤ m'.curlevel then some (mem, m')
      else if m'.entry m'.readlevel &&& pdePBit ≠ 0 then none
      else autoallocLoop pages mem m'

/-- `pmap_autoalloc`, `none` where an assertion fails. -/
def pmapAutoalloc (mem : TableMem) (m : Pmap) (pages : List (BitVec 64)) :
    Option (TableMem × Pmap) :=
  if m.type ≠ .vmm then none
  else if m.readlevel ≤ m.curlevel then some (mem, m)
  else if m.entry m.readlevel &&& pdePBit = 0 then autoallocLoop pages mem m
  else
    let m := (pmapRead mem m).2
    if m.readlevel ≤ m.curlevel then some (mem, m)
    else if m.entry m.readlevel &&& pdePBit ≠ 0 then none
    else autoallocLoop pages mem m

end OnDemandVirt.Vmm
