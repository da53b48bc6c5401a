import OnDemandVirt.Vmm.Pmap

/-!
# Walking the guest's page tables

`cpu_mmu_get_pte` of `cpu_mmu.c`: it reads the entries of a linear address level by level through
a pmap, checks each of them for the access and sets its accessed and dirty bits. The guest's
memory and the mask of physical address bits, `current->pte_addr_mask`, are parameters.
-/

namespace OnDemandVirt.Vmm

def pdeRwBit : BitVec 64 := 0x2
def pdeUsBit : BitVec 64 := 0x4
def pdeABit : BitVec 64 := 0x20
def pdeDBit : BitVec 64 := 0x40
def pdeNxBit : BitVec 64 := 0x8000000000000000

def cr0WpBit : BitVec 64 := 0x10000
def cr0PgBit : BitVec 64 := 0x80000000
def cr4PseBit : BitVec 64 := 0x10
def cr4PaeBit : BitVec 64 := 0x20
def msrIa32EferLmeBit : BitVec 64 := 0x100
def msrIa32EferNxeBit : BitVec 64 := 0x800

/-- `PTE_ADDR_MASK64`: a physical address of 36 bits. -/
def pteAddrMask64 : BitVec 64 := 0x0000000FFFFFF000

/-- `get_pte_addr_mask` for `nbits` bits of physical address. -/
def getPteAddrMask (nbits : Nat) : BitVec 64 :=
  let nbits := if nbits < 32 then 32 else nbits
  let nbits := if 52 < nbits then 52 else nbits
  ~~~(0xFFF#64 ||| (~~~0#64 <<< nbits))

/-- `struct get_pte_data`. -/
structure GetPteData where
  pg : Bool
  wp : Bool
  pse : Bool
  pae : Bool
  lme : Bool
  nxe : Bool
  write : Bool
  user : Bool
  exec : Bool

/-- What `get_pte_sub` returns, of `enum vmmerr`. -/
inductive Vmmerr
  | success
  | pageNotPresent
  | pageNotAccessible
  | pageBadReservedBit
  | pageNotExecutable
  deriving DecidableEq

/-- `reserved_bit_table`, by `nxe`, `levels - 2` and `level`. -/
def reservedBitTable : Bool → Nat → Nat → BitVec 64
  -- 32-bit
  | _, 0, 0 => 0x0000000000200000
  | _, 0, 1 => 0x0000000000000000
  | _, 0, 2 => 0x0000000000000000
  -- PAE
  | false, 1, 0 => 0xFFFFFFF0001FE000
  | false, 1, 1 => 0xFFFFFFF000000000
  | false, 1, 2 => 0xFFFFFFF000000000
  | true, 1, 0 => 0x7FFFFFF0001FE000
  | true, 1, 1 => 0x7FFFFFF000000000
  | true, 1, 2 => 0x7FFFFFF000000000
  | _, 1, 3 => 0xFFFFFFF0000001E6
  -- 64-bit
  | false, 2, 0 => 0x800FFFF0001FE000
  | false, 2, 1 => 0x800FFFF000000000
  | false, 2, 2 => 0x800FFFF000000000
  | false, 2, 3 => 0x800FFFF000000100
  | false, 2, 4 => 0x800FFFF000000180
  | false, 2, 5 => 0x800FFFF03FFFE000
  | true, 2, 0 => 0x000FFFF0001FE000
  | true, 2, 1 => 0x000FFFF000000000
  | true, 2, 2 => 0x000FFFF000000000
  | true, 2, 3 => 0x000FFFF000000100
  | true, 2, 4 => 0x000FFFF000000180
  | true, 2, 5 => 0x000FFFF03FFFE000
  | _, _, _ => 0xFFFFFFFFFFFFFFFF

/-- The row of the table that an entry is tested with. -/
def reservedLevel (entry : BitVec 64) (level levels : Nat) : Nat :=
  let level := if level = 2 ∧ entry &&& pdePsBit ≠ 0 then 0 else level
  if level = 3 ∧ levels = 4 ∧ entry &&& pdePsBit ≠ 0 then 5 else level

section

variable (pteAddrMask : BitVec 64)

/-- `test_pmap_entry_reserved_bit`, `none` where its assertion fails. -/
def testPmapEntryReservedBit (entry : BitVec 64) (level levels : Nat) (d : GetPteData) :
    Option Bool :=
  if !d.pae && !d.pse then some false
  else
    let mask := reservedBitTable d.nxe (levels - 2) (reservedLevel entry level levels)
    let mask := mask ^^^ (pteAddrMask ^^^ pteAddrMask64)
    if mask = 0xFFFFFFFFFFFFFFFF then none
    else some (entry &&& mask != 0)

/-- `set_ad_bit`: whether writing the entry failed, the memory, the cursor and the entry. -/
def setAdBit (mem : TableMem) (m : Pmap) (entry : BitVec 64) (seta setd : Bool) :
    Option (Bool × TableMem × Pmap × BitVec 64) :=
  let seta := seta && entry &&& pdeABit == 0
  let setd := setd && entry &&& pdeDBit == 0
  if seta || setd then
    let entry := if seta then entry ||| pdeABit else entry
    let entry := if setd then entry ||| pdeDBit else entry
    (pmapWrite mem m entry 0xFFF).map fun (fail, mem, m) => (fail, mem, m, entry)
  else some (false, mem, m, entry)

/-- The levels of tables, `pse` and `pae`, where paging is enabled. -/
def pagingLevels (d : GetPteData) : Nat × GetPteData :=
  if d.lme then (4, { d with pae := true, pse := true })
  else if d.pae then (3, { d with pse := true })
  else (2, d)

/-- The checks of one entry that is present, `none` where it passes. -/
def entryRefuses (d : GetPteData) (entry : BitVec 64) : Option Vmmerr :=
  if entry &&& pdeUsBit = 0 ∧ d.user then some .pageNotAccessible
  else if entry &&& pdeRwBit = 0 ∧ d.write ∧ (d.wp ∨ d.user) then some .pageNotAccessible
  else if entry &&& pdeNxBit ≠ 0 ∧ d.exec ∧ d.nxe then some .pageNotExecutable
  else none

/-- Level `i` of the loop of `get_pte_sub`, from the label `retry` on, with at most `n` tries:
the memory, and the error or the cursor and the entry. -/
def getPteEntry (d : GetPteData) (levels i : Nat) :
    (n : Nat) → TableMem → Pmap → Option (TableMem × Except Vmmerr (Pmap × BitVec 64))
  | 0, _, _ => none
  | n + 1, mem, m =>
    let (entry, m) := pmapRead mem m
    if entry &&& pdePBit = 0 then some (mem, .error .pageNotPresent)
    else
      (testPmapEntryReservedBit pteAddrMask entry i levels d).bind fun reserved =>
        if reserved then some (mem, .error .pageBadReservedBit)
        else
          -- simplify2
          let entry :=
            if levels = 3 ∧ i = 3 then entry ||| (pdeRwBit ||| pdeUsBit ||| pdeABit) else entry
          match entryRefuses d entry with
          | some err => some (mem, .error err)
          | none =>
            -- simplify3
            let entry := if i = 2 ∧ !d.pse then entry &&& ~~~pdePsBit else entry
            let setd := (i = 2 ∧ entry &&& pdePsBit ≠ 0 ∨ i = 1 ∨
              i = 3 ∧ entry &&& pdePsBit ≠ 0) && d.write
            (setAdBit mem m entry true setd).bind fun (fail, mem, m, entry) =>
              if fail then getPteEntry d levels i n mem m
              else some (mem, .ok (m, entry))

/-- The loop of `get_pte_sub` over the levels. -/
def getPteLoop (d : GetPteData) (levels n : Nat) :
    (i : Nat) → TableMem → Pmap → (Nat → BitVec 64) →
      Option (Vmmerr × TableMem × (Nat → BitVec 64))
  | 0, mem, _, entries => some (.success, mem, entries)
  | i + 1, mem, m, entries =>
    (getPteEntry pteAddrMask d levels (i + 1) n mem (pmapSetlevel m (i + 1))).bind fun
      | (mem, .error err) => some (err, mem, entries)
      | (mem, .ok (m, entry)) => getPteLoop d levels n i mem m (Function.update entries i entry)

/-- `get_pte_sub`: the error, the memory, `entries` and `*plevels`. `n` bounds the tries at one
level, and `m` is what the `pmap_t` on the stack has in it. -/
def getPteSub (n : Nat) (mem : TableMem) (m : Pmap) (virt cr3 : BitVec 64) (d : GetPteData)
    (entries : Nat → BitVec 64) : Option (Vmmerr × TableMem × (Nat → BitVec 64) × Nat) :=
  if !d.pg then
    let entries := Function.update entries 0 ((virt &&& pteAddrMask) ||| pdePBit ||| pdeRwBit |||
      pdeUsBit ||| pdeABit ||| pdeDBit)
    let entries := Function.update entries 1 (pdePBit ||| pdeRwBit ||| pdeUsBit ||| pdeABit |||
      pdeDBit ||| pdePsBit)
    some (.success, mem, entries, 1)
  else
    let (levels, d) := pagingLevels d
    let m := pmapSeek (pmapOpenGuest m cr3 levels true) virt (levels + 1)
    let (entry, m) := pmapRead mem m
    let entries := Function.update entries levels (entry ||| (pdeRwBit ||| pdeUsBit ||| pdeABit))
    (getPteLoop pteAddrMask d levels n levels mem m entries).map fun (err, mem, entries) =>
      (err, mem, entries, levels)

/-- `cpu_mmu_get_pte`. -/
def cpuMmuGetPte (n : Nat) (mem : TableMem) (m : Pmap) (virt cr0 cr3 cr4 efer : BitVec 64)
    (write user exec : Bool) (entries : Nat → BitVec 64) :
    Option (Vmmerr × TableMem × (Nat → BitVec 64) × Nat) :=
  getPteSub pteAddrMask n mem m virt cr3
    { pg := hasBit cr0 cr0PgBit
      wp := hasBit cr0 cr0WpBit
      pse := hasBit cr4 cr4PseBit
      pae := hasBit cr4 cr4PaeBit
      lme := hasBit efer msrIa32EferLmeBit
      nxe := hasBit efer msrIa32EferNxeBit
      write := write
      user := user
      exec := exec } entries

/-- `set_m2`: whether the entries allow writing and user access and forbid execution. -/
def entriesPerm (entries : Nat → BitVec 64) : (levels : Nat) → Bool × Bool × Bool
  | 0 => (entries 0 &&& pdeRwBit != 0, entries 0 &&& pdeUsBit != 0, entries 0 &&& pdeNxBit != 0)
  | l + 1 =>
    let (rw, us, nx) := entriesPerm entries l
    (rw && entries (l + 1) &&& pdeRwBit != 0, us && entries (l + 1) &&& pdeUsBit != 0,
      nx || entries (l + 1) &&& pdeNxBit != 0)

end

end OnDemandVirt.Vmm
