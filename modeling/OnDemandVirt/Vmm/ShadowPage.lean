import OnDemandVirt.Lib.Machine
import OnDemandVirt.Vmm.GetPteEntry

/-!
# Shadow page tables

`cpu_mmu_spt_pagefault` of the third kind of shadow page tables, with `set_m1`, `set_m2` and
`map_page`: what an entry of the guest's tables becomes in the shadow tables. The lists, the hash
and the reverse maps of the shadow pages decide which page table is used and which entries lose the
right to write; a `ShadowBook` is any decision of theirs.
-/

namespace OnDemandVirt.Vmm

open Lib Lib.X86

def pdeAvailable1Bit : BitVec 64 := 0x200

def pagefaultErrWrBit : BitVec 64 := 0x2
def pagefaultErrUsBit : BitVec 64 := 0x4
def pagefaultErrIdBit : BitVec 64 := 0x10

/-- The guest's control registers. -/
structure PagingRegs where
  cr0 : BitVec 64
  cr3 : BitVec 64
  cr4 : BitVec 64
  efer : BitVec 64
  deriving DecidableEq

/-- The registers that `spt_t` keeps, and its `wp`. -/
structure SptRegs where
  regs : PagingRegs
  wp : Bool

/-- What `init_vcpu` leaves there. -/
def SptRegs.initial : SptRegs where
  regs := { cr0 := ~~~0, cr3 := 0, cr4 := 0, efer := 0 }
  wp := false

/-- `update_cr3`, for these registers. -/
def SptRegs.updateCr3 (r : SptRegs) (regs : PagingRegs) : SptRegs :=
  if regs ≠ r.regs then
    let wp := if r.wp && !hasBit regs.cr0 cr0WpBit then false else r.wp
    let wp := if !wp && hasBit regs.cr0 cr0WpBit then true else wp
    { regs, wp }
  else r

/-- `struct map_page_data1`. -/
structure MapPageData1 where
  write : Bool
  user : Bool
  wp : Bool
  pwt : Bool
  pcd : Bool
  pat : Bool

/-- `struct map_page_data2`. -/
structure MapPageData2 where
  rw : Bool
  us : Bool
  nx : Bool

/-- `set_m1`. -/
def setM1 (attr : BitVec 32) (write user wp : Bool) : MapPageData1 where
  write := write
  user := user
  wp := wp
  pwt := attr &&& ptePwtBit != 0
  pcd := attr &&& ptePcdBit != 0
  pat := attr &&& ptePatBit != 0

/-- The loop of `set_m2`, from `i - 1` down. -/
def setM2Loop (entries : Nat → BitVec 64) : (i : Nat) → MapPageData2 → (Nat → MapPageData2) →
    Nat → MapPageData2
  | 0, _, m2 => m2
  | i + 1, m, m2 =>
    let m :=
      { rw := if entries i &&& pdeRwBit = 0 then false else m.rw
        us := if entries i &&& pdeUsBit = 0 then false else m.us
        nx := if entries i &&& pdeNxBit ≠ 0 then true else m.nx }
    setM2Loop entries i m (Function.update m2 i m)

/-- `set_m2`. -/
def setM2 (entries : Nat → BitVec 64) (levels : Nat) (m2 : Nat → MapPageData2) :
    Nat → MapPageData2 :=
  let m2 := setM2Loop entries (levels + 1) ⟨true, true, false⟩ m2
  if entries 0 &&& pdeDBit = 0 then Function.update m2 0 { m2 0 with rw := false } else m2

/-- The table in `map_page`, for a guest with CR0.WP clear: its cases [A] and [B]. -/
def wpClear (m1 : MapPageData1) (m : MapPageData2) : MapPageData2 :=
  let m := if (!m1.user && m1.write) && !m.rw then { m with us := false } else m
  if !m.us then { m with rw := true } else m

/-- What the bookkeeping of the shadow pages decides for one call of `map_page`. -/
structure ShadowBook where
  /-- `is_shadow1_pde_ok`. -/
  pdeOk : Bool
  /-- The page of the page table that is found or made, and whether its key is of a large page. -/
  table : BitVec 40
  large : Bool
  /-- The entry in that page table, or in that of a PDE that stays. -/
  pte : BitVec 64
  /-- `update_rwmap` or `update_shadow` takes the right to write away from the new entry. -/
  dropRw : Bool

/-- The entries of the shadow tables for an address. Those above give every right. -/
structure ShadowView where
  pde : BitVec 64
  pte : BitVec 64
  /-- A PDE is cleared or present. -/
  pde_present : pde = 0 ∨ pde &&& pdePBit ≠ 0

def flag (b : Bool) (bit : BitVec 64) : BitVec 64 := if b then bit else 0

/-- The PDE that `setpde` writes through `p`. -/
def setpde (p : Pmap) (b : ShadowBook) (pde : BitVec 64) (m : MapPageData2) : BitVec 64 :=
  let pdeflags := flag m.rw pdeRwBit ||| flag m.us pdeUsBit ||| flag m.nx pdeNxBit
  let u := pdeAvailable1Bit ||| pdeRwBit ||| pdeUsBit ||| pdePBit
  let e :=
    if pde ≠ 0 ∧ b.pdeOk then pde &&& ~~~(pdeRwBit ||| pdeUsBit ||| pdeNxBit)
    else (b.table.setWidth 64 <<< 12) ||| pdePBit ||| flag b.large pdeAvailable1Bit
  writeEntry (pmapSetlevel p 2) (e ||| pdeflags) (u.setWidth 32)

/-- The guest's physical memory: the width of a physical address, the pages of the VMM, the page
that the guest sees in their place, the pages with memory-mapped I/O, and the attributes that
`cache_get_attr` finds. -/
structure GuestPhys where
  nbits : Nat
  inVmm : BitVec 64 → Bool
  blank : BitVec 40
  mmio : BitVec 64 → Bool
  attr : BitVec 64 → BitVec 64 → BitVec 32

/-- `gmm_pass_gp2hp`: the host's address, and `fakerom`. -/
def GuestPhys.gp2hp (p : GuestPhys) (gp : BitVec 64) : BitVec 64 × Bool :=
  if p.inVmm gp then (p.blank.setWidth 64 <<< 12, true) else (gp, false)

/-- `pte` of `map_page`. -/
def shadowPte (hphys : BitVec 64) (m1 : MapPageData1) (m : MapPageData2) : BitVec 64 :=
  hphys ||| pdePBit ||| flag m.rw pdeRwBit ||| flag m.us pdeUsBit ||| flag m.nx pdeNxBit |||
    flag m1.write pdeDBit ||| flag m1.pwt (ptePwtBit.setWidth 64) |||
    flag m1.pcd (ptePcdBit.setWidth 64) ||| flag m1.pat (ptePatBit.setWidth 64)

/-- The flags of a PTE that `map_page` writes itself. -/
def pteAttrmask : BitVec 64 :=
  pdePBit ||| pdeRwBit ||| pdeUsBit ||| ptePwtBit.setWidth 64 ||| ptePcdBit.setWidth 64 |||
    ptePatBit.setWidth 64 ||| pdeDBit

/-- The entry that was there is the new one but for its accessed and dirty bits. -/
def ShadowBook.PteStays (b : ShadowBook) (pte : BitVec 64) : Prop :=
  b.pte ||| pdeABit ||| pdeDBit = pte ||| pdeABit ||| pdeDBit

instance (b : ShadowBook) (pte : BitVec 64) : Decidable (b.PteStays pte) :=
  inferInstanceAs (Decidable (_ = _))

/-- The PTE that is there after `map_page`. -/
def setpte (p : Pmap) (b : ShadowBook) (pte : BitVec 64) (rw : Bool) : BitVec 64 :=
  if b.PteStays pte then b.pte
  else
    let pte := writeEntry (pmapSetlevel p 1) pte (pteAttrmask.setWidth 32)
    if rw && b.dropRw then pte &&& ~~~pdeRwBit else pte

/-! ### Bits of the entries -/

theorem getElem_flag (b : Bool) (bit : BitVec 64) {i : Nat} (hi : i < 64) :
    (flag b bit)[i] = (b && bit[i]) := by
  cases b <;> simp [flag]

/-- A bit that `pmap_write` leaves alone. -/
theorem getLsbD_writeEntry {m : Pmap} {e : BitVec 64} {attrmask : BitVec 32} {i : Nat}
    (hmask : (~~~0xFFF#64 ||| attrmask.setWidth 64).getLsbD i = true)
    (hdef : ((attrdef m &&& ~~~attrmask).setWidth 64).getLsbD i = false) :
    (writeEntry m e attrmask).getLsbD i = e.getLsbD i := by
  rw [writeEntry, BitVec.getLsbD_or, BitVec.getLsbD_and, hmask, hdef, Bool.and_true, Bool.or_false]

theorem attrdef_pde (p : Pmap) : attrdef (pmapSetlevel p 2) = 0x2 ||| 0x4 ||| 0x20 := by
  simp [attrdef, pmapSetlevel]

theorem attrdef_pte (p : Pmap) : attrdef (pmapSetlevel p 1) = 0x2 ||| 0x4 ||| 0x20 ||| 0x40 := by
  simp [attrdef, pmapSetlevel]

/-- The flags in the new PDE. -/
theorem getLsbD_setpde (p : Pmap) (b : ShadowBook) (pde : BitVec 64) (m : MapPageData2) {i : Nat}
    (hi : i = 0 ∨ i = 1 ∨ i = 2 ∨ i = 63) :
    (setpde p b pde m).getLsbD i =
      if i = 0 then if pde ≠ 0 ∧ b.pdeOk then pde.getLsbD 0 else true
      else if i = 1 then m.rw else if i = 2 then m.us else m.nx := by
  unfold setpde
  rw [getLsbD_writeEntry]
  · split <;> rcases hi with rfl | rfl | rfl | rfl <;>
      simp [getElem_flag, pdeRwBit, pdeUsBit, pdeNxBit, pdePBit, pdeAvailable1Bit, *]
  · rcases hi with rfl | rfl | rfl | rfl <;> decide
  · rw [attrdef_pde]
    rcases hi with rfl | rfl | rfl | rfl <;> decide

theorem setpde_present (p : Pmap) (b : ShadowBook) {pde : BitVec 64}
    (h : pde = 0 ∨ pde &&& pdePBit ≠ 0) (m : MapPageData2) :
    setpde p b pde m &&& pdePBit ≠ 0 := by
  rw [and_pdePBit, present, getLsbD_setpde p b pde m (.inl rfl), if_pos rfl]
  split
  · rename_i hc
    exact and_pdePBit.mp (h.resolve_left hc.1)
  · rfl

/-- `m2[i]` after the adjustments for CR0.WP. -/
def adjusted (wp : Bool) (m1 : MapPageData1) (m : MapPageData2) : MapPageData2 :=
  if wp then m else wpClear m1 m

/-- The host's page, and `m2[0]` of it. -/
def leafData (phys : GuestPhys) (wp : Bool) (m1 : MapPageData1) (m : MapPageData2)
    (gfn : BitVec 64) : BitVec 64 × MapPageData2 :=
  let (hphys, fakerom) := phys.gp2hp (gfn <<< 12)
  (hphys, if fakerom then { adjusted wp m1 m with rw := false } else adjusted wp m1 m)

/-- `map_page`, `none` where it panics. -/
def mapPage (phys : GuestPhys) (p : Pmap) (b : ShadowBook) (wp : Bool) (view : ShadowView)
    (m1 : MapPageData1) (m2 : Nat → MapPageData2) (gfns : Nat → BitVec 64) : Option ShadowView :=
  let pde := setpde p b view.pde (adjusted wp m1 (m2 1))
  let (hphys, m0) := leafData phys wp m1 (m2 0) (gfns 0)
  if (phys.gp2hp (gfns 0 <<< 12)).2 && m1.write then none
  else
    some
      { pde := pde
        pte := setpte p b (shadowPte hphys m1 m0) m0.rw
        pde_present := .inr (setpde_present p b view.pde_present _) }

def gfnGlobal : BitVec 64 := 0xFFFFFFFFFFFFFFFE
def gfnUnused : BitVec 64 := 0xFFFFFFFFFFFFFFFF
def pdeGBit : BitVec 64 := 0x100

/-- `set_gfns`. -/
def setGfns (mask : BitVec 64) (entries : Nat → BitVec 64) (i : Nat) : BitVec 64 :=
  if (i = 1 ∨ i = 2) ∧ entries i &&& pdePsBit ≠ 0 then
    if entries i &&& pdeGBit ≠ 0 then gfnGlobal else gfnUnused
  else (entries i &&& mask) >>> 12

/-- How a page fault is handled. -/
inductive PagefaultEnd
  /-- The guest gets the page fault. -/
  | inject (e : Vmmerr)
  /-- `mmio_access_page` emulates the access. -/
  | emulate
  | panic
  | mapped (view : ShadowView)

/-- `cpu_mmu_spt_pagefault`: the guest's memory, how the fault is handled, and the entries and the
levels of the walk. `cr2` is the address and `err` the error code of the fault. -/
def cpuMmuSptPagefault (phys : GuestPhys) (r : SptRegs) (n : Nat) (mem : TableMem) (m p : Pmap)
    (b : ShadowBook) (view : ShadowView) (entries : Nat → BitVec 64) (m2 : Nat → MapPageData2)
    (err cr2 : BitVec 64) :
    Option (TableMem × PagefaultEnd × (Nat → BitVec 64) × Nat) :=
  let mask := getPteAddrMask phys.nbits
  let wr := hasBit err pagefaultErrWrBit
  let us := hasBit err pagefaultErrUsBit
  let ex := hasBit err pagefaultErrIdBit
  (cpuMmuGetPte mask n mem m cr2 r.regs.cr0 r.regs.cr3 r.regs.cr4 r.regs.efer wr us ex
      entries).map fun
    | (.success, mem, entries, levels) =>
      let gfns := setGfns mask entries
      let m1 := setM1 (phys.attr (gfns 0 <<< 12) (entries 0 &&& 0xFFF)) wr us
        (hasBit r.regs.cr0 cr0WpBit)
      if phys.mmio (gfns 0 <<< 12) then (mem, .emulate, entries, levels)
      else
        match mapPage phys p b r.wp view m1 (setM2 entries levels m2) gfns with
        | none => (mem, .panic, entries, levels)
        | some view => (mem, .mapped view, entries, levels)
    | (e, mem, entries, levels) => (mem, .inject e, entries, levels)

/-- What a guest has in its control registers: no bit of CR0 above bit 31. -/
def PagingRegs.Loadable (regs : PagingRegs) : Prop := regs.cr0 >>> 32 = 0

instance (regs : PagingRegs) : Decidable regs.Loadable := inferInstanceAs (Decidable (_ = _))

/-- The registers that `spt_t` keeps, from the update by `vt_reset` on. -/
def sptMachine : Machine SptRegs PagingRegs where
  init r := ∃ regs : PagingRegs, regs.Loadable ∧ r = SptRegs.initial.updateCr3 regs
  step r regs := if regs.Loadable then some (r.updateCr3 regs) else none

/-! ### What is permitted -/

/-- The guest's entries permit an access. -/
def GuestPermits (regs : PagingRegs) (entries : Nat → BitVec 64) (levels : Nat)
    (acc : Lib.X86.Access) : Prop :=
  (∀ k < levels, present (entries k) = true) ∧
    (acc.user = true → ∀ k ≤ levels, user (entries k) = true) ∧
    (acc.write = true → acc.user = true ∨ hasBit regs.cr0 cr0WpBit = true →
      ∀ k ≤ levels, writable (entries k) = true) ∧
    (acc.exec = true → hasBit regs.efer msrIa32EferNxeBit = true →
      ∀ k ≤ levels, noExec (entries k) = false)

/-- The shadow entries permit an access: the processor runs on them with CR0.WP set. -/
def ShadowView.Permits (view : ShadowView) (acc : Lib.X86.Access) : Prop :=
  (present view.pde = true ∧ present view.pte = true) ∧
    (acc.user = true → user view.pde = true ∧ user view.pte = true) ∧
    (acc.write = true → writable view.pde = true ∧ writable view.pte = true) ∧
    (acc.exec = true → noExec view.pde = false ∧ noExec view.pte = false)

/-- The shadow entries permit nothing that the guest does not, and permit writing only where the
guest's leaf has its dirty bit set. -/
structure ShadowSafe (regs : PagingRegs) (entries : Nat → BitVec 64) (levels : Nat)
    (view : ShadowView) : Prop where
  permits : ∀ acc, view.Permits acc → GuestPermits regs entries levels acc
  dirty : ∀ acc, acc.write = true → view.Permits acc → entries 0 &&& pdeDBit ≠ 0

end OnDemandVirt.Vmm
