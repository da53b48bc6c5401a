import OnDemandVirt.Iommu.Registrations

/-!
# Setting up the DMA remapping units

`iommu_setup`: the frames below 4GB are mapped for the devices that are passed through (domain 0)
and for every device with registrations, and each device gets its context entry. `none` stands for
an access through a null pointer or behind the end of an array.
-/

namespace OnDemandVirt.Iommu

open Lib

/-- `struct acpi_drhd_u`: the devices (bus, and device and function) of a unit, and its capability
register. -/
structure AcpiDrhdU where
  devices : List (BitVec 8 × BitVec 8)
  includePciAll : Bool
  cap : BitVec 64

/-- The loop of `matched_drhd_u` from the unit with number `i` on, with `include_pci_all_drhd`. -/
def matchedLoop (a : PciAddress) : (i : Nat) → Option Nat → List AcpiDrhdU → Option Nat
  | _, includePciAll, [] => includePciAll
  | i, includePciAll, drhd :: drhds =>
    if drhd.includePciAll then matchedLoop a (i + 1) (some i) drhds
    else if (a.busNo, a.devfn) ∈ drhd.devices then some i
    else matchedLoop a (i + 1) includePciAll drhds

/-- `matched_drhd_u`: the number of the unit of a device. -/
def matchedDrhdU (drhds : List AcpiDrhdU) (a : PciAddress) : Option Nat :=
  matchedLoop a 0 none drhds

/-- `cap_mgaw`. -/
def capMgaw (cap : BitVec 64) : Nat := (cap >>> 16 &&& 0x3f).toNat + 1

/-- `cap_sagaw`. -/
def capSagaw (cap : BitVec 64) : BitVec 64 := cap >>> 8 &&& 0x1f

/-- `gaw_to_agaw`. -/
def gawToAgaw (gaw : Int) : Int :=
  let r := (gaw - 12).tmod 9
  let agaw := if r = 0 then gaw else gaw + 9 - r
  if agaw > 64 then 64 else agaw

/-- `iodom_init`, which looks at the last unit: `dom->agaw`, or `none` where it is not supported. A
negative `agaw` shifts the bit out of the five of `sagaw`. -/
def iodomInit (drhds : List AcpiDrhdU) : Option Nat :=
  match drhds.getLast? with
  | none => some 0
  | some drhd =>
    let agaw := (gawToAgaw (capMgaw drhd.cap) - 12).tdiv 9 - 2
    if 0 ≤ agaw ∧ (capSagaw drhd.cap).getLsbD agaw.toNat then some agaw.toNat else none

/-- What `iommu_setup` works on: the units, the frame that the VMM starts at, the PCI devices and
the registrations. -/
structure Platform where
  drhds : List AcpiDrhdU
  vmmStart : BitVec 20
  devices : List PciAddress
  calls : List Remap

namespace Platform

variable (m : Platform)

/-- `vmm_start_inf`. -/
def vmmStartInf : BitVec 32 := m.vmmStart ++ 0#12

/-- `vmm_term_inf`. -/
def vmmTermInf : BitVec 32 := m.vmmStartInf + 128 * 1024 * 1024

/-- The permission of a frame in domain 0. -/
def passPerm (i : Nat) : Perm :=
  if (m.vmmStartInf >>> 12).toNat ≤ i ∧ i < (m.vmmTermInf >>> 12).toNat then .no else .rw

end Platform

/-- The permission of a frame in another domain: that of the last registration that covers it. -/
def domPerm (rem : List RemapInf) (dom i : Nat) : Perm :=
  rem.foldl (fun f r => if r.dom = dom ∧ r.covers i then r.perm else f) .no

/-- `MAX_IO_DOM`. -/
abbrev maxIoDom : Nat := 256

/-- The frames below 4GB. -/
abbrev lowFrames : Nat := 2 ^ 20

section

variable (σ : Radix.Supply) (agaw : Nat)

/-- The frames below `n` are mapped, one after the other. -/
def mapFrames (dom : Nat) (perm : Nat → Perm) : Nat → Tables → Tables
  | 0, s => s
  | n + 1, s => dmarMapPage σ agaw (mapFrames dom perm n s) dom n (perm n)

/-- The domains from 1 to `n` are mapped, `none` where one is behind the end of `dom_io`. -/
def mapDoms (rem : List RemapInf) : Nat → Tables → Option Tables
  | 0, s => some s
  | n + 1, s => (mapDoms rem n s).bind fun s =>
    if n + 1 < maxIoDom then some (mapFrames σ agaw (n + 1) (domPerm rem (n + 1)) lowFrames s)
    else none

/-- `init_iommu`, by what it changes in memory. -/
def initIommu (drhds : List AcpiDrhdU) (s : Tables) : Tables :=
  (List.range drhds.length).foldl (gcmdSrtp σ) s

variable (drhds : List AcpiDrhdU)

/-- `reg_context_entry` for the unit that `matched_drhd_u` finds. -/
def regMatched (s : Tables) (dom : Nat) (a : PciAddress) : Option Tables :=
  (matchedDrhdU drhds a).bind fun unit => regContextEntry σ agaw s dom unit a.busNo a.devfn

/-- `setup_bitvisor_devs`. -/
def setupBitvisorDevs (rem : List RemapInf) (devices : List PciAddress) (s : Tables) :
    Option Tables :=
  devices.foldlM (fun s a =>
    if searchRemap rem a = 0 then regMatched σ agaw drhds s 0 a else some s) s

/-- The domains from 1 to `n` get the context entries of their devices: `mod_remap_conf`. -/
def setupDoms (rem : List RemapInf) : Nat → Tables → Option Tables
  | 0, s => some s
  | n + 1, s => (setupDoms rem n s).bind fun s =>
    (rem.find? fun r => r.dom = n + 1).bind fun r => regMatched σ agaw drhds s (n + 1) r.addr

end

/-- Before `iommu_setup` there are no tables. -/
def Tables.empty : Tables where
  iopt := ⟨0, fun _ _ => .zero⟩
  roots _ _ := .zero
  contexts _ _ := .zero
  rootEntry _ := none
  pgd _ := none

namespace Platform

variable (σ : Radix.Supply) (m : Platform)

/-- `iommu_setup`, with the domains that `iodom_init` has set up and the registrations already in
`rem`. -/
def setup (agaw : Nat) (rem : List RemapInf) : Option Tables :=
  let (ndom, rem) := remapPreconf rem
  let s := mapFrames σ agaw 0 m.passPerm lowFrames .empty
  (mapDoms σ agaw rem (ndom - 1) s).bind fun s =>
    (setupBitvisorDevs σ agaw m.drhds rem m.devices (initIommu σ m.drhds s)).bind fun s =>
      setupDoms σ agaw m.drhds rem (ndom - 1) s

/-- All calls of `add_remap`, and then `iommu_setup`. -/
def iommuSetup : Option Tables :=
  (m.calls.foldlM addRemap []).bind fun rem =>
    if m.drhds = [] then none
    else (iodomInit m.drhds).bind fun agaw => m.setup σ agaw rem

/-- What a request of a device to the frame `f` is translated to. -/
def walk (s : Tables) (a : PciAddress) (f : Nat) : Option (Nat × Bool × Bool) :=
  (matchedDrhdU m.drhds a).bind fun unit => vtdWalk s unit a.busNo a.devfn f

end Platform

end OnDemandVirt.Iommu
