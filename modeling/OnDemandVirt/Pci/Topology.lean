import Mathlib.Data.List.FinRange
import Mathlib.Data.List.Nodup
import Mathlib.Logic.Function.Basic
import OnDemandVirt.Lib.Machine
import Mathlib.Algebra.Group.Nat.Defs

/-!
# The devices behind bridges

`pci_find_devices` makes a list of the devices that are there at boot, each with the bridge that its
bus number is the secondary bus number of. When the guest gives a bridge another bus number,
`pci_handle_bridge_config_write` gives it to the devices behind the bridge and marks them
disconnected; an access to a device that is marked reconnects it, if the hardware answers, and an
access to an address of no device may find a new one.

A device is named by its place in `pci_device_list`. What the hardware answers is a parameter of
`pci_find_devices` and of each access.
-/

namespace OnDemandVirt.Pci

open Lib

/-- Bus, device and function. -/
structure Bdf where
  busNo : BitVec 8
  deviceNo : BitVec 5
  funcNo : BitVec 3
deriving DecidableEq

/-- The 32-bit registers of a configuration header. -/
abbrev Regs32 := Nat → BitVec 32

/-- `bridge` of `struct pci_device`. -/
structure BridgeInfo where
  yes : Bool
  secondaryBusNo : BitVec 8
  subordinateBusNo : BitVec 8

/-- `struct pci_device`; `allow` is that bit of `address`, and `driver` says whether there is one. -/
structure TopoDevice where
  address : Bdf
  allow : Bool
  regs32 : Regs32
  bridge : BridgeInfo
  parentBridge : Option Nat
  disconnect : Bool
  driver : Bool

/-- `pci_device_list` and `bridge_from_bus_no`. -/
structure Topology where
  count : Nat
  dev : Nat → TopoDevice
  bridgeFromBusNo : BitVec 8 → Option Nat

/-- `panic` for a device whose bus number is not that of its bridge, and for a changed device that
has a driver. -/
inductive PciPanic
  | busNo
  | deviceChange
deriving DecidableEq

/-- An access of the guest, to the ports or in the memory-mapped window, with what the hardware
answers: the registers 0 and 2 by themselves, and all of them. `driver` says whether there is one
for the device as it is then, and `copy` is what the default handler or the driver makes of the copy
of the registers. -/
structure ConfigAccess where
  mmio : Bool
  address : Bdf
  write : Bool
  offset : Nat
  size : Nat
  data : Nat → BitVec 8
  data0 : BitVec 32
  data8 : BitVec 32
  regs32 : Regs32
  driver : Bool
  copy : Regs32

/-! ### The functions -/

def Topology.modify (t : Topology) (i : Nat) (f : TopoDevice → TopoDevice) : Topology :=
  { t with dev := Function.update t.dev i (f (t.dev i)) }

/-- `multi_function` of the header type. -/
def multiFunction (regs : Regs32) : Bool := (regs 3).getLsbD 23

/-- `class_code` is that of a PCI bridge. -/
def isPciBridge (regs : Regs32) : Bool := (regs 2 >>> 8) &&& 0xFFFF00 = 0x060400

/-- `pci_save_bridge_info`; of a device that is no bridge the numbers stay. -/
def pciSaveBridgeInfo (regs : Regs32) (old : BridgeInfo) : BridgeInfo where
  yes := isPciBridge regs
  secondaryBusNo := if isPciBridge regs then (regs 6 >>> 8).setWidth 8 else old.secondaryBusNo
  subordinateBusNo := if isPciBridge regs then (regs 6 >>> 16).setWidth 8 else old.subordinateBusNo

/-- `pci_get_bridge_from_bus_no`. -/
def Topology.getBridgeFromBusNo (t : Topology) (busNo : BitVec 8) : Option Nat :=
  if busNo = 0 then none
  else (t.bridgeFromBusNo busNo).filter fun p =>
    (t.dev p).bridge.yes && (t.dev p).bridge.secondaryBusNo = busNo

/-- `pci_set_bridge_from_bus_no`. -/
def Topology.setBridgeFromBusNo (t : Topology) (busNo : BitVec 8) (bridge : Nat) : Topology :=
  if busNo = 0 then t
  else { t with bridgeFromBusNo := Function.update t.bridgeFromBusNo busNo (some bridge) }

/-- `device_disconnect`; the fuel is for the bridges below one another. -/
def deviceDisconnect : Nat → Nat → Topology → Topology
  | 0, _, t => t
  | fuel + 1, i, t =>
    let t := t.modify i fun d => { d with disconnect := true }
    if (t.dev i).bridge.yes then
      (List.range t.count).foldl (fun t c =>
        if (t.dev c).parentBridge = some i then deviceDisconnect fuel c t else t) t
    else t

/-- Old and new bus numbers of a bridge. -/
structure BusChange where
  oldSecondary : BitVec 8
  oldSubordinate : BitVec 8
  newSecondary : BitVec 8
  newSubordinate : BitVec 8

/-- The byte that a write has for a register. -/
def writtenByte (offset size : Nat) (data : Nat → BitVec 8) (reg : Nat) (old : BitVec 8) :
    BitVec 8 :=
  if offset ≤ reg ∧ offset + size > reg then data (reg - offset) else old

/-- The loop body of `pci_handle_bridge_config_write`. -/
def handleDevice (bridge : Nat) (b : BusChange) (t : Topology) (i : Nat) :
    Except PciPanic Topology :=
  let d := t.dev i
  if d.parentBridge = some bridge ∧ b.newSecondary ≠ b.oldSecondary then
    if d.disconnect = false ∧ d.address.busNo ≠ b.oldSecondary then .error .busNo
    else
      .ok ((deviceDisconnect (t.count + 1) i t).modify i fun d =>
        { d with address := { d.address with busNo := b.newSecondary } })
  else if d.disconnect = false ∧ b.oldSecondary ≠ 0 ∧ d.address.busNo > b.oldSecondary ∧
      d.address.busNo ≤ b.oldSubordinate ∧
      ¬(b.newSecondary = b.oldSecondary ∧ d.address.busNo > b.newSecondary ∧
        d.address.busNo ≤ b.newSubordinate) then
    .ok (deviceDisconnect (t.count + 1) i t)
  else .ok t

/-- The bus numbers of a bridge, and what a write makes of them. -/
def BridgeInfo.busChange (info : BridgeInfo) (offset size : Nat) (data : Nat → BitVec 8) :
    BusChange where
  oldSecondary := info.secondaryBusNo
  oldSubordinate := info.subordinateBusNo
  newSecondary := writtenByte offset size data 0x19 info.secondaryBusNo
  newSubordinate := writtenByte offset size data 0x1A info.subordinateBusNo

/-- The end of `pci_handle_bridge_config_write`. -/
def setBusNumbers (bridge : Nat) (b : BusChange) (t : Topology) : Topology :=
  (t.setBridgeFromBusNo b.newSecondary bridge).modify bridge fun d => { d with
    bridge := { d.bridge with
      secondaryBusNo := b.newSecondary
      subordinateBusNo := b.newSubordinate } }

/-- `pci_handle_bridge_config_write`. -/
def pciHandleBridgeConfigWrite (bridge offset size : Nat) (data : Nat → BitVec 8) (t : Topology) :
    Except PciPanic Topology :=
  let b := (t.dev bridge).bridge.busChange offset size data
  if b.newSecondary = b.oldSecondary ∧ b.newSubordinate = b.oldSubordinate then .ok t
  else do
    let t ← (List.range t.count).foldlM (handleDevice bridge b) t
    .ok (setBusNumbers bridge b t)

/-- The label `found`, and what follows it. -/
def found (acc : ConfigAccess) (i : Nat) (t : Topology) : Except PciPanic Topology := do
  let t ←
    if (t.dev i).bridge.yes && acc.write then
      pciHandleBridgeConfigWrite i acc.offset acc.size acc.data t
    else .ok t
  .ok (t.modify i fun d => { d with regs32 := acc.copy })

/-- The label `new_device` with a device. -/
def newDevice (acc : ConfigAccess) (i : Nat) (t : Topology) : Except PciPanic Topology :=
  if acc.driver then found acc i (t.modify i fun d => { d with driver := true })
  else .ok (t.modify i fun d => { d with regs32 := acc.copy })

/-- `pci_reconnect_device`, where there is a device: the one from before or another one. -/
def reconnected (acc : ConfigAccess) (d : TopoDevice) : TopoDevice :=
  if d.regs32 0 = acc.data0 ∧ d.regs32 2 = acc.data8 then { d with disconnect := false }
  else { d with
    disconnect := false
    regs32 := acc.regs32
    bridge := pciSaveBridgeInfo acc.regs32 d.bridge }

/-- `pci_reconnect_device` and its caller. -/
def pciReconnectDevice (acc : ConfigAccess) (i : Nat) (t : Topology) : Except PciPanic Topology :=
  if acc.data0 &&& 0xFFFF = 0xFFFF then .ok t
  else if (t.dev i).regs32 0 = acc.data0 ∧ (t.dev i).regs32 2 = acc.data8 then
    found acc i (t.modify i (reconnected acc))
  else if (t.dev i).driver then .error .deviceChange
  else newDevice acc i (t.modify i (reconnected acc))

/-- `pci_new_device` at the end of the list. -/
def Topology.append (t : Topology) (d : TopoDevice) : Topology :=
  { t with count := t.count + 1, dev := Function.update t.dev t.count d }

/-- The device of `pci_new_device`. -/
def pciNewTopoDevice (address : Bdf) (allow : Bool) (regs : Regs32) : TopoDevice where
  address := address
  allow := allow
  regs32 := regs
  bridge := pciSaveBridgeInfo regs ⟨false, 0, 0⟩
  parentBridge := none
  disconnect := false
  driver := false

/-- `pci_possible_new_device` and its caller. The address of a device that is found in the window
does not have the bit `allow`. -/
def pciPossibleNewDevice (acc : ConfigAccess) (t : Topology) : Except PciPanic Topology :=
  if acc.data0 &&& 0xFFFF = 0xFFFF then .ok t
  else
    let t' := t.append (pciNewTopoDevice acc.address (!acc.mmio) acc.regs32)
    newDevice acc t.count (t'.modify t.count fun d =>
      { d with parentBridge := t'.getBridgeFromBusNo acc.address.busNo })

/-- The device that the access is to; the ports compare the whole address. -/
def ConfigAccess.isTo (acc : ConfigAccess) (d : TopoDevice) : Bool :=
  d.address = acc.address && (acc.mmio || d.allow)

/-- An access to a function of a device that has only one. -/
def ConfigAccess.isConcealedBy (acc : ConfigAccess) (d : TopoDevice) : Bool :=
  acc.address.funcNo ≠ 0 && d.address = { acc.address with funcNo := 0 } &&
    (acc.mmio || d.allow) && !multiFunction d.regs32

/-- The device at which the search in `pci_config_data_handler` or `pci_config_mmio_handler` ends. -/
def ConfigAccess.search (acc : ConfigAccess) (t : Topology) : Option Nat :=
  (List.range t.count).find? fun i => acc.isTo (t.dev i) || acc.isConcealedBy (t.dev i)

/-- `pci_config_data_handler` and `pci_config_mmio_handler`. -/
def configAccess (t : Topology) (acc : ConfigAccess) : Except PciPanic Topology :=
  match acc.search t with
  | none => pciPossibleNewDevice acc t
  | some i =>
    if acc.isTo (t.dev i) then
      if (t.dev i).disconnect then pciReconnectDevice acc i t else found acc i t
    else .ok t

/-! ### The devices at boot -/

/-- The devices that are there: their registers. -/
abbrev Hardware := Bdf → Option Regs32

/-- The functions of a device, up to the first one if it has no others. -/
def scanFuncs (hw : Hardware) (bn : BitVec 8) (dn : BitVec 5) :
    List (BitVec 3) → List (Bdf × Regs32)
  | [] => []
  | fn :: fns =>
    match hw ⟨bn, dn, fn⟩ with
    | none => scanFuncs hw bn dn fns
    | some regs =>
      if fn = 0 ∧ multiFunction regs = false then [(⟨bn, dn, fn⟩, regs)]
      else (⟨bn, dn, fn⟩, regs) :: scanFuncs hw bn dn fns

/-- The numbers of so many bits, in order. -/
def allNumbers (w : Nat) : List (BitVec w) := (List.finRange (2 ^ w)).map BitVec.ofFin

/-- The loops of `pci_find_devices`. -/
def scan (hw : Hardware) : List (Bdf × Regs32) :=
  (allNumbers 8).flatMap fun bn => (allNumbers 5).flatMap fun dn =>
    scanFuncs hw bn dn (allNumbers 3)

/-- The list of the devices, in the order in which they are found. -/
def bootDevices (hw : Hardware) : Topology where
  count := (scan hw).length
  dev i :=
    match (scan hw)[i]? with
    | some (address, regs) => pciNewTopoDevice address true regs
    | none => pciNewTopoDevice ⟨0, 0, 0⟩ true fun _ => 0
  bridgeFromBusNo _ := none

/-- The bridges that are found are put into the table. -/
def bootBridges (t : Topology) : Topology :=
  (List.range t.count).foldl (fun t i =>
    if (t.dev i).bridge.yes then t.setBridgeFromBusNo (t.dev i).bridge.secondaryBusNo i else t) t

/-- `pci_find_devices`; `drivers` says which devices have a driver. -/
def pciFindDevices (hw : Hardware) (drivers : Bdf → Bool) : Topology :=
  let t := bootBridges (bootDevices hw)
  { t with dev := fun i => { t.dev i with
      parentBridge := t.getBridgeFromBusNo (t.dev i).address.busNo
      driver := drivers (t.dev i).address } }

/-- The accesses of the guest from `pci_find_devices` on. -/
def pciMachine : Machine Topology ConfigAccess where
  init t := ∃ hw drivers, t = pciFindDevices hw drivers
  step t acc := (configAccess t acc).toOption

/-! ### What is to hold -/

/-- A device that is not disconnected. -/
def Topology.Connected (t : Topology) (i : Nat) : Prop :=
  i < t.count ∧ (t.dev i).disconnect = false

/-- No two devices that are not disconnected have one address, and each has the secondary bus number
of its bridge. -/
structure Consistent (t : Topology) : Prop where
  unique : ∀ i j, t.Connected i → t.Connected j → (t.dev i).address = (t.dev j).address → i = j
  busNo : ∀ i p, t.Connected i → (t.dev i).parentBridge = some p →
    (t.dev i).address.busNo = (t.dev p).bridge.secondaryBusNo

/-- What must be true of an access that reconnects a device or finds a new one: that no other device
which is not disconnected has its address; and for one that is reconnected, that its bus number is
the secondary one of its bridge, and if it was changed, that this number, as it is read then, is
that of the devices behind it which are not disconnected. -/
def AccessFits (t : Topology) (acc : ConfigAccess) : Prop :=
  acc.data0 &&& 0xFFFF ≠ 0xFFFF →
  match acc.search t with
  | none => ∀ j, t.Connected j → (t.dev j).address ≠ acc.address
  | some i => acc.isTo (t.dev i) = true → (t.dev i).disconnect = true →
    let t' := t.modify i (reconnected acc)
    (∀ j, t.Connected j → (t.dev j).address ≠ (t.dev i).address) ∧
    (∀ p, (t.dev i).parentBridge = some p →
      (t.dev i).address.busNo = (t'.dev p).bridge.secondaryBusNo) ∧
    (∀ c, t.Connected c → (t.dev c).parentBridge = some i →
      (t.dev c).address.busNo = (t'.dev i).bridge.secondaryBusNo)

/-- The bridges that are referred to are in the list. -/
structure InRange (t : Topology) : Prop where
  parent : ∀ i p, i < t.count → (t.dev i).parentBridge = some p → p < t.count
  table : ∀ busNo p, t.bridgeFromBusNo busNo = some p → p < t.count

/-- The invariant. -/
structure TopoInv (t : Topology) : Prop where
  consistent : Consistent t
  inRange : InRange t

/-- An outcome of an access: the invariant, or the other panic. -/
def KeepsTopology (r : Except PciPanic Topology) : Prop :=
  match r with
  | .ok t => TopoInv t
  | .error e => e = .deviceChange

section Devices

variable {t t' t'' : Topology} {i j : Nat} {f : TopoDevice → TopoDevice}

@[simp] theorem modify_count (t : Topology) (i : Nat) (f : TopoDevice → TopoDevice) :
    (t.modify i f).count = t.count := rfl

@[simp] theorem modify_table (t : Topology) (i : Nat) (f : TopoDevice → TopoDevice) :
    (t.modify i f).bridgeFromBusNo = t.bridgeFromBusNo := rfl

@[simp] theorem modify_dev_self (t : Topology) (i : Nat) (f : TopoDevice → TopoDevice) :
    (t.modify i f).dev i = f (t.dev i) := Function.update_self ..

@[simp] theorem modify_dev_ne (f : TopoDevice → TopoDevice) (h : j ≠ i) :
    (t.modify i f).dev j = t.dev j := Function.update_of_ne h ..

/-- The devices are the same but for their marks, and none is connected again. -/
structure OnlyDisconnects (t t' : Topology) : Prop where
  count : t'.count = t.count
  table : t'.bridgeFromBusNo = t.bridgeFromBusNo
  dev : ∀ i, t'.dev i = { t.dev i with disconnect := (t'.dev i).disconnect }
  mono : ∀ i, (t.dev i).disconnect = true → (t'.dev i).disconnect = true

theorem OnlyDisconnects.refl (t : Topology) : OnlyDisconnects t t :=
  ⟨rfl, rfl, fun _ => rfl, fun _ h => h⟩

theorem OnlyDisconnects.trans (h : OnlyDisconnects t t') (h' : OnlyDisconnects t' t'') :
    OnlyDisconnects t t'' where
  count := h'.count.trans h.count
  table := h'.table.trans h.table
  dev := fun i => (h'.dev i).trans (by rw [h.dev i])
  mono := fun i hi => h'.mono i (h.mono i hi)

theorem onlyDisconnects_modify (t : Topology) (i : Nat) :
    OnlyDisconnects t (t.modify i fun d => { d with disconnect := true }) where
  count := rfl
  table := rfl
  dev := fun j => by
    by_cases hj : j = i
    · rw [hj, modify_dev_self]
    · rw [modify_dev_ne _ hj]
  mono := fun j hj => by
    by_cases hji : j = i
    · rw [hji, modify_dev_self]
    · rw [modify_dev_ne _ hji]
      exact hj

/-- A loop whose body only disconnects devices. -/
theorem onlyDisconnects_foldl (l : List Nat) (body : Topology → Nat → Topology)
    (h : ∀ t c, OnlyDisconnects t (body t c)) (t : Topology) :
    OnlyDisconnects t (l.foldl body t) := by
  induction l generalizing t with
  | nil => exact .refl t
  | cons c l ih => exact (h t c).trans (ih (body t c))

theorem onlyDisconnects_deviceDisconnect (fuel i : Nat) (t : Topology) :
    OnlyDisconnects t (deviceDisconnect fuel i t) := by
  induction fuel generalizing i t with
  | zero => exact .refl t
  | succ fuel ih =>
    unfold deviceDisconnect
    refine (onlyDisconnects_modify t i).trans ?_
    simp only
    split
    case isTrue =>
      refine onlyDisconnects_foldl _ _ (fun t c => ?_) _
      split
      · exact ih c t
      · exact .refl t
    case isFalse => exact .refl _

theorem deviceDisconnect_self (fuel i : Nat) (t : Topology) :
    ((deviceDisconnect (fuel + 1) i t).dev i).disconnect = true := by
  have hself : ((t.modify i fun d => { d with disconnect := true }).dev i).disconnect = true := by
    rw [modify_dev_self]
  unfold deviceDisconnect
  simp only
  split
  case isTrue =>
    refine (onlyDisconnects_foldl _ _ (fun t c => ?_) _).mono i hself
    split
    · exact onlyDisconnects_deviceDisconnect fuel c t
    · exact .refl t
  case isFalse => exact hself

end Devices

/-! ### A write to the bus numbers of a bridge -/

section BridgeWrite

variable {t t' : Topology} {bridge k : Nat} {b : BusChange}

/-- The loop over the devices has come to the `k`-th one. -/
structure Relabels (bridge : Nat) (b : BusChange) (k : Nat) (t t' : Topology) : Prop where
  count : t'.count = t.count
  table : t'.bridgeFromBusNo = t.bridgeFromBusNo
  dev : ∀ i, t'.dev i = { t.dev i with
    disconnect := (t'.dev i).disconnect
    address :=
      if (t.dev i).parentBridge = some bridge ∧ b.newSecondary ≠ b.oldSecondary ∧ i < k then
        { (t.dev i).address with busNo := b.newSecondary }
      else (t.dev i).address }
  mono : ∀ i, (t.dev i).disconnect = true → (t'.dev i).disconnect = true
  done : ∀ i, (t.dev i).parentBridge = some bridge → b.newSecondary ≠ b.oldSecondary → i < k →
    (t'.dev i).disconnect = true

theorem relabels_zero (bridge : Nat) (b : BusChange) (t : Topology) : Relabels bridge b 0 t t where
  count := rfl
  table := rfl
  dev := fun i => by rw [if_neg fun h => Nat.not_lt_zero i h.2.2]
  mono := fun _ h => h
  done := fun i _ _ h => absurd h (Nat.not_lt_zero i)

/-- The loop goes on after a device that is not renumbered. -/
theorem Relabels.skip {t'' : Topology} (h : Relabels bridge b k t t')
    (hd : OnlyDisconnects t' t'')
    (hk : ¬((t.dev k).parentBridge = some bridge ∧ b.newSecondary ≠ b.oldSecondary)) :
    Relabels bridge b (k + 1) t t'' where
  count := hd.count.trans h.count
  table := hd.table.trans h.table
  dev := fun i => by
    rw [hd.dev i, h.dev i]
    by_cases hi : (t.dev i).parentBridge = some bridge ∧ b.newSecondary ≠ b.oldSecondary
    · have hne : i ≠ k := fun heq => hk (heq ▸ hi)
      have hlt : i < k + 1 ↔ i < k := by omega
      simp only [hlt]
    · rw [if_neg fun hc => hi ⟨hc.1, hc.2.1⟩, if_neg fun hc => hi ⟨hc.1, hc.2.1⟩]
  mono := fun i hi => hd.mono i (h.mono i hi)
  done := fun i hp hne hi => by
    rcases Nat.lt_succ_iff_lt_or_eq.mp hi with hlt | heq
    · exact hd.mono i (h.done i hp hne hlt)
    · exact absurd ⟨heq ▸ hp, hne⟩ hk

/-- The loop goes on after a device of the bridge. -/
theorem Relabels.relabel (h : Relabels bridge b k t t')
    (hp : (t.dev k).parentBridge = some bridge) (hne : b.newSecondary ≠ b.oldSecondary) :
    Relabels bridge b (k + 1) t ((deviceDisconnect (t'.count + 1) k t').modify k fun d =>
      { d with address := { d.address with busNo := b.newSecondary } }) := by
  have hd := onlyDisconnects_deviceDisconnect (t'.count + 1) k t'
  have hself := deviceDisconnect_self t'.count k t'
  generalize deviceDisconnect (t'.count + 1) k t' = t'' at hd hself
  refine ⟨hd.count.trans h.count, hd.table.trans h.table, fun i => ?_, fun i hi => ?_,
    fun i hpi _ hi => ?_⟩
  · by_cases hik : i = k
    · subst hik
      rw [modify_dev_self, hd.dev i, h.dev i, if_neg fun hc => Nat.lt_irrefl i hc.2.2,
        if_pos ⟨hp, hne, Nat.lt_succ_self i⟩]
    · have hlt : i < k + 1 ↔ i < k := by omega
      rw [modify_dev_ne _ hik, hd.dev i, h.dev i]
      simp only [hlt]
  · by_cases hik : i = k
    · rw [hik, modify_dev_self]
      exact hself
    · rw [modify_dev_ne _ hik]
      exact hd.mono i (h.mono i hi)
  · by_cases hik : i = k
    · rw [hik, modify_dev_self]
      exact hself
    · rw [modify_dev_ne _ hik]
      exact hd.mono i (h.done i hpi hne (by omega))

/-- The loop does not panic, for the devices behind the bridge have its number as long as they are
connected. -/
theorem Relabels.handleDevice (h : Relabels bridge b k t t') (hc : Consistent t)
    (hold : (t.dev bridge).bridge.secondaryBusNo = b.oldSecondary) (hk : k < t.count) :
    ∃ t'', handleDevice bridge b t' k = .ok t'' ∧ Relabels bridge b (k + 1) t t'' := by
  have hparent : (t'.dev k).parentBridge = (t.dev k).parentBridge := by rw [h.dev k]
  unfold Pci.handleDevice
  simp only
  rw [hparent]
  by_cases hp : (t.dev k).parentBridge = some bridge ∧ b.newSecondary ≠ b.oldSecondary
  · rw [if_pos hp]
    have hno : ¬((t'.dev k).disconnect = false ∧ (t'.dev k).address.busNo ≠ b.oldSecondary) := by
      rintro ⟨hconn, hbus⟩
      have haddr : (t'.dev k).address = (t.dev k).address := by
        rw [h.dev k, if_neg fun hc => Nat.lt_irrefl k hc.2.2]
      have hconn' : (t.dev k).disconnect = false := by
        cases hdis : (t.dev k).disconnect with
        | false => rfl
        | true => rw [h.mono k hdis] at hconn; cases hconn
      exact hbus (by rw [haddr, hc.busNo k bridge ⟨hk, hconn'⟩ hp.1, hold])
    rw [if_neg hno]
    exact ⟨_, rfl, h.relabel hp.1 hp.2⟩
  · rw [if_neg hp]
    split
    · exact ⟨_, rfl, h.skip (onlyDisconnects_deviceDisconnect _ _ _) hp⟩
    · exact ⟨_, rfl, h.skip (.refl _) hp⟩

theorem relabels_loop (hc : Consistent t)
    (hold : (t.dev bridge).bridge.secondaryBusNo = b.oldSecondary) (hk : k ≤ t.count) :
    ∃ t', (List.range k).foldlM (handleDevice bridge b) t = .ok t' ∧
      Relabels bridge b k t t' := by
  induction k with
  | zero => exact ⟨t, rfl, relabels_zero bridge b t⟩
  | succ k ih =>
    obtain ⟨t', hrun, hrel⟩ := ih (Nat.le_of_succ_le hk)
    obtain ⟨t'', hstep, hrel'⟩ := hrel.handleDevice hc hold hk
    refine ⟨t'', ?_, hrel'⟩
    rw [List.range_succ, List.foldlM_append, hrun]
    change [k].foldlM (handleDevice bridge b) t' = _
    rw [List.foldlM_cons, hstep]
    rfl

/-- A device that is still connected has its address, its bridge and what is behind it as before. -/
theorem Relabels.connected {i : Nat} (h : Relabels bridge b k t t') (hk : t.count ≤ k)
    (hi : t'.Connected i) :
    t.Connected i ∧ (t'.dev i).address = (t.dev i).address ∧
      ((t.dev i).parentBridge = some bridge → b.newSecondary = b.oldSecondary) := by
  obtain ⟨hlt, hconn⟩ := hi
  rw [h.count] at hlt
  have hsame : (t.dev i).parentBridge = some bridge → b.newSecondary = b.oldSecondary := by
    intro hp
    by_contra hne
    have hdis := h.done i hp hne (Nat.lt_of_lt_of_le hlt hk)
    rw [hconn] at hdis
    cases hdis
  refine ⟨⟨hlt, ?_⟩, ?_, hsame⟩
  · cases hdis : (t.dev i).disconnect with
    | false => rfl
    | true =>
      rw [h.mono i hdis] at hconn
      cases hconn
  · rw [h.dev i, if_neg fun hc => hc.2.1 (hsame hc.1)]

theorem setBridge_count (t : Topology) (busNo : BitVec 8) (bridge : Nat) :
    (t.setBridgeFromBusNo busNo bridge).count = t.count := by
  unfold Topology.setBridgeFromBusNo
  split <;> rfl

theorem setBridge_dev (t : Topology) (busNo : BitVec 8) (bridge : Nat) :
    (t.setBridgeFromBusNo busNo bridge).dev = t.dev := by
  unfold Topology.setBridgeFromBusNo
  split <;> rfl

/-- The table refers to the bridges that it did, and to this one. -/
theorem setBridge_table {busNo n : BitVec 8} {p : Nat}
    (h : (t.setBridgeFromBusNo busNo bridge).bridgeFromBusNo n = some p) :
    t.bridgeFromBusNo n = some p ∨ p = bridge := by
  unfold Topology.setBridgeFromBusNo at h
  split at h
  case isTrue => exact .inl h
  case isFalse =>
    by_cases hn : n = busNo
    · subst hn
      simp only [Function.update_self, Option.some.injEq] at h
      exact .inr h.symm
    · simp only [Function.update_of_ne hn] at h
      exact .inl h

theorem setBusNumbers_count (bridge : Nat) (b : BusChange) (t : Topology) :
    (setBusNumbers bridge b t).count = t.count := setBridge_count t _ bridge

/-- Only the bridge's own numbers are changed at the end. -/
theorem setBusNumbers_dev (bridge : Nat) (b : BusChange) (t : Topology) (i : Nat) :
    (setBusNumbers bridge b t).dev i = { t.dev i with
      bridge := if i = bridge then
          { (t.dev i).bridge with
            secondaryBusNo := b.newSecondary
            subordinateBusNo := b.newSubordinate }
        else (t.dev i).bridge } := by
  unfold setBusNumbers
  by_cases hi : i = bridge
  · rw [hi, modify_dev_self, setBridge_dev, if_pos rfl]
  · rw [modify_dev_ne _ hi, setBridge_dev, if_neg hi]

/-- The invariant after the loop over the devices and the new numbers. -/
theorem TopoInv.relabelled (h : TopoInv t) (hb : bridge < t.count)
    (hold : (t.dev bridge).bridge.secondaryBusNo = b.oldSecondary)
    (hrel : Relabels bridge b t.count t t') : TopoInv (setBusNumbers bridge b t') := by
  have hconn : ∀ i, (setBusNumbers bridge b t').Connected i → t'.Connected i := by
    rintro i ⟨hlt, hdis⟩
    rw [setBusNumbers_dev] at hdis
    rw [setBusNumbers_count] at hlt
    exact ⟨hlt, hdis⟩
  have haddr : ∀ i, ((setBusNumbers bridge b t').dev i).address = (t'.dev i).address := by
    intro i
    rw [setBusNumbers_dev]
  have hparent : ∀ i, ((setBusNumbers bridge b t').dev i).parentBridge =
      (t.dev i).parentBridge := by
    intro i
    rw [setBusNumbers_dev, hrel.dev i]
  refine ⟨⟨fun i j hi hj heq => ?_, fun i p hi hp => ?_⟩, ⟨fun i p hi hp => ?_, fun n p hp => ?_⟩⟩
  · obtain ⟨hi', hai, -⟩ := hrel.connected (Nat.le_refl _) (hconn i hi)
    obtain ⟨hj', haj, -⟩ := hrel.connected (Nat.le_refl _) (hconn j hj)
    rw [haddr, haddr, hai, haj] at heq
    exact h.consistent.unique i j hi' hj' heq
  · obtain ⟨hi', hai, hsame⟩ := hrel.connected (Nat.le_refl _) (hconn i hi)
    rw [hparent] at hp
    have hbus := h.consistent.busNo i p hi' hp
    rw [haddr, hai, hbus, setBusNumbers_dev, hrel.dev p]
    by_cases hpb : p = bridge
    · subst hpb
      rw [if_pos rfl, hsame hp, hold]
    · rw [if_neg hpb]
  · rw [hparent] at hp
    rw [setBusNumbers_count, hrel.count] at hi ⊢
    exact h.inRange.parent i p hi hp
  · rw [setBusNumbers_count, hrel.count]
    rcases setBridge_table hp with hold | rfl
    · rw [hrel.table] at hold
      exact h.inRange.table n p hold
    · exact hb

/-- A write to the configuration space of a bridge does not panic, and keeps the invariant. -/
theorem TopoInv.bridgeWrite (h : TopoInv t) (hb : bridge < t.count) (offset size : Nat)
    (data : Nat → BitVec 8) :
    ∃ t', pciHandleBridgeConfigWrite bridge offset size data t = .ok t' ∧ TopoInv t' := by
  have hold : (t.dev bridge).bridge.secondaryBusNo =
    ((t.dev bridge).bridge.busChange offset size data).oldSecondary := rfl
  unfold pciHandleBridgeConfigWrite
  generalize (t.dev bridge).bridge.busChange offset size data = b at hold ⊢
  simp only
  split
  case isTrue => exact ⟨t, rfl, h⟩
  case isFalse =>
    obtain ⟨t₁, hrun, hrel⟩ := relabels_loop h.consistent hold (Nat.le_refl t.count)
    rw [hrun]
    exact ⟨_, rfl, h.relabelled hb hold hrel⟩

end BridgeWrite

/-! ### An access -/

section Access

variable {t : Topology} {acc : ConfigAccess} {i : Nat}

/-- A device's copy of its registers and its driver do not matter. -/
theorem TopoInv.modify (h : TopoInv t) (f : TopoDevice → TopoDevice)
    (hf : ∀ d, (f d).address = d.address ∧ (f d).bridge = d.bridge ∧
      (f d).parentBridge = d.parentBridge ∧ (f d).disconnect = d.disconnect) (i : Nat) :
    TopoInv (t.modify i f) := by
  have hdev : ∀ j, ((t.modify i f).dev j).address = (t.dev j).address ∧
      ((t.modify i f).dev j).bridge = (t.dev j).bridge ∧
      ((t.modify i f).dev j).parentBridge = (t.dev j).parentBridge ∧
      ((t.modify i f).dev j).disconnect = (t.dev j).disconnect := by
    intro j
    by_cases hj : j = i
    · rw [hj, modify_dev_self]
      exact hf _
    · rw [modify_dev_ne _ hj]
      exact ⟨rfl, rfl, rfl, rfl⟩
  have hconn : ∀ j, (t.modify i f).Connected j → t.Connected j := fun j hj =>
    ⟨hj.1, (hdev j).2.2.2 ▸ hj.2⟩
  refine ⟨⟨fun j k hj hk heq => ?_, fun j p hj hp => ?_⟩, ⟨fun j p hj hp => ?_, h.inRange.table⟩⟩
  · rw [(hdev j).1, (hdev k).1] at heq
    exact h.consistent.unique j k (hconn j hj) (hconn k hk) heq
  · rw [(hdev j).2.2.1] at hp
    rw [(hdev j).1, (hdev p).2.1]
    exact h.consistent.busNo j p (hconn j hj) hp
  · rw [(hdev j).2.2.1] at hp
    exact h.inRange.parent j p hj hp

theorem TopoInv.found (h : TopoInv t) (hi : i < t.count) : KeepsTopology (found acc i t) := by
  have hcopy : ∀ t', TopoInv t' → TopoInv (t'.modify i fun d => { d with regs32 := acc.copy }) :=
    fun t' h' => h'.modify (fun d => { d with regs32 := acc.copy })
      (fun _ => ⟨rfl, rfl, rfl, rfl⟩) i
  unfold Pci.found
  split
  case isTrue =>
    obtain ⟨t', hrun, ht'⟩ := h.bridgeWrite hi acc.offset acc.size acc.data
    rw [hrun]
    exact hcopy t' ht'
  case isFalse => exact hcopy t h

theorem TopoInv.newDevice (h : TopoInv t) (hi : i < t.count) :
    KeepsTopology (newDevice acc i t) := by
  unfold Pci.newDevice
  split
  case isTrue =>
    exact (h.modify (fun d => { d with driver := true }) (fun _ => ⟨rfl, rfl, rfl, rfl⟩) i).found hi
  case isFalse =>
    exact h.modify (fun d => { d with regs32 := acc.copy }) (fun _ => ⟨rfl, rfl, rfl, rfl⟩) i

theorem reconnected_same (acc : ConfigAccess) (d : TopoDevice) :
    (reconnected acc d).address = d.address ∧ (reconnected acc d).parentBridge = d.parentBridge := by
  unfold reconnected
  split <;> exact ⟨rfl, rfl⟩

/-- A device is reconnected. -/
theorem TopoInv.reconnected (h : TopoInv t) (hunique : ∀ j, t.Connected j →
      (t.dev j).address ≠ (t.dev i).address)
    (hparent : ∀ p, (t.dev i).parentBridge = some p → (t.dev i).address.busNo =
      ((t.modify i (reconnected acc)).dev p).bridge.secondaryBusNo)
    (hchildren : ∀ c, t.Connected c → (t.dev c).parentBridge = some i → (t.dev c).address.busNo =
      ((t.modify i (reconnected acc)).dev i).bridge.secondaryBusNo) :
    TopoInv (t.modify i (reconnected acc)) := by
  have hdev : ∀ j, ((t.modify i (Pci.reconnected acc)).dev j).address = (t.dev j).address ∧
      ((t.modify i (Pci.reconnected acc)).dev j).parentBridge = (t.dev j).parentBridge := by
    intro j
    by_cases hj : j = i
    · rw [hj, modify_dev_self]
      exact reconnected_same acc _
    · rw [modify_dev_ne _ hj]
      exact ⟨rfl, rfl⟩
  have hconn : ∀ j, j ≠ i → (t.modify i (Pci.reconnected acc)).Connected j → t.Connected j := by
    rintro j hj ⟨hlt, hdis⟩
    rw [modify_dev_ne _ hj] at hdis
    exact ⟨hlt, hdis⟩
  refine ⟨⟨fun j k hj hk heq => ?_, fun j p hj hp => ?_⟩, ⟨fun j p hj hp => ?_, h.inRange.table⟩⟩
  · rw [(hdev j).1, (hdev k).1] at heq
    by_cases hji : j = i
    · by_cases hki : k = i
      · rw [hji, hki]
      · exact absurd (hji ▸ heq.symm) (hunique k (hconn k hki hk))
    · by_cases hki : k = i
      · exact absurd (hki ▸ heq) (hunique j (hconn j hji hj))
      · exact h.consistent.unique j k (hconn j hji hj) (hconn k hki hk) heq
  · rw [(hdev j).2] at hp
    rw [(hdev j).1]
    by_cases hji : j = i
    · subst hji
      exact hparent p hp
    · by_cases hpi : p = i
      · subst hpi
        exact hchildren j (hconn j hji hj) hp
      · rw [modify_dev_ne _ hpi]
        exact h.consistent.busNo j p (hconn j hji hj) hp
  · rw [(hdev j).2] at hp
    exact h.inRange.parent j p hj hp

theorem modify_append (t : Topology) (d : TopoDevice) (f : TopoDevice → TopoDevice) :
    (t.append d).modify t.count f = t.append (f d) := by
  unfold Topology.modify Topology.append
  simp only [Function.update_self, Function.update_idem]

theorem append_dev_self (t : Topology) (d : TopoDevice) : (t.append d).dev t.count = d :=
  Function.update_self ..

theorem append_dev_of_lt (d : TopoDevice) (hi : i < t.count) : (t.append d).dev i = t.dev i :=
  Function.update_of_ne (Nat.ne_of_lt hi) ..

/-- The bridge of a new device is one of those before it, and has its bus number. -/
theorem getBridge_append {d : TopoDevice} {busNo : BitVec 8} {p : Nat} (h : InRange t)
    (hp : (t.append d).getBridgeFromBusNo busNo = some p) :
    p < t.count ∧ (t.dev p).bridge.secondaryBusNo = busNo := by
  unfold Topology.getBridgeFromBusNo at hp
  split at hp
  case isTrue => cases hp
  case isFalse =>
    obtain ⟨htable, hsec⟩ := Option.filter_eq_some_iff.mp hp
    have hlt := h.table busNo p htable
    rw [append_dev_of_lt d hlt, Bool.and_eq_true] at hsec
    exact ⟨hlt, of_decide_eq_true hsec.2⟩

/-- A new device is put at the end of the list. -/
theorem TopoInv.append (h : TopoInv t) (d : TopoDevice)
    (hunique : ∀ j, t.Connected j → (t.dev j).address ≠ d.address)
    (hparent : ∀ p, d.parentBridge = some p →
      p < t.count ∧ (t.dev p).bridge.secondaryBusNo = d.address.busNo) :
    TopoInv (t.append d) := by
  have hcases : ∀ j, (t.append d).Connected j → t.Connected j ∨ j = t.count := by
    rintro j ⟨hlt, hdis⟩
    rcases Nat.lt_succ_iff_lt_or_eq.mp hlt with hj | hj
    · rw [append_dev_of_lt d hj] at hdis
      exact .inl ⟨hj, hdis⟩
    · exact .inr hj
  refine ⟨⟨fun j k hj hk heq => ?_, fun j p hj hp => ?_⟩, ⟨fun j p hj hp => ?_, fun n p hp => ?_⟩⟩
  · rcases hcases j hj with hj | rfl
    · rcases hcases k hk with hk | rfl
      · rw [append_dev_of_lt d hj.1, append_dev_of_lt d hk.1] at heq
        exact h.consistent.unique j k hj hk heq
      · rw [append_dev_of_lt d hj.1, append_dev_self] at heq
        exact absurd heq (hunique j hj)
    · rcases hcases k hk with hk | rfl
      · rw [append_dev_of_lt d hk.1, append_dev_self] at heq
        exact absurd heq.symm (hunique k hk)
      · rfl
  · rcases hcases j hj with hj | rfl
    · rw [append_dev_of_lt d hj.1] at hp ⊢
      rw [append_dev_of_lt d (h.inRange.parent j p hj.1 hp)]
      exact h.consistent.busNo j p hj hp
    · rw [append_dev_self] at hp ⊢
      obtain ⟨hlt, hbus⟩ := hparent p hp
      rw [append_dev_of_lt d hlt]
      exact hbus.symm
  · change p < t.count + 1
    rcases Nat.lt_succ_iff_lt_or_eq.mp hj with hlt | rfl
    · rw [append_dev_of_lt d hlt] at hp
      exact Nat.lt_succ_of_lt (h.inRange.parent j p hlt hp)
    · rw [append_dev_self] at hp
      exact Nat.lt_succ_of_lt (hparent p hp).1
  · exact Nat.lt_succ_of_lt (h.inRange.table n p hp)

theorem TopoInv.possibleNewDevice (h : TopoInv t)
    (hunique : acc.data0 &&& 0xFFFF ≠ 0xFFFF →
      ∀ j, t.Connected j → (t.dev j).address ≠ acc.address) :
    KeepsTopology (pciPossibleNewDevice acc t) := by
  unfold pciPossibleNewDevice
  split
  case isTrue => exact h
  case isFalse hdata =>
    simp only
    rw [modify_append]
    refine TopoInv.newDevice (h.append _ (hunique hdata) fun p hp => ?_) (Nat.lt_succ_self _)
    exact getBridge_append h.inRange hp

theorem TopoInv.reconnectDevice (h : TopoInv t) (hi : i < t.count)
    (hto : acc.isTo (t.dev i) = true) (hdis : (t.dev i).disconnect = true)
    (hsearch : acc.search t = some i) (hfits : AccessFits t acc) :
    KeepsTopology (pciReconnectDevice acc i t) := by
  unfold pciReconnectDevice
  split
  case isTrue => exact h
  case isFalse hdata =>
    have hcond := hfits hdata
    rw [hsearch] at hcond
    obtain ⟨hunique, hparent, hchildren⟩ := hcond hto hdis
    have hrec := h.reconnected hunique hparent hchildren
    split
    · exact hrec.found hi
    · split
      · exact rfl
      · exact hrec.newDevice hi

theorem search_lt (h : acc.search t = some i) : i < t.count :=
  List.mem_range.mp (List.mem_of_find?_eq_some h)

/-- What an access keeps. -/
theorem TopoInv.configAccess (h : TopoInv t) (hfits : AccessFits t acc) :
    KeepsTopology (configAccess t acc) := by
  unfold Pci.configAccess
  cases hsearch : acc.search t with
  | none =>
    refine h.possibleNewDevice fun hdata => ?_
    have hcond := hfits hdata
    rw [hsearch] at hcond
    exact hcond
  | some i =>
    simp only
    split
    case isTrue hto =>
      split
      case isTrue hdis => exact h.reconnectDevice (search_lt hsearch) hto hdis hsearch hfits
      case isFalse => exact h.found (search_lt hsearch)
    case isFalse => exact h

end Access

/-! ### The devices at boot -/

section Boot

variable {hw : Hardware}

theorem allNumbers_nodup (w : Nat) : (allNumbers w).Nodup := by
  unfold allNumbers
  refine (List.nodup_finRange _).map fun a b hab => ?_
  exact congrArg BitVec.toFin hab

/-- The functions of a device that are found are among those that are looked for, in order. -/
theorem scanFuncs_sublist (hw : Hardware) (bn : BitVec 8) (dn : BitVec 5) (fns : List (BitVec 3)) :
    ((scanFuncs hw bn dn fns).map Prod.fst).Sublist (fns.map fun fn => ⟨bn, dn, fn⟩) := by
  induction fns with
  | nil => exact List.Sublist.refl _
  | cons fn fns ih =>
    unfold scanFuncs
    split
    · exact ih.cons _
    · split
      · exact (List.nil_sublist _).cons_cons _
      · exact ih.cons_cons _

/-- All addresses, in the order of the loops. -/
def allAddresses : List Bdf :=
  (allNumbers 8).flatMap fun bn => (allNumbers 5).flatMap fun dn =>
    (allNumbers 3).map fun fn => ⟨bn, dn, fn⟩

theorem flatMap_sublist {α β : Type} {f g : α → List β} (l : List α)
    (h : ∀ a, (f a).Sublist (g a)) : (l.flatMap f).Sublist (l.flatMap g) := by
  induction l with
  | nil => exact List.Sublist.refl _
  | cons a l ih => exact (h a).append ih

theorem scan_sublist (hw : Hardware) : ((scan hw).map Prod.fst).Sublist allAddresses := by
  unfold scan allAddresses
  rw [List.map_flatMap]
  refine flatMap_sublist _ fun bn => ?_
  rw [List.map_flatMap]
  exact flatMap_sublist _ fun dn => scanFuncs_sublist hw bn dn _

theorem allAddresses_nodup : allAddresses.Nodup := by
  unfold allAddresses
  refine List.nodup_flatMap.mpr ⟨fun bn _ => List.nodup_flatMap.mpr ⟨fun dn _ => ?_, ?_⟩, ?_⟩
  · exact (allNumbers_nodup 3).map fun a b hab => congrArg Bdf.funcNo hab
  · refine (allNumbers_nodup 5).imp fun {a b} hab x hx hy => hab ?_
    obtain ⟨fn, -, rfl⟩ := List.mem_map.mp hx
    obtain ⟨fn', -, heq⟩ := List.mem_map.mp hy
    exact (congrArg Bdf.deviceNo heq).symm
  · refine (allNumbers_nodup 8).imp fun {a b} hab x hx hy => hab ?_
    obtain ⟨dn, -, hx⟩ := List.mem_flatMap.mp hx
    obtain ⟨dn', -, hy⟩ := List.mem_flatMap.mp hy
    obtain ⟨fn, -, rfl⟩ := List.mem_map.mp hx
    obtain ⟨fn', -, heq⟩ := List.mem_map.mp hy
    exact (congrArg Bdf.busNo heq).symm

/-- No two of the devices that are found have one address. -/
theorem bootDevices_unique {i j : Nat} (hi : i < (bootDevices hw).count)
    (hj : j < (bootDevices hw).count)
    (heq : ((bootDevices hw).dev i).address = ((bootDevices hw).dev j).address) : i = j := by
  have hnodup : ((scan hw).map Prod.fst).Nodup := (scan_sublist hw).nodup allAddresses_nodup
  have haddr : ∀ k, k < (scan hw).length →
      ((scan hw).map Prod.fst)[k]? = some ((bootDevices hw).dev k).address := by
    intro k hk
    unfold bootDevices
    simp only [List.getElem?_map, List.getElem?_eq_getElem hk, Option.map_some]
    rfl
  have hlen : i < ((scan hw).map Prod.fst).length := by rwa [List.length_map]
  refine (List.getElem?_inj hlen hnodup).mp ?_
  rw [haddr i hi, haddr j hj, heq]

/-- The table of the bridges at boot. -/
theorem bootBridges_spec (t : Topology) (ht : ∀ n p, t.bridgeFromBusNo n = some p → p < t.count) :
    (bootBridges t).count = t.count ∧ (bootBridges t).dev = t.dev ∧
      ∀ n p, (bootBridges t).bridgeFromBusNo n = some p → p < t.count := by
  have hloop : ∀ (l : List Nat) (t' : Topology), (∀ i ∈ l, i < t'.count) →
      (∀ n p, t'.bridgeFromBusNo n = some p → p < t'.count) →
      let t'' := l.foldl (fun t i => if (t.dev i).bridge.yes then
        t.setBridgeFromBusNo (t.dev i).bridge.secondaryBusNo i else t) t'
      t''.count = t'.count ∧ t''.dev = t'.dev ∧
        ∀ n p, t''.bridgeFromBusNo n = some p → p < t'.count := by
    intro l
    induction l with
    | nil => exact fun t' _ h => ⟨rfl, rfl, h⟩
    | cons i l ih =>
      intro t' hl h
      rw [List.foldl_cons]
      by_cases hyes : (t'.dev i).bridge.yes = true
      · rw [if_pos hyes]
        have hcount := setBridge_count t' (t'.dev i).bridge.secondaryBusNo i
        obtain ⟨h1, h2, h3⟩ := ih (t'.setBridgeFromBusNo (t'.dev i).bridge.secondaryBusNo i)
          (fun j hj => hcount ▸ hl j (List.mem_cons_of_mem i hj)) (fun n p hp => by
            rw [hcount]
            rcases setBridge_table hp with hold | rfl
            · exact h n p hold
            · exact hl p List.mem_cons_self)
        rw [hcount] at h1 h3
        rw [setBridge_dev] at h2
        exact ⟨h1, h2, h3⟩
      · rw [if_neg hyes]
        exact ih t' (fun j hj => hl j (List.mem_cons_of_mem i hj)) h
  exact hloop (List.range t.count) t (fun i hi => List.mem_range.mp hi) ht

/-- The last loop of `pci_find_devices`, over any table of devices. -/
theorem topoInv_parents {t : Topology}
    (hunique : ∀ i j, i < t.count → j < t.count → (t.dev i).address = (t.dev j).address → i = j)
    (htable : ∀ n p, t.bridgeFromBusNo n = some p → p < t.count) (drivers : Bdf → Bool) :
    TopoInv { t with dev := fun i => { t.dev i with
      parentBridge := t.getBridgeFromBusNo (t.dev i).address.busNo
      driver := drivers (t.dev i).address } } := by
  have hparent : ∀ i p, t.getBridgeFromBusNo (t.dev i).address.busNo = some p →
      p < t.count ∧ (t.dev i).address.busNo = (t.dev p).bridge.secondaryBusNo := by
    intro i p hp
    unfold Topology.getBridgeFromBusNo at hp
    split at hp
    case isTrue => cases hp
    case isFalse =>
      obtain ⟨hp, hsec⟩ := Option.filter_eq_some_iff.mp hp
      rw [Bool.and_eq_true] at hsec
      exact ⟨htable _ p hp, (of_decide_eq_true hsec.2).symm⟩
  exact ⟨⟨fun i j hi hj heq => hunique i j hi.1 hj.1 heq, fun i p _ hp => (hparent i p hp).2⟩,
    ⟨fun i p _ hp => (hparent i p hp).1, htable⟩⟩

theorem topoInv_pciFindDevices (hw : Hardware) (drivers : Bdf → Bool) :
    TopoInv (pciFindDevices hw drivers) := by
  obtain ⟨hcount, hdev, htable⟩ := bootBridges_spec (bootDevices hw) fun n p hp => by cases hp
  unfold pciFindDevices
  refine topoInv_parents (fun i j hi hj heq => ?_) (fun n p hp => ?_) drivers
  · rw [hcount] at hi hj
    rw [hdev] at heq
    exact bootDevices_unique hi hj heq
  · rw [hcount]
    exact htable n p hp

end Boot

/-! ### Runs -/

theorem topoInv_of_reachable {t : Topology} (h : pciMachine.ReachableWhen AccessFits t) :
    TopoInv t := by
  refine h.invariant ?_ fun t acc t' hinv hfits hstep => ?_
  · rintro t ⟨hw, drivers, rfl⟩
    exact topoInv_pciFindDevices hw drivers
  · have hkeeps := hinv.configAccess hfits
    change (configAccess t acc).toOption = some t' at hstep
    cases hrun : configAccess t acc with
    | error e =>
      rw [hrun] at hstep
      cases hstep
    | ok t'' =>
      rw [hrun] at hstep hkeeps
      cases hstep
      exact hkeeps

theorem scan_none : scan (fun _ => none) = [] := by
  have hfuncs : ∀ bn dn fns, scanFuncs (fun _ => none) bn dn fns = [] := by
    intro bn dn fns
    induction fns with
    | nil => rfl
    | cons fn fns ih => exact ih
  simp [scan, hfuncs]

/-- A read of register 0 of the device 00:00.0, which answers. -/
def readFirst (mmio : Bool) : ConfigAccess where
  mmio := mmio
  address := ⟨0, 0, 0⟩
  write := false
  offset := 0
  size := 4
  data _ := 0
  data0 := 0x12378086
  data8 := 0
  regs32 _ := 0
  driver := false
  copy _ := 0

/-- The device that it finds, with the bit `allow` of the ports only. -/
def firstFound (mmio : Bool) : TopoDevice := pciNewTopoDevice ⟨0, 0, 0⟩ (!mmio) fun _ => 0

/-- A read that comes to no device of the list adds one. -/
theorem readFirst_step (t : Topology) (mmio : Bool) (h : (readFirst mmio).search t = none) :
    pciMachine.step t (readFirst mmio) = some (t.append (firstFound mmio)) := by
  have hbridge : ∀ t' : Topology, t'.getBridgeFromBusNo 0 = none := fun _ => rfl
  have hnew : pciPossibleNewDevice (readFirst mmio) t = .ok (t.append (firstFound mmio)) := by
    unfold pciPossibleNewDevice newDevice
    simp only [modify_append, hbridge, readFirst]
    rfl
  change (configAccess t (readFirst mmio)).toOption = _
  rw [configAccess, h]
  change (pciPossibleNewDevice (readFirst mmio) t).toOption = _
  exact congrArg Except.toOption hnew

theorem pciFindDevices_count (hw : Hardware) (drivers : Bdf → Bool) :
    (pciFindDevices hw drivers).count = (scan hw).length := by
  unfold pciFindDevices
  exact (bootBridges_spec (bootDevices hw) fun n p hp => by cases hp).1

/-- A machine without devices. -/
theorem init_none : ∃ t, pciMachine.init t ∧ t.count = 0 := by
  refine ⟨pciFindDevices (fun _ => none) fun _ => false, ⟨_, _, rfl⟩, ?_⟩
  rw [pciFindDevices_count, scan_none, List.length_nil]

end OnDemandVirt.Pci
