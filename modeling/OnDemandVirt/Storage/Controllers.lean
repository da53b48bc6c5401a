import Mathlib.Data.List.Basic
import Mathlib.Data.List.Nodup
import Mathlib.Data.List.Infix
import Mathlib.Data.List.Perm.Basic

/-!
# Registered storage controllers

`storage_hc_register`, `storage_hc_unregister` and `storage_io_get_num_devices` in
`storage/storage_io.c`. A controller gets the smallest index that no registered controller has,
and `driver_list` is kept in the order of the indexes. What a controller answers about its devices
is read from its driver's data, which is in memory: the driver's functions take the memory.
-/

namespace OnDemandVirt.Storage

/-- `struct storage_hc_driver_func`; `scandev` is what it calls back with, one after the other. -/
structure StorageHcDriverFunc (M D : Type) where
  scandev : M → D → (portNo : Nat) → List Int
  openable : M → D → (portNo : Nat) → (devNo : Int) → Bool

/-- `struct storage_hc_driver`; `ptr` is its address and `numPorts` is `addr.num_ports`. -/
structure StorageHcDriver (M D : Type) where
  ptr : Nat
  index : Nat
  numPorts : Int
  func : StorageHcDriverFunc M D
  drvdata : D

/-- `struct storage_io_devices`, with the driver behind `hc` and the numbers in `dev`. -/
structure StorageIoDevices where
  devno : Nat
  driver : Nat
  portNo : Nat
  devNo : Int
  deriving DecidableEq

/-- The variables of `storage_io.c`. -/
structure StorageIo (M D : Type) where
  driverList : List (StorageHcDriver M D)
  numDriver : Nat
  storageIoId : Int
  ioDevList : List StorageIoDevices

variable {M D : Type}

/-! ### The functions -/

/-- The loop of `storage_hc_register` and its `LIST1_INSERT`, from the driver at which the loop
stands with `index`. -/
def insertDriver (newDriver : (index : Nat) → StorageHcDriver M D) (index : Nat) :
    List (StorageHcDriver M D) → List (StorageHcDriver M D)
  | [] => [newDriver index]
  | driver :: rest =>
    if index ≠ driver.index then newDriver index :: driver :: rest
    else driver :: insertDriver newDriver (index + 1) rest

/-- `storage_hc_register`; `ptr` is what `alloc` returns. -/
def storageHcRegister (ptr : Nat) (numPorts : Int) (func : StorageHcDriverFunc M D) (data : D)
    (s : StorageIo M D) : StorageIo M D :=
  { s with
    driverList := insertDriver (fun index => ⟨ptr, index, numPorts, func, data⟩) 0 s.driverList
    numDriver := s.numDriver + 1 }

/-- `storage_hc_unregister`. -/
def storageHcUnregister (ptr : Nat) (s : StorageIo M D) : StorageIo M D :=
  { s with
    driverList := s.driverList.filter fun driver => driver.ptr ≠ ptr
    numDriver := s.numDriver - 1 }

/-- `storage_io_init`. -/
def storageIoInit (s : StorageIo M D) : StorageIo M D :=
  { s with storageIoId := s.storageIoId + 1 }

/-- `storage_hc_open`. -/
def storageHcOpen (index : Nat) (s : StorageIo M D) : Option (StorageHcDriver M D) :=
  s.driverList.find? fun driver => index = driver.index

/-- `storage_io_get_num_devices_sub`, on `*d->r` and the list. -/
def storageIoGetNumDevicesSub (mem : M) (hc : StorageHcDriver M D) (portNo : Nat)
    (acc : Nat × List StorageIoDevices) (devNo : Int) : Nat × List StorageIoDevices :=
  if hc.func.openable mem hc.drvdata portNo devNo then
    (acc.1 + 1, acc.2 ++ [⟨acc.1, hc.ptr, portNo, devNo⟩])
  else acc

/-- The loop over the ports of a controller. -/
def scanPorts (mem : M) (hc : StorageHcDriver M D) (acc : Nat × List StorageIoDevices) :
    Nat × List StorageIoDevices :=
  (List.range hc.numPorts.toNat).foldl
    (fun acc j => (hc.func.scandev mem hc.drvdata j).foldl (storageIoGetNumDevicesSub mem hc j) acc)
    acc

/-- The loop over the indexes. -/
def scanIndexes (mem : M) (s : StorageIo M D) (n : Nat) : Nat × List StorageIoDevices :=
  (List.range n).foldl
    (fun acc i => match storageHcOpen i s with
      | none => acc
      | some hc => scanPorts mem hc acc)
    (0, [])

/-- `storage_io_get_num_devices`; the list is empty after `storage_io_closeall`. -/
def storageIoGetNumDevices (mem : M) (id : Int) (s : StorageIo M D) : Int × StorageIo M D :=
  if s.storageIoId ≠ id then (-1, s)
  else
    let res := scanIndexes mem s s.numDriver
    (res.1, { s with ioDevList := res.2 })

/-! ### Runs -/

/-- The calls. -/
inductive StorageCall (M D : Type)
  | register (ptr : Nat) (numPorts : Int) (func : StorageHcDriverFunc M D) (data : D)
  | unregister (ptr : Nat)
  | init
  | getNumDevices (mem : M) (id : Int)

/-- A call: `alloc` does not return memory that is in use, and a driver's caller gives its driver
back once. -/
inductive StorageStep : StorageIo M D → StorageCall M D → StorageIo M D → Prop
  | register {s : StorageIo M D} (ptr : Nat) (numPorts : Int) (func : StorageHcDriverFunc M D)
      (data : D) (fresh : ∀ driver ∈ s.driverList, driver.ptr ≠ ptr) :
      StorageStep s (.register ptr numPorts func data) (storageHcRegister ptr numPorts func data s)
  | unregister {s : StorageIo M D} (ptr : Nat)
      (registered : ∃ driver ∈ s.driverList, driver.ptr = ptr) :
      StorageStep s (.unregister ptr) (storageHcUnregister ptr s)
  | init (s : StorageIo M D) : StorageStep s .init (storageIoInit s)
  | getNumDevices (s : StorageIo M D) (mem : M) (id : Int) :
      StorageStep s (.getNumDevices mem id) (storageIoGetNumDevices mem id s).2

/-- The calls of a list, one after the other. -/
inductive StorageRun : StorageIo M D → List (StorageCall M D) → StorageIo M D → Prop
  | nil (s : StorageIo M D) : StorageRun s [] s
  | cons {s t u : StorageIo M D} {call : StorageCall M D} {calls : List (StorageCall M D)}
      (step : StorageStep s call t) (rest : StorageRun t calls u) : StorageRun s (call :: calls) u

/-- Before the first call. -/
def StorageIo.initial : StorageIo M D where
  driverList := []
  numDriver := 0
  storageIoId := 0
  ioDevList := []

/-! ### The list of drivers -/

/-- The indexes ascend, the addresses differ, and `num_driver` counts the drivers. -/
structure DriversInv (s : StorageIo M D) : Prop where
  sorted : s.driverList.Pairwise fun a b => a.index < b.index
  apart : (s.driverList.map (·.ptr)).Nodup
  count : s.numDriver = s.driverList.length

theorem mem_insertDriver {newDriver : Nat → StorageHcDriver M D} {driver : StorageHcDriver M D}
    {l : List (StorageHcDriver M D)} {index : Nat} (h : driver ∈ l) :
    driver ∈ insertDriver newDriver index l := by
  induction l generalizing index with
  | nil => cases h
  | cons a l ih =>
    unfold insertDriver
    split
    · exact List.mem_cons_of_mem _ h
    · rcases List.mem_cons.1 h with rfl | h
      · exact List.mem_cons_self
      · exact List.mem_cons_of_mem _ (ih h)

theorem insertDriver_perm (newDriver : Nat → StorageHcDriver M D)
    (l : List (StorageHcDriver M D)) (index : Nat) :
    ∃ i, (insertDriver newDriver index l).Perm (newDriver i :: l) := by
  induction l generalizing index with
  | nil => exact ⟨index, .refl _⟩
  | cons a l ih =>
    unfold insertDriver
    split
    · exact ⟨index, .refl _⟩
    · obtain ⟨i, hi⟩ := ih (index + 1)
      exact ⟨i, (hi.cons a).trans (.swap _ _ _)⟩

/-- The new index is at least the one the loop stands with, as all that follow are. -/
theorem insertDriver_sorted {newDriver : Nat → StorageHcDriver M D}
    (hnew : ∀ i, (newDriver i).index = i) {l : List (StorageHcDriver M D)} {index : Nat}
    (sorted : l.Pairwise fun a b => a.index < b.index) (above : ∀ a ∈ l, index ≤ a.index) :
    (insertDriver newDriver index l).Pairwise (fun a b => a.index < b.index) ∧
      ∀ a ∈ insertDriver newDriver index l, index ≤ a.index := by
  induction l generalizing index with
  | nil => simp [insertDriver, hnew]
  | cons a l ih =>
    obtain ⟨ha, hl⟩ := List.pairwise_cons.1 sorted
    have hia : index ≤ a.index := above a List.mem_cons_self
    unfold insertDriver
    split
    case isTrue hne =>
      have hlt : index < a.index := by omega
      have hall : ∀ b ∈ a :: l, index < b.index := by
        intro b hb
        rcases List.mem_cons.1 hb with rfl | hb
        · exact hlt
        · exact hlt.trans (ha b hb)
      refine ⟨List.pairwise_cons.2 ⟨fun b hb => ?_, sorted⟩, fun b hb => ?_⟩
      · rw [hnew]
        exact hall b hb
      · rcases List.mem_cons.1 hb with rfl | hb
        · exact (hnew index).ge
        · exact (hall b hb).le
    case isFalse heq =>
      have heq' : index = a.index := not_not.1 heq
      have habove : ∀ b ∈ l, index + 1 ≤ b.index := by
        intro b hb
        have := ha b hb
        omega
      obtain ⟨hs, hge⟩ := ih hl habove
      refine ⟨List.pairwise_cons.2 ⟨fun b hb => ?_, hs⟩, fun b hb => ?_⟩
      · have := hge b hb
        omega
      · rcases List.mem_cons.1 hb with rfl | hb
        · exact hia
        · have := hge b hb
          omega

theorem DriversInv.initial : DriversInv (StorageIo.initial : StorageIo M D) :=
  ⟨List.Pairwise.nil, List.nodup_nil, rfl⟩

theorem DriversInv.congr {s t : StorageIo M D} (inv : DriversInv s)
    (list : t.driverList = s.driverList) (num : t.numDriver = s.numDriver) : DriversInv t where
  sorted := list ▸ inv.sorted
  apart := list ▸ inv.apart
  count := by rw [num, list, inv.count]

theorem storageIoGetNumDevices_driverList (mem : M) (id : Int) (s : StorageIo M D) :
    (storageIoGetNumDevices mem id s).2.driverList = s.driverList := by
  unfold storageIoGetNumDevices
  split <;> rfl

theorem storageIoGetNumDevices_numDriver (mem : M) (id : Int) (s : StorageIo M D) :
    (storageIoGetNumDevices mem id s).2.numDriver = s.numDriver := by
  unfold storageIoGetNumDevices
  split <;> rfl

theorem DriversInv.register {s : StorageIo M D} (inv : DriversInv s) {ptr : Nat}
    (fresh : ∀ driver ∈ s.driverList, driver.ptr ≠ ptr) (numPorts : Int)
    (func : StorageHcDriverFunc M D) (data : D) :
    DriversInv (storageHcRegister ptr numPorts func data s) := by
  obtain ⟨i, hperm⟩ := insertDriver_perm
    (fun index => (⟨ptr, index, numPorts, func, data⟩ : StorageHcDriver M D)) s.driverList 0
  refine ⟨?_, ?_, ?_⟩
  · exact (insertDriver_sorted (fun i => rfl) inv.sorted fun a _ => Nat.zero_le _).1
  · refine (hperm.map (·.ptr)).nodup_iff.2 ?_
    rw [List.map_cons, List.nodup_cons]
    refine ⟨fun hmem => ?_, inv.apart⟩
    obtain ⟨driver, hdriver, heq⟩ := List.mem_map.1 hmem
    exact fresh driver hdriver heq
  · change s.numDriver + 1 = (insertDriver _ 0 s.driverList).length
    rw [hperm.length_eq, List.length_cons, inv.count]

/-- One driver has the address that is given back. -/
theorem length_filter_ptr {l : List (StorageHcDriver M D)} {ptr : Nat}
    (apart : (l.map (·.ptr)).Nodup) (registered : ∃ driver ∈ l, driver.ptr = ptr) :
    (l.filter fun driver => driver.ptr ≠ ptr).length = l.length - 1 := by
  induction l with
  | nil => simp at registered
  | cons a l ih =>
    rw [List.map_cons, List.nodup_cons] at apart
    obtain ⟨hnot, hnodup⟩ := apart
    by_cases ha : a.ptr = ptr
    · have hrest : (l.filter fun driver => driver.ptr ≠ ptr) = l := by
        refine List.filter_eq_self.2 fun b hb => ?_
        simp only [ne_eq, decide_not, Bool.not_eq_eq_eq_not, Bool.not_true, decide_eq_false_iff_not]
        rintro rfl
        exact hnot (ha ▸ List.mem_map_of_mem hb)
      rw [List.filter_cons_of_neg (by simp [ha]), hrest, List.length_cons, Nat.add_sub_cancel]
    · have hl : ∃ driver ∈ l, driver.ptr = ptr := by
        obtain ⟨driver, hdriver, hptr⟩ := registered
        rcases List.mem_cons.1 hdriver with rfl | hdriver
        · exact absurd hptr ha
        · exact ⟨driver, hdriver, hptr⟩
      have hpos : 0 < l.length := by
        obtain ⟨driver, hdriver, -⟩ := hl
        exact List.length_pos_of_mem hdriver
      rw [List.filter_cons_of_pos (by simp [ha]), List.length_cons, ih hnodup hl, List.length_cons]
      omega

theorem DriversInv.unregister {s : StorageIo M D} (inv : DriversInv s) {ptr : Nat}
    (registered : ∃ driver ∈ s.driverList, driver.ptr = ptr) :
    DriversInv (storageHcUnregister ptr s) where
  sorted := inv.sorted.sublist List.filter_sublist
  apart := inv.apart.sublist (List.filter_sublist.map _)
  count := by
    change s.numDriver - 1 = _
    rw [inv.count]
    exact (length_filter_ptr inv.apart registered).symm

theorem DriversInv.step {s t : StorageIo M D} {call : StorageCall M D} (inv : DriversInv s)
    (h : StorageStep s call t) : DriversInv t := by
  cases h with
  | register ptr numPorts func data fresh => exact inv.register fresh numPorts func data
  | unregister ptr registered => exact inv.unregister registered
  | init => exact inv.congr rfl rfl
  | getNumDevices mem id =>
    exact inv.congr (storageIoGetNumDevices_driverList mem id s)
      (storageIoGetNumDevices_numDriver mem id s)

theorem DriversInv.run {s t : StorageIo M D} {calls : List (StorageCall M D)}
    (h : StorageRun s calls t) (inv : DriversInv s) : DriversInv t := by
  induction h with
  | nil => exact inv
  | cons step _ ih => exact ih (inv.step step)

/-! ### A driver's lifetime -/

/-- A driver that is not given back stays as it is, its index included. -/
theorem StorageStep.keeps {s t : StorageIo M D} {call : StorageCall M D} (h : StorageStep s call t)
    {driver : StorageHcDriver M D} (hd : driver ∈ s.driverList)
    (hcall : call ≠ .unregister driver.ptr) : driver ∈ t.driverList := by
  cases h with
  | register => exact mem_insertDriver hd
  | unregister ptr =>
    refine List.mem_filter.2 ⟨hd, ?_⟩
    simp only [ne_eq, decide_not, Bool.not_eq_eq_eq_not, Bool.not_true, decide_eq_false_iff_not]
    rintro rfl
    exact hcall rfl
  | init => exact hd
  | getNumDevices mem id => exact (storageIoGetNumDevices_driverList mem id s).symm ▸ hd

theorem StorageRun.keeps {s t : StorageIo M D} {calls : List (StorageCall M D)}
    (h : StorageRun s calls t) {driver : StorageHcDriver M D} (hd : driver ∈ s.driverList)
    (hcalls : .unregister driver.ptr ∉ calls) : driver ∈ t.driverList := by
  induction h with
  | nil => exact hd
  | cons step _ ih =>
    rw [List.mem_cons, not_or] at hcalls
    exact ih (step.keeps hd (Ne.symm hcalls.1)) hcalls.2

/-! ### The enumeration -/

/-- A device: its controller's address, its port and its number. -/
abbrev Device := Nat × Nat × Int

/-- The device an entry of the list is for. -/
def StorageIoDevices.device (d : StorageIoDevices) : Device := (d.driver, d.portNo, d.devNo)

/-- The openable devices at a port. -/
def StorageHcDriver.portDevices (mem : M) (hc : StorageHcDriver M D) (portNo : Nat) : List Device :=
  ((hc.func.scandev mem hc.drvdata portNo).filter
    (hc.func.openable mem hc.drvdata portNo)).map fun devNo => (hc.ptr, portNo, devNo)

/-- The openable devices of a controller. -/
def StorageHcDriver.devices (mem : M) (hc : StorageHcDriver M D) : List Device :=
  (List.range hc.numPorts.toNat).flatMap (hc.portDevices mem)

/-- The openable devices of all registered controllers. -/
def StorageIo.devices (mem : M) (s : StorageIo M D) : List Device :=
  s.driverList.flatMap (·.devices mem)

/-- `devno` counts the entries of the list. -/
def Counted (acc : Nat × List StorageIoDevices) : Prop := acc.2.map (·.devno) = List.range acc.1

/-- What a part of the enumeration adds: these devices, numbered on. -/
def Appends (f : Nat × List StorageIoDevices → Nat × List StorageIoDevices) (l : List Device) :
    Prop :=
  ∀ acc, (Counted acc → Counted (f acc)) ∧
    (f acc).2.map (·.device) = acc.2.map (·.device) ++ l

theorem Appends.foldl {A : Type} {f : Nat × List StorageIoDevices → A → Nat × List StorageIoDevices}
    {g : A → List Device} (h : ∀ a, Appends (fun acc => f acc a) (g a)) (l : List A) :
    Appends (fun acc => l.foldl f acc) (l.flatMap g) := by
  induction l with
  | nil => exact fun acc => ⟨id, by simp⟩
  | cons a l ih =>
    intro acc
    obtain ⟨hcount, hmap⟩ := h a acc
    obtain ⟨hcount', hmap'⟩ := ih (f acc a)
    refine ⟨fun hc => hcount' (hcount hc), ?_⟩
    simp only at hmap hmap'
    rw [List.flatMap_cons, ← List.append_assoc, ← hmap, ← hmap']
    rfl

theorem storageIoGetNumDevicesSub_appends (mem : M) (hc : StorageHcDriver M D) (portNo : Nat)
    (devNo : Int) :
    Appends (fun acc => storageIoGetNumDevicesSub mem hc portNo acc devNo)
      (if hc.func.openable mem hc.drvdata portNo devNo then [(hc.ptr, portNo, devNo)] else []) := by
  intro acc
  unfold storageIoGetNumDevicesSub
  split
  · refine ⟨fun hcount => ?_, by simp [StorageIoDevices.device]⟩
    unfold Counted at hcount ⊢
    simp only [List.map_append, hcount, List.map_cons, List.map_nil, List.range_succ]
  · exact ⟨id, by simp⟩

theorem portDevices_eq_flatMap (mem : M) (hc : StorageHcDriver M D) (portNo : Nat) :
    hc.portDevices mem portNo = (hc.func.scandev mem hc.drvdata portNo).flatMap fun devNo =>
      if hc.func.openable mem hc.drvdata portNo devNo then [(hc.ptr, portNo, devNo)] else [] := by
  unfold StorageHcDriver.portDevices
  induction hc.func.scandev mem hc.drvdata portNo with
  | nil => rfl
  | cons a l ih =>
    rw [List.flatMap_cons, ← ih]
    by_cases ha : hc.func.openable mem hc.drvdata portNo a = true <;> simp [ha]

theorem scanPorts_appends (mem : M) (hc : StorageHcDriver M D) :
    Appends (scanPorts mem hc) (hc.devices mem) := by
  refine Appends.foldl (fun j => ?_) _
  rw [portDevices_eq_flatMap]
  exact Appends.foldl (storageIoGetNumDevicesSub_appends mem hc j) _

/-- The devices of the controller with an index. -/
def StorageIo.devicesAt (mem : M) (s : StorageIo M D) (index : Nat) : List Device :=
  match storageHcOpen index s with
  | none => []
  | some hc => hc.devices mem

theorem scanIndexes_spec (mem : M) (s : StorageIo M D) (n : Nat) :
    Counted (scanIndexes mem s n) ∧
      (scanIndexes mem s n).2.map (·.device) = (List.range n).flatMap (s.devicesAt mem) := by
  have happ : Appends (fun acc => (List.range n).foldl
      (fun acc i => match storageHcOpen i s with
        | none => acc
        | some hc => scanPorts mem hc acc) acc) ((List.range n).flatMap (s.devicesAt mem)) := by
    refine Appends.foldl (fun i => ?_) _
    unfold StorageIo.devicesAt
    cases storageHcOpen i s with
    | none => exact fun acc => ⟨id, by simp⟩
    | some hc => exact scanPorts_appends mem hc
  obtain ⟨hcount, hmap⟩ := happ (0, [])
  exact ⟨hcount rfl, hmap.trans (List.nil_append _)⟩

/-- The driver with the index of the bound comes after those below it. -/
theorem flatMap_filter_succ (mem : M) {l : List (StorageHcDriver M D)}
    (sorted : l.Pairwise fun a b => a.index < b.index) (n : Nat) :
    (l.filter fun driver => driver.index < n + 1).flatMap (·.devices mem) =
      (l.filter fun driver => driver.index < n).flatMap (·.devices mem) ++
        ((l.find? fun driver => n = driver.index).toList.flatMap (·.devices mem)) := by
  induction l with
  | nil => rfl
  | cons a l ih =>
    obtain ⟨ha, hl⟩ := List.pairwise_cons.1 sorted
    rcases Nat.lt_trichotomy a.index n with hlt | heq | hgt
    · have hne : ¬ n = a.index := by omega
      have hlt' : a.index < n + 1 := by omega
      rw [List.filter_cons_of_pos (by simpa using hlt'),
        List.filter_cons_of_pos (by simpa using hlt), List.find?_cons_of_neg (by simpa using hne),
        List.flatMap_cons, List.flatMap_cons, ih hl, List.append_assoc]
    · have hnone : ∀ m, m ≤ n + 1 → (l.filter fun driver => driver.index < m) = [] := by
        intro m hm
        refine List.filter_eq_nil_iff.2 fun b hb => ?_
        have := ha b hb
        simp only [decide_eq_true_eq]
        omega
      rw [List.filter_cons_of_pos (by simp [heq]), List.filter_cons_of_neg (by simp [heq]),
        List.find?_cons_of_pos (by simp [heq]), hnone _ le_rfl, hnone _ (Nat.le_succ n)]
      rfl
    · have hne : ¬ n = a.index := by omega
      have hge : ¬ a.index < n + 1 := by omega
      have hge' : ¬ a.index < n := by omega
      rw [List.filter_cons_of_neg (by simpa using hge),
        List.filter_cons_of_neg (by simpa using hge'), List.find?_cons_of_neg (by simpa using hne)]
      exact ih hl

/-- The indexes below a bound are those of the drivers in front, in the order of the list. -/
theorem flatMap_devicesAt (mem : M) (s : StorageIo M D)
    (sorted : s.driverList.Pairwise fun a b => a.index < b.index) (n : Nat) :
    (List.range n).flatMap (s.devicesAt mem) =
      (s.driverList.filter fun driver => driver.index < n).flatMap (·.devices mem) := by
  induction n with
  | zero => simp
  | succ n ih =>
    rw [List.range_succ, List.flatMap_append, ih, flatMap_filter_succ mem sorted, List.flatMap_cons,
      List.flatMap_nil, List.append_nil]
    unfold StorageIo.devicesAt storageHcOpen
    cases s.driverList.find? fun driver => n = driver.index with
    | none => rfl
    | some hc => exact congrArg _ (List.append_nil _).symm

/-- The call returns the number of openable devices of the registered controllers, and its list
has each of them, numbered from zero. -/
def Enumerates (mem : M) (s : StorageIo M D) : Prop :=
  (storageIoGetNumDevices mem s.storageIoId s).1 = (s.devices mem).length ∧
  (storageIoGetNumDevices mem s.storageIoId s).2.ioDevList.map (·.devno) =
    List.range (s.devices mem).length ∧
  ((storageIoGetNumDevices mem s.storageIoId s).2.ioDevList.map (·.device)).Perm (s.devices mem)

theorem storageIoGetNumDevices_self (mem : M) (s : StorageIo M D) :
    storageIoGetNumDevices mem s.storageIoId s =
      (((scanIndexes mem s s.numDriver).1 : Int),
        { s with ioDevList := (scanIndexes mem s s.numDriver).2 }) := by
  unfold storageIoGetNumDevices
  rw [if_neg (not_not.2 rfl)]

/-- A device names its controller. -/
theorem fst_of_mem_devices {mem : M} {hc : StorageHcDriver M D} {d : Device}
    (h : d ∈ hc.devices mem) : d.1 = hc.ptr := by
  obtain ⟨j, -, hj⟩ := List.mem_flatMap.1 h
  obtain ⟨devNo, -, rfl⟩ := List.mem_map.1 hj
  rfl

/-- Leaving drivers without devices out leaves no device out. -/
theorem flatMap_filter_of_below {mem : M} {n : Nat} {l : List (StorageHcDriver M D)}
    (below : ∀ driver ∈ l, driver.devices mem ≠ [] → driver.index < n) :
    (l.filter fun driver => driver.index < n).flatMap (·.devices mem) =
      l.flatMap (·.devices mem) := by
  induction l with
  | nil => rfl
  | cons a l ih =>
    have ih := ih fun driver hd => below driver (List.mem_cons_of_mem _ hd)
    by_cases ha : a.index < n
    · rw [List.filter_cons_of_pos (by simpa using ha), List.flatMap_cons, ih, List.flatMap_cons]
    · have hempty : a.devices mem = [] := by
        by_contra hne
        exact ha (below a List.mem_cons_self hne)
      rw [List.filter_cons_of_neg (by simpa using ha), List.flatMap_cons, ih, hempty,
        List.nil_append]

theorem enumerates_of_below {mem : M} {s : StorageIo M D} (inv : DriversInv s)
    (below : ∀ driver ∈ s.driverList, driver.devices mem ≠ [] →
      driver.index < s.driverList.length) : Enumerates mem s := by
  obtain ⟨hcount, hmap⟩ := scanIndexes_spec mem s s.numDriver
  have hall : (scanIndexes mem s s.numDriver).2.map (·.device) = s.devices mem := by
    rw [hmap, flatMap_devicesAt mem s inv.sorted, inv.count]
    exact flatMap_filter_of_below below
  have hlen : (scanIndexes mem s s.numDriver).1 = (s.devices mem).length := by
    have := congrArg List.length hcount
    rw [List.length_map, List.length_range] at this
    rw [← this, ← hall, List.length_map]
  unfold Enumerates
  rw [storageIoGetNumDevices_self]
  refine ⟨congrArg _ hlen, ?_, ?_⟩
  · rw [← hlen]
    exact hcount
  · rw [hall]

theorem below_of_enumerates {mem : M} {s : StorageIo M D} (inv : DriversInv s)
    (h : Enumerates mem s) {driver : StorageHcDriver M D} (hd : driver ∈ s.driverList)
    (hdevices : driver.devices mem ≠ []) : driver.index < s.driverList.length := by
  obtain ⟨-, -, hperm⟩ := h
  obtain ⟨d, hmem⟩ := List.exists_mem_of_ne_nil _ hdevices
  have hin : d ∈ s.devices mem := List.mem_flatMap.2 ⟨driver, hd, hmem⟩
  rw [← hperm.mem_iff, storageIoGetNumDevices_self, (scanIndexes_spec mem s s.numDriver).2,
    flatMap_devicesAt mem s inv.sorted] at hin
  obtain ⟨other, hother, hmem'⟩ := List.mem_flatMap.1 hin
  obtain ⟨hother, hlt⟩ := List.mem_filter.1 hother
  have hptr : other.ptr = driver.ptr := by
    rw [← fst_of_mem_devices hmem', fst_of_mem_devices hmem]
  have heq : other = driver := List.inj_on_of_nodup_map inv.apart hother hd hptr
  rw [heq, inv.count] at hlt
  simpa using hlt

/-- In every run of registrations and unregistrations the drivers stand in the order of their
distinct indexes and each keeps its index as long as it is registered; the enumeration is exact
if and only if no controller with an openable device has an index of at least the number of
registered controllers. -/
theorem registered_enumerates_iff {calls : List (StorageCall M D)} {s : StorageIo M D}
    (h : StorageRun StorageIo.initial calls s) :
    (s.driverList.Pairwise fun a b => a.index < b.index) ∧
    (∀ later t, StorageRun s later t → ∀ driver ∈ s.driverList,
      .unregister driver.ptr ∉ later → ∀ driver' ∈ t.driverList, driver'.ptr = driver.ptr →
        driver'.index = driver.index) ∧
    ∀ mem, Enumerates mem s ↔
      ∀ driver ∈ s.driverList, driver.devices mem ≠ [] → driver.index < s.driverList.length := by
  have inv : DriversInv s := DriversInv.initial.run h
  refine ⟨inv.sorted, ?_, fun mem => ⟨fun hex driver hd hne => ?_, enumerates_of_below inv⟩⟩
  · intro later t hlater driver hd hnot driver' hd' hptr
    have hstays : driver ∈ t.driverList := hlater.keeps hd hnot
    have heq : driver' = driver :=
      List.inj_on_of_nodup_map (inv.run hlater).apart hd' hstays hptr
    rw [heq]
  · exact below_of_enumerates inv hex hd hne

/-- A controller with one device. -/
def oneDevice : StorageHcDriverFunc Unit Unit where
  scandev _ _ _ := [0]
  openable _ _ _ _ := true

/-- Two controllers are registered and the first one goes. -/
def firstGone : List (StorageCall Unit Unit) :=
  [.register 1 1 oneDevice (), .register 2 1 oneDevice (), .unregister 1]

/-- The controller that is left. -/
def secondLeft : StorageIo Unit Unit where
  driverList := [⟨2, 1, 1, oneDevice, ()⟩]
  numDriver := 1
  storageIoId := 0
  ioDevList := []

theorem firstGone_run : StorageRun StorageIo.initial firstGone secondLeft :=
  .cons (.register 1 1 oneDevice () fun _ h => nomatch h)
    (.cons (.register 2 1 oneDevice ()
      (by simp [storageHcRegister, insertDriver, StorageIo.initial]))
      (.cons (.unregister 1 ⟨_, List.mem_cons_self, rfl⟩) (.nil _)))

theorem registered_enumerates_iff_firstGone : StorageRun StorageIo.initial firstGone secondLeft ∧
    (Enumerates () secondLeft ↔ ∀ driver ∈ secondLeft.driverList, driver.devices () ≠ [] →
      driver.index < secondLeft.driverList.length) :=
  ⟨firstGone_run, (registered_enumerates_iff firstGone_run).2.2 ()⟩

/-- The device of the controller that is left is missed. -/
theorem not_enumerates_firstGone :
    StorageRun StorageIo.initial firstGone secondLeft ∧ ¬ Enumerates () secondLeft := by
  refine ⟨firstGone_run, fun h => ?_⟩
  exact absurd h.1 (by decide)

end OnDemandVirt.Storage
