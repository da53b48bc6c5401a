import Mathlib.Data.List.Basic
import Mathlib.Logic.Function.Basic
import Mathlib.Algebra.Group.Nat.Defs

/-!
# The configuration space of a device, and the copy of its header

`pci_handle_default_config_write` and `pci_handle_default_config_read` of `drivers/pci_core.c`. The
VMM keeps a copy of the first 16 registers of each device. After a write it reads one register
again, that of the offset: a write that goes on into the next register leaves the copy of that one
as it was. The command bits that `pci_set_bridge_fake_command` selects are replaced in each write to
the command register.

The device is a parameter: what it answers to reads of its registers, and what it does on writes
with byte enables.
-/

namespace OnDemandVirt.Pci

/-- The bytes of `union mem`. -/
abbrev Mem := Nat → BitVec 8

/-- A device's configuration registers, of 32 bits each. The registers behind those of the device in
the configuration window are the next function's. -/
structure ConfigDevice (S : Type) where
  read : S → (reg : Nat) → BitVec 32
  write : S → (reg : Nat) → (Fin 4 → Option (BitVec 8)) → S

/-- `struct pci_device`; `configMmio` is the length of the memory-mapped window from the device's
registers on, if it is reached through one. -/
structure PciDevice (S : Type) where
  dev : S
  regs32 : Nat → BitVec 32
  configMmio : Option Nat
  fakeCommandMask : BitVec 8
  fakeCommandFixed : BitVec 8
  fakeCommandVirtual : BitVec 8

variable {S : Type}

/-- Byte `i` of a register. -/
def byteOf (reg : BitVec 32) (i : Nat) : BitVec 8 := reg.extractLsb' (8 * i) 8

/-! ### Accesses of the hardware -/

/-- The bytes of a register that a write of `iosize` bytes at `offset` has data for. -/
def byteEnables (offset iosize : Nat) (data : Mem) (reg : Nat) : Fin 4 → Option (BitVec 8) :=
  fun i =>
    if offset ≤ reg * 4 + i ∧ reg * 4 + i < offset + iosize then
      some (data (reg * 4 + i - offset))
    else none

/-- A write in the memory-mapped window goes to each register that it lies in. -/
def mmioWrite (d : ConfigDevice S) (offset iosize : Nat) (data : Mem) (s : S) : S :=
  (List.range ((offset + iosize - 1) / 4 + 1 - offset / 4)).foldl
    (fun s k => d.write s (offset / 4 + k) (byteEnables offset iosize data (offset / 4 + k))) s

/-- A write to the ports from 0xCFC on; what lies behind 0xCFF goes to other ports. -/
def portWrite (d : ConfigDevice S) (offset iosize : Nat) (data : Mem) (s : S) : S :=
  d.write s (offset / 4) (byteEnables offset iosize data (offset / 4))

def mmioRead (d : ConfigDevice S) (offset : Nat) (s : S) : Mem := fun k =>
  byteOf (d.read s ((offset + k) / 4)) ((offset + k) % 4)

/-- A read of the ports from 0xCFC on; `others` is what the ports behind 0xCFF answer. -/
def portRead (d : ConfigDevice S) (others : Mem) (offset : Nat) (s : S) : Mem := fun k =>
  if offset % 4 + k < 4 then byteOf (d.read s (offset / 4)) (offset % 4 + k) else others k

/-! ### The functions -/

/-- The test for the command byte. -/
def HasCommand (offset iosize : Nat) : Prop := offset ≤ 4 ∧ 4 < offset + iosize

instance (offset iosize : Nat) : Decidable (HasCommand offset iosize) :=
  inferInstanceAs (Decidable (_ ∧ _))

/-- The command byte that is written for the guest's. -/
def PciDevice.fake (p : PciDevice S) (command : BitVec 8) : BitVec 8 :=
  (command &&& ~~~p.fakeCommandMask) ||| p.fakeCommandFixed

/-- The part of `pci_handle_default_config_write` for `fake_command_mask`: the data to write, and
`fake_command_virtual`. -/
def fakeCommand (p : PciDevice S) (offset iosize : Nat) (data : Mem) : Mem × BitVec 8 :=
  if p.fakeCommandMask ≠ 0 ∧ HasCommand offset iosize then
    (Function.update data (4 - offset) (p.fake (data (4 - offset))), data (4 - offset))
  else (data, p.fakeCommandVirtual)

/-- The device after the write, and the register that is read again; `none` is a panic. -/
def PciDevice.access (d : ConfigDevice S) (p : PciDevice S) (offset iosize : Nat) (data : Mem) :
    Option (S × BitVec 32) :=
  match p.configMmio with
  | some len =>
    if len < offset + iosize then none
    else
      let s := mmioWrite d offset iosize data p.dev
      some (s, d.read s (offset / 4))
  | none =>
    if 256 ≤ offset then none
    else
      let s := portWrite d offset iosize data p.dev
      some (s, d.read s (offset / 4))

/-- `pci_handle_default_config_write`. -/
def pciHandleDefaultConfigWrite (d : ConfigDevice S) (p : PciDevice S) (offset iosize : Nat)
    (data : Mem) : Option (PciDevice S) :=
  (p.access d offset iosize (fakeCommand p offset iosize data).1).map fun (s, reg) =>
    { p with
      dev := s
      fakeCommandVirtual := (fakeCommand p offset iosize data).2
      regs32 := if 0x40 ≤ offset then p.regs32 else Function.update p.regs32 (offset / 4) reg }

/-- `pci_handle_default_config_read`; `none` is a panic. -/
def pciHandleDefaultConfigRead (d : ConfigDevice S) (others : Mem) (p : PciDevice S)
    (offset iosize : Nat) : Option Mem :=
  let data := match p.configMmio with
    | some len => if len < offset + iosize then none else some (mmioRead d offset p.dev)
    | none => if 256 ≤ offset then none else some (portRead d others offset p.dev)
  data.map fun data =>
    if p.fakeCommandMask ≠ 0 ∧ HasCommand offset iosize then
      Function.update data (4 - offset) ((data (4 - offset) &&& ~~~p.fakeCommandMask) |||
        (p.fakeCommandVirtual &&& p.fakeCommandMask))
    else data

/-- `pci_set_bridge_fake_command`, on a bridge above the device. -/
def pciSetBridgeFakeCommand (mask fixed : BitVec 8) (p : PciDevice S) : PciDevice S :=
  { p with
    fakeCommandVirtual :=
      if p.fakeCommandMask = 0 then byteOf (p.regs32 1) 0 else p.fakeCommandVirtual
    fakeCommandFixed := (p.fakeCommandFixed &&& ~~~mask) ||| (fixed &&& mask)
    fakeCommandMask := p.fakeCommandMask ||| mask }

/-- `pci_read_config_space`, and the device as `pci_new_device` makes it. -/
def pciNewDevice (d : ConfigDevice S) (configMmio : Option Nat) (s : S) : PciDevice S where
  dev := s
  regs32 i := if i < 16 then d.read s i else 0
  configMmio := configMmio
  fakeCommandMask := 0
  fakeCommandFixed := 0
  fakeCommandVirtual := 0

/-! ### Runs -/

/-- The command byte that the guest has written last, if it is one of the bytes of this write. -/
def lastCommand (last : BitVec 8) (offset iosize : Nat) (data : Mem) : BitVec 8 :=
  if HasCommand offset iosize then data (4 - offset) else last

/-- What happens to the device: the guest's writes, and the calls of `pci_set_bridge_fake_command`.
Beside the device stands the command byte that was written last. -/
inductive ConfigStep (d : ConfigDevice S) : PciDevice S × BitVec 8 → PciDevice S × BitVec 8 → Prop
  | write {p q : PciDevice S} {last : BitVec 8} (offset iosize : Nat) (data : Mem)
      (h : pciHandleDefaultConfigWrite d p offset iosize data = some q) :
      ConfigStep d (p, last) (q, lastCommand last offset iosize data)
  | setFakeCommand (p : PciDevice S) (last : BitVec 8) (mask fixed : BitVec 8) :
      ConfigStep d (p, last) (pciSetBridgeFakeCommand mask fixed p, last)

/-- A step that keeps the copy true: a write does not go on into another register, and the device
has the fixed values when the bits are selected, which can be written. -/
inductive ProperStep (d : ConfigDevice S) (writable : BitVec 8) :
    PciDevice S × BitVec 8 → PciDevice S × BitVec 8 → Prop
  | write {p q : PciDevice S} {last : BitVec 8} (offset iosize : Nat) (data : Mem)
      (h : pciHandleDefaultConfigWrite d p offset iosize data = some q)
      (nonempty : 0 < iosize) (within : offset % 4 + iosize ≤ 4) :
      ProperStep d writable (p, last) (q, lastCommand last offset iosize data)
  | setFakeCommand (p : PciDevice S) (last : BitVec 8) (mask fixed : BitVec 8)
      (canWrite : mask &&& writable = mask)
      (holds : byteOf (d.read p.dev 1) 0 &&& mask = fixed &&& mask) :
      ProperStep d writable (p, last) (pciSetBridgeFakeCommand mask fixed p, last)

/-- Runs of proper steps, from a new device whose command byte was written last as it is read. -/
inductive ProperRun (d : ConfigDevice S) (writable : BitVec 8) : PciDevice S × BitVec 8 → Prop
  | new (configMmio : Option Nat) (s : S) :
      ProperRun d writable (pciNewDevice d configMmio s, byteOf (d.read s 1) 0)
  | step {x y : PciDevice S × BitVec 8} (h : ProperRun d writable x)
      (step : ProperStep d writable x y) : ProperRun d writable y

/-- An access that has the command byte of the device among its bytes. -/
def ReadsCommand (p : PciDevice S) (offset iosize : Nat) : Prop :=
  HasCommand offset iosize ∧ (p.configMmio = none → offset = 4)

/-- The copy is what the device answers, the device has the fixed values in the selected command
bits, and the guest reads there what it has written last. -/
structure Coherent (d : ConfigDevice S) (p : PciDevice S) (last : BitVec 8) : Prop where
  cached : ∀ i < 16, p.regs32 i = d.read p.dev i
  command : byteOf (d.read p.dev 1) 0 &&& p.fakeCommandMask = p.fakeCommandFixed
  virtual : ∀ others offset iosize data, ReadsCommand p offset iosize →
    pciHandleDefaultConfigRead d others p offset iosize = some data →
    data (4 - offset) &&& p.fakeCommandMask = last &&& p.fakeCommandMask

/-- What is assumed of the device: a write changes no other register, and the `writable` bits of the
command byte are changed by the writes to it only, which set them. -/
structure DeviceLaws (d : ConfigDevice S) (writable : BitVec 8) : Prop where
  apart : ∀ s reg reg' bytes, reg' ≠ reg → d.read (d.write s reg bytes) reg' = d.read s reg'
  command : ∀ s bytes,
    byteOf (d.read (d.write s 1 bytes) 1) 0 &&& writable =
      (bytes 0).getD (byteOf (d.read s 1) 0) &&& writable

variable {d : ConfigDevice S} {writable last : BitVec 8} {p q : PciDevice S}

/-! ### Bits of the command byte -/

theorem and_eq_of_subset {mask a b : BitVec 8} (hsub : mask &&& writable = mask)
    (h : a &&& writable = b &&& writable) : a &&& mask = b &&& mask := by
  rw [← hsub, BitVec.and_comm mask, ← BitVec.and_assoc, h, BitVec.and_assoc]

theorem select_and (x v mask : BitVec 8) :
    ((x &&& ~~~mask) ||| (v &&& mask)) &&& mask = v &&& mask := by
  ext i hi
  simp only [BitVec.getElem_and, BitVec.getElem_or, BitVec.getElem_not]
  cases x[i] <;> cases mask[i] <;> cases v[i] <;> rfl

theorem PciDevice.fake_and (h : p.fakeCommandFixed &&& p.fakeCommandMask = p.fakeCommandFixed)
    (command : BitVec 8) : p.fake command &&& p.fakeCommandMask = p.fakeCommandFixed := by
  unfold PciDevice.fake
  conv_lhs => rw [← h]
  rw [select_and, h]

/-! ### A write within one register -/

theorem hasCommand_iff {offset iosize : Nat} (hpos : 0 < iosize) (hin : offset % 4 + iosize ≤ 4) :
    HasCommand offset iosize ↔ offset = 4 := by
  unfold HasCommand
  omega

theorem access_within {offset iosize : Nat} {data : Mem} {s : S} {reg : BitVec 32}
    (h : p.access d offset iosize data = some (s, reg)) (hpos : 0 < iosize)
    (hin : offset % 4 + iosize ≤ 4) :
    s = d.write p.dev (offset / 4) (byteEnables offset iosize data (offset / 4)) ∧
      reg = d.read s (offset / 4) := by
  have hone : (offset + iosize - 1) / 4 + 1 - offset / 4 = 1 := by omega
  have hmmio : mmioWrite d offset iosize data p.dev =
      d.write p.dev (offset / 4) (byteEnables offset iosize data (offset / 4)) := by
    unfold mmioWrite
    rw [hone]
    rfl
  unfold PciDevice.access at h
  split at h
  · split at h
    · cases h
    · cases h
      exact ⟨hmmio, rfl⟩
  · split at h
    · cases h
    · cases h
      exact ⟨rfl, rfl⟩

/-- What a write within a register leaves. -/
theorem configWrite_within {offset iosize : Nat} {data : Mem}
    (h : pciHandleDefaultConfigWrite d p offset iosize data = some q) (hpos : 0 < iosize)
    (hin : offset % 4 + iosize ≤ 4) :
    q.dev = d.write p.dev (offset / 4)
        (byteEnables offset iosize (fakeCommand p offset iosize data).1 (offset / 4)) ∧
      q = { p with
        dev := q.dev
        fakeCommandVirtual := (fakeCommand p offset iosize data).2
        regs32 := if 0x40 ≤ offset then p.regs32 else
          Function.update p.regs32 (offset / 4) (d.read q.dev (offset / 4)) } := by
  obtain ⟨⟨s, reg⟩, haccess, rfl⟩ := Option.map_eq_some_iff.1 h
  obtain ⟨hs, hreg⟩ := access_within haccess hpos hin
  exact ⟨hs, by rw [hreg]⟩

/-- What holds in proper runs. -/
structure ConfigInv (d : ConfigDevice S) (writable : BitVec 8) (p : PciDevice S)
    (last : BitVec 8) : Prop where
  cached : ∀ i < 16, p.regs32 i = d.read p.dev i
  selected : p.fakeCommandMask &&& writable = p.fakeCommandMask
  fixed : p.fakeCommandFixed &&& p.fakeCommandMask = p.fakeCommandFixed
  command : byteOf (d.read p.dev 1) 0 &&& p.fakeCommandMask = p.fakeCommandFixed
  unselected : p.fakeCommandMask = 0 → byteOf (d.read p.dev 1) 0 &&& writable = last &&& writable
  virtual : p.fakeCommandMask ≠ 0 → p.fakeCommandVirtual &&& writable = last &&& writable

theorem ConfigInv.new (configMmio : Option Nat) (s : S) :
    ConfigInv d writable (pciNewDevice d configMmio s) (byteOf (d.read s 1) 0) where
  cached := fun i hi => if_pos hi
  selected := BitVec.zero_and
  fixed := BitVec.zero_and
  command := BitVec.and_zero
  unselected := fun _ => rfl
  virtual := fun h => absurd rfl h

/-- The copy after a write within a register. -/
theorem cached_write (laws : DeviceLaws d writable) {offset : Nat}
    {bytes : Fin 4 → Option (BitVec 8)} (h : ∀ i < 16, p.regs32 i = d.read p.dev i) {i : Nat} (hi : i < 16) :
    (if 0x40 ≤ offset then p.regs32 else Function.update p.regs32 (offset / 4)
      (d.read (d.write p.dev (offset / 4) bytes) (offset / 4))) i =
      d.read (d.write p.dev (offset / 4) bytes) i := by
  by_cases hreg : i = offset / 4
  · rw [if_neg (by omega), hreg, Function.update_self]
  · rw [laws.apart _ _ _ _ hreg, ← h i hi]
    split
    · rfl
    · exact Function.update_of_ne hreg _ _

theorem byteEnables_command (offset iosize : Nat) (data : Mem) :
    byteEnables offset iosize data 1 0 =
      if HasCommand offset iosize then some (data (4 - offset)) else none := rfl

/-- The command byte of the device after a write within a register. -/
theorem command_write (laws : DeviceLaws d writable) {offset iosize : Nat} {data : Mem} {s : S}
    (hpos : 0 < iosize) (hin : offset % 4 + iosize ≤ 4) :
    byteOf (d.read (d.write s (offset / 4) (byteEnables offset iosize data (offset / 4))) 1) 0 &&&
        writable =
      (if HasCommand offset iosize then data (4 - offset) else byteOf (d.read s 1) 0) &&&
        writable := by
  by_cases hreg : 1 = offset / 4
  · rw [← hreg, laws.command, byteEnables_command]
    split <;> rfl
  · rw [laws.apart _ _ _ _ hreg, if_neg]
    rw [hasCommand_iff hpos hin]
    omega

theorem fakeCommand_of_selected {offset iosize : Nat} {data : Mem} (hmask : p.fakeCommandMask ≠ 0)
    (h : HasCommand offset iosize) :
    (fakeCommand p offset iosize data).1 (4 - offset) = p.fake (data (4 - offset)) ∧
      (fakeCommand p offset iosize data).2 = data (4 - offset) := by
  unfold fakeCommand
  rw [if_pos ⟨hmask, h⟩]
  exact ⟨Function.update_self _ _ _, rfl⟩

theorem fakeCommand_of_not {offset iosize : Nat} {data : Mem}
    (h : ¬ (p.fakeCommandMask ≠ 0 ∧ HasCommand offset iosize)) :
    fakeCommand p offset iosize data = (data, p.fakeCommandVirtual) := if_neg h

theorem ConfigInv.write (laws : DeviceLaws d writable) (inv : ConfigInv d writable p last)
    {offset iosize : Nat} {data : Mem}
    (h : pciHandleDefaultConfigWrite d p offset iosize data = some q) (hpos : 0 < iosize)
    (hin : offset % 4 + iosize ≤ 4) :
    ConfigInv d writable q (lastCommand last offset iosize data) := by
  obtain ⟨hdev, hq⟩ := configWrite_within h hpos hin
  have hcommand := @command_write _ _ _ laws _ _ (fakeCommand p offset iosize data).1 p.dev hpos hin
  rw [← hdev] at hcommand
  have hmask : q.fakeCommandMask = p.fakeCommandMask := by rw [hq]
  have hfixed : q.fakeCommandFixed = p.fakeCommandFixed := by rw [hq]
  have hvirtual : q.fakeCommandVirtual = (fakeCommand p offset iosize data).2 := by rw [hq]
  have hcached : ∀ i < 16, q.regs32 i = d.read q.dev i := by
    intro i hi
    rw [hq]
    simp only
    rw [hdev]
    exact cached_write laws inv.cached hi
  refine ⟨hcached, by rw [hmask, inv.selected], by rw [hmask, hfixed, inv.fixed], ?_, ?_, ?_⟩
  · rw [hmask, hfixed]
    by_cases hhas : HasCommand offset iosize
    · rw [if_pos hhas] at hcommand
      rw [and_eq_of_subset inv.selected hcommand]
      by_cases hzero : p.fakeCommandMask = 0
      · rw [← inv.fixed, hzero]
        simp
      · rw [(fakeCommand_of_selected hzero hhas).1, PciDevice.fake_and inv.fixed]
    · rw [if_neg hhas] at hcommand
      rw [and_eq_of_subset inv.selected hcommand, inv.command]
  · intro hzero
    rw [hmask] at hzero
    rw [fakeCommand_of_not (fun h => h.1 hzero)] at hcommand
    rw [hcommand]
    unfold lastCommand
    split
    · rfl
    · exact inv.unselected hzero
  · intro hzero
    rw [hmask] at hzero
    rw [hvirtual]
    unfold lastCommand
    by_cases hhas : HasCommand offset iosize
    · rw [(fakeCommand_of_selected hzero hhas).2, if_pos hhas]
    · rw [fakeCommand_of_not (fun h => hhas h.2), if_neg hhas]
      exact inv.virtual hzero

theorem ConfigInv.setFakeCommand (inv : ConfigInv d writable p last) {mask fixed : BitVec 8}
    (canWrite : mask &&& writable = mask)
    (holds : byteOf (d.read p.dev 1) 0 &&& mask = fixed &&& mask) :
    ConfigInv d writable (pciSetBridgeFakeCommand mask fixed p) last where
  cached := inv.cached
  selected := by
    change (p.fakeCommandMask ||| mask) &&& writable = p.fakeCommandMask ||| mask
    rw [BitVec.and_or_distrib_right, inv.selected, canWrite]
  fixed := by
    change ((p.fakeCommandFixed &&& ~~~mask) ||| (fixed &&& mask)) &&&
        (p.fakeCommandMask ||| mask) = (p.fakeCommandFixed &&& ~~~mask) ||| (fixed &&& mask)
    rw [← inv.fixed]
    ext i hi
    simp only [BitVec.getElem_and, BitVec.getElem_or, BitVec.getElem_not]
    cases p.fakeCommandFixed[i] <;> cases p.fakeCommandMask[i] <;> cases mask[i] <;>
      cases fixed[i] <;> rfl
  command := by
    change byteOf (d.read p.dev 1) 0 &&& (p.fakeCommandMask ||| mask) =
      (p.fakeCommandFixed &&& ~~~mask) ||| (fixed &&& mask)
    rw [← inv.command, ← holds]
    ext i hi
    simp only [BitVec.getElem_and, BitVec.getElem_or, BitVec.getElem_not]
    cases (byteOf (d.read p.dev 1) 0)[i] <;> cases p.fakeCommandMask[i] <;> cases mask[i] <;> rfl
  unselected := by
    intro hzero
    exact inv.unselected (BitVec.or_eq_zero_iff.1 hzero).1
  virtual := by
    intro _
    change (if p.fakeCommandMask = 0 then byteOf (p.regs32 1) 0 else p.fakeCommandVirtual) &&& _ = _
    split
    case isTrue hzero =>
      rw [inv.cached 1 (by decide)]
      exact inv.unselected hzero
    case isFalse hne => exact inv.virtual hne

theorem ConfigInv.run (laws : DeviceLaws d writable) {x : PciDevice S × BitVec 8}
    (h : ProperRun d writable x) : ConfigInv d writable x.1 x.2 := by
  induction h with
  | new configMmio s => exact .new configMmio s
  | step _ hstep ih =>
    cases hstep with
    | write offset iosize data h nonempty within => exact ih.write laws h nonempty within
    | setFakeCommand p last mask fixed canWrite holds => exact ih.setFakeCommand canWrite holds

theorem ConfigInv.reads (inv : ConfigInv d writable p last) {others data : Mem}
    {offset iosize : Nat} (hhas : HasCommand offset iosize)
    (h : pciHandleDefaultConfigRead d others p offset iosize = some data) :
    data (4 - offset) &&& p.fakeCommandMask = last &&& p.fakeCommandMask := by
  by_cases hzero : p.fakeCommandMask = 0
  · simp [hzero]
  · obtain ⟨data', -, rfl⟩ := Option.map_eq_some_iff.1 h
    rw [if_pos ⟨hzero, hhas⟩, Function.update_self, select_and]
    exact and_eq_of_subset inv.selected (inv.virtual hzero)

/-- In every run whose writes stay within a register, and which selects command bits that have the
fixed value already, the copy of the header is true and the selected command bits are as they
should be, in the device and for the guest. -/
theorem config_coherent (laws : DeviceLaws d writable) (h : ProperRun d writable (p, last)) :
    Coherent d p last where
  cached := (ConfigInv.run laws h).cached
  command := (ConfigInv.run laws h).command
  virtual := fun _ _ _ _ hreads hread => (ConfigInv.run laws h).reads hreads.1 hread

/-! ### A device whose registers can be written -/

/-- The register with the bytes that are written. -/
def mergeBytes (reg : BitVec 32) (bytes : Fin 4 → Option (BitVec 8)) : BitVec 32 :=
  (bytes 3).getD (byteOf reg 3) ++ (bytes 2).getD (byteOf reg 2) ++ (bytes 1).getD (byteOf reg 1) ++
    (bytes 0).getD (byteOf reg 0)

def plainDevice : ConfigDevice (Nat → BitVec 32) where
  read s reg := s reg
  write s reg bytes := Function.update s reg (mergeBytes (s reg) bytes)

theorem byteOf_mergeBytes (reg : BitVec 32) (bytes : Fin 4 → Option (BitVec 8)) :
    byteOf (mergeBytes reg bytes) 0 = (bytes 0).getD (byteOf reg 0) := by
  unfold mergeBytes byteOf
  ext i hi
  simp only [BitVec.getElem_extractLsb', Nat.mul_zero, Nat.zero_add, BitVec.getLsbD_append, hi,
    decide_true, cond_true]
  exact BitVec.getLsbD_eq_getElem hi

theorem plainDevice_laws (writable : BitVec 8) : DeviceLaws plainDevice writable where
  apart s reg reg' bytes hne := Function.update_of_ne hne _ _
  command s bytes := by
    change byteOf (Function.update s 1 (mergeBytes (s 1) bytes) 1) 0 &&& writable = _
    rw [Function.update_self, byteOf_mergeBytes]
    rfl

/-- The header is zero, and the window has the registers of one function. -/
def plainStart : PciDevice (Nat → BitVec 32) := pciNewDevice plainDevice (some 4096) fun _ => 0

theorem config_coherent_command :
    ∃ q last, ProperRun plainDevice 0xff (q, last) ∧ q.fakeCommandMask = 4 ∧ last = 6 ∧
      Coherent plainDevice q last := by
  have hrun : ProperRun plainDevice 0xff (pciSetBridgeFakeCommand 4 0 plainStart, 0) :=
    .step (.new (some 4096) fun _ => 0)
      (.setFakeCommand _ _ 4 0 (by decide) (by decide))
  have hwrite := ProperRun.step hrun (.write 4 1 (fun _ => 6) rfl (by decide) (by decide))
  exact ⟨_, _, hwrite, rfl, rfl, config_coherent (plainDevice_laws 0xff) hwrite⟩

/-- Four bytes from offset 2 on: the copy of the second register is not read again. -/
theorem not_coherent_straddling :
    ∃ q, ConfigStep plainDevice (plainStart, 0) q ∧ ¬ Coherent plainDevice q.1 q.2 := by
  refine ⟨_, .write 2 4 (fun _ => 0xff) rfl, fun h => ?_⟩
  have hreg := h.cached 1 (by decide)
  revert hreg
  decide

end OnDemandVirt.Pci
