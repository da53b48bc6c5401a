import OnDemandVirt.Pci.ConfigSpace

/-!
# Base address registers

`pci_get_bar_info` and `pci_get_modifying_bar_info` of `drivers/pci_core.c`, and the masks of
`pci_save_base_address_masks`. A driver asks before each write of the guest whether it changes the
address of a base address register; the answer is computed from the copy of the registers and the
data of the write. A 64-bit register is written in two halves, and its address is reported after
each half unless it looks like a size probe.

A base address register of 4 GiB or more has no address bits in its lower half, and is never
reported.
-/

namespace OnDemandVirt.Pci

variable {S : Type}

/-- `enum pci_bar_info_type`. -/
inductive PciBarInfoType
  | none
  | mem
  | io
  deriving DecidableEq

/-- `struct pci_bar_info`. -/
structure PciBarInfo where
  type : PciBarInfoType
  base : BitVec 64
  len : BitVec 32
  deriving DecidableEq

/-- `struct pci_device` with its masks. -/
structure BarDevice (S : Type) extends PciDevice S where
  baseAddressMask : Nat → BitVec 32
  baseAddressMaskValid : Nat → Bool

/-- `data->dword`. -/
def Mem.dword (data : Mem) : BitVec 32 := data 3 ++ data 2 ++ data 1 ++ data 0

/-- A write of a whole register. -/
def wholeRegister (value : BitVec 32) : Fin 4 → Option (BitVec 8) := fun i => some (byteOf value i)

/-- The register of base address `n`. -/
def barReg (n : Nat) : Nat := 4 + n

/-! ### The masks -/

/-- The memory space of 64-bit addresses. -/
def isMem64 (mask : BitVec 32) : Bool := mask &&& 7 = 4

/-- `pci_get_base_address_mask`. -/
def pciGetBaseAddressMask (d : ConfigDevice S) (s : S) (n : Nat) : BitVec 32 × S :=
  let tmp := d.read s (barReg n)
  let s := d.write s (barReg n) (wholeRegister 0xffffffff)
  (d.read s (barReg n), d.write s (barReg n) (wholeRegister tmp))

/-- The loop of `pci_save_base_address_masks` over the first registers: the masks and the device. -/
def saveMasks (d : ConfigDevice S) : Nat → S → (Nat → BitVec 32) × S
  | 0, s => (fun _ => 0, s)
  | n + 1, s =>
    let (masks, s) := saveMasks d n s
    let (mask, s) := pciGetBaseAddressMask d s n
    (Function.update masks n mask, s)

/-- The valid bits: a register behind one of 64 bits is its upper half. -/
def barValid (mask : Nat → BitVec 32) : Nat → Bool
  | 0 => true
  | n + 1 => !(barValid mask n && isMem64 (mask n))

/-- The device after `pci_read_config_space` and `pci_save_base_address_masks`. -/
def pciNewBarDevice (d : ConfigDevice S) (configMmio : Option Nat) (s : S) : BarDevice S :=
  let (masks, s') := saveMasks d 6 s
  { pciNewDevice d configMmio s with
    dev := s'
    baseAddressMask := masks
    baseAddressMaskValid := fun n =>
      decide ((byteOf (d.read s 3) 2) &&& 0x7f = 0 ∧ n < 6) && barValid masks n }

/-! ### What is reported -/

/-- The bits of a register that are an address. -/
def addressBits (mask : BitVec 32) : BitVec 32 := if mask &&& 1 = 0 then 0xfffffff0 else 0x0000fffc

/-- `pci_get_bar_info_internal`; `data` is the data of a write at `offset`. -/
def pciGetBarInfoInternal (p : BarDevice S) (n : Nat) (barInfo : PciBarInfo) (offset : Nat)
    (data : BitVec 32) : PciBarInfo × BitVec 64 :=
  if 6 ≤ n ∨ p.baseAddressMaskValid n = false then ({ barInfo with type := .none }, 0)
  else
    let mask := p.baseAddressMask n
    let bits := addressBits mask
    let low := p.regs32 (barReg n)
    let high := if isMem64 mask = true ∧ n + 1 < 6 then p.regs32 (barReg (n + 1)) else 0
    if mask &&& bits = 0 then ({ barInfo with type := .none }, 0)
    else
      let base := high ++ (low &&& mask &&& bits)
      let newbase :=
        if offset = 0x10 + 4 * n then high ++ (data &&& mask &&& bits)
        else if offset = 0x10 + 4 * n + 4 then data ++ (low &&& mask &&& bits)
        else base
      if newbase = 0#32 ++ (mask &&& bits) ∨ newbase.msb = true then
        ({ barInfo with type := .none, base := base }, 0)
      else
        (⟨if mask &&& 1 = 0 then .mem else .io, base,
          (mask &&& bits) &&& (~~~(mask &&& bits) + 1)⟩, newbase)

/-- `pci_get_bar_info`. -/
def pciGetBarInfo (p : BarDevice S) (n : Nat) (barInfo : PciBarInfo) : PciBarInfo :=
  (pciGetBarInfoInternal p n barInfo 0 0).1

/-- The base address register that a write at index `n` is for. -/
def modifiedBar (p : BarDevice S) (n : Nat) : Nat :=
  if p.baseAddressMaskValid n = false ∧ 0 < n ∧ p.baseAddressMaskValid (n - 1) = true ∧
    isMem64 (p.baseAddressMask (n - 1)) = true then n - 1 else n

/-- `pci_get_modifying_bar_info`: the register that the write changes, if it changes one, and its
new base. `none` is a panic. -/
def pciGetModifyingBarInfo (p : BarDevice S) (barInfo : PciBarInfo) (iosize offset : Nat)
    (data : Mem) : Option (Option (Nat × PciBarInfo)) :=
  if 0x10 < offset + iosize ∧ offset < 0x28 then
    if offset % 4 ≠ 0 ∨ iosize ≠ 4 ∨ offset < 0x10 then none
    else
      let n := modifiedBar p ((offset - 0x10) / 4)
      let (info, newbase) := pciGetBarInfoInternal p n barInfo offset data.dword
      if info.type = .none ∨ info.base = newbase then some none
      else some (some (n, { info with base := newbase }))
  else some none

/-! ### Runs -/

/-- A device and what its driver knows of each base address register. -/
structure BarState (S : Type) where
  device : BarDevice S
  reported : Nat → Option PciBarInfo

/-- What the driver knows after the answer. -/
def BarState.learn (x : BarState S) (modified : Option (Nat × PciBarInfo)) :
    Nat → Option PciBarInfo :=
  match modified with
  | none => x.reported
  | some (n, info) => Function.update x.reported n (some info)

/-- The driver asks for each base address register. -/
def barStart (d : ConfigDevice S) (configMmio : Option Nat) (s : S) : BarState S :=
  let p := pciNewBarDevice d configMmio s
  { device := p
    reported := fun n =>
      let info := pciGetBarInfo p n ⟨.none, 0, 0⟩
      if info.type = .none then none else some info }

/-- A driver's `config_write`, and `pci_handle_default_config_write` after it. `none` is a panic. -/
def barWrite (d : ConfigDevice S) (x : BarState S) (offset iosize : Nat) (data : Mem) :
    Option (BarState S) :=
  (pciGetModifyingBarInfo x.device ⟨.none, 0, 0⟩ iosize offset data).bind fun modified =>
    (pciHandleDefaultConfigWrite d x.device.toPciDevice offset iosize data).map fun p =>
      { device := { x.device with toPciDevice := p }, reported := x.learn modified }

/-- The guest's writes of at least one byte, anywhere in the configuration space. -/
inductive BarRun (d : ConfigDevice S) (start : BarState S) : BarState S → Prop
  | start : BarRun d start start
  | write {x y : BarState S} (h : BarRun d start x) (offset iosize : Nat) (data : Mem)
      (nonempty : 0 < iosize) (done : barWrite d x offset iosize data = some y) : BarRun d start y

/-! ### The hardware -/

/-- The kinds of base address registers, with the size as a power of two. -/
inductive Bar
  | io (size : Nat)
  | mem32 (size : Nat)
  | mem64 (size : Nat)

def Bar.size : Bar → Nat
  | .io size | .mem32 size | .mem64 size => size

/-- The type in `struct pci_bar_info`. -/
def Bar.type : Bar → PciBarInfoType
  | .io _ => .io
  | .mem32 _ | .mem64 _ => .mem

/-- The address bits of the lower register that can be written. -/
def Bar.sizeMask : Bar → BitVec 32
  | .io size => -BitVec.ofNat 32 (2 ^ size) &&& 0x0000fffc
  | .mem32 size | .mem64 size => -BitVec.ofNat 32 (2 ^ size)

/-- The address that the device decodes. Addresses of ports have 16 bits. -/
def Bar.address (d : ConfigDevice S) (s : S) (n : Nat) : Bar → BitVec 64
  | .io _ => 0#32 ++ (d.read s (barReg n) &&& 0x0000fffc)
  | .mem32 _ => 0#32 ++ (d.read s (barReg n) &&& 0xfffffff0)
  | .mem64 _ => d.read s (barReg (n + 1)) ++ (d.read s (barReg n) &&& 0xfffffff0)

/-- A value written to find out the size: all address bits of the lower register, or bit 63. -/
def Bar.IsProbe (bar : Bar) (address : BitVec 64) : Prop :=
  address = 0#32 ++ bar.sizeMask ∨ address.msb = true

instance (bar : Bar) (address : BitVec 64) : Decidable (bar.IsProbe address) :=
  inferInstanceAs (Decidable (_ ∨ _))

/-- The registers are written as PCI says: bits that can be written, and bits that are fixed. A
write changes no other register. -/
structure BarLaws (d : ConfigDevice S) (writable fixed : Nat → BitVec 32) : Prop where
  apart : ∀ s reg reg' bytes, reg' ≠ reg → d.read (d.write s reg bytes) reg' = d.read s reg'
  writes : ∀ s n value, n < 6 →
    d.read (d.write s (barReg n) (wholeRegister value)) (barReg n) =
      (value &&& writable n) ||| fixed n
  holds : ∀ s n, n < 6 → (d.read s (barReg n) &&& writable n) ||| fixed n = d.read s (barReg n)

/-- The bits of a base address register of a kind: those of the type are fixed, and the address bits
from the size on can be written. -/
def IsBar (writable fixed : Nat → BitVec 32) (n : Nat) : Bar → Prop
  | .io size => n < 6 ∧ 2 ≤ size ∧ size < 16 ∧ (writable n ||| fixed n) &&& 1 = 1 ∧
      fixed n &&& 0x0000fffc = 0 ∧ writable n &&& 0x0000fffc = (Bar.io size).sizeMask
  | .mem32 size => n < 6 ∧ 4 ≤ size ∧ size < 32 ∧ (writable n ||| fixed n) &&& 1 = 0 ∧
      (writable n ||| fixed n) &&& 7 ≠ 4 ∧ fixed n &&& 0xfffffff0 = 0 ∧
      writable n &&& 0xfffffff0 = (Bar.mem32 size).sizeMask
  | .mem64 size => n + 1 < 6 ∧ 4 ≤ size ∧ size < 64 ∧ (writable n ||| fixed n) &&& 7 = 4 ∧
      fixed n &&& 0xfffffff0 = 0 ∧ fixed (n + 1) = 0 ∧
      writable (n + 1) ++ (writable n &&& 0xfffffff0) = -BitVec.ofNat 64 (2 ^ size)

instance (writable fixed : Nat → BitVec 32) (n : Nat) :
    (bar : Bar) → Decidable (IsBar writable fixed n bar)
  | .io _ | .mem32 _ | .mem64 _ => inferInstanceAs (Decidable (_ ∧ _))

/-- Unless the register holds a size probe, the driver knows the address that the device decodes,
and the size. -/
def Tracks (d : ConfigDevice S) (x : BarState S) (n : Nat) (bar : Bar) : Prop :=
  ¬ bar.IsProbe (bar.address d x.device.dev n) →
    x.reported n =
      some ⟨bar.type, bar.address d x.device.dev n, BitVec.ofNat 32 (2 ^ bar.size)⟩

variable {d : ConfigDevice S} {writable fixed : Nat → BitVec 32} {n : Nat} {bar : Bar}

/-! ### The bits of a kind -/

/-- The address bits of the lower register. -/
def Bar.bits : Bar → BitVec 32
  | .io _ => 0x0000fffc
  | .mem32 _ | .mem64 _ => 0xfffffff0

/-- There is an upper register. -/
def Bar.wide : Bar → Bool
  | .mem64 _ => true
  | _ => false

theorem Bar.address_eq (bar : Bar) (d : ConfigDevice S) (s : S) (n : Nat) :
    bar.address d s n =
      (if bar.wide then d.read s (barReg (n + 1)) else 0) ++
        (d.read s (barReg n) &&& bar.bits) := by
  cases bar <;> rfl

/-- A base address register of less than 4 GiB. -/
structure SmallBar (writable fixed : Nat → BitVec 32) (n : Nat) (bar : Bar) : Prop where
  inRange : n < 6
  space : (writable n ||| fixed n) &&& 1 = 0 ↔ bar.type = .mem
  bits : addressBits (writable n ||| fixed n) = bar.bits
  wide : isMem64 (writable n ||| fixed n) = true ∧ n + 1 < 6 ↔ bar.wide = true
  mem64 : isMem64 (writable n ||| fixed n) = bar.wide
  hardwired : fixed n &&& bar.bits = 0#32
  mask : writable n &&& bar.bits = bar.sizeMask
  nonzero : bar.sizeMask ≠ 0
  len : bar.sizeMask &&& (~~~bar.sizeMask + 1) = BitVec.ofNat 32 (2 ^ bar.size)
  upper : bar.wide = true → writable (n + 1) = 0xffffffff ∧ fixed (n + 1) = 0#32

theorem and_one_of_and_seven {mask : BitVec 32} (h : mask &&& 7 = 4) : mask &&& 1 = 0 := by
  have hone : (7 : BitVec 32) &&& 1 = 1 := by decide
  rw [← hone, ← BitVec.and_assoc, h]
  decide

theorem ioMask_facts : ∀ size : Fin 16, 2 ≤ size.val →
    (Bar.io size).sizeMask ≠ 0 ∧
      (Bar.io size).sizeMask &&& (~~~(Bar.io size).sizeMask + 1) =
        BitVec.ofNat 32 (2 ^ size.val) := by
  decide

theorem memMask_facts : ∀ size : Fin 32, 4 ≤ size.val →
    (Bar.mem32 size).sizeMask ≠ 0 ∧
      (Bar.mem32 size).sizeMask &&& (~~~(Bar.mem32 size).sizeMask + 1) =
        BitVec.ofNat 32 (2 ^ size.val) ∧
      -BitVec.ofNat 64 (2 ^ size.val) = 0xffffffff#32 ++ (Bar.mem32 size).sizeMask := by
  decide

theorem append_inj {a a' b b' : BitVec 32} (h : a ++ b = a' ++ b') : a = a' ∧ b = b' := by
  constructor
  · ext i hi
    have hbit := congrArg (fun x : BitVec (32 + 32) => x.getLsbD (32 + i)) h
    have hnot : ¬ 32 + i < 32 := by omega
    simpa only [BitVec.getLsbD_append, hnot, if_false, Nat.add_sub_cancel_left,
      BitVec.getLsbD_eq_getElem hi] using hbit
  · ext i hi
    have hbit := congrArg (fun x : BitVec (32 + 32) => x.getLsbD i) h
    simpa only [BitVec.getLsbD_append, hi, if_true, BitVec.getLsbD_eq_getElem hi] using hbit

theorem IsBar.small (h : IsBar writable fixed n bar) (hsize : bar.size < 32) :
    SmallBar writable fixed n bar := by
  cases bar with
  | io size =>
    obtain ⟨hn, htwo, hlt, hspace, hfixed, hmask⟩ := h
    obtain ⟨hnonzero, hlen⟩ := ioMask_facts ⟨size, hlt⟩ htwo
    have hne : ¬ (writable n ||| fixed n) &&& 1 = 0 := by rw [hspace]; decide
    have hnot : isMem64 (writable n ||| fixed n) = false :=
      decide_eq_false fun h => hne (and_one_of_and_seven h)
    exact
      { inRange := hn
        space := ⟨fun h => absurd h hne, nofun⟩
        bits := if_neg hne
        wide := ⟨fun h => absurd (hnot.symm.trans h.1) Bool.false_ne_true,
          fun h => absurd h Bool.false_ne_true⟩
        mem64 := hnot
        hardwired := hfixed
        mask := hmask
        nonzero := hnonzero
        len := hlen
        upper := fun h => absurd h Bool.false_ne_true }
  | mem32 size =>
    obtain ⟨hn, hfour, hlt, hspace, hnot64, hfixed, hmask⟩ := h
    obtain ⟨hnonzero, hlen, -⟩ := memMask_facts ⟨size, hlt⟩ hfour
    have hnot : isMem64 (writable n ||| fixed n) = false := decide_eq_false hnot64
    exact
      { inRange := hn
        space := ⟨fun _ => rfl, fun _ => hspace⟩
        bits := if_pos hspace
        wide := ⟨fun h => absurd (hnot.symm.trans h.1) Bool.false_ne_true,
          fun h => absurd h Bool.false_ne_true⟩
        mem64 := hnot
        hardwired := hfixed
        mask := hmask
        nonzero := hnonzero
        len := hlen
        upper := fun h => absurd h Bool.false_ne_true }
  | mem64 size =>
    obtain ⟨hn, hfour, -, hmem, hfixed, hupper, hmask⟩ := h
    obtain ⟨hnonzero, hlen, hsplit⟩ := memMask_facts ⟨size, hsize⟩ hfour
    have hspace := and_one_of_and_seven hmem
    obtain ⟨hhigh, hlow⟩ := append_inj (hmask.trans hsplit)
    have hwide : isMem64 (writable n ||| fixed n) = true := decide_eq_true hmem
    exact
      { inRange := by omega
        space := ⟨fun _ => rfl, fun _ => hspace⟩
        bits := if_pos hspace
        wide := ⟨fun _ => rfl, fun _ => ⟨hwide, hn⟩⟩
        mem64 := hwide
        hardwired := hfixed
        mask := hlow
        nonzero := hnonzero
        len := hlen
        upper := fun _ => ⟨hhigh, hupper⟩ }

/-! ### The masks -/

theorem pciGetBaseAddressMask_spec (laws : BarLaws d writable fixed) (s : S) (hn : n < 6) :
    (pciGetBaseAddressMask d s n).1 = writable n ||| fixed n ∧
      ∀ reg, d.read (pciGetBaseAddressMask d s n).2 reg = d.read s reg := by
  refine ⟨?_, fun reg => ?_⟩
  · refine (laws.writes s n _ hn).trans ?_
    rw [show (0xffffffff : BitVec 32) = BitVec.allOnes 32 from rfl, BitVec.allOnes_and]
  · unfold pciGetBaseAddressMask
    by_cases hreg : reg = barReg n
    · rw [hreg]
      exact (laws.writes _ n _ hn).trans (laws.holds s n hn)
    · exact (laws.apart _ _ _ _ hreg).trans (laws.apart _ _ _ _ hreg)

theorem saveMasks_spec (laws : BarLaws d writable fixed) (s : S) {k : Nat} (hk : k ≤ 6) :
    (∀ i < k, (saveMasks d k s).1 i = writable i ||| fixed i) ∧
      ∀ reg, d.read (saveMasks d k s).2 reg = d.read s reg := by
  induction k with
  | zero => exact ⟨fun i hi => absurd hi (Nat.not_lt_zero i), fun _ => rfl⟩
  | succ k ih =>
    obtain ⟨hmasks, hreads⟩ := ih (by omega)
    obtain ⟨hmask, hread⟩ := pciGetBaseAddressMask_spec laws (saveMasks d k s).2
      (show k < 6 by omega)
    refine ⟨fun i hi => ?_, fun reg => (hread reg).trans (hreads reg)⟩
    change Function.update (saveMasks d k s).1 k
      (pciGetBaseAddressMask d (saveMasks d k s).2 k).1 i = _
    by_cases hik : i = k
    · rw [hik, Function.update_self, hmask]
    · rw [Function.update_of_ne hik]
      exact hmasks i (by omega)

/-- What the functions of this file know of the device: the masks, and the copy of the registers. -/
structure BarCopy (d : ConfigDevice S) (writable fixed : Nat → BitVec 32) (n : Nat)
    (p : BarDevice S) : Prop where
  masks : ∀ i < 6, p.baseAddressMask i = writable i ||| fixed i
  valid : p.baseAddressMaskValid n = true
  upper : isMem64 (writable n ||| fixed n) = true → p.baseAddressMaskValid (n + 1) = false
  cached : ∀ i < 6, p.regs32 (barReg i) = d.read p.dev (barReg i)

theorem BarCopy.start (laws : BarLaws d writable fixed) (configMmio : Option Nat) (s : S)
    (hn : n < 6) (valid : (pciNewBarDevice d configMmio s).baseAddressMaskValid n = true) :
    BarCopy d writable fixed n (pciNewBarDevice d configMmio s) := by
  obtain ⟨hmasks, hreads⟩ := saveMasks_spec laws s (Nat.le_refl 6)
  refine ⟨hmasks, valid, fun hmem => ?_, fun i hi => ?_⟩
  · have hvalid : barValid (saveMasks d 6 s).1 n = true := (Bool.and_eq_true_iff.1 valid).2
    change (_ && barValid (saveMasks d 6 s).1 (n + 1)) = false
    rw [barValid, hvalid, hmasks n hn, hmem]
    exact Bool.and_false _
  · change (if barReg i < 16 then d.read s (barReg i) else 0) =
      d.read (saveMasks d 6 s).2 (barReg i)
    rw [hreads, if_pos (by unfold barReg; omega)]

/-! ### What is answered -/

/-- The masked bits of a register are those the device decodes. -/
theorem SmallBar.read_and (h : SmallBar writable fixed n bar) (laws : BarLaws d writable fixed)
    (s : S) : d.read s (barReg n) &&& (writable n ||| fixed n) &&& bar.bits =
      d.read s (barReg n) &&& bar.bits := by
  rw [← laws.holds s n h.inRange]
  ext i hi
  simp only [BitVec.getElem_and, BitVec.getElem_or]
  cases (d.read s (barReg n))[i] <;> cases (writable n)[i] <;> cases (fixed n)[i] <;> rfl

theorem SmallBar.mask_and (h : SmallBar writable fixed n bar) :
    (writable n ||| fixed n) &&& bar.bits = bar.sizeMask := by
  rw [BitVec.and_or_distrib_right, h.hardwired, h.mask, BitVec.or_zero]

/-- The masked bits of the data are those the device decodes after the write. -/
theorem SmallBar.data_and (h : SmallBar writable fixed n bar) (data : BitVec 32) :
    data &&& (writable n ||| fixed n) &&& bar.bits =
      ((data &&& writable n) ||| fixed n) &&& bar.bits := by
  rw [BitVec.and_or_distrib_right, h.hardwired, BitVec.or_zero, BitVec.and_assoc, h.mask_and,
    BitVec.and_assoc, h.mask]

theorem SmallBar.upper_eq (h : SmallBar writable fixed n bar) (hwide : bar.wide = true)
    (data : BitVec 32) : (data &&& writable (n + 1)) ||| fixed (n + 1) = data := by
  obtain ⟨hw, hf⟩ := h.upper hwide
  rw [hw, hf, show (0xffffffff : BitVec 32) = BitVec.allOnes 32 from rfl, BitVec.and_allOnes,
    BitVec.or_zero]

/-- `s'` is the device after the data have been written at the offset. -/
def Written (d : ConfigDevice S) (writable fixed : Nat → BitVec 32) (offset : Nat)
    (data : BitVec 32) (s s' : S) : Prop :=
  ∀ i < 6, d.read s' (barReg i) =
    if offset = 0x10 + 4 * i then (data &&& writable i) ||| fixed i else d.read s (barReg i)

/-- The lower half of the new base. -/
theorem low_written {p : BarDevice S} (h : SmallBar writable fixed n bar)
    (laws : BarLaws d writable fixed) {offset : Nat} {data : BitVec 32} {s' : S}
    (written : Written d writable fixed offset data p.dev s') :
    d.read s' (barReg n) &&& bar.bits =
      if offset = 0x10 + 4 * n then data &&& (writable n ||| fixed n) &&& bar.bits
      else d.read p.dev (barReg n) &&& (writable n ||| fixed n) &&& bar.bits := by
  rw [written n h.inRange]
  split
  · exact (h.data_and data).symm
  · exact (h.read_and laws p.dev).symm

/-- The upper half of the new base. -/
theorem high_written {p : BarDevice S} (h : SmallBar writable fixed n bar) {offset : Nat}
    {data : BitVec 32} {s' : S} (written : Written d writable fixed offset data p.dev s')
    (hoffset : offset = 0x10 + 4 * n + 4 → bar.wide = true) :
    (if bar.wide = true then d.read s' (barReg (n + 1)) else 0) =
      if offset = 0x10 + 4 * n + 4 then data
      else if bar.wide = true then d.read p.dev (barReg (n + 1)) else 0 := by
  by_cases hwide : bar.wide = true
  · have hn : n + 1 < 6 := (h.wide.2 hwide).2
    rw [if_pos hwide, if_pos hwide, written (n + 1) hn, h.upper_eq hwide]
    rfl
  · rw [if_neg hwide, if_neg hwide, if_neg fun h => hwide (hoffset h)]

/-- The answer for a register: the address now, and that after the write. -/
theorem barInfo_eq {p : BarDevice S} (h : SmallBar writable fixed n bar)
    (laws : BarLaws d writable fixed) (copy : BarCopy d writable fixed n p) {offset : Nat}
    {data : BitVec 32} {s' : S} (written : Written d writable fixed offset data p.dev s')
    (hoffset : offset = 0x10 + 4 * n + 4 → bar.wide = true) (info : PciBarInfo) :
    pciGetBarInfoInternal p n info offset data =
      if bar.address d s' n = 0#32 ++ bar.sizeMask ∨ (bar.address d s' n).msb = true then
        ({ info with type := .none, base := bar.address d p.dev n }, 0)
      else
        (⟨bar.type, bar.address d p.dev n, BitVec.ofNat 32 (2 ^ bar.size)⟩,
          bar.address d s' n) := by
  have hn := h.inRange
  have hvalid : ¬ (6 ≤ n ∨ p.baseAddressMaskValid n = false) := by
    rw [copy.valid]
    simp only [Bool.true_eq_false, or_false]
    omega
  have hhigh : (if isMem64 (writable n ||| fixed n) = true ∧ n + 1 < 6 then
      p.regs32 (barReg (n + 1)) else 0) =
      if bar.wide = true then d.read p.dev (barReg (n + 1)) else 0 := by
    by_cases hwide : bar.wide = true
    · rw [if_pos (h.wide.2 hwide), if_pos hwide, copy.cached _ (h.wide.2 hwide).2]
    · rw [if_neg fun hw => hwide (h.wide.1 hw), if_neg hwide]
  have htype : (if (writable n ||| fixed n) &&& 1 = 0 then PciBarInfoType.mem else .io) =
      bar.type := by
    by_cases hmem : bar.type = .mem
    · rw [if_pos (h.space.2 hmem), hmem]
    · rw [if_neg fun hs => hmem (h.space.1 hs)]
      cases bar with
      | io => rfl
      | mem32 => exact absurd rfl hmem
      | mem64 => exact absurd rfl hmem
  have hnew : bar.address d s' n =
      if offset = 0x10 + 4 * n then
        (if bar.wide = true then d.read p.dev (barReg (n + 1)) else 0) ++
          (data &&& (writable n ||| fixed n) &&& bar.bits)
      else if offset = 0x10 + 4 * n + 4 then
        data ++ (d.read p.dev (barReg n) &&& (writable n ||| fixed n) &&& bar.bits)
      else (if bar.wide = true then d.read p.dev (barReg (n + 1)) else 0) ++
        (d.read p.dev (barReg n) &&& (writable n ||| fixed n) &&& bar.bits) := by
    rw [bar.address_eq, low_written h laws written, high_written h written hoffset]
    by_cases hlow : offset = 0x10 + 4 * n
    · have hne : ¬ offset = 0x10 + 4 * n + 4 := by omega
      rw [if_neg hne, if_pos hlow, if_pos hlow]
    · rw [if_neg hlow, if_neg hlow]
      split <;> rfl
  have hbase : bar.address d p.dev n =
      (if bar.wide = true then d.read p.dev (barReg (n + 1)) else 0) ++
        (d.read p.dev (barReg n) &&& (writable n ||| fixed n) &&& bar.bits) := by
    rw [bar.address_eq, h.read_and laws]
  unfold pciGetBarInfoInternal
  rw [if_neg hvalid]
  simp only [copy.masks n hn, copy.cached n hn, h.bits, hhigh, h.mask_and, if_neg h.nonzero, htype,
    h.len]
  rw [← hnew, ← hbase]

/-! ### A write to a register -/

theorem byteOf_dword (data : Mem) {i : Nat} (hi : i < 4) : byteOf data.dword i = data i := by
  unfold byteOf Mem.dword
  ext j hj
  simp only [BitVec.getElem_extractLsb', BitVec.getLsbD_append]
  match i, hi with
  | 0, _ =>
    rw [if_pos (show 8 * 0 + j < 8 by omega)]
    exact (congrArg _ (show 8 * 0 + j = j by omega)).trans (BitVec.getLsbD_eq_getElem hj)
  | 1, _ =>
    rw [if_neg (show ¬ 8 * 1 + j < 8 by omega), if_pos (show 8 * 1 + j - 8 < 8 by omega)]
    exact (congrArg _ (show 8 * 1 + j - 8 = j by omega)).trans (BitVec.getLsbD_eq_getElem hj)
  | 2, _ =>
    rw [if_neg (show ¬ 8 * 2 + j < 8 by omega), if_neg (show ¬ 8 * 2 + j - 8 < 8 by omega),
      if_pos (show 8 * 2 + j - 8 - 8 < 8 by omega)]
    exact (congrArg _ (show 8 * 2 + j - 8 - 8 = j by omega)).trans (BitVec.getLsbD_eq_getElem hj)
  | 3, _ =>
    rw [if_neg (show ¬ 8 * 3 + j < 8 by omega), if_neg (show ¬ 8 * 3 + j - 8 < 8 by omega),
      if_neg (show ¬ 8 * 3 + j - 8 - 8 < 8 by omega)]
    exact (congrArg _ (show 8 * 3 + j - 8 - 8 - 8 = j by omega)).trans
      (BitVec.getLsbD_eq_getElem hj)

/-- The writes that `pci_get_modifying_bar_info` allows to a base address register. -/
theorem configWrite_bar {p q : PciDevice S} (laws : BarLaws d writable fixed) {m : Nat} {data : Mem}
    (h : pciHandleDefaultConfigWrite d p (0x10 + 4 * m) 4 data = some q) (hm : m < 6) :
    Written d writable fixed (0x10 + 4 * m) data.dword p.dev q.dev ∧
      ∀ i < 6, (∀ i < 6, p.regs32 (barReg i) = d.read p.dev (barReg i)) →
        q.regs32 (barReg i) = d.read q.dev (barReg i) := by
  obtain ⟨hdev, hq⟩ := configWrite_within h (by omega) (by omega)
  have hreg : (0x10 + 4 * m) / 4 = barReg m := by
    unfold barReg
    omega
  have hfake : fakeCommand p (0x10 + 4 * m) 4 data = (data, p.fakeCommandVirtual) :=
    fakeCommand_of_not fun h => by
      have := h.2.1
      omega
  have hbytes : byteEnables (0x10 + 4 * m) 4 data (barReg m) = wholeRegister data.dword := by
    funext i
    unfold byteEnables wholeRegister barReg
    rw [if_pos (by omega), byteOf_dword data i.isLt]
    congr 2
    omega
  rw [hreg, hfake] at hdev
  simp only [hbytes] at hdev
  refine ⟨fun i hi => ?_, fun i hi hcached => ?_⟩
  · rw [hdev]
    by_cases him : i = m
    · rw [him, laws.writes _ m _ hm, if_pos rfl]
    · rw [laws.apart _ _ _ _ (by unfold barReg; omega), if_neg (by omega)]
  · rw [hq]
    simp only [hreg]
    rw [if_neg (by omega)]
    by_cases him : i = m
    · rw [him, Function.update_self]
    · rw [Function.update_of_ne (by unfold barReg; omega), hcached i hi, hdev,
        laws.apart _ _ _ _ (by unfold barReg; omega)]

theorem read_mmioWrite (laws : BarLaws d writable fixed) {offset iosize reg : Nat} {data : Mem}
    (hreg : ∀ k < (offset + iosize - 1) / 4 + 1 - offset / 4, reg ≠ offset / 4 + k) (s : S) :
    d.read (mmioWrite d offset iosize data s) reg = d.read s reg := by
  unfold mmioWrite
  generalize (offset + iosize - 1) / 4 + 1 - offset / 4 = count at hreg
  induction count with
  | zero => rfl
  | succ count ih =>
    rw [List.range_succ, List.foldl_append, List.foldl_cons, List.foldl_nil,
      laws.apart _ _ _ _ (hreg count (Nat.lt_succ_self count))]
    exact ih fun k hk => hreg k (Nat.lt_succ_of_lt hk)

/-- A write beside the base address registers. -/
theorem configWrite_beside {p q : PciDevice S} (laws : BarLaws d writable fixed)
    {offset iosize : Nat} {data : Mem}
    (h : pciHandleDefaultConfigWrite d p offset iosize data = some q) (hpos : 0 < iosize)
    (hout : ¬ (0x10 < offset + iosize ∧ offset < 0x28)) {i : Nat} (hi : i < 6) :
    d.read q.dev (barReg i) = d.read p.dev (barReg i) ∧
      q.regs32 (barReg i) = p.regs32 (barReg i) := by
  obtain ⟨⟨s, reg⟩, haccess, rfl⟩ := Option.map_eq_some_iff.1 h
  have hreg : barReg i ≠ offset / 4 := by
    unfold barReg
    omega
  constructor
  · change d.read s (barReg i) = _
    unfold PciDevice.access at haccess
    split at haccess
    · split at haccess
      · cases haccess
      · cases haccess
        refine read_mmioWrite laws (fun k hk => ?_) p.dev
        unfold barReg
        omega
    · split at haccess
      · cases haccess
      · cases haccess
        exact laws.apart _ _ _ _ hreg
  · change (if 0x40 ≤ offset then p.regs32 else Function.update p.regs32 (offset / 4) reg)
      (barReg i) = _
    split
    · rfl
    · exact Function.update_of_ne hreg _ _

/-! ### The driver's knowledge -/

theorem modifiedBar_self {p : BarDevice S} (copy : BarCopy d writable fixed n p) :
    modifiedBar p n = n := if_neg fun h => absurd (copy.valid.symm.trans h.1) Bool.noConfusion

theorem modifiedBar_upper {p : BarDevice S} (h : SmallBar writable fixed n bar)
    (copy : BarCopy d writable fixed n p) (hwide : bar.wide = true) :
    modifiedBar p (n + 1) = n := by
  have hmem : isMem64 (writable n ||| fixed n) = true := h.mem64.trans hwide
  refine if_pos ⟨copy.upper hmem, Nat.succ_pos n, copy.valid, ?_⟩
  rw [Nat.add_sub_cancel, copy.masks n h.inRange]
  exact hmem

theorem eq_of_modifiedBar {p : BarDevice S} (h : SmallBar writable fixed n bar)
    (copy : BarCopy d writable fixed n p) {m : Nat} (heq : modifiedBar p m = n) :
    m = n ∨ m = n + 1 ∧ bar.wide = true := by
  unfold modifiedBar at heq
  split at heq
  case isTrue hcond =>
    right
    obtain ⟨-, hpos, -, hmem⟩ := hcond
    have hm : m = n + 1 := by omega
    rw [heq, copy.masks n h.inRange, h.mem64] at hmem
    exact ⟨hm, hmem⟩
  case isFalse => exact .inl heq

/-- What holds in runs. -/
structure BarInv (d : ConfigDevice S) (writable fixed : Nat → BitVec 32) (n : Nat) (bar : Bar)
    (x : BarState S) : Prop where
  copy : BarCopy d writable fixed n x.device
  tracks : Tracks d x n bar

theorem BarInv.start (laws : BarLaws d writable fixed) (h : SmallBar writable fixed n bar)
    (configMmio : Option Nat) (s : S)
    (valid : (pciNewBarDevice d configMmio s).baseAddressMaskValid n = true) :
    BarInv d writable fixed n bar (barStart d configMmio s) := by
  have copy := BarCopy.start laws configMmio s h.inRange valid
  refine ⟨copy, fun (hprobe : ¬ bar.IsProbe
    (bar.address d (pciNewBarDevice d configMmio s).dev n)) => ?_⟩
  have hsame : Written d writable fixed 0 0 (pciNewBarDevice d configMmio s).dev
      (pciNewBarDevice d configMmio s).dev := fun i _ => (if_neg (by omega)).symm
  have heq := barInfo_eq h laws copy hsame (fun h => by omega) ⟨.none, 0, 0⟩
  rw [if_neg (show ¬ (_ ∨ _) from hprobe)] at heq
  have hinfo : pciGetBarInfo (pciNewBarDevice d configMmio s) n ⟨.none, 0, 0⟩ =
      ⟨bar.type, bar.address d (pciNewBarDevice d configMmio s).dev n,
        BitVec.ofNat 32 (2 ^ bar.size)⟩ := congrArg Prod.fst heq
  change (if (pciGetBarInfo _ n _).type = .none then none else some _) = _
  rw [hinfo, if_neg (by cases bar <;> exact nofun)]
  rfl

/-- The address depends on one register, or on two. -/
theorem Bar.address_congr {s s' : S} (hlow : d.read s' (barReg n) = d.read s (barReg n))
    (hhigh : bar.wide = true → d.read s' (barReg (n + 1)) = d.read s (barReg (n + 1))) :
    bar.address d s' n = bar.address d s n := by
  rw [bar.address_eq, bar.address_eq, hlow]
  by_cases hwide : bar.wide = true
  · rw [hhigh hwide]
  · rw [if_neg hwide, if_neg hwide]

theorem pciGetModifyingBarInfo_bar {p : BarDevice S} {m : Nat} (hm : m < 6) (info : PciBarInfo)
    (data : Mem) : pciGetModifyingBarInfo p info 4 (0x10 + 4 * m) data =
      let res := pciGetBarInfoInternal p (modifiedBar p m) info (0x10 + 4 * m) data.dword
      if res.1.type = .none ∨ res.1.base = res.2 then some none
      else some (some (modifiedBar p m, { res.1 with base := res.2 })) := by
  have hindex : (0x10 + 4 * m - 0x10) / 4 = m := by omega
  unfold pciGetModifyingBarInfo
  rw [if_pos (by omega), if_neg (by omega), hindex]

/-- A write to one of the base address registers. -/
theorem BarInv.learn (laws : BarLaws d writable fixed) (h : SmallBar writable fixed n bar)
    {x : BarState S} (inv : BarInv d writable fixed n bar x) {m : Nat} {data : Mem} {s' : S}
    (hm : m < 6) (hwritten : Written d writable fixed (0x10 + 4 * m) data.dword x.device.dev s')
    {modified : Option (Nat × PciBarInfo)}
    (hmodified : pciGetModifyingBarInfo x.device ⟨.none, 0, 0⟩ 4 (0x10 + 4 * m) data =
      some modified) (hprobe : ¬ bar.IsProbe (bar.address d s' n)) :
    x.learn modified n = some ⟨bar.type, bar.address d s' n, BitVec.ofNat 32 (2 ^ bar.size)⟩ := by
  rw [pciGetModifyingBarInfo_bar hm] at hmodified
  by_cases hmine : modifiedBar x.device m = n
  · have hcases := eq_of_modifiedBar h inv.copy hmine
    have heq := barInfo_eq h laws inv.copy hwritten
      (fun hoff => (hcases.resolve_left (by omega)).2) ⟨.none, 0, 0⟩
    rw [if_neg (show ¬ (_ ∨ _) from hprobe)] at heq
    rw [hmine, heq] at hmodified
    have htype : bar.type ≠ .none := by cases bar <;> exact nofun
    simp only [htype, false_or] at hmodified
    split at hmodified
    case isTrue hsame =>
      cases hmodified
      rw [← hsame] at hprobe ⊢
      exact inv.tracks hprobe
    case isFalse =>
      cases hmodified
      exact Function.update_self _ _ _
  · have hne : m ≠ n := by
      intro heq
      rw [heq] at hmine
      exact hmine (modifiedBar_self inv.copy)
    have hlow : d.read s' (barReg n) = d.read x.device.dev (barReg n) := by
      rw [hwritten n h.inRange, if_neg (by omega)]
    have hhigh : bar.wide = true →
        d.read s' (barReg (n + 1)) = d.read x.device.dev (barReg (n + 1)) := by
      intro hwide
      have hupper : m ≠ n + 1 := by
        intro heq
        rw [heq] at hmine
        exact hmine (modifiedBar_upper h inv.copy hwide)
      rw [hwritten (n + 1) (h.wide.2 hwide).2, if_neg (by omega)]
    have haddress := Bar.address_congr hlow hhigh
    have hkept : x.learn modified n = x.reported n := by
      simp only at hmodified
      split at hmodified
      · cases hmodified
        rfl
      · cases hmodified
        exact Function.update_of_ne (Ne.symm hmine) _ _
    rw [hkept, haddress]
    rw [haddress] at hprobe
    exact inv.tracks hprobe

theorem barWrite_cases {x y : BarState S} {offset iosize : Nat} {data : Mem}
    (h : barWrite d x offset iosize data = some y) :
    ∃ modified q, pciGetModifyingBarInfo x.device ⟨.none, 0, 0⟩ iosize offset data = some modified ∧
      pciHandleDefaultConfigWrite d x.device.toPciDevice offset iosize data = some q ∧
      y = { device := { x.device with toPciDevice := q }, reported := x.learn modified } := by
  obtain ⟨modified, hmodified, h⟩ := Option.bind_eq_some_iff.1 h
  obtain ⟨q, hwrite, rfl⟩ := Option.map_eq_some_iff.1 h
  exact ⟨modified, q, hmodified, hwrite, rfl⟩

theorem BarInv.write (laws : BarLaws d writable fixed) (h : SmallBar writable fixed n bar)
    {x y : BarState S} (inv : BarInv d writable fixed n bar x) {offset iosize : Nat} {data : Mem}
    (hpos : 0 < iosize) (done : barWrite d x offset iosize data = some y) :
    BarInv d writable fixed n bar y := by
  obtain ⟨modified, q, hmodified, hwrite, rfl⟩ := barWrite_cases done
  by_cases hin : 0x10 < offset + iosize ∧ offset < 0x28
  · obtain ⟨m, rfl, rfl, hm⟩ : ∃ m, offset = 0x10 + 4 * m ∧ iosize = 4 ∧ m < 6 := by
      unfold pciGetModifyingBarInfo at hmodified
      rw [if_pos hin] at hmodified
      split at hmodified
      · cases hmodified
      · exact ⟨(offset - 0x10) / 4, by omega, by omega, by omega⟩
    obtain ⟨hwritten, hcached⟩ := configWrite_bar laws hwrite hm
    exact
      { copy := { inv.copy with cached := fun i hi => hcached i hi inv.copy.cached }
        tracks := inv.learn laws h hm hwritten hmodified }
  · obtain ⟨hlow, -⟩ := configWrite_beside laws hwrite hpos hin h.inRange
    have hhigh : bar.wide = true →
        d.read q.dev (barReg (n + 1)) = d.read x.device.dev (barReg (n + 1)) := fun hwide =>
      (configWrite_beside laws hwrite hpos hin (h.wide.2 hwide).2).1
    have hnone : modified = none := by
      unfold pciGetModifyingBarInfo at hmodified
      rw [if_neg hin] at hmodified
      cases hmodified
      rfl
    refine ⟨{ inv.copy with cached := fun i hi => ?_ }, fun hprobe => ?_⟩
    · obtain ⟨hread, hcopy⟩ := configWrite_beside laws hwrite hpos hin hi
      exact hcopy.trans ((inv.copy.cached i hi).trans hread.symm)
    · have haddress : bar.address d q.dev n = bar.address d x.device.dev n :=
        Bar.address_congr hlow hhigh
      rw [hnone]
      change x.reported n = some ⟨_, bar.address d q.dev n, _⟩
      rw [haddress]
      exact inv.tracks (haddress ▸ hprobe)

theorem BarInv.run (laws : BarLaws d writable fixed) (h : SmallBar writable fixed n bar)
    {start x : BarState S} (inv : BarInv d writable fixed n bar start) (run : BarRun d start x) :
    BarInv d writable fixed n bar x := by
  induction run with
  | start => exact inv
  | write _ offset iosize data nonempty done ih => exact ih.write laws h nonempty done

/-- For every base address register of less than 4 GiB and every sequence of writes, the driver
knows the address that the device decodes, unless the register holds a size probe, and the size. -/
theorem bar_tracks (laws : BarLaws d writable fixed) (isBar : IsBar writable fixed n bar)
    (small : bar.size < 32) {configMmio : Option Nat} {s : S}
    (valid : (pciNewBarDevice d configMmio s).baseAddressMaskValid n = true) {x : BarState S}
    (run : BarRun d (barStart d configMmio s) x) : Tracks d x n bar := by
  have inv := BarInv.start laws (isBar.small small) configMmio s valid
  exact (inv.run laws (isBar.small small) run).tracks

/-! ### A device with base address registers -/

def barDevice (writable fixed : Nat → BitVec 32) : ConfigDevice (Nat → BitVec 32) where
  read s reg :=
    if 4 ≤ reg ∧ reg < 10 then (s reg &&& writable (reg - 4)) ||| fixed (reg - 4) else s reg
  write s reg bytes := Function.update s reg (mergeBytes (s reg) bytes)

theorem mergeBytes_wholeRegister (reg value : BitVec 32) :
    mergeBytes reg (wholeRegister value) = value := by
  unfold mergeBytes wholeRegister byteOf
  apply BitVec.eq_of_getLsbD_eq
  intro i hi
  simp only [Option.getD_some, BitVec.getLsbD_append, BitVec.getLsbD_extractLsb']
  split
  case isTrue h => simp [h]
  case isFalse h =>
    split
    case isTrue h' =>
      simp only [h', decide_true, Bool.true_and]
      congr 1
      change 8 * 1 + (i - 8) = i
      omega
    case isFalse h' =>
      split
      case isTrue h'' =>
        simp only [h'', decide_true, Bool.true_and]
        congr 1
        change 8 * 2 + (i - 8 - 8) = i
        omega
      case isFalse h'' =>
        have h3 : i - 8 - 8 - 8 < 8 := by omega
        simp only [h3, decide_true, Bool.true_and]
        congr 1
        change 8 * 3 + (i - 8 - 8 - 8) = i
        omega

theorem barDevice_laws (writable fixed : Nat → BitVec 32) :
    BarLaws (barDevice writable fixed) writable fixed where
  apart s reg reg' bytes hne := by
    unfold barDevice
    simp only [Function.update_of_ne hne]
  writes s n value hn := by
    unfold barDevice barReg
    simp only [Function.update_self, mergeBytes_wholeRegister, Nat.add_sub_cancel_left]
    rw [if_pos (by omega)]
  holds s n hn := by
    unfold barDevice barReg
    simp only [Nat.add_sub_cancel_left]
    rw [if_pos (by omega)]
    ext i hi
    simp only [BitVec.getElem_and, BitVec.getElem_or]
    cases (s (4 + n))[i] <;> cases (writable n)[i] <;> cases (fixed n)[i] <;> rfl

/-- The data of a write of four bytes. -/
def dwordData (value : BitVec 32) : Mem := fun i => byteOf value i

/-- 1 MiB of memory. -/
def oneMiB : ConfigDevice (Nat → BitVec 32) := barDevice (fun _ => 0xfff00000) fun _ => 0

def oneMiBStart : BarState (Nat → BitVec 32) := barStart oneMiB (some 4096) fun _ => 0

/-- The guest gives the device the address 0xfeb00000. -/
def oneMiBMoved : BarState (Nat → BitVec 32) :=
  (barWrite oneMiB oneMiBStart 0x10 4 (dwordData 0xfeb00000)).getD oneMiBStart

theorem bar_tracks_oneMiB : BarRun oneMiB oneMiBStart oneMiBMoved ∧
    oneMiBMoved.reported 0 = some ⟨.mem, 0xfeb00000, 0x100000⟩ := by
  have run : BarRun oneMiB oneMiBStart oneMiBMoved :=
    .write .start 0x10 4 (dwordData 0xfeb00000) (by decide) rfl
  have isBar : IsBar (fun _ => 0xfff00000) (fun _ => 0) 0 (.mem32 20) := by decide
  exact ⟨run, bar_tracks (barDevice_laws _ _) isBar (by decide) (by decide) run (by decide)⟩

/-- The bits of a base address register of 8 GiB. -/
def wideWritable (n : Nat) : BitVec 32 := if n = 0 then 0 else 0xfffffffe

def wideFixed (n : Nat) : BitVec 32 := if n = 0 then 4 else 0

def eightGiB : ConfigDevice (Nat → BitVec 32) := barDevice wideWritable wideFixed

def eightGiBStart : BarState (Nat → BitVec 32) := barStart eightGiB (some 4096) fun _ => 0

/-- The guest gives the device the address 0x800000000. -/
def eightGiBMoved : BarState (Nat → BitVec 32) :=
  (barWrite eightGiB eightGiBStart 0x14 4 (dwordData 8)).getD eightGiBStart

/-- The driver is told nothing. -/
theorem not_tracks_eightGiB :
    BarLaws eightGiB wideWritable wideFixed ∧ IsBar wideWritable wideFixed 0 (.mem64 33) ∧
    eightGiBStart.device.baseAddressMaskValid 0 = true ∧
    BarRun eightGiB eightGiBStart eightGiBMoved ∧
    ¬ Tracks eightGiB eightGiBMoved 0 (.mem64 33) := by
  have run : BarRun eightGiB eightGiBStart eightGiBMoved :=
    .write .start 0x14 4 (dwordData 8) (by decide) rfl
  refine ⟨barDevice_laws _ _, by decide, by decide, run, fun h => ?_⟩
  have hreported := h (by decide)
  revert hreported
  decide

end OnDemandVirt.Pci
