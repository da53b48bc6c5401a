import OnDemandVirt.Ata.Command
import OnDemandVirt.Lib.Scatter
import OnDemandVirt.Storage.Sectors

/-!
# AHCI commands of one slot

The driver gives the device a shadow command header, a shadow command table and one buffer of its
own for each slot. Here is what it makes of a guest's scatter list (`ahci_get_dmalen`,
`ahci_copy_dmabuf`), of the command FIS or packet (`ahci_cmd_prehook`), and of a command that is
complete (`ahci_cmd_posthook`). What is read from guest memory is an argument, so that two
readings may differ.
-/

namespace OnDemandVirt.Ahci

open Lib Storage Ata

/-- What stops the VMM: an assertion that fails, a `panic`, or an access through a buffer pointer
that is `NULL`. -/
inductive Fault
  | assertion
  | panic
  | nullBuffer
  deriving DecidableEq

/-- `ASSERT`. -/
def assert (b : Bool) : Except Fault Unit := if b then .ok () else .error .assertion

theorem assert_bind {α : Type} (b : Bool) (k : Unit → Except Fault α) :
    (assert b >>= k) = if b then k () else .error .assertion := by
  cases b <;> rfl

/-- `(dbc & 0x3FFFFE) + 2`. -/
def byteCount (dbc : BitVec 22) : Nat := (dbc &&& 0x3FFFFE).toNat + 2

/-- `struct prdtbl`, an entry of a scatter list. -/
structure Prd where
  dba : BitVec 32
  dbau : BitVec 32
  dbc : BitVec 22
  i : Bool
  deriving DecidableEq

/-- `ahci_get_phys`. -/
def ahciGetPhys (lower upper : BitVec 32) : Nat := (upper ++ lower).toNat

namespace Prd

variable (prd : Prd)

/-- The length of the buffer. -/
def len : Nat := byteCount prd.dbc

/-- The address of the buffer. -/
def phys : Nat := ahciGetPhys (prd.dba &&& ~~~1) prd.dbau

end Prd

/-- The first `prdtl` entries of a table. -/
def entries (prdt : Nat → Prd) (prdtl : BitVec 16) : List Prd :=
  (List.range prdtl.toNat).map prdt

/-- The buffers of a table. -/
def buffers (prdt : List Prd) : ScatterList := prdt.map fun prd => (prd.phys, prd.len)

/-- The bytes of a table's buffers. -/
abbrev totalLen (prdt : List Prd) : Nat := (buffers prdt).len

/-- `ahci_get_dmalen`: the total in 32 bits, and whether an entry wants an interrupt. -/
def ahciGetDmalen (prdt : List Prd) : BitVec 32 × Bool :=
  prdt.foldl (fun (total, intr) prd => (total + BitVec.ofNat 32 prd.len, intr || prd.i)) (0, false)

/-- `ahci_copy_dmabuf` from the guest: the bytes that the shadow buffer gets. -/
def copyFromGuest (mem : ByteMem) : List Prd → (remain : Nat) → Except Fault (List (BitVec 8))
  | [], remain => if remain = 0 then .ok [] else .error .assertion
  | prd :: prdt, remain =>
    if prd.len ≤ remain then
      (copyFromGuest mem prdt (remain - prd.len)).map (mem.read prd.phys prd.len ++ ·)
    else .error .assertion

/-- What copying to the guest has done: memory, the bytes copied, and whether the assertions
held. -/
structure CopyResult where
  mem : ByteMem
  copied : Nat
  ok : Bool

/-- `ahci_copy_dmabuf` to the guest, from the bytes of the shadow buffer that are left. -/
def copyToGuest : List Prd → (remain : Nat) → List (BitVec 8) → ByteMem → CopyResult
  | [], remain, _, mem => ⟨mem, 0, remain == 0⟩
  | prd :: prdt, remain, buf, mem =>
    if prd.len ≤ remain then
      let rest := copyToGuest prdt (remain - prd.len) (buf.drop prd.len)
        (mem.write prd.phys (buf.take prd.len))
      { rest with copied := prd.len + rest.copied }
    else ⟨mem, 0, false⟩

/-- The fields of `struct command_header` that are used. -/
structure CommandHeader where
  a : Bool
  w : Bool
  prdtl : BitVec 16
  deriving DecidableEq

/-- The fields of `struct cmdfis_0x27` that are used. -/
structure CmdFis where
  fisType : BitVec 8
  command : BitVec 8
  features : BitVec 8
  sectorNumber : BitVec 8
  cylLow : BitVec 8
  cylHigh : BitVec 8
  devHead : BitVec 8
  sectorNumberExp : BitVec 8
  cylLowExp : BitVec 8
  cylHighExp : BitVec 8
  featuresExp : BitVec 8
  sectorCount : BitVec 8
  sectorCountExp : BitVec 8
  deriving DecidableEq

/-- `enum identify_type`. -/
inductive IdentifyType
  | none | device | packet
  deriving DecidableEq

/-- What the prehook finds out about a command: `dmabuf_rwflag` and the fields that go with it,
and `dmabuf_identify`. -/
structure DmabufInfo where
  lba : Lba
  nsec : Nat
  ssiz : Nat
  rwflag : Bool
  identify : IdentifyType
  deriving DecidableEq

/-- `struct command_table`. -/
structure CommandTable where
  cfis : CmdFis
  acmd : Nat → BitVec 8
  prdt : Nat → Prd

/-- `my[i]` and `mycmdlist->cmdhdr[i]`: the buffer by its bytes, and of the shadow table the
command and the byte count of its one scatter entry. -/
structure Slot where
  dmabuf : Option (List (BitVec 8))
  dmabuflen : Nat
  info : DmabufInfo
  hdr : CommandHeader
  cfis : CmdFis
  acmd : Nat → BitVec 8
  dbc : BitVec 22
  i : Bool

/-- A slot as `ahci_port_data_init` leaves it. -/
def Slot.initial : Slot where
  dmabuf := none
  dmabuflen := 0
  info := ⟨0, 0, 0, false, .none⟩
  hdr := ⟨false, false, 0⟩
  cfis := ⟨0, 0, 0, 0, 0, 0, 0, 0, 0, 0, 0, 0, 0⟩
  acmd _ := 0
  dbc := 0
  i := false

/-- `storage_device` by its key table, the table that it is replaced by for an ATAPI device, and
`atapi`. -/
structure PortDevice where
  storageDevice : List StorageKeys
  atapiDevice : List StorageKeys
  atapi : Bool

/-! ### The command -/

/-- Eight bits more at the low end. -/
def shiftIn (lba : Lba) (b : BitVec 8) : Lba := (lba <<< 8) ||| b.setWidth 64

/-- The 48-bit sector number. -/
def CmdFis.lba48 (cfis : CmdFis) : Lba :=
  [cfis.cylLowExp, cfis.sectorNumberExp, cfis.cylHigh, cfis.cylLow, cfis.sectorNumber].foldl shiftIn
    (cfis.cylHighExp.setWidth 64)

/-- The 28-bit sector number. -/
def CmdFis.lba28 (cfis : CmdFis) : Lba :=
  [cfis.cylHigh, cfis.cylLow, cfis.sectorNumber].foldl shiftIn ((cfis.devHead &&& 0xF).setWidth 64)

/-- A sector count of 16 or of 8 bits, where 0 stands for the number after the last one. -/
def count16 (hi lo : BitVec 8) : Nat := if (hi ++ lo).toNat = 0 then 65536 else (hi ++ lo).toNat

def count8 (lo : BitVec 8) : Nat := if lo = 0 then 256 else lo.toNat

/-- What `ahci_handle_cmd_rw_dma` and `ahci_handle_cmd_rw_ncq` share: the assertions, and the
sector count of the FIS replaced by that of the buffer where they differ. -/
def rwInfo (dmabuflen : Nat) (w : Bool) (cfis : CmdFis) (rw : Rw) (lba : Lba) (nsec : Nat) :
    Except Fault DmabufInfo := do
  assert (cfis.devHead &&& 0x40 ≠ 0)
  assert (dmabuflen % 512 == 0)
  assert (w == (rw == .write))
  let nsec := if dmabuflen / 512 ≠ nsec then dmabuflen / 512 else nsec
  .ok { lba := lba, nsec := nsec, ssiz := 512, rwflag := true, identify := .none }

/-- `ahci_handle_cmd_rw_dma`. -/
def ahciHandleCmdRwDma (dmabuflen : Nat) (w : Bool) (cfis : CmdFis) (rw : Rw) (ext : Bool) :
    Except Fault DmabufInfo :=
  if ext then rwInfo dmabuflen w cfis rw cfis.lba48 (count16 cfis.sectorCountExp cfis.sectorCount)
  else rwInfo dmabuflen w cfis rw cfis.lba28 (count8 cfis.sectorCount)

/-- `ahci_handle_cmd_rw_ncq`. -/
def ahciHandleCmdRwNcq (dmabuflen : Nat) (w : Bool) (cfis : CmdFis) (rw : Rw) :
    Except Fault DmabufInfo :=
  rwInfo dmabuflen w cfis rw cfis.lba48 (count16 cfis.featuresExp cfis.features)

/-- The handlers of `ahci_cmd_handler_table`; classes that have none are invalid. -/
def ahciHandleCmd (dmabuflen : Nat) (w : Bool) (old : DmabufInfo) (cfis : CmdFis) (type : CmdType) :
    Except Fault DmabufInfo :=
  match type.cls with
  | .invalid | .dmq | .packet | .service => .error .panic
  | .nondata | .devparam | .through => .ok { old with rwflag := false, identify := .none }
  | .identify => .ok { old with rwflag := false, identify := if type.ext then .packet else .device }
  | .pio | .dma => ahciHandleCmdRwDma dmabuflen w cfis type.rw type.ext
  | .ncq => ahciHandleCmdRwNcq dmabuflen w cfis type.rw

/-- `ahci_handle_packet`. `sector_count * sector_size` is computed in 32 bits. -/
def ahciHandlePacket (dmabuflen : Nat) (old : DmabufInfo) (stale : PacketDevice)
    (acmd : Nat → BitVec 8) : Except Fault DmabufInfo :=
  let packet := packetHandleCommand stale acmd
  if packet.kind = .command then
    if dmabuflen ≠ packet.sectorCount.toNat * packet.sectorSize % 2 ^ 32 then .error .panic
    else .ok { old with
      rwflag := true, lba := packet.lba, nsec := packet.sectorCount.toNat, ssiz := packet.sectorSize }
  else .ok { old with rwflag := false }

/-- What the prehook finds out, with its assertions. -/
def commandInfo (device : PortDevice) (stale : PacketDevice) (slot : Slot) :
    Except Fault DmabufInfo := do
  assert (slot.cfis.fisType == 0x27)
  let type := ataGetCmdType slot.cfis.command
  if slot.hdr.a then
    assert (type.cls == .packet)
    ahciHandlePacket slot.dmabuflen slot.info stale slot.acmd
  else
    let info ← ahciHandleCmd slot.dmabuflen slot.hdr.w slot.info slot.cfis type
    assert (!info.rwflag || !device.atapi)
    .ok info

/-! ### The hooks -/

/-- `storage_handle_sectors` on the shadow buffer. -/
def handleBuffer (device : PortDevice) (rw : Rw) (info : DmabufInfo) (buf : List (BitVec 8)) :
    Except Fault (List (BitVec 8)) :=
  let access : StorageAccess := ⟨info.lba, info.nsec, info.ssiz, rw⟩
  match storageHandleSectors device.storageDevice access 0 0 (ByteMem.write (fun _ => 0) 0 buf) with
  | some mem => .ok (mem.read 0 buf.length)
  | none => .error .assertion

/-- `ahci_cmd_prehook`, for the shadow buffer `buf`. -/
def ahciCmdPrehook (device : PortDevice) (stale : PacketDevice) (slot : Slot)
    (buf : List (BitVec 8)) : Except Fault Slot := do
  let info ← commandInfo device stale slot
  let buf ← (if info.rwflag && slot.hdr.w then handleBuffer device .write info buf else .ok buf)
  .ok { slot with info := info, dmabuf := some buf }

/-- The field `atapi` of the identification data: the upper two bits of its first word. -/
def identityAtapi (buf : List (BitVec 8)) : BitVec 2 := (buf.getD 1 0).extractLsb' 6 2

/-- `ahci_identity_check`. -/
def ahciIdentityCheck (device : PortDevice) (slot : Slot) : Except Fault PortDevice :=
  match slot.info.identify, slot.dmabuf with
  | .packet, some buf =>
    if identityAtapi buf = 2 ∧ !device.atapi then
      .ok { device with storageDevice := device.atapiDevice, atapi := true }
    else .ok device
  | .packet, none => .error .nullBuffer
  | .device, _ => .ok device
  | .none, _ => .error .panic

/-- `ahci_cmd_posthook`. -/
def ahciCmdPosthook (device : PortDevice) (slot : Slot) : Except Fault (PortDevice × Slot) :=
  if slot.info.identify ≠ .none then do
    let device ← ahciIdentityCheck device slot
    .ok (device, slot)
  else if slot.info.rwflag && !slot.hdr.w then
    match slot.dmabuf with
    | some buf =>
      (handleBuffer device .read slot.info buf).map fun buf =>
        (device, { slot with dmabuf := some buf })
    | none => .error .nullBuffer
  else .ok (device, slot)

/-! ### Starting and completing -/

/-- What `ahci_cmd_start` finds for a slot: the command header, the scatter list as
`ahci_get_dmalen` reads it, the command table as it is read after that, and what the memory that
it allocates and its stack hold. -/
structure StartReading where
  hdr : CommandHeader
  counted : Nat → Prd
  table : CommandTable
  fresh : ByteMem
  stale : PacketDevice

/-- The scatter list that is counted. -/
def StartReading.prdt (r : StartReading) : List Prd := entries r.counted r.hdr.prdtl

/-- The largest total that `ahci_cmd_start` asserts. -/
abbrev maxTotalsize : Nat := 4 * 1024 * 1024

/-- The slot with its shadow table and header for a buffer of `totalsize` bytes. -/
def Slot.allocated (slot : Slot) (r : StartReading) (totalsize : BitVec 32) (intr : Bool) : Slot :=
  { slot with
    dmabuflen := totalsize.toNat
    hdr := { r.hdr with prdtl := 1 }
    cfis := r.table.cfis
    acmd := r.table.acmd
    dbc := ((totalsize - 2) ||| 1).setWidth 22
    i := intr }

/-- The shadow buffer of `n` bytes after the copy from the guest that a write makes. -/
def StartReading.filled (r : StartReading) (mem : ByteMem) (n : Nat) :
    Except Fault (List (BitVec 8)) :=
  if r.hdr.w then copyFromGuest mem (entries r.table.prdt r.hdr.prdtl) n
  else .ok (r.fresh.read 0 n)

/-- `ahci_cmd_start` for a slot. -/
def ahciCmdStartSlot (device : PortDevice) (r : StartReading) (mem : ByteMem) (slot : Slot) :
    Except Fault Slot :=
  if r.hdr.prdtl ≠ 0 then do
    let (totalsize, intr) := ahciGetDmalen r.prdt
    assert (totalsize.toNat ≤ maxTotalsize)
    if slot.dmabuf.isSome then .error .panic
    else
      let buf ← r.filled mem totalsize.toNat
      ahciCmdPrehook device r.stale (slot.allocated r totalsize intr) buf
  else do
    assert slot.dmabuf.isNone
    .ok { slot with hdr := r.hdr }

/-- What `ahci_cmd_complete` finds for a slot. -/
structure CompleteReading where
  prdtl : BitVec 16
  prdt : Nat → Prd

/-- What completing a slot does: the slot, the port's device and memory after it, the number of
bytes that are copied to the guest, and what stops it. -/
structure Completion where
  slot : Slot
  device : PortDevice
  mem : ByteMem
  copied : Nat
  fault : Option Fault

/-- `ahci_cmd_complete` for a slot. `free (NULL)` fails an assertion in the allocator. -/
def ahciCmdCompleteSlot (device : PortDevice) (r : CompleteReading) (mem : ByteMem) (slot : Slot) :
    Completion :=
  if r.prdtl ≠ 0 then
    match ahciCmdPosthook device slot with
    | .error f => ⟨slot, device, mem, 0, some f⟩
    | .ok (device, slot) =>
      match slot.dmabuf with
      | none => ⟨slot, device, mem, 0, some .assertion⟩
      | some buf =>
        let copy := if slot.hdr.w then ⟨mem, 0, true⟩
          else copyToGuest (entries r.prdt r.prdtl) slot.dmabuflen buf mem
        if copy.ok then ⟨{ slot with dmabuf := none }, device, copy.mem, copy.copied, none⟩
        else ⟨slot, device, copy.mem, copy.copied, some .assertion⟩
  else ⟨slot, device, mem, 0, if slot.dmabuf.isNone then none else some .assertion⟩

end OnDemandVirt.Ahci
