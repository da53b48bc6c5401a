import OnDemandVirt.Storage.Crypto

/-!
# ATA commands and ATAPI packets

What the storage drivers make of a command byte (`ata_get_cmd_type`) and of a packet
(`packet_handle_command`).
-/

namespace OnDemandVirt.Ata

open Storage

/-- `ata_cmd_class_t`. -/
inductive CmdClass
  | invalid | nondata | pio | dma | dmq | packet | service | identify | devparam | through | ncq
  deriving DecidableEq

/-- `ata_cmd_type_t`. -/
structure CmdType where
  cls : CmdClass
  rw : Rw
  ext : Bool
  deriving DecidableEq

/-- `ata_cmd_type_table`, the entries of which are zero where nothing is written. -/
def ataGetCmdType (command : BitVec 8) : CmdType :=
  match command.toNat with
  -- Non-data Mandatory
  | 0x40 | 0xE0 | 0xE1 | 0xE2 | 0xE3 | 0xE5 | 0xE6 | 0xE7 | 0xEA | 0xC6 | 0xEF
  -- Non-data Optional
  | 0x00 | 0x03 | 0x27 | 0x37 | 0x42 | 0x51 | 0xC0 | 0xD1 | 0xDA | 0xDE | 0xDF | 0xED | 0xF3 | 0xF5
  | 0xF8 | 0xF9
  -- Obsoleted
  | 0x10 => ⟨.nondata, .read, false⟩
  -- PIO IN
  | 0x20 | 0x21 | 0xC4 => ⟨.pio, .read, false⟩
  | 0x24 | 0x29 => ⟨.pio, .read, true⟩
  -- PIO OUT
  | 0x30 | 0xC5 => ⟨.pio, .write, false⟩
  | 0x34 | 0x39 => ⟨.pio, .write, true⟩
  -- DMA
  | 0xC8 => ⟨.dma, .read, false⟩
  | 0x25 => ⟨.dma, .read, true⟩
  | 0xCA => ⟨.dma, .write, false⟩
  | 0x35 | 0x3D => ⟨.dma, .write, true⟩
  -- QUEUED DMA
  | 0xC7 => ⟨.dmq, .read, false⟩
  | 0xCC => ⟨.dmq, .write, false⟩
  | 0x26 => ⟨.dmq, .read, true⟩
  | 0x36 | 0x3E => ⟨.dmq, .write, true⟩
  -- ATAPI
  | 0xA0 => ⟨.packet, .read, false⟩
  | 0xA1 => ⟨.identify, .read, true⟩
  | 0xA2 => ⟨.service, .read, false⟩
  | 0x08 => ⟨.nondata, .read, false⟩
  -- Command Specific
  | 0x91 => ⟨.devparam, .read, false⟩
  | 0xEC => ⟨.identify, .read, false⟩
  | 0xB0 | 0x2F | 0x06 | 0x47 => ⟨.through, .read, false⟩
  -- Native Command Queuing
  | 0x60 => ⟨.ncq, .read, false⟩
  | 0x61 => ⟨.ncq, .write, false⟩
  | _ => ⟨.invalid, .read, false⟩

/-- `LBA_INVALID` and `LBA_NONE`. -/
def lbaInvalid : Lba := BitVec.allOnes 64
def lbaNone : Lba := BitVec.allOnes 64 - 1

/-! ### ATAPI packets -/

/-- `packet_class_t`. -/
inductive PacketClass
  | through | invalid | nondata | confData | readData | writeData
  deriving DecidableEq

/-- The `type` of a `packet_device`. -/
inductive PacketKind
  | command | data | sectorSize | bufferLength
  deriving DecidableEq

/-- The states that a packet leads to. -/
inductive PacketState
  | ready | pioReady | through
  deriving DecidableEq

/-- `struct packet_device`, as far as a packet handler fills it. -/
structure PacketDevice where
  kind : PacketKind
  state : PacketState
  rw : Rw
  sectorSize : Nat
  lba : Lba
  sectorCount : BitVec 32
  deriving DecidableEq

/-- `packet_type_table`: the class and the direction of an operation code. -/
def packetType (code : BitVec 8) : PacketClass × Rw :=
  match code.toNat with
  | 0x00 | 0x1B | 0x1E | 0x35 | 0xA1 => (.nondata, .read)
  | 0x5C => (.confData, .read)
  | 0x28 | 0xA8 => (.readData, .read)
  | 0x2A | 0xAA => (.writeData, .write)
  | _ => (.through, .read)

/-- The big-endian 32-bit field of a packet that starts with the byte `i`. -/
def packetField32 (buf : Nat → BitVec 8) (i : Nat) : BitVec 32 :=
  buf i ++ buf (i + 1) ++ buf (i + 2) ++ buf (i + 3)

/-- `packet_handle_rw`. -/
def packetHandleRw (buf : Nat → BitVec 8) (rw : Rw) : PacketDevice where
  kind := .command
  state := .pioReady
  rw := rw
  sectorSize := 2048
  lba := (packetField32 buf 2).setWidth 64
  sectorCount :=
    if buf 0 = 0x28 ∨ buf 0 = 0x2A then (buf 7 ++ buf 8).setWidth 32 else packetField32 buf 6

/-- `packet_handle_command`. A handler that does not set a field leaves it as it was on the stack
(`stale`). -/
def packetHandleCommand (stale : PacketDevice) (buf : Nat → BitVec 8) : PacketDevice :=
  match packetType (buf 0) with
  | (.through, rw) =>
    { kind := .data, state := .through, lba := lbaNone, sectorCount := 1, sectorSize := 512, rw := rw }
  | (.invalid, _) => { stale with kind := .data, state := .ready, sectorSize := 512 }
  | (.nondata, _) => { stale with kind := .data, state := .ready, sectorSize := 12 }
  | (.confData, rw) =>
    { kind := if buf 0 = 0x25 then .sectorSize else if buf 0 = 0x5C then .bufferLength else stale.kind
      state := .pioReady, lba := lbaNone, sectorCount := 1, sectorSize := 12, rw := rw }
  | (.readData, rw) | (.writeData, rw) => packetHandleRw buf rw

end OnDemandVirt.Ata
