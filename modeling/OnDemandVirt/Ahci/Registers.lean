import OnDemandVirt.Ahci.Issue

/-!
# The registers of the controller

Every access of the guest to the registers goes through `mmhandler2`. In AHCI mode it completes
what the device is done with before anything else, so that a read of `PxSACT` or `PxCI` shows what
was read ahead of the completions. A run is any order of such accesses (one of eight bytes is made
as two of four), of the VMM's own look at a port, of steps of the device, and of writes of the
guest to its memory.
-/

namespace OnDemandVirt.Ahci

open Lib Storage Ata

/-- `NUM_OF_AHCI_PORTS`. -/
abbrev numOfAhciPorts : Nat := 32

/-- `enum port_off`, as far as it is looked at, and `GLOBAL_GHC`. -/
abbrev pxClb : Nat := 0x00
abbrev pxClbu : Nat := 0x04
abbrev pxCmd : Nat := 0x18
abbrev pxSact : Nat := 0x34
abbrev pxCi : Nat := 0x38
abbrev globalGhc : Nat := 0x04

/-- The registers of a port: `PxSACT`, `PxCI` and the bit ST of `PxCMD`. -/
structure HbaPort where
  sact : SlotBits
  ci : SlotBits
  st : Bool

/-- A port: the VMM's data, the registers, the last command of each slot, and the bits of the two
registers that the guest has read as clear since they were set for a command. -/
structure PortState where
  port : Port
  hba : HbaPort
  issued : Fin numOfCommandHeader → Option Issued
  seenSact : SlotBits
  seenCi : SlotBits

/-- `struct ahci_data`, with the registers and the guest's memory. -/
structure AhciData where
  enabled : Bool
  notAhci : Bool
  ports : Fin numOfAhciPorts → PortState
  mem : ByteMem
  stopped : Option Fault

/-- An access to the registers, of at most four bytes. `value` are the bits that are written. -/
structure Access where
  offset : Nat
  wr : Bool
  value : SlotBits
  len : Nat

/-- What an access meets outside of the VMM: the readings of the guest's memory, the bits that the
device clears while the handler runs, the bits that the controller takes of a write, the bit AE
after a write of `GHC`, and whether the capability registers are those of an AHCI controller. -/
structure Env where
  again : Fin numOfAhciPorts → Fin numOfCommandHeader → CompleteReading
  starts : Fin numOfCommandHeader → StartReading
  doneSact : Fin numOfAhciPorts → SlotBits
  doneCi : Fin numOfAhciPorts → SlotBits
  taken : SlotBits
  ae : Bool
  capable : Bool

/-- What a read shows of the two registers. -/
structure Shown where
  sact : Option SlotBits
  ci : Option SlotBits

namespace Access

variable (a : Access)

/-- The port of the access (`port_num`), where it is not one of the global registers. -/
def portNum : Option (Fin numOfAhciPorts) :=
  if h : 2 ≤ a.offset / 0x80 ∧ a.offset / 0x80 - 2 < numOfAhciPorts then
    some ⟨a.offset / 0x80 - 2, h.2⟩
  else none

/-- `port_off`. -/
def portOff : Nat := a.offset % 0x80

/-- The access has a byte in common with the register at `reg`. -/
def Touches (off reg : Nat) : Prop := reg < off + a.len ∧ off < reg + 4

instance (off reg : Nat) : Decidable (a.Touches off reg) := inferInstanceAs (Decidable (_ ∧ _))

end Access

/-- `ahci_port_eq`. -/
def ahciPortEq (portOff len eqPortOff : Nat) : Except Fault Bool :=
  if portOff = eqPortOff then if len = 4 then .ok true else .error .panic
  else if eqPortOff < portOff then if eqPortOff + 4 ≤ portOff then .ok false else .error .panic
  else if eqPortOff < portOff + len then .error .panic else .ok false

namespace PortState

/-- The device is done with some commands. -/
def clear (sact ci : SlotBits) (s : PortState) : PortState :=
  { s with hba := { s.hba with
      sact i := s.hba.sact i && !sact i
      ci i := s.hba.ci i && !ci i } }

/-- The guest sees what a read shows. -/
def note (shown : Shown) (s : PortState) : PortState :=
  { s with
    seenSact i := s.seenSact i || shown.sact.any fun v => !v i
    seenCi i := s.seenCi i || shown.ci.any fun v => !v i }

/-- The controller takes bits of a write. -/
def setBits (sact ci : SlotBits) (s : PortState) : PortState :=
  { s with
    hba := { s.hba with sact i := s.hba.sact i || sact i, ci i := s.hba.ci i || ci i }
    seenSact i := s.seenSact i && !sact i
    seenCi i := s.seenCi i && !ci i }

end PortState

namespace AhciData

variable (s : AhciData)

/-- A change of one port. -/
def setPort (p : Fin numOfAhciPorts) (f : PortState → PortState) : AhciData :=
  { s with ports := Function.update s.ports p (f (s.ports p)) }

/-- The VMM works on the slots of a port. -/
def onPort (p : Fin numOfAhciPorts) (f : PortRun → PortRun) : AhciData :=
  let run := f ⟨(s.ports p).port, s.mem, [], (s.ports p).issued, s.stopped⟩
  { s.setPort p fun ps => { ps with port := run.port, issued := run.issued } with
    mem := run.mem, stopped := run.stopped }

def stop (f : Fault) : AhciData := { s with stopped := some f }

/-- A slot of the port has a command. -/
def Busy (p : Fin numOfAhciPorts) : Prop := ∃ i, (s.ports p).port.shadowbit i = true

instance (p : Fin numOfAhciPorts) : Decidable (s.Busy p) := inferInstanceAs (Decidable (∃ _, _))

/-- `ahci_readwrite`. -/
def ahciReadwrite (env : Env) (a : Access) : AhciData × Shown :=
  match a.portNum with
  | none => (s, ⟨none, none⟩)
  | some p =>
    let sact : Bool := a.Touches a.portOff pxSact
    let ci : Bool := a.Touches a.portOff pxCi
    if a.wr then
      let s := s.setPort p (·.setBits (fun i => sact && a.value i && env.taken i)
        fun i => ci && a.value i && env.taken i)
      let st : Bool := if a.Touches a.portOff pxCmd then a.value 0 else (s.ports p).hba.st
      (s.setPort p fun ps => { ps with hba := { ps.hba with st := st } }, ⟨none, none⟩)
    else
      (s, ⟨if sact then some (s.ports p).hba.sact else none,
        if ci then some (s.ports p).hba.ci else none⟩)

/-- `ahci_probe`, with the bit AE of the value that was written. -/
def ahciProbe (env : Env) (wroteGhc ae : Bool) : AhciData :=
  if wroteGhc && s.enabled && ae then s
  else if wroteGhc && ae && !env.ae then { s with notAhci := true }
  else if s.enabled then if !env.ae then { s with enabled := false } else s
  else if !env.ae then s
  else if !env.capable then { s with notAhci := true } else { s with enabled := true }

/-- The handler in the middle of an access: what it answers, and whether it does. -/
structure Handling where
  ad : AhciData
  shown : Shown
  answered : Bool

/-- What is completed of a port, while the device goes on. -/
def lookAt (env : Env) (p : Fin numOfAhciPorts) : AhciData :=
  (s.onPort p (·.ahciCmdComplete (env.again p) (s.ports p).hba.sact (s.ports p).hba.ci)).setPort p
    (·.clear (env.doneSact p) (env.doneCi p))

/-- A port in the loop of `mmhandler2`. -/
def completePort (env : Env) (a : Access) (h : Handling) (p : Fin numOfAhciPorts) : Handling :=
  if h.ad.stopped.isNone ∧ h.ad.Busy p then
    let ad := h.ad.lookAt env p
    if ad.stopped.isNone ∧ a.wr = false ∧ a.portNum = some p then
      match ahciPortEq a.portOff a.len pxSact, ahciPortEq a.portOff a.len pxCi with
      | .error f, _ => ⟨ad.stop f, h.shown, h.answered⟩
      | .ok true, _ => ⟨ad, ⟨some (h.ad.ports p).hba.sact, none⟩, true⟩
      | .ok false, .error f => ⟨ad.stop f, h.shown, h.answered⟩
      | .ok false, .ok true => ⟨ad, ⟨none, some (h.ad.ports p).hba.ci⟩, true⟩
      | .ok false, .ok false => ⟨ad, h.shown, h.answered⟩
    else ⟨ad, h.shown, h.answered⟩
  else h

/-- A case of the handler, unless the VMM has stopped: what it does where the access is one to the
register at `reg`, and where it is not. -/
def regCase (off len reg : Nat) (yes no : AhciData → AhciData) (s : AhciData) : AhciData :=
  if s.stopped.isSome then s
  else
    match ahciPortEq off len reg with
    | .error f => s.stop f
    | .ok true => yes s
    | .ok false => no s

/-- A write of `PxCMD`. The writes of `PxCLB` and `PxCLBU` that go with a start are to the shadow
list. -/
def writeCmd (p : Fin numOfAhciPorts) (a : Access) (s : AhciData) : AhciData :=
  if s.Busy p ∧ a.value 0 = false ∧ (s.ports p).hba.st = true then s.onPort p (·.ahciCmdCancel)
  else s

/-- A write of `PxCI`. -/
def writeCi (env : Env) (p : Fin numOfAhciPorts) (a : Access) (s : AhciData) : AhciData :=
  (s.onPort p (·.ahciCmdStart env.starts a.value)).setPort p fun ps =>
    { ps with
      seenSact i := ps.seenSact i && !a.value i
      seenCi i := ps.seenCi i && !a.value i }

/-- A write of `GHC`, or of a register that is not looked at. -/
def writeRest (env : Env) (a : Access) (s : AhciData) : AhciData :=
  regCase a.offset a.len globalGhc (·.ahciProbe env true (a.value 31))
    (fun s => (s.ahciReadwrite env a).1) s

/-- The part of `mmhandler2` for writes in AHCI mode. `PxCLB` and `PxCLBU` are kept from the
controller. -/
def handleWrite (env : Env) (a : Access) (s : AhciData) : AhciData :=
  match a.portNum with
  | none => s.writeRest env a
  | some p =>
    regCase a.portOff a.len pxClb id
      (regCase a.portOff a.len pxClbu id fun s =>
        writeRest env a
          (regCase a.portOff a.len pxCi (writeCi env p a) id
            (regCase a.portOff a.len pxSact id id
              (regCase a.portOff a.len pxCmd (writeCmd p a) id s)))) s

/-- The part for reads. -/
def handleRead (env : Env) (a : Access) (s : AhciData) : AhciData × Shown :=
  match a.portNum with
  | none => s.ahciReadwrite env a
  | some _ =>
    match ahciPortEq a.portOff a.len pxClb, ahciPortEq a.portOff a.len pxClbu with
    | .error f, _ => (s.stop f, ⟨none, none⟩)
    | .ok true, _ => (s, ⟨none, none⟩)
    | .ok false, .error f => (s.stop f, ⟨none, none⟩)
    | .ok false, .ok true => (s, ⟨none, none⟩)
    | .ok false, .ok false => s.ahciReadwrite env a

/-- `mmhandler2`. -/
def mmhandler2 (env : Env) (a : Access) : AhciData × Shown :=
  if s.notAhci then s.ahciReadwrite env a
  else if s.enabled = false then
    let (s', shown) := s.ahciReadwrite env a
    if a.wr ∧ a.Touches a.offset globalGhc then
      (s'.ahciProbe env (a.offset == globalGhc && 4 ≤ a.len) (a.value 31), shown)
    else (s', shown)
  else if numOfAhciPorts ≤ a.offset / 0x80 - 2 then (s.stop .assertion, ⟨none, none⟩)
  else
    let h := (List.finRange numOfAhciPorts).foldl (completePort env a) ⟨s, ⟨none, none⟩, false⟩
    if h.ad.stopped.isSome then (h.ad, ⟨none, none⟩)
    else if h.answered then (h.ad, h.shown)
    else if 0x80 < a.portOff + a.len then (h.ad.stop .assertion, ⟨none, none⟩)
    else if a.wr then (h.ad.handleWrite env a, ⟨none, none⟩)
    else h.ad.handleRead env a

/-- An access of the guest, who sees what a read shows. -/
def access (env : Env) (a : Access) : AhciData :=
  let (s', shown) := s.mmhandler2 env a
  match a.portNum with
  | some p => if s'.stopped.isNone then s'.setPort p (·.note shown) else s'
  | none => s'

end AhciData

/-- What happens around a controller. -/
inductive AhciEvent
  | access (a : Access) (env : Env)
  /-- A command of the VMM itself begins with a look at the port. -/
  | poll (p : Fin numOfAhciPorts) (again : Fin numOfCommandHeader → CompleteReading)
  /-- The device is done with commands. -/
  | device (p : Fin numOfAhciPorts) (sact ci : SlotBits)
  /-- The device stores bytes that a command reads. -/
  | deviceData (p : Fin numOfAhciPorts) (i : Fin numOfCommandHeader) (data : ByteMem)
  /-- The guest writes its memory. -/
  | guest (mem : ByteMem)

/-- The device works on a slot for a command that reads. -/
def PortState.Reads (s : PortState) (i : Fin numOfCommandHeader) : Prop :=
  (s.hba.ci i || s.hba.sact i) = true ∧ (s.port.slots i).hdr.w = false

instance (s : PortState) (i : Fin numOfCommandHeader) : Decidable (s.Reads i) :=
  inferInstanceAs (Decidable (_ ∧ _))

/-- The runs of a controller whose ports are initialized. -/
def ahciMachine : Machine AhciData AhciEvent where
  init s := s.stopped = none ∧ ∀ p i, (s.ports p).port.slots i = .initial ∧
    (s.ports p).port.shadowbit i = false ∧ (s.ports p).issued i = none
  step s e :=
    if s.stopped.isSome then none
    else
      match e with
      | .access a env => some (s.access env a)
      | .poll p again =>
        some (s.onPort p (·.ahciCmdComplete again (s.ports p).hba.sact (s.ports p).hba.ci))
      | .device p sact ci => some (s.setPort p (·.clear sact ci))
      | .deviceData p i data =>
        if (s.ports p).Reads i then some (s.onPort p (·.deviceWrite i data)) else none
      | .guest mem => some { s with mem := mem }

end OnDemandVirt.Ahci
