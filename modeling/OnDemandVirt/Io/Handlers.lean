import OnDemandVirt.Lib.Machine
import OnDemandVirt.Lib.Slots
import OnDemandVirt.Vmm.StringInst
import Mathlib.Data.List.FinRange

/-!
# I/O handlers of the drivers

The table of handlers in `drivers/core.c` and the functions for ports in `core/io_io.c`. All of
it is read and written under `handler_descriptor_lock`, and `core_iofunc` gives the lock up while
a handler runs: a dispatch stops at each handler that it calls and goes on when the handler
answers, and in between anything may happen, calls made by the handler itself included.

A descriptor is never freed, and it is reached by its address: from a slot of the table, and from
`virtio_hd` after `core_io_unregister_virtio_handler` has taken it out of its slot.
-/

namespace OnDemandVirt.Io

open Lib Vmm

/-- `ioport_t`. -/
abbrev Port := BitVec 16

/-- A processor. -/
abbrev CpuId := Nat

/-- `iotype_get_size`. -/
def iotypeGetSize : IoType → Nat
  | .inb | .outb => 1
  | .inw | .outw => 2
  | .inl | .outl => 4

/-- The functions that ports have. -/
inductive IoFunc
  | coreIofunc
  | doIopassDefault
  | other (f : Nat)
  deriving DecidableEq

/-- `enum core_io_ret`. -/
inductive CoreIoRet
  | default
  | next
  | done
  | block
  | invalid
  deriving DecidableEq

/-! ### Ports -/

/-- `io.iofunc`, and the bitmap that tells for which ports an access leaves the guest. -/
structure Ports where
  iofunc : Port → IoFunc
  iobmp : Port → Bool

/-- `set_iofunc`. -/
def setIofunc (port : Port) (func : IoFunc) (s : Ports) : Ports where
  iofunc := Function.update s.iofunc port func
  iobmp := Function.update s.iobmp port (decide (func ≠ .doIopassDefault))

/-- `for (i = 0; i < num; i++) set_iofunc (start + i, func);` -/
def setIofuncs (start : Port) (func : IoFunc) : (num : Nat) → Ports → Ports
  | 0, s => s
  | num + 1, s => setIofunc (start + BitVec.ofNat 16 num) func (setIofuncs start func num s)

/-- The access leaves the guest. -/
def Ports.exits (s : Ports) (type : IoType) (port : Port) : Bool :=
  (List.range (iotypeGetSize type)).any fun i => s.iobmp (port + BitVec.ofNat 16 i)

/-! ### Handlers -/

/-- `struct handler_descriptor`; `handler` stands for the function and its argument. -/
structure HandlerDescriptor (H : Type) where
  start : Port
  endPort : Port
  handler : H
  name : String
  enabled : Bool

/-- The handler is to be called for the port. -/
def HandlerDescriptor.covers {H : Type} (d : HandlerDescriptor H) (port : Port) : Bool :=
  d.enabled && decide (d.start ≤ port) && decide (port ≤ d.endPort)

/-- An index into `handler_descriptor[MAX_HD]`. -/
abbrev Hd := Fin 64

/-- A call of `core_iofunc` whose handler is running. `answers` and `kept` are history: what the
handlers have answered, and the descriptors that are in the table, enabled and for this port ever
since the call began. -/
structure Dispatch where
  port : Port
  i : Nat
  hd : Hd
  answers : List (Hd × CoreIoRet)
  kept : Hd → Option Nat

/-- A call of `core_iofunc` that is over. -/
structure Ended where
  answers : List (Hd × CoreIoRet)
  kept : Hd → Option Nat

/-- What makes the VMM stop or read what it should not. -/
inductive Fault
  | panics
  | nullPointer
  /-- An index outside of `handler_descriptor`. -/
  | outOfBounds
  deriving DecidableEq

/-- The static data of `drivers/core.c`, the ports, and the calls of `core_iofunc`. Descriptors
have the addresses below `next`. -/
structure Handlers (H : Type) where
  desc : Nat → HandlerDescriptor H
  next : Nat
  table : Hd → Option Nat
  hdNum : Int
  hdiVirtio : Option Hd
  virtioHd : Option Nat
  ports : Ports
  dispatch : CpuId → Option Dispatch
  ended : List Ended
  fault : Option Fault

variable {H : Type}

namespace Handlers

variable (s : Handlers H)

def fail (f : Fault) : Handlers H := { s with fault := some f }

/-- Slot `hd` has an enabled handler for the port. -/
def covered (port : Port) (hd : Hd) : Bool := (s.table hd).any fun a => (s.desc a).covers port

/-- The slot that `core_io_register_handler` takes. -/
def freeSlot (ihd : Nat) : Option Hd :=
  (List.finRange 64).find? fun hd => decide (ihd ≤ hd.val) && (s.table hd).isNone

/-- `core_io_register_handler`. -/
def coreIoRegisterHandler (start : Port) (num : Nat) (handler : H) (high : Bool) (name : String)
    (oom : Bool) : Handlers H :=
  if oom then s.fail .panics
  else
    let endPort := start + BitVec.ofNat 16 num - 1
    let new : HandlerDescriptor H :=
      { start, endPort, handler, name, enabled := decide (start ≤ endPort) }
    match s.freeSlot (if high then 0 else 10) with
    | none => s.fail .panics
    | some hd =>
      { s with
        desc := Function.update s.desc s.next new
        next := s.next + 1
        table := Function.update s.table hd (some s.next)
        hdiVirtio := if name = "virtio_net" then some hd else s.hdiVirtio
        hdNum := s.hdNum + 1
        ports := if new.enabled then setIofuncs start .coreIofunc num s.ports else s.ports }

theorem toNat_lt_table {hd : Int} (h : 0 ≤ hd ∧ hd < 64) : hd.toNat < 64 := by
  omega

theorem sub_lt_table (n : Nat) : 63 - n < 64 := by
  omega

/-- What an index stands for in `handler_descriptor`. -/
def slot (hd : Int) : Except Fault (Hd × Nat) :=
  if h : 0 ≤ hd ∧ hd < 64 then
    let k : Hd := ⟨hd.toNat, toNat_lt_table h⟩
    match s.table k with
    | none => .error .nullPointer
    | some a => .ok (k, a)
  else .error .outOfBounds

/-- `core_io_modify_handler`, which reads `handler_descriptor[hd]->enabled` whether its tests of
`hd` hold or not. -/
def coreIoModifyHandler (hd : Int) (start : Port) (num : Nat) : Handlers H :=
  match s.slot hd with
  | .error f => s.fail f
  | .ok (_, a) =>
    let endPort := start + BitVec.ofNat 16 num - 1
    let enabled := decide (start ≤ endPort)
    { s with
      desc := Function.update s.desc a { s.desc a with start, endPort, enabled }
      ports := if enabled then setIofuncs start .coreIofunc num s.ports else s.ports }

/-- `core_io_unregister_handler`, whose message is printed before its tests of `hd`. -/
def coreIoUnregisterHandler (hd : Int) : Handlers H :=
  match s.slot hd with
  | .error f => s.fail f
  | .ok (k, _) => { s with table := Function.update s.table k none, hdNum := s.hdNum - 1 }

/-- `core_io_register_virtio_handler`. -/
def coreIoRegisterVirtioHandler : Handlers H :=
  match s.virtioHd, s.hdiVirtio with
  | some a, some k =>
    { s with table := Function.update s.table k (some a), hdNum := s.hdNum + 1 }
  | _, _ => s

/-- `core_io_unregister_virtio_handler`. -/
def coreIoUnregisterVirtioHandler : Handlers H :=
  match s.hdiVirtio with
  | none => s
  | some k =>
    { s with
      virtioHd := s.table k
      table := Function.update s.table k none
      hdNum := s.hdNum - 1 }

/-! ### Dispatch -/

/-- How the loop of `core_iofunc` goes on. -/
inductive Scan
  | finished
  | outOfBounds
  | calls (i : Nat) (hd : Hd)
  deriving DecidableEq

/-- The loop with `n` slots of the table left. -/
def scan (port : Port) : (n : Nat) → (i : Nat) → Scan
  | 0, i => if (i : Int) < s.hdNum then .outOfBounds else .finished
  | n + 1, i =>
    if (i : Int) < s.hdNum then
      let hd : Hd := ⟨63 - n, sub_lt_table n⟩
      match s.table hd with
      | none => scan port n i
      | some a => if (s.desc a).covers port then .calls i hd else scan port n (i + 1)
    else .finished

/-- The descriptors in the table that are enabled and for the port. -/
def covering (port : Port) : Hd → Option Nat := fun k =>
  (s.table k).filter fun a => (s.desc a).covers port

/-- The call of `core_iofunc` is over. -/
def endDispatch (c : CpuId) (e : Ended) : Handlers H :=
  { s with dispatch := Function.update s.dispatch c none, ended := s.ended ++ [e] }

/-- The loop has found its end, or the next handler. If none was called, the ports of the access
are passed through from now on. -/
def goOn (c : CpuId) (type : IoType) (port : Port) (answers : List (Hd × CoreIoRet))
    (kept : Hd → Option Nat) : Scan → Handlers H
  | .outOfBounds => s.fail .outOfBounds
  | .calls i hd =>
    { s with dispatch := Function.update s.dispatch c (some { port, i, hd, answers, kept }) }
  | .finished =>
    let s := s.endDispatch c { answers, kept }
    if answers = [] then
      { s with ports := setIofuncs port .doIopassDefault (iotypeGetSize type) s.ports }
    else s

/-- The guest's access to a port: `vt_io` and `call_io`. -/
def access (c : CpuId) (type : IoType) (port : Port) : Handlers H :=
  if s.ports.exits type port ∧ s.ports.iofunc port = .coreIofunc then
    s.goOn c type port [] (s.covering port) (s.scan port 64 0)
  else s

/-- The handler that dispatch `d` has called answers. The type of the access is not used any more
after a handler was called. -/
def answer (c : CpuId) (d : Dispatch) (r : CoreIoRet) : Handlers H :=
  let answers := d.answers ++ [(d.hd, r)]
  match r with
  | .next => s.goOn c .inb d.port answers d.kept (s.scan d.port (63 - d.hd) (d.i + 1))
  | .invalid => (s.endDispatch c { answers, kept := d.kept }).fail .panics
  | _ => s.endDispatch c { answers, kept := d.kept }

/-- The history of a dispatch after a change of the table. -/
def keep (d : Dispatch) : Dispatch :=
  { d with kept := fun k => (d.kept k).filter fun a => decide (s.covering d.port k = some a) }

/-- The history of all dispatches. -/
def settle : Handlers H := { s with dispatch := fun c => (s.dispatch c).map s.keep }

end Handlers

/-! ### The machine -/

inductive IoEvent (H : Type)
  | register (start : Port) (num : Nat) (handler : H) (high : Bool) (name : String) (oom : Bool)
  | modify (hd : Int) (start : Port) (num : Nat)
  | unregister (hd : Int)
  | registerVirtio
  | unregisterVirtio
  /-- An access of the guest on a processor. -/
  | access (c : CpuId) (type : IoType) (port : Port)
  /-- The handler that was called on a processor answers. -/
  | answer (c : CpuId) (r : CoreIoRet)

/-- `none`: it cannot happen. -/
def Handlers.step (s : Handlers H) (e : IoEvent H) : Option (Handlers H) :=
  if s.fault ≠ none then none
  else
    match e with
    | .register start num handler high name oom =>
      some (s.coreIoRegisterHandler start num handler high name oom).settle
    | .modify hd start num => some (s.coreIoModifyHandler hd start num).settle
    | .unregister hd => some (s.coreIoUnregisterHandler hd).settle
    | .registerVirtio => some s.coreIoRegisterVirtioHandler.settle
    | .unregisterVirtio => some s.coreIoUnregisterVirtioHandler.settle
    | .access c type port => if s.dispatch c = none then some (s.access c type port) else none
    | .answer c r => (s.dispatch c).map fun d => s.answer c d r

/-- No handler is registered yet. The functions of the ports may be anything. -/
structure Handlers.Init (s : Handlers H) : Prop where
  table : ∀ k, s.table k = none
  hdNum : s.hdNum = 0
  hdiVirtio : s.hdiVirtio = none
  virtioHd : s.virtioHd = none
  dispatch : ∀ c, s.dispatch c = none
  ended : s.ended = []
  fault : s.fault = none

def ioMachine (H : Type) : Machine (Handlers H) (IoEvent H) where
  init := Handlers.Init
  step := Handlers.step

end OnDemandVirt.Io
