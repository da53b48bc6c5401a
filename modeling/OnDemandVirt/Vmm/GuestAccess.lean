import OnDemandVirt.Lib.Fallible
import OnDemandVirt.Vmm.GetPte
import OnDemandVirt.Vmm.StringInst

/-!
# How the interpreter reaches the guest

The guest of `cpu_interpreter` with its linear addresses (`read_linearaddr_b` and the others of
`cpu_mmu.c`), its segments (`cpu_seg.c`) and its stack (`cpu_stack.c`). A `Platform` is what the
interpreter calls besides: the functions of `current->vmctl`, the walk of the guest's page tables,
guest-physical memory with the devices in it, and the host's arithmetic instructions.
-/

namespace OnDemandVirt.Vmm.Interp

open Lib Lib.Fallible Lib.LowBits

/-- What `cpu_interpreter` and the functions that it calls return, of `enum vmmerr`. -/
inductive InterpErr
  | guestsegNotPresent
  | invalidGuestseg
  | page (e : Vmmerr)
  | instructionTooLong
  | unimplementedOpcode
  | unsupportedOpcode
  | exceptionUd
  | avoidCompilerWarning
  | sw
  | msrFault
  deriving DecidableEq

/-- An error is returned, or the VMM panics. -/
inductive Abort
  | err (e : InterpErr)
  | panic
  deriving DecidableEq

/-- The errors that are returned. -/
def Abort.Returned : Abort → Prop
  | .err _ => True
  | .panic => False

/-- Segments, control registers and the other registers of the system in `sys`; memory and the
devices that are mapped there in `mem`. -/
structure Around (S M : Type) where
  sys : S
  mem : M

/-- The guest between two instructions. -/
abbrev Vcpu (S M : Type) := Guest (Around S M)

/-- `enum idata_function`. -/
inductive IdataFunction
  | zero
  | add
  | or
  | adc
  | sbb
  | and
  | sub
  | xor
  | cmp
  | test
  | xchg
  | mov
  | not
  | neg
  | rol
  | ror
  | rcl
  | rcr
  | shl
  | shr
  | sar
  | grp1
  | grp2
  | grp11
  deriving DecidableEq

/-- How an I/O handler ends: `IOACT_RERUN`, or the data and `current->updateip`. -/
inductive IoAct
  | rerun
  | cont (data : BitVec 64) (updateip : Bool)

structure Platform (S M : Type) where
  readControlReg : GeneralReg → S → BitVec 64
  writeControlReg : GeneralReg → BitVec 64 → S → S
  readSregAcr : SegReg → S → BitVec 64
  readSregBase : SegReg → S → BitVec 64
  /-- By the number in an instruction: `none` where it panics. -/
  readSregSel : Fin 8 → S → Option (BitVec 16)
  writeRealmodeSeg : SegReg → BitVec 16 → S → S
  /-- Writing CS leaves the stack segment alone. -/
  ss_writeRealmodeSeg : ∀ sel s, readSregAcr .ss (writeRealmodeSeg .cs sel s) = readSregAcr .ss s
  /-- What is noted here for the switch of modes is not the guest's. -/
  writingSreg : Fin 8 → S → InterpErr
  /-- Whether it fails, and what is in `msrdata` then or otherwise. -/
  readMsr : BitVec 32 → S → Bool × BitVec 64
  /-- `none` where it fails. -/
  writeMsr : BitVec 32 → BitVec 64 → S → Option S
  idtrBase : S → BitVec 64
  writeGdtr : BitVec 32 → BitVec 16 → S → S
  writeIdtr : BitVec 32 → BitVec 16 → S → S
  invlpg : BitVec 64 → S → S
  hlt : S → S
  intEnabled : S → S
  callIo : IoType → BitVec 64 → BitVec 64 → Vcpu S M → Vcpu S M × IoAct
  /-- `get_pte` for reading or, with `true`, for writing. -/
  getPte : S → M → BitVec 64 → Bool → Except Vmmerr (BitVec 64)
  pteAddrMask : BitVec 64
  readGphys : Nat → BitVec 64 → BitVec 64 → S → M → BitVec 64
  writeGphys : Nat → BitVec 64 → BitVec 64 → BitVec 64 → S → M → M
  /-- The result and the flags of an instruction on operands of some bytes. -/
  alu : IdataFunction → Nat → BitVec 64 → BitVec 64 → BitVec 64 → BitVec 64 × BitVec 64
  /-- The string instructions. -/
  string : StringOpcode → Op → Fallible (Vcpu S M) Abort Unit

variable {S M : Type} (p : Platform S M)

/-! ### Linear addresses -/

/-- `PTE_PWT_BIT | PTE_PCD_BIT | PTE_PAT_BIT`. -/
def pteAttrBits : BitVec 64 := 0x98

/-- `get_pte`, and the guest-physical address with its attributes. -/
def gphysOf (s : S) (m : M) (linear : BitVec 64) (wr : Bool) :
    Except Abort (BitVec 64 × BitVec 64) :=
  match p.getPte s m linear wr with
  | .ok pte => .ok ((pte &&& p.pteAddrMask) ||| (linear &&& 0xFFF), pte &&& pteAttrBits)
  | .error e => .error (.err (.page e))

/-- The part of `read_linearaddr_b` and the others after their tests for a page's end. -/
def readInPage (n : Nat) (s : S) (m : M) (linear : BitVec 64) : Except Abort (BitVec 64) :=
  (gphysOf p s m linear false).map fun g => p.readGphys n g.1 g.2 s m

/-- `read_linearaddr_b`. -/
def readLinearaddrB (s : S) (m : M) (linear : BitVec 64) : Except Abort (BitVec 64) :=
  readInPage p 1 s m linear

/-- `read_linearaddr_w`. -/
def readLinearaddrW (s : S) (m : M) (linear : BitVec 64) : Except Abort (BitVec 64) :=
  if linear &&& 0xFFF = 0xFFF then do
    let lo ← readLinearaddrB p s m linear
    let hi ← readLinearaddrB p s m (linear + 1)
    pure (low 8 lo ||| (low 8 hi <<< 8))
  else readInPage p 2 s m linear

/-- `read_linearaddr_l`. -/
def readLinearaddrL (s : S) (m : M) (linear : BitVec 64) : Except Abort (BitVec 64) :=
  if 0xFFD ≤ linear &&& 0xFFF then do
    let lo ← readLinearaddrW p s m linear
    let hi ← readLinearaddrW p s m (linear + 2)
    pure (low 16 lo ||| (low 16 hi <<< 16))
  else readInPage p 4 s m linear

/-- `read_linearaddr_q`. -/
def readLinearaddrQ (s : S) (m : M) (linear : BitVec 64) : Except Abort (BitVec 64) :=
  if 0xFF9 ≤ linear &&& 0xFFF then do
    let lo ← readLinearaddrL p s m linear
    let hi ← readLinearaddrL p s m (linear + 4)
    pure (low 32 lo ||| (low 32 hi <<< 32))
  else readInPage p 8 s m linear

/-- The one of them for a number of bytes. -/
def readLinearaddr : Nat → S → M → BitVec 64 → Except Abort (BitVec 64)
  | 1 => readLinearaddrB p
  | 2 => readLinearaddrW p
  | 4 => readLinearaddrL p
  | _ => readLinearaddrQ p

/-- The part of `write_linearaddr_b` and the others after their tests for a page's end. -/
def writeInPage (n : Nat) (s : S) (linear data : BitVec 64) : Fallible M Abort Unit := do
  let g ← reads fun m => gphysOf p s m linear true
  modify (p.writeGphys n g.1 (low (8 * n) data) g.2 s)

/-- `write_linearaddr_b`. -/
def writeLinearaddrB (s : S) (linear data : BitVec 64) : Fallible M Abort Unit :=
  writeInPage p 1 s linear data

/-- `write_linearaddr_w`. -/
def writeLinearaddrW (s : S) (linear data : BitVec 64) : Fallible M Abort Unit :=
  if linear &&& 0xFFF = 0xFFF then do
    writeLinearaddrB p s linear data
    writeLinearaddrB p s (linear + 1) (data >>> 8)
  else writeInPage p 2 s linear data

/-- `write_linearaddr_l`. -/
def writeLinearaddrL (s : S) (linear data : BitVec 64) : Fallible M Abort Unit :=
  if 0xFFD ≤ linear &&& 0xFFF then do
    writeLinearaddrW p s linear data
    writeLinearaddrW p s (linear + 2) (data >>> 16)
  else writeInPage p 4 s linear data

/-- `write_linearaddr_q`. -/
def writeLinearaddrQ (s : S) (linear data : BitVec 64) : Fallible M Abort Unit :=
  if 0xFF9 ≤ linear &&& 0xFFF then do
    writeLinearaddrL p s linear data
    writeLinearaddrL p s (linear + 4) (data >>> 32)
  else writeInPage p 8 s linear data

/-- The one of them for a number of bytes. -/
def writeLinearaddr : Nat → S → BitVec 64 → BitVec 64 → Fallible M Abort Unit
  | 1 => writeLinearaddrB p
  | 2 => writeLinearaddrW p
  | 4 => writeLinearaddrL p
  | _ => writeLinearaddrQ p

/-! ### Segments -/

def accessRightsPBit : BitVec 64 := 0x80
def accessRightsLBit : BitVec 64 := 0x2000
def accessRightsDBBit : BitVec 64 := 0x4000
def accessRightsUnusableBit : BitVec 64 := 0x10000

/-- The tests of the access rights, the same in all functions on segments and on the stack. -/
def testAcr (acr : BitVec 64) : Except Abort Unit :=
  if acr &&& accessRightsUnusableBit ≠ 0 then .error (.err .invalidGuestseg)
  else if acr &&& accessRightsPBit = 0 then .error (.err .guestsegNotPresent)
  else .ok ()

/-- `cpu_seg_read_b` and the others. -/
def cpuSegRead (n : Nat) (r : SegReg) (offset : BitVec 64) (g : Vcpu S M) :
    Except Abort (BitVec 64) := do
  testAcr (p.readSregAcr r g.world.sys)
  readLinearaddr p n g.world.sys g.world.mem (p.readSregBase r g.world.sys + offset)

/-- A program over memory. -/
def onMem {α : Type} (w : S → Fallible M Abort α) : Fallible (Vcpu S M) Abort α :=
  onPart (fun g => g.world.mem) (fun g m => { g with world := { g.world with mem := m } })
    fun g => w g.world.sys

/-- `cpu_seg_write_b` and the others. -/
def cpuSegWrite (n : Nat) (r : SegReg) (offset data : BitVec 64) :
    Fallible (Vcpu S M) Abort Unit := do
  reads fun g => testAcr (p.readSregAcr r g.world.sys)
  onMem fun s => writeLinearaddr p n s (p.readSregBase r s + offset) data

/-- `LGUESTSEG_READ_B` and the others. -/
def lguestsegRead (longmode : Bool) (n : Nat) (r : SegReg) (offset : BitVec 64) (g : Vcpu S M) :
    Except Abort (BitVec 64) :=
  if longmode then
    readLinearaddr p n g.world.sys g.world.mem (p.readSregBase r g.world.sys + offset)
  else cpuSegRead p n r offset g

/-- `LGUESTSEG_WRITE_B` and the others. -/
def lguestsegWrite (longmode : Bool) (n : Nat) (r : SegReg) (offset data : BitVec 64) :
    Fallible (Vcpu S M) Abort Unit :=
  if longmode then onMem fun s => writeLinearaddr p n s (p.readSregBase r s + offset) data
  else cpuSegWrite p n r offset data

/-! ### The stack -/

def rspReg : GeneralReg := 4

/-- The access rights of the stack segment. -/
def ssAcr (g : Vcpu S M) : BitVec 64 := p.readSregAcr .ss g.world.sys

/-- A stack pointer in the stack segment. -/
def clipSp (g : Vcpu S M) (sp : BitVec 64) : BitVec 64 :=
  if ssAcr p g &&& accessRightsDBBit = 0 then sp &&& 0xFFFF else sp

/-- `cpu_stack_get`. -/
def cpuStackGet (g : Vcpu S M) : Except Abort (BitVec 64) := do
  testAcr (ssAcr p g)
  pure (clipSp p g (g.reg rspReg))

/-- `cpu_stack_set`. -/
def cpuStackSet (sp : BitVec 64) : Fallible (Vcpu S M) Abort Unit := do
  reads fun g => testAcr (ssAcr p g)
  modify fun g =>
    g.setReg rspReg
      (if ssAcr p g &&& accessRightsDBBit = 0 then
        (g.reg rspReg &&& ~~~0xFFFF) ||| (sp &&& 0xFFFF)
      else sp)

/-- The bytes that are pushed or popped. -/
def stackLen (type : Width) : Nat := if type = .w16 then 2 else 4

/-- `cpu_stack_push`, with the new stack pointer. -/
def cpuStackPush (sp data : BitVec 64) (type : Width) : Fallible (Vcpu S M) Abort (BitVec 64) := do
  reads fun g => testAcr (ssAcr p g)
  let sp ← reads fun g => .ok (clipSp p g (sp - BitVec.ofNat 64 (stackLen type)))
  cpuSegWrite p (stackLen type) .ss sp data
  pure sp

/-- `cpu_stack_pop`, with the data and the new stack pointer. -/
def cpuStackPop (sp : BitVec 64) (type : Width) (g : Vcpu S M) :
    Except Abort (BitVec 64 × BitVec 64) := do
  testAcr (ssAcr p g)
  let data ← cpuSegRead p (stackLen type) .ss sp g
  pure (data, clipSp p g (sp + BitVec.ofNat 64 (stackLen type)))

end OnDemandVirt.Vmm.Interp
