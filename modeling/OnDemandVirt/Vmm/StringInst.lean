import OnDemandVirt.Lib.LowBits
import Mathlib.Logic.Function.Basic
import OnDemandVirt.Lib.Numerals

/-!
# String instructions of the interpreter

`string_instruction` with its callers: MOVS, STOS, INS and OUTS, each with a repeat prefix or
without. How guest memory is reached and what an I/O handler does is not looked into here: a `Bus`
is any behaviour of both. The handlers do not change general registers or the instruction pointer.
-/

namespace OnDemandVirt.Vmm

open Lib.LowBits

/-- `enum addrtype`, `enum optype` and `enum reptype`, which have the same values. -/
inductive Width
  | w16
  | w32
  | w64
  deriving DecidableEq

def Width.bits : Width → Nat
  | .w16 => 16
  | .w32 => 32
  | .w64 => 64

abbrev GeneralReg := Fin 16

namespace GeneralReg

def rax : GeneralReg := 0
def rcx : GeneralReg := 1
def rdx : GeneralReg := 2
def rsi : GeneralReg := 6
def rdi : GeneralReg := 7

end GeneralReg

/-- `enum sreg`. -/
inductive SegReg
  | es
  | cs
  | ss
  | ds
  | fs
  | gs
  deriving DecidableEq

inductive IoType
  | inb
  | inw
  | inl
  | outb
  | outw
  | outl
  deriving DecidableEq

/-- The guest as the interpreter sees it; `world` is its memory and its devices. -/
structure Guest (W : Type) where
  reg : GeneralReg → BitVec 64
  ip : BitVec 64
  flags : BitVec 64
  world : W

/-- Accesses of guest memory by segment, offset and length, `none` and `false` where they fault,
and the I/O handlers, `none` where one asks for a rerun. A failed access may leave traces. -/
structure Bus (W : Type) where
  read : Bool → SegReg → BitVec 64 → Nat → W → W × Option (BitVec 64)
  write : Bool → SegReg → BitVec 64 → Nat → BitVec 64 → W → W × Bool
  callIo : IoType → BitVec 64 → BitVec 64 → W → W × Option (BitVec 64)

def rflagsIfBit : BitVec 64 := 0x200
def rflagsDfBit : BitVec 64 := 0x400

/-- `struct prefix`. -/
structure InstPrefix where
  seg : Option SegReg
  repne : Bool
  repe : Bool
  opsize : Bool
  addrsize : Bool
  rexW : Bool

/-- What `struct op` has for these instructions. -/
structure Op where
  pfx : InstPrefix
  longmode : Bool
  reptype : Width
  optype : Width
  addrtype : Width
  ip : BitVec 64
  ipOff : Nat

/-- The code segment: 64-bit code, or the D/B bit. -/
inductive CodeSize
  | long
  | code32
  | code16
  deriving DecidableEq

/-- The sizes in `cpu_interpreter`. -/
def Op.sized (code : CodeSize) (p : InstPrefix) (ip : BitVec 64) (ipOff : Nat) : Op :=
  match code with
  | .long =>
    { pfx := p, longmode := true, ip, ipOff
      reptype := .w64
      optype := if p.rexW then .w64 else if !p.opsize then .w32 else .w16
      addrtype := if !p.addrsize then .w64 else .w32 }
  | .code32 =>
    { pfx := p, longmode := false, ip, ipOff
      reptype := .w32
      optype := if !p.opsize then .w32 else .w16
      addrtype := if !p.addrsize then .w32 else .w16 }
  | .code16 =>
    { pfx := p, longmode := false, ip, ipOff
      reptype := .w16
      optype := if !p.opsize then .w16 else .w32
      addrtype := if !p.addrsize then .w16 else .w32 }

def Op.rep (op : Op) : Bool := op.pfx.repe || op.pfx.repne

/-- What is done with the data of an element: `execinst_movs`, `execinst_stos`, `execinst_io`. -/
inductive ExecInst
  | movs
  | stos
  | io (type : IoType)

/-- The arguments of `string_instruction`. -/
structure StringArgs where
  rd : Bool
  wr : Bool
  len : Nat
  exec : ExecInst

/-- `io_str`. -/
def ioStr (type : IoType) (len : Nat) : StringArgs :=
  match type with
  | .inb | .inw | .inl => ⟨false, true, len, .io type⟩
  | .outb | .outw | .outl => ⟨true, false, len, .io type⟩

inductive StringOpcode
  | insb
  | ins
  | outsb
  | outs
  | movsb
  | movs
  | stosb
  | stos

/-- `opcode_insb` and the others. -/
def StringOpcode.args (optype : Width) : StringOpcode → StringArgs
  | .insb => ioStr .inb 1
  | .ins => if optype = .w16 then ioStr .inw 2 else ioStr .inl 4
  | .outsb => ioStr .outb 1
  | .outs => if optype = .w16 then ioStr .outw 2 else ioStr .outl 4
  | .movsb => ⟨true, true, 1, .movs⟩
  | .movs => ⟨true, true, optype.bits / 8, .movs⟩
  | .stosb => ⟨false, true, 1, .stos⟩
  | .stos => ⟨false, true, optype.bits / 8, .stos⟩

/-- How the work on an element ends. -/
inductive ElementEnd
  | ok
  | fault
  | rerun
  deriving DecidableEq

/-- The local variables of the loop; `completed` counts its iterations. -/
structure StringLocals where
  regr : BitVec 64
  regw : BitVec 64
  loopcount : Nat
  completed : Nat

/-- How `string_instruction` returns: an error or not, and the guest. -/
structure StringResult (W : Type) where
  err : Bool
  guest : Guest W
  completed : Nat

variable {W : Type} (bus : Bus W) (op : Op) (a : StringArgs)

def Guest.setReg (g : Guest W) (r : GeneralReg) (d : BitVec 64) : Guest W :=
  { g with reg := Function.update g.reg r d }

/-- `UPDATE_IP`. -/
def Guest.updateIp (g : Guest W) : Guest W := { g with ip := op.ip + BitVec.ofNat 64 op.ipOff }

/-- The call of `execinst`. -/
def execInst (e : ExecInst) (g : Guest W) (data : BitVec 64) : W × Option (BitVec 64) :=
  match e with
  | .movs => (g.world, some data)
  | .stos => (g.world, some (g.reg .rax))
  | .io type => bus.callIo type (g.reg .rdx &&& 0xFFFF) data g.world

/-- The read, `execinst` and the write of an iteration. -/
def stringElement (g : Guest W) (regr regw : BitVec 64) : W × ElementEnd :=
  let offr := low op.addrtype.bits regr
  let r :=
    if a.rd then bus.read op.longmode (op.pfx.seg.getD .ds) offr a.len g.world
    else (g.world, some 0)
  match r.2 with
  | none => (r.1, .fault)
  | some data =>
    let x := execInst bus a.exec { g with world := r.1 } data
    match x.2 with
    | none => (x.1, .rerun)
    | some data =>
      if a.wr then
        let offw := low op.addrtype.bits regw
        let y := bus.write op.longmode .es offw a.len data x.1
        (y.1, if y.2 then .ok else .fault)
      else (x.1, .ok)

/-- The index after an element. -/
def stringIndex (flags reg : BitVec 64) : BitVec 64 :=
  let off := low op.addrtype.bits reg
  let off :=
    if flags &&& rflagsDfBit ≠ 0 then off - BitVec.ofNat 64 a.len else off + BitVec.ofNat 64 a.len
  setLow op.addrtype.bits reg off

/-- The loop, from `reploop`; `none` where the fuel is used up. -/
def stringLoop : Nat → Guest W → StringLocals → Option (StringResult W)
  | 0, _, _ => none
  | fuel + 1, g, l =>
    let cnt := low op.reptype.bits (g.reg .rcx)
    if op.rep && cnt = 0 then some ⟨false, g.updateIp op, l.completed⟩
    else
      let cnt := if op.rep then cnt - 1 else 0
      let g :=
        if op.rep then g.setReg .rcx (setLow op.reptype.bits (g.reg .rcx) cnt) else g
      let e := stringElement bus op a g l.regr l.regw
      let g := { g with world := e.1 }
      match e.2 with
      | .fault => some ⟨true, g, l.completed⟩
      | .rerun => some ⟨false, g, l.completed⟩
      | .ok =>
        let regr := if a.rd then stringIndex op a g.flags l.regr else l.regr
        let regw := if a.wr then stringIndex op a g.flags l.regw else l.regw
        if cnt ≠ 0 ∧ l.loopcount ≠ 0 then
          stringLoop fuel g
            { regr, regw
              loopcount :=
                if g.flags &&& rflagsIfBit ≠ 0 then l.loopcount - 1 else l.loopcount
              completed := l.completed + 1 }
        else
          let g := if a.rd then g.setReg .rsi regr else g
          let g := if a.wr then g.setReg .rdi regw else g
          some ⟨false, if cnt = 0 then g.updateIp op else g, l.completed + 1⟩

/-- `string_instruction`. -/
def stringInstruction (g : Guest W) : Option (StringResult W) :=
  stringLoop bus op a ((low op.reptype.bits (g.reg .rcx)).toNat + 1) g
    { regr := g.reg .rsi, regw := g.reg .rdi, loopcount := 16, completed := 0 }

end OnDemandVirt.Vmm
