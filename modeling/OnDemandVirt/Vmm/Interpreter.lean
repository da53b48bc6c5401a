import OnDemandVirt.Vmm.Decode

/-!
# The interpreter

`cpu_interpreter` after decoding: the operands of an instruction and the functions `opcode_...`, in
the order in which they read and write the guest.
-/

namespace OnDemandVirt.Vmm.Interp

open Lib Lib.Fallible Lib.LowBits

def rflagsCfBit : BitVec 64 := 0x1
def rflagsAlways1Bit : BitVec 64 := 0x2
def rflagsTfBit : BitVec 64 := 0x100
def rflagsIoplMask : BitVec 64 := 0x3000
def rflagsRfBit : BitVec 64 := 0x10000
def rflagsVmBit : BitVec 64 := 0x20000
def rflagsAcBit : BitVec 64 := 0x40000
def rflagsVifBit : BitVec 64 := 0x80000
def rflagsVipBit : BitVec 64 := 0x100000
def rflagsSysMask : BitVec 64 := 0x3F7300
def rflagsNonsysMask : BitVec 64 := 0xCD5
def cr0TsBit : BitVec 64 := 0x8

/-- `flagmask` in `opcode_idata`. -/
def flagmask : BitVec 64 := 0xCD5

variable {S M : Type} (p : Platform S M)

/-- The programs of the interpreter. -/
abbrev Emul (S M : Type) (α : Type) := Fallible (Vcpu S M) Abort α

/-! ### Operands -/

/-- `modrm_off`. -/
def modrmOff (op : InstOp) (o : Nat) : BitVec 64 :=
  let addr := op.addr + BitVec.ofNat 64 o
  let addr := if op.ripflag then addr + (op.ip + BitVec.ofNat 64 op.ipOff) else addr
  low op.addrtype.bits addr

/-- `reg8_general_reg` and `reg8_dp`: the register, and whether it is its second byte. -/
def reg8 (rex : Bool) (r : GeneralReg) : GeneralReg × Bool :=
  if rex = true ∨ r.val < 4 then (r, false) else (r - 4, true)

/-- `get_reg8`, or a register of `n` bytes. -/
def getRegN (n : Nat) (rex : Bool) (r : GeneralReg) (g : Vcpu S M) : BitVec 64 :=
  if n = 1 then
    let b := reg8 rex r
    low 8 (if b.2 then g.reg b.1 >>> 8 else g.reg b.1)
  else low (8 * n) (g.reg r)

/-- `set_reg8`, `set_reg16` or `set_reg`. -/
def setRegN (n : Nat) (rex : Bool) (r : GeneralReg) (d : BitVec 64) (g : Vcpu S M) : Vcpu S M :=
  if n = 1 then
    let b := reg8 rex r
    let x := g.reg b.1
    g.setReg b.1 (if b.2 then (x &&& ~~~0xFF00#64) ||| (low 8 d <<< 8) else setLow 8 x d)
  else if n = 2 then g.setReg r (setLow 16 (g.reg r) d)
  else g.setReg r (low (8 * n) d)

/-- Whether there is a REX prefix. -/
def InstOp.hasRex (op : InstOp) : Bool := op.rex != 0

/-- `read_modrm8` and the others, of `n` bytes. -/
def readModrm (n : Nat) (op : InstOp) (o : Nat) (g : Vcpu S M) : Except Abort (BitVec 64) :=
  match op.brm with
  | none => (lguestsegRead p op.longmode n op.seg (modrmOff op o) g).map (low (8 * n))
  | some r => if o ≠ 0 then .error .panic else .ok (getRegN n op.hasRex r g)

/-- `write_modrm8` and the others, with the offset 0. -/
def writeModrm (n : Nat) (op : InstOp) (d : BitVec 64) : Emul S M Unit :=
  match op.brm with
  | none => lguestsegWrite p op.longmode n op.seg (modrmOff op 0) d
  | some r => modify (setRegN n op.hasRex r d)

/-- The bytes of an operand. -/
def operandLen (op : InstOp) (len : Nat) : Nat := if len = 1 then 1 else op.optype.bits / 8

/-- `idata_rd`. -/
def idataRd (op : InstOp) (operand : IdataOperand) (len : Nat) (g : Vcpu S M) :
    Except Abort (BitVec 64) :=
  let n := operandLen op len
  match operand with
  | .m => readModrm p n op 0 g
  | .r => .ok (getRegN n op.hasRex op.rreg g)
  | .a => .ok (getRegN n false .rax g)
  | .i => .ok (low (8 * n) op.imm)
  | .one => .ok 1
  | .c => if len = 1 then .ok (getRegN 1 false .rcx g) else .error .panic

/-- `idata_wr`. -/
def idataWr (op : InstOp) (operand : IdataOperand) (len : Nat) (d : BitVec 64) : Emul S M Unit :=
  let n := operandLen op len
  match operand with
  | .m => writeModrm p n op d
  | .r => modify (setRegN n op.hasRex op.rreg d)
  | .a => modify (setRegN n false .rax d)
  | .i => throw .panic
  | .one => throw .panic
  | .c => throw .panic

/-- `UPDATE_IP`. -/
def updateIp (op : InstOp) : Emul S M Unit := modify fun g => g.updateIp op.toOp

/-- `DEBUG_UNIMPLEMENTED`, and the instructions that panic. -/
def panic : Emul S M Unit := throw .panic

def setSys (f : S → S) : Emul S M Unit :=
  modify fun g => { g with world := { g.world with sys := f g.world.sys } }

def setFlags (f : BitVec 64 → BitVec 64) : Emul S M Unit :=
  modify fun g => { g with flags := f g.flags }

/-! ### Interrupt flag and halt -/

/-- `cpu_emul_cli`. -/
def cpuEmulCli : Emul S M Unit := setFlags fun flags => flags &&& ~~~rflagsIfBit

/-- `cpu_emul_sti`. -/
def cpuEmulSti : Emul S M Unit := do
  setFlags fun flags => flags ||| rflagsIfBit
  setSys p.intEnabled

def opcodeHlt (op : InstOp) : Emul S M Unit := do
  updateIp op
  setSys p.hlt

def opcodeCli (op : InstOp) : Emul S M Unit := do
  updateIp op
  cpuEmulCli

def opcodeSti (op : InstOp) : Emul S M Unit := do
  updateIp op
  cpuEmulSti p

/-! ### The stack and interrupts -/

/-- `cpu_stack_get`, a push, `cpu_stack_set` and `UPDATE_IP`. -/
def pushValue (op : InstOp) (data : BitVec 64) : Emul S M Unit := do
  let sp ← reads (cpuStackGet p)
  let sp ← cpuStackPush p sp data op.optype
  cpuStackSet p sp
  updateIp op

def opcodePushf (op : InstOp) : Emul S M Unit :=
  if op.longmode then panic
  else do
    let g ← get
    pushValue p op (g.flags &&& ~~~(rflagsVmBit ||| rflagsRfBit))

/-- The flags after `rflags` has been popped. -/
def poppedFlags (orflags rflags : BitVec 64) : BitVec 64 :=
  let kept := rflagsRfBit ||| rflagsVmBit ||| rflagsVifBit ||| rflagsVipBit ||| rflagsIoplMask
  (((rflags &&& (rflagsSysMask ||| rflagsNonsysMask)) ||| rflagsAlways1Bit) &&& ~~~kept) |||
    (orflags &&& kept)

/-- A popped value in a variable. -/
def popInto (type : Width) (old d : BitVec 64) : BitVec 64 := setLow (8 * stackLen type) old d

def opcodePopf (op : InstOp) : Emul S M Unit :=
  if op.longmode then panic
  else do
    let sp ← reads (cpuStackGet p)
    let g ← get
    let (d, sp) ← reads (cpuStackPop p sp op.optype)
    let rflags := poppedFlags g.flags (popInto op.optype g.flags d)
    setFlags fun _ => rflags
    updateIp op
    cpuStackSet p sp
    if rflags &&& rflagsIfBit ≠ 0 then cpuEmulSti p else pure ()

def opcodeIret (op : InstOp) : Emul S M Unit :=
  if op.longmode then panic
  else if op.real then do
    let sp ← reads (cpuStackGet p)
    let g ← get
    let (rip, sp) ← reads (cpuStackPop p sp op.optype)
    let (cs, sp) ← reads (cpuStackPop p sp op.optype)
    let (d, sp) ← reads (cpuStackPop p sp op.optype)
    let rflags := poppedFlags g.flags (popInto op.optype g.flags d)
    setFlags fun _ => rflags
    setSys (p.writeRealmodeSeg .cs (cs.setWidth 16))
    modify fun g => { g with ip := popInto op.optype 0 rip }
    cpuStackSet p sp
    if rflags &&& rflagsIfBit ≠ 0 then cpuEmulSti p else pure ()
  else panic

/-- `read_sreg_sel`. -/
def readSel (r : Fin 8) (g : Vcpu S M) : Except Abort (BitVec 64) :=
  match p.readSregSel r g.world.sys with
  | some sel => .ok (sel.setWidth 64)
  | none => .error .panic

def SegReg.no : SegReg → Fin 8
  | .es => 0
  | .cs => 1
  | .ss => 2
  | .ds => 3
  | .fs => 4
  | .gs => 5

/-- A vector of the table at the base of IDTR: the offset, then the segment. -/
def readVector (num : BitVec 64) (o : Nat) (g : Vcpu S M) : Except Abort (BitVec 64) :=
  (readLinearaddrW p g.world.sys g.world.mem
    (p.idtrBase g.world.sys + (num <<< 2) + BitVec.ofNat 64 o)).map (low 16)

/-- `cpu_emul_realmode_int`. -/
def cpuEmulRealmodeInt (num : BitVec 64) : Emul S M Unit := do
  let off ← reads (readVector p num 0)
  let seg ← reads (readVector p num 2)
  let cs ← reads (readSel p (SegReg.no .cs))
  let g ← get
  let sp ← reads (cpuStackGet p)
  let sp ← cpuStackPush p sp g.flags .w16
  let sp ← cpuStackPush p sp cs .w16
  let sp ← cpuStackPush p sp g.ip .w16
  setSys (p.writeRealmodeSeg .cs (seg.setWidth 16))
  modify fun g => { g with ip := off }
  setFlags fun _ => g.flags &&& ~~~(rflagsTfBit ||| rflagsAcBit)
  cpuStackSet p sp
  cpuEmulCli

/-- `opcode_int` and, with the vector 3, `opcode_int3`. -/
def opcodeIntN (num : BitVec 64) (op : InstOp) : Emul S M Unit :=
  if op.real then do
    updateIp op
    cpuEmulRealmodeInt p num
  else panic

def opcodePushSr (op : InstOp) (r : SegReg) : Emul S M Unit :=
  if op.longmode then panic
  else do
    let sel ← reads (readSel p (SegReg.no r))
    pushValue p op sel

/-- The functions that load a segment register: `VMMERR_SW` where the switch of modes goes on. -/
def writingSreg (r : Fin 8) : Emul S M Unit := do
  let g ← get
  if p.writingSreg r g.world.sys = .sw then throw (.err .sw) else panic

def opcodeFfPush (op : InstOp) : Emul S M Unit :=
  if op.longmode then panic
  else do
    let data ← reads (readModrm p (stackLen op.optype) op 0)
    pushValue p op data

def opcode8fPop (op : InstOp) : Emul S M Unit :=
  if op.longmode then panic
  else do
    let sp ← reads (cpuStackGet p)
    let (data, sp) ← reads (cpuStackPop p sp op.optype)
    writeModrm p (stackLen op.optype) op data
    updateIp op
    cpuStackSet p sp

/-! ### I/O -/

/-- `opcode_in_dx` and the others for a port: what is in RAX and the type of the access. -/
def opcodeIn (byte : Bool) (port : BitVec 64) (op : InstOp) : Emul S M Unit := do
  let g ← get
  let rax := if byte ∨ op.optype = .w16 then g.reg .rax else 0
  let r := p.callIo (if byte then .inb else if op.optype = .w16 then .inw else .inl) port rax g
  modify fun _ =>
    match r.2 with
    | .rerun => r.1
    | .cont data updateip =>
      let g := r.1.setReg .rax data
      if updateip then g else g.updateIp op.toOp

/-- `opcode_out_dx` and the others for a port. -/
def opcodeOut (byte : Bool) (port : BitVec 64) (op : InstOp) : Emul S M Unit := do
  let g ← get
  let r := p.callIo (if byte then .outb else if op.optype = .w16 then .outw else .outl) port
    (g.reg .rax) g
  modify fun _ =>
    match r.2 with
    | .rerun => r.1
    | .cont _ updateip => if updateip then r.1 else r.1.updateIp op.toOp

/-- The port in the instruction, or in DX. -/
def immPort (op : InstOp) : BitVec 64 := op.imm &&& 0xFF

def dxPort (g : Vcpu S M) : BitVec 64 := g.reg .rdx &&& 0xFFFF

/-! ### Registers of the system -/

/-- The control registers there are; with another number the VMM panics. -/
def knownCr (n : GeneralReg) : Bool := n = 0 || n = 2 || n = 3 || n = 4

def opcodeMovToCr (op : InstOp) : Emul S M Unit := do
  let g ← get
  let cr := getReg g op.brm
  let cr := if op.longmode then cr else cr &&& 0xFFFFFFFF
  if knownCr op.rreg then
    setSys (p.writeControlReg op.rreg cr)
    updateIp op
  else panic

def opcodeMovFromCr (op : InstOp) : Emul S M Unit := do
  let g ← get
  let cr := p.readControlReg op.rreg g.world.sys
  let cr := if op.longmode then cr else cr &&& 0xFFFFFFFF
  if knownCr op.rreg then
    modify fun g => (op.brm.map (g.setReg · cr)).getD g
    updateIp op
  else panic

def opcodeClts (op : InstOp) : Emul S M Unit := do
  setSys fun s => p.writeControlReg 0 (p.readControlReg 0 s &&& ~~~cr0TsBit) s
  updateIp op

def opcodeWbinvd (op : InstOp) : Emul S M Unit := updateIp op

/-- What `cpu_emul_rdmsr` reads. -/
def rdmsrRead (g : Vcpu S M) : Bool × BitVec 64 :=
  p.readMsr ((g.reg .rcx).setWidth 32) g.world.sys

/-- RAX and RDX after `cpu_emul_rdmsr`, whether it fails or not. -/
def rdmsrRegs (data : BitVec 64) (g : Vcpu S M) : Vcpu S M :=
  (g.setReg .rax (low 32 data)).setReg .rdx (data >>> 32)

def opcodeRdmsr (op : InstOp) : Emul S M Unit := do
  let g ← get
  modify (rdmsrRegs (rdmsrRead p g).2)
  if (rdmsrRead p g).1 then throw (.err .msrFault) else updateIp op

def opcodeWrmsr (op : InstOp) : Emul S M Unit := do
  let g ← get
  let data := low 32 (g.reg .rax) ||| (g.reg .rdx <<< 32)
  match p.writeMsr ((g.reg .rcx).setWidth 32) data g.world.sys with
  | none => throw (.err .msrFault)
  | some s => do
    setSys fun _ => s
    updateIp op

/-- `opcode_lgdt` and `opcode_lidt`. -/
def opcodeLdt (write : BitVec 32 → BitVec 16 → S → S) (op : InstOp) : Emul S M Unit :=
  if op.brm ≠ none then throw (.err .exceptionUd)
  else if op.longmode then panic
  else do
    let limit ← reads (readModrm p 2 op 0)
    let base ← reads (readModrm p 4 op 2)
    let base := if op.optype = .w16 then base &&& 0x00FFFFFF else base
    setSys (write (base.setWidth 32) (limit.setWidth 16))
    updateIp op

def opcodeSmsw (op : InstOp) : Emul S M Unit := do
  let g ← get
  idataWr p op .m 2 (p.readControlReg 0 g.world.sys)
  updateIp op

/-- The operands with another size. -/
def InstOp.withSize (op : InstOp) (type : Width) : InstOp := { op with optype := type }

def opcodeLmsw (op : InstOp) : Emul S M Unit := do
  let data ← reads (idataRd p (op.withSize .w16) .m 2)
  setSys fun s =>
    p.writeControlReg 0 ((p.readControlReg 0 s &&& ~~~0xF) ||| (data &&& 0xF)) s
  updateIp op

def opcodeInvlpg (op : InstOp) : Emul S M Unit := do
  setSys fun s => p.invlpg (p.readSregBase op.seg s + modrmOff op 0) s
  updateIp op

/-- `opcode_mov_from_sr`. More than 16 bits of a register are written from what lies behind the
variable, taken as zero here. -/
def opcodeMovFromSr (op : InstOp) : Emul S M Unit := do
  let sel ← reads (readSel p op.reg)
  idataWr p (if op.brm = none then op.withSize .w16 else op) .m 2 sel
  updateIp op

/-! ### Moves and arithmetic -/

/-- `opcode_movzx_rm8_to_r` and `opcode_movzx_rm16_to_r`. -/
def opcodeMovzx (n : Nat) (op : InstOp) : Emul S M Unit := do
  let d ← reads (readModrm p n op 0)
  idataWr p op .r 2 d
  updateIp op

def opcode0fLss (op : InstOp) : Emul S M Unit :=
  if op.longmode then panic
  else if op.brm ≠ none then panic
  else if !op.real then panic
  else do
    let n := stackLen op.optype
    let data ← reads (readModrm p n op 0)
    let seg ← reads (readModrm p 2 op n)
    setSys (p.writeRealmodeSeg .ss (seg.setWidth 16))
    modify (setRegN n op.hasRex op.rreg data)
    updateIp op

/-- `mask` of `opcode_bt_imm`: an `int` is shifted, by five bits of the count at most. -/
def btMask (op : InstOp) : BitVec 64 :=
  let count := op.imm.toNat % (if op.optype = .w16 then 16 else 32)
  ((1#32) <<< count).signExtend 64

def opcodeBtImm (op : InstOp) : Emul S M Unit := do
  let data ← reads (idataRd p op .m 2)
  setFlags fun flags =>
    if data &&& btMask op ≠ 0 then flags ||| rflagsCfBit else flags &&& ~~~rflagsCfBit
  updateIp op

/-- `id.func` after `grp_special`. -/
def groupFunc (op : InstOp) : IdataFunction → IdataFunction
  | .grp1 => grp1 op.reg.val
  | .grp2 => grp2 op.reg.val
  | .grp11 => if op.reg = 0 then .mov else .zero
  | func => func

/-- How `DO_IDATA` treats the operands. -/
inductive IdataKind
  | twoOp
  | compare
  | xchg
  | mov
  | unsupported
  deriving DecidableEq

def IdataFunction.kind : IdataFunction → IdataKind
  | .add | .or | .adc | .sbb | .and | .sub | .xor => .twoOp
  | .cmp | .test => .compare
  | .xchg => .xchg
  | .mov => .mov
  | _ => .unsupported

/-- `ID_2OP`: the result and the flags. -/
def id2op (op : InstOp) (id : Idata) (flags src dst : BitVec 64) : BitVec 64 × BitVec 64 :=
  let r := p.alu (groupFunc op id.func) (operandLen op id.len) (flags &&& flagmask) src dst
  (r.1, (flags &&& ~~~flagmask) ||| (r.2 &&& flagmask))

def opcodeIdata (op : InstOp) (id : Idata) : Emul S M Unit :=
  match (groupFunc op id.func).kind with
  | .twoOp => do
    let src ← reads (idataRd p op id.src id.len)
    let dst ← reads (idataRd p op id.dst id.len)
    let g ← get
    let r := id2op p op id g.flags src dst
    idataWr p op id.dst id.len r.1
    setFlags fun _ => r.2
    updateIp op
  | .compare => do
    let src ← reads (idataRd p op id.src id.len)
    let dst ← reads (idataRd p op id.dst id.len)
    let g ← get
    let r := id2op p op id g.flags src dst
    setFlags fun _ => r.2
    updateIp op
  | .xchg => do
    let src ← reads (idataRd p op id.src id.len)
    let dst ← reads (idataRd p op id.dst id.len)
    idataWr p op id.src id.len dst
    idataWr p op id.dst id.len src
    updateIp op
  | .mov => do
    let src ← reads (idataRd p op id.src id.len)
    idataWr p op id.dst id.len src
    updateIp op
  | .unsupported => throw (.err .unsupportedOpcode)

/-! ### The instruction -/

/-- The call of a function `opcode_...`. -/
def exec (ins : Opcode) (op : InstOp) : Emul S M Unit :=
  match ins with
  | .hlt => opcodeHlt p op
  | .cli => opcodeCli op
  | .sti => opcodeSti p op
  | .pushf => opcodePushf p op
  | .popf => opcodePopf p op
  | .iret => opcodeIret p op
  | .int => opcodeIntN p (op.imm &&& 0xFF) op
  | .int3 => opcodeIntN p 3 op
  | .into => panic
  | .inbImm => opcodeIn p true (immPort op) op
  | .inImm => opcodeIn p false (immPort op) op
  | .inbDx => do opcodeIn p true (dxPort (← get)) op
  | .inDx => do opcodeIn p false (dxPort (← get)) op
  | .outbImm => opcodeOut p true (immPort op) op
  | .outImm => opcodeOut p false (immPort op) op
  | .outbDx => do opcodeOut p true (dxPort (← get)) op
  | .outDx => do opcodeOut p false (dxPort (← get)) op
  | .string o => p.string o op.toOp
  | .movFromSr => opcodeMovFromSr p op
  | .movToSr => writingSreg p op.reg
  | .pushSr r => opcodePushSr p op r
  | .popSr r => writingSreg p (SegReg.no r)
  | .jmpFarDirect => writingSreg p (SegReg.no .cs)
  | .jmpFarIndirect => writingSreg p (SegReg.no .cs)
  | .retf => writingSreg p (SegReg.no .cs)
  | .ffPush => opcodeFfPush p op
  | .pop8f => opcode8fPop p op
  | .idata id => opcodeIdata p op id
  | .movToCr => opcodeMovToCr p op
  | .movFromCr => opcodeMovFromCr p op
  | .movToDr => panic
  | .movFromDr => panic
  | .clts => opcodeClts p op
  | .invd => panic
  | .wbinvd => opcodeWbinvd op
  | .rdmsr => opcodeRdmsr p op
  | .wrmsr => opcodeWrmsr p op
  | .movzxRm8ToR => opcodeMovzx p 1 op
  | .movzxRm16ToR => opcodeMovzx p 2 op
  | .lss => opcode0fLss p op
  | .lgdt => opcodeLdt p p.writeGdtr op
  | .lidt => opcodeLdt p p.writeIdtr op
  | .smsw => opcodeSmsw p op
  | .lmsw => opcodeLmsw p op
  | .invlpg => opcodeInvlpg p op
  | .btImm => opcodeBtImm p op

/-- `cpu_interpreter`. -/
def cpuInterpreter : Emul S M Unit := do
  let (ins, op) ← reads (decode p)
  exec p ins op

end OnDemandVirt.Vmm.Interp
