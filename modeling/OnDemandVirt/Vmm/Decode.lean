import OnDemandVirt.Vmm.GuestAccess

/-!
# Decoding

The part of `cpu_interpreter` that reads the bytes of an instruction: prefixes, the opcode with its
tables, ModR/M and SIB bytes, displacements and immediate values. It changes nothing of the guest.
-/

namespace OnDemandVirt.Vmm.Interp

open Lib.LowBits

/-- `enum idata_operand`, without `O_ZERO`. -/
inductive IdataOperand
  | m
  | r
  | a
  | i
  | one
  | c
  deriving DecidableEq

/-- `enum idata_type`, without `I_ZERO`. -/
inductive IdataType
  | modrm
  | imme1
  | imme2
  | mimm1
  | mimm2
  | moffs
  | mgrp3
  | immed
  | nomor
  deriving DecidableEq

/-- `struct idata`. -/
structure Idata where
  type : IdataType
  len : Nat
  dst : IdataOperand
  src : IdataOperand
  func : IdataFunction
  deriving DecidableEq

/-- `struct op`: `seg`, `addr` and `ripflag` are its `modrm_seg`, `modrm_addr` and `modrm_ripflag`,
`brm` and `rreg` its `modrm_brm` and `modrm_rreg`. -/
structure InstOp extends Op where
  real : Bool
  rex : BitVec 8
  mod : Nat
  reg : Fin 8
  rm : Nat
  imm : BitVec 64
  brm : Option GeneralReg
  rreg : GeneralReg
  seg : SegReg
  addr : BitVec 64
  ripflag : Bool

/-- The functions `opcode_...`, and the table of two-operand instructions. -/
inductive Opcode
  | hlt
  | cli
  | sti
  | pushf
  | popf
  | iret
  | int
  | int3
  | into
  | inbImm
  | inImm
  | inbDx
  | inDx
  | outbImm
  | outImm
  | outbDx
  | outDx
  | string (o : StringOpcode)
  | movFromSr
  | movToSr
  | pushSr (r : SegReg)
  | popSr (r : SegReg)
  | jmpFarDirect
  | jmpFarIndirect
  | retf
  | ffPush
  | pop8f
  | idata (id : Idata)
  | movToCr
  | movFromCr
  | movToDr
  | movFromDr
  | clts
  | invd
  | wbinvd
  | rdmsr
  | wrmsr
  | movzxRm8ToR
  | movzxRm16ToR
  | lss
  | lgdt
  | lidt
  | smsw
  | lmsw
  | invlpg
  | btImm

/-! ### Tables -/

/-- A register by its number in an instruction and the bit of the REX prefix. -/
def regNo (n : Nat) (rex : Bool) : GeneralReg := Fin.ofNat 16 (n + if rex then 8 else 0)

/-- `struct modrm_info`. -/
structure ModrmInfo where
  displen : Nat
  reg1 : Option GeneralReg
  reg2 : Option GeneralReg
  defseg : SegReg
  sibflag : Bool
  ripflag : Bool

/-- `modrmmatrix16`. -/
def modrmmatrix16 (mod rm : Nat) : ModrmInfo :=
  let regs : Option GeneralReg × Option GeneralReg × SegReg :=
    match rm with
    | 0 => (some 3, some 6, .ds)
    | 1 => (some 3, some 7, .ds)
    | 2 => (some 5, some 6, .ss)
    | 3 => (some 5, some 7, .ss)
    | 4 => (some 6, none, .ds)
    | 5 => (some 7, none, .ds)
    | 6 => if mod = 0 then (none, none, .ds) else (some 5, none, .ss)
    | _ => (some 3, none, .ds)
  { displen := if mod = 0 ∧ rm = 6 then 2 else mod
    reg1 := regs.1
    reg2 := regs.2.1
    defseg := regs.2.2
    sibflag := false
    ripflag := false }

/-- The displacement of 32-bit and 64-bit addressing. -/
def displenOf (mod : Nat) : Nat := if mod = 2 then 4 else mod

/-- `modrmmatrix32`. -/
def modrmmatrix32 (mod : Nat) (rexB : Bool) (rm : Nat) : ModrmInfo :=
  if rm = 4 then
    { displen := displenOf mod, reg1 := none, reg2 := none, defseg := .ds, sibflag := true
      ripflag := false }
  else if mod = 0 ∧ rm = 5 then
    { displen := 4, reg1 := none, reg2 := none, defseg := .ds, sibflag := false, ripflag := true }
  else
    { displen := displenOf mod, reg1 := some (regNo rm rexB), reg2 := none
      defseg := if rm = 5 then .ss else .ds
      sibflag := false, ripflag := false }

/-- `sibmatrix_base`: the displacement, the register and the segment. -/
def sibmatrixBase (mod : Nat) (rexB : Bool) (base : Nat) : Nat × Option GeneralReg × SegReg :=
  if mod = 0 ∧ base = 5 then (4, none, .ds)
  else (displenOf mod, some (regNo base rexB), if base = 4 ∨ base = 5 then .ss else .ds)

/-- `sib_scale`. -/
def sibScale (rexX : Bool) (index : Nat) : Option GeneralReg :=
  if index = 4 ∧ rexX = false then none else some (regNo index rexX)

/-- `grp1` in `opcode_idata`. -/
def grp1 : Nat → IdataFunction
  | 0 => .add
  | 1 => .or
  | 2 => .adc
  | 3 => .sbb
  | 4 => .and
  | 5 => .sub
  | 6 => .xor
  | _ => .cmp

/-- `grp2` in `opcode_idata`. -/
def grp2 : Nat → IdataFunction
  | 0 => .rol
  | 1 => .ror
  | 2 => .rcl
  | 3 => .rcr
  | 4 => .shl
  | 5 => .shr
  | 6 => .shl
  | _ => .sar

/-- `idata`. The first 64 rows are eight times the same, with the functions of `grp1`. -/
def idataRow (code : Nat) : Option Idata :=
  if code < 0x40 then
    match code % 8 with
    | 0 => some ⟨.modrm, 1, .m, .r, grp1 (code / 8)⟩
    | 1 => some ⟨.modrm, 2, .m, .r, grp1 (code / 8)⟩
    | 2 => some ⟨.modrm, 1, .r, .m, grp1 (code / 8)⟩
    | 3 => some ⟨.modrm, 2, .r, .m, grp1 (code / 8)⟩
    | 4 => some ⟨.imme1, 1, .a, .i, grp1 (code / 8)⟩
    | 5 => some ⟨.imme2, 2, .a, .i, grp1 (code / 8)⟩
    | _ => none
  else
    match code with
    | 0x80 => some ⟨.mimm1, 1, .m, .i, .grp1⟩
    | 0x81 => some ⟨.mimm2, 2, .m, .i, .grp1⟩
    | 0x82 => some ⟨.mimm1, 1, .m, .i, .grp1⟩
    | 0x83 => some ⟨.mimm1, 2, .m, .i, .grp1⟩
    | 0x84 => some ⟨.modrm, 1, .m, .r, .test⟩
    | 0x85 => some ⟨.modrm, 2, .m, .r, .test⟩
    | 0x86 => some ⟨.modrm, 1, .m, .r, .xchg⟩
    | 0x87 => some ⟨.modrm, 2, .m, .r, .xchg⟩
    | 0x88 => some ⟨.modrm, 1, .m, .r, .mov⟩
    | 0x89 => some ⟨.modrm, 2, .m, .r, .mov⟩
    | 0x8A => some ⟨.modrm, 1, .r, .m, .mov⟩
    | 0x8B => some ⟨.modrm, 2, .r, .m, .mov⟩
    | 0xA0 => some ⟨.moffs, 1, .a, .m, .mov⟩
    | 0xA1 => some ⟨.moffs, 2, .a, .m, .mov⟩
    | 0xA2 => some ⟨.moffs, 1, .m, .a, .mov⟩
    | 0xA3 => some ⟨.moffs, 2, .m, .a, .mov⟩
    | 0xC0 => some ⟨.mimm1, 1, .m, .i, .grp2⟩
    | 0xC1 => some ⟨.mimm1, 2, .m, .i, .grp2⟩
    | 0xC6 => some ⟨.mimm1, 1, .m, .i, .grp11⟩
    | 0xC7 => some ⟨.mimm2, 2, .m, .i, .grp11⟩
    | 0xD0 => some ⟨.modrm, 1, .m, .one, .grp2⟩
    | 0xD1 => some ⟨.modrm, 2, .m, .one, .grp2⟩
    | 0xD2 => some ⟨.modrm, 1, .m, .c, .grp2⟩
    | 0xD3 => some ⟨.modrm, 2, .m, .c, .grp2⟩
    | 0xF6 => some ⟨.mgrp3, 1, .m, .m, .zero⟩
    | 0xF7 => some ⟨.mgrp3, 2, .m, .m, .zero⟩
    | _ => none

/-- `grp3`, for operands of the length of the row. Where a row has no source it is not read. -/
def grp3 (len : Nat) : Nat → Option Idata
  | 0 => some ⟨.immed, len, .m, .i, .test⟩
  | 2 => some ⟨.nomor, len, .m, .m, .not⟩
  | 3 => some ⟨.nomor, len, .m, .m, .neg⟩
  | _ => none

/-! ### Reading the instruction -/

section

variable {S M : Type} (p : Platform S M) (g : Vcpu S M)

/-- A part of the decoding, with `struct op` so far. -/
abbrev Decode (α : Type) := StateT InstOp (Except Abort) α

def fail {α : Type} (e : Abort) : Decode α := fun _ => .error e

/-- `READ_NEXT_B`. -/
def readNextB : Decode (BitVec 64) := fun op =>
  if 15 ≤ op.ipOff then .error (.err .instructionTooLong)
  else (cpuSegRead p 1 .cs (op.ip + BitVec.ofNat 64 op.ipOff) g).map fun b =>
    (low 8 b, { op with ipOff := op.ipOff + 1 })

/-- `READ_NEXT_W`. -/
def readNextW : Decode (BitVec 64) := do
  let lo ← readNextB p g
  let hi ← readNextB p g
  pure (lo ||| (hi <<< 8))

/-- `READ_NEXT_L`. -/
def readNextL : Decode (BitVec 64) := do
  let lo ← readNextW p g
  let hi ← readNextW p g
  pure (lo ||| (hi <<< 16))

/-- `get_reg`. -/
def getReg (r : Option GeneralReg) : BitVec 64 :=
  match r with
  | some r => g.reg r
  | none => 0

/-- Bits of the REX prefix. -/
def InstOp.rexBit (op : InstOp) (i : Nat) : Bool := op.rex.getLsbD i

/-- `read_modrm_b`. -/
def readModrmB : Decode Unit := do
  let b ← readNextB p g
  modify fun op =>
    { op with
      mod := b.toNat / 64
      reg := Fin.ofNat 8 (b.toNat / 8)
      rm := b.toNat % 8
      rreg := regNo (b.toNat / 8 % 8) (op.rexBit 2)
      brm := some (regNo (b.toNat % 8) (op.rexBit 0)) }

/-- The displacement. -/
def readDisp : Nat → Decode (BitVec 64)
  | 1 => do
    let b ← readNextB p g
    pure ((b.setWidth 8).signExtend 64)
  | 2 => do
    let b ← readNextW p g
    pure ((b.setWidth 16).signExtend 64)
  | 4 => do
    let b ← readNextL p g
    pure ((b.setWidth 32).signExtend 64)
  | _ => pure 0

/-- The SIB byte, where there is one: the address without the displacement, the length of the
displacement and the segment. -/
def readBase (m : ModrmInfo) : Decode (BitVec 64 × Nat × SegReg) := do
  let op ← get
  if m.sibflag then
    let b ← readNextB p g
    let sb := sibmatrixBase op.mod (op.rexBit 0) (b.toNat % 8)
    let ss := sibScale (op.rexBit 1) (b.toNat / 8 % 8)
    pure ((getReg g ss <<< (b.toNat / 64)) + getReg g sb.2.1, sb.1, sb.2.2)
  else pure (getReg g m.reg1 + getReg g m.reg2, m.displen, m.defseg)

/-- `get_modrm`. -/
def getModrm : Decode Unit := do
  let op ← get
  if op.mod = 3 then pure ()
  else
    let m :=
      if op.addrtype = .w16 then modrmmatrix16 op.mod op.rm
      else modrmmatrix32 op.mod (op.rexBit 0) op.rm
    let (addr, displen, defseg) ← readBase p g m
    let disp ← readDisp p g displen
    modify fun op =>
      { op with
        brm := none
        addr := addr + disp
        ripflag := op.longmode && m.ripflag
        seg := op.pfx.seg.getD defseg }

/-- `read_moffs`. -/
def readMoffs : Decode Unit := do
  let op ← get
  let moffs ← if op.addrtype = .w16 then readNextW p g else readNextL p g
  modify fun op =>
    { op with brm := none, addr := moffs, ripflag := false, seg := op.pfx.seg.getD .ds }

/-- The immediate values at `grp_imme1` and at `grp_imme2`. -/
def readImme1 (len : Nat) : Decode Unit := do
  let b ← readNextB p g
  modify fun op =>
    { op with imm := if len = 2 ∧ b &&& 0x80 ≠ 0 then b ||| 0xFFFFFFFFFFFFFF00 else b }

def readImme2 : Decode Unit := do
  let op ← get
  let b ← if op.optype = .w16 then readNextW p g else readNextL p g
  modify fun op =>
    { op with
      imm := if op.optype = .w64 ∧ b &&& 0x80000000 ≠ 0 then b ||| 0xFFFFFFFF00000000 else b }

/-- ModR/M with the bytes that belong to it. -/
def fetchModrm : Decode Unit := do
  readModrmB p g
  getModrm p g

/-- One byte of immediate value, without its sign. -/
def readImmB : Decode Unit := do
  let b ← readNextB p g
  modify fun op => { op with imm := b }

/-- `grp_special` for a row of the group of `0xF6` and `0xF7`. -/
def decodeGrp3 (id : Idata) : Decode Opcode := do
  match id.type with
  | .immed => do
    if id.len = 1 then readImme1 p g id.len else readImme2 p g
    pure (.idata id)
  | _ => pure (.idata id)

/-- `grp_special`. -/
def decodeIdata (id : Idata) : Decode Opcode := do
  match id.type with
  | .modrm => do
    fetchModrm p g
    pure (.idata id)
  | .mimm1 => do
    fetchModrm p g
    readImme1 p g id.len
    pure (.idata id)
  | .imme1 => do
    readImme1 p g id.len
    pure (.idata id)
  | .mimm2 => do
    fetchModrm p g
    readImme2 p g
    pure (.idata id)
  | .imme2 => do
    readImme2 p g
    pure (.idata id)
  | .moffs => do
    readMoffs p g
    pure (.idata id)
  | .mgrp3 => do
    fetchModrm p g
    let op ← get
    match grp3 id.len op.reg.val with
    | some id => decodeGrp3 p g id
    | none => fail (.err .unsupportedOpcode)
  | .immed => decodeGrp3 p g id
  | .nomor => decodeGrp3 p g id

/-- From `parse_opcode_0x0f_0x01` on. -/
def decode0F01 : Decode Opcode := do
  readModrmB p g
  let op ← get
  let ins : Option Opcode :=
    match op.reg.val with
    | 2 => some .lgdt
    | 3 => some .lidt
    | 4 => some .smsw
    | 6 => some .lmsw
    | 7 => some .invlpg
    | _ => none
  match ins with
  | some ins => do
    getModrm p g
    pure ins
  | none => fail (.err .unsupportedOpcode)

/-- From `parse_opcode_0x0f_0xba` on. -/
def decode0FBA : Decode Opcode := do
  readModrmB p g
  let op ← get
  if op.reg = 4 then
    getModrm p g
    readImmB p g
    pure .btImm
  else fail (.err .unsupportedOpcode)

/-- From `parse_opcode_0x0f` on. -/
def decode0F : Decode Opcode := do
  let code ← readNextB p g
  let op ← get
  match code.toNat with
  | 0x01 => decode0F01 p g
  | 0xBA => decode0FBA p g
  | 0x22 => do
    readModrmB p g
    pure .movToCr
  | 0x20 => do
    readModrmB p g
    pure .movFromCr
  | 0x23 => do
    readModrmB p g
    pure .movToDr
  | 0x21 => do
    readModrmB p g
    pure .movFromDr
  | 0x06 => pure .clts
  | 0x08 => pure .invd
  | 0x09 => pure .wbinvd
  | 0x32 => pure .rdmsr
  | 0x30 => pure .wrmsr
  | 0xB6 => do
    fetchModrm p g
    pure .movzxRm8ToR
  | 0xB7 => do
    fetchModrm p g
    pure .movzxRm16ToR
  | code =>
    if op.longmode then fail .panic
    else
      match code with
      | 0xA0 => pure (.pushSr .fs)
      | 0xA8 => pure (.pushSr .gs)
      | 0xA1 => pure (.popSr .fs)
      | 0xA9 => pure (.popSr .gs)
      | 0xB2 => do
        fetchModrm p g
        pure .lss
      | _ => fail (.err .unsupportedOpcode)

/-- From `parse_opcode_0xff` on. -/
def decodeFF : Decode Opcode := do
  fetchModrm p g
  let op ← get
  match op.reg.val with
  | 5 => pure .jmpFarIndirect
  | 6 => pure .ffPush
  | _ => fail (.err .unsupportedOpcode)

/-- From `parse_opcode_0x8f` on. -/
def decode8F : Decode Opcode := do
  fetchModrm p g
  let op ← get
  match op.reg.val with
  | 0 => pure .pop8f
  | _ => fail (.err .unsupportedOpcode)

/-- The `switch` on the first byte of the opcode. -/
def decodeOpcode (code : Nat) : Decode Opcode :=
  match code with
  | 0x0F => decode0F p g
  | 0xF4 => pure .hlt
  | 0xFA => pure .cli
  | 0xFB => pure .sti
  | 0x9C => pure .pushf
  | 0x9D => pure .popf
  | 0xCF => pure .iret
  | 0xCD => do
    readImmB p g
    pure .int
  | 0xCC => pure .int3
  | 0xCE => pure .into
  | 0xE4 => do
    readImmB p g
    pure .inbImm
  | 0xE5 => do
    readImmB p g
    pure .inImm
  | 0xEC => pure .inbDx
  | 0xED => pure .inDx
  | 0x6C => pure (.string .insb)
  | 0x6D => pure (.string .ins)
  | 0xE6 => do
    readImmB p g
    pure .outbImm
  | 0xE7 => do
    readImmB p g
    pure .outImm
  | 0xEE => pure .outbDx
  | 0xEF => pure .outDx
  | 0x6E => pure (.string .outsb)
  | 0x6F => pure (.string .outs)
  | 0x8C => do
    fetchModrm p g
    pure .movFromSr
  | 0x8E => do
    fetchModrm p g
    pure .movToSr
  | 0x06 => pure (.pushSr .es)
  | 0x0E => pure (.pushSr .cs)
  | 0x16 => pure (.pushSr .ss)
  | 0x1E => pure (.pushSr .ds)
  | 0x07 => pure (.popSr .es)
  | 0x17 => pure (.popSr .ss)
  | 0x1F => pure (.popSr .ds)
  | 0xEA => pure .jmpFarDirect
  | 0xFF => decodeFF p g
  | 0x8F => decode8F p g
  | 0xCB => pure .retf
  | 0xA4 => pure (.string .movsb)
  | 0xA5 => pure (.string .movs)
  | 0xAA => pure (.string .stosb)
  | 0xAB => pure (.string .stos)
  | code =>
    match idataRow code with
    | some id => decodeIdata p g id
    | none => fail (.err .unsupportedOpcode)

/-- A prefix, `none` for the first byte after the prefixes. -/
def prefixOf (pfx : InstPrefix) : Nat → Option InstPrefix
  | 0xF2 => some { pfx with repne := true }
  | 0xF3 => some { pfx with repe := true }
  | 0x26 => some { pfx with seg := some .es }
  | 0x2E => some { pfx with seg := some .cs }
  | 0x36 => some { pfx with seg := some .ss }
  | 0x3E => some { pfx with seg := some .ds }
  | 0x64 => some { pfx with seg := some .fs }
  | 0x65 => some { pfx with seg := some .gs }
  | 0x66 => some { pfx with opsize := true }
  | 0x67 => some { pfx with addrsize := true }
  | _ => none

/-- The loop over the prefixes, with the byte at `parse_opcode`. There are at most 15 bytes. -/
def readPrefixes : Nat → Decode (BitVec 64)
  | 0 => fail (.err .instructionTooLong)
  | n + 1 => do
    let code ← readNextB p g
    let op ← get
    if code = 0xF0 then fail .panic
    else
      match prefixOf op.pfx code.toNat with
      | some pfx => do
        modify fun op => { op with pfx := pfx }
        readPrefixes n
      | none => pure code

def cr0PeBit : BitVec 64 := 0x1
def msrIa32EferLmaBit : BitVec 64 := 0x400
def msrIa32Efer : BitVec 32 := 0xC0000080

def noPrefix : InstPrefix where
  seg := none
  repne := false
  repe := false
  opsize := false
  addrsize := false
  rexW := false

/-- `op` before the first byte is read. -/
def firstOp : InstOp where
  toOp := Op.sized .code16 noPrefix g.ip 0
  real := p.readControlReg 0 g.world.sys &&& cr0PeBit = 0
  rex := 0
  mod := 0
  reg := 0
  rm := 0
  imm := 0
  brm := none
  rreg := 0
  seg := .ds
  addr := 0
  ripflag := false

/-- The code segment: `LMA` with the `L` bit, or the `D/B` bit. -/
def codeSize : CodeSize :=
  let efer := (p.readMsr msrIa32Efer g.world.sys).2
  let acr := p.readSregAcr .cs g.world.sys
  if efer &&& msrIa32EferLmaBit ≠ 0 ∧ acr &&& accessRightsLBit ≠ 0 then .long
  else if acr &&& accessRightsDBBit ≠ 0 then .code32 else .code16

/-- The REX prefix and the sizes, with the first byte of the opcode. -/
def readRex (code : BitVec 64) : Decode (BitVec 64) := do
  let rex := codeSize p g = .long ∧ 0x40 ≤ code.toNat ∧ code.toNat ≤ 0x4F
  let code' ← if rex then readNextB p g else pure code
  modify fun op =>
    let val : BitVec 8 := if rex then code.setWidth 8 else 0
    { op with
      toOp := Op.sized (codeSize p g) { op.pfx with rexW := val.getLsbD 3 } op.ip op.ipOff
      rex := val }
  pure code'

/-- `cpu_interpreter` up to the call of a function `opcode_...`. -/
def decode : Except Abort (Opcode × InstOp) :=
  (do
    let code ← readPrefixes p g 15
    let code ← readRex p g code
    decodeOpcode p g code.toNat : Decode Opcode).run (firstOp p g)

end

end OnDemandVirt.Vmm.Interp
