import OnDemandVirt.Lib.Machine
import OnDemandVirt.Vmm.Cache
import Mathlib.Logic.Function.Basic

/-!
# Model-specific registers

`vt_read_msr` and `vt_write_msr` with what they call: the registers kept in the VMCS, EFER, the
emulated MTRRs and PAT, the pass-through of `msr_pass.c`, and the registers of the SYSCALL
instruction, which the guest shares with the processes of the VMM. A physical CPU has them in
hardware for one owner; the guest's values are kept in the virtual CPU while a process owns them.
-/

namespace OnDemandVirt.Vmm

/-- The registers of the SYSCALL instruction. -/
inductive SyscallMsr
  | star
  | lstar
  | cstar
  | fmask
  | kernelGsBase
  deriving DecidableEq

/-- The registers that a VMCS has a guest field for. -/
inductive VmcsMsr
  | sysenterCs
  | sysenterEsp
  | sysenterEip
  | fsBase
  | gsBase
  deriving DecidableEq

def SyscallMsr.index : SyscallMsr → BitVec 32
  | .star => 0xC0000081
  | .lstar => 0xC0000082
  | .cstar => 0xC0000083
  | .fmask => 0xC0000084
  | .kernelGsBase => 0xC0000102

abbrev msrIa32TimeStampCounter : BitVec 32 := 0x10
abbrev msrIa32ApicBaseMsr : BitVec 32 := 0x1B
abbrev msrIa32BiosUpdtTrig : BitVec 32 := 0x79
abbrev msrIa32X2apicIcr : BitVec 32 := 0x830
abbrev msrIa32Efer : BitVec 32 := 0xC0000080

def eferLmeBit : BitVec 64 := 0x100
def eferLmaBit : BitVec 64 := 0x400
def eferMask : BitVec 64 := eferLmeBit ||| eferLmaBit

/-- The cases of the two `switch` statements; `mtrrcap` is one of `vt_read_msr` only. -/
inductive MsrCase
  | vmcs (r : VmcsMsr)
  | efer
  | syscall (m : SyscallMsr)
  | gmtrr
  | mtrrcap
  | pat
  | default

def msrCase (index : BitVec 32) : MsrCase :=
  match index.toNat with
  | 0x174 => .vmcs .sysenterCs
  | 0x175 => .vmcs .sysenterEsp
  | 0x176 => .vmcs .sysenterEip
  | 0xC0000080 => .efer
  | 0xC0000100 => .vmcs .fsBase
  | 0xC0000101 => .vmcs .gsBase
  | 0xC0000081 => .syscall .star
  | 0xC0000082 => .syscall .lstar
  | 0xC0000083 => .syscall .cstar
  | 0xC0000084 => .syscall .fmask
  | 0xC0000102 => .syscall .kernelGsBase
  | 0xFE => .mtrrcap
  | 0x277 => .pat
  | n =>
    if n ∈ mtrrFixMsr ∨ n = 0x2FF ∨ (0x200 ≤ n ∧ n ≤ 0x213) then .gmtrr else .default

/-- What the instructions RDMSR and WRMSR do on the CPU: the exception they raise, and the value
of a register that is not one of `SyscallMsr`. -/
structure MsrCpu where
  readExc : BitVec 32 → Option Nat
  writeExc : BitVec 32 → BitVec 64 → Option Nat
  read : BitVec 32 → BitVec 64
  /-- What `set_process64_msrs` writes; it leaves IA32_KERNEL_GS_BASE alone. -/
  processValue : SyscallMsr → Option (BitVec 64)

/-- `release_process64_msrs` of a physical CPU: whose the registers are. -/
inductive MsrOwner
  | none
  | process
  | guest (v : Nat)
  deriving DecidableEq

/-- What a virtual CPU keeps of its registers. -/
structure VcpuMsr where
  vmcs : VmcsMsr → BitVec 64
  /-- `save_load_efer_enable`, or `u.vt.msr.efer >= 0`. -/
  eferKept : Bool
  efer : BitVec 64
  lme : Bool
  lma : Bool
  /-- `u.vt.vr.pg`. -/
  pg : Bool
  /-- `u.vt.msr`. -/
  saved : SyscallMsr → BitVec 64
  cache : CacheData
  tscOffset : BitVec 64
  /-- A bit of the MSR bitmap: RDMSR (`false`) or WRMSR (`true`) does not exit. -/
  pass : SyscallMsr → Bool → Bool

/-- What a physical CPU has of them, and the virtual CPU whose guest it runs now. -/
structure PcpuMsr where
  hw : SyscallMsr → BitVec 64
  owner : MsrOwner
  cache : CachePcpuData
  running : Option Nat

/-- The local APIC of the guest, and where the VMM is. -/
structure ApicState where
  registered : Bool
  apStart : Bool
  vmmStartPhys : BitVec 64
  vmmSize : BitVec 64

structure MsrState where
  vcpu : Nat → VcpuMsr
  pcpu : Nat → PcpuMsr
  /-- The physical CPU that a virtual CPU is bound to. -/
  home : Nat → Nat
  apic : ApicState

/-- How a handler ends. -/
inductive MsrResult (α : Type)
  | ok (a : α)
  /-- It returns `true`, and the caller makes a #GP. -/
  | gp
  | panic
  /-- An MSR instruction faults outside of `callfunc_and_getint`. -/
  | fault
  deriving DecidableEq

/-- The guest gets an answer. -/
def MsrResult.Returns {α : Type} : MsrResult α → Prop
  | .ok _ | .gp => True
  | .panic | .fault => False

namespace MsrState

variable (cpu : MsrCpu) (s : MsrState) (v : Nat)

def setVcpu (d : VcpuMsr) : MsrState := { s with vcpu := Function.update s.vcpu v d }

def setPcpu (c : Nat) (d : PcpuMsr) : MsrState := { s with pcpu := Function.update s.pcpu c d }

/-! ### Ownership -/

/-- `vt_msr_store_process64_msrs`. -/
def store (c : Nat) : MsrState :=
  s.setVcpu v
    { s.vcpu v with
      saved := fun m =>
        if cpu.readExc m.index = none then (s.pcpu c).hw m else (s.vcpu v).saved m }

/-- `vt_msr_load_process64_msrs`. -/
def load (c : Nat) : MsrState :=
  s.setPcpu c
    { s.pcpu c with
      hw := fun m =>
        if cpu.writeExc m.index ((s.vcpu v).saved m) = none then (s.vcpu v).saved m
        else (s.pcpu c).hw m }

/-- The call of `cpu->release_process64_msrs`. -/
def release (c : Nat) : MsrState :=
  match (s.pcpu c).owner with
  | .none | .process => s
  | .guest u => s.store cpu u c

/-- `own_process64_msrs`: the new state, and `true` where the owner changed. -/
def ownProcess64Msrs (c : Nat) (owner : MsrOwner) : MsrState × Bool :=
  if (s.pcpu c).owner = owner then (s, false)
  else
    let s := s.release cpu c
    (s.setPcpu c { s.pcpu c with owner := owner }, true)

/-- `vt_msr_own_process_msrs`. -/
def ownGuest : MsrState :=
  let r := s.ownProcess64Msrs cpu (s.home v) (.guest v)
  if r.2 then r.1.load cpu v (s.home v) else r.1

/-- `if (own_process64_msrs (release_process64_msrs, NULL)) set_process64_msrs ();` -/
def ownProcess (c : Nat) : MsrState :=
  let r := s.ownProcess64Msrs cpu c .process
  if r.2 then
    r.1.setPcpu c
      { r.1.pcpu c with hw := fun m => (cpu.processValue m).getD ((r.1.pcpu c).hw m) }
  else r.1

/-! ### EFER -/

/-- `read_guest_efer`. -/
def readGuestEfer : Option (BitVec 64) :=
  if (s.vcpu v).eferKept then some (s.vcpu v).efer else none

/-- `vt_msr_update_lma`. -/
def updateLma (d : VcpuMsr) : VcpuMsr :=
  if d.lme && d.pg then
    if d.lma then d
    else
      { d with lma := true, efer := if d.eferKept then d.efer ||| eferMask else d.efer }
  else if !d.lma then d
  else
    { d with lma := false, efer := if d.eferKept then d.efer &&& ~~~eferMask else d.efer }

/-- The case of EFER in `vt_read_msr`. -/
def readEfer : MsrResult (BitVec 64) :=
  match s.readGuestEfer v with
  | none => .gp
  | some data =>
    let data := data &&& ~~~eferMask
    let data := if (s.vcpu v).lme then data ||| eferLmeBit else data
    .ok (if (s.vcpu v).lma then data ||| eferLmaBit else data)

/-- The case of EFER in `vt_write_msr`. -/
def writeEfer (msrdata : BitVec 64) : MsrResult Unit × MsrState :=
  match s.readGuestEfer v with
  | none => (.gp, s)
  | some data =>
    let d := { s.vcpu v with lme := hasBit msrdata eferLmeBit }
    let data := data &&& eferMask
    let data := data ||| (msrdata &&& ~~~eferMask)
    (.ok (), s.setVcpu v (updateLma { d with efer := data }))

/-! ### The emulated MTRRs -/

/-- `cache_get_gmtrr`; `none` is an error. -/
def cacheGetGmtrr (p : CachePcpuData) (msrNum : Nat) (d : CacheData) : Option (BitVec 64) :=
  if !p.pat then none
  else if msrNum = 0x2FF then some d.g.mtrrDefType
  else if 0x200 ≤ msrNum ∧ msrNum < 0x250 then
    let index := (msrNum - 0x200) / 2
    if gmtrrVcnt ≤ index then none
    else if msrNum % 2 = 1 then some (d.g.mtrrPhysmask index)
    else some (d.g.mtrrPhysbase index)
  else if 0x250 ≤ msrNum ∧ msrNum ≤ 0x26F then
    if d.passMtrrfix then
      if cpu.readExc (BitVec.ofNat 32 msrNum) = none then some (cpu.read (BitVec.ofNat 32 msrNum))
      else none
    else (mtrrFixMsr.idxOf? msrNum).map d.g.mtrrFix
  else none

/-- `cache_get_gmtrrcap`. -/
def cacheGetGmtrrcap (p : CachePcpuData) : BitVec 64 :=
  if !p.pat then 0
  else p.mtrrcap &&& msrIa32MtrrcapWcBit ||| msrIa32MtrrcapFixBit ||| BitVec.ofNat 64 gmtrrVcnt

/-- `cache_get_gpat`. -/
def cacheGetGpat (p : CachePcpuData) (d : CacheData) : Option (BitVec 64) :=
  if !p.pat then none
  else some ((List.range 8).foldl
    (fun ret i => ret ||| (d.g.patData i).setWidth 64 <<< (i * 8)) 0)

def ofOption {α : Type} : Option α → MsrResult α
  | some a => .ok a
  | none => .gp

/-! ### The pass-through -/

/-- What a `switch` over the result of `callfunc_and_getint` does in `msr_pass.c`. -/
def passResult {α : Type} (exc : Option Nat) (a : α) : MsrResult α :=
  match exc with
  | none => .ok a
  | some 13 => .gp
  | some _ => .panic

/-- `msr_pass_read_msr`. -/
def passReadMsr (index : BitVec 32) : MsrResult (BitVec 64) :=
  if index = msrIa32TimeStampCounter then
    if cpu.readExc index = none then .ok (cpu.read index + (s.vcpu v).tscOffset) else .fault
  else passResult (cpu.readExc index) (cpu.read index)

/-- `phys_in_vmm`. -/
def physInVmm (a : ApicState) (phys : BitVec 64) : Bool :=
  a.vmmStartPhys ≤ phys && phys < a.vmmStartPhys + a.vmmSize

/-- `true` where `localapic_change_base_msr` panics. -/
def changeBasePanics (a : ApicState) (msrdata : BitVec 64) : Bool :=
  a.registered && hasBit msrdata 0x800 &&
    (hasBit msrdata 0xFFFFFFFF00000000 || msrdata &&& 0xFFFFFF000 ≠ 0xFEE00000)

/-- `true` where `apic_startup` panics. -/
def apicStartupPanics (icrLow : BitVec 32) : Bool :=
  match (icrLow &&& 0xC0000).toNat with
  | 0 => icrLow &&& 0x800 ≠ 0
  | 0x40000 | 0x80000 => true
  | _ => false

/-- `localapic_x2apic_icr`: the new state, and `true` where it panics. -/
def x2apicIcr (a : ApicState) (msrdata : BitVec 64) : ApicState × Bool :=
  let icrLow := msrdata.setWidth 32
  let mt := (icrLow &&& 0x700).toNat
  if !a.registered && !a.apStart then (a, false)
  else if a.apStart && (mt = 0x500 || mt = 0x600) then
    let a := { a with apStart := false }
    if !a.registered then (a, false) else (a, mt = 0x600 && apicStartupPanics icrLow)
  else (a, mt = 0x600 && apicStartupPanics icrLow)

/-- The end of `msr_pass_write_msr`. -/
def passWrite (index : BitVec 32) (msrdata : BitVec 64) : MsrResult Unit :=
  passResult (cpu.writeExc index msrdata) ()

/-- `msr_pass_write_msr`. -/
def passWriteMsr (index : BitVec 32) (msrdata : BitVec 64) : MsrResult Unit × MsrState :=
  if index = msrIa32BiosUpdtTrig then (.ok (), s)
  else if index = msrIa32TimeStampCounter then
    if cpu.readExc index = none then
      (.ok (), s.setVcpu v { s.vcpu v with tscOffset := msrdata - cpu.read index })
    else (.fault, s)
  else if index = msrIa32ApicBaseMsr then
    if hasBit msrdata 0x800 && physInVmm s.apic (msrdata &&& 0xFFFFFF000) then (.panic, s)
    else if changeBasePanics s.apic msrdata then (.panic, s)
    else (passWrite cpu index msrdata, s)
  else if index = msrIa32X2apicIcr then
    let r := x2apicIcr s.apic msrdata
    if r.2 then (.panic, { s with apic := r.1 })
    else (passWrite cpu index msrdata, { s with apic := r.1 })
  else (passWrite cpu index msrdata, s)

/-! ### The handlers -/

/-- What a `switch` over the result of `callfunc_and_getint` does in `vt_msr.c`: the case of a #GP
goes on into the default case. -/
def syscallResult {α : Type} (exc : Option Nat) (a : α) : MsrResult α :=
  match exc with
  | none => .ok a
  | some _ => .panic

/-- `vt_read_msr`. -/
def vtReadMsr (index : BitVec 32) : MsrResult (BitVec 64) × MsrState :=
  match msrCase index with
  | .vmcs r => (.ok ((s.vcpu v).vmcs r), s)
  | .efer => (s.readEfer v, s)
  | .syscall m =>
    let s := s.ownGuest cpu v
    (syscallResult (cpu.readExc index) ((s.pcpu (s.home v)).hw m), s)
  | .gmtrr =>
    (ofOption (cacheGetGmtrr cpu (s.pcpu (s.home v)).cache index.toNat (s.vcpu v).cache), s)
  | .mtrrcap => (.ok (cacheGetGmtrrcap (s.pcpu (s.home v)).cache), s)
  | .pat => (ofOption (cacheGetGpat (s.pcpu (s.home v)).cache (s.vcpu v).cache), s)
  | .default => (s.passReadMsr cpu v index, s)

/-- A write of the cache registers: the new registers, or an error. -/
def writeCache (r : Option CacheData) : MsrResult Unit × MsrState :=
  match r with
  | none => (.gp, s)
  | some d => (.ok (), s.setVcpu v { s.vcpu v with cache := d })

/-- `vt_write_msr`. -/
def vtWriteMsr (index : BitVec 32) (msrdata : BitVec 64) : MsrResult Unit × MsrState :=
  match msrCase index with
  | .vmcs r =>
    (.ok (), s.setVcpu v
      { s.vcpu v with vmcs := Function.update (s.vcpu v).vmcs r msrdata })
  | .efer => s.writeEfer v msrdata
  | .syscall m =>
    let s := s.ownGuest cpu v
    match cpu.writeExc index msrdata with
    | none =>
      let c := s.home v
      (.ok (), s.setPcpu c
        { s.pcpu c with hw := Function.update (s.pcpu c).hw m msrdata })
    | some e => (syscallResult (some e) (), s)
  | .gmtrr =>
    s.writeCache v (cacheSetGmtrr (s.pcpu (s.home v)).cache
      (fun n x => (cpu.writeExc (BitVec.ofNat 32 n) x).isSome) index.toNat msrdata
      (s.vcpu v).cache)
  | .mtrrcap | .default => s.passWriteMsr cpu v index msrdata
  | .pat => s.writeCache v (cacheSetGpat (s.pcpu (s.home v)).cache msrdata (s.vcpu v).cache)

/-- `vt_msrpass`, for one of the registers of the SYSCALL instruction. -/
def vtMsrpass (m : SyscallMsr) (wr pass : Bool) : MsrState :=
  s.setVcpu v
    { s.vcpu v with
      pass := Function.update (s.vcpu v).pass m (Function.update ((s.vcpu v).pass m) wr pass) }

end MsrState

end OnDemandVirt.Vmm
