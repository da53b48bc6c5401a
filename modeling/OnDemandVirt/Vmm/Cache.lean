import OnDemandVirt.Lib.Machine
import Mathlib.Data.List.Basic
import Mathlib.Tactic.SplitIfs

/-!
# Memory types of the guest

The MTRRs and the PAT that a guest writes are emulated by page table entries. `getMtrrType`
resolves the type of one address, `mtrrTypeEqual` decides for a range whether a 2MB mapping may
stand for its 4KB pages, and `cacheGetAttr` finds the attribute bits that select a host PAT entry.
-/

namespace OnDemandVirt.Vmm

abbrev cacheTypeUc : BitVec 8 := 0x00
abbrev cacheTypeWc : BitVec 8 := 0x01
abbrev cacheTypeWt : BitVec 8 := 0x04
abbrev cacheTypeWp : BitVec 8 := 0x05
abbrev cacheTypeWb : BitVec 8 := 0x06
abbrev cacheTypeUcMinus : BitVec 8 := 0x07

/-- `GMTRR_VCNT`, `MTRR_VCNT_MAX`. -/
abbrev gmtrrVcnt : Nat := 10

def msrIa32MtrrDefTypeTypeMask : BitVec 64 := 0xFF
def msrIa32MtrrDefTypeFeBit : BitVec 64 := 0x400
def msrIa32MtrrDefTypeEBit : BitVec 64 := 0x800
def msrIa32MtrrPhysbase0TypeMask : BitVec 64 := 0xFF
def msrIa32MtrrPhysbase0PhysbaseMask : BitVec 64 := 0xFFFFFFFFFF000
def msrIa32MtrrPhysmask0VBit : BitVec 64 := 0x800
def msrIa32MtrrPhysmask0PhysmaskMask : BitVec 64 := 0xFFFFFFFFFF000
def msrIa32MtrrcapVcntMask : BitVec 64 := 0xFF
def msrIa32MtrrcapFixBit : BitVec 64 := 0x100
def msrIa32MtrrcapWcBit : BitVec 64 := 0x400
def msrAmdSyscfgMtrrtom2enBit : BitVec 64 := 0x200000
def msrAmdSyscfgTom2forcememtypewbBit : BitVec 64 := 0x400000
def msrAmdTopMem2AddrMask : BitVec 64 := 0xFFFFFFF800000

/-- `struct cache_regs`; the byte `i` of `mtrr_fix` is read with `mtrrFixByte`. -/
structure CacheRegs where
  patData : Nat → BitVec 8
  mtrrDefType : BitVec 64
  mtrrPhysbase : Nat → BitVec 64
  mtrrPhysmask : Nat → BitVec 64
  mtrrFix : Nat → BitVec 64
  syscfg : BitVec 64
  topMem2 : BitVec 64

/-- Memory that is cleared when it is allocated. -/
def CacheRegs.zero : CacheRegs where
  patData _ := 0
  mtrrDefType := 0
  mtrrPhysbase _ := 0
  mtrrPhysmask _ := 0
  mtrrFix _ := 0
  syscfg := 0
  topMem2 := 0

/-- `c->mtrr_fix.byte[i]`. -/
def CacheRegs.mtrrFixByte (c : CacheRegs) (i : Nat) : BitVec 8 :=
  (c.mtrrFix (i / 8)).extractLsb' (8 * (i % 8)) 8

/-- A bit of a register is set. -/
def hasBit (r bit : BitVec 64) : Bool := r &&& bit != 0

/-! ### The type of an address -/

/-- The index of the fixed range of an address of the first megabyte. -/
def mtrrFixIndex (phys : BitVec 64) : Nat :=
  if hasBit phys 0x80000 then
    if hasBit phys 0x40000 then ((phys &&& 0x3F000) >>> 12).toNat
    else 64 + ((phys &&& 0x3C000) >>> 14).toNat
  else 80 + ((phys &&& 0x70000) >>> 16).toNat

/-- The end of `get_mtrr_type`, after the variable ranges gave `type`. -/
def getMtrrTypeDefault (c : CacheRegs) (phys : BitVec 64) (type : BitVec 8) : BitVec 8 :=
  if type ≠ cacheTypeUcMinus then type
  else if 0x100000000#64 ≤ phys ∧ hasBit c.syscfg msrAmdSyscfgTom2forcememtypewbBit ∧
      phys < c.topMem2 &&& msrAmdTopMem2AddrMask then
    cacheTypeWb
  else (c.mtrrDefType &&& msrIa32MtrrDefTypeTypeMask).setWidth 8

/-- The loop of `get_mtrr_type` over the variable ranges that are left. -/
def getMtrrTypeLoop (c : CacheRegs) (phys : BitVec 64) : List Nat → BitVec 8 → BitVec 8
  | [], type => getMtrrTypeDefault c phys type
  | i :: is, type =>
    let mask := c.mtrrPhysmask i
    if !hasBit mask msrIa32MtrrPhysmask0VBit then getMtrrTypeLoop c phys is type
    else
      let base := c.mtrrPhysbase i
      let mask := mask &&& msrIa32MtrrPhysmask0PhysmaskMask
      let maskbase := mask &&& base
      let masktarget := mask &&& phys
      let basetype := (base &&& msrIa32MtrrPhysbase0TypeMask).setWidth 8
      if maskbase = masktarget then
        if basetype = cacheTypeUc then cacheTypeUc
        else if basetype = cacheTypeWt then getMtrrTypeLoop c phys is cacheTypeWt
        else getMtrrTypeLoop c phys is (if type = cacheTypeUcMinus then basetype else type)
      else getMtrrTypeLoop c phys is type

/-- `get_mtrr_type`. -/
def getMtrrType (phys : BitVec 64) (c : CacheRegs) (passMtrrfix : Bool) : BitVec 8 :=
  if !hasBit c.mtrrDefType msrIa32MtrrDefTypeEBit then cacheTypeUc
  else if hasBit c.mtrrDefType msrIa32MtrrDefTypeFeBit ∧ phys ≤ 0xFFFFF#64 then
    if passMtrrfix then cacheTypeWb else c.mtrrFixByte (mtrrFixIndex phys)
  else getMtrrTypeLoop c phys (List.range gmtrrVcnt) cacheTypeUcMinus

/-- The end of `mtrr_type_equal`. -/
def mtrrTypeEqualDefault (c : CacheRegs) (phys physmask : BitVec 64) (type : BitVec 8) : Bool :=
  if type ≠ cacheTypeUcMinus then true
  else if 0x100000000#64 ≤ phys ∧ hasBit c.syscfg msrAmdSyscfgTom2forcememtypewbBit ∧
      phys < c.topMem2 &&& msrAmdTopMem2AddrMask then
    phys ||| physmask < c.topMem2 &&& msrAmdTopMem2AddrMask
  else true

/-- The loop of `mtrr_type_equal` over the variable ranges that are left. -/
def mtrrTypeEqualLoop (c : CacheRegs) (phys physmask : BitVec 64) :
    List Nat → BitVec 8 → Bool
  | [], type => mtrrTypeEqualDefault c phys physmask type
  | i :: is, type =>
    let mask := c.mtrrPhysmask i
    if !hasBit mask msrIa32MtrrPhysmask0VBit then mtrrTypeEqualLoop c phys physmask is type
    else
      let base := c.mtrrPhysbase i
      let mask := mask &&& msrIa32MtrrPhysmask0PhysmaskMask
      let maskbase := mask &&& base
      let masktarget := mask &&& phys
      let basetype := (base &&& msrIa32MtrrPhysbase0TypeMask).setWidth 8
      if maskbase = masktarget then
        if hasBit mask physmask then false
        else if basetype = cacheTypeUc then true
        else if basetype = cacheTypeWt then mtrrTypeEqualLoop c phys physmask is cacheTypeWt
        else mtrrTypeEqualLoop c phys physmask is
          (if type = cacheTypeUcMinus then basetype else type)
      else if hasBit mask physmask && maskbase &&& ~~~physmask == phys &&& ~~~physmask then false
      else mtrrTypeEqualLoop c phys physmask is type

/-- `mtrr_type_equal`. -/
def mtrrTypeEqual (phys : BitVec 64) (c : CacheRegs) (physmask : BitVec 64) : Bool :=
  if !hasBit c.mtrrDefType msrIa32MtrrDefTypeEBit then false
  else if hasBit c.mtrrDefType msrIa32MtrrDefTypeFeBit ∧ (phys ≤ 0xFFFFF#64 ∨ phys ≤ physmask) then
    false
  else mtrrTypeEqualLoop c phys physmask (List.range gmtrrVcnt) cacheTypeUcMinus

/-! ### Registers the guest may set -/

/-- What `struct cache_pcpu_data` says of a host CPU. -/
structure CachePcpuData where
  pat : Bool
  mtrr : Bool
  syscfgExist : Bool
  mtrrcap : BitVec 64
  patIndexFromType : Nat → Nat
  h : CacheRegs

/-- `struct cache_data`, of a virtual CPU. -/
structure CacheData where
  g : CacheRegs
  passMtrrfix : Bool

def patDefault (i : Nat) : BitVec 8 :=
  [cacheTypeWb, cacheTypeWt, cacheTypeUcMinus, cacheTypeUc,
    cacheTypeWb, cacheTypeWt, cacheTypeUcMinus, cacheTypeUc].getD i 0

/-- `pat_data` of a host, with or without write-combining. -/
def hostPatData (wc : Bool) (i : Nat) : BitVec 8 :=
  if i < 4 then patDefault i
  else if i = 4 then cacheTypeWb
  else if i = 5 then cacheTypeWp
  else if i = 6 ∧ wc then cacheTypeWc
  else cacheTypeUc

/-- `pat_index_from_type`: the first entry of the type, else entry 0. -/
def hostPatIndex (wc : Bool) (i : Nat) : Nat :=
  ((List.range 8).find? fun j => BitVec.ofNat 8 i == hostPatData wc j).getD 0

/-- `make_pat_value`. -/
def makePatValue (p : CachePcpuData) : CachePcpuData :=
  if !p.pat then p
  else
    let wc := hasBit p.mtrrcap msrIa32MtrrcapWcBit
    { p with
      h := { p.h with patData := hostPatData wc }
      patIndexFromType := hostPatIndex wc }

/-- `cache_init_pcpu`, with what CPUID and the MSRs of the CPU say. -/
def cacheInitPcpu (pat mtrr syscfgExist : Bool) (mtrrcap : BitVec 64) (h : CacheRegs) :
    CachePcpuData :=
  makePatValue
    { pat := pat, mtrr := mtrr, syscfgExist := syscfgExist
      mtrrcap := if mtrr then mtrrcap else 0
      patIndexFromType := fun _ => 0
      h := { h with patData := fun _ => 0 } }

/-- `is_type_ok`. -/
def isTypeOk (p : CachePcpuData) (type : BitVec 8) : Bool :=
  (List.range 8).any fun i => p.h.patData i == type

/-- A type that the MTRR emulation takes. -/
def isMtrrTypeOk (p : CachePcpuData) (type : BitVec 8) : Bool :=
  isTypeOk p type && type != cacheTypeUcMinus

/-- `set_gpat`, `none` for an invalid value. -/
def setGpat (p : CachePcpuData) (gpatData : Nat → BitVec 8) (d : CacheData) : Option CacheData :=
  if (List.range 8).all fun i => isTypeOk p (gpatData i) then
    some { d with g := { d.g with patData := gpatData } }
  else none

/-- `cache_set_gpat`. -/
def cacheSetGpat (p : CachePcpuData) (pat : BitVec 64) (d : CacheData) : Option CacheData :=
  if !p.pat then none else setGpat p (fun i => (pat >>> (i * 8)).setWidth 8) d

/-- `set_gmtrr_def_type`. -/
def setGmtrrDefType (p : CachePcpuData) (value : BitVec 64) (d : CacheData) : Option CacheData :=
  if hasBit value (~~~(msrIa32MtrrDefTypeTypeMask ||| msrIa32MtrrDefTypeFeBit |||
      msrIa32MtrrDefTypeEBit)) then none
  else if !isMtrrTypeOk p ((value &&& msrIa32MtrrDefTypeTypeMask).setWidth 8) then none
  else some { d with g := { d.g with mtrrDefType := value } }

/-- `set_gmtrr_range`; odd numbers are the masks. -/
def setGmtrrRange (p : CachePcpuData) (msrNum : Nat) (value : BitVec 64) (d : CacheData) :
    Option CacheData :=
  let index := (msrNum - 0x200) / 2
  if gmtrrVcnt ≤ index then none
  else if msrNum % 2 = 1 then
    if hasBit value (~~~(msrIa32MtrrPhysmask0PhysmaskMask ||| msrIa32MtrrPhysmask0VBit)) then none
    else some
      { d with g := { d.g with mtrrPhysmask := Function.update d.g.mtrrPhysmask index value } }
  else if hasBit value
      (~~~(msrIa32MtrrPhysbase0PhysbaseMask ||| msrIa32MtrrPhysbase0TypeMask)) then none
  else if !isMtrrTypeOk p ((value &&& msrIa32MtrrPhysbase0TypeMask).setWidth 8) then none
  else some
    { d with g := { d.g with mtrrPhysbase := Function.update d.g.mtrrPhysbase index value } }

/-- `mtrr_fix_msr`, in the order of `get_index_from_mtrr_fix_msr_num`. -/
def mtrrFixMsr : List Nat :=
  [0x268, 0x269, 0x26A, 0x26B, 0x26C, 0x26D, 0x26E, 0x26F, 0x258, 0x259, 0x250]

/-- `set_gmtrr_fix`; `wrmsrFails` says that the CPU refuses a value of a pass-through register. -/
def setGmtrrFix (p : CachePcpuData) (wrmsrFails : Nat → BitVec 64 → Bool) (msrNum : Nat)
    (value : BitVec 64) (d : CacheData) : Option CacheData :=
  if d.passMtrrfix then if wrmsrFails msrNum value then none else some d
  else if !(List.range 8).all fun i => isMtrrTypeOk p ((value >>> (i * 8)).setWidth 8) then none
  else (mtrrFixMsr.idxOf? msrNum).map fun i =>
    { d with g := { d.g with mtrrFix := Function.update d.g.mtrrFix i value } }

/-- `cache_set_gmtrr`. -/
def cacheSetGmtrr (p : CachePcpuData) (wrmsrFails : Nat → BitVec 64 → Bool) (msrNum : Nat)
    (value : BitVec 64) (d : CacheData) : Option CacheData :=
  if !p.pat then none
  else if msrNum = 0x2FF then setGmtrrDefType p value d
  else if 0x200 ≤ msrNum ∧ msrNum < 0x250 then setGmtrrRange p msrNum value d
  else if 0x250 ≤ msrNum ∧ msrNum ≤ 0x26F then setGmtrrFix p wrmsrFails msrNum value d
  else none

/-- `cache_set_gmsr_amd` as far as the guest's registers go. -/
def cacheSetGmsrAmd (msrNum : Nat) (value : BitVec 64) (d : CacheData) : Option CacheData :=
  if msrNum = 0xC0010010 then some { d with g := { d.g with syscfg := value } }
  else if msrNum = 0xC001001D then some { d with g := { d.g with topMem2 := value } }
  else none

/-- `cache_init_vcpu`. The results of the two setters are not looked at. -/
def cacheInitVcpu (p : CachePcpuData) : CacheData :=
  let d : CacheData := { g := CacheRegs.zero, passMtrrfix := false }
  if p.pat then
    let d := (setGpat p patDefault d).getD d
    let d := (setGmtrrDefType p 0 d).getD d
    { d with g := { d.g with syscfg := 0 } }
  else d

/-- The number of variable ranges of the host CPU. -/
def CachePcpuData.vcnt (p : CachePcpuData) : Nat := (p.mtrrcap &&& msrIa32MtrrcapVcntMask).toNat

/-- The registers of the host that `cache_init_pass` hands to the guest, in its order. -/
def passMtrrs (p : CachePcpuData) : List (Nat × BitVec 64) :=
  (List.range p.vcnt).flatMap fun i =>
    [(0x200 + i * 2, p.h.mtrrPhysbase i), (0x201 + i * 2, p.h.mtrrPhysmask i)]

/-- The fixed ranges of the host, where it has them. -/
def passMtrrFix (p : CachePcpuData) (wrmsrFails : Nat → BitVec 64 → Bool) (d : CacheData) :
    Option CacheData :=
  if hasBit p.mtrrcap msrIa32MtrrcapFixBit then
    (List.range mtrrFixMsr.length).foldlM
      (fun d i => setGmtrrFix p wrmsrFails (mtrrFixMsr.getD i 0) (p.h.mtrrFix i) d) d
  else some d

/-- `cache_init_pass`, `none` where it panics. -/
def cacheInitPass (p : CachePcpuData) (wrmsrFails : Nat → BitVec 64 → Bool) (d : CacheData) :
    Option CacheData :=
  if !p.pat || !p.mtrr then some d
  else do
    let d := if p.syscfgExist then { d with passMtrrfix := true } else d
    let d := (List.range gmtrrVcnt).foldl (fun d i => (setGmtrrRange p (0x201 + i * 2) 0 d).getD d) d
    let d ← (passMtrrs p).foldlM (fun d r => setGmtrrRange p r.1 r.2 d) d
    let d ← passMtrrFix p wrmsrFails d
    let d ← setGmtrrDefType p p.h.mtrrDefType d
    let d := { d with g := { d.g with syscfg := p.h.syscfg } }
    if hasBit d.g.syscfg msrAmdSyscfgMtrrtom2enBit then
      some { d with g := { d.g with topMem2 := p.h.topMem2 } }
    else some d

/-- What a guest may write. -/
inductive MsrWrite
  | gpat (pat : BitVec 64)
  | gmtrr (msrNum : Nat) (value : BitVec 64)
  | gmsrAmd (msrNum : Nat) (value : BitVec 64)

/-- The guest's registers on a host CPU. -/
def guestCache (p : CachePcpuData) (wrmsrFails : Nat → BitVec 64 → Bool) :
    Lib.Machine CacheData MsrWrite where
  init d := d = cacheInitVcpu p ∨ cacheInitPass p wrmsrFails (cacheInitVcpu p) = some d
  step d
    | .gpat pat => cacheSetGpat p pat d
    | .gmtrr msrNum value => cacheSetGmtrr p wrmsrFails msrNum value d
    | .gmsrAmd msrNum value => cacheSetGmsrAmd msrNum value d

/-! ### The attribute bits of a page -/

def ptePwtBit : BitVec 32 := 0x8
def ptePcdBit : BitVec 32 := 0x10
def ptePatBit : BitVec 32 := 0x80

/-- `pat_mtrr_matrix`; entries that the source leaves out are zero. -/
def patMtrrMatrix (gpatType gmtrrType : BitVec 8) : BitVec 8 :=
  match gpatType.toNat, gmtrrType.toNat with
  | 1, 0 | 1, 1 | 1, 4 | 1, 5 | 1, 6 => cacheTypeWc
  | 4, 4 | 4, 5 | 4, 6 => cacheTypeWt
  | 5, 4 | 5, 5 | 5, 6 => cacheTypeWp
  | 6, 1 => cacheTypeWc
  | 6, 4 => cacheTypeWt
  | 6, 5 => cacheTypeWp
  | 6, 6 => cacheTypeWb
  | 7, 1 | 7, 5 => cacheTypeWc
  | _, _ => cacheTypeUc

/-- The PAT entry that attribute bits select. -/
def patIndex (attr : BitVec 32) : Nat :=
  (if attr &&& ptePatBit != 0 then 4 else 0) + (if attr &&& ptePcdBit != 0 then 2 else 0) +
    (if attr &&& ptePwtBit != 0 then 1 else 0)

/-- `get_type`, `none` where the assertion fails. -/
def getType (d : CacheData) (gphys : BitVec 64) (gattr : BitVec 32) : Option (BitVec 8) :=
  let gpatType := d.g.patData (patIndex gattr)
  if gpatType = cacheTypeUc ∨ gpatType = cacheTypeWc then some gpatType
  else
    let gmtrrType := getMtrrType gphys d.g d.passMtrrfix
    if gpatType < 8 ∧ gmtrrType < 8 then some (patMtrrMatrix gpatType gmtrrType) else none

/-- `attr_from_type`. -/
def attrFromType (p : CachePcpuData) (type : BitVec 8) : BitVec 32 :=
  let patIndex := p.patIndexFromType type.toNat
  (if patIndex &&& 4 != 0 then ptePatBit else 0) ||| (if patIndex &&& 2 != 0 then ptePcdBit else 0) |||
    (if patIndex &&& 1 != 0 then ptePwtBit else 0)

/-- `cache_get_attr`. -/
def cacheGetAttr (p : CachePcpuData) (d : CacheData) (gphys : BitVec 64) (gattr : BitVec 32) :
    Option (BitVec 32) :=
  if !p.pat then some gattr else (getType d gphys gattr).map (attrFromType p)

/-! ### What the emulation accepts -/

/-- The type of a variable range. -/
def CacheRegs.rangeType (c : CacheRegs) (i : Nat) : BitVec 8 :=
  (c.mtrrPhysbase i &&& msrIa32MtrrPhysbase0TypeMask).setWidth 8

/-- The default type. -/
def CacheRegs.defType (c : CacheRegs) : BitVec 8 :=
  (c.mtrrDefType &&& msrIa32MtrrDefTypeTypeMask).setWidth 8

/-- Every type in the guest's registers is one that the host's PAT has. -/
structure Accepted (p : CachePcpuData) (g : CacheRegs) : Prop where
  pat : ∀ i < 8, isTypeOk p (g.patData i) = true
  defType : isMtrrTypeOk p g.defType = true
  range : ∀ i, isMtrrTypeOk p (g.rangeType i) = true
  fix : ∀ i, isMtrrTypeOk p (g.mtrrFixByte i) = true

section

variable {p : CachePcpuData} {d d' : CacheData} {wrmsrFails : Nat → BitVec 64 → Bool}

theorem setGpat_accepted {gpatData : Nat → BitVec 8} (h : setGpat p gpatData d = some d')
    (hd : Accepted p d.g) : Accepted p d'.g := by
  unfold setGpat at h
  split_ifs at h with hok
  cases h
  have hpat : ∀ i < 8, isTypeOk p (gpatData i) = true := fun i hi =>
    List.all_eq_true.mp hok i (List.mem_range.mpr hi)
  exact ⟨hpat, hd.defType, hd.range, hd.fix⟩

theorem setGmtrrDefType_accepted {value : BitVec 64} (h : setGmtrrDefType p value d = some d')
    (hd : Accepted p d.g) : Accepted p d'.g := by
  unfold setGmtrrDefType at h
  split_ifs at h with _ hok
  cases h
  exact ⟨hd.pat, by simpa [CacheRegs.defType] using hok, hd.range, hd.fix⟩

theorem setGmtrrRange_accepted {msrNum : Nat} {value : BitVec 64}
    (h : setGmtrrRange p msrNum value d = some d') (hd : Accepted p d.g) : Accepted p d'.g := by
  unfold setGmtrrRange at h
  dsimp only at h
  split_ifs at h with _ _ _ _ hok
  · cases h
    exact ⟨hd.pat, hd.defType, hd.range, hd.fix⟩
  · cases h
    refine ⟨hd.pat, hd.defType, fun i => ?_, hd.fix⟩
    unfold CacheRegs.rangeType
    by_cases hi : i = (msrNum - 0x200) / 2
    · subst hi
      simpa using hok
    · simpa [hi, CacheRegs.rangeType] using hd.range i

theorem setGmtrrFix_accepted {msrNum : Nat} {value : BitVec 64}
    (h : setGmtrrFix p wrmsrFails msrNum value d = some d') (hd : Accepted p d.g) :
    Accepted p d'.g := by
  unfold setGmtrrFix at h
  split_ifs at h with _ _ hok
  · cases h
    exact hd
  · obtain ⟨index, -, rfl⟩ := Option.map_eq_some_iff.mp h
    refine ⟨hd.pat, hd.defType, hd.range, fun i => ?_⟩
    unfold CacheRegs.mtrrFixByte
    dsimp only
    by_cases hi : i / 8 = index
    · subst hi
      have hbyte : isMtrrTypeOk p ((value >>> (i % 8 * 8)).setWidth 8) = true := by
        have := List.all_eq_true.mp (by simpa using hok) (i % 8)
          (List.mem_range.mpr (Nat.mod_lt i (by decide)))
        simpa using this
      rw [Function.update_self, Nat.mul_comm 8, ← BitVec.setWidth_ushiftRight_eq_extractLsb]
      exact hbyte
    · rw [Function.update_of_ne hi]
      exact hd.fix i

theorem cacheSetGmtrr_accepted {msrNum : Nat} {value : BitVec 64}
    (h : cacheSetGmtrr p wrmsrFails msrNum value d = some d') (hd : Accepted p d.g) :
    Accepted p d'.g := by
  unfold cacheSetGmtrr at h
  split_ifs at h
  · exact setGmtrrDefType_accepted h hd
  · exact setGmtrrRange_accepted h hd
  · exact setGmtrrFix_accepted h hd

theorem cacheSetGmsrAmd_accepted {msrNum : Nat} {value : BitVec 64}
    (h : cacheSetGmsrAmd msrNum value d = some d') (hd : Accepted p d.g) : Accepted p d'.g := by
  unfold cacheSetGmsrAmd at h
  split_ifs at h
  · cases h
    exact ⟨hd.pat, hd.defType, hd.range, hd.fix⟩
  · cases h
    exact ⟨hd.pat, hd.defType, hd.range, hd.fix⟩

/-- A setter whose refusal is not looked at. -/
theorem getD_accepted {r : Option CacheData} (h : ∀ d', r = some d' → Accepted p d'.g)
    (hd : Accepted p d.g) : Accepted p (r.getD d).g := by
  cases r with
  | none => exact hd
  | some d' => exact h d' rfl

theorem foldlM_accepted {α : Type} {f : CacheData → α → Option CacheData}
    (hf : ∀ d a d', f d a = some d' → Accepted p d.g → Accepted p d'.g) {l : List α}
    (h : l.foldlM f d = some d') (hd : Accepted p d.g) : Accepted p d'.g := by
  induction l generalizing d with
  | nil =>
    cases h
    exact hd
  | cons a l ih =>
    rw [List.foldlM_cons] at h
    obtain ⟨d₁, hstep, hrest⟩ := Option.bind_eq_some_iff.mp h
    exact ih hrest (hf d a d₁ hstep hd)

theorem cacheInitVcpu_accepted (huc : isMtrrTypeOk p cacheTypeUc = true) :
    Accepted p (cacheInitVcpu p).g := by
  have hzero : Accepted p CacheRegs.zero := by
    have huc' : isTypeOk p cacheTypeUc = true := (Bool.and_eq_true_iff.mp huc).1
    refine ⟨fun _ _ => huc', huc, fun i => ?_, fun i => ?_⟩
    · simpa [CacheRegs.rangeType, CacheRegs.zero] using huc
    · simpa [CacheRegs.mtrrFixByte, CacheRegs.zero] using huc
  unfold cacheInitVcpu
  dsimp only
  split_ifs
  · generalize hd : ({ g := CacheRegs.zero, passMtrrfix := false } : CacheData) = d
    have h0 : Accepted p d.g := by
      subst hd
      exact hzero
    have hpat : Accepted p ((setGpat p patDefault d).getD d).g :=
      getD_accepted (fun _ h => setGpat_accepted h h0) h0
    generalize (setGpat p patDefault d).getD d = d₁ at hpat
    have hdef : Accepted p ((setGmtrrDefType p 0 d₁).getD d₁).g :=
      getD_accepted (fun _ h => setGmtrrDefType_accepted h hpat) hpat
    exact ⟨hdef.pat, hdef.defType, hdef.range, hdef.fix⟩
  · exact hzero

theorem cacheInitPass_accepted (h : cacheInitPass p wrmsrFails d = some d')
    (hd : Accepted p d.g) : Accepted p d'.g := by
  unfold cacheInitPass at h
  by_cases hoff : (!p.pat || !p.mtrr) = true
  · rw [if_pos hoff] at h
    cases h
    exact hd
  rw [if_neg hoff] at h
  dsimp only at h
  generalize hd₁ : (if p.syscfgExist then { d with passMtrrfix := true } else d) = d₁ at h
  have h₁ : Accepted p d₁.g := by
    subst hd₁
    split_ifs
    · exact hd
    · exact hd
  generalize hd₂ : (List.range gmtrrVcnt).foldl
    (fun d i => (setGmtrrRange p (0x201 + i * 2) 0 d).getD d) d₁ = d₂ at h
  have h₂ : Accepted p d₂.g := by
    subst hd₂
    refine List.foldlRecOn (motive := fun d : CacheData => Accepted p d.g) _ _ h₁ fun b hb a _ => ?_
    exact getD_accepted (fun _ h => setGmtrrRange_accepted h hb) hb
  obtain ⟨d₃, hranges, h⟩ := Option.bind_eq_some_iff.mp h
  have h₃ := foldlM_accepted (fun _ _ _ h => setGmtrrRange_accepted h) hranges h₂
  obtain ⟨d₄, hfix, h⟩ := Option.bind_eq_some_iff.mp h
  have h₄ : Accepted p d₄.g := by
    unfold passMtrrFix at hfix
    split_ifs at hfix
    · exact foldlM_accepted (fun _ _ _ h => setGmtrrFix_accepted h) hfix h₃
    · cases hfix
      exact h₃
  obtain ⟨d₅, hdef, h⟩ := Option.bind_eq_some_iff.mp h
  have h₅ := setGmtrrDefType_accepted hdef h₄
  split_ifs at h
  · cases h
    exact ⟨h₅.pat, h₅.defType, h₅.range, h₅.fix⟩
  · cases h
    exact ⟨h₅.pat, h₅.defType, h₅.range, h₅.fix⟩

end

section

variable (pat mtrr syscfgExist : Bool) (mtrrcap : BitVec 64) (h : CacheRegs)

/-- The host's PAT always has an uncacheable entry. -/
theorem isMtrrTypeOk_uc :
    isMtrrTypeOk (cacheInitPcpu pat mtrr syscfgExist mtrrcap h) cacheTypeUc = true := by
  unfold isMtrrTypeOk isTypeOk
  rw [Bool.and_eq_true]
  refine ⟨List.any_eq_true.mpr ⟨3, by decide, ?_⟩, by decide⟩
  cases pat
  · rfl
  · rfl

/-- Whatever a guest writes, its registers hold types that the host's PAT has. -/
theorem accepted_of_reachable {wrmsrFails : Nat → BitVec 64 → Bool} {d : CacheData}
    (hd : (guestCache (cacheInitPcpu pat mtrr syscfgExist mtrrcap h) wrmsrFails).Reachable d) :
    Accepted (cacheInitPcpu pat mtrr syscfgExist mtrrcap h) d.g := by
  have hinit := cacheInitVcpu_accepted (isMtrrTypeOk_uc pat mtrr syscfgExist mtrrcap h)
  refine Lib.Machine.ReachableWhen.invariant
    (I := fun d => Accepted (cacheInitPcpu pat mtrr syscfgExist mtrrcap h) d.g) ?_ ?_ hd
  · rintro s (rfl | hpass)
    · exact hinit
    · exact cacheInitPass_accepted hpass hinit
  · rintro s (pat | ⟨msrNum, value⟩ | ⟨msrNum, value⟩) s' hs - hstep
    · change cacheSetGpat _ pat s = some s' at hstep
      unfold cacheSetGpat at hstep
      split_ifs at hstep
      exact setGpat_accepted hstep hs
    · exact cacheSetGmtrr_accepted hstep hs
    · exact cacheSetGmsrAmd_accepted hstep hs

end

end OnDemandVirt.Vmm
