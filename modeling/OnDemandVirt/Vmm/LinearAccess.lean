import OnDemandVirt.Lib.Fallible
import OnDemandVirt.Vmm.GetPte
import OnDemandVirt.Vmm.PmapCursor

/-!
# Accesses by linear address

`write_linearaddr_b` to `read_linearaddr_q` and the probes `write_linearaddr_ok_b` to
`write_linearaddr_ok_l` of `cpu_mmu.c`. Here the walks of the guest's page tables run in the
guest's own memory: they mark entries in it, and what is stored may change the tables.

The guest's memory is made of words as long as an entry of its page tables. Every guest-physical
address is memory of the guest.
-/

namespace OnDemandVirt.Vmm.Linear

open Lib Lib.Fallible

/-! ### Bytes of the guest's memory -/

section

variable (levels : Nat)

/-- The bytes of a word. -/
def wordBytes : Nat := entryBits levels / 8

/-- Where the word is that a byte is in. -/
def wordAddr (a : BitVec 64) : BitVec 64 := a - BitVec.ofNat 64 (a.toNat % wordBytes levels)

/-- The first of the bits in its word that are a byte. -/
def bitAt (a : BitVec 64) : Nat := 8 * (a.toNat % wordBytes levels)

def byteAt (mem : TableMem) (a : BitVec 64) : BitVec 8 :=
  (rdEntry levels mem (wordAddr levels a)).extractLsb' (bitAt levels a) 8

def storeByte (mem : TableMem) (a : BitVec 64) (b : BitVec 8) : TableMem :=
  Function.update mem (wordAddr levels a)
    ((rdEntry levels mem (wordAddr levels a) &&& ~~~(0xFF#64 <<< bitAt levels a)) |||
      (b.setWidth 64 <<< bitAt levels a))

/-- `write_hphys_b` to `write_hphys_q`, by the bytes in their order. -/
def storeBytes (mem : TableMem) (a : BitVec 64) : List (BitVec 8) → TableMem
  | [] => mem
  | b :: bs => storeBytes (storeByte levels mem a b) (a + 1) bs

/-- `read_hphys_b` to `read_hphys_q`. -/
def loadBytes (mem : TableMem) (a : BitVec 64) : (n : Nat) → List (BitVec 8)
  | 0 => []
  | n + 1 => byteAt levels mem a :: loadBytes mem (a + 1) n

end

/-- The bytes of a value, the lowest first. -/
def bytesOf (n : Nat) {w : Nat} (x : BitVec w) : List (BitVec 8) :=
  (List.range n).map fun i => x.extractLsb' (8 * i) 8

/-- The value of bytes, the lowest first. -/
def ofBytes (w : Nat) : List (BitVec 8) → BitVec w
  | [] => 0
  | b :: bs => b.setWidth w ||| (ofBytes w bs <<< (8 : Nat))

/-! ### Translation -/

/-- An error is returned, or the VMM panics. -/
inductive Stop
  | err (e : Vmmerr)
  | panic
  deriving DecidableEq

/-- What `get_pte` finds on the guest's processor, and on its own stack. -/
structure Vcpu where
  cr0 : BitVec 64
  cr3 : BitVec 64
  cr4 : BitVec 64
  efer : BitVec 64
  nbits : Nat
  tries : Nat
  pmap : Pmap
  entries : Nat → BitVec 64

/-- `current->pte_addr_mask`. -/
def Vcpu.pteAddrMask (g : Vcpu) : BitVec 64 := getPteAddrMask g.nbits

/-- The levels of the guest's page tables. -/
def Vcpu.levels (g : Vcpu) : Nat :=
  if hasBit g.efer msrIa32EferLmeBit then 4 else if hasBit g.cr4 cr4PaeBit then 3 else 2

abbrev Prog := Fallible TableMem Stop

variable (g : Vcpu)

/-- `get_pte`, for a supervisor access that is no fetch, as all callers here ask for. -/
def getPte (linear : BitVec 64) (wr : Bool) : Prog (BitVec 64) := fun mem =>
  match cpuMmuGetPte g.pteAddrMask (g.tries + 1) mem g.pmap linear g.cr0 g.cr3 g.cr4 g.efer wr false
    false g.entries with
  | none => (.error .panic, mem)
  | some (.success, mem, entries, _) => (.ok (entries 0), mem)
  | some (err, mem, _, _) => (.error (.err err), mem)

/-- The guest-physical address of a linear one. -/
def Vcpu.phys (g : Vcpu) (pte linear : BitVec 64) : BitVec 64 :=
  (pte &&& g.pteAddrMask) ||| (linear &&& 0xFFF)

/-! ### The probes -/

/-- `write_linearaddr_ok_b`. -/
def writeLinearaddrOkB (linear : BitVec 64) : Prog Unit := do
  let _ ← getPte g linear true

/-- A probe of two halves, or of the first one alone where the address is below an end. -/
def writeOkAcross (end_ step : BitVec 64) (half : BitVec 64 → Prog Unit) (linear : BitVec 64) :
    Prog Unit :=
  if linear &&& end_ ≤ end_ then half linear
  else do
    half linear
    half (linear + step)

/-- `write_linearaddr_ok_w`. -/
def writeLinearaddrOkW : BitVec 64 → Prog Unit := writeOkAcross 0xFFE 1 (writeLinearaddrOkB g)

/-- `write_linearaddr_ok_l`. -/
def writeLinearaddrOkL : BitVec 64 → Prog Unit := writeOkAcross 0xFFC 2 (writeLinearaddrOkW g)

/-! ### Writing -/

/-- A walk and a store of bytes in the page that it finds. -/
def writeRun (linear : BitVec 64) (bs : List (BitVec 8)) : Prog Unit := do
  let pte ← getPte g linear true
  modify fun mem => storeBytes g.levels mem (g.phys pte linear) bs

/-- `write_linearaddr_b`. -/
def writeLinearaddrB (linear : BitVec 64) (data : BitVec 8) : Prog Unit :=
  writeRun g linear (bytesOf 1 data)

/-- A write of `2 * n` bytes: of its two halves from the offset `first` on, where it would cross the
end of its page. -/
def writeAcross (n : Nat) (first : BitVec 64)
    (half : BitVec 64 → BitVec (8 * n) → Prog Unit) (linear : BitVec 64)
    (data : BitVec (8 * (2 * n))) : Prog Unit :=
  if first ≤ linear &&& 0xFFF then do
    half linear (data.setWidth (8 * n))
    half (linear + BitVec.ofNat 64 n) ((data >>> (8 * n)).setWidth (8 * n))
  else writeRun g linear (bytesOf (2 * n) data)

/-- `write_linearaddr_w`. -/
def writeLinearaddrW : BitVec 64 → BitVec 16 → Prog Unit :=
  writeAcross g 1 0xFFF (writeLinearaddrB g)

/-- `write_linearaddr_l`. -/
def writeLinearaddrL : BitVec 64 → BitVec 32 → Prog Unit :=
  writeAcross g 2 0xFFD (writeLinearaddrW g)

/-- `write_linearaddr_q`. -/
def writeLinearaddrQ : BitVec 64 → BitVec 64 → Prog Unit :=
  writeAcross g 4 0xFF9 (writeLinearaddrL g)

/-! ### Reading -/

/-- A walk and a load of `n` bytes from the page that it finds. -/
def readRun (linear : BitVec 64) (n : Nat) : Prog (List (BitVec 8)) := do
  let pte ← getPte g linear false
  let mem ← get
  pure (loadBytes g.levels mem (g.phys pte linear) n)

/-- `read_linearaddr_b`, and what is at `data` then. -/
def readLinearaddrB (linear : BitVec 64) : Prog (List (BitVec 8)) := readRun g linear 1

/-- A read of `2 * n` bytes, like `writeAcross`. -/
def readAcross (n : Nat) (first : BitVec 64) (half : BitVec 64 → Prog (List (BitVec 8)))
    (linear : BitVec 64) : Prog (List (BitVec 8)) :=
  if first ≤ linear &&& 0xFFF then do
    let lo ← half linear
    let hi ← half (linear + BitVec.ofNat 64 n)
    pure (lo ++ hi)
  else readRun g linear (2 * n)

/-- `read_linearaddr_w`. -/
def readLinearaddrW : BitVec 64 → Prog (List (BitVec 8)) := readAcross g 1 0xFFF (readLinearaddrB g)

/-- `read_linearaddr_l`. -/
def readLinearaddrL : BitVec 64 → Prog (List (BitVec 8)) := readAcross g 2 0xFFD (readLinearaddrW g)

/-- `read_linearaddr_q`. -/
def readLinearaddrQ : BitVec 64 → Prog (List (BitVec 8)) := readAcross g 4 0xFF9 (readLinearaddrL g)

end OnDemandVirt.Vmm.Linear
