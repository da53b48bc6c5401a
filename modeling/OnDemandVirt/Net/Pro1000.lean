import Mathlib.Logic.Function.Iterate
import OnDemandVirt.Net.VirtioNet
import OnDemandVirt.Lib.Numerals

/-!
# The transmit path of the network driver

`guest_is_transmitting` takes the descriptors that the guest has put into its transmit ring, from
the head to the tail, and `process_tdesc` gathers what they point at in a packet buffer of 2048
bytes. A packet goes to the receive callback at its end; one that asks for TCP segmentation goes
there in frames, as soon as the buffer holds one: the frame is cut off, what is left moves up behind
the header, and the header is set to the next segment.

Every write to the packet buffer is checked here against its size; `Outcome.overrun` is a write
past it.
-/

namespace OnDemandVirt.Net

open OnDemandVirt.Lib

/-- One step after the other, as long as they come out. -/
def Outcome.bind {α β : Type} : Outcome α → (α → Outcome β) → Outcome β
  | .running, _ => .running
  | .overrun, _ => .overrun
  | .done a, f => f a

instance : Monad Outcome where
  pure := .done
  bind := Outcome.bind

namespace Pro1000

/-- `BUFSIZE`. -/
def bufsize : Nat := 2048

/-- The guest's memory. -/
abbrev GuestMem := BitVec 64 → BitVec 8

/-- The `n` bytes from `a`. -/
def GuestMem.read (mem : GuestMem) (a : BitVec 64) (n : Nat) : List (BitVec 8) :=
  (List.range n).map fun i => mem (a + BitVec.ofNat 64 i)

/-- A transmit descriptor: its sixteen bytes, which are read as one of three structures. -/
structure Tdesc where
  byte : Fin 16 → BitVec 8

namespace Tdesc

variable (td : Tdesc)

/-! `struct tdesc` -/

def addr : BitVec 64 :=
  td.byte 7 ++ td.byte 6 ++ td.byte 5 ++ td.byte 4 ++ td.byte 3 ++ td.byte 2 ++ td.byte 1 ++
    td.byte 0
def len : BitVec 16 := td.byte 9 ++ td.byte 8
def cmdEop : Bool := (td.byte 11).getLsbD 0
def cmdRs : Bool := (td.byte 11).getLsbD 3
def cmdDext : Bool := (td.byte 11).getLsbD 5
def staDd : Bool := (td.byte 12).getLsbD 0

/-! `struct tdesc_dext0` -/

def ipcss : BitVec 8 := td.byte 0
def ipcso : BitVec 8 := td.byte 1
def ipcse : BitVec 16 := td.byte 3 ++ td.byte 2
def tucss : BitVec 8 := td.byte 4
def tucso : BitVec 8 := td.byte 5
def tucse : BitVec 16 := td.byte 7 ++ td.byte 6
def paylen : BitVec 20 := (td.byte 10).setWidth 4 ++ td.byte 9 ++ td.byte 8
def dtyp : BitVec 4 := (td.byte 10).extractLsb' 4 4
def tucmdTcp : Bool := (td.byte 11).getLsbD 0
def tucmdIp : Bool := (td.byte 11).getLsbD 1
def tucmdTse : Bool := (td.byte 11).getLsbD 2
def hdrlen : BitVec 8 := td.byte 13
def mss : BitVec 16 := td.byte 15 ++ td.byte 14

/-! `struct tdesc_dext1` -/

def dtalen : BitVec 20 := (td.byte 10).setWidth 4 ++ td.byte 9 ++ td.byte 8
def dcmdEop : Bool := (td.byte 11).getLsbD 0
def dcmdIfcs : Bool := (td.byte 11).getLsbD 1
def dcmdTse : Bool := (td.byte 11).getLsbD 2
def poptsIxsm : Bool := (td.byte 13).getLsbD 0
def poptsTxsm : Bool := (td.byte 13).getLsbD 1

end Tdesc

/-- The descriptor at an address. -/
def GuestMem.tdesc (mem : GuestMem) (a : BitVec 64) : Tdesc :=
  ⟨fun i => mem (a + BitVec.ofNat 64 i)⟩

/-- `td->sta_dd = 1`. -/
def GuestMem.setDd (mem : GuestMem) (a : BitVec 64) : GuestMem :=
  Function.update mem (a + 12) (mem (a + 12) ||| 1)

/-- The fields `dext0_*` of `struct data2`. -/
structure Dext0 where
  tucss : BitVec 8
  tucso : BitVec 8
  tucse : BitVec 16
  ipcss : BitVec 8
  ipcso : BitVec 8
  ipcse : BitVec 16
  mss : BitVec 16
  hdrlen : BitVec 8
  paylen : Nat
  ip : Bool
  tcp : Bool

/-- One call of `recvvirt_func`: the bytes of the packet that are inside the packet buffer, and
`packet_sizes[0]`. -/
structure Packet where
  data : List (BitVec 8)
  size : Nat

/-- What the transmit path uses of `struct data2`, with the packets that `recvvirt_func` was called
with so far. -/
structure Data2 where
  buf : ByteMem
  len : Nat
  len_le : len ≤ bufsize
  dext1Ixsm : Bool
  dext1Txsm : Bool
  dext0 : Dext0
  tseFirst : Bool
  tseTcpfin : Bool
  tseTcppsh : Bool
  tseIplen : BitVec 16
  tseIpchecksum : BitVec 16
  tseTcpchecksum : BitVec 16
  /-- `recvvirt_func` is set -/
  recvvirt : Bool
  packets : List Packet

/-- The first `size` bytes of the buffer as a packet. -/
def packetOf (b : ByteMem) (size : Nat) : Packet := ⟨b.read 0 (min size bufsize), size⟩

/-! ### Words in the buffer -/

def load16 (b : ByteMem) (a : Nat) : BitVec 16 := b (a + 1) ++ b a

def load32 (b : ByteMem) (a : Nat) : BitVec 32 := load16 b (a + 2) ++ load16 b a

def bytes16 (v : BitVec 16) : List (BitVec 8) := [v.extractLsb' 0 8, v.extractLsb' 8 8]

def bytes32 (v : BitVec 32) : List (BitVec 8) :=
  bytes16 (v.extractLsb' 0 16) ++ bytes16 (v.extractLsb' 16 16)

def bswap16 (v : BitVec 16) : BitVec 16 := v <<< 8 ||| v >>> 8

def bswap32 (v : BitVec 32) : BitVec 32 :=
  (bswap16 (v.setWidth 16)).setWidth 32 <<< 16 |||
    (bswap16 ((v >>> 16).setWidth 16)).setWidth 32

/-- A write to the packet buffer. -/
def Data2.write (d : Data2) (a : Nat) (bs : List (BitVec 8)) : Outcome Data2 :=
  if a + bs.length ≤ bufsize then .done { d with buf := d.buf.write a bs } else .overrun

/-! ### Gathering and checksums -/

/-- How many bytes `tdesc_copytobuf` takes. -/
def Data2.room (d : Data2) (len : Nat) : Nat := min (bufsize - d.len) len

theorem Data2.len_add_room_le (d : Data2) (len : Nat) : d.len + d.room len ≤ bufsize := by
  have hlen := d.len_le
  rw [Data2.room]
  omega

/-- `tdesc_copytobuf`, less what it does to the address and the length. -/
def tdescCopytobuf (mem : GuestMem) (d : Data2) (addr : BitVec 64) (len : Nat) : Data2 :=
  { d with
    buf := d.buf.write d.len (mem.read addr (d.room len))
    len := d.len + d.room len
    len_le := d.len_add_room_le len }

/-- The sum of the words of some bytes. -/
def wordSum : List (BitVec 8) → Nat
  | [] => 0
  | [b] => b.toNat
  | b :: b' :: bs => b.toNat + 256 * b'.toNat + wordSum bs

/-- `ipchecksum`: the carries are added again, and the result is never 0. -/
def ipchecksum (bs : List (BitVec 8)) : BitVec 16 :=
  let sum := if wordSum bs = 0 then 0 else (wordSum bs - 1) % 65535 + 1
  if ~~~(BitVec.ofNat 16 sum) = 0 then 0xFFFF else ~~~(BitVec.ofNat 16 sum)

/-- The sum of two words with the carry added again. -/
def addCarry (v w : BitVec 16) : BitVec 16 :=
  let tmp := v.toNat + w.toNat
  BitVec.ofNat 16 (if 0xFFFF < tmp then tmp - 0xFFFF else tmp)

/-- The end of the checksum, if the one that is given is behind the packet's end or absent. -/
def checksumEnd (len cse : Nat) : Nat := if cse = 0 then len - 1 else cse

/-- `checksum`. -/
def checksum (d : Data2) (len : Nat) (css cso : BitVec 8) (cse : BitVec 16) (addval : BitVec 16) :
    Outcome Data2 :=
  if cso = 0 ∨ len ≤ cso.toNat + 1 ∨ len ≤ checksumEnd len cse.toNat ∨
      checksumEnd len cse.toNat < css.toNat then .done d
  else do
    let d ← if addval ≠ 0 then d.write cso.toNat (bytes16 (addCarry (load16 d.buf cso.toNat) addval))
      else pure d
    d.write cso.toNat (bytes16 (ipchecksum
      (d.buf.read css.toNat (checksumEnd len cse.toNat - css.toNat + 1))))

/-! ### The header of a segment -/

/-- `tse_first`: what each segment changes of the header is kept. -/
def tseFirst (d : Data2) : Data2 :=
  let iphdr := d.dext0.ipcss.toNat
  let l4hdr := d.dext0.tucss.toNat
  { d with
    tseIplen := if d.dext0.ip then load16 d.buf (iphdr + 2) else load16 d.buf (iphdr + 4)
    tseIpchecksum := if d.dext0.ip then load16 d.buf (iphdr + 10) else d.tseIpchecksum
    tseTcpchecksum := if d.dext0.tcp then load16 d.buf (l4hdr + 16) else d.tseTcpchecksum
    tseTcpfin := if d.dext0.tcp then (d.buf (l4hdr + 13)).getLsbD 0 else d.tseTcpfin
    tseTcppsh := if d.dext0.tcp then (d.buf (l4hdr + 13)).getLsbD 3 else d.tseTcppsh }

/-- `tse_set_header` -/
def tseSetHeader (d : Data2) (last : Bool) : Outcome Data2 := do
  let iphdr := d.dext0.ipcss.toNat
  let l4hdr := d.dext0.tucss.toNat
  let paylen := if last then BitVec.ofNat 16 d.dext0.paylen else d.dext0.mss
  let iplen := paylen + d.dext0.hdrlen.setWidth 16 - d.dext0.ipcss.setWidth 16
  let d ← if d.dext0.ip then d.write (iphdr + 2) (bytes16 (bswap16 iplen))
    else d.write (iphdr + 4) (bytes16 (bswap16 (iplen - 40)))
  if d.dext0.tcp ∧ ¬last then d.write (l4hdr + 13) [d.buf (l4hdr + 13) &&& ~~~9] else pure d

/-- The flags of the last segment. -/
def Data2.finPsh (d : Data2) : BitVec 8 :=
  (if d.tseTcpfin then 1 else 0) ||| (if d.tseTcppsh then 8 else 0)

/-- `tse_set_next_header` -/
def tseSetNextHeader (d : Data2) : Outcome Data2 := do
  let iphdr := d.dext0.ipcss.toNat
  let l4hdr := d.dext0.tucss.toNat
  -- restore header
  let d ← if d.dext0.ip then do
      let d ← d.write (iphdr + 2) (bytes16 d.tseIplen)
      d.write (iphdr + 10) (bytes16 d.tseIpchecksum)
    else d.write (iphdr + 4) (bytes16 d.tseIplen)
  let d ← if d.dext0.tcp then do
      let d ← d.write (l4hdr + 16) (bytes16 d.tseTcpchecksum)
      d.write (l4hdr + 13) [d.buf (l4hdr + 13) ||| d.finPsh]
    else pure d
  -- increment IP identification
  let d ← if d.dext0.ip then
      d.write (iphdr + 4) (bytes16 (bswap16 (bswap16 (load16 d.buf (iphdr + 4)) + 1)))
    else pure d
  -- add TCP sequence number
  let d ← if d.dext0.tcp then
      d.write (l4hdr + 4)
        (bytes32 (bswap32 (bswap32 (load32 d.buf (l4hdr + 4)) + d.dext0.mss.setWidth 32)))
    else pure d
  -- update paylen
  pure { d with dext0 := { d.dext0 with paylen := d.dext0.paylen - d.dext0.mss.toNat } }

/-! ### One descriptor -/

/-- `dextlast` -/
def Data2.dextlast (d : Data2) : Bool := d.dext0.paylen ≤ d.dext0.mss.toNat

/-- `dextsize` -/
def Data2.dextsize (d : Data2) : Nat :=
  d.dext0.hdrlen.toNat + if d.dextlast then d.dext0.paylen else d.dext0.mss.toNat

/-- `packet_sizes[0]` -/
def Data2.packetSize (d : Data2) (tse : Bool) : Nat := if tse then d.dextsize else d.len

/-- What is behind the segment moves up behind the header: `memcpy` with `d2->len -
packet_sizes[0]` bytes, a difference of two words. -/
def shiftPayload (d : Data2) : Outcome Data2 := do
  let size := (BitVec.ofNat 32 d.len - BitVec.ofNat 32 d.dextsize).toNat
  let d ← d.write d.dext0.hdrlen.toNat (d.buf.read d.dextsize size)
  let len := d.len - d.dext0.mss.toNat
  tseSetNextHeader { d with len := len, len_le := Nat.le_trans (Nat.sub_le _ _) d.len_le }

/-- The header of a segment. -/
def startSegment (td : Tdesc) (d : Data2) : Outcome Data2 :=
  if td.dcmdTse then tseSetHeader d d.dextlast else pure d

/-- `dext1_ixsm` -/
def insertIpChecksum (d : Data2) (size : Nat) : Outcome Data2 :=
  if d.dext1Ixsm then checksum d size d.dext0.ipcss d.dext0.ipcso d.dext0.ipcse 0 else pure d

/-- `dext1_txsm` -/
def insertTcpChecksum (td : Tdesc) (d : Data2) (size : Nat) : Outcome Data2 :=
  if d.dext1Txsm then
    checksum d size d.dext0.tucss d.dext0.tucso d.dext0.tucse
      (if td.dcmdTse then bswap16 (BitVec.ofNat 16 size - d.dext0.tucss.setWidth 16) else 0)
  else pure d

/-- From the label `send` to the test of `tdlen`. -/
def send (td : Tdesc) (d : Data2) : Outcome Data2 :=
  if td.dcmdIfcs then
    if d.recvvirt then do
      let last := d.dextlast
      let size := d.packetSize td.dcmdTse
      let d ← startSegment td d
      let d ← insertIpChecksum d size
      let d ← insertTcpChecksum td d size
      let d := { d with packets := d.packets ++ [packetOf d.buf size] }
      if td.dcmdTse ∧ ¬last then shiftPayload d
      else pure { d with len := 0, len_le := Nat.zero_le _ }
    else pure { d with len := 0, len_le := Nat.zero_le _ }
  else pure d

/-- From the copy to the test of `tdlen`. -/
def pass (td : Tdesc) (d : Data2) : Outcome Data2 :=
  if td.dcmdTse ∧ d.dextsize ≤ d.len then
    send td (if d.tseFirst then { tseFirst d with tseFirst := false } else d)
  else if td.dcmdEop then send td d
  else pure d

/-- From the label `loop` to its `goto`. -/
def gather (mem : GuestMem) (td : Tdesc) : Nat → Data2 → BitVec 64 → Nat → Outcome Data2
  | 0, _, _, _ => .running
  | fuel + 1, d, tdaddr, tdlen => do
    let d' ← pass td (tdescCopytobuf mem d tdaddr tdlen)
    if tdlen - d.room tdlen = 0 ∨ d'.len = 0 then pure d'
    else gather mem td fuel d' (tdaddr + BitVec.ofNat 64 (d.room tdlen)) (tdlen - d.room tdlen)

/-- A context descriptor. -/
def setContext (td : Tdesc) (d : Data2) : Data2 :=
  { d with
    dext0 :=
      { tucss := td.tucss, tucso := td.tucso, tucse := td.tucse
        ipcss := td.ipcss, ipcso := td.ipcso, ipcse := td.ipcse
        mss := if td.tucmdTse then td.mss else d.dext0.mss
        hdrlen := if td.tucmdTse then td.hdrlen else d.dext0.hdrlen
        paylen := if td.tucmdTse then td.paylen.toNat else d.dext0.paylen
        ip := td.tucmdIp, tcp := td.tucmdTcp }
    tseFirst := if td.tucmdTse then true else d.tseFirst }

/-- The options of the first data descriptor of a packet count. -/
def latchOptions (td : Tdesc) (d : Data2) : Data2 :=
  if d.len = 0 then { d with dext1Ixsm := td.poptsIxsm, dext1Txsm := td.poptsTxsm } else d

/-- A legacy descriptor. -/
def processLegacy (mem : GuestMem) (d : Data2) (td : Tdesc) : Data2 :=
  let d := tdescCopytobuf mem d td.addr td.len.toNat
  if td.cmdEop then
    { d with
      packets := if d.recvvirt then d.packets ++ [packetOf d.buf d.len] else d.packets
      len := 0
      len_le := Nat.zero_le _ }
  else d

/-- `process_tdesc`, less `td->sta_dd = 1`. -/
def processTdesc (mem : GuestMem) (d : Data2) (td : Tdesc) (fuel : Nat) : Outcome Data2 :=
  if td.cmdDext then
    if td.dtyp = 0 then pure (setContext td d)
    else if td.dtyp = 1 then gather mem td fuel (latchOptions td d) td.addr td.dtalen.toNat
    else pure d
  else if td.addr ≠ 0 ∧ td.len ≠ 0 then pure (processLegacy mem d td)
  else pure d

/-- Whether `process_tdesc` gets to `td->sta_dd = 1`. -/
def Tdesc.reported (td : Tdesc) : Bool :=
  td.cmdRs && (td.cmdDext || (td.addr ≠ 0 && td.len ≠ 0 && td.cmdEop))

/-! ### The ring -/

/-- What the transmit path uses of `struct desc_shadow`. -/
structure DescShadow where
  base : BitVec 64
  len : BitVec 20
  head : BitVec 16
  tail : BitVec 16

namespace DescShadow

variable (s : DescShadow)

/-- `k + i * 16` -/
def addr (i : Nat) : BitVec 64 := s.base + BitVec.ofNat 64 (i * 16)

/-- The index that follows. -/
def next (i : Nat) : Nat := if s.len.toNat ≤ (i + 1) * 16 then 0 else i + 1

end DescShadow

/-- The loop over the ring: the guest's memory, the driver's data and the index. -/
structure TxState where
  mem : GuestMem
  d2 : Data2
  i : Nat

/-- One descriptor of the loop. -/
def TxState.advance (s : DescShadow) (t : TxState) (d : Data2) : TxState :=
  { mem := if (t.mem.tdesc (s.addr t.i)).reported then t.mem.setDd (s.addr t.i) else t.mem
    d2 := d
    i := s.next t.i }

def transmit (s : DescShadow) : Nat → TxState → Outcome TxState
  | 0, _ => .running
  | fuel + 1, t =>
    if t.i ≠ s.tail.toNat then do
      let d ← processTdesc t.mem t.d2 (t.mem.tdesc (s.addr t.i)) fuel
      transmit s fuel (t.advance s d)
    else pure t

/-- `guest_is_transmitting`: the index at the end is the new head. -/
def guestIsTransmitting (disable : Bool) (tctl : BitVec 32) (s : DescShadow) (mem : GuestMem)
    (d : Data2) (fuel : Nat) : Outcome TxState :=
  if disable ∨ ¬tctl.getLsbD 1 then pure ⟨mem, d, s.head.toNat⟩
  else transmit s fuel ⟨mem, d, s.head.toNat⟩

/-! ### What each step does -/

@[simp] theorem done_bind {α β : Type} (a : α) (f : α → Outcome β) : (Outcome.done a >>= f) = f a :=
  rfl

@[simp] theorem pure_eq_done {α : Type} (a : α) : (pure a : Outcome α) = .done a := rfl

@[simp] theorem running_bind {α β : Type} (f : α → Outcome β) :
    ((Outcome.running : Outcome α) >>= f) = .running := rfl

@[simp] theorem overrun_bind {α β : Type} (f : α → Outcome β) :
    ((Outcome.overrun : Outcome α) >>= f) = .overrun := rfl

@[simp] theorem length_bytes16 (v : BitVec 16) : (bytes16 v).length = 2 := rfl

@[simp] theorem length_bytes32 (v : BitVec 32) : (bytes32 v).length = 4 := rfl

variable {d d' : Data2} {td : Tdesc} {mem : GuestMem}

theorem write_done {a : Nat} {bs : List (BitVec 8)} (h : a + bs.length ≤ bufsize) :
    d.write a bs = .done { d with buf := d.buf.write a bs } := if_pos h

/-- The offsets of a descriptor are bytes: what stands near them is inside the buffer. -/
theorem near_offset (v : BitVec 8) {k : Nat} (hk : k ≤ 1024) : v.toNat + k ≤ bufsize := by
  have hv := v.isLt
  rw [bufsize]
  omega

/-- `d` with another buffer. -/
def Data2.withBuf (d : Data2) (b : ByteMem) : Data2 := { d with buf := b }

theorem write_near (d : Data2) (v : BitVec 8) {k : Nat} {bs : List (BitVec 8)}
    (hk : k + bs.length ≤ 1024) :
    d.write (v.toNat + k) bs = .done (d.withBuf (d.buf.write (v.toNat + k) bs)) := by
  refine write_done ?_
  have := near_offset v hk
  omega

theorem write_bytes16 (d : Data2) (v : BitVec 8) {k : Nat} {w : BitVec 16} (hk : k ≤ 1000) :
    d.write (v.toNat + k) (bytes16 w) =
      .done (d.withBuf (d.buf.write (v.toNat + k) (bytes16 w))) :=
  write_near d v (by simp; omega)

theorem write_bytes32 (d : Data2) (v : BitVec 8) {k : Nat} {w : BitVec 32} (hk : k ≤ 1000) :
    d.write (v.toNat + k) (bytes32 w) =
      .done (d.withBuf (d.buf.write (v.toNat + k) (bytes32 w))) :=
  write_near d v (by simp; omega)

section withBuf

variable (d : Data2) (b : ByteMem)

@[simp] theorem withBuf_buf : (d.withBuf b).buf = b := rfl
@[simp] theorem withBuf_len : (d.withBuf b).len = d.len := rfl
@[simp] theorem withBuf_dext0 : (d.withBuf b).dext0 = d.dext0 := rfl
@[simp] theorem withBuf_packets : (d.withBuf b).packets = d.packets := rfl
@[simp] theorem withBuf_recvvirt : (d.withBuf b).recvvirt = d.recvvirt := rfl
@[simp] theorem withBuf_dext1Ixsm : (d.withBuf b).dext1Ixsm = d.dext1Ixsm := rfl
@[simp] theorem withBuf_dext1Txsm : (d.withBuf b).dext1Txsm = d.dext1Txsm := rfl
@[simp] theorem withBuf_withBuf (b' : ByteMem) : (d.withBuf b).withBuf b' = d.withBuf b' := rfl
@[simp] theorem withBuf_self : d.withBuf d.buf = d := rfl
@[simp] theorem withBuf_tseFirst : (d.withBuf b).tseFirst = d.tseFirst := rfl
@[simp] theorem withBuf_tseIplen : (d.withBuf b).tseIplen = d.tseIplen := rfl
@[simp] theorem withBuf_tseIpchecksum : (d.withBuf b).tseIpchecksum = d.tseIpchecksum := rfl
@[simp] theorem withBuf_tseTcpchecksum : (d.withBuf b).tseTcpchecksum = d.tseTcpchecksum := rfl
@[simp] theorem withBuf_tseTcpfin : (d.withBuf b).tseTcpfin = d.tseTcpfin := rfl
@[simp] theorem withBuf_tseTcppsh : (d.withBuf b).tseTcppsh = d.tseTcppsh := rfl
@[simp] theorem withBuf_finPsh : (d.withBuf b).finPsh = d.finPsh := rfl
@[simp] theorem withBuf_dextlast : (d.withBuf b).dextlast = d.dextlast := rfl
@[simp] theorem withBuf_dextsize : (d.withBuf b).dextsize = d.dextsize := rfl

end withBuf

/-- The buffer after `checksum`. -/
def checksummed (b : ByteMem) (len : Nat) (css cso : BitVec 8) (cse addval : BitVec 16) : ByteMem :=
  if cso = 0 ∨ len ≤ cso.toNat + 1 ∨ len ≤ checksumEnd len cse.toNat ∨
      checksumEnd len cse.toNat < css.toNat then b
  else
    let b := if addval ≠ 0 then b.write cso.toNat (bytes16 (addCarry (load16 b cso.toNat) addval))
      else b
    b.write cso.toNat (bytes16 (ipchecksum
      (b.read css.toNat (checksumEnd len cse.toNat - css.toNat + 1))))

theorem checksum_eq (d : Data2) (len : Nat) (css cso : BitVec 8) (cse addval : BitVec 16) :
    checksum d len css cso cse addval =
      .done (d.withBuf (checksummed d.buf len css cso cse addval)) := by
  have hw : ∀ (d : Data2) v, d.write cso.toNat (bytes16 v) =
      .done (d.withBuf (d.buf.write cso.toNat (bytes16 v))) := fun d v =>
    write_bytes16 d cso (k := 0) (by simp)
  rw [checksum, checksummed]
  split
  · rfl
  · by_cases hadd : addval ≠ 0
    · simp only [if_pos hadd, hw, done_bind, withBuf_buf, withBuf_withBuf]
    · simp only [if_neg hadd, hw, done_bind, pure_eq_done]

/-- The length in the header of a segment of `paylen` bytes. -/
def segmentIplen (x : Dext0) (paylen : BitVec 16) : BitVec 16 :=
  paylen + x.hdrlen.setWidth 16 - x.ipcss.setWidth 16

/-- The buffer after `tse_set_header`. -/
def headerSet (x : Dext0) (last : Bool) (b : ByteMem) : ByteMem :=
  let iplen := segmentIplen x (if last then BitVec.ofNat 16 x.paylen else x.mss)
  let b := if x.ip then b.write (x.ipcss.toNat + 2) (bytes16 (bswap16 iplen))
    else b.write (x.ipcss.toNat + 4) (bytes16 (bswap16 (iplen - 40)))
  if x.tcp ∧ ¬last then b.write (x.tucss.toNat + 13) [b (x.tucss.toNat + 13) &&& ~~~9] else b

theorem tseSetHeader_eq (d : Data2) (last : Bool) :
    tseSetHeader d last = .done (d.withBuf (headerSet d.dext0 last d.buf)) := by
  rw [tseSetHeader, headerSet]
  cases hip : d.dext0.ip <;> cases htcp : d.dext0.tcp <;> cases last <;>
    simp [htcp, write_near, write_bytes16, segmentIplen]

/-- The IP header is restored. -/
def ipRestored (d : Data2) (b : ByteMem) : ByteMem :=
  let iphdr := d.dext0.ipcss.toNat
  if d.dext0.ip then
    (b.write (iphdr + 2) (bytes16 d.tseIplen)).write (iphdr + 10) (bytes16 d.tseIpchecksum)
  else b.write (iphdr + 4) (bytes16 d.tseIplen)

/-- The TCP header is restored. -/
def tcpRestored (d : Data2) (b : ByteMem) : ByteMem :=
  let l4hdr := d.dext0.tucss.toNat
  if d.dext0.tcp then
    let b := b.write (l4hdr + 16) (bytes16 d.tseTcpchecksum)
    b.write (l4hdr + 13) [b (l4hdr + 13) ||| d.finPsh]
  else b

/-- The identification is one more. -/
def identNext (d : Data2) (b : ByteMem) : ByteMem :=
  let iphdr := d.dext0.ipcss.toNat
  if d.dext0.ip then
    b.write (iphdr + 4) (bytes16 (bswap16 (bswap16 (load16 b (iphdr + 4)) + 1)))
  else b

/-- The sequence number is a segment more. -/
def seqNext (d : Data2) (b : ByteMem) : ByteMem :=
  let l4hdr := d.dext0.tucss.toNat
  if d.dext0.tcp then
    b.write (l4hdr + 4)
      (bytes32 (bswap32 (bswap32 (load32 b (l4hdr + 4)) + d.dext0.mss.setWidth 32)))
  else b

/-- The buffer after `tse_set_next_header`. -/
def headerNext (d : Data2) (b : ByteMem) : ByteMem :=
  seqNext d (identNext d (tcpRestored d (ipRestored d b)))

/-- The next segment: `dext0_paylen` less `dext0_mss`. -/
def Dext0.less (x : Dext0) : Dext0 := { x with paylen := x.paylen - x.mss.toNat }

theorem tseSetNextHeader_eq (d : Data2) :
    tseSetNextHeader d = .done { d with buf := headerNext d d.buf, dext0 := d.dext0.less } := by
  rw [tseSetNextHeader, headerNext]
  cases hip : d.dext0.ip <;> cases htcp : d.dext0.tcp <;>
    simp [hip, htcp, write_near, write_bytes16, write_bytes32, Dext0.less, ipRestored, tcpRestored,
      identNext, seqNext]

/-- The buffer that `recvvirt_func` gets. -/
def finished (td : Tdesc) (d : Data2) : ByteMem :=
  let x := d.dext0
  let size := d.packetSize td.dcmdTse
  let b := if td.dcmdTse then headerSet x d.dextlast d.buf else d.buf
  let b := if d.dext1Ixsm then checksummed b size x.ipcss x.ipcso x.ipcse 0 else b
  if d.dext1Txsm then checksummed b size x.tucss x.tucso x.tucse
    (if td.dcmdTse then bswap16 (BitVec.ofNat 16 size - x.tucss.setWidth 16) else 0)
  else b

/-- A packet has been handed over. -/
def emit (td : Tdesc) (d : Data2) : Data2 :=
  { d with
    buf := finished td d
    packets := d.packets ++ [packetOf (finished td d) (d.packetSize td.dcmdTse)] }

/-- The buffer is empty. -/
def Data2.clear (d : Data2) : Data2 := { d with len := 0, len_le := Nat.zero_le _ }

/-- What is left when a segment has been cut off. -/
def Data2.rest (d : Data2) : Data2 :=
  { d with
    buf := headerNext d (d.buf.copy d.dext0.hdrlen.toNat d.dextsize (d.len - d.dextsize))
    len := d.len - d.dext0.mss.toNat
    len_le := Nat.le_trans (Nat.sub_le _ _) d.len_le
    dext0 := d.dext0.less }

@[simp] theorem clear_len (d : Data2) : d.clear.len = 0 := rfl
@[simp] theorem clear_dext0 (d : Data2) : d.clear.dext0 = d.dext0 := rfl
@[simp] theorem clear_packets (d : Data2) : d.clear.packets = d.packets := rfl
@[simp] theorem clear_recvvirt (d : Data2) : d.clear.recvvirt = d.recvvirt := rfl
@[simp] theorem rest_len (d : Data2) : d.rest.len = d.len - d.dext0.mss.toNat := rfl
@[simp] theorem rest_dext0 (d : Data2) : d.rest.dext0 = d.dext0.less := rfl
@[simp] theorem rest_packets (d : Data2) : d.rest.packets = d.packets := rfl
@[simp] theorem rest_recvvirt (d : Data2) : d.rest.recvvirt = d.recvvirt := rfl
@[simp] theorem emit_len (td : Tdesc) (d : Data2) : (emit td d).len = d.len := rfl
@[simp] theorem emit_dext0 (td : Tdesc) (d : Data2) : (emit td d).dext0 = d.dext0 := rfl
@[simp] theorem emit_recvvirt (td : Tdesc) (d : Data2) : (emit td d).recvvirt = d.recvvirt := rfl
@[simp] theorem emit_dextsize (td : Tdesc) (d : Data2) : (emit td d).dextsize = d.dextsize := rfl
@[simp] theorem emit_dextlast (td : Tdesc) (d : Data2) : (emit td d).dextlast = d.dextlast := rfl

theorem dextsize_of_last (h : d.dextlast = true) :
    d.dextsize = d.dext0.hdrlen.toNat + d.dext0.paylen := by
  rw [Data2.dextsize, if_pos h]

theorem dextsize_of_not_last (h : d.dextlast = false) :
    d.dextsize = d.dext0.hdrlen.toNat + d.dext0.mss.toNat := by
  rw [Data2.dextsize, h, if_neg Bool.false_ne_true]

/-- A segment that the buffer holds. -/
theorem shiftPayload_of_le (hlast : d.dextlast = false) (h : d.dextsize ≤ d.len) :
    shiftPayload d = .done d.rest := by
  have hlen := d.len_le
  have hsize := dextsize_of_not_last hlast
  have hdiff : (BitVec.ofNat 32 d.len - BitVec.ofNat 32 d.dextsize).toNat = d.len - d.dextsize := by
    rw [bufsize] at hlen
    rw [BitVec.toNat_sub, BitVec.toNat_ofNat, BitVec.toNat_ofNat]
    omega
  rw [shiftPayload, hdiff, write_done (by rw [ByteMem.length_read]; omega), done_bind,
    tseSetNextHeader_eq]
  rfl

/-- A segment that the buffer does not hold: the number of bytes behind it wraps around. -/
theorem shiftPayload_of_lt (hlast : d.dextlast = false) (h : d.len < d.dextsize) :
    shiftPayload d = .overrun := by
  have hlen := d.len_le
  have hsize := dextsize_of_not_last hlast
  have hhdr := d.dext0.hdrlen.isLt
  have hmss := d.dext0.mss.isLt
  have hdiff : bufsize < (BitVec.ofNat 32 d.len - BitVec.ofNat 32 d.dextsize).toNat := by
    rw [bufsize] at hlen ⊢
    rw [BitVec.toNat_sub, BitVec.toNat_ofNat, BitVec.toNat_ofNat]
    omega
  have hwrite : ∀ bs : List (BitVec 8),
      bs.length = (BitVec.ofNat 32 d.len - BitVec.ofNat 32 d.dextsize).toNat →
        d.write d.dext0.hdrlen.toNat bs = .overrun := fun bs hbs => if_neg (by omega)
  rw [shiftPayload, hwrite _ (ByteMem.length_read _ _ _), overrun_bind]

theorem startSegment_eq (td : Tdesc) (d : Data2) : startSegment td d =
    .done (d.withBuf (if td.dcmdTse then headerSet d.dext0 d.dextlast d.buf else d.buf)) := by
  rw [startSegment]
  split
  · exact tseSetHeader_eq _ _
  · rfl

theorem insertIpChecksum_eq (d : Data2) (size : Nat) : insertIpChecksum d size =
    .done (d.withBuf (if d.dext1Ixsm then
      checksummed d.buf size d.dext0.ipcss d.dext0.ipcso d.dext0.ipcse 0 else d.buf)) := by
  rw [insertIpChecksum]
  split
  · exact checksum_eq _ _ _ _ _ _
  · rfl

theorem insertTcpChecksum_eq (td : Tdesc) (d : Data2) (size : Nat) : insertTcpChecksum td d size =
    .done (d.withBuf (if d.dext1Txsm then
      checksummed d.buf size d.dext0.tucss d.dext0.tucso d.dext0.tucse
        (if td.dcmdTse then bswap16 (BitVec.ofNat 16 size - d.dext0.tucss.setWidth 16) else 0)
      else d.buf)) := by
  rw [insertTcpChecksum]
  split
  · exact checksum_eq _ _ _ _ _ _
  · rfl

/-- A packet without FCS is not sent. -/
theorem send_of_not_ifcs (h : td.dcmdIfcs = false) : send td d = .done d := by
  rw [send, h, if_neg Bool.false_ne_true, pure_eq_done]

/-- Without a receiver the packet is dropped. -/
theorem send_of_not_recvvirt (h : td.dcmdIfcs = true) (hrecv : d.recvvirt = false) :
    send td d = .done d.clear := by
  rw [send, if_pos h, if_neg (by simp [hrecv])]
  rfl

theorem send_eq (h : td.dcmdIfcs = true) (hrecv : d.recvvirt = true) :
    send td d = if td.dcmdTse ∧ ¬d.dextlast then shiftPayload (emit td d)
      else .done (emit td d).clear := by
  rw [send, if_pos h, if_pos hrecv, startSegment_eq, done_bind, insertIpChecksum_eq, done_bind,
    insertTcpChecksum_eq, done_bind]
  rfl

/-- The last frame of a packet, or a packet in one frame. -/
theorem send_last (h : td.dcmdIfcs = true) (hrecv : d.recvvirt = true)
    (hlast : td.dcmdTse = true → d.dextlast = true) : send td d = .done (emit td d).clear := by
  rw [send_eq h hrecv, if_neg]
  rintro ⟨htse, hnot⟩
  exact hnot (hlast htse)

/-- A segment that the buffer holds is cut off. -/
theorem send_segment (h : td.dcmdIfcs = true) (hrecv : d.recvvirt = true)
    (htse : td.dcmdTse = true) (hlast : d.dextlast = false) (hle : d.dextsize ≤ d.len) :
    send td d = .done (emit td d).rest := by
  rw [send_eq h hrecv, if_pos ⟨htse, by simp [hlast]⟩]
  exact shiftPayload_of_le hlast hle

/-- A segment that the buffer does not hold. -/
theorem send_overrun (h : td.dcmdIfcs = true) (hrecv : d.recvvirt = true)
    (htse : td.dcmdTse = true) (hlast : d.dextlast = false) (hlt : d.len < d.dextsize) :
    send td d = .overrun := by
  rw [send_eq h hrecv, if_pos ⟨htse, by simp [hlast]⟩]
  exact shiftPayload_of_lt hlast hlt

/-- `tse_first`, before the first segment. -/
def Data2.seen (d : Data2) : Data2 :=
  if d.tseFirst then { Pro1000.tseFirst d with tseFirst := false } else d

/-- What the course of the loop depends on. -/
def Data2.core (d : Data2) : Nat × Dext0 × Bool := (d.len, d.dext0, d.recvvirt)

theorem seen_core (d : Data2) : d.seen.core = d.core := by
  rw [Data2.seen]
  split <;> rfl

theorem seen_buf (d : Data2) : d.seen.buf = d.buf := by
  rw [Data2.seen]
  split <;> rfl

theorem seen_packets (d : Data2) : d.seen.packets = d.packets := by
  rw [Data2.seen]
  split <;> rfl

@[simp] theorem seen_len (d : Data2) : d.seen.len = d.len := congrArg Prod.fst (seen_core d)

@[simp] theorem seen_dext0 (d : Data2) : d.seen.dext0 = d.dext0 :=
  congrArg (·.2.1) (seen_core d)

@[simp] theorem seen_recvvirt (d : Data2) : d.seen.recvvirt = d.recvvirt :=
  congrArg (·.2.2) (seen_core d)

@[simp] theorem seen_dextlast (d : Data2) : d.seen.dextlast = d.dextlast := by
  rw [Data2.dextlast, Data2.dextlast, seen_dext0]

@[simp] theorem seen_dextsize (d : Data2) : d.seen.dextsize = d.dextsize := by
  rw [Data2.dextsize, Data2.dextsize, seen_dext0, seen_dextlast]

/-- A pass that gets to the label `send` because the buffer holds a frame. -/
theorem pass_of_le (htse : td.dcmdTse = true) (h : d.dextsize ≤ d.len) :
    pass td d = send td d.seen :=
  if_pos ⟨htse, h⟩

/-- A pass without a whole frame. -/
theorem pass_of_not (h : ¬(td.dcmdTse = true ∧ d.dextsize ≤ d.len)) :
    pass td d = if td.dcmdEop then send td d else .done d :=
  if_neg h

/-- Whether a pass sends something. -/
def Sends (td : Tdesc) (d : Data2) : Prop :=
  td.dcmdIfcs = true ∧ (td.dcmdEop = true ∨ td.dcmdTse = true ∧ d.dextsize ≤ d.len)

/-- The frame is not the last one of a packet in segments. -/
def Midway (td : Tdesc) (d : Data2) : Prop :=
  td.dcmdTse = true ∧ d.recvvirt = true ∧ d.dextlast = false

theorem pass_idle (h : ¬Sends td d) : ∃ d', pass td d = .done d' ∧ d'.core = d.core := by
  by_cases hle : td.dcmdTse = true ∧ d.dextsize ≤ d.len
  · have hifcs : td.dcmdIfcs = false := by
      by_contra hne
      exact h ⟨by simpa using hne, .inr hle⟩
    exact ⟨d.seen, by rw [pass_of_le hle.1 hle.2, send_of_not_ifcs hifcs], seen_core d⟩
  · rw [pass_of_not hle]
    refine ⟨d, ?_, rfl⟩
    split
    next heop =>
      refine send_of_not_ifcs ?_
      by_contra hne
      exact h ⟨by simpa using hne, .inl heop⟩
    · rfl

theorem pass_clear (h : Sends td d) (hmid : ¬Midway td d) :
    ∃ d', pass td d = .done d' ∧ d'.core = (0, d.dext0, d.recvvirt) := by
  have hsend : ∀ e : Data2, e.core = d.core →
      ∃ d', send td e = .done d' ∧ d'.core = (0, d.dext0, d.recvvirt) := by
    intro e he
    have hdext : e.dext0 = d.dext0 := congrArg (·.2.1) he
    have hrecv : e.recvvirt = d.recvvirt := congrArg (·.2.2) he
    have hlast : e.dextlast = d.dextlast := by rw [Data2.dextlast, Data2.dextlast, hdext]
    cases hr : d.recvvirt with
    | false =>
      refine ⟨_, send_of_not_recvvirt h.1 (hrecv.trans hr), ?_⟩
      rw [← hr, ← hrecv, ← hdext]
      rfl
    | true =>
      refine ⟨_, send_last h.1 (hrecv.trans hr) fun htse => ?_, ?_⟩
      · by_contra hne
        exact hmid ⟨htse, hr, by rw [← hlast]; simpa using hne⟩
      · rw [← hr, ← hrecv, ← hdext]
        rfl
  by_cases hle : td.dcmdTse = true ∧ d.dextsize ≤ d.len
  · rw [pass_of_le hle.1 hle.2]
    exact hsend _ (seen_core d)
  · rw [pass_of_not hle, if_pos (h.2.resolve_right hle)]
    exact hsend _ rfl

theorem pass_segment (hifcs : td.dcmdIfcs = true) (hmid : Midway td d) (hle : d.dextsize ≤ d.len) :
    pass td d = .done (emit td d.seen).rest := by
  obtain ⟨htse, hrecv, hlast⟩ := hmid
  rw [pass_of_le htse hle]
  exact send_segment hifcs ((seen_recvvirt d).trans hrecv) htse ((seen_dextlast d).trans hlast)
    (by rw [seen_dextsize, seen_len]; exact hle)

theorem pass_overrun (hifcs : td.dcmdIfcs = true) (hmid : Midway td d) (heop : td.dcmdEop = true)
    (hlt : d.len < d.dextsize) : pass td d = .overrun := by
  obtain ⟨htse, hrecv, hlast⟩ := hmid
  rw [pass_of_not (by omega), if_pos heop]
  exact send_overrun hifcs hrecv htse hlast hlt

end Pro1000

end OnDemandVirt.Net
