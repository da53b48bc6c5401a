import OnDemandVirt.Net.SegmentHeader
import OnDemandVirt.Net.Transmit

/-!
# TCP segmentation

A packet in segments is cut into frames while its data descriptors come in, one frame for each pass
through the loop of `process_tdesc`. The last pass is the one in which the last bytes get into the
buffer, and it sends one frame as well: the packet is segmented as the hardware would do it exactly
when there is no more than one segment left by then (`segmented_iff`). If there is more, the rest
stays in the buffer.
-/

namespace OnDemandVirt.Net.Pro1000

open OnDemandVirt.Lib

/-- A data descriptor, with the guest's memory while it is processed. -/
structure Piece where
  mem : GuestMem
  td : Tdesc

def Piece.len (c : Piece) : Nat := c.td.dtalen.toNat

def Piece.bytes (c : Piece) : List (BitVec 8) := c.mem.read c.td.addr c.len

/-- The descriptors one after the other. -/
def processPieces (fuel : Nat) : Data2 → List Piece → Outcome Data2
  | d, [] => pure d
  | d, c :: cs => do
    let d ← processTdesc c.mem d c.td fuel
    processPieces fuel d cs

/-- A packet for TCP segmentation: a context descriptor, and data descriptors for the header and
the payload, the last of which has the end of the packet. -/
structure TsePacket where
  context : Tdesc
  init : List Piece
  last : Piece
  isContext : context.cmdDext = true ∧ context.dtyp = 0 ∧ context.tucmdTse = true
  isData : ∀ c ∈ init ++ [last], c.td.cmdDext = true ∧ c.td.dtyp = 1 ∧ c.td.dcmdTse = true ∧
    c.td.dcmdIfcs = true
  notEop : ∀ c ∈ init, c.td.dcmdEop = false
  eop : last.td.dcmdEop = true
  mss_pos : 0 < context.mss.toNat
  total : ((init ++ [last]).map Piece.len).sum = context.hdrlen.toNat + context.paylen.toNat

/-- Bytes as a memory. -/
def asMem (bs : List (BitVec 8)) : ByteMem := fun q => bs.getD q 0

namespace TsePacket

variable (p : TsePacket)

def pieces : List Piece := p.init ++ [p.last]

def bytes : List (BitVec 8) := p.pieces.flatMap Piece.bytes

/-- What the context descriptor sets. -/
def dext0 : Dext0 where
  tucss := p.context.tucss
  tucso := p.context.tucso
  tucse := p.context.tucse
  ipcss := p.context.ipcss
  ipcso := p.context.ipcso
  ipcse := p.context.ipcse
  mss := p.context.mss
  hdrlen := p.context.hdrlen
  paylen := p.context.paylen.toNat
  ip := p.context.tucmdIp
  tcp := p.context.tucmdTcp

abbrev mss : Nat := p.dext0.mss.toNat

abbrev hdrlen : Nat := p.dext0.hdrlen.toNat

abbrev paylen : Nat := p.dext0.paylen

/-- The payload. -/
def payload : List (BitVec 8) := p.bytes.drop p.hdrlen

/-- The identification of the `n`-th segment. -/
def ident (n : Nat) : BitVec 16 := be16 (asMem p.bytes) (p.dext0.ipcss.toNat + 4) + BitVec.ofNat 16 n

/-- The sequence number of the `n`-th segment. -/
def seq (n : Nat) : BitVec 32 :=
  be32 (asMem p.bytes) (p.dext0.tucss.toNat + 4) + BitVec.ofNat 32 (n * p.mss)

def fin : Bool := (asMem p.bytes (p.dext0.tucss.toNat + 13)).getLsbD 0

def psh : Bool := (asMem p.bytes (p.dext0.tucss.toNat + 13)).getLsbD 3

/-- The packet goes through `process_tdesc`. -/
def process (mem : GuestMem) (d : Data2) (fuel : Nat) : Outcome Data2 :=
  processPieces fuel d (⟨mem, p.context⟩ :: p.pieces)

/-- The headers are in the header, and the checksums go elsewhere in it. -/
structure WellPlaced : Prop where
  placed : p.dext0.Placed
  ixsm : ∀ c ∈ p.pieces, c.td.poptsIxsm = true → p.dext0.ChecksumApart p.dext0.ipcso
  txsm : ∀ c ∈ p.pieces, c.td.poptsTxsm = true → p.dext0.ChecksumApart p.dext0.tucso

end TsePacket

/-- The frames of a packet are the ones of the hardware. -/
structure Segmented (p : TsePacket) (frames : List Packet) : Prop where
  payload : frames.flatMap (·.data.drop p.hdrlen) = p.payload
  full : ∀ f ∈ frames.dropLast, f.data.length = p.hdrlen + p.mss
  iplen : ∀ f ∈ frames, IplenOf p.dext0 f.size (asMem f.data)
  header : ∀ n f, frames[n]? = some f → SegmentHeader p.dext0 (p.ident n) (p.seq n)
    (decide (n + 1 = frames.length) && p.fin) (decide (n + 1 = frames.length) && p.psh)
    (asMem f.data)

/-- The bytes at hand when the last of `total` bytes gets into the buffer. -/
def atHand (mss total : Nat) : Nat := total - fills mss total * mss

/-- Data descriptors of these lengths, with `a` bytes in the buffer, let every segment out: what is
at hand at the end makes at most one, and there is more than one at hand where all bytes are there
before the end. -/
def Aligned (hdrlen mss : Nat) : Nat → List Nat → Prop
  | _, [] => False
  | a, [l] =>
    (a + l ≤ bufsize ∨ hdrlen + mss ≤ bufsize) ∧ atHand mss (a + l) ≤ hdrlen + mss
  | a, l :: l' :: ls =>
    (a + l ≤ bufsize ∨ hdrlen + mss ≤ bufsize) ∧
      ((l' :: ls).sum = 0 → hdrlen + mss < atHand mss (a + l)) ∧
      Aligned hdrlen mss
        (if hdrlen + mss ≤ atHand mss (a + l) then atHand mss (a + l) - mss else atHand mss (a + l))
        (l' :: ls)

variable {p : TsePacket} {td : Tdesc} {d e : Data2} {mem : GuestMem}

/-! ### Parts of the packet -/

theorem length_piece_bytes (c : Piece) : c.bytes.length = c.len := by
  simp [Piece.bytes, GuestMem.read]

theorem length_bytes (p : TsePacket) : p.bytes.length = p.hdrlen + p.paylen := by
  rw [TsePacket.bytes, List.length_flatMap]
  simp only [length_piece_bytes]
  exact p.total

theorem asMem_of_lt {bs : List (BitVec 8)} {q : Nat} (h : q < bs.length) : asMem bs q = bs[q] := by
  rw [asMem, List.getD_eq_getElem?_getD, List.getElem?_eq_getElem h, Option.getD_some]

theorem asMem_read (b : ByteMem) {n q : Nat} (h : q < n) : asMem (b.read 0 n) q = b q := by
  rw [asMem, List.getD_eq_getElem?_getD, ByteMem.getElem?_read _ _ _ h, Nat.zero_add,
    Option.getD_some]

/-- A block of a memory that holds a part of the packet. -/
theorem read_eq_part {b : ByteMem} {a m n : Nat} (h : ∀ i < n, b (a + i) = asMem p.bytes (m + i))
    (hle : m + n ≤ p.bytes.length) : b.read a n = (p.bytes.drop m).take n := by
  refine List.ext_getElem ?_ fun i hi hi' => ?_
  · rw [ByteMem.length_read, List.length_take, List.length_drop]
    omega
  · rw [ByteMem.length_read] at hi
    have hget := ByteMem.getElem?_read b a n hi
    rw [List.getElem?_eq_getElem (by simpa using hi)] at hget
    rw [Option.some.inj hget, h i hi, asMem_of_lt (by omega), List.getElem_take, List.getElem_drop]

theorem SegmentHeader.congr {x : Dext0} {id : BitVec 16} {seq : BitVec 32} {fin psh : Bool}
    {b b' : ByteMem} (hx : x.Placed) (hb : SegmentHeader x id seq fin psh b)
    (h : ∀ q < x.hdrlen.toNat, b' q = b q) : SegmentHeader x id seq fin psh b' := by
  have hip := hx.ip
  refine ⟨fun hi => ?_, fun ht => ?_, fun ht => ?_, fun ht => ?_⟩
  · rw [← hb.ident hi, be16, be16, h _ (by omega), h _ (by omega)]
  all_goals have htcp := hx.tcp ht
  · rw [← hb.seq ht, be32, be32, be16, be16, be16, be16, h _ (by omega), h _ (by omega),
      h _ (by omega), h _ (by omega)]
  · rw [← hb.fin ht, h _ (by omega)]
  · rw [← hb.psh ht, h _ (by omega)]

theorem IplenOf.congr {x : Dext0} {size : Nat} {b b' : ByteMem} (hx : x.Placed)
    (hb : IplenOf x size b) (h : ∀ q < x.hdrlen.toNat, b' q = b q) : IplenOf x size b' := by
  have hip := hx.ip
  rw [IplenOf] at hb ⊢
  rw [be16, be16, h _ (by omega), h _ (by omega), h _ (by omega), h _ (by omega)]
  exact hb

/-! ### Frames -/

/-- The `n`-th frame, with `l` bytes of payload. -/
structure SegmentAt (p : TsePacket) (n : Nat) (last : Bool) (l : Nat) (f : Packet) : Prop where
  length : f.data.length = p.hdrlen + l
  payload : f.data.drop p.hdrlen = (p.bytes.drop (p.hdrlen + n * p.mss)).take l
  iplen : IplenOf p.dext0 f.size (asMem f.data)
  header : SegmentHeader p.dext0 (p.ident n) (p.seq n) (last && p.fin) (last && p.psh)
    (asMem f.data)

/-- The segments before the `k`-th have been sent, and `c` bytes have been copied. -/
structure Sent (p : TsePacket) (k c : Nat) (d : Data2) : Prop where
  len : d.len + k * p.mss = c
  dext0 : d.dext0 = { p.dext0 with paylen := p.paylen - k * p.mss }
  more : k * p.mss < p.paylen ∨ k = 0
  recvvirt : d.recvvirt = true
  bytes : ∀ q < d.len, k = 0 ∨ p.hdrlen ≤ q → d.buf q = asMem p.bytes (q + k * p.mss)
  full : k = 0 ∨ p.hdrlen ≤ d.len
  header : p.hdrlen ≤ d.len → SegmentHeader p.dext0 (p.ident k) (p.seq k) p.fin p.psh d.buf
  saved : p.dext0.tcp = true → d.tseFirst = false → d.tseTcpfin = p.fin ∧ d.tseTcppsh = p.psh

theorem ident_succ (p : TsePacket) (k : Nat) : p.ident (k + 1) = p.ident k + 1 := by
  rw [TsePacket.ident, TsePacket.ident, BitVec.add_assoc, BitVec.ofNat_add]
  rfl

theorem seq_succ (p : TsePacket) (k : Nat) :
    p.seq (k + 1) = p.seq k + p.dext0.mss.setWidth 32 := by
  rw [TsePacket.seq, TsePacket.seq, BitVec.add_assoc, Nat.succ_mul, BitVec.ofNat_add]
  congr 2
  apply BitVec.eq_of_toNat_eq
  rw [BitVec.toNat_ofNat, BitVec.toNat_setWidth]

variable {k c : Nat}

theorem Sent.dextsize_of_last (h : Sent p k c d) (hlast : p.paylen - k * p.mss ≤ p.mss) :
    d.dextlast = true ∧ d.dextsize = p.hdrlen + (p.paylen - k * p.mss) := by
  have hl : d.dextlast = true := by
    rw [Data2.dextlast, h.dext0]
    simpa using hlast
  refine ⟨hl, ?_⟩
  rw [Pro1000.dextsize_of_last hl, h.dext0]

theorem Sent.dextsize_of_not_last (h : Sent p k c d) (hlast : p.mss < p.paylen - k * p.mss) :
    d.dextlast = false ∧ d.dextsize = p.hdrlen + p.mss := by
  have hl : d.dextlast = false := by
    rw [lt_paylen_iff, h.dext0]
    exact hlast
  refine ⟨hl, ?_⟩
  rw [Pro1000.dextsize_of_not_last hl, h.dext0]

/-! ### What a pass does -/

/-- The part of the packet that is at an address. -/
def PartAt (p : TsePacket) (mem : GuestMem) (a : BitVec 64) (l c : Nat) : Prop :=
  ∀ i < l, mem (a + BitVec.ofNat 64 i) = asMem p.bytes (c + i)

theorem PartAt.drop {a : BitVec 64} {l c : Nat} (h : PartAt p mem a l c) (n : Nat) :
    PartAt p mem (a + BitVec.ofNat 64 n) (l - n) (c + n) := by
  intro i hi
  rw [BitVec.add_assoc, ← BitVec.ofNat_add, h (n + i) (by omega), Nat.add_assoc]

theorem sent_dext0_placed (hx : p.dext0.Placed) (h : Sent p k c d) : d.dext0.Placed := by
  rw [h.dext0]
  exact ⟨hx.ip, hx.tcp⟩

theorem sent_header_dext0 {id : BitVec 16} {seq : BitVec 32} {fin psh : Bool} {b : ByteMem}
    (h : Sent p k c d) :
    SegmentHeader d.dext0 id seq fin psh b ↔ SegmentHeader p.dext0 id seq fin psh b := by
  rw [h.dext0]
  exact ⟨fun h => ⟨h.ident, h.seq, h.fin, h.psh⟩, fun h => ⟨h.ident, h.seq, h.fin, h.psh⟩⟩

theorem sent_iplen_dext0 {size : Nat} {b : ByteMem} (h : Sent p k c d) :
    IplenOf d.dext0 size b ↔ IplenOf p.dext0 size b := by
  rw [h.dext0]
  exact Iff.rfl

/-- The copy of the next part. -/
theorem sent_copy (hx : p.dext0.Placed) (h : Sent p k c d) {a : BitVec 64} {l : Nat}
    (hpart : PartAt p mem a l c) : Sent p k (c + d.room l) (tdescCopytobuf mem d a l) := by
  have hlen := h.len
  have hnew : ∀ q < d.len, (tdescCopytobuf mem d a l).buf q = d.buf q := fun q hq =>
    ByteMem.write_apply_lt _ _ _ hq
  have hbytes : ∀ q < d.len + d.room l, k = 0 ∨ p.hdrlen ≤ q →
      (tdescCopytobuf mem d a l).buf q = asMem p.bytes (q + k * p.mss) := by
    intro q hq hk
    rcases Nat.lt_or_ge q d.len with hlt | hge
    · rw [hnew q hlt, h.bytes q hlt hk]
    · obtain ⟨i, rfl⟩ := Nat.exists_eq_add_of_le hge
      have hread : i < (mem.read a (d.room l)).length := by
        simp only [GuestMem.read, List.length_map, List.length_range]
        omega
      have hroom := room_le d l
      have hat := ByteMem.write_apply_add d.buf d.len _ hread
      have hval : (mem.read a (d.room l))[i] = mem (a + BitVec.ofNat 64 i) := by
        simp [GuestMem.read]
      rw [hval, hpart i (by omega)] at hat
      rw [show d.len + i + k * p.mss = c + i by omega]
      exact hat
  refine ⟨?_, h.dext0, h.more, h.recvvirt, hbytes, ?_, fun hfull => ?_, h.saved⟩
  · rw [copytobuf_len]
    omega
  · rw [copytobuf_len]
    exact h.full.imp_right fun hf => by omega
  · rcases Nat.lt_or_ge d.len p.hdrlen with hlt | hge
    · have hk : k = 0 := h.full.resolve_right (by omega)
      have hfirst : SegmentHeader p.dext0 (p.ident k) (p.seq k) p.fin p.psh (asMem p.bytes) := by
        rw [hk]
        refine ⟨fun _ => ?_, fun _ => ?_, fun _ => rfl, fun _ => rfl⟩
        · exact (BitVec.add_zero _).symm
        · rw [TsePacket.seq, Nat.zero_mul]
          exact (BitVec.add_zero _).symm
      refine hfirst.congr hx fun q (hq : q < p.hdrlen) => ?_
      rw [copytobuf_len] at hfull
      rw [hbytes q (by omega) (.inl hk), hk, Nat.zero_mul, Nat.add_zero]
    · exact (h.header hge).congr hx fun q (hq : q < p.hdrlen) => hnew q (by omega)

theorem seen_options (hopt : d.Options) : d.seen.Options := by
  have hix : d.seen.dext1Ixsm = d.dext1Ixsm := by
    rw [Data2.seen]
    split <;> rfl
  have htx : d.seen.dext1Txsm = d.dext1Txsm := by
    rw [Data2.seen]
    split <;> rfl
  refine ⟨fun hi => ?_, fun ht => ?_⟩
  · rw [seen_dext0]
    exact hopt.ixsm (hix ▸ hi)
  · rw [seen_dext0]
    exact hopt.txsm (htx ▸ ht)

/-- The flags of the header are kept before the first segment. -/
theorem sent_seen (h : Sent p k c d) (hfull : p.hdrlen ≤ d.len) :
    d.seen.tseFirst = false ∧ (p.dext0.tcp = true →
      d.seen.tseTcpfin = p.fin ∧ d.seen.tseTcppsh = p.psh) := by
  have htcp : d.dext0.tcp = p.dext0.tcp := by rw [h.dext0]
  have htucss : d.dext0.tucss = p.dext0.tucss := by rw [h.dext0]
  rw [Data2.seen]
  split
  next hfirst =>
    refine ⟨rfl, fun ht => ?_⟩
    have hhdr := h.header hfull
    simp only [tseFirst, htcp, ht, if_true, htucss]
    exact ⟨hhdr.fin ht, hhdr.psh ht⟩
  next hfirst =>
    have hf : d.tseFirst = false := by simpa using hfirst
    exact ⟨hf, fun ht => h.saved ht hf⟩

/-- The buffer that a frame is taken from. -/
structure FrameBuf (p : TsePacket) (k : Nat) (last : Bool) (l : Nat) (b : ByteMem) : Prop where
  header : SegmentHeader p.dext0 (p.ident k) (p.seq k) (last && p.fin) (last && p.psh) b
  iplen : IplenOf p.dext0 (p.hdrlen + l) b

theorem sent_finished (hx : p.dext0.Placed) (htse : td.dcmdTse = true) (h : Sent p k c d)
    (hopt : d.Options) (hfull : p.hdrlen ≤ d.len) :
    FrameBuf p k d.dextlast (if d.dextlast then p.paylen - k * p.mss else p.mss)
      (finished td d.seen) ∧
      ∀ q, p.hdrlen ≤ q → finished td d.seen q = d.buf q := by
  have hplaced := sent_dext0_placed hx h
  have halike := alike_finished (d := d.seen) htse (seen_options hopt)
  rw [seen_dext0, seen_dextlast, seen_buf] at halike
  have hhdr := (sent_header_dext0 h).mpr (h.header hfull)
  refine ⟨⟨?_, ?_⟩, fun q hq => ?_⟩
  · exact (sent_header_dext0 h).mp (halike.header (headerSet_header hplaced _ hhdr))
  · refine (sent_iplen_dext0 h).mp (halike.iplenOf (headerSet_iplen hplaced _ ?_))
    rw [h.dext0]
  · have hq' : d.dext0.hdrlen.toNat ≤ q := by
      rw [h.dext0]
      exact hq
    rw [halike.payload q hq', headerSet_payload hplaced _ hq']

/-- A packet of the first bytes of such a buffer. -/
theorem FrameBuf.segmentAt {last : Bool} {l : Nat} {b : ByteMem} (hx : p.dext0.Placed)
    (h : FrameBuf p k last l b)
    (hpay : ∀ q, p.hdrlen ≤ q → q < p.hdrlen + l → b q = asMem p.bytes (q + k * p.mss))
    (hfits : p.hdrlen + l ≤ bufsize) (hin : p.hdrlen + k * p.mss + l ≤ p.bytes.length) :
    SegmentAt p k last l (packetOf b (p.hdrlen + l)) := by
  have hdata : (packetOf b (p.hdrlen + l)).data = b.read 0 (p.hdrlen + l) := by
    rw [packetOf, Nat.min_eq_left hfits]
  have hread : ∀ q < p.hdrlen, asMem (b.read 0 (p.hdrlen + l)) q = b q := fun q hq =>
    asMem_read b (by omega)
  refine ⟨by rw [hdata, ByteMem.length_read], ?_, ?_, ?_⟩
  · rw [hdata]
    have hdrop : (b.read 0 (p.hdrlen + l)).drop p.hdrlen = b.read p.hdrlen l := by
      rw [ByteMem.read_add, List.drop_left' (ByteMem.length_read _ _ _), Nat.zero_add]
    rw [hdrop]
    refine read_eq_part (fun i hi => ?_) hin
    rw [hpay _ (by omega) (by omega), Nat.add_right_comm]
  · rw [hdata]
    exact h.iplen.congr hx hread
  · rw [hdata]
    exact h.header.congr hx hread

theorem emit_packets (htse : td.dcmdTse = true) (d : Data2) : (emit td d.seen).packets =
    d.packets ++ [packetOf (finished td d.seen) d.dextsize] := by
  rw [emit]
  simp only [seen_packets, Data2.packetSize, htse, if_true, seen_dextsize]

/-- A segment that is not the last one is cut off. -/
theorem pass_sent_segment (hx : p.dext0.Placed) (htse : td.dcmdTse = true)
    (hifcs : td.dcmdIfcs = true) (h : Sent p k c d) (hopt : d.Options)
    (hlast : p.mss < p.paylen - k * p.mss) (hle : p.hdrlen + p.mss ≤ d.len) :
    ∃ e f, pass td d = .done e ∧ Sent p (k + 1) c e ∧ e.Options ∧ e.len = d.len - p.mss ∧
      e.packets = d.packets ++ [f] ∧ SegmentAt p k false p.mss f := by
  obtain ⟨hnot, hsize⟩ := h.dextsize_of_not_last hlast
  have hlen := h.len
  have hbuf := d.len_le
  have hmul : (k + 1) * p.mss = k * p.mss + p.mss := Nat.succ_mul _ _
  obtain ⟨hframe, hpay⟩ := sent_finished hx htse h hopt (by omega)
  obtain ⟨hseen, hsaved⟩ := sent_seen h (by omega)
  rw [hnot] at hframe
  simp only [Bool.false_eq_true, if_false] at hframe
  have hmss : d.dext0.mss.toNat = p.mss := by rw [h.dext0]
  have hhdr : d.dext0.hdrlen.toNat = p.hdrlen := by rw [h.dext0]
  have hplaced : (emit td d.seen).dext0.Placed := by
    rw [emit_dext0, seen_dext0]
    exact sent_dext0_placed hx h
  generalize hb : (emit td d.seen).buf.copy (emit td d.seen).dext0.hdrlen.toNat
    (emit td d.seen).dextsize ((emit td d.seen).len - (emit td d.seen).dextsize) = b
  have hb' : b = (finished td d.seen).write p.hdrlen
      ((finished td d.seen).read (p.hdrlen + p.mss) (d.len - (p.hdrlen + p.mss))) := by
    rw [← hb, emit_dext0, seen_dext0, hhdr, emit_dextsize, seen_dextsize, hsize, emit_len, seen_len]
    rfl
  have hebuf : (emit td d.seen).rest.buf = headerNext (emit td d.seen) b := by rw [← hb]; rfl
  have hlow : ∀ q < p.hdrlen, b q = finished td d.seen q := fun q hq => by
    rw [hb']
    exact ByteMem.write_apply_lt _ _ _ hq
  have hframe' : SegmentHeader (emit td d.seen).dext0 (p.ident k) (p.seq k) false false b := by
    rw [emit_dext0, seen_dext0]
    exact (sent_header_dext0 h).mpr (hframe.header.congr hx hlow)
  have hnext := headerNext_header hplaced b hframe'
  refine ⟨(emit td d.seen).rest, packetOf (finished td d.seen) (p.hdrlen + p.mss),
    pass_segment hifcs ⟨htse, h.recvvirt, hnot⟩ (by omega), ?_, ?_, ?_, ?_, ?_⟩
  · refine ⟨?_, ?_, .inl (by omega), ?_, fun q hq hk => ?_, .inr ?_, fun _ => ?_, fun ht _ => ?_⟩
    · rw [rest_len, emit_len, emit_dext0, seen_len, seen_dext0, hmss]
      omega
    · rw [rest_dext0, emit_dext0, seen_dext0, Dext0.less, hmss, h.dext0, hmul, Nat.sub_sub]
    · rw [rest_recvvirt, emit_recvvirt, seen_recvvirt, h.recvvirt]
    · rw [rest_len, emit_len, emit_dext0, seen_len, seen_dext0, hmss] at hq
      have hq' : p.hdrlen ≤ q := hk.resolve_left (by omega)
      rw [hebuf, headerNext_payload hplaced b (by rw [emit_dext0, seen_dext0, hhdr]; exact hq'), hb']
      obtain ⟨i, rfl⟩ := Nat.exists_eq_add_of_le hq'
      have hi : i < ((finished td d.seen).read (p.hdrlen + p.mss)
          (d.len - (p.hdrlen + p.mss))).length := by
        rw [ByteMem.length_read]
        omega
      rw [ByteMem.write_apply_add _ _ _ hi]
      have hget := ByteMem.getElem?_read (finished td d.seen) (p.hdrlen + p.mss)
        (d.len - (p.hdrlen + p.mss)) (i := i) (by omega)
      rw [List.getElem?_eq_getElem hi] at hget
      rw [Option.some.inj hget, hpay _ (by omega), h.bytes _ (by omega) (.inr (by omega)), hmul]
      congr 1
      omega
    · rw [rest_len, emit_len, emit_dext0, seen_len, seen_dext0, hmss]
      omega
    · rw [hebuf, ident_succ, seq_succ]
      rw [emit_dext0, seen_dext0] at hnext
      have hnext' := (sent_header_dext0 h).mp hnext
      have hm : d.dext0.mss = p.dext0.mss := by rw [h.dext0]
      rw [hm] at hnext'
      exact ⟨hnext'.ident, hnext'.seq, fun ht => (hnext'.fin ht).trans (hsaved ht).1,
        fun ht => (hnext'.psh ht).trans (hsaved ht).2⟩
    · exact hsaved ht
  · have hseenopt := seen_options hopt
    exact ⟨hseenopt.ixsm, hseenopt.txsm⟩
  · rw [rest_len, emit_len, emit_dext0, seen_len, seen_dext0, hmss]
  · rw [rest_packets, emit_packets htse, hsize]
  · refine hframe.segmentAt hx (fun q hq hq' => ?_) (by omega) ?_
    · rw [hpay q hq, h.bytes q (by omega) (.inr hq)]
    · rw [length_bytes]
      omega

/-- The last segment of a packet that is there. -/
theorem pass_sent_last (hx : p.dext0.Placed) (htse : td.dcmdTse = true)
    (hifcs : td.dcmdIfcs = true) (h : Sent p k p.bytes.length d) (hopt : d.Options)
    (hlast : p.paylen - k * p.mss ≤ p.mss) :
    ∃ e f, pass td d = .done e ∧ e.core = (0, d.dext0, true) ∧
      e.packets = d.packets ++ [f] ∧ SegmentAt p k true (p.paylen - k * p.mss) f := by
  obtain ⟨hl, hsize⟩ := h.dextsize_of_last hlast
  have hlen := h.len
  have hbuf := d.len_le
  have hmore := h.more
  have htotal := length_bytes p
  have hzero : k = 0 → k * p.mss = 0 := fun hk => by rw [hk, Nat.zero_mul]
  have hall : d.len = p.hdrlen + (p.paylen - k * p.mss) := by omega
  obtain ⟨hframe, hpay⟩ := sent_finished hx htse h hopt (by omega)
  rw [hl] at hframe
  simp only [if_true] at hframe
  refine ⟨(emit td d.seen).clear, packetOf (finished td d.seen) d.dextsize, ?_, ?_, ?_, ?_⟩
  · rw [pass_of_le htse (by omega)]
    exact send_last hifcs ((seen_recvvirt d).trans h.recvvirt)
      fun _ => (seen_dextlast d).trans hl
  · rw [Data2.core, clear_len, clear_dext0, clear_recvvirt, emit_dext0, emit_recvvirt, seen_dext0,
      seen_recvvirt, h.recvvirt]
  · rw [clear_packets, emit_packets htse]
  · rw [hsize]
    refine hframe.segmentAt hx (fun q hq hq' => ?_) (by omega) (by omega)
    rw [hpay q hq, h.bytes q (by omega) (.inr hq)]

/-! ### What a descriptor does -/

theorem atHand_of_le {mss total : Nat} (h : total ≤ bufsize) : atHand mss total = total := by
  rw [atHand, fills_of_le h, Nat.zero_mul, Nat.sub_zero]

theorem atHand_of_lt {mss total : Nat} (hpos : 0 < mss) (h : bufsize < total) :
    atHand mss total = atHand mss (total - mss) := by
  rw [atHand, atHand, fills_of_lt hpos h, Nat.succ_mul]
  omega

/-- Frames in a row, from the `k`-th on, none of them the last one. -/
def FramesFrom (p : TsePacket) (k : Nat) (fs : List Packet) : Prop :=
  ∀ n f, fs[n]? = some f → SegmentAt p (k + n) false p.mss f

theorem framesFrom_nil (p : TsePacket) (k : Nat) : FramesFrom p k [] := fun _ _ h => by simp at h

theorem FramesFrom.cons {f : Packet} {fs : List Packet} (hf : SegmentAt p k false p.mss f)
    (h : FramesFrom p (k + 1) fs) : FramesFrom p k (f :: fs) := by
  rintro (_ | n) g hg
  · obtain rfl : f = g := by simpa using hg
    exact hf
  · rw [show k + (n + 1) = k + 1 + n by omega]
    exact h n g hg

theorem FramesFrom.append {fs gs : List Packet} (h : FramesFrom p k fs)
    (h' : FramesFrom p (k + fs.length) gs) : FramesFrom p k (fs ++ gs) := by
  induction fs generalizing k with
  | nil => exact h'
  | cons f fs ih =>
    refine FramesFrom.cons (h 0 f rfl) (ih (fun n g hg => ?_) ?_)
    · rw [show k + 1 + n = k + (n + 1) by omega]
      exact h (n + 1) g hg
    · rw [show k + 1 + fs.length = k + (f :: fs).length by rw [List.length_cons]; omega]
      exact h'

/-- The bytes that are not in a frame yet. -/
theorem Sent.left (h : Sent p k c d) (hle : c ≤ p.bytes.length) (hfull : p.hdrlen ≤ d.len) :
    p.hdrlen + (p.paylen - k * p.mss) = d.len + (p.bytes.length - c) := by
  have := h.len
  have := length_bytes p
  omega

/-- A pass that fills the buffer. -/
theorem gather_full (hx : p.dext0.Placed) (htse : td.dcmdTse = true) (hifcs : td.dcmdIfcs = true)
    (h : Sent p k c d) (hopt : d.Options) {a : BitVec 64} {l : Nat} (hpart : PartAt p mem a l c)
    (hle : c + l ≤ p.bytes.length) (hfull : bufsize < d.len + l)
    (hroom : p.hdrlen + p.mss ≤ bufsize) (hhdr : 0 < p.hdrlen) :
    ∃ e f, (∀ fuel, gather mem td (fuel + 1) d a l =
        gather mem td fuel e (a + BitVec.ofNat 64 (d.room l)) (l - d.room l)) ∧
      Sent p (k + 1) (c + d.room l) e ∧ e.Options ∧
      e.len + (l - d.room l) = d.len + l - p.mss ∧
      e.packets = d.packets ++ [f] ∧ SegmentAt p k false p.mss f := by
  have hcases := room_cases d l
  have hcopy := sent_copy hx h hpart
  have hlen := h.len
  have hleft := hcopy.left (by omega) (by rw [copytobuf_len]; omega)
  rw [copytobuf_len] at hleft
  obtain ⟨e, f, hpass, hsent, hopt', helen, hpk, hseg⟩ := pass_sent_segment hx htse hifcs hcopy
    ⟨hopt.ixsm, hopt.txsm⟩ (by omega) (by rw [copytobuf_len]; omega)
  rw [copytobuf_len] at helen
  refine ⟨e, f, fun fuel => ?_, hsent, hopt', by omega, hpk, hseg⟩
  rw [gather_succ _ _ _ hpass, if_neg (by omega)]

/-- A descriptor after which the packet goes on, or that leaves more than a segment behind. -/
theorem gather_sent (hx : p.dext0.Placed) (htse : td.dcmdTse = true) (hifcs : td.dcmdIfcs = true)
    (hhdr : 0 < p.hdrlen) {a : BitVec 64} {l : Nat} (h : Sent p k c d) (hopt : d.Options)
    (hpart : PartAt p mem a l c) (hle : c + l ≤ p.bytes.length)
    (hroom : d.len + l ≤ bufsize ∨ p.hdrlen + p.mss ≤ bufsize)
    (hmore : c + l = p.bytes.length → p.hdrlen + p.mss < atHand p.mss (d.len + l))
    (heop : td.dcmdEop = true → p.hdrlen + p.mss ≤ atHand p.mss (d.len + l)) :
    ∃ fuel e fs, gather mem td fuel d a l = .done e ∧ Sent p (k + fs.length) (c + l) e ∧
      e.Options ∧ e.len = (if p.hdrlen + p.mss ≤ atHand p.mss (d.len + l) then
        atHand p.mss (d.len + l) - p.mss else atHand p.mss (d.len + l)) ∧
      e.packets = d.packets ++ fs ∧ FramesFrom p k fs := by
  induction hn : d.len + l using Nat.strongRecOn generalizing d a l k c with
  | _ n ih =>
  have hmss := p.mss_pos
  have hlen := h.len
  by_cases hfull : bufsize < d.len + l
  · have hroom' : p.hdrlen + p.mss ≤ bufsize := hroom.resolve_left (by omega)
    obtain ⟨e, f, hrun, hsent, hopt', helen, hpk, hseg⟩ :=
      gather_full hx htse hifcs h hopt hpart hle hfull hroom' hhdr
    have hhand := atHand_of_lt hmss hfull
    rw [show p.context.mss.toNat = p.mss from rfl, ← helen] at hhand
    have hroomle := room_le d l
    obtain ⟨fuel, e', fs, hrun', hsent', hopt'', helen', hpk', hfs⟩ := ih
      (e.len + (l - d.room l)) (by rw [helen]; have : p.mss = p.context.mss.toNat := rfl; omega)
      hsent hopt' (hpart.drop (d.room l))
      (by omega) (.inr hroom') (fun hall => by rw [← hhand]; exact hmore (by omega))
      (fun he => by rw [← hhand]; exact heop he) rfl
    refine ⟨fuel + 1, e', f :: fs, by rw [hrun, hrun'], ?_, hopt'', ?_, ?_, hfs.cons hseg⟩
    · rw [List.length_cons, show k + (fs.length + 1) = k + 1 + fs.length by omega,
        show c + l = c + d.room l + (l - d.room l) by omega]
      exact hsent'
    · rw [helen', ← hn, hhand]
    · rw [hpk', hpk, List.append_assoc, List.singleton_append]
  · have hle' : d.len + l ≤ bufsize := by omega
    have hall : d.room l = l := by
      have := room_cases d l
      omega
    have hcopy := sent_copy hx h hpart
    rw [hall] at hcopy
    rw [atHand_of_le hle'] at hmore heop
    rw [← hn, atHand_of_le hle']
    have hclen : (tdescCopytobuf mem d a l).len = d.len + l := by rw [copytobuf_len, hall]
    by_cases hseg : p.hdrlen + p.mss ≤ d.len + l
    · have hleft := hcopy.left hle (by omega)
      obtain ⟨e, f, hpass, hsent, hopt', helen, hpk, hf⟩ := pass_sent_segment hx htse hifcs hcopy
        ⟨hopt.ixsm, hopt.txsm⟩ (by omega) (by omega)
      refine ⟨1, e, [f], ?_, hsent, hopt', ?_, hpk, (framesFrom_nil p _).cons hf⟩
      · rw [gather_succ _ _ _ hpass, if_pos (.inl (by omega))]
      · rw [helen, hclen, if_pos hseg]
    · have hnot : ¬td.dcmdEop = true := fun he => hseg (heop he)
      have hsize : (tdescCopytobuf mem d a l).len < (tdescCopytobuf mem d a l).dextsize := by
        rcases Nat.lt_or_ge p.mss (p.paylen - k * p.mss) with hlt | hge
        · rw [(hcopy.dextsize_of_not_last hlt).2]
          omega
        · rw [(hcopy.dextsize_of_last hge).2]
          have := length_bytes p
          have := hcopy.len
          omega
      refine ⟨1, tdescCopytobuf mem d a l, [], ?_, hcopy, ⟨hopt.ixsm, hopt.txsm⟩, ?_, ?_,
        framesFrom_nil p k⟩
      · rw [gather_succ _ _ _ (by rw [pass_of_not (by omega), if_neg hnot]), if_pos (.inl (by omega))]
      · rw [hclen, if_neg hseg]
      · exact (List.append_nil _).symm

/-- A packet whose last frame is out. -/
structure Complete (p : TsePacket) (before : List Packet) (e : Data2) : Prop where
  clear : e.len = 0
  recvvirt : e.recvvirt = true
  frames : ∃ fs f, e.packets = before ++ (fs ++ [f]) ∧ FramesFrom p 0 fs ∧
    SegmentAt p fs.length true (p.paylen - fs.length * p.mss) f ∧
    p.paylen - fs.length * p.mss ≤ p.mss ∧ (fs.length * p.mss < p.paylen ∨ fs.length = 0) ∧
    e.dext0 = { p.dext0 with paylen := p.paylen - fs.length * p.mss }

/-- The descriptor that brings the last bytes, when they make at most a segment. -/
theorem gather_last (hx : p.dext0.Placed) (htse : td.dcmdTse = true) (hifcs : td.dcmdIfcs = true)
    (hhdr : 0 < p.hdrlen) {a : BitVec 64} {l : Nat} {before fs : List Packet}
    (h : Sent p fs.length c d) (hopt : d.Options) (hpart : PartAt p mem a l c)
    (hall : c + l = p.bytes.length) (hroom : d.len + l ≤ bufsize ∨ p.hdrlen + p.mss ≤ bufsize)
    (hlast : atHand p.mss (d.len + l) ≤ p.hdrlen + p.mss)
    (hpk : d.packets = before ++ fs) (hfs : FramesFrom p 0 fs) :
    ∃ fuel e, gather mem td fuel d a l = .done e ∧ Complete p before e := by
  induction hn : d.len + l using Nat.strongRecOn generalizing d a l fs c with
  | _ n ih =>
  have hmss : 0 < p.mss := p.mss_pos
  have hlen := h.len
  by_cases hfull : bufsize < d.len + l
  · have hroom' : p.hdrlen + p.mss ≤ bufsize := hroom.resolve_left (by omega)
    obtain ⟨e, f, hrun, hsent, hopt', helen, hpk', hseg⟩ :=
      gather_full hx htse hifcs h hopt hpart (by omega) hfull hroom' hhdr
    have hroomle := room_le d l
    have hfs' : FramesFrom p 0 (fs ++ [f]) :=
      hfs.append (by rw [Nat.zero_add]; exact (framesFrom_nil p _).cons hseg)
    have hsent' : Sent p (fs ++ [f]).length (c + d.room l) e := by
      rw [List.length_append]
      exact hsent
    obtain ⟨fuel, e', hrun', hdone⟩ := ih (e.len + (l - d.room l)) (by omega) hsent' hopt'
      (hpart.drop (d.room l)) (by omega)
      (.inr hroom') (by rw [helen, ← atHand_of_lt hmss hfull]; exact hlast)
      (by rw [hpk', hpk, List.append_assoc]) hfs' rfl
    exact ⟨fuel + 1, e', by rw [hrun, hrun'], hdone⟩
  · have hle' : d.len + l ≤ bufsize := by omega
    have hroomall : d.room l = l := by
      have := room_cases d l
      omega
    have hcopy := sent_copy hx h hpart
    rw [hroomall, hall] at hcopy
    rw [atHand_of_le hle'] at hlast
    have htotal := length_bytes p
    have hmore := h.more
    have hzero : fs.length = 0 → fs.length * p.mss = 0 := fun hk => by rw [hk, Nat.zero_mul]
    have hpay : p.paylen - fs.length * p.mss ≤ p.mss := by omega
    obtain ⟨e, f, hpass, hcore, hpk', hf⟩ := pass_sent_last hx htse hifcs hcopy
      ⟨hopt.ixsm, hopt.txsm⟩ hpay
    have hclear : e.len = 0 := congrArg Prod.fst hcore
    refine ⟨1, e, ?_, hclear, congrArg (·.2.2) hcore, fs, f, ?_, hfs, hf, hpay, hmore, ?_⟩
    · rw [gather_succ _ _ _ hpass, if_pos (.inr hclear)]
    · rw [hpk']
      change d.packets ++ [f] = _
      rw [hpk, List.append_assoc]
    · exact (congrArg (·.2.1) hcore).trans h.dext0

/-! ### The frames of a packet -/

theorem framesFrom_payload {fs : List Packet} (h : FramesFrom p k fs) :
    fs.flatMap (·.data.drop p.hdrlen) =
      (p.bytes.drop (p.hdrlen + k * p.mss)).take (fs.length * p.mss) := by
  induction fs generalizing k with
  | nil => simp
  | cons f fs ih =>
    have hrest : FramesFrom p (k + 1) fs := fun n g hg => by
      rw [show k + 1 + n = k + (n + 1) by omega]
      exact h (n + 1) g hg
    have hmul : (fs.length + 1) * p.mss = p.mss + fs.length * p.mss := by
      rw [Nat.succ_mul, Nat.add_comm]
    have hadd : p.hdrlen + (k + 1) * p.mss = p.hdrlen + k * p.mss + p.mss := by
      rw [Nat.succ_mul, Nat.add_assoc]
    rw [List.flatMap_cons, ih hrest, (h 0 f rfl).payload, List.length_cons, hmul, List.take_add,
      List.drop_drop, hadd, Nat.add_zero]

theorem Complete.segmented {before : List Packet} (h : Complete p before e) :
    ∃ frames, e.packets = before ++ frames ∧ Segmented p frames := by
  obtain ⟨-, -, fs, f, hpk, hfs, hf, hlast, hmore, -⟩ := h
  refine ⟨fs ++ [f], hpk, ⟨?_, fun g hg => ?_, fun g hg => ?_, fun n g hg => ?_⟩⟩
  · have hsum : fs.length * p.mss + (p.paylen - fs.length * p.mss) = p.paylen := by
      have hzero : fs.length = 0 → fs.length * p.mss = 0 := fun hk => by rw [hk, Nat.zero_mul]
      omega
    have htake : (p.bytes.drop p.hdrlen).take p.paylen = p.payload := by
      rw [TsePacket.payload, List.take_of_length_le]
      rw [List.length_drop, length_bytes]
      omega
    rw [List.flatMap_append, framesFrom_payload hfs, List.flatMap_singleton, hf.payload,
      ← htake, ← hsum, List.take_add, List.drop_drop, hsum, Nat.zero_mul, Nat.add_zero]
  · rw [List.dropLast_concat] at hg
    obtain ⟨n, hn⟩ := List.mem_iff_getElem?.mp hg
    exact (hfs n g hn).length
  · rcases List.mem_append.mp hg with hg | hg
    · obtain ⟨n, hn⟩ := List.mem_iff_getElem?.mp hg
      exact (hfs n g hn).iplen
    · obtain rfl := List.mem_singleton.mp hg
      exact hf.iplen
  · rw [List.length_append, List.length_singleton]
    rcases Nat.lt_or_ge n fs.length with hlt | hge
    · rw [List.getElem?_append_left hlt] at hg
      have hseg := (hfs n g hg).header
      rw [Nat.zero_add] at hseg
      rw [show decide (n + 1 = fs.length + 1) = false by simpa using by omega]
      exact hseg
    · rw [List.getElem?_append_right hge] at hg
      have hn : n - fs.length = 0 := by
        by_contra hne
        rw [List.getElem?_eq_none (by simp; omega)] at hg
        cases hg
      rw [hn] at hg
      obtain rfl : f = g := by simpa using hg
      obtain rfl : n = fs.length := by omega
      rw [decide_eq_true rfl]
      exact hf.header

/-- The payload of the frames of a packet has its length. -/
theorem Segmented.length_payload {frames : List Packet} (h : Segmented p frames) :
    (frames.map fun f => f.data.length - p.hdrlen).sum = p.paylen := by
  have hlen := congrArg List.length h.payload
  rw [List.length_flatMap, TsePacket.payload, List.length_drop, length_bytes] at hlen
  simp only [List.length_drop] at hlen
  omega

theorem framesFrom_length {fs : List Packet} (h : FramesFrom p k fs) :
    (fs.map fun f => f.data.length - p.hdrlen).sum = fs.length * p.mss := by
  induction fs generalizing k with
  | nil => simp
  | cons f fs ih =>
    have hrest : FramesFrom p (k + 1) fs := fun n g hg => by
      rw [show k + 1 + n = k + (n + 1) by omega]
      exact h (n + 1) g hg
    rw [List.map_cons, List.sum_cons, ih hrest, (h 0 f rfl).length, List.length_cons, Nat.succ_mul]
    omega

/-! ### The descriptors of a packet -/

theorem processTdesc_data {c : Piece} (hdext : c.td.cmdDext = true) (hdtyp : c.td.dtyp = 1)
    (fuel : Nat) : processTdesc c.mem d c.td fuel =
      gather c.mem c.td fuel (latchOptions c.td d) c.td.addr c.len := by
  rw [processTdesc, if_pos hdext, if_neg (by rw [hdtyp]; decide), if_pos hdtyp, Piece.len]

theorem processPieces_cons {c : Piece} {cs : List Piece} {fuel : Nat}
    (h : processTdesc c.mem d c.td fuel = .done e) :
    processPieces fuel d (c :: cs) = processPieces fuel e cs := by
  rw [processPieces, h]
  rfl

theorem processPieces_done {c : Piece} {cs : List Piece} {fuel : Nat} {e' : Data2}
    (h : processPieces fuel d (c :: cs) = .done e') :
    ∃ e, processTdesc c.mem d c.td fuel = .done e ∧ processPieces fuel e cs = .done e' := by
  cases hc : processTdesc c.mem d c.td fuel with
  | running =>
    rw [processPieces, hc] at h
    cases h
  | overrun =>
    rw [processPieces, hc] at h
    cases h
  | done e =>
    rw [processPieces_cons hc] at h
    exact ⟨e, rfl, h⟩

/-- A part of the packet is where its descriptor says. -/
theorem partAt_piece {pre post : List Piece} {c : Piece} (h : p.pieces = pre ++ c :: post) :
    PartAt p c.mem c.td.addr c.len (pre.map Piece.len).sum := by
  intro i hi
  have hpre : (pre.flatMap Piece.bytes).length = (pre.map Piece.len).sum := by
    rw [List.length_flatMap]
    simp only [length_piece_bytes]
  have hbytes : p.bytes = pre.flatMap Piece.bytes ++ (c.bytes ++ post.flatMap Piece.bytes) := by
    rw [TsePacket.bytes, h, List.flatMap_append, List.flatMap_cons]
  have hlt : i < c.bytes.length := by rw [length_piece_bytes]; exact hi
  rw [asMem, hbytes, List.getD_eq_getElem?_getD, ← hpre,
    List.getElem?_append_right (Nat.le_add_right _ _), Nat.add_sub_cancel_left,
    List.getElem?_append_left hlt, List.getElem?_eq_getElem hlt, Option.getD_some]
  simp [Piece.bytes, GuestMem.read]

theorem sum_pieces {pre post : List Piece} (h : p.pieces = pre ++ post) :
    (pre.map Piece.len).sum + (post.map Piece.len).sum = p.bytes.length := by
  rw [length_bytes, ← List.sum_append, ← List.map_append, ← h]
  exact p.total

theorem piece_isData {pre post : List Piece} {c : Piece} (h : p.pieces = pre ++ c :: post) :
    c.td.cmdDext = true ∧ c.td.dtyp = 1 ∧ c.td.dcmdTse = true ∧ c.td.dcmdIfcs = true :=
  p.isData c (by
    change c ∈ p.pieces
    rw [h]
    simp)

theorem piece_eop {pre : List Piece} {c : Piece} (h : p.pieces = pre ++ [c]) :
    c.td.dcmdEop = true := by
  have hlast := congrArg List.getLast? h
  rw [TsePacket.pieces, List.getLast?_concat, List.getLast?_concat] at hlast
  rw [← Option.some.inj hlast]
  exact p.eop

theorem piece_not_eop {pre post : List Piece} {c c' : Piece}
    (h : p.pieces = pre ++ c :: c' :: post) : c.td.dcmdEop = false := by
  have hinit := congrArg List.dropLast h
  rw [TsePacket.pieces, List.dropLast_concat, List.dropLast_append_of_ne_nil (by simp),
    List.dropLast_cons_of_ne_nil (by simp)] at hinit
  exact p.notEop c (by rw [hinit]; simp)

theorem sent_latchOptions (td : Tdesc) (h : Sent p k c d) : Sent p k c (latchOptions td d) := by
  rw [latchOptions]
  split
  · exact ⟨h.len, h.dext0, h.more, h.recvvirt, h.bytes, h.full, h.header, h.saved⟩
  · exact h

/-- The options that count are the ones of a descriptor of the packet. -/
theorem options_latchOptions (hwell : p.WellPlaced) {pre post : List Piece} {x : Piece}
    (hx : p.pieces = pre ++ x :: post) (h : Sent p k c d) (hopt : d.len ≠ 0 → d.Options) :
    (latchOptions x.td d).Options := by
  have hmem : x ∈ p.pieces := by
    rw [hx]
    simp
  rw [latchOptions]
  split
  · refine ⟨fun hi => ?_, fun ht => ?_⟩
    · change d.dext0.ChecksumApart d.dext0.ipcso
      rw [h.dext0]
      exact hwell.ixsm x hmem hi
    · change d.dext0.ChecksumApart d.dext0.tucso
      rw [h.dext0]
      exact hwell.txsm x hmem ht
  next hne => exact hopt hne

theorem latchOptions_packets (td : Tdesc) (d : Data2) : (latchOptions td d).packets = d.packets := by
  rw [latchOptions]
  split <;> rfl

theorem latchOptions_len (td : Tdesc) (d : Data2) : (latchOptions td d).len = d.len :=
  congrArg Prod.fst (latchOptions_core td d)

/-- What holds between two descriptors of a packet. -/
structure Between (p : TsePacket) (before : List Packet) (pre : List Piece) (fs : List Packet)
    (d : Data2) : Prop where
  sent : Sent p fs.length (pre.map Piece.len).sum d
  options : d.len ≠ 0 → d.Options
  packets : d.packets = before ++ fs
  frames : FramesFrom p 0 fs

variable {before fs : List Packet} {pre : List Piece}

/-- A descriptor after which the packet goes on, or that leaves more than a segment behind. -/
theorem Between.go_on (hwell : p.WellPlaced) {post : List Piece} {c : Piece}
    (hp : p.pieces = pre ++ c :: post) (h : Between p before pre fs d)
    (hroom : d.len + c.len ≤ bufsize ∨ p.hdrlen + p.mss ≤ bufsize)
    (hmore : (post.map Piece.len).sum = 0 → p.hdrlen + p.mss < atHand p.mss (d.len + c.len))
    (heop : c.td.dcmdEop = true → p.hdrlen + p.mss ≤ atHand p.mss (d.len + c.len)) :
    ∃ fuel e fs', (∀ more, processTdesc c.mem d c.td (fuel + more) = .done e) ∧
      Between p before (pre ++ [c]) fs' e ∧
      e.len = if p.hdrlen + p.mss ≤ atHand p.mss (d.len + c.len) then
        atHand p.mss (d.len + c.len) - p.mss else atHand p.mss (d.len + c.len) := by
  obtain ⟨hdext, hdtyp, htse, hifcs⟩ := piece_isData hp
  have hsum := sum_pieces hp
  rw [List.map_cons, List.sum_cons] at hsum
  have hip := hwell.placed.ip
  obtain ⟨fuel, e, fs', hrun, hsent, hopt, hlen, hpk, hfs⟩ := gather_sent hwell.placed htse hifcs
    (show 0 < p.hdrlen by rw [TsePacket.hdrlen]; omega) (sent_latchOptions c.td h.sent)
    (options_latchOptions hwell hp h.sent h.options) (partAt_piece hp) (by omega)
    (by rw [latchOptions_len]; exact hroom)
    (fun hall => by rw [latchOptions_len]; exact hmore (by omega))
    (fun he => by rw [latchOptions_len]; exact heop he)
  rw [latchOptions_len] at hlen
  refine ⟨fuel, e, fs ++ fs', fun more => ?_, ⟨?_, fun _ => hopt, ?_, ?_⟩, hlen⟩
  · rw [processTdesc_data hdext hdtyp, gather_mono hrun]
  · rw [List.map_append, List.sum_append, List.map_singleton, List.sum_singleton,
      List.length_append]
    exact hsent
  · rw [hpk, latchOptions_packets, h.packets, List.append_assoc]
  · exact h.frames.append (by rw [Nat.zero_add]; exact hfs)

/-- The descriptor that brings the last bytes, when they make at most a segment. -/
theorem Between.complete (hwell : p.WellPlaced) {post : List Piece} {c : Piece}
    (hp : p.pieces = pre ++ c :: post) (h : Between p before pre fs d)
    (hpost : (post.map Piece.len).sum = 0)
    (hroom : d.len + c.len ≤ bufsize ∨ p.hdrlen + p.mss ≤ bufsize)
    (hlast : atHand p.mss (d.len + c.len) ≤ p.hdrlen + p.mss) :
    ∃ fuel e, (∀ more, processTdesc c.mem d c.td (fuel + more) = .done e) ∧
      Complete p before e := by
  obtain ⟨hdext, hdtyp, htse, hifcs⟩ := piece_isData hp
  have hsum := sum_pieces hp
  rw [List.map_cons, List.sum_cons] at hsum
  have hip := hwell.placed.ip
  obtain ⟨fuel, e, hrun, hdone⟩ := gather_last hwell.placed htse hifcs
    (show 0 < p.hdrlen by rw [TsePacket.hdrlen]; omega) (sent_latchOptions c.td h.sent)
    (options_latchOptions hwell hp h.sent h.options) (partAt_piece hp) (by omega)
    (by rw [latchOptions_len]; exact hroom) (by rw [latchOptions_len]; exact hlast)
    (by rw [latchOptions_packets]; exact h.packets) h.frames
  exact ⟨fuel, e, fun more => by rw [processTdesc_data hdext hdtyp, gather_mono hrun], hdone⟩

/-- An aligned packet comes out complete. -/
theorem complete_of_aligned (hwell : p.WellPlaced) (cs : List Piece) {pre : List Piece}
    {fs : List Packet} {d : Data2} (hp : p.pieces = pre ++ cs) (h : Between p before pre fs d)
    (hal : Aligned p.hdrlen p.mss d.len (cs.map Piece.len)) :
    ∃ fuel e, (∀ more, processPieces (fuel + more) d cs = .done e) ∧ Complete p before e := by
  induction cs generalizing pre fs d with
  | nil => exact absurd hal id
  | cons c cs ih =>
    cases cs with
    | nil =>
      obtain ⟨hroom, hlast⟩ := hal
      obtain ⟨fuel, e, hrun, hdone⟩ := h.complete hwell hp rfl hroom hlast
      exact ⟨fuel, e, fun more => by rw [processPieces_cons (hrun more)]; rfl, hdone⟩
    | cons c' cs =>
      obtain ⟨hroom, hmore, hrest⟩ := hal
      obtain ⟨fuel, e, fs', hrun, hbetween, hlen⟩ := h.go_on hwell hp hroom hmore
        fun he => absurd he (by rw [piece_not_eop hp]; decide)
      rw [← hlen] at hrest
      obtain ⟨fuel', e', hrun', hdone⟩ := ih
        (by rw [hp, List.append_assoc, List.singleton_append]) hbetween hrest
      refine ⟨fuel + fuel', e', fun more => ?_, hdone⟩
      rw [processPieces_cons (by rw [Nat.add_assoc]; exact hrun _), Nat.add_comm fuel,
        Nat.add_assoc, hrun']

/-- What is left over by the copy of nothing. -/
theorem room_zero (d : Data2) : d.room 0 = 0 := by
  rw [Data2.room, Nat.min_zero]

/-- Descriptors without bytes, after the last frame: the end of the packet sends another one. -/
theorem extra_frame (hwell : p.WellPlaced) (cs : List Piece) {pre : List Piece} {d e : Data2}
    (hp : p.pieces = pre ++ cs) (hne : cs ≠ []) (hzero : (cs.map Piece.len).sum = 0) {r : Nat}
    (hlen : d.len = 0) (hrecv : d.recvvirt = true)
    (hdext : d.dext0 = { p.dext0 with paylen := r }) (hr : r ≤ p.mss) {fuel : Nat}
    (hrun : processPieces fuel d cs = .done e) :
    ∃ g, e.packets = d.packets ++ [g] ∧ g.data.length = min (p.hdrlen + r) bufsize := by
  induction cs generalizing pre d with
  | nil => exact absurd rfl hne
  | cons c cs ih =>
    rw [List.map_cons, List.sum_cons] at hzero
    obtain ⟨e₁, hc, hrest⟩ := processPieces_done hrun
    obtain ⟨hd, hdt, htse, hifcs⟩ := piece_isData hp
    have hip := hwell.placed.ip
    rw [processTdesc_data hd hdt, show c.len = 0 by omega] at hc
    generalize hd₁ : tdescCopytobuf c.mem (latchOptions c.td d) c.td.addr 0 = d₁
    have hcore : d₁.core = d.core := by
      rw [← hd₁, ← latchOptions_core c.td d]
      have hroom := room_zero (latchOptions c.td d)
      rw [Data2.core, copytobuf_len, hroom]
      rfl
    have hlen₁ : d₁.len = 0 := (congrArg Prod.fst hcore).trans hlen
    have hdext₁ : d₁.dext0 = { p.dext0 with paylen := r } := (congrArg (·.2.1) hcore).trans hdext
    have hrecv₁ : d₁.recvvirt = true := (congrArg (·.2.2) hcore).trans hrecv
    have hpk₁ : d₁.packets = d.packets := by
      rw [← hd₁, ← latchOptions_packets c.td d]
      rfl
    have hlast : d₁.dextlast = true := by
      rw [Data2.dextlast, hdext₁]
      simpa using hr
    have hsize : d₁.dextsize = p.hdrlen + r := by
      rw [dextsize_of_last hlast, hdext₁]
    have hnot : ¬(c.td.dcmdTse = true ∧ d₁.dextsize ≤ d₁.len) := by
      rintro ⟨-, hle⟩
      rw [hsize, hlen₁, TsePacket.hdrlen] at hle
      omega
    cases fuel with
    | zero => cases hc
    | succ fuel =>
      cases cs with
      | nil =>
        have hpass : pass c.td d₁ = .done (emit c.td d₁).clear := by
          rw [pass_of_not hnot, if_pos (piece_eop hp)]
          exact send_last hifcs hrecv₁ fun _ => hlast
        rw [gather_succ _ _ _ (by rw [hd₁, hpass]), if_pos (.inl (Nat.zero_sub _))] at hc
        obtain rfl := Outcome.done.inj hc
        obtain rfl := Outcome.done.inj hrest
        refine ⟨packetOf (finished c.td d₁) (d₁.packetSize c.td.dcmdTse), ?_, ?_⟩
        · rw [clear_packets, emit, hpk₁]
        · rw [packetOf, ByteMem.length_read, Data2.packetSize, if_pos htse, hsize]
      | cons c' cs =>
        have hpass : pass c.td d₁ = .done d₁ := by
          rw [pass_of_not hnot, if_neg (by rw [piece_not_eop hp]; decide)]
        rw [gather_succ _ _ _ (by rw [hd₁, hpass]), if_pos (.inl (Nat.zero_sub _))] at hc
        obtain rfl := Outcome.done.inj hc
        have hp' : p.pieces = (pre ++ [c]) ++ c' :: cs := by
          rw [hp, List.append_assoc, List.singleton_append]
        obtain ⟨g, hg, hglen⟩ := ih hp' (by simp) (by omega) hlen₁ hrecv₁ hdext₁ hrest
        exact ⟨g, by rw [hg, hpk₁], hglen⟩

/-- A descriptor that is taken fills the buffer only where a segment has room in it, or else ends
the packet. -/
theorem Between.room_of_takes {post : List Piece} {c : Piece} (hp : p.pieces = pre ++ c :: post)
    (h : Between p before pre fs d) (htakes : Takes d c.td) :
    (d.len + c.len ≤ bufsize ∨ p.hdrlen + p.mss ≤ bufsize) ∨
      c.td.dcmdEop = true ∧ p.paylen - fs.length * p.mss ≤ p.mss := by
  obtain ⟨hdext, hdtyp, htse, hifcs⟩ := piece_isData hp
  have hfits := htakes hdext hdtyp
  have hsum := sum_pieces hp
  rw [List.map_cons, List.sum_cons] at hsum
  have htotal := length_bytes p
  have hlen := h.sent.len
  have hlenc : c.td.dtalen.toNat = c.len := rfl
  rw [Fits, hlenc] at hfits
  rcases Nat.lt_or_ge p.mss (p.paylen - fs.length * p.mss) with hlt | hge
  · obtain ⟨hnot, -⟩ := h.sent.dextsize_of_not_last hlt
    rw [if_pos ⟨hifcs, htse, h.sent.recvvirt, hnot⟩] at hfits
    have hroom := hfits.1
    rw [h.sent.dext0] at hroom
    exact .inl (hroom.imp_right And.right)
  · obtain ⟨hl, hsize⟩ := h.sent.dextsize_of_last hge
    rw [if_neg fun hm => absurd hm.2.2.2 (by rw [hl]; decide), hsize] at hfits
    rcases hfits with hfits | ⟨-, heop | ⟨-, hfits⟩⟩
    · exact .inl (.inl hfits)
    · exact .inr ⟨heop, hge⟩
    · exact .inl (.inl (by omega))

/-- The end of a packet that is larger than the buffer: its frame is cut off. -/
theorem Between.cut_off (hwell : p.WellPlaced) {c : Piece} (hp : p.pieces = pre ++ [c])
    (h : Between p before pre fs d) (hfull : bufsize < d.len + c.len)
    (hlast : p.paylen - fs.length * p.mss ≤ p.mss) {fuel : Nat}
    (hrun : processTdesc c.mem d c.td fuel = .done e) :
    ∃ g, e.packets = d.packets ++ [g] ∧ g.data.length ≤ bufsize := by
  obtain ⟨hdext, hdtyp, htse, hifcs⟩ := piece_isData hp
  have hsum := sum_pieces hp
  rw [List.map_singleton, List.sum_singleton] at hsum
  have hlen := h.sent.len
  have hcopy := sent_copy hwell.placed (sent_latchOptions c.td h.sent) (partAt_piece hp)
  obtain ⟨hl, hsize⟩ := hcopy.dextsize_of_last hlast
  have hcases := room_cases (latchOptions c.td d) c.len
  rw [latchOptions_len] at hcases
  have htotal := length_bytes p
  have hmore := h.sent.more
  have hzero : fs.length = 0 → fs.length * p.mss = 0 := fun hk => by rw [hk, Nat.zero_mul]
  rw [processTdesc_data hdext hdtyp] at hrun
  generalize hd₁ : tdescCopytobuf c.mem (latchOptions c.td d) c.td.addr c.len = d₁ at hcopy hl hsize
  have hlen₁ : d₁.len = d.len + (latchOptions c.td d).room c.len := by
    rw [← hd₁, copytobuf_len, latchOptions_len]
  have hpass : pass c.td d₁ = .done (emit c.td d₁).clear := by
    rw [pass_of_not (by omega), if_pos (piece_eop hp)]
    exact send_last hifcs hcopy.recvvirt fun _ => hl
  cases fuel with
  | zero => cases hrun
  | succ fuel =>
    rw [gather_succ _ _ _ (by rw [hd₁, hpass]), if_pos (.inr (clear_len _))] at hrun
    obtain rfl := Outcome.done.inj hrun
    refine ⟨packetOf (finished c.td d₁) (d₁.packetSize c.td.dcmdTse), ?_, ?_⟩
    · rw [clear_packets, emit, ← hd₁, ← latchOptions_packets c.td d]
      rfl
    · rw [packetOf, ByteMem.length_read]
      exact Nat.min_le_right _ _

/-- A packet that comes out segmented is aligned. -/
theorem aligned_of_segmented (hwell : p.WellPlaced) (cs : List Piece) {pre : List Piece}
    {fs frames : List Packet} {d e : Data2} (hp : p.pieces = pre ++ cs) (hne : cs ≠ [])
    (h : Between p before pre fs d) {fuel : Nat} (hrun : processPieces fuel d cs = .done e)
    (hpk : e.packets = before ++ frames) (hseg : Segmented p frames) :
    Aligned p.hdrlen p.mss d.len (cs.map Piece.len) := by
  induction cs generalizing pre fs d with
  | nil => exact absurd rfl hne
  | cons c cs ih =>
    obtain ⟨e₁, hc, hrest⟩ := processPieces_done hrun
    have htakes := takes_of_processTdesc hc
    have hmss : 0 < p.mss := p.mss_pos
    have hpay := hseg.length_payload
    have hhdr := p.dext0.hdrlen.isLt
    have hbuf : bufsize = 2048 := rfl
    have hsum := sum_pieces hp
    rw [List.map_cons, List.sum_cons] at hsum
    have htotal := length_bytes p
    have hlen := h.sent.len
    have hlow := framesFrom_length h.frames
    have hmore := h.sent.more
    have hzero : fs.length = 0 → fs.length * p.mss = 0 := fun hk => by rw [hk, Nat.zero_mul]
    cases cs with
    | nil =>
      obtain rfl := Outcome.done.inj hrest
      rw [List.map_nil, List.sum_nil] at hsum
      have hroom : d.len + c.len ≤ bufsize ∨ p.hdrlen + p.mss ≤ bufsize := by
        refine (h.room_of_takes hp htakes).elim id fun ⟨_, hlast⟩ => ?_
        refine .inl (Nat.not_lt.mp fun hfull => ?_)
        obtain ⟨g, hg, hglen⟩ := h.cut_off hwell hp hfull hlast hc
        rw [hg, h.packets, List.append_assoc] at hpk
        rw [← List.append_cancel_left hpk, List.map_append, List.sum_append, hlow,
          List.map_singleton, List.sum_singleton] at hpay
        have hhdr' : p.hdrlen < 256 := hhdr
        omega
      refine ⟨hroom, Nat.not_lt.mp fun hbig => ?_⟩
      obtain ⟨n, e', fs', hgo, hbetween, helen⟩ := h.go_on hwell hp hroom (fun _ => hbig)
        (fun _ => Nat.le_of_lt hbig)
      obtain rfl := processTdesc_unique (hgo 0) hc
      have hpk' := List.append_cancel_left (hbetween.packets.symm.trans hpk)
      rw [← hpk', framesFrom_length hbetween.frames] at hpay
      have hlen' := hbetween.sent.len
      rw [List.map_append, List.sum_append, List.map_singleton, List.sum_singleton] at hlen'
      rw [if_pos (Nat.le_of_lt hbig)] at helen
      omega
    | cons c' cs =>
      have hnot : ¬c.td.dcmdEop = true := by
        rw [piece_not_eop hp]
        decide
      have hroom : d.len + c.len ≤ bufsize ∨ p.hdrlen + p.mss ≤ bufsize :=
        (h.room_of_takes hp htakes).resolve_right fun hr => hnot hr.1
      have hp' : p.pieces = (pre ++ [c]) ++ c' :: cs := by
        rw [hp, List.append_assoc, List.singleton_append]
      have hbig : ((c' :: cs).map Piece.len).sum = 0 →
          p.hdrlen + p.mss < atHand p.mss (d.len + c.len) := by
        refine fun hnone => Nat.not_le.mp fun hsmall => ?_
        obtain ⟨n, e', hgo, hdone⟩ := h.complete hwell hp hnone hroom hsmall
        obtain rfl := processTdesc_unique (hgo 0) hc
        obtain ⟨hclear, hrecv, fs', f, hpk', hfs', hf, hlast, -, hdext⟩ := hdone
        obtain ⟨g, hg, hglen⟩ := extra_frame hwell _ hp' (by simp) hnone hclear hrecv hdext hlast
          hrest
        rw [hg, hpk', List.append_assoc] at hpk
        have hframes := List.append_cancel_left hpk
        have hflen := hseg.full f (by
          rw [← hframes, List.dropLast_concat]
          simp)
        rw [hf.length] at hflen
        rw [← hframes, List.map_append, List.map_append, List.sum_append, List.sum_append,
          framesFrom_length hfs', List.map_singleton, List.sum_singleton, List.map_singleton,
          List.sum_singleton, hf.length] at hpay
        have hhdr' : p.hdrlen < 256 := hhdr
        omega
      obtain ⟨n, e', fs', hgo, hbetween, helen⟩ := h.go_on hwell hp hroom hbig
        fun he => absurd he hnot
      obtain rfl := processTdesc_unique (hgo 0) hc
      refine ⟨hroom, hbig, ?_⟩
      rw [← helen]
      exact ih hp' (by simp) hbetween hrest

/-! ### The whole packet -/

theorem setContext_between (hwell : p.WellPlaced) (d : Data2) (hlen : d.len = 0)
    (hrecv : d.recvvirt = true) :
    Between p d.packets [] [] (setContext p.context d) := by
  have hctx := p.isContext.2.2
  have hip := hwell.placed.ip
  refine ⟨⟨?_, ?_, .inr rfl, hrecv, fun q hq => ?_, .inl rfl, fun hle => ?_, fun _ hf => ?_⟩,
    fun hne => absurd hlen hne, (List.append_nil _).symm, framesFrom_nil p 0⟩
  · rw [List.length_nil, Nat.zero_mul]
    exact hlen
  · rw [setContext, TsePacket.dext0]
    simp [hctx]
    rfl
  · exact absurd (show q < d.len from hq) (by omega)
  · exact absurd (Nat.le_trans hle (Nat.le_of_eq hlen)) (by rw [TsePacket.hdrlen]; omega)
  · simp [setContext, hctx] at hf

theorem process_eq (p : TsePacket) (mem : GuestMem) (d : Data2) (fuel : Nat) :
    p.process mem d fuel = processPieces fuel (setContext p.context d) p.pieces := by
  refine processPieces_cons ?_
  rw [processTdesc, if_pos p.isContext.1, if_pos p.isContext.2.1]
  rfl

/-- A packet for TCP segmentation that comes to an empty buffer goes out in the frames of the
hardware exactly if its descriptors are aligned. -/
theorem segmented_iff (p : TsePacket) (hwell : p.WellPlaced) (mem : GuestMem) (d : Data2)
    (hlen : d.len = 0) (hrecv : d.recvvirt = true) :
    (∃ fuel e frames, p.process mem d fuel = .done e ∧ e.packets = d.packets ++ frames ∧
      Segmented p frames) ↔ Aligned p.hdrlen p.mss 0 (p.pieces.map Piece.len) := by
  have hstart := setContext_between hwell d hlen hrecv
  have hzero : (setContext p.context d).len = 0 := hlen
  constructor
  · rintro ⟨fuel, e, frames, hrun, hpk, hseg⟩
    rw [process_eq] at hrun
    have hal := aligned_of_segmented hwell p.pieces rfl (by simp [TsePacket.pieces]) hstart hrun
      hpk hseg
    rwa [hzero] at hal
  · intro hal
    rw [← hzero] at hal
    obtain ⟨fuel, e, hrun, hdone⟩ := complete_of_aligned hwell p.pieces rfl hstart hal
    obtain ⟨frames, hpk, hseg⟩ := hdone.segmented
    exact ⟨fuel, e, frames, by rw [process_eq]; exact hrun 0, hpk, hseg⟩

/-- A context descriptor for a header of 54 bytes and two bytes of payload. -/
def tseContext (mss : BitVec 8) : Tdesc :=
  ⟨fun i => if i = 0 then 14 else if i = 1 then 24 else if i = 4 then 34 else if i = 5 then 50
    else if i = 8 then 2 else if i = 11 then 0x27 else if i = 13 then 54
    else if i = 14 then mss else 0⟩

/-- All of it in one data descriptor. -/
def tseData : Piece :=
  ⟨fun _ => 0, ⟨fun i => if i = 8 then 56 else if i = 10 then 0x10 else if i = 11 then 0x27 else 0⟩⟩

/-- The packet in one segment, or in two. -/
def twoBytes (whole : Bool) : TsePacket where
  context := tseContext (if whole then 2 else 1)
  init := []
  last := tseData
  isContext := by cases whole <;> decide
  isData := by
    intro c hc
    obtain rfl : c = tseData := by simpa using hc
    decide
  notEop := nofun
  eop := by decide
  mss_pos := by cases whole <;> decide
  total := by cases whole <;> decide

theorem twoBytes_wellPlaced (whole : Bool) : (twoBytes whole).WellPlaced where
  placed := by
    constructor
    · cases whole <;> decide
    · cases whole <;> decide
  ixsm := by
    intro c hc
    obtain rfl : c = tseData := by simpa [TsePacket.pieces, twoBytes] using hc
    exact fun h => absurd h (by decide)
  txsm := by
    intro c hc
    obtain rfl : c = tseData := by simpa [TsePacket.pieces, twoBytes] using hc
    exact fun h => absurd h (by decide)

theorem segmented_iff_twoBytes :
    (∃ fuel e frames, (twoBytes true).process (fun _ => 0) (freshData2 0 0) fuel = .done e ∧
      e.packets = (freshData2 0 0).packets ++ frames ∧ Segmented (twoBytes true) frames) ↔
      Aligned (twoBytes true).hdrlen (twoBytes true).mss 0
        ((twoBytes true).pieces.map Piece.len) :=
  segmented_iff (twoBytes true) (twoBytes_wellPlaced true) (fun _ => 0) (freshData2 0 0) rfl rfl

/-- In two segments, the second one stays in the buffer. -/
theorem not_segmented_twoBytes :
    ¬∃ fuel e frames, (twoBytes false).process (fun _ => 0) (freshData2 0 0) fuel = .done e ∧
      e.packets = (freshData2 0 0).packets ++ frames ∧ Segmented (twoBytes false) frames := by
  rintro ⟨fuel, e, frames, hrun, hpk, hseg⟩
  rw [process_eq] at hrun
  have hwell := twoBytes_wellPlaced false
  have hal := aligned_of_segmented hwell (twoBytes false).pieces rfl
    (List.cons_ne_nil tseData []) (setContext_between hwell (freshData2 0 0) rfl rfl) hrun hpk hseg
  have hpieces : (twoBytes false).pieces.map Piece.len = [56] := by decide
  rw [hpieces, Aligned] at hal
  exact absurd hal.2 (by decide)

end OnDemandVirt.Net.Pro1000
