import OnDemandVirt.Net.Pro1000

/-!
# The receive ring of the network driver

`sendvirt` puts a packet into the guest's receive ring: the packet and four zero bytes in place of
its CRC, cut into pieces of the size of a buffer, one for each descriptor. A packet of one piece is
done well. Of a packet of more pieces the first descriptor is not: in the legacy layout it is left
without the DD bit, in the extended layout its length is that of all that is left of the packet. And
when the ring has too few descriptors, those that were filled stay filled.
-/

namespace OnDemandVirt.Net.Pro1000

open OnDemandVirt.Lib

/-- A receive descriptor: its sixteen bytes, which are read as one of two structures. -/
structure Rdesc where
  byte : Fin 16 → BitVec 8

namespace Rdesc

variable (rd : Rdesc)

/-! `struct rdesc` -/

def addr : BitVec 64 :=
  rd.byte 7 ++ rd.byte 6 ++ rd.byte 5 ++ rd.byte 4 ++ rd.byte 3 ++ rd.byte 2 ++ rd.byte 1 ++
    rd.byte 0
def len : BitVec 16 := rd.byte 9 ++ rd.byte 8
def statusDd : Bool := (rd.byte 12).getLsbD 0
def statusEop : Bool := (rd.byte 12).getLsbD 1

/-! `struct rdesc_ext1` -/

def exStaDd : Bool := (rd.byte 8).getLsbD 0
def exStaEop : Bool := (rd.byte 8).getLsbD 1
def exLen : BitVec 16 := rd.byte 13 ++ rd.byte 12

/-- The length field, DD and EOP of the layout that is in use. -/
def lenField (ext : Bool) : BitVec 16 := if ext then rd.exLen else rd.len
def dd (ext : Bool) : Bool := if ext then rd.exStaDd else rd.statusDd
def eop (ext : Bool) : Bool := if ext then rd.exStaEop else rd.statusEop

/-- The writes to a `struct rdesc`: the checksum, the status bit IXSM and the reserved error bits
stay. -/
def fillLegacy (len : BitVec 16) (eop dd : Bool) : Rdesc where
  byte := fun
    | 8 => len.setWidth 8
    | 9 => (len >>> 8).setWidth 8
    | 12 => rd.byte 12 &&& 4 ||| (if eop then 2 else 0) ||| (if dd then 1 else 0)
    | 13 => rd.byte 13 &&& 0x18
    | 14 => 0
    | 15 => 0
    | n => rd.byte n

/-- The writes to a `struct rdesc_ext1`. -/
def fillExt (len : BitVec 16) (exSta : BitVec 8) : Rdesc where
  byte := fun
    | 8 => exSta
    | 12 => len.setWidth 8
    | 13 => (len >>> 8).setWidth 8
    | _ => 0

/-- What is written to the descriptor of the last piece. -/
def fillLast (ext : Bool) (pktlen : Nat) : Rdesc :=
  if ext then fillExt (BitVec.ofNat 16 pktlen) 7
  else rd.fillLegacy (BitVec.ofNat 16 pktlen) true true

/-- What is written to the descriptor of a piece that others follow. -/
def fillMore (ext : Bool) (pktlen bufsize : Nat) : Rdesc :=
  if ext then fillExt (BitVec.ofNat 16 pktlen) 5
  else rd.fillLegacy (BitVec.ofNat 16 bufsize) false false

end Rdesc

/-- The descriptor at an address. -/
def GuestMem.rdesc (mem : GuestMem) (a : BitVec 64) : Rdesc :=
  ⟨fun i => mem (a + BitVec.ofNat 64 i)⟩

def GuestMem.write (mem : GuestMem) (a : BitVec 64) (bs : List (BitVec 8)) : GuestMem :=
  fun x => (bs[(x - a).toNat]?).getD (mem x)

def GuestMem.setRdesc (mem : GuestMem) (a : BitVec 64) (rd : Rdesc) : GuestMem :=
  mem.write a (List.ofFn rd.byte)

/-- The fields of `struct desc_shadow` for the ring. -/
structure RdescShadow where
  base : BitVec 64
  len : BitVec 32
  head : BitVec 32
  tail : BitVec 32

/-- A descriptor that was consumed: its index, what it has become, and the bytes that were put into
its buffer. -/
structure Filled where
  index : BitVec 32
  rd : Rdesc
  data : List (BitVec 8)

/-- What a call leaves: the memory, `s->head`, and the descriptors that it wrote to, in order. -/
structure Received where
  mem : GuestMem
  head : BitVec 32
  filled : List Filled

/-- `bufsize` of `sendvirt`. -/
def rctlBufsize (rctl : BitVec 32) : Nat :=
  let bufsize := if rctl &&& 0x20000 ≠ 0 then 512 else 2048
  let bufsize := if rctl &&& 0x10000 ≠ 0 then bufsize >>> 1 else bufsize
  if rctl &&& 0x2000000 ≠ 0 then bufsize <<< 4 else bufsize

/-- `SENDVIRT_MAXSIZE`. -/
def sendvirtMaxsize : Nat := 1514

/-- `asize`. -/
def rctlAsize (rctl : BitVec 32) : Nat := if rctl &&& 0x4000000 ≠ 0 then 0 else 4

/-- `abuf`. -/
def abuf : List (BitVec 8) := [0, 0, 0, 0]

/-- What is copied to a buffer; `pkt` and `pktlen` are what is left. -/
def piece (bufsize asize : Nat) (pkt : List (BitVec 8)) (pktlen : Nat) : List (BitVec 8) :=
  if pktlen ≤ bufsize then
    if pktlen > asize then pkt.take (pktlen - asize) ++ abuf.take asize
    else (abuf.drop (asize - pktlen)).take pktlen
  else if pktlen - asize ≥ bufsize then pkt.take bufsize
  else pkt.take (pktlen - asize) ++ abuf.take (bufsize - (pktlen - asize))

/-- `i++`, and back to the first descriptor. -/
def RdescShadow.next (s : RdescShadow) (i : BitVec 32) : BitVec 32 :=
  if (i + 1) * 16 ≥ s.len then 0 else i + 1

/-- The loop of `sendvirt`, for at most so many passes. -/
def sendvirtLoop (ext : Bool) (bufsize asize : Nat) (s : RdescShadow) :
    Nat → BitVec 32 → List (BitVec 8) → Nat → GuestMem → List Filled → Received
  | 0, i, _, _, mem, filled => ⟨mem, i, filled⟩
  | fuel + 1, i, pkt, pktlen, mem, filled =>
    if pktlen = 0 then ⟨mem, i, filled⟩
    else if i = s.tail then ⟨mem, s.head, filled⟩
    else
      let a := s.base + (i * 16).setWidth 64
      let rd := mem.rdesc a
      if ext = true ∧ rd.exStaDd = true then ⟨mem, s.head, filled⟩
      else
        let data := piece bufsize asize pkt pktlen
        let mem := mem.write rd.addr data
        let rd := mem.rdesc a
        let rd :=
          if pktlen ≤ bufsize then rd.fillLast ext pktlen else rd.fillMore ext pktlen bufsize
        let copied := if pktlen ≤ bufsize then pktlen else bufsize
        sendvirtLoop ext bufsize asize s fuel (s.next i) (pkt.drop copied) (pktlen - copied)
          (mem.setRdesc a rd) (filled ++ [⟨i, rd, data⟩])

/-- `sendvirt`. Each pass of the loop takes a byte at least. -/
def sendvirt (rctl rfctl : BitVec 32) (s : RdescShadow) (mem : GuestMem) (pkt : List (BitVec 8)) :
    Received :=
  if pkt.length > sendvirtMaxsize then ⟨mem, s.head, []⟩
  else if rctlBufsize rctl = 32768 then ⟨mem, s.head, []⟩
  else
    let pktlen := pkt.length + rctlAsize rctl
    sendvirtLoop (rfctl &&& 0x8000 ≠ 0) (rctlBufsize rctl) (rctlAsize rctl) s pktlen s.head pkt
      pktlen mem []

/-! ### What a packet is to come to -/

/-- The packet and what stands for its CRC; nothing does if the guest has the CRC stripped. -/
def frame (rctl : BitVec 32) (pkt : List (BitVec 8)) : List (BitVec 8) :=
  pkt ++ abuf.take (rctlAsize rctl)

/-- The packet has been delivered in the descriptors that were consumed. -/
structure FrameDelivered (ext : Bool) (bytes : List (BitVec 8)) (s : RdescShadow) (r : Received) :
    Prop where
  bytes : r.filled.flatMap (·.data) = bytes
  len : ∀ f ∈ r.filled, (f.rd.lenField ext).toNat = f.data.length
  dd : ∀ f ∈ r.filled, f.rd.dd ext = true
  eop : ∀ k f, r.filled[k]? = some f → (f.rd.eop ext = true ↔ k + 1 = r.filled.length)
  index : ∀ k f, r.filled[k]? = some f → f.index = s.next^[k] s.head
  head : r.head = s.next^[r.filled.length] s.head

/-- The packet is delivered, or nothing is written and the head stays. -/
def DeliveredOrUnchanged (rctl rfctl : BitVec 32) (s : RdescShadow) (mem : GuestMem)
    (pkt : List (BitVec 8)) : Prop :=
  FrameDelivered (rfctl &&& 0x8000 ≠ 0) (frame rctl pkt) s (sendvirt rctl rfctl s mem pkt) ∨
    sendvirt rctl rfctl s mem pkt = ⟨mem, s.head, []⟩

/-- The call returns before its first write: for its length, for a buffer size that is reserved, or
for the first descriptor, which is not the guest's or is done. -/
def Refused (rctl rfctl : BitVec 32) (s : RdescShadow) (mem : GuestMem) (pkt : List (BitVec 8)) :
    Prop :=
  sendvirtMaxsize < pkt.length ∨ rctlBufsize rctl = 32768 ∨ s.head = s.tail ∨
    (rfctl &&& 0x8000 ≠ 0 ∧
      (mem.rdesc (s.base + (s.head * 16).setWidth 64)).exStaDd = true)

/-! ### The fields that are written -/

theorem bytes_append (v : BitVec 16) :
    ((v >>> 8).setWidth 8 ++ v.setWidth 8 : BitVec (8 + 8)) = v := by
  ext i hi
  simp only [BitVec.getElem_append, BitVec.getElem_setWidth, BitVec.getLsbD_ushiftRight]
  split
  case isTrue => exact BitVec.getLsbD_eq_getElem hi
  case isFalse hge =>
    rw [show 8 + (i - 8) = i by omega]
    exact BitVec.getLsbD_eq_getElem hi

theorem lenField_fillLast (rd : Rdesc) (ext : Bool) (pktlen : Nat) :
    (rd.fillLast ext pktlen).lenField ext = BitVec.ofNat 16 pktlen := by
  cases ext <;> exact bytes_append _

theorem fillLast_flags (rd : Rdesc) (ext : Bool) (pktlen : Nat) :
    (rd.fillLast ext pktlen).dd ext = true ∧ (rd.fillLast ext pktlen).eop ext = true := by
  cases ext with
  | true =>
    constructor
    · change (7 : BitVec 8).getLsbD 0 = true
      decide
    · change (7 : BitVec 8).getLsbD 1 = true
      decide
  | false =>
    constructor
    · change ((rd.byte 12 &&& 4 ||| 2) ||| 1).getLsbD 0 = true
      rw [BitVec.getLsbD_or]
      exact Bool.or_true _
    · change ((rd.byte 12 &&& 4 ||| 2) ||| 1).getLsbD 1 = true
      rw [BitVec.getLsbD_or, BitVec.getLsbD_or]
      exact congrArg (· || false) (Bool.or_true _)

/-- In the extended layout the length of a piece is that of the rest of the packet. -/
theorem lenField_fillMore_ext (rd : Rdesc) (pktlen bufsize : Nat) :
    (rd.fillMore true pktlen bufsize).lenField true = BitVec.ofNat 16 pktlen := bytes_append _

/-- In the legacy layout a descriptor that others follow is not done. -/
theorem dd_fillMore_legacy (rd : Rdesc) (pktlen bufsize : Nat) :
    (rd.fillMore false pktlen bufsize).dd false = false := by
  change (rd.byte 12 &&& 4 ||| 0 ||| 0).getLsbD 0 = false
  rw [BitVec.getLsbD_or, BitVec.getLsbD_or, BitVec.getLsbD_and]
  exact congrArg (· || false) (congrArg (· || false) (Bool.and_false _))

/-! ### The first pass -/

variable {rctl rfctl : BitVec 32} {s : RdescShadow} {mem : GuestMem} {pkt : List (BitVec 8)}

theorem length_take_abuf {asize : Nat} (hasize : asize ≤ 4) :
    (abuf.take asize).length = asize := by
  rw [List.length_take]
  exact Nat.min_eq_left hasize

/-- The first piece of a packet. -/
theorem piece_first {bufsize asize : Nat} (hasize : asize ≤ 4) :
    piece bufsize asize pkt (pkt.length + asize) =
      (pkt ++ abuf.take asize).take bufsize := by
  have habuf := length_take_abuf hasize
  unfold piece
  rw [Nat.add_sub_cancel]
  by_cases hfits : pkt.length + asize ≤ bufsize
  · have hall : (pkt ++ abuf.take asize).length ≤ bufsize := by
      rw [List.length_append, habuf]
      exact hfits
    rw [if_pos hfits, List.take_of_length_le hall]
    by_cases hpkt : pkt.length + asize > asize
    · rw [if_pos hpkt, List.take_length]
    · have hnil : pkt = [] := List.eq_nil_of_length_eq_zero (by omega)
      rw [if_neg hpkt, hnil, List.length_nil, Nat.zero_add, Nat.sub_self]
      rfl
  · rw [if_neg hfits, List.take_append]
    by_cases hlong : pkt.length ≥ bufsize
    · rw [if_pos hlong, Nat.sub_eq_zero_of_le hlong, List.take_zero, List.append_nil]
    · have hpkt : pkt.take bufsize = pkt := List.take_of_length_le (by omega)
      rw [if_neg hlong, List.take_length, hpkt, List.take_take, Nat.min_eq_left (by omega)]

theorem rctlAsize_le (rctl : BitVec 32) : rctlAsize rctl ≤ 4 := by
  unfold rctlAsize
  split <;> omega

theorem length_frame (rctl : BitVec 32) (pkt : List (BitVec 8)) :
    (frame rctl pkt).length = pkt.length + rctlAsize rctl := by
  rw [frame, List.length_append, length_take_abuf (rctlAsize_le rctl)]

/-- What was consumed stays in the record. -/
theorem filled_sendvirtLoop {ext : Bool} {bufsize asize : Nat} (fuel : Nat) (i : BitVec 32)
    (rest : List (BitVec 8)) (pktlen : Nat) (mem : GuestMem) (filled : List Filled) :
    filled <+: (sendvirtLoop ext bufsize asize s fuel i rest pktlen mem filled).filled := by
  induction fuel generalizing i rest pktlen mem filled with
  | zero => exact List.prefix_refl filled
  | succ fuel ih =>
    unfold sendvirtLoop
    split
    · exact List.prefix_refl filled
    · split
      · exact List.prefix_refl filled
      · simp only
        split
        · exact List.prefix_refl filled
        · exact (List.prefix_append filled _).trans (ih _ _ _ _ _)

/-- A loop with nothing left to copy. -/
theorem sendvirtLoop_done {ext : Bool} {bufsize asize : Nat} (fuel : Nat) (i : BitVec 32)
    (rest : List (BitVec 8)) (mem : GuestMem) (filled : List Filled) :
    sendvirtLoop ext bufsize asize s fuel i rest 0 mem filled = ⟨mem, i, filled⟩ := by
  cases fuel <;> rfl

theorem sendvirt_of_refused (h : Refused rctl rfctl s mem pkt) :
    sendvirt rctl rfctl s mem pkt = ⟨mem, s.head, []⟩ := by
  unfold sendvirt
  split
  case isTrue => rfl
  case isFalse hsize =>
    split
    case isTrue => rfl
    case isFalse hreserved =>
      simp only
      cases pkt.length + rctlAsize rctl with
      | zero => rfl
      | succ n =>
        unfold sendvirtLoop
        rw [if_neg (Nat.succ_ne_zero n)]
        obtain hlong | hbuf | hempty | ⟨hext, hdd⟩ := h
        · exact absurd hlong hsize
        · exact absurd hbuf hreserved
        · rw [if_pos hempty]
        · split
          · rfl
          · simp only
            rw [if_pos ⟨decide_eq_true hext, hdd⟩]

/-- The first pass, when it is not refused. -/
theorem sendvirt_of_not_refused (h : ¬Refused rctl rfctl s mem pkt)
    (hpos : 0 < (frame rctl pkt).length) :
    ∃ (mem' : GuestMem) (rd : Rdesc), sendvirt rctl rfctl s mem pkt =
      sendvirtLoop (rfctl &&& 0x8000 ≠ 0) (rctlBufsize rctl) (rctlAsize rctl) s
        ((frame rctl pkt).length - 1) (s.next s.head)
        (pkt.drop (min (frame rctl pkt).length (rctlBufsize rctl)))
        ((frame rctl pkt).length - min (frame rctl pkt).length (rctlBufsize rctl)) mem'
        [⟨s.head, if (frame rctl pkt).length ≤ rctlBufsize rctl then
            rd.fillLast (rfctl &&& 0x8000 ≠ 0) (frame rctl pkt).length
          else rd.fillMore (rfctl &&& 0x8000 ≠ 0) (frame rctl pkt).length (rctlBufsize rctl),
          (frame rctl pkt).take (rctlBufsize rctl)⟩] := by
  unfold Refused at h
  rw [not_or, not_or, not_or] at h
  obtain ⟨hsize, hreserved, htail, hdd⟩ := h
  unfold sendvirt
  rw [if_neg hsize, if_neg hreserved]
  simp only
  rw [length_frame] at hpos ⊢
  obtain ⟨n, hn⟩ : ∃ n, pkt.length + rctlAsize rctl = n + 1 :=
    Nat.exists_eq_succ_of_ne_zero (Nat.ne_of_gt hpos)
  have hpiece : piece (rctlBufsize rctl) (rctlAsize rctl) pkt (n + 1) =
      (frame rctl pkt).take (rctlBufsize rctl) := by
    rw [← hn]
    exact piece_first (rctlAsize_le rctl)
  have hmin : (if n + 1 ≤ rctlBufsize rctl then n + 1 else rctlBufsize rctl) =
      min (n + 1) (rctlBufsize rctl) := by
    split <;> omega
  rw [hn]
  let a := s.base + (s.head * 16).setWidth 64
  let written := mem.write (mem.rdesc a).addr ((frame rctl pkt).take (rctlBufsize rctl))
  refine ⟨written.setRdesc a (if n + 1 ≤ rctlBufsize rctl then
      (written.rdesc a).fillLast (rfctl &&& 0x8000 ≠ 0) (n + 1)
    else (written.rdesc a).fillMore (rfctl &&& 0x8000 ≠ 0) (n + 1) (rctlBufsize rctl)),
    written.rdesc a, ?_⟩
  conv_lhs => unfold sendvirtLoop
  rw [if_neg (Nat.succ_ne_zero n), if_neg htail]
  simp only
  rw [if_neg fun hd => hdd ⟨of_decide_eq_true hd.1, hd.2⟩, hpiece, hmin, List.nil_append]
  rfl

/-- A packet that one buffer has room for is delivered. -/
theorem frameDelivered_of_le (h : ¬Refused rctl rfctl s mem pkt)
    (hle : (frame rctl pkt).length ≤ rctlBufsize rctl) :
    FrameDelivered (rfctl &&& 0x8000 ≠ 0) (frame rctl pkt) s (sendvirt rctl rfctl s mem pkt) := by
  have hsize : pkt.length ≤ sendvirtMaxsize := Nat.le_of_not_lt fun hlt => h (.inl hlt)
  rcases Nat.eq_zero_or_pos (frame rctl pkt).length with hzero | hpos
  · -- there is nothing to deliver
    have hrun : sendvirt rctl rfctl s mem pkt = ⟨mem, s.head, []⟩ := by
      unfold sendvirt
      split
      · rfl
      · split
        · rfl
        · simp only
          rw [← length_frame, hzero]
          rfl
    rw [hrun]
    refine ⟨(List.eq_nil_of_length_eq_zero hzero).symm, ?_, ?_, ?_, ?_, rfl⟩
    · exact fun f hf => absurd hf List.not_mem_nil
    · exact fun f hf => absurd hf List.not_mem_nil
    · exact fun k f hf => (by simp at hf)
    · exact fun k f hf => (by simp at hf)
  · obtain ⟨mem', rd, hrun⟩ := sendvirt_of_not_refused h hpos
    rw [Nat.min_eq_left hle, Nat.sub_self, sendvirtLoop_done, if_pos hle,
      List.take_of_length_le hle] at hrun
    have hlen : (frame rctl pkt).length < 2 ^ 16 := by
      have := rctlAsize_le rctl
      rw [sendvirtMaxsize] at hsize
      rw [length_frame]
      omega
    rw [hrun]
    refine ⟨List.append_nil _, ?_, ?_, ?_, ?_, rfl⟩
    · intro f hf
      rw [List.mem_singleton.mp hf, lenField_fillLast, BitVec.toNat_ofNat, Nat.mod_eq_of_lt hlen]
    · intro f hf
      rw [List.mem_singleton.mp hf]
      exact (fillLast_flags rd _ _).1
    · intro k f hf
      obtain ⟨rfl, rfl⟩ : k = 0 ∧ _ = f := by
        cases k with
        | zero => exact ⟨rfl, Option.some.inj hf⟩
        | succ k => cases hf
      exact ⟨fun _ => rfl, fun _ => (fillLast_flags rd _ _).2⟩
    · intro k f hf
      obtain ⟨rfl, rfl⟩ : k = 0 ∧ _ = f := by
        cases k with
        | zero => exact ⟨rfl, Option.some.inj hf⟩
        | succ k => cases hf
      rfl

/-- A packet of more pieces is not, once the first of them is written. -/
theorem not_deliveredOrUnchanged (h : ¬Refused rctl rfctl s mem pkt)
    (hmore : rctlBufsize rctl < (frame rctl pkt).length) :
    ¬DeliveredOrUnchanged rctl rfctl s mem pkt := by
  have hsize : pkt.length ≤ sendvirtMaxsize := Nat.le_of_not_lt fun hlt => h (.inl hlt)
  obtain ⟨mem', rd, hrun⟩ := sendvirt_of_not_refused h (Nat.zero_lt_of_lt hmore)
  rw [Nat.min_eq_right (Nat.le_of_lt hmore), if_neg (Nat.not_le_of_lt hmore)] at hrun
  obtain ⟨first, hrd, hdata, hfirst⟩ : ∃ first : Filled,
      first.rd = rd.fillMore (rfctl &&& 0x8000 ≠ 0) (frame rctl pkt).length (rctlBufsize rctl) ∧
      first.data = (frame rctl pkt).take (rctlBufsize rctl) ∧
      first ∈ (sendvirt rctl rfctl s mem pkt).filled := by
    refine ⟨⟨s.head, rd.fillMore (rfctl &&& 0x8000 ≠ 0) (frame rctl pkt).length (rctlBufsize rctl),
      (frame rctl pkt).take (rctlBufsize rctl)⟩, rfl, rfl, ?_⟩
    rw [hrun]
    exact (filled_sendvirtLoop _ _ _ _ _ _).subset (List.mem_singleton.mpr rfl)
  rintro (hdel | hsame)
  · cases hext : decide (rfctl &&& 0x8000 ≠ 0) with
    | true =>
      -- the length is the whole frame's, the piece has the size of a buffer
      have hlen := hdel.len first hfirst
      have hframe : (frame rctl pkt).length < 2 ^ 16 := by
        have := rctlAsize_le rctl
        rw [sendvirtMaxsize] at hsize
        rw [length_frame]
        omega
      rw [hrd, hdata, hext, lenField_fillMore_ext, BitVec.toNat_ofNat, Nat.mod_eq_of_lt hframe,
        List.length_take] at hlen
      omega
    | false =>
      have hdd := hdel.dd first hfirst
      rw [hrd, hext, dd_fillMore_legacy] at hdd
      cases hdd
  · rw [hsame] at hfirst
    exact List.not_mem_nil hfirst

/-- A packet is delivered or leaves the ring as it was exactly if the frame fits into one buffer, or
the call returns before its first write. -/
theorem deliveredOrUnchanged_iff (rctl rfctl : BitVec 32) (s : RdescShadow) (mem : GuestMem)
    (pkt : List (BitVec 8)) :
    DeliveredOrUnchanged rctl rfctl s mem pkt ↔
      (frame rctl pkt).length ≤ rctlBufsize rctl ∨ Refused rctl rfctl s mem pkt := by
  constructor
  · intro h
    by_contra hnot
    rw [not_or, Nat.not_le] at hnot
    exact not_deliveredOrUnchanged hnot.2 hnot.1 h
  · intro h
    by_cases hrefused : Refused rctl rfctl s mem pkt
    · exact .inr (sendvirt_of_refused hrefused)
    · exact .inl (frameDelivered_of_le hrefused (h.resolve_right hrefused))

/-- A packet of 300 bytes, and buffers of 256 bytes. -/
theorem not_delivered_twoBuffers : ¬∀ (rctl rfctl : BitVec 32) (s : RdescShadow) (mem : GuestMem)
    (pkt : List (BitVec 8)), DeliveredOrUnchanged rctl rfctl s mem pkt := by
  intro h
  refine @not_deliveredOrUnchanged 0x30000 0 ⟨0, 128, 0, 7⟩ (fun _ => 0) (List.replicate 300 1)
    ?_ ?_ (h _ _ _ _ _)
  · rintro (hlong | hreserved | hempty | hdd)
    · rw [List.length_replicate] at hlong
      exact absurd hlong (by decide)
    · exact absurd hreserved (by decide)
    · exact absurd hempty (by decide)
    · exact absurd hdd.1 (by decide)
  · rw [length_frame, List.length_replicate]
    decide

end OnDemandVirt.Net.Pro1000
