import OnDemandVirt.Lib.Scatter
import OnDemandVirt.Net.VirtioNet

/-!
# The receive queue of the virtio network device

`virtio_net_send` puts packets into the guest's buffers: for each packet the next chain of the
available ring gets the 10 bytes of the header, all zero, and the packet, cut where the descriptors
end, and the head of the chain goes into the used ring with the number of bytes. The header and the
packet are written apart, so that a descriptor may get the end of the one and the beginning of the
other; together they are one string of bytes that is scattered over the chain (`fillDesc_eq`).
-/

namespace OnDemandVirt.Net

open OnDemandVirt.Lib

/-- A packet; its size is an `int`. -/
abbrev SendPacket := { buf : List (BitVec 8) // buf.length < 2 ^ 31 }

/-- What a call changes: the used ring, the guest's memory, and whether there is to be an
interrupt. -/
structure SendState where
  usedIdx : BitVec 16
  usedRing : BitVec 8 → UsedElem
  mem : ByteMem
  intr : Bool

/-- The body of the inner loop: the rest of the header and of the packet, as far as the buffer of a
descriptor has room. -/
def fillDesc (buf : List (BitVec 8)) (d : VringDesc) (len : BitVec 32) (mem : ByteMem) :
    BitVec 32 × ByteMem :=
  let addr := d.addr.toNat
  let i := if len < 10 then (if 10 - len > d.len then d.len else 10 - len) else 0
  let mem := if len < 10 then mem.write addr (List.replicate i.toNat 0) else mem
  let len := if len < 10 then len + i else len
  if 10 ≤ len ∧ i < d.len then
    let j := BitVec.ofNat 32 buf.length - (len - 10)
    let j := if j > d.len - i then d.len - i else j
    (len + j, mem.write (addr + i.toNat) ((buf.drop (len - 10).toNat).take j.toNat))
  else (len, mem)

/-- The inner loop, from the word that leads to a chain on; `none` while it has not ended. -/
def fillChain (p : VirtioRing) (buf : List (BitVec 8)) :
    Nat → BitVec 32 → BitVec 32 × ByteMem → Option (BitVec 32 × ByteMem)
  | 0, _, _ => none
  | fuel + 1, ringTmp, r =>
    if ringTmp &&& 1 ≠ 0 then
      let d := p.desc ((ringTmp >>> 16).setWidth 8)
      fillChain p buf fuel d.flagsNext (fillDesc buf d r.1 r.2)
    else some r

/-- What follows the inner loop. -/
def SendState.use (s : SendState) (p : VirtioRing) (r : BitVec 32 × ByteMem) : SendState :=
  let idxU := s.usedIdx.setWidth 8
  { usedIdx := s.usedIdx + 1
    usedRing := Function.update s.usedRing idxU ⟨(p.availRing idxU).setWidth 32, r.1⟩
    mem := r.2
    intr := true }

/-- The loop over the packets. The guest may go on with its part of the ring: `rings n` is what it
is for the `n`-th packet. -/
def sendPackets (rings : Nat → VirtioRing) (fuel : Nat) :
    Nat → List SendPacket → SendState → Option SendState
  | _, [], s => some s
  | n, buf :: packets, s =>
    if (rings n).availIdx = s.usedIdx then some s
    else
      (fillChain (rings n) buf.1 fuel (headWord ((rings n).availRing (s.usedIdx.setWidth 8)))
        (0, s.mem)).bind fun r => sendPackets rings fuel (n + 1) packets (s.use (rings n) r)

/-- The fields of `struct virtio_net` that `virtio_net_send` uses; `sendQueue` is `queue[0]`. -/
structure VirtioNetSend where
  ready : Bool
  sendQueue : BitVec 32
  intr : Bool

/-- After a migration the queue is the one that came with the guest. -/
def VirtioNetSend.adopt (aftMigInMmio : Bool) (virtioSendQueue : BitVec 32)
    (vnet : VirtioNetSend) : VirtioNetSend :=
  if aftMigInMmio then { vnet with sendQueue := virtioSendQueue } else vnet

/-- `virtio_net_send`, with what is mapped at a queue address before the call. -/
def virtioNetSend (rings : BitVec 32 → (Nat → VirtioRing) × SendState) (aftMigInMmio : Bool)
    (virtioSendQueue : BitVec 32) (fuel : Nat) (packets : List SendPacket)
    (vnet : VirtioNetSend) : Option (VirtioNetSend × SendState) :=
  if vnet.ready then
    let vnet := vnet.adopt aftMigInMmio virtioSendQueue
    let ring := rings vnet.sendQueue
    (sendPackets ring.1 fuel 0 packets { ring.2 with intr := false }).map fun s =>
      ({ vnet with intr := vnet.intr || s.intr }, s)
  else some (vnet, (rings vnet.sendQueue).2)

/-! ### One packet -/

/-- The buffers of a chain. -/
def chainBuffers (p : VirtioRing) (ds : List (BitVec 8)) : ScatterList :=
  ds.map fun i => ((p.desc i).addr.toNat, (p.desc i).len.toNat)

/-- What is written for a packet. -/
def withHeader (buf : List (BitVec 8)) : List (BitVec 8) := List.replicate 10 0 ++ buf

/-- The packet has been put into the next chain of the available ring: the header and the packet
over the buffers in order, cut where the chain ends, and the chain's head into the next entry of the
used ring, with the number of bytes written. -/
def SendDelivered (p : VirtioRing) (buf : List (BitVec 8)) (s s' : SendState) : Prop :=
  ∃ ds, IsChain p ((p.head s.usedIdx 0).setWidth 8) ds ∧
    s'.mem = ScatterList.scatter (chainBuffers p ds) (withHeader buf) s.mem ∧
    s'.usedRing = Function.update s.usedRing (slot s.usedIdx 0)
      ⟨(p.head s.usedIdx 0).setWidth 32,
        BitVec.ofNat 32 (min (chainLen p ds) (withHeader buf).length)⟩ ∧
    s'.usedIdx = s.usedIdx + 1

/-- The first packets of a batch have been delivered, each into the chain of the next entry of the
available ring, up to the last one or until there was no entry. -/
def Sent (rings : Nat → VirtioRing) (packets : List SendPacket) (s s' : SendState) : Prop :=
  ∃ (n : Nat) (states : Nat → SendState), n ≤ packets.length ∧ states 0 = s ∧ states n = s' ∧
    (∀ k buf, k < n → packets[k]? = some buf →
      (states k).usedIdx = s.usedIdx + BitVec.ofNat 16 k ∧
      (rings k).availIdx ≠ (states k).usedIdx ∧
      SendDelivered (rings k) buf.1 (states k) (states (k + 1))) ∧
    s'.usedIdx = s.usedIdx + BitVec.ofNat 16 n ∧
    (n < packets.length → (rings n).availIdx = s'.usedIdx)

variable {buf : List (BitVec 8)} {p : VirtioRing} {d : VringDesc} {len : BitVec 32} {mem : ByteMem}

@[simp] theorem length_withHeader (buf : List (BitVec 8)) :
    (withHeader buf).length = 10 + buf.length := by
  rw [withHeader, List.length_append, List.length_replicate]

/-- The part of the string for a buffer that begins in the header. -/
theorem take_drop_withHeader {w l : Nat} (hw : w < 10) :
    ((withHeader buf).drop w).take l =
      List.replicate (min (10 - w) l) 0 ++ buf.take (l - (10 - w)) := by
  unfold withHeader
  rw [List.drop_append_of_le_length (by simp; omega), List.drop_replicate, List.take_append,
    List.take_replicate, List.length_replicate, Nat.min_comm]

theorem drop_withHeader {w : Nat} (hw : 10 ≤ w) : (withHeader buf).drop w = buf.drop (w - 10) := by
  unfold withHeader
  rw [List.drop_append, List.length_replicate, List.drop_replicate, Nat.sub_eq_zero_of_le hw]
  rfl

/-- The number of zero bytes for a buffer. -/
theorem header_toNat (d : VringDesc) (hlt : len < 10) :
    (if 10 - len > d.len then d.len else 10 - len).toNat = min (10 - len.toNat) d.len.toNat := by
  split <;> bv_omega

/-- The number of bytes of the packet for the room that a buffer has. -/
theorem payload_toNat (room done : BitVec 32) (hbuf : buf.length < 2 ^ 31)
    (hdone : done.toNat ≤ buf.length) :
    (if BitVec.ofNat 32 buf.length - done > room then room
      else BitVec.ofNat 32 buf.length - done).toNat = min (buf.length - done.toNat) room.toNat := by
  have hsize : (BitVec.ofNat 32 buf.length).toNat = buf.length := by
    rw [BitVec.toNat_ofNat, Nat.mod_eq_of_lt (by omega)]
  split <;> bv_omega

/-- A descriptor gets the next part of the header and the packet. -/
theorem fillDesc_eq (d : VringDesc) (len : BitVec 32) (mem : ByteMem)
    (hbuf : buf.length < 2 ^ 31) (hlen : len.toNat ≤ 10 + buf.length) :
    (fillDesc buf d len mem).2 =
        mem.write d.addr.toNat (((withHeader buf).drop len.toNat).take d.len.toNat) ∧
      (fillDesc buf d len mem).1.toNat = min (len.toNat + d.len.toNat) (10 + buf.length) := by
  unfold fillDesc
  by_cases hlt : len < 10
  · -- the rest of the header comes first
    have hw : len.toNat < 10 := hlt
    simp only [if_pos hlt]
    have hi := header_toNat d hlt
    generalize (if 10 - len > d.len then d.len else 10 - len) = i at hi ⊢
    rw [take_drop_withHeader hw, hi]
    by_cases hmore : 10 - len.toNat < d.len.toNat
    · have hten : len + i = 10 := by bv_omega
      have hroom : i < d.len := by bv_omega
      rw [hten, if_pos ⟨by decide, hroom⟩]
      have hj := payload_toNat (d.len - i) (10 - 10) hbuf (Nat.zero_le _)
      generalize (if BitVec.ofNat 32 buf.length - (10 - 10) > d.len - i then d.len - i
        else BitVec.ofNat 32 buf.length - (10 - 10)) = j at hj ⊢
      have hrest : (d.len - i).toNat = d.len.toNat - (10 - len.toNat) := by bv_omega
      have hj' : j.toNat = min buf.length (d.len.toNat - (10 - len.toNat)) := by
        rw [hj, hrest]
        rfl
      have htake : (buf.drop (10 - 10 : BitVec 32).toNat).take j.toNat =
          buf.take (d.len.toNat - (10 - len.toNat)) := by
        change (buf.drop 0).take j.toNat = _
        rw [List.drop_zero, hj', Nat.min_comm, ← List.take_eq_take_min]
      rw [htake, ByteMem.write_append, List.length_replicate]
      exact ⟨rfl, by bv_omega⟩
    · have hnot : ¬(10 ≤ len + i ∧ i < d.len) := by bv_omega
      rw [if_neg hnot, show d.len.toNat - (10 - len.toNat) = 0 by omega, List.take_zero,
        List.append_nil]
      exact ⟨rfl, by bv_omega⟩
  · have hw : 10 ≤ len.toNat := Nat.le_of_not_lt hlt
    simp only [if_neg hlt]
    rw [drop_withHeader hw]
    by_cases hmore : 0 < d.len
    · rw [if_pos ⟨hw, hmore⟩]
      have hdone : (len - 10).toNat = len.toNat - 10 := by bv_omega
      have hj := payload_toNat (d.len - 0) (len - 10) hbuf (by omega)
      generalize (if BitVec.ofNat 32 buf.length - (len - 10) > d.len - 0 then d.len - 0
        else BitVec.ofNat 32 buf.length - (len - 10)) = j at hj ⊢
      rw [hdone, show d.len - 0 = d.len from BitVec.sub_zero _] at hj
      have htake : (buf.drop (len.toNat - 10)).take j.toNat =
          (buf.drop (len.toNat - 10)).take d.len.toNat := by
        rw [hj, Nat.min_comm, ← List.length_drop, ← List.take_eq_take_min]
      rw [hdone, htake]
      exact ⟨rfl, by bv_omega⟩
    · have hzero : d.len.toNat = 0 := Nat.eq_zero_of_not_pos hmore
      rw [if_neg fun h => hmore h.2, hzero, List.take_zero, ByteMem.write_nil]
      exact ⟨rfl, by change len.toNat = _; omega⟩

/-! ### A chain -/

theorem fillChain_succ {fuel : Nat} {w : BitVec 32} {r : BitVec 32 × ByteMem}
    (hflag : w &&& 1 ≠ 0) : fillChain p buf (fuel + 1) w r =
      fillChain p buf fuel (p.desc ((w >>> 16).setWidth 8)).flagsNext
        (fillDesc buf (p.desc ((w >>> 16).setWidth 8)) r.1 r.2) :=
  if_pos hflag

theorem fillChain_end {fuel : Nat} {r : BitVec 32 × ByteMem} (hlast : ¬d.hasNext) :
    fillChain p buf (fuel + 1) d.flagsNext r = some r :=
  if_neg hlast

theorem chainLen_singleton (p : VirtioRing) (i : BitVec 8) :
    chainLen p [i] = (p.desc i).len.toNat := by
  simp [chainLen]

theorem chainLen_cons (p : VirtioRing) (i : BitVec 8) (ds : List (BitVec 8)) :
    chainLen p (i :: ds) = (p.desc i).len.toNat + chainLen p ds := by
  simp [chainLen]

/-- A chain that ends gets what is left of the header and the packet, over its buffers in order. -/
theorem fillChain_of_chain (len : BitVec 32) (mem : ByteMem) {i : BitVec 8}
    {ds : List (BitVec 8)} (hds : IsChain p i ds) (hbuf : buf.length < 2 ^ 31) {w : BitVec 32}
    (hflag : w &&& 1 ≠ 0) (hw : (w >>> 16).setWidth 8 = i)
    (hlen : len.toNat ≤ 10 + buf.length) :
    ∃ r : BitVec 32 × ByteMem,
      (∀ more, fillChain p buf (ds.length + 1 + more) w (len, mem) = some r) ∧
      r.2 = ScatterList.scatter (chainBuffers p ds) ((withHeader buf).drop len.toNat) mem ∧
      r.1.toNat = min (len.toNat + chainLen p ds) (10 + buf.length) := by
  induction hds generalizing w len mem with
  | @last i hlast =>
    obtain ⟨hmem, hnum⟩ := fillDesc_eq (p.desc i) len mem hbuf hlen
    refine ⟨fillDesc buf (p.desc i) len mem, fun more => ?_, hmem, ?_⟩
    · rw [List.length_singleton, show 1 + 1 + more = more + 1 + 1 by omega, fillChain_succ hflag,
        hw, fillChain_end hlast]
    · rw [hnum, chainLen_singleton]
  | @next i ds hnext hrest ih =>
    obtain ⟨hmem, hnum⟩ := fillDesc_eq (p.desc i) len mem hbuf hlen
    obtain ⟨r, hrun, hmem', hnum'⟩ := @ih (fillDesc buf (p.desc i) len mem).1
      (fillDesc buf (p.desc i) len mem).2 _ hnext rfl (by omega)
    refine ⟨r, fun more => ?_, ?_, ?_⟩
    · rw [List.length_cons, show ds.length + 1 + 1 + more = ds.length + 1 + more + 1 by omega,
        fillChain_succ hflag, hw]
      exact hrun more
    · -- a descriptor that is not filled is one that the packet ends in
      rw [hmem', hmem, hnum]
      change _ = ScatterList.scatter (chainBuffers p ds)
        (((withHeader buf).drop len.toNat).drop (p.desc i).len.toNat) _
      rw [List.drop_drop]
      rcases Nat.le_total (len.toNat + (p.desc i).len.toNat) (10 + buf.length) with hle | hge
      · rw [Nat.min_eq_left hle]
      · have hdone : (withHeader buf).drop (10 + buf.length) = [] :=
          List.drop_eq_nil_of_le (Nat.le_of_eq (length_withHeader buf))
        have hpast : (withHeader buf).drop (len.toNat + (p.desc i).len.toNat) = [] :=
          List.drop_eq_nil_of_le (length_withHeader buf ▸ hge)
        rw [Nat.min_eq_right hge, hdone, hpast]
    · rw [hnum', hnum, chainLen_cons]
      omega

/-! ### The batch -/

/-- One packet, when there is an entry in the available ring. -/
theorem exists_fillChain {s : SendState} (hbuf : buf.length < 2 ^ 31)
    (hchain : ∃ ds, IsChain p ((p.head s.usedIdx 0).setWidth 8) ds) :
    ∃ fuel r, (∀ more, fillChain p buf (fuel + more)
        (headWord (p.availRing (s.usedIdx.setWidth 8))) (0, s.mem) = some r) ∧
      SendDelivered p buf s (s.use p r) := by
  obtain ⟨ds, hds⟩ := hchain
  obtain ⟨r, hrun, hmem, hnum⟩ := fillChain_of_chain 0 s.mem hds hbuf
    (headWord_flag (p.availRing (s.usedIdx.setWidth 8)))
    (by rw [headWord_index, VirtioRing.head, slot_zero]) (Nat.zero_le _)
  refine ⟨ds.length + 1, r, hrun, ds, hds, hmem, ?_, rfl⟩
  have hr : r.1 = BitVec.ofNat 32 (min (chainLen p ds) (withHeader buf).length) := by
    rw [show (0 : BitVec 32).toNat = 0 from rfl, Nat.zero_add] at hnum
    rw [length_withHeader, ← hnum, BitVec.ofNat_toNat, BitVec.setWidth_eq]
  unfold SendState.use VirtioRing.head
  rw [slot_zero, hr]

theorem ofNat_succ_add (idx : BitVec 16) (k : Nat) :
    idx + BitVec.ofNat 16 (k + 1) = idx + 1 + BitVec.ofNat 16 k := by
  rw [Nat.add_comm, BitVec.ofNat_add, ← BitVec.add_assoc]
  rfl

/-- One packet more before a batch that has been sent. -/
theorem Sent.cons {rings : Nat → VirtioRing} {packet : SendPacket} {packets : List SendPacket}
    {s s₁ s' : SendState} (hfirst : SendDelivered (rings 0) packet.1 s s₁)
    (hne : (rings 0).availIdx ≠ s.usedIdx)
    (h : Sent (fun n => rings (n + 1)) packets s₁ s') : Sent rings (packet :: packets) s s' := by
  obtain ⟨n, states, hn, hzero, hlast, hall, hidx, hfull⟩ := h
  have hone : s₁.usedIdx = s.usedIdx + 1 := by
    obtain ⟨ds, -, -, -, hidx⟩ := hfirst
    exact hidx
  refine ⟨n + 1, fun k => k.casesOn s states, Nat.succ_le_succ hn, rfl, hlast, ?_, ?_, ?_⟩
  · intro k buf hk hbuf
    cases k with
    | zero =>
      cases hbuf
      refine ⟨(BitVec.add_zero _).symm, hne, ?_⟩
      change SendDelivered (rings 0) packet.1 s (states 0)
      rw [hzero]
      exact hfirst
    | succ k =>
      obtain ⟨hk', hne', hdel⟩ := hall k buf (Nat.lt_of_succ_lt_succ hk) hbuf
      refine ⟨?_, hne', hdel⟩
      rw [ofNat_succ_add, ← hone]
      exact hk'
  · rw [ofNat_succ_add, ← hone]
    exact hidx
  · exact fun hlt => hfull (Nat.lt_of_succ_lt_succ hlt)

/-- The loop over the packets, when the chains of the entries that it finds end. -/
theorem exists_sendPackets (rings : Nat → VirtioRing) (packets : List SendPacket) (n : Nat)
    (s : SendState) (hchains : ∀ k < packets.length,
      (rings (n + k)).availIdx ≠ s.usedIdx + BitVec.ofNat 16 k →
      ∃ ds, IsChain (rings (n + k)) (((rings (n + k)).head s.usedIdx k).setWidth 8) ds) :
    ∃ fuel s', (∀ more, sendPackets rings (fuel + more) n packets s = some s') ∧
      Sent (fun k => rings (n + k)) packets s s' := by
  induction packets generalizing n s with
  | nil =>
    refine ⟨0, s, fun more => rfl, 0, fun _ => s, Nat.le_refl 0, rfl, rfl, ?_, ?_, ?_⟩
    · exact fun k buf hk => absurd hk (Nat.not_lt_zero k)
    · exact (BitVec.add_zero _).symm
    · exact fun hlt => absurd hlt (Nat.lt_irrefl 0)
  | cons packet packets ih =>
    by_cases hfull : (rings n).availIdx = s.usedIdx
    · refine ⟨0, s, fun more => if_pos hfull, 0, fun _ => s, Nat.zero_le _, rfl, rfl, ?_, ?_, ?_⟩
      · exact fun k buf hk => absurd hk (Nat.not_lt_zero k)
      · exact (BitVec.add_zero _).symm
      · exact fun _ => hfull
    · have hchain : ∃ ds, IsChain (rings n) (((rings n).head s.usedIdx 0).setWidth 8) ds :=
        hchains 0 (Nat.succ_pos _) fun heq => hfull (heq.trans (BitVec.add_zero _))
      obtain ⟨fuel₁, r, hrun₁, hdel⟩ := exists_fillChain packet.2 hchain
      have hrest : ∀ k < packets.length,
          (rings (n + 1 + k)).availIdx ≠ s.usedIdx + 1 + BitVec.ofNat 16 k →
          ∃ ds, IsChain (rings (n + 1 + k))
            (((rings (n + 1 + k)).head (s.usedIdx + 1) k).setWidth 8) ds := by
        intro k hk hne
        rw [← ofNat_succ_add, Nat.add_assoc, Nat.add_comm 1 k] at hne
        rw [← head_succ, Nat.add_assoc, Nat.add_comm 1 k]
        exact hchains (k + 1) (Nat.succ_lt_succ hk) hne
      obtain ⟨fuel₂, s', hrun₂, hsent⟩ := ih (n + 1) (s.use (rings n) r) hrest
      refine ⟨fuel₁ + fuel₂, s', fun more => ?_, ?_⟩
      · have hfirst := hrun₁ (fuel₂ + more)
        rw [← Nat.add_assoc] at hfirst
        rw [sendPackets, if_neg hfull, hfirst, Option.bind_some,
          show fuel₁ + fuel₂ + more = fuel₂ + (fuel₁ + more) by omega]
        exact hrun₂ (fuel₁ + more)
      · refine Sent.cons hdel hfull ?_
        have hshift : (fun k => rings (n + 1 + k)) = fun k => rings (n + (k + 1)) := by
          funext k
          rw [Nat.add_assoc, Nat.add_comm 1 k]
        rw [hshift] at hsent
        exact hsent

/-- For each batch and each receive queue whose chains end, a call returns, and the packets that it
has taken are delivered: each as ten zero bytes and the packet over the buffers of a chain in order,
cut only where the chain ends, and reported in the used ring with the head of that chain and the
number of bytes. The `k`-th packet has the entry of the available ring with the `k`-th index behind
`used.idx`, which advances by one for each packet modulo 2^16. -/
theorem virtioNetSend_delivers (rings : BitVec 32 → (Nat → VirtioRing) × SendState)
    (aftMigInMmio : Bool) (virtioSendQueue : BitVec 32) (packets : List SendPacket)
    (vnet : VirtioNetSend)
    (hchains : ∀ k < packets.length,
      let ring := rings (vnet.adopt aftMigInMmio virtioSendQueue).sendQueue
      (ring.1 k).availIdx ≠ ring.2.usedIdx + BitVec.ofNat 16 k →
      ∃ ds, IsChain (ring.1 k) (((ring.1 k).head ring.2.usedIdx k).setWidth 8) ds) :
    ∃ fuel vnet' s', (∀ more, virtioNetSend rings aftMigInMmio virtioSendQueue (fuel + more)
        packets vnet = some (vnet', s')) ∧
      if vnet.ready then
        let ring := rings (vnet.adopt aftMigInMmio virtioSendQueue).sendQueue
        Sent ring.1 packets { ring.2 with intr := false } s'
      else s' = (rings vnet.sendQueue).2 := by
  unfold virtioNetSend
  split
  case isTrue =>
    obtain ⟨fuel, s', hrun, hsent⟩ := exists_sendPackets
      (rings (vnet.adopt aftMigInMmio virtioSendQueue).sendQueue).1 packets 0
      { (rings (vnet.adopt aftMigInMmio virtioSendQueue).sendQueue).2 with intr := false }
      (by simpa only [Nat.zero_add] using hchains)
    simp only [Nat.zero_add] at hsent
    refine ⟨fuel, { vnet.adopt aftMigInMmio virtioSendQueue with
      intr := (vnet.adopt aftMigInMmio virtioSendQueue).intr || s'.intr }, s', fun more => ?_,
      hsent⟩
    simp only
    rw [hrun more]
    rfl
  case isFalse => exact ⟨0, vnet, _, fun more => rfl, rfl⟩

/-- A packet of three bytes and a chain with room for two of them. -/
theorem virtioNetSend_delivers_short :
    ∃ fuel vnet' s', (∀ more, virtioNetSend (fun _ => (fun _ => oneChain 12,
        ⟨0, fun _ => ⟨0, 0⟩, fun _ => 255, false⟩)) false 0 (fuel + more)
        [⟨[1, 2, 3], by decide⟩] ⟨true, 0, false⟩ = some (vnet', s')) ∧
      Sent (fun _ => oneChain 12) [⟨[1, 2, 3], by decide⟩]
        ⟨0, fun _ => ⟨0, 0⟩, fun _ => 255, false⟩ s' := by
  refine virtioNetSend_delivers (fun _ => (fun _ => oneChain 12,
    ⟨0, fun _ => ⟨0, 0⟩, fun _ => 255, false⟩)) false 0 [⟨[1, 2, 3], by decide⟩] ⟨true, 0, false⟩ ?_
  intro k hk ring hne
  exact ⟨_, .last (by decide : ¬(⟨0, 12, 0⟩ : VringDesc).hasNext)⟩

end OnDemandVirt.Net
