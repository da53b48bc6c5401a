import Mathlib.Logic.Function.Basic
import OnDemandVirt.Lib.Memory
import Mathlib.Algebra.GroupWithZero.Nat

/-!
# The transmit queue of the virtio network device

`virtio_net_recv` takes the chains that the guest has put into the available ring, copies the
buffers of each into one packet buffer of 2048 bytes, hands what is behind the 10 bytes of the
header to the receive callback, and puts the head of the chain into the used ring. It looks neither
at the length of a chain nor at the room that is left, and it follows a chain as far as it goes.
The device does what it is for exactly when every chain ends and has between 10 and 2048 bytes
(`served_iff`).
-/

namespace OnDemandVirt.Net

open OnDemandVirt.Lib

/-- An entry of the descriptor table; the lower half of `flagsNext` is the flags. -/
structure VringDesc where
  addr : BitVec 64
  len : BitVec 32
  flagsNext : BitVec 32

/-- What the guest writes of `struct virtio_ring`. -/
structure VirtioRing where
  desc : BitVec 8 → VringDesc
  availIdx : BitVec 16
  availRing : BitVec 8 → BitVec 16

/-- An entry of the used ring. -/
structure UsedElem where
  id : BitVec 32
  len : BitVec 32

/-- One call of the receive callback: the bytes from `packet` to the end of what was copied, and
`packet_size`. -/
structure Packet where
  data : List (BitVec 8)
  size : BitVec 32

/-- The used ring, and the calls of the callback so far. -/
structure RecvState where
  usedIdx : BitVec 16
  usedRing : BitVec 8 → UsedElem
  packets : List Packet

/-- How a loop comes out: out of fuel, with a write past the buffer, or done. -/
inductive Outcome (α : Type)
  | running
  | overrun
  | done (a : α)

/-- `sizeof buf`. -/
def bufSize : Nat := 2048

/-- The inner loop: the buffers of a chain, from the word that leads to it on. -/
def copyChain (p : VirtioRing) (mem : ByteMem) :
    Nat → BitVec 32 → List (BitVec 8) → Outcome (List (BitVec 8))
  | 0, _, _ => .running
  | fuel + 1, ringTmp, buf =>
    if ringTmp &&& 1 ≠ 0 then
      let d := p.desc ((ringTmp >>> 16).setWidth 8)
      if bufSize < buf.length + d.len.toNat then .overrun
      else copyChain p mem fuel d.flagsNext (buf ++ mem.read d.addr.toNat d.len.toNat)
    else .done buf

/-- The word that leads to the chain of a head. -/
def headWord (ring : BitVec 16) : BitVec 32 := ring.setWidth 32 <<< 16 ||| 1

/-- What follows the copy of a chain. -/
def RecvState.deliver (s : RecvState) (p : VirtioRing) (buf : List (BitVec 8)) : RecvState :=
  let idxU := s.usedIdx.setWidth 8
  let len := BitVec.ofNat 32 buf.length
  { usedIdx := s.usedIdx + 1
    usedRing := Function.update s.usedRing idxU ⟨(p.availRing idxU).setWidth 32, len⟩
    packets := s.packets ++ [⟨buf.drop 10, len - 10⟩] }

/-- The loop over the available ring. `mems` is the guest's memory while the `n`-th packet is
copied. -/
def recvPackets (p : VirtioRing) (mems : Nat → ByteMem) : Nat → RecvState → Outcome RecvState
  | 0, _ => .running
  | fuel + 1, s =>
    if p.availIdx ≠ s.usedIdx then
      match copyChain p (mems s.packets.length) fuel
          (headWord (p.availRing (s.usedIdx.setWidth 8))) [] with
      | .running => .running
      | .overrun => .overrun
      | .done buf => recvPackets p mems fuel (s.deliver p buf)
    else .done s

/-- The fields of `struct virtio_net` that `virtio_net_recv` uses: `queue[1]` and `macaddr`. -/
structure VirtioNet where
  recvQueue : BitVec 32
  macaddr : List (BitVec 8)

/-- After a migration the queue is the one that came with the guest; the address is copied from an
array that nothing was written to. -/
def VirtioNet.adopt (aftMigInMmio : Bool) (virtioRecvQueue : BitVec 32) (macBuf : List (BitVec 8))
    (vnet : VirtioNet) : VirtioNet :=
  if aftMigInMmio then ⟨virtioRecvQueue, macBuf⟩ else vnet

/-- `virtio_net_recv`, with the ring that is mapped at a queue address. -/
def virtioNetRecv (rings : BitVec 32 → VirtioRing × RecvState) (mems : Nat → ByteMem)
    (aftMigInMmio : Bool) (virtioRecvQueue : BitVec 32) (macBuf : List (BitVec 8)) (fuel : Nat)
    (vnet : VirtioNet) : VirtioNet × Outcome RecvState :=
  let vnet := vnet.adopt aftMigInMmio virtioRecvQueue macBuf
  (vnet, recvPackets (rings vnet.recvQueue).1 mems fuel (rings vnet.recvQueue).2)

/-! ### Chains -/

def VringDesc.hasNext (d : VringDesc) : Prop := d.flagsNext &&& 1 ≠ 0

instance (d : VringDesc) : Decidable d.hasNext := inferInstanceAs (Decidable (_ ≠ _))

def VringDesc.next (d : VringDesc) : BitVec 8 := (d.flagsNext >>> 16).setWidth 8

/-- The descriptors of the chain from one of them on, if it ends. -/
inductive IsChain (p : VirtioRing) : BitVec 8 → List (BitVec 8) → Prop
  | last {i : BitVec 8} : ¬(p.desc i).hasNext → IsChain p i [i]
  | next {i : BitVec 8} {ds : List (BitVec 8)} : (p.desc i).hasNext →
      IsChain p (p.desc i).next ds → IsChain p i (i :: ds)

def chainBytes (p : VirtioRing) (mem : ByteMem) (ds : List (BitVec 8)) : List (BitVec 8) :=
  ds.flatMap fun i => mem.read (p.desc i).addr.toNat (p.desc i).len.toNat

def chainLen (p : VirtioRing) (ds : List (BitVec 8)) : Nat :=
  (ds.map fun i => (p.desc i).len.toNat).sum

/-- The slot of the rings for the `k`-th chain from an index on. -/
def slot (idx : BitVec 16) (k : Nat) : BitVec 8 := (idx + BitVec.ofNat 16 k).setWidth 8

def VirtioRing.head (p : VirtioRing) (idx : BitVec 16) (k : Nat) : BitVec 16 :=
  p.availRing (slot idx k)

/-- How many chains are waiting. -/
def VirtioRing.waiting (p : VirtioRing) (idx : BitVec 16) : Nat := (p.availIdx - idx).toNat

/-- The `k`-th chain has been delivered: its bytes behind the header in one call of the callback,
with their number, and its head in the used ring. -/
structure Delivered (p : VirtioRing) (mems : Nat → ByteMem) (s s' : RecvState) (k : Nat)
    (ds : List (BitVec 8)) : Prop where
  packet : ∃ size : BitVec 32, size.toNat + 10 = chainLen p ds ∧
    s'.packets[s.packets.length + k]? =
      some ⟨(chainBytes p (mems (s.packets.length + k)) ds).drop 10, size⟩
  used : p.waiting s.usedIdx ≤ k + 256 → s'.usedRing (slot s.usedIdx k) =
    ⟨(p.head s.usedIdx k).setWidth 32, BitVec.ofNat 32 (chainLen p ds)⟩

/-- A run returns, with some fuel, without a write past its buffer, and every chain that was waiting has been
delivered once. -/
def Served (p : VirtioRing) (mems : Nat → ByteMem) (s : RecvState)
    (run : Nat → Outcome RecvState) : Prop :=
  ∃ fuel s', run fuel = .done s' ∧ s'.usedIdx = p.availIdx ∧
    s'.packets.length = s.packets.length + p.waiting s.usedIdx ∧
    ∀ k < p.waiting s.usedIdx, ∃ ds, IsChain p ((p.head s.usedIdx k).setWidth 8) ds ∧
      Delivered p mems s s' k ds

/-- A chain that the packet buffer has room for, with at least a header. -/
def Fits (p : VirtioRing) (head : BitVec 16) : Prop :=
  ∃ ds, IsChain p (head.setWidth 8) ds ∧ 10 ≤ chainLen p ds ∧ chainLen p ds ≤ bufSize

variable {p : VirtioRing} {mem : ByteMem} {mems : Nat → ByteMem} {s s' : RecvState}

theorem IsChain.unique {i : BitVec 8} {ds es : List (BitVec 8)} (h : IsChain p i ds)
    (h' : IsChain p i es) : ds = es := by
  induction h generalizing es with
  | last hlast =>
    cases h' with
    | last => rfl
    | next hnext => exact absurd hnext hlast
  | next hnext _ ih =>
    cases h' with
    | last hlast => exact absurd hnext hlast
    | next _ hrest => rw [ih hrest]

@[simp] theorem length_chainBytes (p : VirtioRing) (mem : ByteMem) (ds : List (BitVec 8)) :
    (chainBytes p mem ds).length = chainLen p ds := by
  simp [chainBytes, chainLen, List.length_flatMap]

theorem headWord_flag (ring : BitVec 16) : headWord ring &&& 1 ≠ 0 := by
  intro h
  have hbit := congrArg (BitVec.getLsbD · 0) h
  simp [headWord] at hbit

theorem headWord_index (ring : BitVec 16) :
    (headWord ring >>> 16).setWidth 8 = ring.setWidth 8 := by
  ext i hi
  simp only [headWord, BitVec.getElem_setWidth, BitVec.getLsbD_ushiftRight, BitVec.getLsbD_or,
    BitVec.getLsbD_shiftLeft, BitVec.getLsbD_setWidth]
  have hone : (1 : BitVec 32).getLsbD (16 + i) = false := by
    rw [show (1 : BitVec 32) = BitVec.twoPow 32 0 from rfl, BitVec.getLsbD_twoPow]
    simp only [Bool.and_eq_false_iff, decide_eq_false_iff_not]
    omega
  rw [hone]
  simp [show 16 + i < 32 by omega, show ¬16 + i < 16 by omega, show i < 32 by omega]

/-! ### The copy of a chain -/

theorem copyChain_succ {fuel : Nat} {w : BitVec 32} {buf : List (BitVec 8)} (hflag : w &&& 1 ≠ 0) :
    copyChain p mem (fuel + 1) w buf =
      if bufSize < buf.length + (p.desc ((w >>> 16).setWidth 8)).len.toNat then .overrun
      else copyChain p mem fuel (p.desc ((w >>> 16).setWidth 8)).flagsNext
        (buf ++ mem.read (p.desc ((w >>> 16).setWidth 8)).addr.toNat
          (p.desc ((w >>> 16).setWidth 8)).len.toNat) :=
  if_pos hflag

theorem copyChain_end {fuel : Nat} {d : VringDesc} {buf : List (BitVec 8)} (hlast : ¬d.hasNext) :
    copyChain p mem (fuel + 1) d.flagsNext buf = .done buf :=
  if_neg hlast

@[simp] theorem chainBytes_singleton (p : VirtioRing) (mem : ByteMem) (i : BitVec 8) :
    chainBytes p mem [i] = mem.read (p.desc i).addr.toNat (p.desc i).len.toNat := by
  simp [chainBytes]

theorem chainBytes_cons (p : VirtioRing) (mem : ByteMem) (i : BitVec 8) (ds : List (BitVec 8)) :
    chainBytes p mem (i :: ds) =
      mem.read (p.desc i).addr.toNat (p.desc i).len.toNat ++ chainBytes p mem ds :=
  List.flatMap_cons

theorem copyChain_done {fuel : Nat} {w : BitVec 32} {buf out : List (BitVec 8)}
    (hflag : w &&& 1 ≠ 0) (h : copyChain p mem fuel w buf = .done out) :
    ∃ ds, IsChain p ((w >>> 16).setWidth 8) ds ∧ out = buf ++ chainBytes p mem ds ∧
      out.length ≤ bufSize := by
  induction fuel generalizing w buf with
  | zero => cases h
  | succ fuel ih =>
    rw [copyChain_succ hflag] at h
    split at h
    · cases h
    next hroom =>
    by_cases hnext : (p.desc ((w >>> 16).setWidth 8)).hasNext
    · obtain ⟨ds, hds, rfl, hlen⟩ := ih hnext h
      exact ⟨_ :: ds, .next hnext hds, by rw [chainBytes_cons, List.append_assoc], hlen⟩
    · cases fuel with
      | zero => cases h
      | succ fuel =>
        rw [copyChain_end hnext] at h
        cases h
        refine ⟨_, .last hnext, by rw [chainBytes_singleton], ?_⟩
        rw [List.length_append, ByteMem.length_read]
        omega

theorem copyChain_of_chain {i : BitVec 8} {ds : List (BitVec 8)} (hds : IsChain p i ds)
    {w : BitVec 32} {buf : List (BitVec 8)} (hflag : w &&& 1 ≠ 0) (hw : (w >>> 16).setWidth 8 = i)
    (hroom : buf.length + chainLen p ds ≤ bufSize) (more : Nat) :
    copyChain p mem (ds.length + 1 + more) w buf = .done (buf ++ chainBytes p mem ds) := by
  induction hds generalizing w buf with
  | @last i hlast =>
    rw [chainLen, List.map_singleton, List.sum_singleton] at hroom
    rw [List.length_singleton, show 1 + 1 + more = more + 1 + 1 by omega, copyChain_succ hflag, hw,
      if_neg (by omega), copyChain_end hlast, chainBytes_singleton]
  | @next i ds hnext hrest ih =>
    rw [chainLen, List.map_cons, List.sum_cons] at hroom
    rw [List.length_cons, show ds.length + 1 + 1 + more = ds.length + 1 + more + 1 by omega,
      copyChain_succ hflag, hw]
    have hlen : (buf ++ mem.read (p.desc i).addr.toNat (p.desc i).len.toNat).length +
        chainLen p ds ≤ bufSize := by
      rw [List.length_append, ByteMem.length_read, chainLen]
      omega
    rw [if_neg (by omega), ih hnext rfl hlen, chainBytes_cons, List.append_assoc]

/-! ### The loop -/

theorem waiting_succ (h : p.availIdx ≠ s.usedIdx) :
    p.waiting s.usedIdx = p.waiting (s.usedIdx + 1) + 1 := by
  have hne : p.availIdx.toNat ≠ s.usedIdx.toNat := fun he => h (BitVec.eq_of_toNat_eq he)
  have ha := p.availIdx.isLt
  have hu := s.usedIdx.isLt
  rw [VirtioRing.waiting, VirtioRing.waiting, BitVec.toNat_sub, BitVec.toNat_sub, BitVec.toNat_add,
    show (1 : BitVec 16).toNat = 1 from rfl]
  omega

theorem waiting_eq_zero (h : p.availIdx = s.usedIdx) : p.waiting s.usedIdx = 0 := by
  simp [VirtioRing.waiting, h]

theorem slot_succ (idx : BitVec 16) (k : Nat) : slot idx (k + 1) = slot (idx + 1) k := by
  rw [slot, slot, BitVec.add_assoc, Nat.add_comm k 1, BitVec.ofNat_add]
  rfl

theorem slot_zero (idx : BitVec 16) : slot idx 0 = idx.setWidth 8 := by
  exact congrArg (BitVec.setWidth 8) (BitVec.add_zero idx)

theorem slot_ne {idx : BitVec 16} {k : Nat} (h0 : 0 < k) (hk : k < 256) : slot idx k ≠ slot idx 0 := by
  intro h
  have hval := congrArg BitVec.toNat h
  have hidx := idx.isLt
  simp only [slot, BitVec.toNat_setWidth, BitVec.toNat_add, BitVec.toNat_ofNat] at hval
  omega

theorem head_succ (p : VirtioRing) (idx : BitVec 16) (k : Nat) :
    p.head idx (k + 1) = p.head (idx + 1) k := by
  rw [VirtioRing.head, slot_succ, VirtioRing.head]

theorem deliver_usedIdx (s : RecvState) (p : VirtioRing) (buf : List (BitVec 8)) :
    (s.deliver p buf).usedIdx = s.usedIdx + 1 := rfl

/-- A run that is done has followed each chain to its end, inside the buffer. -/
theorem chain_of_done {fuel : Nat} (h : recvPackets p mems fuel s = .done s') {k : Nat}
    (hk : k < p.waiting s.usedIdx) : ∃ ds, IsChain p ((p.head s.usedIdx k).setWidth 8) ds ∧
      chainLen p ds ≤ bufSize := by
  induction fuel generalizing s k with
  | zero => cases h
  | succ fuel ih =>
    rw [recvPackets] at h
    split at h
    next hne =>
      cases hcopy : copyChain p (mems s.packets.length) fuel
          (headWord (p.availRing (s.usedIdx.setWidth 8))) [] with
      | running => simp [hcopy] at h
      | overrun => simp [hcopy] at h
      | done buf =>
        simp only [hcopy] at h
        cases k with
        | zero =>
          obtain ⟨ds, hds, rfl, hlen⟩ := copyChain_done (headWord_flag _) hcopy
          rw [headWord_index] at hds
          refine ⟨ds, by rw [VirtioRing.head, slot_zero]; exact hds, ?_⟩
          simpa using hlen
        | succ k =>
          rw [waiting_succ hne] at hk
          rw [head_succ]
          exact ih h (by rw [deliver_usedIdx]; omega)
    next heq =>
      rw [waiting_eq_zero (not_not.mp heq)] at hk
      exact absurd hk (Nat.not_lt_zero k)

/-- What the loop does to the used ring and to the calls before it. -/
structure Frame (p : VirtioRing) (s s' : RecvState) : Prop where
  idx : s'.usedIdx = p.availIdx
  length : s'.packets.length = s.packets.length + p.waiting s.usedIdx
  packets : ∀ (i : Nat) q, s.packets[i]? = some q → s'.packets[i]? = some q
  ring : ∀ x, (∀ k < p.waiting s.usedIdx, slot s.usedIdx k ≠ x) → s'.usedRing x = s.usedRing x

/-- The loop, when every chain fits. -/
theorem recvPackets_of_fits {n : Nat} (hn : p.waiting s.usedIdx = n)
    (hfits : ∀ k < n, Fits p (p.head s.usedIdx k)) :
    ∃ fuel s', (∀ more, recvPackets p mems (fuel + more) s = .done s') ∧ Frame p s s' ∧
      ∀ k < n, ∃ ds, IsChain p ((p.head s.usedIdx k).setWidth 8) ds ∧
        Delivered p mems s s' k ds := by
  induction n generalizing s with
  | zero =>
    have heq : p.availIdx = s.usedIdx := by
      by_contra hne
      rw [waiting_succ hne] at hn
      omega
    refine ⟨1, s, fun more => ?_, ⟨heq.symm, by omega, fun i q h => h, fun x _ => rfl⟩, nofun⟩
    rw [Nat.add_comm, recvPackets, if_neg (not_not.mpr heq)]
  | succ n ih =>
    have hne : p.availIdx ≠ s.usedIdx := fun heq => by
      rw [waiting_eq_zero heq] at hn
      omega
    obtain ⟨ds, hds, hlow, hhigh⟩ := hfits 0 (by omega)
    have hcopy : ∀ more, copyChain p (mems s.packets.length) (ds.length + 1 + more)
        (headWord (p.availRing (s.usedIdx.setWidth 8))) [] =
          .done (chainBytes p (mems s.packets.length) ds) := fun more =>
      copyChain_of_chain hds (headWord_flag _)
        (by rw [headWord_index, VirtioRing.head, slot_zero]) (by simpa using hhigh) more
    generalize hs₁ : s.deliver p (chainBytes p (mems s.packets.length) ds) = s₁
    have hidx : s₁.usedIdx = s.usedIdx + 1 := by rw [← hs₁, deliver_usedIdx]
    have hpackets : s₁.packets.length = s.packets.length + 1 := by
      rw [← hs₁]
      simp [RecvState.deliver]
    have hwait : p.waiting s₁.usedIdx = n := by
      rw [waiting_succ hne, ← hidx] at hn
      omega
    obtain ⟨fuel, s', hrun, hframe, hall⟩ := ih hwait fun k hk => by
      rw [hidx, ← head_succ]
      exact hfits (k + 1) (by omega)
    have hkept : ∀ (i : Nat) q, s.packets[i]? = some q → s'.packets[i]? = some q := by
      intro i q hi
      refine hframe.packets i q ?_
      rw [← hs₁]
      have hlt := (List.getElem?_eq_some_iff.mp hi).1
      simp only [RecvState.deliver]
      rw [List.getElem?_append_left hlt, hi]
    refine ⟨fuel + (ds.length + 1) + 1, s', fun more => ?_,
      ⟨hframe.idx, by rw [hframe.length, hpackets, hwait, hn]; omega, hkept, fun x hx => ?_⟩,
      fun k hk => ?_⟩
    · rw [show fuel + (ds.length + 1) + 1 + more = (ds.length + 1 + (fuel + more)) + 1 by omega,
        recvPackets, if_pos hne, hcopy]
      simp only
      rw [hs₁, show ds.length + 1 + (fuel + more) = fuel + (ds.length + 1 + more) by omega, hrun]
    · rw [hn] at hx
      rw [hframe.ring x fun k hk => ?_, ← hs₁]
      · simp only [RecvState.deliver]
        rw [Function.update_of_ne]
        rw [← slot_zero]
        exact (hx 0 (by omega)).symm
      · rw [hidx, ← slot_succ]
        exact hx (k + 1) (by omega)
    · cases k with
      | zero =>
        refine ⟨ds, hds, ⟨⟨BitVec.ofNat 32 (chainLen p ds) - 10, ?_, ?_⟩, fun hring => ?_⟩⟩
        · rw [bufSize] at hhigh
          rw [BitVec.toNat_sub, BitVec.toNat_ofNat, show (10 : BitVec 32).toNat = 10 from rfl]
          omega
        · refine hframe.packets _ _ ?_
          rw [← hs₁]
          simp [RecvState.deliver]
        · rw [hn] at hring
          rw [hframe.ring _ fun k hk => ?_, ← hs₁]
          · simp only [RecvState.deliver]
            rw [slot_zero, Function.update_self, VirtioRing.head, slot_zero, length_chainBytes]
          · rw [hwait] at hk
            rw [hidx, ← slot_succ]
            exact slot_ne (by omega) (by omega)
      | succ k =>
        obtain ⟨es, hes, hdel⟩ := hall k (by omega)
        rw [hidx, ← head_succ] at hes
        refine ⟨es, hes, ⟨?_, fun hring => ?_⟩⟩
        · have hp := hdel.packet
          rw [hpackets, show s.packets.length + 1 + k = s.packets.length + (k + 1) by omega] at hp
          exact hp
        · have hu := hdel.used (by rw [hwait]; omega)
          rwa [hidx, ← slot_succ, ← head_succ] at hu

theorem served_recvPackets_iff (p : VirtioRing) (mems : Nat → ByteMem) (s : RecvState) :
    Served p mems s (fun fuel => recvPackets p mems fuel s) ↔
      ∀ k < p.waiting s.usedIdx, Fits p (p.head s.usedIdx k) := by
  constructor
  · rintro ⟨fuel, s', hrun, -, -, hall⟩ k hk
    obtain ⟨ds, hds, hlen⟩ := chain_of_done hrun hk
    obtain ⟨es, hes, hdel⟩ := hall k hk
    obtain rfl := hds.unique hes
    obtain ⟨size, hsize, -⟩ := hdel.packet
    exact ⟨ds, hds, by omega, hlen⟩
  · intro hfits
    obtain ⟨fuel, s', hrun, hframe, hall⟩ := recvPackets_of_fits rfl hfits
    exact ⟨fuel, s', hrun 0, hframe.idx, hframe.length, hall⟩

/-- `virtio_net_recv` returns with every waiting chain delivered once, and without a write past its
buffer, exactly if every chain ends and has between 10 and 2048 bytes. -/
theorem served_iff (rings : BitVec 32 → VirtioRing × RecvState) (mems : Nat → ByteMem)
    (aftMigInMmio : Bool) (virtioRecvQueue : BitVec 32) (macBuf : List (BitVec 8))
    (vnet : VirtioNet) :
    let ring := rings (vnet.adopt aftMigInMmio virtioRecvQueue macBuf).recvQueue
    Served ring.1 mems ring.2 (fun fuel =>
        (virtioNetRecv rings mems aftMigInMmio virtioRecvQueue macBuf fuel vnet).2) ↔
      ∀ k < ring.1.waiting ring.2.usedIdx, Fits ring.1 (ring.1.head ring.2.usedIdx k) :=
  served_recvPackets_iff _ _ _

/-- One chain of one descriptor with `n` bytes. -/
def oneChain (n : BitVec 32) : VirtioRing := ⟨fun _ => ⟨0, n, 0⟩, 1, fun _ => 0⟩

/-- The state before the first chain. -/
def freshRecv : RecvState := ⟨0, fun _ => ⟨0, 0⟩, []⟩

/-- A buffer one byte longer than the packet buffer is copied past its end. -/
theorem not_served_long : ¬∀ (rings : BitVec 32 → VirtioRing × RecvState)
    (mems : Nat → ByteMem) (vnet : VirtioNet),
    Served (rings vnet.recvQueue).1 mems (rings vnet.recvQueue).2 fun fuel =>
      (virtioNetRecv rings mems false 0 [] fuel vnet).2 := by
  intro h
  obtain ⟨fuel, s', hrun, -⟩ := h (fun _ => (oneChain 2049, freshRecv)) (fun _ _ => 0) ⟨0, []⟩
  cases fuel with
  | zero => cases hrun
  | succ fuel =>
    change recvPackets (oneChain 2049) (fun _ _ => 0) (fuel + 1) freshRecv = .done s' at hrun
    rw [recvPackets, if_pos (by decide)] at hrun
    cases fuel with
    | zero => cases hrun
    | succ fuel =>
      rw [copyChain_succ (by decide), if_pos (by decide)] at hrun
      cases hrun

end OnDemandVirt.Net
