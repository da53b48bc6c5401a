import OnDemandVirt.Migration.Control
import OnDemandVirt.Migration.Walk

/-!
# What the queued messages carry

A memory message names an address, `addr_to_migrate + 1024 * batch_num`, and the bytes were copied
through a pointer that is computed apart from it. `SeqLabels` and `ReqLabels` keep the two
together, and `faithful_of_reachable` says that every queued memory message carries the guest's
bytes at the address it names, as long as the thread does not retry a unit whose last message was
refused: the batch counter has started over by then and `send_num` has not.
-/

namespace OnDemandVirt.Migration

open Lib

/-- The message carries the guest's bytes at the address it names, all that the receiver copies. -/
def Faithful (mem : GuestMem) (m : BfMsg) : Prop :=
  m.IsMem → ∀ k : Fin sizeSendbufData, k.val < m.dataLen → m.data k = mem (m.target + k.val)

/-- Every queued message is faithful. -/
def QueueFaithful (mem : GuestMem) (s : Client) : Prop := ∀ q ∈ s.tcp.queue, Faithful mem q.msg

/-! ### Pointers -/

theorem areaStart_le (i : Nat) : areaStart i ≤ 0x100000000 ∧ areaStart i % 8 = 0 := by
  rw [areaStart, areaAt, usableMemList]
  rcases i with _ | _ | _ | _ | _ | _ | _ | i <;> simp

/-- `usable_vmem_list[area] + ((addr - usable_mem_list[area].start_addr + off) >> 3)` points to
`addr + off`, also where the subtraction wraps around. -/
theorem vmemAddr_offset {area addr off : Nat} (haddr : addr % 8 = 0) (hoff : off % 8 = 0)
    (hlt : addr + off < 2 ^ 64) :
    vmemAddr area ((addr + 2 ^ 64 - areaStart area + off) % 2 ^ 64) = addr + off := by
  obtain ⟨hle, h8⟩ := areaStart_le area
  rw [vmemAddr, Nat.shiftRight_eq_div_pow]
  omega

/-! ### Labels -/

/-- The variables of the margins and units agree about the address that is sent. -/
structure SeqLabels (t : SeqState) : Prop where
  addr : t.seqMsg.addrToMigrate = t.startAddr
  size : t.seqMsg.batchSize = t.sendSize
  aligned : t.startAddr % 8 = 0
  bound : t.startAddr + sizeSendbufData * t.sendSize ≤ 2 ^ 36
  walk : WalkAt t.nextStart

/-- The variables of the replies agree about the address that is sent. -/
structure ReqLabels (q : ReqState) : Prop where
  aligned : q.msg.addrToMigrate % addrOffset = 0
  bound : q.msg.addrToMigrate < 2 ^ 64
  offset : q.requestedOffset =
    (q.msg.addrToMigrate + 2 ^ 64 - areaStart q.reqMemAreaNum) % 2 ^ 64
  requested : q.requestedAddr < 2 ^ 64
  batch : ∀ f, q.batch f < batchSize

/-- The labels agree at every point of a step. -/
def labelsAt : Assertion := fun _ s => SeqLabels s.seq ∧ ReqLabels s.req

theorem SeqLabels.setSendMargin {t : SeqState} (hwalk : WalkAt t.nextStart) {a e : Nat}
    (haligned : a % 8 = 0) (hae : a ≤ e) (he : e + sizeSendbufData ≤ 2 ^ 36) :
    SeqLabels (setSendMargin a e t) where
  addr := rfl
  size := rfl
  aligned := haligned
  bound := by
    simp only [Migration.setSendMargin, sizeSendbufData] at he ⊢
    split_ifs <;> omega
  walk := hwalk

theorem virtioQueue64_eq (q : Nat) : virtioQueue64 q % 0x20000 = 0 ∧ virtioQueue64 q < 2 ^ 32 := by
  rw [virtioQueue64]
  have hle : (q <<< 12) &&& 0xfffe0000 ≤ 0xfffe0000 := Nat.and_le_right
  have hmod : ((q <<< 12) &&& 0xfffe0000) % 2 ^ 17 = 0 := by
    rw [← Nat.and_two_pow_sub_one_eq_mod, Nat.and_assoc]
    simp
  exact ⟨hmod, by omega⟩

theorem marginRange_spec (q : Nat) (t : MarginType) :
    (marginRange q t).1 % 8 = 0 ∧ (marginRange q t).1 ≤ (marginRange q t).2 ∧
      (marginRange q t).2 + sizeSendbufData ≤ 2 ^ 36 := by
  have hv := virtioQueue64_eq q
  cases t <;> simp [marginRange, areaAt, marginList, MarginType.index, sizeSendbufData]; omega

theorem SeqLabels.startMargin {s : Client} (h : SeqLabels s.seq) : SeqLabels (startMargin s).seq :=
  have hrange := marginRange_spec s.virtioRecvQueue s.seq.mType
  SeqLabels.setSendMargin
    (t := { s.seq with called := Function.update s.seq.called s.seq.mType true }) h.walk hrange.1
    hrange.2.1 hrange.2.2

theorem SeqLabels.startMarginLessThan1kb {s : Client} (h : SeqLabels s.seq) :
    SeqLabels (startMarginLessThan1kb s).seq := by
  have hm := h.startMargin
  refine ⟨hm.addr, rfl, hm.aligned, ?_, hm.walk⟩
  have hbound := hm.bound
  have hpos : 0 < (Migration.startMargin s).seq.sendSize := Control.startMargin_sendSize_pos
  show (Migration.startMargin s).seq.startAddr + sizeSendbufData * 1 ≤ 2 ^ 36
  simp only [sizeSendbufData] at hbound ⊢
  omega

theorem ReqLabels.startReply {s : Client} (h : ReqLabels s.req) (f : ReplyFn) :
    ReqLabels (startReply f s).req := by
  have hlt := h.requested
  have hmask := requestMask_eq s.req.requestedAddr hlt
  refine ⟨?_, ?_, rfl, ?_, h.batch⟩
  · show requestMask s.req.requestedAddr % addrOffset = 0
    rw [hmask, addrOffset]
    omega
  · show requestMask s.req.requestedAddr < 2 ^ 64
    rw [hmask]
    omega
  · show requestMask s.req.requestedAddr < 2 ^ 64
    rw [hmask]
    omega

theorem vtMigrationRange_lt_word {addr : Nat} (h : vtMigrationRange addr = true) : addr < 2 ^ 64 :=
  lt_trans (vtMigrationRange_lt h) (by norm_num)

theorem ReqLabels.setRequestedAddr {s : Client} (h : ReqLabels s.req) {addr : Nat}
    (haddr : vtMigrationRange addr = true) : ReqLabels (setRequestedAddr addr s).req :=
  ⟨h.aligned, h.bound, h.offset, vtMigrationRange_lt_word haddr, h.batch⟩

theorem SeqLabels.startUnit {s : Client} (h : SeqLabels s.seq) {a next : Nat}
    (hs : StartAddr s.bitarray s.seq.nextStart a next) (ha : a ≠ endOfMemory) :
    SeqLabels (startUnit a next s).seq := by
  obtain ⟨hu, -, -⟩ := hs.unit ha
  have halign := hu.aligned
  have hlt := hu.lt
  have hset : SeqLabels (Migration.setSendMargin a (a + (addrOffset - 1)) s.seq) :=
    SeqLabels.setSendMargin h.walk (by omega) (Nat.le_add_right _ _)
      (by simp only [addrOffset, sizeSendbufData]; omega)
  exact ⟨hset.addr, hset.size, hset.aligned, hset.bound, hs.walkAt⟩

theorem keeps_labels (mem : GuestMem) : Keeps mem labelsAt labelsAt := by
  intro p s p' s' hp h
  obtain ⟨hseq, hreq⟩ := h
  have hseq' : ∀ {t : SeqState}, t.seqMsg.addrToMigrate = s.seq.seqMsg.addrToMigrate →
      t.seqMsg.batchSize = s.seq.seqMsg.batchSize → t.startAddr = s.seq.startAddr →
        t.sendSize = s.seq.sendSize → WalkAt t.nextStart → SeqLabels t := by
    intro t h1 h2 h3 h4 h5
    exact ⟨by rw [h1, h3, hseq.addr], by rw [h2, h4, hseq.size], by rw [h3, hseq.aligned],
      by rw [h3, h4]; exact hseq.bound, h5⟩
  cases hp with
  | stay => exact ⟨hseq, hreq⟩
  | @replyMore f _ _ _ _ hmore =>
    refine ⟨hseq, hreq.aligned, hreq.bound, hreq.offset, hreq.requested, fun g => ?_⟩
    by_cases hg : g = f
    · subst hg
      simpa [replyMore] using hmore
    · simpa [replyMore, Function.update, hg] using hreq.batch g
  | @replyLast f =>
    refine ⟨hseq, hreq.aligned, hreq.bound, hreq.offset, hreq.requested, fun g => ?_⟩
    by_cases hg : g = f
    · subst hg
      simp [replyLast]
    · simpa [replyLast, Function.update, hg] using hreq.batch g
  | replyFull => exact ⟨hseq, hreq.aligned, hreq.bound, hreq.offset, hreq.requested, hreq.batch⟩
  | marginMore => exact ⟨hseq' rfl rfl rfl rfl hseq.walk, hreq⟩
  | marginMoreFailed => exact ⟨hseq' rfl rfl rfl rfl hseq.walk, hreq⟩
  | marginBatchEnd => exact ⟨hseq' rfl rfl rfl rfl hseq.walk, hreq⟩
  | marginBuffEnd => exact ⟨hseq' rfl rfl rfl rfl hseq.walk, hreq⟩
  | unitEnd => exact ⟨hseq' rfl rfl rfl rfl hseq.walk, hreq⟩
  | marginDefault => exact ⟨hseq' rfl rfl rfl rfl hseq.walk, hreq⟩
  | marginFull => exact ⟨hseq' rfl rfl rfl rfl hseq.walk, hreq⟩
  | readyCalled => exact ⟨hseq, hreq⟩
  | readyStart => exact ⟨hseq.startMargin, hreq⟩
  | readyLess => exact ⟨hseq.startMarginLessThan1kb, hreq⟩
  | readyLessSent =>
    have hless := hseq.startMarginLessThan1kb
    exact ⟨⟨hless.addr, hless.size, hless.aligned, hless.bound, hless.walk⟩, hreq⟩
  | ackCpu =>
    exact ⟨hseq' rfl rfl rfl rfl hseq.walk, hreq.aligned, hreq.bound, hreq.offset, hreq.requested,
      hreq.batch⟩
  | ackMargins => exact ⟨hseq, hreq⟩
  | ackMargin => exact ⟨hseq, hreq⟩
  | ackReply => exact ⟨hseq, hreq⟩
  | ackDone => exact ⟨hseq' rfl rfl rfl rfl hseq.walk, hreq⟩
  | ackNone => exact ⟨hseq, hreq⟩
  | threadExit => exact ⟨hseq' rfl rfl rfl rfl hseq.walk, hreq⟩
  | threadDone => exact ⟨hseq' rfl rfl rfl rfl hseq.walk, hreq⟩
  | threadMargin => exact ⟨hseq' rfl rfl rfl rfl hseq.walk, hreq⟩
  | threadClear =>
    exact ⟨hseq, hreq.aligned, hreq.bound, hreq.offset, hreq.requested, hreq.batch⟩
  | threadDisrupted => exact ⟨hseq, hreq.startReply _⟩
  | threadUnit _ _ _ hstart ha =>
    exact ⟨hseq.startUnit (getStartAddr_spec hseq.walk hstart) ha, hreq⟩
  | threadFinish => exact ⟨hseq' rfl rfl rfl rfl (.inl rfl), hreq⟩
  | threadFinishSent => exact ⟨hseq' rfl rfl rfl rfl (.inl rfl), hreq⟩
  | threadReply => exact ⟨hseq, hreq.aligned, hreq.bound, hreq.offset, hreq.requested, hreq.batch⟩
  | requestMarked haddr => exact ⟨hseq, hreq.setRequestedAddr haddr⟩
  | requestDeferred haddr =>
    have h' := hreq.setRequestedAddr haddr
    exact ⟨hseq, h'.aligned, h'.bound, h'.offset, h'.requested, h'.batch⟩
  | requestReply haddr => exact ⟨hseq, (hreq.setRequestedAddr haddr).startReply _⟩

theorem labels_start (mem : GuestMem) (q : Nat) (r : TcpAnswer) :
    SeqLabels (Client.start mem q r).seq ∧ ReqLabels (Client.start mem q r).req := by
  constructor
  · exact ⟨rfl, rfl, rfl, by simp [Client.start], .inr isGranUnit_zero⟩
  · exact ⟨rfl, by simp [Client.start, cpuMsg, BfMsg.init],
      by simp [Client.start, cpuMsg, BfMsg.init, areaStart, areaAt, usableMemList],
      by simp [Client.start], fun _ => by simp [Client.start]⟩

/-! ### Ranges -/

/-- What is sent is the margin of `margin_list` (or around the virtio ring) that the margin type
says, or a unit of `usable_mem_list_gran`. -/
structure Ranges (s : Client) : Prop where
  margin : s.seq.InMargin →
    s.seq.startAddr = (marginRange s.virtioRecvQueue s.seq.mType).1 ∧
      s.seq.startAddr + sizeSendbufData * s.seq.sendSize =
        (marginRange s.virtioRecvQueue s.seq.mType).2 + 1
  unit : s.seq.isTransmitting = true → IsGranUnit s.seq.startAddr

theorem Ranges.of_same {s s' : Client} (h : Ranges s)
    (hq : s'.virtioRecvQueue = s.virtioRecvQueue) (haddr : s'.seq.startAddr = s.seq.startAddr)
    (hsize : s'.seq.sendSize = s.seq.sendSize)
    (hmargin : s'.seq.InMargin → s.seq.InMargin ∧ s'.seq.mType = s.seq.mType)
    (hunit : s'.seq.isTransmitting = true → s.seq.isTransmitting = true) : Ranges s' where
  margin hm := by
    obtain ⟨hm, htype⟩ := hmargin hm
    rw [hq, haddr, hsize, htype]
    exact h.margin hm
  unit hu := by
    rw [haddr]
    exact h.unit (hunit hu)

/-- A margin whose counters move on. -/
theorem SeqState.InMargin.of_eq {t t' : SeqState} (h : t'.InMargin) (hthread : t'.thread = t.thread)
    (htype : t'.mType = t.mType) (hcalled : t'.called = t.called) :
    t.InMargin ∧ t'.mType = t.mType :=
  ⟨⟨hthread ▸ h.thread, htype ▸ h.whole, hcalled ▸ htype ▸ h.called⟩, htype⟩

theorem Ranges.startMargin {s : Client} (hoff : s.seq.isTransmitting = false)
    (hwhole : s.seq.mType.Whole) : Ranges (startMargin s) where
  margin _ := by
    refine ⟨rfl, ?_⟩
    have hv := virtioQueue64_eq s.virtioRecvQueue
    obtain ⟨h1, h2⟩ := hwhole
    show (marginRange s.virtioRecvQueue s.seq.mType).1 + sizeSendbufData *
      (Migration.startMargin s).seq.sendSize = (marginRange s.virtioRecvQueue s.seq.mType).2 + 1
    simp only [Migration.startMargin, setSendMargin]
    cases htype : s.seq.mType <;>
      simp_all [marginRange, areaAt, marginList, MarginType.index, sizeSendbufData, Nat.add_assoc]
  unit hu := absurd hu (by simp [Migration.startMargin, setSendMargin, hoff])

theorem keeps_ranges (mem : GuestMem) :
    Keeps mem (fun p s => (controlAt p s ∧ labelsAt p s) ∧ Ranges s) fun _ s => Ranges s := by
  rintro p s p' s' hp ⟨⟨hc, hl⟩, h⟩
  cases hp with
  | @marginBatchEnd next _ _ _ _ _ hnext =>
    have hfresh : s.seq.called next = false :=
      hc.1.later next (by rw [MarginType.index_next hnext]; exact Nat.lt_succ_self _)
    refine h.of_same rfl rfl rfl (fun hm => ?_) id
    rw [show s.seq.called next = true from hm.called] at hfresh
    cases hfresh
  | marginBuffEnd => exact h.of_same rfl rfl rfl (fun hm => absurd rfl hm.whole.2) id
  | unitEnd _ _ htype =>
    refine h.of_same rfl rfl rfl (fun hm => absurd htype hm.whole.2) fun _ => ?_
    exact (Control.inUnit_of_active hc.2 htype).transmitting
  | readyStart hwhole => exact Ranges.startMargin (hc.1.not_transmitting hc.2.thread) hwhole
  | readyLess htype =>
    have hoff := hc.1.not_transmitting hc.2.thread
    exact ⟨fun hm => absurd htype hm.whole.1, fun hu => absurd (hoff.symm.trans hu) (by simp)⟩
  | readyLessSent htype =>
    have hoff := hc.1.not_transmitting hc.2.thread
    have hfresh : s.seq.called .marginBuff = false := hc.1.later _ (by rw [htype]; decide)
    refine ⟨fun hm => ?_, fun hu => absurd (hoff.symm.trans hu) (by simp)⟩
    have hcalled : Function.update s.seq.called s.seq.mType true .marginBuff = true := hm.called
    rw [Function.update_of_ne (by simp [htype]), hfresh] at hcalled
    cases hcalled
  | ackCpu _ _ hsent =>
    have htype := (hc.cpu hsent).2
    exact h.of_same rfl rfl rfl (fun hm => hm.of_eq rfl htype.symm rfl) id
  | threadUnit hturn _ _ hstart ha =>
    refine ⟨fun hm => ?_, fun _ => ((getStartAddr_spec hl.1.walk hstart).unit ha).1⟩
    have hthread : s.seq.thread = .notCreated := hm.thread
    rw [hturn.running] at hthread
    cases hthread
  | threadExit => exact h.of_same rfl rfl rfl (fun hm => by cases hm.thread) id
  | threadFinish => exact h.of_same rfl rfl rfl (fun hm => hm.of_eq rfl rfl rfl) (by rintro ⟨⟩)
  | threadFinishSent =>
    exact h.of_same rfl rfl rfl (fun hm => hm.of_eq rfl rfl rfl) (by rintro ⟨⟩)
  | _ => exact h.of_same rfl rfl rfl (fun hm => hm.of_eq rfl rfl rfl) id

/-- The control, the labels and the ranges, which hold in every run. -/
def baseAt : Assertion := fun p s => (controlAt p s ∧ labelsAt p s) ∧ Ranges s

theorem keeps_base (mem : GuestMem) : Keeps mem baseAt baseAt :=
  ((keeps_control mem).and fun _ _ _ _ hp h => keeps_labels mem hp h.2).and (keeps_ranges mem)

theorem base_start (mem : GuestMem) (q : Nat) (r : TcpAnswer) :
    baseAt .idle (Client.start mem q r) :=
  ⟨⟨Control.start q r, labels_start mem q r⟩, fun hm => (by cases hm.called), by rintro ⟨⟩⟩

/-! ### Bytes -/

theorem SeqLabels.faithful {mem : GuestMem} {t : SeqState} (h : SeqLabels t) (hbusy : t.Busy)
    (p : ProtoId) : Faithful mem { seqMsgNext mem t with protoId := p } := by
  intro _ k _
  have hbound := h.bound
  have hlt := hbusy.2
  have hptr : vmemAddr t.memArea
      ((t.startAddr + 2 ^ 64 - areaStart t.memArea + t.sendNum * sizeSendbufData) % 2 ^ 64) =
      t.startAddr + t.sendNum * sizeSendbufData :=
    vmemAddr_offset h.aligned (by rw [Nat.mul_mod]; simp [sizeSendbufData])
      (by simp only [sizeSendbufData] at hbound ⊢; omega)
  simp only [seqMsgNext, memcpyData, BfMsg.target, if_pos k.isLt, hptr, h.addr, hbusy.1,
    Nat.mul_comm sizeSendbufData]

theorem ReqLabels.faithful {mem : GuestMem} {q : ReqState} (h : ReqLabels q) (f : ReplyFn)
    (p : ProtoId) : Faithful mem { replyMsg mem f q with protoId := p } := by
  intro _ k _
  have haligned := h.aligned
  have hbound := h.bound
  have hbatch := h.batch f
  have hptr : vmemAddr q.reqMemAreaNum
      ((q.requestedOffset + q.batch f * sizeSendbufData) % 2 ^ 64) =
      q.msg.addrToMigrate + q.batch f * sizeSendbufData := by
    rw [h.offset, Nat.mod_add_mod]
    exact vmemAddr_offset (by simp only [addrOffset] at haligned; omega)
      (by rw [Nat.mul_mod]; simp [sizeSendbufData])
      (by simp only [sizeSendbufData, addrOffset, batchSize] at *; omega)
  simp only [replyMsg, memcpyData, BfMsg.target, if_pos k.isLt, hptr, Nat.mul_comm sizeSendbufData]

theorem SeqLabels.faithful_lessThan1kb {mem : GuestMem} {t : SeqState} (h : SeqLabels t)
    (hsp : t.seqMsg.protoId = .dataMemSp) : Faithful mem (seqMsgLessThan1kb mem t) := by
  intro _ k hk
  have hbound := h.bound
  have hlen : k.val < 762 := by simpa [BfMsg.dataLen, seqMsgLessThan1kb, hsp] using hk
  have hptr : vmemAddr t.memArea ((t.startAddr + 2 ^ 64 - areaStart t.memArea) % 2 ^ 64) =
      t.startAddr :=
    @vmemAddr_offset _ _ 0 h.aligned rfl (by omega)
  simp only [seqMsgLessThan1kb, memcpyData, BfMsg.target, if_pos hlen, hptr, h.addr, Nat.mul_zero,
    Nat.add_zero]

theorem faithful_migDone (mem : GuestMem) (m : BfMsg) :
    Faithful mem { m with protoId := .migDone } :=
  fun hmem => absurd hmem (by simp [BfMsg.IsMem])

/-- The thread retries a background unit whose last message was refused. -/
def RetriesRefused (s : Client) : ClientEvent → Prop
  | .thread _ => s.seq.isTransmitting = true ∧ s.seq.failToSendSeq = true ∧
      s.seq.sendSize ≤ s.seq.sendNum
  | _ => False

/-- Every queued message is faithful, and so is the next one of `send_margin`. -/
def contentAt (mem : GuestMem) : Assertion
  | .start e, s => QueueFaithful mem s ∧ ¬ RetriesRefused s e
  | .margin _, s => QueueFaithful mem s ∧ s.seq.Busy
  | _, s => QueueFaithful mem s

theorem QueueFaithful.append {mem : GuestMem} {s s' : Client} (h : QueueFaithful mem s) {q : Queued}
    (hq : Faithful mem q.msg) {b : Bool}
    (hqueue : s'.tcp.queue = s.tcp.queue ++ (if b then [q] else [])) : QueueFaithful mem s' := by
  intro x hx
  rw [hqueue, List.mem_append] at hx
  rcases hx with hx | hx
  · exact h x hx
  · cases b with
    | false => simp at hx
    | true =>
      rw [if_pos rfl, List.mem_singleton] at hx
      exact hx ▸ hq

theorem keeps_content (mem : GuestMem) :
    Keeps mem (fun p s => baseAt p s ∧ contentAt mem p s) (contentAt mem) := by
  rintro p s p' s' hp ⟨⟨⟨hc, hseq, hreq⟩, -⟩, h⟩
  cases hp with
  | stay => exact h.1
  | replyMore => exact h.append (hreq.faithful _ _) (TcpPcb.tcpWrite_queue _ _ _)
  | replyLast => exact h.append (hreq.faithful _ _) (TcpPcb.tcpWrite_queue _ _ _)
  | replyFull => exact h
  | marginMore _ hmore =>
    exact ⟨h.1.append (hseq.faithful h.2 _) (TcpPcb.tcpWrite_queue _ _ _),
      congrArg (· + 1) h.2.1, hmore⟩
  | marginMoreFailed => exact h.1.append (hseq.faithful h.2 _) (TcpPcb.tcpWrite_queue _ _ _)
  | marginBatchEnd => exact h.1.append (hseq.faithful h.2 _) (TcpPcb.tcpWrite_queue _ _ _)
  | marginBuffEnd => exact h.1.append (hseq.faithful h.2 _) (TcpPcb.tcpWrite_queue _ _ _)
  | unitEnd => exact h.1.append (hseq.faithful h.2 _) (TcpPcb.tcpWrite_queue _ _ _)
  | marginDefault _ _ htype =>
    have hm := (hc.1.inMargin_of_active hc.2 (by simp [htype])).1
    exact absurd htype hm.whole.1
  | marginFull => exact h.1
  | readyCalled => exact h
  | readyStart hwhole hfresh => exact ⟨h, hc.1.startMargin_busy hc.2 hwhole.2 hfresh⟩
  | readyLess => exact h
  | @readyLessSent r =>
    refine h.append ?_ (TcpPcb.tcpWrite_queue _ r _)
    exact (hseq.startMarginLessThan1kb).faithful_lessThan1kb rfl
  | ackCpu => exact h.1
  | ackMargins => exact h.1
  | ackMargin _ _ hsent => exact ⟨h.1, (hc.resumes hsent).1⟩
  | ackReply => exact h.1
  | ackDone => exact h.1
  | ackNone => exact h.1
  | threadExit => exact h.1
  | threadDone =>
    exact h.1.append (faithful_migDone mem _) (TcpPcb.tcpWrite_queue _ _ _)
  | threadMargin _ htrans hfail =>
    refine ⟨h.1, (hc.unit htrans).2.resolve_right fun hl => h.2 ⟨htrans, hfail, hl.2⟩⟩
  | threadClear => exact h.1
  | threadDisrupted => exact h.1
  | threadUnit hturn hoff => exact ⟨h.1, hc.startUnit_busy hturn hoff _ _⟩
  | threadFinish => exact h.1
  | threadFinishSent => exact h.1.append (faithful_migDone mem _) (TcpPcb.tcpWrite_queue _ _ _)
  | threadReply => exact h.1
  | requestMarked => exact h.1
  | requestDeferred => exact h.1
  | requestReply => exact h.1

theorem queueFaithful_start (mem : GuestMem) (q : Nat) (r : TcpAnswer) :
    QueueFaithful mem (Client.start mem q r) := by
  intro x hx
  have hcpu : x.msg = cpuMsg mem := by
    cases hw : r.wrote <;> simp [Client.start, TcpPcb.tcpWrite, hw] at hx
    rw [hx]
  rw [hcpu]
  exact fun hmem => absurd hmem (by simp [BfMsg.IsMem, cpuMsg])

/-- Every queued memory message carries the guest's bytes at the address it names, all 1024 of them
or the 762 that the receiver copies of the last margin, in every run in which the thread does not
retry a background unit whose last message was refused. -/
theorem queueFaithful_of_reachable (mem : GuestMem) (s : Client)
    (hs : (clientMachine mem).ReachableWhen (fun s e => ¬ RetriesRefused s e) s) :
    QueueFaithful mem s := by
  have hkeeps := (keeps_base mem).and (keeps_content mem)
  refine (hkeeps.reachable (fun q r _ => ?_) (fun s e h hC => ⟨h.1, h.2, hC⟩) hs).2
  exact ⟨base_start mem q r, queueFaithful_start mem q r⟩

/-! ### Two runs -/

/-- A send buffer with room and a `tcp_write` that succeeds. -/
def goodAnswer : TcpAnswer := ⟨0xffff, true⟩

/-- An acknowledgement of one message after which there is room for `n` more. -/
def goodAck (n : Nat) : ClientEvent := .ack sizeOfSendbuf (List.replicate n goodAnswer)

/-- One guest byte that is not 0, past the end of the last margin. -/
def oneByteMem : GuestMem := fun a => if a = 0x9c720 then 1 else 0

/-- The client after the acknowledgement that sends the first margin. -/
def firstMarginSent : Client :=
  sentCallback oneByteMem (List.replicate 17 goodAnswer)
    ((Client.start oneByteMem 0 goodAnswer).acked sizeOfSendbuf)

theorem queueFaithful_firstMargin :
    QueueFaithful oneByteMem firstMarginSent ∧ firstMarginSent.tcp.queue.length = 18 :=
  ⟨queueFaithful_of_reachable _ _ (.step (e := goodAck 17)
    (.init ⟨0, goodAnswer, by decide, rfl⟩) (by simp [RetriesRefused, goodAck]) rfl),
    by decide⟩

/-- The acknowledgements that send the margins up to the last one. -/
def marginAcks : List ClientEvent := [17, 4, 16, 4, 20, 12, 1].map goodAck

set_option maxRecDepth 100000 in
theorem lastMargin_run :
    ((clientMachine oneByteMem).run (Client.start oneByteMem 0 goodAnswer) marginAcks).map
      (fun s => s.tcp.queue.getLast?.map fun q =>
        (q.msg.protoId, q.msg.addrToMigrate, q.msg.batchNum, q.msg.data ⟨800, by decide⟩)) =
      some (some (.dataMemSp, 0x9c400, 0, 0)) := by
  decide

/-- The message of the last margin does not carry 1024 bytes of the guest. -/
theorem not_whole_lastMargin : ¬ ∀ (mem : GuestMem) (s : Client), (clientMachine mem).Reachable s →
    ∀ q ∈ s.tcp.queue, q.msg.IsMem →
      ∀ k : Fin sizeSendbufData, q.msg.data k = mem (q.msg.target + k.val) := by
  intro h
  obtain ⟨s, hrun, hlast⟩ := Option.map_eq_some_iff.mp lastMargin_run
  obtain ⟨q, hq, hfields⟩ := Option.map_eq_some_iff.mp hlast
  simp only [Prod.mk.injEq] at hfields
  obtain ⟨hproto, haddr, hbatch, hdata⟩ := hfields
  have hs : (clientMachine oneByteMem).Reachable s :=
    (reachable_start oneByteMem (by decide) goodAnswer).run _ hrun
  have hbyte := h oneByteMem s hs q (List.mem_of_getLast? hq) (.inr (.inr (.inr hproto)))
    ⟨800, by decide⟩
  rw [hdata, BfMsg.target, haddr, hbatch] at hbyte
  exact absurd hbyte (by decide)

end OnDemandVirt.Migration
