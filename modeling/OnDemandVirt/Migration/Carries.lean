import OnDemandVirt.Migration.Turns

/-!
# What the queued messages say

Every queued message can be put in its place by its fields alone: it has the address and the counter
that the server needs, and the message with the CPU state has the client's bytes
(`keeps_carries`). What the other messages hold is said by `QueueFaithful`.
-/

namespace OnDemandVirt.Migration

open Lib

/-- The message can be put where it belongs by its fields alone. -/
structure Carries (mem : GuestMem) (m : BfMsg) : Prop where
  cpu : m.protoId = .dataCpu → ∀ k : Fin sizeSendbufData, m.data k = mem (cpuStateAddr + k.val)
  addressed : m.IsMem → m.Addressed
  low : m.IsMem → m.addrToMigrate < 2 ^ 53

/-- Every queued message can. -/
def QueueCarries (mem : GuestMem) (s : Client) : Prop := ∀ q ∈ s.tcp.queue, Carries mem q.msg

theorem Carries.of_mem {mem : GuestMem} {m : BfMsg} (hmem : m.protoId ≠ .dataCpu)
    (haligned : m.addrToMigrate % 8 = 0) (haddr : m.addrToMigrate < 2 ^ 36)
    (hbatch : m.batchNum < 2 ^ 20) : Carries mem m where
  cpu h := absurd h hmem
  addressed _ := ⟨haligned, by simp only [sizeSendbufData]; omega,
    by simp only [sizeSendbufData]; omega⟩
  low _ := lt_trans haddr (by norm_num)

theorem marginRange_size (q : Nat) (t : MarginType) :
    (marginRange q t).2 < (marginRange q t).1 + 0x60000 := by
  cases t <;> simp [marginRange, areaAt, marginList, MarginType.index]

/-- Margins and units have few messages. -/
theorem sendSize_lt {s : Client} (hr : Ranges s) (h : s.seq.Active) : s.seq.sendSize < 2 ^ 20 := by
  rcases h with ⟨hu, -⟩ | ⟨hm, -⟩
  · rw [hu.size]
    decide
  · obtain ⟨haddr, hsize⟩ := hr.margin hm
    have hrange := marginRange_size s.virtioRecvQueue s.seq.mType
    simp only [sizeSendbufData] at hsize
    omega

theorem SeqLabels.carries {mem : GuestMem} {s : Client} (h : SeqLabels s.seq) (hr : Ranges s)
    (hact : s.seq.Active) (hbusy : s.seq.Busy) {p : ProtoId} (hp : p ≠ .dataCpu) :
    Carries mem { seqMsgNext mem s.seq with protoId := p } := by
  have hbound := h.bound
  have hsize := sendSize_lt hr hact
  have hlt := hbusy.2
  have hpos : 0 < s.seq.sendSize := by omega
  refine Carries.of_mem hp ?_ ?_ ?_
  · simp only [seqMsgNext, h.addr, h.aligned]
  · simp only [seqMsgNext, h.addr]
    simp only [sizeSendbufData] at hbound
    omega
  · simp only [seqMsgNext, hbusy.1]
    omega

theorem QueueCarries.append {mem : GuestMem} {s s' : Client} (h : QueueCarries mem s)
    {r : TcpAnswer} {q : Queued} (ho : Offers r q s s') (hq : Carries mem q.msg) :
    QueueCarries mem s' := by
  intro x hx
  rw [ho.queue, List.mem_append] at hx
  rcases hx with hx | hx
  · exact h x hx
  · split at hx
    · rw [List.mem_singleton.mp hx]
      exact hq
    · cases hx

theorem ReqLabels.carries {mem : GuestMem} {q : ReqState} (h : ReqLabels q)
    (hlow : q.msg.addrToMigrate < 2 ^ 36) (f : ReplyFn) {p : ProtoId} (hp : p ≠ .dataCpu) :
    Carries mem { replyMsg mem f q with protoId := p } := by
  have haligned := h.aligned
  refine Carries.of_mem hp ?_ hlow (lt_trans (h.batch f) (by decide))
  show q.msg.addrToMigrate % 8 = 0
  simp only [addrOffset] at haligned
  omega

theorem keeps_carries (mem : GuestMem) :
    Keeps mem (fun p s => (coverBaseAt mem p s ∧ turnAt p s) ∧ QueueCarries mem s)
      fun _ s => QueueCarries mem s := by
  rintro p s p' s' hp ⟨⟨⟨⟨⟨⟨⟨hc, hl⟩, hrange⟩, hr⟩, hcont⟩, hprotos⟩, ht⟩, h⟩
  cases hp with
  | replyMore =>
    have hproto := hr.1.proto (by simp [hr.2])
    exact h.append (offers_tcpWrite _ rfl)
      (hl.2.carries ht.low _ (p := s.req.msg.protoId) (by simp [hproto]))
  | replyLast => exact h.append (offers_tcpWrite _ rfl) (hl.2.carries ht.low _ (by simp))
  | marginMore =>
    have hproto := hprotos.dataMem hc.2 hcont.2
    exact h.append (offers_tcpWrite _ rfl)
      (hl.1.carries hrange hc.2 hcont.2 (p := s.seq.seqMsg.protoId) (by simp [hproto]))
  | marginMoreFailed =>
    have hproto := hprotos.dataMem hc.2 hcont.2
    exact h.append (offers_tcpWrite _ rfl)
      (hl.1.carries hrange hc.2 hcont.2 (p := s.seq.seqMsg.protoId) (by simp [hproto]))
  | marginBatchEnd =>
    have hproto := hprotos.dataMem hc.2 hcont.2
    exact h.append (offers_tcpWrite _ rfl)
      (hl.1.carries hrange hc.2 hcont.2 (p := s.seq.seqMsg.protoId) (by simp [hproto]))
  | marginBuffEnd =>
    exact h.append (offers_tcpWrite _ rfl) (hl.1.carries hrange hc.2 hcont.2 (by simp))
  | unitEnd =>
    have hproto := hprotos.dataMem hc.2 hcont.2
    refine h.append (offers_tcpWrite _ rfl) (hl.1.carries hrange hc.2 hcont.2 ?_)
    split <;> simp [hproto]
  | readyLessSent =>
    have hless := hl.1.startMarginLessThan1kb
    have hbound := hless.bound
    refine QueueCarries.append (s := s) h (offers_tcpWrite _ rfl) (Carries.of_mem ?_ ?_ ?_ ?_)
    · simp [seqMsgLessThan1kb, startMarginLessThan1kb]
    · simp only [seqMsgLessThan1kb, hless.addr, hless.aligned]
    · have hpos : (startMarginLessThan1kb s).seq.sendSize = 1 := rfl
      simp only [seqMsgLessThan1kb, hless.addr]
      simp only [hpos, sizeSendbufData] at hbound
      omega
    · simp [seqMsgLessThan1kb]
  | threadDone =>
    refine h.append (offers_tcpWrite _ rfl) ⟨by simp, ?_, ?_⟩ <;> simp [BfMsg.IsMem]
  | threadFinishSent =>
    refine QueueCarries.append (s := s) h (offers_tcpWrite _ rfl) ⟨by simp, ?_, ?_⟩ <;>
      simp [BfMsg.IsMem]
  | _ => exact h

theorem queueCarries_start (mem : GuestMem) (q : Nat) (r : TcpAnswer) :
    QueueCarries mem (Client.start mem q r) := by
  intro x hx
  have hcpu : x.msg = cpuMsg mem := by
    cases hw : r.wrote <;> simp [Client.start, TcpPcb.tcpWrite, hw] at hx
    rw [hx]
  rw [hcpu]
  refine ⟨fun _ k => ?_, ?_, ?_⟩
  · simp [cpuMsg, memcpyData]
  · simp [BfMsg.IsMem, cpuMsg]
  · simp [BfMsg.IsMem, cpuMsg]

end OnDemandVirt.Migration
