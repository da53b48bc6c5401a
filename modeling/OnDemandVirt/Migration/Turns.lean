import OnDemandVirt.Migration.Server
import OnDemandVirt.Migration.Coverage

/-!
# What the client owes for a request

A processor of the server waits for a `REQ_MEM` message. The client owes it one from the arrival of
the request on: while it answers (`replying`), while it has put the request off until the unit that
is being sent is over (`request_recv_disrupted`), and while it sends the very unit that was asked
for. `keeps_owes` says that a request is passed on through these stages and never doubled: what the
client owes, together with the `REQ_MEM` messages that are still on their way, never gets more than
the one request it came from.
-/

namespace OnDemandVirt.Migration

open Lib

/-- The unit of an address. -/
def unitOf (addr : Nat) : Nat := addr / addrOffset

/-- The units of the `REQ_MEM` messages. -/
def reqUnits (ms : List BfMsg) : List Nat :=
  (ms.filter fun m => m.protoId = .dataReqMem).map fun m => unitOf m.addrToMigrate

/-- The unit that is being sent will end with a `REQ_MEM` message. -/
def EndsAsReply (s : Client) : Prop :=
  s.seq.isTransmitting = true ∧ s.req.requestedAddr = s.seq.startAddr

instance (s : Client) : Decidable (EndsAsReply s) := inferInstanceAs (Decidable (_ ∧ _))

/-- The unit that the client owes a `REQ_MEM` message for. -/
def owed (s : Client) : List Nat :=
  if s.req.replying ≠ none then [unitOf s.req.msg.addrToMigrate]
  else if s.req.requestRecvDisrupted = true ∨ EndsAsReply s then [unitOf s.req.requestedAddr]
  else []

/-- The variables that decide whose turn it is. -/
structure Turns (s : Client) : Prop where
  apart : s.req.requestRecvDisrupted = true → ¬ EndsAsReply s
  marked : s.seq.isTransmitting = true → getBitarray s.bitarray s.seq.startAddr = true
  settled : s.req.replying = none → s.req.requestRecvDisrupted = false →
    s.req.requestedAddr = 0xffffffffffffffff ∨
      getBitarray s.bitarray s.req.requestedAddr = true
  direct : s.req.replying = some .requested → s.req.requestRecvDisrupted = false
  low : s.req.msg.addrToMigrate < 2 ^ 36
  size : s.req.replying ≠ none → s.req.msg.batchSize = batchSize

/-- The turns at each point of a step: a request arrives when nothing is owed. -/
def turnAt : Assertion
  | .start (.request _ _), s => Turns s ∧ owed s = []
  | _, s => Turns s

theorem owed_eq_nil_iff {s : Client} : owed s = [] ↔
    s.req.replying = none ∧ s.req.requestRecvDisrupted = false ∧ ¬ EndsAsReply s := by
  unfold owed
  split_ifs with h1 h2
  · simp [h1]
  · simp only [false_iff, not_and]
    intro _ hdis hends
    rcases h2 with h2 | h2
    · rw [hdis] at h2
      cases h2
    · exact hends h2
  · rw [not_or] at h2
    exact iff_of_true rfl ⟨not_not.mp h1, by simpa using h2.1, h2.2⟩

/-- What is owed depends on a few variables of the requests and on the unit that is being sent. -/
theorem owed_congr {s s' : Client} (hreplying : s'.req.replying = s.req.replying)
    (hdis : s'.req.requestRecvDisrupted = s.req.requestRecvDisrupted)
    (haddr : s'.req.requestedAddr = s.req.requestedAddr)
    (hmsg : s'.req.msg.addrToMigrate = s.req.msg.addrToMigrate)
    (hends : EndsAsReply s' ↔ EndsAsReply s) : owed s' = owed s := by
  simp only [owed, hreplying, hdis, haddr, hmsg, hends]

/-- While no unit is being sent, margins do not matter. -/
theorem owed_of_off {s s' : Client} (hreq : s'.req = s.req)
    (hoff : s.seq.isTransmitting = false) (hoff' : s'.seq.isTransmitting = false) :
    owed s' = owed s := by
  refine owed_congr (by rw [hreq]) (by rw [hreq]) (by rw [hreq]) (by rw [hreq]) ?_
  simp [EndsAsReply, hoff, hoff']

namespace Turns

variable {mem : GuestMem} {s s' : Client}

theorem start (q : Nat) (r : TcpAnswer) : Turns (Client.start mem q r) where
  apart h := by cases h
  marked h := by cases h
  settled _ _ := .inl rfl
  direct h := by cases h
  low := by simp [Client.start, cpuMsg, BfMsg.init]
  size h := absurd rfl h

/-- The margins and units go on, and bits are set. -/
theorem of_same (h : Turns s) (hreq : s'.req = s.req)
    (hbits : ∀ u, getBitarray s.bitarray u = true → getBitarray s'.bitarray u = true)
    (htrans : s'.seq.isTransmitting = true → s.seq.isTransmitting = true)
    (hstart : s'.seq.isTransmitting = true → s'.seq.startAddr = s.seq.startAddr) : Turns s' where
  apart hdis hends := h.apart (hreq ▸ hdis)
    ⟨htrans hends.1, by rw [← hstart hends.1, ← hreq]; exact hends.2⟩
  marked ht := by
    rw [hstart ht]
    exact hbits _ (h.marked (htrans ht))
  settled := by
    rw [hreq]
    exact fun hnone hdis => (h.settled hnone hdis).imp_right (hbits _)
  direct := by rw [hreq]; exact h.direct
  low := by rw [hreq]; exact h.low
  size := by rw [hreq]; exact h.size

end Turns

theorem keeps_turns (mem : GuestMem) :
    Keeps mem (fun p s => coverBaseAt mem p s ∧ turnAt p s) turnAt := by
  rintro p s p' s' hp ⟨⟨⟨⟨⟨⟨hc, hl⟩, -⟩, hr⟩, -⟩, -⟩, h⟩
  cases hp with
  | replyMore => exact ⟨h.apart, h.marked, h.settled, h.direct, h.low, h.size⟩
  | @replyLast f =>
    have hlow := hr.1.low (.inl (by simp [hr.2]))
    have hquiet := hr.1.quiet (by simp [hr.2])
    refine ⟨fun _ hends => ?_, fun ht => ?_, fun _ _ => .inr ?_, by rintro ⟨⟩, h.low,
      fun hne => absurd rfl hne⟩
    · exact absurd (hquiet.symm.trans hends.1) (by simp)
    · exact absurd (hquiet.symm.trans ht) (by simp)
    · simp only [replyLast]
      rw [getBitarray_set _ _ _ (lt_trans hlow (by norm_num))]
      simp
  | replyFull => exact ⟨h.apart, h.marked, h.settled, h.direct, h.low, h.size⟩
  | marginBatchEnd =>
    exact h.of_same rfl (fun u hu => getBitarray_set_mono _ hu) id fun _ => rfl
  | marginBuffEnd =>
    exact h.of_same rfl (fun u hu => getBitarray_set_mono _ hu) id fun _ => rfl
  | @unitEnd r =>
    refine h.of_same rfl (fun u hu => hu) (fun ht => ?_) fun _ => rfl
    simp only [unitEnd] at ht
    split_ifs at ht
    exact ht
  | readyStart =>
    have hoff := hc.1.not_transmitting hc.2.thread
    exact h.of_same rfl (fun u hu => hu) id fun ht => absurd (hoff.symm.trans ht) (by simp)
  | readyLess =>
    have hoff := hc.1.not_transmitting hc.2.thread
    exact h.of_same rfl (fun u hu => hu) id fun ht => absurd (hoff.symm.trans ht) (by simp)
  | readyLessSent =>
    have hoff := hc.1.not_transmitting hc.2.thread
    exact h.of_same rfl (fun u hu => hu) id fun ht => absurd (hoff.symm.trans ht) (by simp)
  | ackCpu => exact ⟨h.apart, h.marked, h.settled, h.direct, h.low, h.size⟩
  | threadClear _ hoff _ hmark =>
    exact ⟨by rintro ⟨⟩, h.marked, fun _ _ => .inr hmark, fun _ => rfl, h.low, h.size⟩
  | threadDisrupted hturn hoff _ hdis =>
    refine ⟨fun _ hends => ?_, h.marked, by rintro ⟨⟩, by rintro ⟨⟩, ?_, fun _ => rfl⟩
    · exact absurd (hoff.symm.trans hends.1) (by simp)
    · exact lt_of_le_of_lt Nat.and_le_left (hr.1.low (.inr hdis))
  | @threadUnit _ _ a next hturn hoff hdis hstart ha =>
    have hu := (getStartAddr_spec hl.1.walk hstart).unit ha
    have hmono : ∀ u, getBitarray s.bitarray u = true →
        getBitarray (setBitarray s.bitarray a) u = true := fun u hu => getBitarray_set_mono _ hu
    refine ⟨fun hd => ?_, fun _ => ?_, fun hnone hd => (h.settled hnone hd).imp_right (hmono _),
      h.direct, h.low, h.size⟩
    · have htrans := hdis hd
      rw [hc.mirror, hoff] at htrans
      cases htrans
    · show getBitarray (setBitarray s.bitarray a) a = true
      rw [getBitarray_set _ _ _ (lt_trans hu.1.lt (by norm_num))]
      simp
  | threadFinish _ hoff =>
    exact h.of_same rfl (fun u hu => hu) (by rintro ⟨⟩) (by rintro ⟨⟩)
  | threadFinishSent _ hoff =>
    exact h.of_same rfl (fun u hu => hu) (by rintro ⟨⟩) (by rintro ⟨⟩)
  | threadReply => exact ⟨h.apart, h.marked, h.settled, h.direct, h.low, h.size⟩
  | requestMarked _ hmark =>
    obtain ⟨hnone, hdis, -⟩ := owed_eq_nil_iff.mp h.2
    refine ⟨fun hd => ?_, h.1.marked, fun _ _ => .inr hmark, h.1.direct, h.1.low, h.1.size⟩
    exact absurd (hdis.symm.trans hd) (by simp)
  | @requestDeferred addr _ _ _ hmark =>
    obtain ⟨hnone, -, -⟩ := owed_eq_nil_iff.mp h.2
    refine ⟨fun _ hends => ?_, h.1.marked, by rintro - ⟨⟩, fun hd => ?_, h.1.low, h.1.size⟩
    · have heq : addr = s.seq.startAddr := hends.2
      have hstart := h.1.marked hends.1
      rw [← heq, hmark] at hstart
      cases hstart
    · exact absurd (hnone.symm.trans hd) (by simp)
  | @requestReply addr _ _ haddr hmark htrans =>
    obtain ⟨-, hdis, -⟩ := owed_eq_nil_iff.mp h.2
    have hoff : s.seq.isTransmitting = false := hc.mirror ▸ htrans
    refine ⟨fun hd => ?_, h.1.marked, by rintro ⟨⟩, fun _ => hdis, ?_, fun _ => rfl⟩
    · exact absurd (hdis.symm.trans hd) (by simp)
    · exact lt_of_le_of_lt Nat.and_le_left (lt_trans (vtMigrationRange_lt haddr) (by norm_num))
  | _ => exact h.of_same rfl (fun u hu => hu) id fun _ => rfl

/-! ### The request on its way -/

/-- The `REQ_MEM` messages from the position `n` of the queue on and what is owed. -/
def underway (n : Nat) (s : Client) : List Nat :=
  reqUnits ((s.tcp.queue.drop n).map Queued.msg) ++ owed s

/-- What is under way at each point of a step comes from the requests `units`. -/
def owesAt (n : Nat) (units : List Nat) : Assertion
  | .start (.request addr _), s =>
    n ≤ s.tcp.queue.length ∧ (unitOf addr :: underway n s).Sublist units
  | _, s => n ≤ s.tcp.queue.length ∧ (underway n s).Sublist units

theorem reqUnits_append (l l' : List BfMsg) : reqUnits (l ++ l') = reqUnits l ++ reqUnits l' := by
  simp [reqUnits]

theorem reqUnits_sublist {l l' : List BfMsg} (h : l.Sublist l') :
    (reqUnits l).Sublist (reqUnits l') :=
  (h.filter _).map _

section
variable {mem : GuestMem} {s s' : Client} {n : Nat} {units : List Nat}

/-- A message that ends no reply changes nothing, where what is owed stays. -/
theorem underway_offers {r : TcpAnswer} {q : Queued} (ho : Offers r q s s')
    (hq : q.msg.protoId ≠ .dataReqMem) (howed : owed s' = owed s) (hn : n ≤ s.tcp.queue.length) :
    underway n s' = underway n s := by
  have hunits : reqUnits ((if r.wrote then [q] else []).map Queued.msg) = [] := by
    cases r.wrote <;> simp [reqUnits, hq]
  rw [underway, underway, howed, ho.queue, List.drop_append_of_le_length hn, List.map_append,
    reqUnits_append, hunits, List.append_nil]

/-- The message that ends a reply takes the place of what was owed. -/
theorem underway_reply {r : TcpAnswer} {q : Queued} {u : Nat} (ho : Offers r q s s')
    (hq : unitOf q.msg.addrToMigrate = u) (howed : owed s = [u]) (howed' : owed s' = [])
    (hn : n ≤ s.tcp.queue.length) (hone : units.length ≤ 1) (h : (underway n s).Sublist units) :
    (underway n s').Sublist units := by
  have hlen := h.length_le
  rw [underway, howed, List.length_append, List.length_singleton] at hlen
  have hpending : reqUnits ((s.tcp.queue.drop n).map Queued.msg) = [] :=
    List.eq_nil_of_length_eq_zero (by omega)
  rw [underway, howed, hpending, List.nil_append] at h
  rw [underway, howed', ho.queue, List.drop_append_of_le_length hn, List.map_append,
    reqUnits_append, hpending, List.append_nil, List.nil_append]
  refine List.Sublist.trans ?_ h
  cases r.wrote with
  | false => exact List.nil_sublist _
  | true =>
    by_cases hproto : q.msg.protoId = .dataReqMem
    · simp [reqUnits, hproto, hq]
    · simp [reqUnits, hproto]

theorem le_length_offers {r : TcpAnswer} {q : Queued} (ho : Offers r q s s')
    (hn : n ≤ s.tcp.queue.length) : n ≤ s'.tcp.queue.length := by
  rw [ho.queue, List.length_append]
  omega

/-- A step that sends no `REQ_MEM` message and leaves what is owed. -/
theorem owes_offers {r : TcpAnswer} {q : Queued} (ho : Offers r q s s')
    (hq : q.msg.protoId ≠ .dataReqMem) (howed : owed s' = owed s)
    (h : n ≤ s.tcp.queue.length ∧ (underway n s).Sublist units) :
    n ≤ s'.tcp.queue.length ∧ (underway n s').Sublist units :=
  ⟨le_length_offers ho h.1, by rw [underway_offers ho hq howed h.1]; exact h.2⟩

/-- A step that sends nothing. -/
theorem owes_same (hqueue : s'.tcp.queue = s.tcp.queue) (howed : owed s' = owed s)
    (h : n ≤ s.tcp.queue.length ∧ (underway n s).Sublist units) :
    n ≤ s'.tcp.queue.length ∧ (underway n s').Sublist units := by
  rw [underway, howed, hqueue]
  exact h

/-- A request that is owed from now on, or dropped. -/
theorem owes_request {addr : Nat} (hqueue : s'.tcp.queue = s.tcp.queue)
    (howed' : (owed s').Sublist [unitOf addr]) (hone : units.length ≤ 1)
    (h : n ≤ s.tcp.queue.length ∧ (unitOf addr :: underway n s).Sublist units) :
    n ≤ s'.tcp.queue.length ∧ (underway n s').Sublist units := by
  have hlen := h.2.length_le
  rw [List.length_cons] at hlen
  have hnil : underway n s = [] := List.eq_nil_of_length_eq_zero (by omega)
  obtain ⟨hpending, -⟩ := List.append_eq_nil_iff.mp hnil
  rw [hnil] at h
  rw [underway, hqueue, hpending, List.nil_append]
  exact ⟨h.1, howed'.trans h.2⟩

end

/-- What `send_margin` is about to send carries memory. -/
theorem Protos.dataMem {s : Client} (h : Protos s) (hact : s.seq.Active) (hbusy : s.seq.Busy) :
    s.seq.seqMsg.protoId = .dataMem := by
  rcases hact with ⟨hu, -⟩ | ⟨hm, -⟩
  · exact h.unit hu.transmitting hbusy
  · exact h.margin hm

/-- The unit of a masked address. -/
theorem unitOf_requestMask {addr : Nat} (h : addr < 2 ^ 64) :
    unitOf (requestMask addr) = unitOf addr := by
  rw [requestMask_eq addr h]
  unfold unitOf addrOffset
  omega

/-- A request stays the one request it is. -/
theorem keeps_owes (mem : GuestMem) (n : Nat) {units : List Nat} (hone : units.length ≤ 1) :
    Keeps mem (fun p s => (coverBaseAt mem p s ∧ turnAt p s) ∧ owesAt n units p s)
      (owesAt n units) := by
  rintro p s p' s' hp ⟨⟨⟨⟨⟨⟨⟨hc, hl⟩, -⟩, hr⟩, hcont⟩, hprotos⟩, ht⟩, h⟩
  cases hp with
  | replyMore =>
    refine owes_offers (s := s) (offers_tcpWrite _ rfl) ?_ (owed_congr rfl rfl rfl rfl Iff.rfl) h
    simp [replyMsg, hr.1.proto (by simp [hr.2])]
  | @replyLast f r =>
    have hoff := hr.1.quiet (by simp [hr.2])
    refine ⟨le_length_offers (offers_tcpWrite (r := r) _ rfl) h.1, ?_⟩
    refine underway_reply (u := unitOf s.req.msg.addrToMigrate) (offers_tcpWrite _ rfl) rfl ?_ ?_
      h.1 hone h.2
    · simp [owed, hr.2]
    · refine owed_eq_nil_iff.mpr ⟨rfl, ?_, fun hends => ?_⟩
      · cases f with
        | requested => exact ht.direct hr.2
        | disrupted => rfl
      · exact absurd (hoff.symm.trans hends.1) (by simp)
  | marginMore =>
    refine owes_offers (s := s) (offers_tcpWrite _ rfl) ?_ (owed_congr rfl rfl rfl rfl Iff.rfl) h
    simp [seqMsgNext, hprotos.dataMem hc.2 hcont.2]
  | marginMoreFailed =>
    refine owes_offers (s := s) (offers_tcpWrite _ rfl) ?_ (owed_congr rfl rfl rfl rfl Iff.rfl) h
    simp [seqMsgNext, hprotos.dataMem hc.2 hcont.2]
  | marginBatchEnd =>
    refine owes_offers (s := s) (offers_tcpWrite _ rfl) ?_ (owed_congr rfl rfl rfl rfl Iff.rfl) h
    simp [seqMsgNext, hprotos.dataMem hc.2 hcont.2]
  | marginBuffEnd =>
    exact owes_offers (s := s) (offers_tcpWrite _ rfl) (by simp)
      (owed_congr rfl rfl rfl rfl Iff.rfl) h
  | @unitEnd r _ _ _ hlast htype =>
    have hunit := Control.inUnit_of_active hc.2 htype
    have hproto := hprotos.unit hunit.transmitting hcont.2
    by_cases haddr : s.req.requestedAddr = s.seq.startAddr
    · -- the unit that was asked for: its last message is the answer
      cases hw : r.wrote with
      | false =>
        refine owes_same (s := s) (by simp [unitEnd, hw]) (owed_congr rfl rfl rfl rfl ?_) h
        simp [EndsAsReply, unitEnd, hw]
      | true =>
        refine ⟨le_length_offers (s := s) (offers_tcpWrite (r := r) _ rfl) h.1, ?_⟩
        refine underway_reply (u := unitOf s.seq.startAddr) (offers_tcpWrite _ rfl) ?_ ?_ ?_ h.1
          hone h.2
        · simp [seqMsgNext, hl.1.addr]
        · simp [owed, hr.2, EndsAsReply, hunit.transmitting, haddr]
        · refine owed_eq_nil_iff.mpr ⟨hr.2, ?_, by simp [EndsAsReply, unitEnd, hw]⟩
          by_contra hdis
          exact ht.apart (by simpa [unitEnd] using hdis) ⟨hunit.transmitting, haddr⟩
    · refine owes_offers (s := s) (offers_tcpWrite _ rfl) ?_ (owed_congr rfl rfl rfl rfl ?_) h
      · simp [haddr, hproto]
      · simp [EndsAsReply, haddr, unitEnd]
  | readyStart =>
    have hoff := hc.1.not_transmitting hc.2.thread
    exact owes_same (s := s) rfl (owed_of_off rfl hoff hoff) h
  | readyLess =>
    have hoff := hc.1.not_transmitting hc.2.thread
    exact owes_same (s := s) rfl (owed_of_off rfl hoff hoff) h
  | readyLessSent =>
    have hoff := hc.1.not_transmitting hc.2.thread
    exact owes_offers (s := s) (offers_tcpWrite _ rfl)
      (by simp [seqMsgLessThan1kb, startMarginLessThan1kb]) (owed_of_off rfl hoff hoff) h
  | threadDone =>
    exact owes_offers (s := s) (offers_tcpWrite _ rfl) (by simp)
      (owed_congr rfl rfl rfl rfl Iff.rfl) h
  | threadClear hturn hoff hdis =>
    have hnone := hr.1.none_of_noRequest hturn.noRequest
    refine ⟨h.1, List.Sublist.trans ?_ h.2⟩
    have howed : owed (setDisrupted false s) = [] :=
      owed_eq_nil_iff.mpr ⟨hnone, rfl, fun hends => absurd (hoff.symm.trans hends.1) (by simp)⟩
    rw [underway, howed, List.append_nil]
    exact List.sublist_append_left _ _
  | threadDisrupted hturn hoff _ hdis =>
    have hnone := hr.1.none_of_noRequest hturn.noRequest
    refine owes_same (s := s) rfl ?_ h
    have hlow := lt_trans (hr.1.low (.inr hdis)) (show 2 ^ 36 < 2 ^ 64 by norm_num)
    simp [owed, startReply, hnone, hdis, selectMemArea, unitOf_requestMask hlow]
  | @threadUnit _ _ a next hturn hoff hdis hstart ha =>
    have hnone := hr.1.none_of_noRequest hturn.noRequest
    have hdis : s.req.requestRecvDisrupted = false := by
      by_contra hd
      have htrans := hdis (by simpa using hd)
      rw [hc.mirror, hoff] at htrans
      cases htrans
    have hunit := (getStartAddr_spec hl.1.walk hstart).unit ha
    have hne : s.req.requestedAddr ≠ a := by
      rintro rfl
      rcases ht.settled hnone hdis with hinit | hmark
      · exact ha hinit
      · exact absurd (hunit.2.1.symm.trans hmark) (by simp)
    refine owes_same (s := s) rfl ?_ h
    have hleft : owed s = [] :=
      owed_eq_nil_iff.mpr ⟨hnone, hdis, fun hends => absurd (hoff.symm.trans hends.1) (by simp)⟩
    rw [hleft]
    exact owed_eq_nil_iff.mpr ⟨hnone, hdis, fun hends => hne hends.2⟩
  | threadFinish _ hoff => exact owes_same (s := s) rfl (owed_of_off (s := s) rfl hoff rfl) h
  | threadFinishSent _ hoff =>
    exact owes_offers (s := s) (offers_tcpWrite _ rfl) (by simp)
      (owed_of_off (s := s) rfl hoff rfl) h
  | requestMarked =>
    refine owes_request (s := s) rfl ?_ hone h
    obtain ⟨hnone, hdis, -⟩ := owed_eq_nil_iff.mp ht.2
    unfold owed
    split_ifs with h1 h2
    · exact absurd hnone h1
    · exact List.Sublist.refl _
    · exact List.nil_sublist _
  | @requestDeferred addr =>
    refine owes_request (s := s) rfl ?_ hone h
    obtain ⟨hnone, hdis, -⟩ := owed_eq_nil_iff.mp ht.2
    simp [owed, setDisrupted, setRequestedAddr, hnone]
  | @requestReply addr _ _ haddr =>
    refine owes_request (s := s) rfl ?_ hone h
    simp [owed, startReply, setRequestedAddr, selectMemArea,
      unitOf_requestMask (vtMigrationRange_lt_word haddr)]
  | _ => exact owes_same (s := s) rfl (owed_congr rfl rfl rfl rfl Iff.rfl) h

end OnDemandVirt.Migration
