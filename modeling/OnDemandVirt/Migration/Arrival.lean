import OnDemandVirt.Migration.Once
import OnDemandVirt.Migration.TwoParty

/-!
# The order in which messages arrive

A message that sets the bit of its unit comes after the bytes of the unit, and the memory around
the virtio ring after the margins (`keeps_inOrder`). Where every message arrives in a chain of its
own, `echo_recv` acts on the messages in this order, but on the first only with the second and never
on the second (`TwoParty.Arrived`).
-/

namespace OnDemandVirt.Migration

open Lib

/-! ### The order of the queue -/

/-- The byte is in a margin of `margin_list`. -/
def InMargins (x : Nat) : Prop :=
  ∃ t : MarginType, t.index < 7 ∧ (areaAt marginList t.index).Holds x

/-- When a message sets the bit of its unit, the usable bytes of the unit have been sent, except for
margins; when the memory around the virtio ring is over, the margins have been sent too. -/
structure InOrder (pre : List Queued) (q : Queued) : Prop where
  unit : q.msg.Ends → ∀ x, SameUnit x q.msg.addrToMigrate → Usable x →
    (∃ w ∈ pre ++ [q], Names w x) ∨ InMargins x
  margins : q.msg.protoId = .buffMem → ∀ t : MarginType, t.index < 7 → CoversMargin pre t

/-- A message that is neither the last one of a unit nor of the memory around the virtio ring. -/
theorem InOrder.of_not_ends {pre : List Queued} {q : Queued} (h : ¬ q.msg.Ends)
    (hbuff : q.msg.protoId ≠ .buffMem) : InOrder pre q :=
  ⟨fun hends => absurd hends h, fun hb => absurd hb hbuff⟩

/-- The units in which margins begin have no other usable bytes. -/
theorem inMargins_of_unit (q : Nat) {t : MarginType} (ht : t ≠ .marginBuff) (ht' : t ≠ .noMargin)
    {x : Nat} (hx : SameUnit x (marginRange q t).1) (hu : Usable x) : InMargins x := by
  rcases hu.cases with hm | hg
  · exact hm
  · have hunit : x / addrOffset * addrOffset / addrOffset = (marginRange q t).1 / addrOffset := by
      rw [Nat.mul_div_cancel _ (by decide)]
      exact hx
    by_cases hsp : t = .margin06sp
    · have hsame : (marginRange q t).1 / addrOffset = (marginRange q .margin00).1 / addrOffset := by
        simp [hsp, marginRange, areaAt, marginList, MarginType.index, addrOffset]
      rw [hsame] at hunit
      exact absurd hunit (not_isGranUnit_margin q (by decide) (by decide) hg)
    · exact absurd hunit (not_isGranUnit_margin q ⟨hsp, ht'⟩ ht hg)

/-- The blocks of a unit, the last one in the message itself. -/
theorem InOrder.of_blocks {queue : List Queued} {q : Queued} (hmem : q.msg.IsMem)
    (haligned : q.msg.addrToMigrate % addrOffset = 0) (hbatch : q.msg.batchNum + 1 = batchSize)
    (hlen : q.msg.protoId ≠ .dataMemSp) (hbuff : q.msg.protoId ≠ .buffMem)
    (h : ∀ i < q.msg.batchNum,
      Covers queue (q.msg.addrToMigrate + sizeSendbufData * i) sizeSendbufData) :
    InOrder queue q := by
  refine ⟨fun _ x hx hu => .inl ?_, fun hb => absurd hb hbuff⟩
  simp only [SameUnit, addrOffset, sizeSendbufData, batchSize] at hx haligned hbatch h
  rcases Nat.lt_or_ge x (q.msg.addrToMigrate + 1024 * q.msg.batchNum) with hlt | hge
  · obtain ⟨w, hw, hname⟩ := h ((x - q.msg.addrToMigrate) / 1024) (by omega) x (by omega)
      (by omega) hu
    exact ⟨w, List.mem_append_left _ hw, hname⟩
  · refine ⟨q, List.mem_append_right _ (List.mem_singleton.mpr rfl), hmem, hge, ?_⟩
    rw [BfMsg.dataLen, if_neg hlen, BfMsg.target]
    simp only [sizeSendbufData]
    omega

theorem keeps_inOrder (mem : GuestMem) :
    Keeps mem (fun p s => ((coverBaseAt mem p s ∧ turnAt p s) ∧ (NothingLost s → Coverage s)) ∧
        (NothingLost s → AtEach InOrder s.tcp.queue))
      fun _ s => NothingLost s → AtEach InOrder s.tcp.queue := by
  rintro p s p' s' hp ⟨⟨⟨⟨⟨⟨⟨⟨hc, hl⟩, hrange⟩, hr⟩, hcont⟩, hprotos⟩, ht⟩, hcov⟩, h⟩ hlost
  have hlost' := NothingLost.of_piece hp hlost
  have hcov := hcov hlost'
  have h := h hlost'
  cases hp with
  | @replyMore f _ _ _ hmore =>
    refine AtEach.offers (offers_tcpWrite _ rfl) h (InOrder.of_not_ends ?_ ?_)
    · have hproto := hr.1.proto (by simp [hr.2])
      have hsize := ht.size (by simp [hr.2])
      simp [BfMsg.Ends, replyMsg, hproto, BfMsg.lastOfBatch, hsize]
      omega
    · simp [replyMsg, hr.1.proto (by simp [hr.2])]
  | @replyLast f _ _ _ _ hlast =>
    have hfull : s.req.batch f + 1 = batchSize := Nat.le_antisymm (hl.2.batch f) hlast
    refine AtEach.offers (offers_tcpWrite _ rfl) h ?_
    exact InOrder.of_blocks (.inr (.inl rfl)) hl.2.aligned hfull (by simp) (by simp)
      (hcov.replying f hr.2)
  | marginMore _ hmore =>
    refine AtEach.offers (offers_tcpWrite _ rfl) h (InOrder.of_not_ends ?_ ?_)
    · exact hprotos.not_ends mem hl.1 hrange hc.2 hcont.2 hmore
    · simp [seqMsgNext, hprotos.dataMem hc.2 hcont.2]
  | marginMoreFailed _ hmore =>
    refine AtEach.offers (offers_tcpWrite _ rfl) h (InOrder.of_not_ends ?_ ?_)
    · exact hprotos.not_ends mem hl.1 hrange hc.2 hcont.2 hmore
    · simp [seqMsgNext, hprotos.dataMem hc.2 hcont.2]
  | marginBatchEnd _ _ hnext =>
    have hm := (hc.1.inMargin_of_active hc.2 (MarginType.next_ne hnext).1).1
    have hbuff : s.seq.mType ≠ .marginBuff := fun hb => by simp [hb, MarginType.next] at hnext
    refine AtEach.offers (offers_tcpWrite _ rfl) h ⟨fun _ x hx hu => .inr ?_, ?_⟩
    · refine inMargins_of_unit s.virtioRecvQueue hbuff hm.whole.2 ?_ hu
      rw [← (hrange.margin hm).1, ← hl.1.addr]
      exact hx
    · simp [seqMsgNext, hprotos.dataMem hc.2 hcont.2]
  | marginBuffEnd _ hlast htype =>
    have hm := (hc.1.inMargin_of_active hc.2 (by simp [htype])).1
    refine AtEach.offers (offers_tcpWrite _ rfl) h ⟨fun _ x hx hu => .inl ?_, fun _ t htt => ?_⟩
    · have hsize := (hrange.sendSize hm).1 htype
      have haddr := (hrange.margin hm).1
      have hv := virtioQueue64_eq s.virtioRecvQueue
      rw [htype, marginRange, if_pos rfl] at haddr
      have hunit : Covers s.tcp.queue s.seq.startAddr addrOffset := by
        refine covers_of_blocks (n := batchSize) fun i hi => ?_
        refine hcov.sending hcont.2 (.inr hm) i ?_ fun _ => hi
        simp only [batchSize] at hi
        omega
      have hx : x / addrOffset = s.seq.startAddr / addrOffset := by
        rw [← hl.1.addr]
        exact hx
      simp only [addrOffset] at hx hunit
      obtain ⟨w, hw, hname⟩ := hunit x (by omega) (by omega) hu
      exact ⟨w, List.mem_append_left _ hw, hname⟩
    · exact hcov.margins t (by rw [htype]; exact htt) htt
  | unitEnd _ hlast htype =>
    have hunit := Control.inUnit_of_active hc.2 htype
    have hgran := hrange.unit hunit.transmitting
    have hbusy := hcont.2
    have hlt := hbusy.2
    rw [hunit.size] at hlt hlast
    have hproto := hprotos.unit hunit.transmitting hbusy
    refine AtEach.offers (offers_tcpWrite _ rfl) h (InOrder.of_blocks ?_ ?_ ?_ ?_ ?_ ?_)
    · simp only [BfMsg.IsMem]
      split <;> simp [hproto]
    · simpa [seqMsgNext, hl.1.addr] using hgran.1
    · simp only [seqMsgNext, hbusy.1]
      exact Nat.le_antisymm hlt hlast
    · split <;> simp [hproto]
    · split <;> simp [hproto]
    · simp only [seqMsgNext, hbusy.1, hl.1.addr]
      exact fun i hi => hcov.sending hbusy (.inl hunit.transmitting) i hi fun hb => by
        simp [htype] at hb
  | readyLessSent htype =>
    refine AtEach.offers (s := s) (offers_tcpWrite _ rfl) h ⟨fun _ x hx hu => .inr ?_, ?_⟩
    · refine inMargins_of_unit s.virtioRecvQueue (t := s.seq.mType) (by simp [htype])
        (by simp [htype]) ?_ hu
      have haddr := hl.1.startMarginLessThan1kb.addr
      rw [show (startMarginLessThan1kb s).seq.startAddr =
        (marginRange s.virtioRecvQueue s.seq.mType).1 from rfl] at haddr
      rw [← haddr]
      exact hx
    · simp [seqMsgLessThan1kb, startMarginLessThan1kb]
  | threadDone =>
    exact AtEach.offers (offers_tcpWrite _ rfl) h
      (InOrder.of_not_ends (by simp [BfMsg.Ends]) (by simp))
  | threadFinishSent =>
    exact AtEach.offers (s := s) (offers_tcpWrite _ rfl) h
      (InOrder.of_not_ends (by simp [BfMsg.Ends]) (by simp))
  | _ => exact h

/-! ### What the server acts on -/

/-- Of the messages that arrive one by one, `echo_recv` acts on the first when the second one
arrives, never on the second, and on every later one. -/
def actedOn : List BfMsg → List BfMsg
  | m :: _ :: ms => m :: ms
  | _ => []

/-- The message that is kept until the next one arrives. -/
def keptOf : List BfMsg → List BfMsg
  | [m] => [m]
  | _ => []

/-- The messages that have arrived. -/
def TwoParty.arrived (s : TwoParty) : List BfMsg := (s.client.tcp.queue.take s.got).map Queued.msg

/-- Every message arrives in a chain of its own, the first one is not sent back, and the thread
does not retry a refused last message. -/
def TwoParty.Orderly (s : TwoParty) : TwoPartyEvent → Prop
  | .client e => ¬ RetriesRefused s.client e
  | .recv more => more = 0
  | .poll n => n = 0
  | _ => True

/-- What `echo_recv` did with the messages that arrived. -/
structure TwoParty.Arrived (s : TwoParty) : Prop where
  acted : s.server.acted = actedOn s.arrived
  kept : s.server.p = keptOf s.arrived
  state : s.server.state = .accepted ↔ s.arrived = []

theorem TwoParty.Arrived.recv {s : TwoParty} (h : s.Arrived) (m : BfMsg) {s' : TwoParty}
    (hserver : s'.server = s.server.echoRecv [m]) (harrived : s'.arrived = s.arrived ++ [m]) :
    s'.Arrived := by
  obtain ⟨hacted, hkept, hstate⟩ := h
  have hnil : (s.arrived ++ [m] = []) = False := by simp
  rcases Server.echoRecv_cases [m] s.server with ⟨hs, he⟩ | ⟨hs, ⟨hn, -⟩ | ⟨x, rest, hx, he⟩⟩
  · rw [hstate.mp hs] at hacted harrived
    rw [he] at hserver
    refine ⟨?_, ?_, ?_⟩ <;> rw [harrived, hserver]
    · exact hacted
    · rfl
    · simp
  · exact absurd hn (by simp)
  · rw [he] at hserver
    rw [hkept] at hx
    have hne : s.arrived ≠ [] := fun hn => by
      rw [hstate.mpr hn] at hs
      cases hs
    have hstate' : (Server.act x s.server).state = .received :=
      (Server.act_frame (s := s.server) (m := x)).2.2.2.trans hs
    refine ⟨?_, ?_, ?_⟩ <;> rw [harrived, hserver]
    · show s.server.acted ++ [x] = _
      rw [hacted]
      generalize s.arrived = ms at hx hne
      rcases ms with _ | ⟨a, _ | ⟨b, t⟩⟩
      · exact absurd rfl hne
      · cases hx
        rfl
      · cases hx
        rfl
    · generalize s.arrived = ms at hne
      rcases ms with _ | ⟨a, _ | ⟨b, t⟩⟩
      · exact absurd rfl hne
      · rfl
      · rfl
    · simp [hstate']

namespace TwoParty

variable {mem before : GuestMem} {s s' : TwoParty}

theorem Arrived.of_server (h : s.Arrived) (hacted : s'.server.acted = s.server.acted)
    (hp : s'.server.p = s.server.p) (hstate : s'.server.state = s.server.state)
    (harrived : s'.arrived = s.arrived) : s'.Arrived := by
  refine ⟨?_, ?_, ?_⟩ <;> rw [harrived]
  · rw [hacted, h.acted]
  · rw [hp, h.kept]
  · rw [hstate, h.state]

theorem Arrived.step {e : TwoPartyEvent} (h : s.Arrived) (hgot : s.got ≤ s.client.tcp.queue.length)
    (hC : s.Orderly e) (hstep : s.Moves mem e s') : s'.Arrived := by
  cases hstep with
  | client _ hc =>
    obtain ⟨l, hl⟩ := (keeps_queue mem s.client.tcp.queue).step (List.prefix_refl _) hc
    refine h.of_server rfl rfl rfl ?_
    rw [arrived, arrived, ← hl, List.take_append_of_le_length hgot]
  | recv hlt =>
    cases hC
    have hlt : s.got < s.client.tcp.queue.length := hlt
    have hget : (s.client.tcp.queue.drop s.got).take 1 = [s.client.tcp.queue[s.got]] := by
      rw [List.drop_eq_getElem_cons hlt]
      rfl
    refine h.recv (s.client.tcp.queue[s.got]).msg ?_ ?_
    · simp only [Nat.zero_add, hget]
      rfl
    · simp only [arrived, Nat.zero_add, List.take_succ_eq_append_getElem hlt, List.map_append]
      rfl
  | poll =>
    cases hC
    exact h.of_server rfl rfl rfl rfl
  | resume => exact h.of_server rfl rfl rfl rfl
  | @fault gphys _ =>
    have hframe : (s.server.eptViolation gphys).acted = s.server.acted ∧
        (s.server.eptViolation gphys).p = s.server.p ∧
        (s.server.eptViolation gphys).state = s.server.state := by
      unfold Server.eptViolation
      split <;> exact ⟨rfl, rfl, rfl⟩
    exact h.of_server hframe.1 hframe.2.1 hframe.2.2 rfl
  | map => exact h.of_server rfl rfl rfl rfl

/-- A message that has arrived is acted on, unless it is the second one. -/
theorem Arrived.acted_or_second (h : s.Arrived) {P : BfMsg → Prop} (hany : s.server.Acted P)
    {w : Queued} (hw : w ∈ s.client.tcp.queue.take s.got) :
    w.msg ∈ s.server.acted ∨ s.client.tcp.queue[1]? = some w := by
  obtain ⟨m, hm, -⟩ := hany
  have hsplit := List.take_append_drop s.got s.client.tcp.queue
  rw [h.acted, arrived] at hm ⊢
  generalize s.client.tcp.queue.take s.got = l at hm hw hsplit ⊢
  rcases l with _ | ⟨a, _ | ⟨b, t⟩⟩
  · cases hm
  · cases hm
  · rcases List.mem_cons.mp hw with rfl | hw
    · exact .inl List.mem_cons_self
    · rcases List.mem_cons.mp hw with rfl | hw
      · rw [← hsplit]
        exact .inr rfl
      · exact .inl (List.mem_cons_of_mem _ (List.mem_map_of_mem hw))

/-- What was acted on has arrived. -/
theorem Arrived.of_acted (h : s.Arrived) {P : BfMsg → Prop} (hany : s.server.Acted P) :
    ∃ q ∈ s.client.tcp.queue.take s.got, P q.msg := by
  obtain ⟨m, hm, hP⟩ := hany
  rw [h.acted, arrived] at hm
  generalize s.client.tcp.queue.take s.got = l at hm ⊢
  rcases l with _ | ⟨a, _ | ⟨b, t⟩⟩
  · cases hm
  · cases hm
  · rcases List.mem_cons.mp hm with rfl | hm
    · exact ⟨a, List.mem_cons_self, hP⟩
    · obtain ⟨q, hq, rfl⟩ := List.mem_map.mp hm
      exact ⟨q, List.mem_cons_of_mem _ (List.mem_cons_of_mem _ hq), hP⟩

end TwoParty

/-! ### Runs -/

/-- The order of the client's queue with what it rests on. -/
def orderAt (mem : GuestMem) : Assertion := fun p s =>
  (((coverBaseAt mem p s ∧ turnAt p s) ∧ (NothingLost s → Coverage s)) ∧
    (NothingLost s → AtEach InOrder s.tcp.queue)) ∧ Once s ∧ AtEach Fresh s.tcp.queue

theorem keeps_order (mem : GuestMem) : Keeps mem (orderAt mem) (orderAt mem) :=
  ((((keeps_coverBase mem).and (keeps_turns mem)).and fun _ _ _ _ hp h =>
    keeps_coverage mem hp ⟨h.1.1, h.2⟩).and (keeps_inOrder mem)).and fun _ _ _ _ hp h =>
      ⟨keeps_once mem hp ⟨h.1.1.1, h.2.1⟩, keeps_fresh mem hp ⟨⟨h.1.1.1, h.2.1⟩, h.2.2⟩⟩

/-- What is known of orderly runs. -/
structure TwoParty.Ordered (mem before : GuestMem) (s : TwoParty) : Prop where
  flow : s.Flow mem before
  arrived : s.Arrived
  coverage : NothingLost s.client → Coverage s.client
  order : NothingLost s.client → AtEach InOrder s.client.tcp.queue
  once : Once s.client
  fresh : AtEach Fresh s.client.tcp.queue

namespace TwoParty.Ordered

variable {mem before : GuestMem} {s s' : TwoParty}

theorem init (h : (twoPartyMachine mem before).init s) : s.Ordered mem before := by
  have hflow := TwoParty.Flow.init h
  obtain ⟨c, ⟨q, r, -, rfl⟩, rfl⟩ := h
  refine ⟨hflow, ⟨rfl, rfl, iff_of_true rfl rfl⟩, fun _ => Coverage.start mem q r, fun _ => ?_,
    once_start mem q r, fresh_start mem q r⟩
  have hnil : AtEach InOrder [] := AtEach.nil _
  cases hw : r.wrote with
  | false => simpa [Client.start, TcpPcb.tcpWrite, hw] using hnil
  | true =>
    have hcpu : InOrder [] ⟨.echoClientSend, cpuMsg mem⟩ :=
      .of_not_ends (by simp [BfMsg.Ends, cpuMsg]) (by simp [cpuMsg])
    simpa [Client.start, TcpPcb.tcpWrite, hw] using hnil.append hcpu

/-- A step that leaves the client. -/
theorem of_client (h : s.Ordered mem before) (hclient : s'.client = s.client)
    (hflow : s'.Flow mem before) (harrived : s'.Arrived) : s'.Ordered mem before := by
  refine ⟨hflow, harrived, ?_, ?_, ?_, ?_⟩ <;> rw [hclient]
  · exact h.coverage
  · exact h.order
  · exact h.once
  · exact h.fresh

theorem step {e : TwoPartyEvent} (h : s.Ordered mem before) (hC : s.Orderly e)
    (hstep : s.Moves mem e s') : s'.Ordered mem before := by
  have harrived := h.arrived.step h.flow.got hC hstep
  cases hstep with
  | client hrequests hc =>
    have hmoves := TwoParty.Moves.client hrequests hc
    have howed := fun hne => h.flow.owed_nil hne hrequests
    have hbase := clientAt_start h.flow.client hC howed
    have horder := (keeps_order mem).step
      ⟨⟨⟨hbase.1.1, h.coverage⟩, h.order⟩, h.once, h.fresh⟩ hc
    exact ⟨h.flow.client_step hC hmoves, harrived, horder.1.1.2, horder.1.2, horder.2.1, horder.2.2⟩
  | recv hlt => exact h.of_client rfl (h.flow.recv_step (.recv hlt)) harrived
  | poll hle => exact h.of_client rfl (h.flow.poll_step (.poll hle)) harrived
  | resume hs hv => exact h.of_client rfl (h.flow.resume_step (.resume hs hv)) harrived
  | fault hr => exact h.of_client rfl (h.flow.fault_step (.fault hr)) harrived
  | map hw he => exact h.of_client rfl (h.flow.map_step (.map hw he)) harrived

end TwoParty.Ordered

theorem ordered_of_reachable {mem before : GuestMem} {s : TwoParty}
    (hs : (twoPartyMachine mem before).ReachableWhen TwoParty.Orderly s) : s.Ordered mem before :=
  hs.invariant (fun _ hs => TwoParty.Ordered.init hs) fun _ _ _ h hc hstep =>
    h.step hc (TwoParty.moves hstep)

end OnDemandVirt.Migration
