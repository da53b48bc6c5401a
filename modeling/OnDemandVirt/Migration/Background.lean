import OnDemandVirt.Migration.Coverage

/-!
# The background copy reaches its end

From a state between two units, with no request to answer and a connection that takes every
message, the thread sends one unit in each pass, until no unit is left and the message that ends
the migration is queued (`background_finishes`). What it sends on the way lies in the units of
`usable_mem_list_gran`, so a byte of a margin that was lost before stays lost
(`not_complete_lostMargin`).
-/

namespace OnDemandVirt.Migration

open Lib

/-- The thread is about to start a unit, and no request is in the way. -/
structure BetweenUnits (s : Client) : Prop extends SeqTurn s where
  off : s.seq.isTransmitting = false
  free : s.req.requestRecvDisrupted = false

/-- The message names bytes of a unit of the background copy. -/
def UnitMsg (q : Queued) : Prop := IsGranUnit q.msg.addrToMigrate ∧ q.msg.batchNum < batchSize

/-- A pass of the thread for which there is room for a whole unit. -/
def goodPass : ClientEvent := .thread (List.replicate batchSize goodAnswer)

/-- While a unit is sent in a good pass that began in `s₀`. -/
structure SendingUnit (s₀ : Client) (tcp : List TcpAnswer) (s : Client) : Prop where
  started : BetweenUnits s₀
  tcp : tcp = List.replicate (batchSize - s.seq.sendNum) goodAnswer
  req : s.req = s₀.req
  running : s.seq.thread = .running
  unit : s.seq.InUnit
  busy : s.seq.Busy
  gran : IsGranUnit s.seq.startAddr
  next : s₀.seq.nextStart < s.seq.nextStart
  queue : ∀ q ∈ s.tcp.queue, q ∈ s₀.tcp.queue ∨ UnitMsg q
  refused : s.tcp.refused = s₀.tcp.refused

/-- After a good pass that began in `s₀`: a unit further on, or at the end. -/
def Passed (s₀ s : Client) : Prop :=
  s.tcp.refused = s₀.tcp.refused ∧
    ((BetweenUnits s ∧ s₀.seq.nextStart < s.seq.nextStart ∧
      ∀ q ∈ s.tcp.queue, q ∈ s₀.tcp.queue ∨ UnitMsg q) ∨
      ∃ q, s.tcp.queue = s₀.tcp.queue ++ [q] ∧ q.msg.protoId = .migDone)

/-- A good pass that began in `s₀`, at each point. -/
def passAt (s₀ : Client) : Assertion
  | .start e, s => s = s₀ ∧ BetweenUnits s ∧ e = goodPass
  | .margin tcp, s => SendingUnit s₀ tcp s
  | .idle, s => Passed s₀ s
  | _, _ => False

theorem goodAnswer_available : tcpSendbufAvailable goodAnswer.sndbuf = true := by decide

/-- There is room until the unit is sent. -/
theorem SendingUnit.cons {s₀ s : Client} {r : TcpAnswer} {rs : List TcpAnswer}
    (h : SendingUnit s₀ (r :: rs) s) :
    r = goodAnswer ∧ rs = List.replicate (batchSize - (s.seq.sendNum + 1)) goodAnswer := by
  have hlt : s.seq.sendNum < batchSize := h.unit.size ▸ h.busy.2
  have htcp := h.tcp
  rw [show batchSize - s.seq.sendNum = batchSize - (s.seq.sendNum + 1) + 1 by omega,
    List.replicate_succ, List.cons.injEq] at htcp
  exact htcp

theorem SendingUnit.unitMsg {mem : GuestMem} {s₀ s : Client} {tcp : List TcpAnswer}
    (h : SendingUnit s₀ tcp s) (hl : SeqLabels s.seq) {p : ProtoId} :
    UnitMsg ⟨.sendMargin, { seqMsgNext mem s.seq with protoId := p }⟩ := by
  refine ⟨?_, ?_⟩
  · show IsGranUnit s.seq.seqMsg.addrToMigrate
    rw [hl.addr]
    exact h.gran
  · show s.seq.batch < batchSize
    rw [h.busy.1, ← h.unit.size]
    exact h.busy.2

theorem SendingUnit.not_full {s₀ s : Client} {tcp : List TcpAnswer} (h : SendingUnit s₀ tcp s) :
    ¬ Full tcp := by
  have hlt : s.seq.sendNum < batchSize := h.unit.size ▸ h.busy.2
  rw [h.tcp, show batchSize - s.seq.sendNum = batchSize - (s.seq.sendNum + 1) + 1 by omega,
    List.replicate_succ]
  intro hfull
  have := hfull goodAnswer (by simp)
  rw [goodAnswer_available] at this
  cases this

theorem refused_of_offers {r : TcpAnswer} {q : Queued} {s s' : Client} (h : Offers r q s s')
    (hw : r.wrote = true) : s'.tcp.refused = s.tcp.refused := by
  rw [h.refused, hw]
  simp

theorem mem_of_offers {r : TcpAnswer} {q : Queued} {s s' : Client} (h : Offers r q s s') {x : Queued}
    (hx : x ∈ s'.tcp.queue) : x ∈ s.tcp.queue ∨ x = q := by
  rw [h.queue, List.mem_append] at hx
  rcases hx with hx | hx
  · exact .inl hx
  · cases hw : r.wrote <;> simp [hw] at hx
    exact .inr hx

/-- The pieces of a good pass. -/
theorem keeps_pass (mem : GuestMem) (s₀ : Client) :
    Keeps mem (fun p s => baseAt p s ∧ passAt s₀ p s) (passAt s₀) := by
  rintro p s p' s' hp ⟨⟨⟨hc, hl⟩, hrange⟩, h⟩
  cases hp with
  | marginMore _ hmore =>
    obtain ⟨rfl, hrs⟩ := h.cons
    have ho : Offers goodAnswer ⟨.sendMargin, seqMsgNext mem s.seq⟩ s (marginMore mem goodAnswer s) :=
      offers_tcpWrite _ rfl
    obtain ⟨hbusy, hin⟩ := (hc.1.marginMore hc.2 hmore _).1.resumes (by simp [marginMore])
    refine ⟨h.started, hrs, h.req, h.running, ?_, hbusy, h.gran, h.next, fun q hq => ?_,
      (refused_of_offers ho rfl).trans h.refused⟩
    · exact ⟨h.unit.transmitting, h.unit.thread, h.unit.notDone, h.unit.size⟩
    · rcases mem_of_offers ho hq with hq | rfl
      · exact h.queue q hq
      · exact .inr (h.unitMsg hl.1)
  | marginMoreFailed _ _ hw =>
    obtain ⟨rfl, -⟩ := h.cons
    cases hw
  | marginBatchEnd _ _ hnext =>
    exact absurd (hc.1.created h.unit.thread) (MarginType.next_ne hnext).1
  | marginBuffEnd _ _ htype => simp [hc.1.created h.unit.thread] at htype
  | unitEnd =>
    obtain ⟨rfl, -⟩ := h.cons
    have hturn : SeqTurn (unitEnd mem goodAnswer s) :=
      ⟨h.running, h.unit.notDone, by
        show s.req.noRequest = true
        rw [h.req]
        exact h.started.noRequest⟩
    have hfree : s.req.requestRecvDisrupted = false := by
      rw [h.req]
      exact h.started.free
    have ho : Offers goodAnswer ⟨.sendMargin, (unitEnd mem goodAnswer s).seq.seqMsg⟩ s
        (unitEnd mem goodAnswer s) := offers_tcpWrite _ rfl
    refine ⟨(refused_of_offers ho rfl).trans h.refused,
      .inl ⟨⟨hturn, rfl, hfree⟩, h.next, fun q hq => ?_⟩⟩
    rcases mem_of_offers ho hq with hq | rfl
    · exact h.queue q hq
    · exact .inr (h.unitMsg hl.1)
  | marginDefault _ _ htype => simp [hc.1.created h.unit.thread] at htype
  | marginFull hfull => exact absurd hfull h.not_full
  | stay _ hwait =>
    obtain ⟨rfl, hb, -⟩ := h
    rcases hwait with hd | ht | hr
    · simp [hb.notDone] at hd
    · simp [hb.off] at ht
    · simp [hb.noRequest] at hr
  | threadExit _ hdone => simp [h.2.1.notDone] at hdone
  | threadDone _ hdone => simp [h.2.1.notDone] at hdone
  | threadMargin _ htrans => simp [h.2.1.off] at htrans
  | threadClear _ _ hdis => simp [h.2.1.free] at hdis
  | threadDisrupted _ _ _ hdis => simp [h.2.1.free] at hdis
  | @threadUnit _ _ a next hturn hoff _ hstart ha =>
    obtain ⟨rfl, hb, he⟩ := h
    cases he
    have hs := getStartAddr_spec hl.1.walk hstart
    obtain ⟨hu, -, hnext⟩ := hs.unit ha
    have hunit := ((hc.startUnit hturn hoff a next).1.unit rfl).1
    have hlt := lt_of_le_of_lt hs.le hu.lt_next
    rw [← hnext] at hlt
    exact ⟨hb, rfl, rfl, hturn.running, hunit, hc.startUnit_busy hturn hoff _ _, hu, hlt,
      fun q hq => .inl hq, rfl⟩
  | threadFinish _ _ _ hfull =>
    obtain ⟨-, -, he⟩ := h
    cases he
    have := hfull goodAnswer rfl
    rw [goodAnswer_available] at this
    cases this
  | threadFinishSent =>
    obtain ⟨rfl, -, he⟩ := h
    cases he
    refine ⟨?_, .inr ⟨_, TcpPcb.tcpWrite_queue _ goodAnswer _, rfl⟩⟩
    exact (TcpPcb.tcpWrite_refused _ goodAnswer _).trans (List.append_nil _)
  | threadReply _ _ hreq => simp [h.2.1.noRequest] at hreq
  | replyMore => exact h
  | replyLast => exact h.elim
  | replyFull => exact h.elim
  | readyCalled => exact h.elim
  | readyStart => exact h.elim
  | readyLess => exact h.elim
  | readyLessSent => exact h.elim
  | _ => cases h.2.2

/-- One good pass of the thread. -/
theorem goodPass_step (mem : GuestMem) {s : Client} (hbase : baseAt .idle s) (hb : BetweenUnits s) :
    ∃ s', (clientMachine mem).step s goodPass = some s' ∧ baseAt .idle s' ∧ Passed s s' := by
  have hstep : (clientMachine mem).step s goodPass =
      some (seqTransmitThread mem (List.replicate batchSize goodAnswer) s) := if_pos hb.running
  have hkeeps := (keeps_base mem).and (keeps_pass mem s)
  have hstart : baseAt (.start goodPass) s ∧ passAt s (.start goodPass) s := ⟨hbase, rfl, hb, rfl⟩
  obtain ⟨hbase', hpassed⟩ := hkeeps.step hstart hstep
  exact ⟨_, hstep, hbase', hpassed⟩

/-- From a state between two units, good passes lead to the message that ends the migration. They
queue nothing but messages of units before it, and no message is refused. -/
theorem background_finishes {mem : GuestMem} {C : Client → ClientEvent → Prop}
    (hC : ∀ s, BetweenUnits s → C s goodPass) {s : Client}
    (hs : (clientMachine mem).ReachableWhen C s) (hb : BetweenUnits s) :
    ∃ s' pre q, (clientMachine mem).ReachableWhen C s' ∧ s'.tcp.refused = s.tcp.refused ∧
      s'.tcp.queue = pre ++ [q] ∧ q.msg.protoId = .migDone ∧
        ∀ x ∈ pre, x ∈ s.tcp.queue ∨ UnitMsg x := by
  -- every pass that does not end the migration moves the walk on
  induction hn : endOfMemory - s.seq.nextStart using Nat.strong_induction_on generalizing s with
  | _ n ih =>
    have hbase : baseAt .idle s :=
      (keeps_base mem).reachable (fun q r _ => base_start mem q r) (fun _ _ h _ => h) hs
    obtain ⟨s₁, hstep, hbase₁, hrefused, hpassed⟩ := goodPass_step mem hbase hb
    have hs₁ : (clientMachine mem).ReachableWhen C s₁ := .step hs (hC s hb) hstep
    rcases hpassed with ⟨hb₁, hlt, hqueue⟩ | ⟨q, hq, hdone⟩
    · have hle : s₁.seq.nextStart ≤ endOfMemory := by
        rcases hbase₁.1.2.1.walk with he | hu
        · exact he.le
        · exact (lt_trans hu.lt (by decide)).le
      obtain ⟨s', pre, q, hs', hr, heq, hdone, hpre⟩ := ih _ (by omega) hs₁ hb₁ rfl
      refine ⟨s', pre, q, hs', hr.trans hrefused, heq, hdone, fun x hx => ?_⟩
      rcases hpre x hx with hx | hx
      · exact hqueue x hx
      · exact .inr hx
    · exact ⟨s₁, s.tcp.queue, q, hs₁, hrefused, hq, hdone, fun x hx => .inl hx⟩

/-! ### Two runs -/

/-- The acknowledgements that send all margins. -/
def allMarginAcks : List ClientEvent :=
  [17, 4, 16, 4, 20, 12, 1, 384].map fun n => .ack 1 (List.replicate n goodAnswer)

/-- The client after a request for a unit past the margins is answered. -/
def requestAnswered (s : Client) : Client :=
  echoClientRecv (fun _ => 0) 0x100000 (List.replicate batchSize goodAnswer) s

set_option maxRecDepth 100000 in
/-- When all margins are sent, no reply is in progress; after the answer to a request the thread
is between two units. -/
theorem allMargins_run : ((clientMachine fun _ => 0).run freshClient allMarginAcks).map
    (fun s => ((s.req.batch .requested, s.req.batch .disrupted, s.req.requestRecvDisrupted),
      ((requestAnswered s).seq.thread, (requestAnswered s).seq.migrationDone,
        (requestAnswered s).req.noRequest),
      ((requestAnswered s).seq.isTransmitting, (requestAnswered s).req.requestRecvDisrupted,
        (requestAnswered s).tcp.refused.length))) =
      some ((0, 0, false), (.running, false, true), (false, false, 0)) := by
  decide

theorem not_retriesRefused_goodPass {s : Client} (hb : BetweenUnits s) :
    ¬ RetriesRefused s goodPass := by
  rintro ⟨ht, -⟩
  rw [hb.off] at ht
  cases ht

/-- A run that ends with the message that ends the migration, after which all memory is there. -/
theorem complete_allMargins : ∃ s : Client, (∃ q ∈ s.tcp.queue, q.msg.protoId = .migDone) ∧
    DoneAfterComplete s.tcp.queue := by
  obtain ⟨s, hrun, hfields⟩ := Option.map_eq_some_iff.mp allMargins_run
  simp only [Prod.mk.injEq] at hfields
  obtain ⟨⟨hreq, hdis, hdisrupted⟩, ⟨hthread, hdone, hno⟩, hoff, hfree, hrefused⟩ := hfields
  let C : Client → ClientEvent → Prop := fun s e => RequestFits s e ∧ ¬ RetriesRefused s e
  have hstart : (clientMachine fun _ => 0).ReachableWhen C freshClient :=
    .init ⟨0, goodAnswer, by decide, rfl⟩
  have hs : (clientMachine fun _ => 0).ReachableWhen C s := by
    refine hstart.run _ (fun e he t => ?_) hrun
    obtain ⟨n, -, rfl⟩ := List.mem_map.mp he
    exact ⟨trivial, fun h => h⟩
  have hfits : RequestFits s (goodRequest 0x100000 batchSize) :=
    .inr (.inr ⟨hdis, .inl hreq, by simp [hdisrupted]⟩)
  have ht : (clientMachine fun _ => 0).ReachableWhen C (requestAnswered s) :=
    .step hs ⟨hfits, fun h => h⟩ rfl
  obtain ⟨s', pre, q, hs', hkept, hqueue, hq, -⟩ := background_finishes
    (fun t hb => ⟨trivial, not_retriesRefused_goodPass hb⟩) ht ⟨⟨hthread, hdone, hno⟩, hoff, hfree⟩
  rw [List.length_eq_zero_iff.mp hrefused] at hkept
  have hlost : NothingLost s' := by simp [NothingLost, hkept]
  exact ⟨s', ⟨q, by simp [hqueue], hq⟩, complete_of_migrationDone (fun _ => 0) s' hs' hlost⟩

/-- A send buffer with room, and a `tcp_write` that fails. -/
def badAnswer : TcpAnswer := ⟨0xffff, false⟩

/-- Every message of the margins but the last is refused, the one for the first margin's first
kilobyte among them; everything else succeeds, and one request is answered when the margins are
over. -/
def lostMarginsEvents : List ClientEvent :=
  List.replicate 457 (.ack 1 [badAnswer]) ++ [.ack 1 [goodAnswer], goodRequest 0x100000 32]

/-- The byte is not in the message. -/
def missesByte (x : Nat) (q : Queued) : Bool :=
  decide (x < q.msg.target) || decide (q.msg.target + sizeSendbufData ≤ x)

set_option maxRecDepth 100000 in
theorem lostMargin_run :
    ((clientMachine fun _ => 0).run freshClient lostMarginsEvents).map
      (fun s => (s.seq.thread, s.seq.migrationDone, s.req.noRequest, s.seq.isTransmitting,
        s.req.requestRecvDisrupted, s.tcp.queue.all (missesByte 0x98000))) =
      some (.running, false, true, false, false, true) := by
  decide

theorem not_names_of_missesByte {x : Nat} {q : Queued} (h : missesByte x q = true) : ¬ Names q x := by
  rintro ⟨-, h1, h2⟩
  have hlen : q.msg.dataLen ≤ sizeSendbufData := by
    unfold BfMsg.dataLen
    split <;> decide
  simp only [missesByte, Bool.or_eq_true, decide_eq_true_eq] at h
  omega

/-- The messages of units name no byte of the first margin. -/
theorem UnitMsg.not_names {q : Queued} (h : UnitMsg q) : ¬ Names q 0x98000 := by
  rintro ⟨-, h1, h2⟩
  obtain ⟨hu, hbatch⟩ := h
  rw [isGranUnit_iff] at hu
  have hlen : q.msg.dataLen ≤ sizeSendbufData := by
    unfold BfMsg.dataLen
    split <;> decide
  simp only [BfMsg.target, sizeSendbufData, batchSize] at *
  omega

/-- The migration ends although a byte of the first margin was never sent. -/
theorem not_complete_lostMargin : ¬ ∀ (mem : GuestMem) (s : Client),
    (clientMachine mem).Reachable s → DoneAfterComplete s.tcp.queue := by
  intro h
  obtain ⟨s, hrun, hfields⟩ := Option.map_eq_some_iff.mp lostMargin_run
  simp only [Prod.mk.injEq] at hfields
  obtain ⟨hthread, hdone, hreq, hoff, hfree, hqueue⟩ := hfields
  have hs : (clientMachine fun _ => 0).Reachable s :=
    (reachable_start (fun _ => 0) (by decide) goodAnswer).run _ hrun
  obtain ⟨s', pre, q, hs', -, hpre, hq, hnames⟩ := background_finishes (fun _ _ => trivial) hs
    ⟨⟨hthread, hdone, hreq⟩, hoff, hfree⟩
  obtain ⟨x, hx, hname⟩ := h _ s' hs' pre q [] hpre hq 0x98000
    ⟨⟨0x0, 0x9c6f9, by decide⟩, by simp [usableMemList], by decide⟩
  rcases hnames x hx with hx | hx
  · exact not_names_of_missesByte (List.all_eq_true.mp hqueue x hx) hname
  · exact hx.not_names hname

end OnDemandVirt.Migration
