import OnDemandVirt.Migration.Background

/-!
# No transfer is left behind

A margin, a background unit and a reply are transfers of a fixed number of messages, begun by one
function and carried on by another: the callback of an acknowledgement, or the thread where a flag
asks it to. `Progress` says that what is queued is whole transfers and a part of one that some
step carries on with its next message; `progress_of_reachable` says when that is so in every state
of a run.
-/

namespace OnDemandVirt.Migration

open Lib

/-- The address and batch fields of the queued messages of margins and units, in order. -/
def seqKeys (queue : List Queued) : List (Nat × Nat) :=
  (queue.filter fun q => q.by_ = .sendMargin ∨ q.by_ = .sendMarginLessThan1kb).map fun q =>
    (q.msg.addrToMigrate, q.msg.batchNum)

/-- The messages of whole transfers, each given by its start and its number of messages. -/
def sentAll (ts : List (Nat × Nat)) : List (Nat × Nat) := ts.flatMap fun t => unitKeys t.1 t.2

/-- Of the transfers `started` all messages are sent, or all but the rest of the last one, and the
first message of that rest can be sent. -/
inductive CarriedOn (started keys : List (Nat × Nat)) (next : Nat × Nat → Prop) : Prop
  | whole : keys = sentAll started → CarriedOn started keys next
  | part {done : List (Nat × Nat)} {a n k : Nat} : started = done ++ [(a, n)] → k < n →
      keys = sentAll done ++ unitKeys a k → next (a, k) → CarriedOn started keys next

/-- An acknowledgement or a pass of the thread queues the message `k` and nothing else. -/
def SendsNext (mem : GuestMem) (keysOf : List Queued → List (Nat × Nat)) (s : Client)
    (k : Nat × Nat) : Prop :=
  ∃ e s' q, (∀ addr tcp, e ≠ .request addr tcp) ∧ (clientMachine mem).step s e = some s' ∧
    s'.tcp.queue = s.tcp.queue ++ [q] ∧ keysOf [q] = [k]

/-- Every transfer that was begun is over, or some step carries it on where it stopped, and no
sender goes past the end of its transfer. -/
structure Progress (mem : GuestMem) (s : Client) : Prop where
  seq : CarriedOn s.seq.started (seqKeys s.tcp.queue) (SendsNext mem seqKeys s)
  reply : CarriedOn (s.req.started.map (·, batchSize)) (replyKeys s.tcp.queue)
    (SendsNext mem replyKeys s)
  bound : s.seq.sendNum ≤ s.seq.sendSize

/-! ### The condition -/

/-- The thread retries the reply `f` when its flag is set. -/
def ThreadRetries (f : ReplyFn) (s : Client) : Prop :=
  s.seq.thread = .running ∧ s.seq.migrationDone = false ∧
    s.req.requestRecvDisrupted = decide (f = .disrupted)

/-- The transfer that is going on is carried on by acknowledgements only. -/
def NeedsAck (s : Client) : Prop :=
  s.seq.InMargin ∨ ∃ f, s.req.replying = some f ∧ ¬ ThreadRetries f s

/-- The next acknowledgement sets up a margin. -/
def StartsMargin (s : Client) : Prop :=
  (s.tcp.sent = .cpuRecvCallback ∨ s.tcp.sent = .sendMargins) ∧
    s.seq.mType ≠ .noMargin ∧ s.seq.called s.seq.mType = false

/-- The event does not leave a transfer without anything that carries it on: a margin that is set
up finds room for a message; where only acknowledgements carry on, there is room or something
stays unacknowledged; the message that ends the migration takes no callback from a reply; and a
request that is answered takes none from a margin or from the reply to another unit. -/
def CarriesOn (s : Client) : ClientEvent → Prop
  | .ack len tcp => (StartsMargin s → ¬ Full tcp) ∧ (NeedsAck s → len < s.tcp.unacked ∨ ¬ Full tcp)
  | .thread tcp => s.seq.migrationDone = true → s.req.replying ≠ none →
      s.seq.migrationDoneMsgSent = true ∨ Full tcp
  | .request addr tcp => getBitarray s.bitarray addr = true ∨
      s.seq.seqThreadIsTransmitting = true ∨
        (¬ s.seq.InMargin ∧ (s.req.replying = none ∨ requestMask addr = s.req.msg.addrToMigrate) ∧
          (0 < s.tcp.unacked ∨ ThreadRetries .requested s ∨ ¬ Full tcp))

/-- `tcp_write` refused no memory. -/
def NoMemRefused (s : Client) : Prop :=
  ∀ q ∈ s.tcp.refused, q.by_ = .echoClientSend ∨ q.by_ = .sendMigrationDone

/-! ### What is known in between -/

/-- A margin or a unit is being sent. -/
def SeqState.Open (t : SeqState) : Prop := t.InMargin ∨ t.InUnit

/-- Margins and units are whole, except for the one that is being sent. -/
structure Transfers (s : Client) : Prop where
  between : ¬ s.seq.Open → seqKeys s.tcp.queue = sentAll s.seq.started
  during : s.seq.Open → s.seq.Busy ∧ ∃ done,
    s.seq.started = done ++ [(s.seq.startAddr, s.seq.sendSize)] ∧
      seqKeys s.tcp.queue = sentAll done ++ unitKeys s.seq.startAddr s.seq.sendNum
  bound : s.seq.sendNum ≤ s.seq.sendSize
  exited : s.seq.thread = .exited → s.seq.migrationDone = true

/-- The unit of the reply in progress. -/
def answering (q : ReqState) : List Nat :=
  match q.replying with
  | none => []
  | some _ => [q.msg.addrToMigrate]

/-- What carries on the transfer that is going on. `looping` says that its sender is in its loop,
and `room` that there is room for the next message. -/
structure Flow (looping room : Prop) (s : Client) : Prop where
  margin : s.seq.InMargin → room ∨ (0 < s.tcp.unacked ∧ s.tcp.sent = .sendMargin)
  unit : s.seq.isTransmitting = true →
    s.req.noRequest = true ∧ (looping ∨ s.seq.failToSendSeq = true)
  reply : ∀ f, s.req.replying = some f → s.tcp.sent = .postcopyRequested f ∧
    (looping ∨ s.req.failToSendReq f = true) ∧ (room ∨ 0 < s.tcp.unacked ∨ ThreadRetries f s)
  begun : s.req.started = s.req.served ++ answering s.req

/-- The transfers at each point of a step. -/
def progressAt : Assertion
  | .idle, s => NoMemRefused s → Transfers s ∧ Flow False False s
  | .start e, s => (NoMemRefused s → Transfers s ∧ Flow False False s) ∧ CarriesOn s e
  | .reply _ tcp, s => NoMemRefused s → Transfers s ∧ Flow True (¬ Full tcp) s ∧ ¬ s.seq.InMargin
  | .margin tcp, s => NoMemRefused s → Transfers s ∧ Flow True (¬ Full tcp) s
  | .ready tcp, s => NoMemRefused s → Transfers s ∧ Flow False False s ∧ ¬ s.seq.InMargin ∧
      (s.seq.mType ≠ .noMargin → s.seq.called s.seq.mType = false → ¬ Full tcp)

theorem seqKeys_append (l l' : List Queued) : seqKeys (l ++ l') = seqKeys l ++ seqKeys l' := by
  simp [seqKeys]

theorem sentAll_append (l l' : List (Nat × Nat)) : sentAll (l ++ l') = sentAll l ++ sentAll l' := by
  simp [sentAll]

@[simp] theorem sentAll_singleton (a n : Nat) : sentAll [(a, n)] = unitKeys a n := by
  simp [sentAll]

theorem not_full_cons {r : TcpAnswer} {rs : List TcpAnswer}
    (h : tcpSendbufAvailable r.sndbuf = true) : ¬ Full (r :: rs) := by
  intro hfull
  rw [hfull r rfl] at h
  cases h

section
variable {mem : GuestMem} {p p' : Point} {s s' : Client}

theorem NoMemRefused.of_piece (h : Piece mem p s p' s') (hs : NoMemRefused s') : NoMemRefused s :=
  fun q hq => hs q (h.refused_mono hq)

/-- A memory message that is offered is queued. -/
theorem NoMemRefused.wrote {r : TcpAnswer} {q : Queued} (hs : NoMemRefused s')
    (h : Offers r q s s') (h1 : q.by_ ≠ .echoClientSend) (h2 : q.by_ ≠ .sendMigrationDone) :
    r.wrote = true := by
  by_contra hw
  rcases hs q (by simp [h.refused, hw]) with hq | hq
  · exact h1 hq
  · exact h2 hq

/-- A message of a margin or a unit is queued. -/
theorem Offers.seqKeys_eq {r : TcpAnswer} {b : Sender} {m : BfMsg} (h : Offers r ⟨b, m⟩ s s')
    (hb : b = .sendMargin ∨ b = .sendMarginLessThan1kb) (hw : r.wrote = true) :
    seqKeys s'.tcp.queue = seqKeys s.tcp.queue ++ [(m.addrToMigrate, m.batchNum)] := by
  rw [h.queue, hw, seqKeys_append]
  simp [seqKeys, hb]

/-- Any other message. -/
theorem Offers.seqKeys_other {r : TcpAnswer} {b : Sender} {m : BfMsg} (h : Offers r ⟨b, m⟩ s s')
    (h1 : b ≠ .sendMargin) (h2 : b ≠ .sendMarginLessThan1kb) :
    seqKeys s'.tcp.queue = seqKeys s.tcp.queue := by
  rw [h.queue, seqKeys_append]
  cases r.wrote <;> simp [seqKeys, h1, h2]

/-! ### What the pieces do to the transfers -/

/-- Neither counters nor phases change. -/
theorem Transfers.of_same (h : Transfers s) {m : BfMsg} {fail sent : Bool}
    (hseq : s'.seq = s.seq.setMisc m fail sent)
    (hkeys : seqKeys s'.tcp.queue = seqKeys s.tcp.queue) : Transfers s' where
  between hopen := by
    rw [hkeys, hseq]
    refine h.between fun ho => hopen ?_
    rwa [hseq, SeqState.Open, SeqState.inMargin_setMisc, SeqState.inUnit_setMisc]
  during hopen := by
    rw [hseq, SeqState.Open, SeqState.inMargin_setMisc, SeqState.inUnit_setMisc] at hopen
    rw [hkeys, hseq]
    exact h.during hopen
  bound := by rw [hseq]; exact h.bound
  exited := by rw [hseq]; exact h.exited

theorem Transfers.of_seq (h : Transfers s) (hseq : s'.seq = s.seq)
    (hkeys : seqKeys s'.tcp.queue = seqKeys s.tcp.queue) : Transfers s' :=
  @Transfers.of_same _ _ h s.seq.seqMsg s.seq.failToSendSeq s.seq.migrationDoneMsgSent hseq hkeys

/-- Nothing is being sent before and after. -/
theorem Transfers.of_closed (h : Transfers s) (hclosed : ¬ s.seq.Open) (hclosed' : ¬ s'.seq.Open)
    (hstarted : s'.seq.started = s.seq.started) (hnum : s'.seq.sendNum = s.seq.sendNum)
    (hsize : s'.seq.sendSize = s.seq.sendSize)
    (hkeys : seqKeys s'.tcp.queue = seqKeys s.tcp.queue)
    (hexited : s'.seq.thread = .exited → s'.seq.migrationDone = true) : Transfers s' where
  between _ := by rw [hkeys, hstarted, h.between hclosed]
  during ho := absurd ho hclosed'
  bound := by rw [hnum, hsize]; exact h.bound
  exited := hexited

/-- The next message of the margin or unit that is being sent. -/
theorem Transfers.more (h : Transfers s) (hl : SeqLabels s.seq) (hopen : s.seq.Open)
    (hmore : s.seq.sendNum + 1 < s.seq.sendSize) {r : TcpAnswer} (hw : r.wrote = true) :
    Transfers (marginMore mem r s) := by
  obtain ⟨hbusy, done, hstarted, hkeys⟩ := h.during hopen
  have ho : Offers r ⟨.sendMargin, seqMsgNext mem s.seq⟩ s (marginMore mem r s) :=
    offers_tcpWrite _ rfl
  refine ⟨fun hclosed => absurd ?_ hclosed, fun _ => ⟨⟨?_, hmore⟩, done, hstarted, ?_⟩, hmore.le,
    h.exited⟩
  · exact hopen.imp (fun hm => ⟨hm.thread, hm.whole, hm.called⟩)
      (fun hu => ⟨hu.transmitting, hu.thread, hu.notDone, hu.size⟩)
  · show s.seq.batch + 1 = s.seq.sendNum + 1
    rw [hbusy.1]
  · rw [ho.seqKeys_eq (.inl rfl) hw, hkeys, List.append_assoc]
    show _ ++ (unitKeys _ _ ++ [(s.seq.seqMsg.addrToMigrate, s.seq.batch)]) =
      _ ++ unitKeys _ (s.seq.sendNum + 1)
    rw [unitKeys_succ, hl.addr, hbusy.1]
    rfl

/-- The last message of the margin or unit that is being sent. -/
theorem Transfers.last (h : Transfers s) (hl : SeqLabels s.seq) (hopen : s.seq.Open)
    (hlast : s.seq.sendSize ≤ s.seq.sendNum + 1) {r : TcpAnswer} {m : BfMsg}
    (ho : Offers r ⟨.sendMargin, m⟩ s s') (hw : r.wrote = true)
    (haddr : m.addrToMigrate = s.seq.seqMsg.addrToMigrate) (hbatch : m.batchNum = s.seq.batch)
    (hclosed : ¬ s'.seq.Open) (hstarted' : s'.seq.started = s.seq.started)
    (hnum : s'.seq.sendNum = s.seq.sendNum + 1) (hsize : s'.seq.sendSize = s.seq.sendSize)
    (hexited : s'.seq.thread = .exited → s'.seq.migrationDone = true) : Transfers s' := by
  obtain ⟨hbusy, done, hstarted, hkeys⟩ := h.during hopen
  have hfull : s.seq.sendSize = s.seq.sendNum + 1 := by
    have := hbusy.2
    omega
  refine ⟨fun _ => ?_, fun hopen' => absurd hopen' hclosed, by omega, hexited⟩
  rw [ho.seqKeys_eq (.inl rfl) hw, hkeys, hstarted', hstarted, sentAll_append, sentAll_singleton,
    hfull, unitKeys_succ, haddr, hbatch, hl.addr, hbusy.1, List.append_assoc]

/-- A margin or a unit is set up. -/
theorem Transfers.begin (h : Transfers s) (hclosed : ¬ s.seq.Open) (hbusy : s'.seq.Busy)
    (hopen : s'.seq.Open) (hnum : s'.seq.sendNum = 0)
    (hstarted : s'.seq.started = s.seq.started ++ [(s'.seq.startAddr, s'.seq.sendSize)])
    (hkeys : seqKeys s'.tcp.queue = seqKeys s.tcp.queue)
    (hexited : s'.seq.thread = .exited → s'.seq.migrationDone = true) : Transfers s' where
  between hclosed' := absurd hopen hclosed'
  during _ := ⟨hbusy, s.seq.started, hstarted, by
    rw [hkeys, h.between hclosed, hnum, unitKeys_zero, List.append_nil]⟩
  bound := by rw [hnum]; exact Nat.zero_le _
  exited := hexited

theorem SeqState.Active.open {t : SeqState} (h : t.Active) : t.Open := by
  rcases h with ⟨hu, -⟩ | ⟨hm, -⟩
  · exact .inr hu
  · exact .inl hm

theorem not_open_of_notCreated (ht : s.seq.thread = .notCreated) (hm : ¬ s.seq.InMargin) :
    ¬ s.seq.Open := by
  rintro (hm' | hu)
  · exact hm hm'
  · exact hu.thread ht

/-- The thread sends no unit. -/
theorem not_open_of_thread (ht : s.seq.thread ≠ .notCreated) (hoff : s.seq.isTransmitting = false) :
    ¬ s.seq.Open := by
  rintro (hm | hu)
  · exact ht hm.thread
  · rw [hu.transmitting] at hoff
    cases hoff

theorem not_inMargin_of_running (ht : s.seq.thread = .running) : ¬ s.seq.InMargin := by
  intro hm
  cases ht.symm.trans hm.thread

/-! ### What the pieces do to what carries on -/

/-- With no reply in progress, a step on margins or units. -/
theorem Flow.of_none {looping room looping' room' : Prop} (h : Flow looping room s)
    (hnone : s.req.replying = none) (hreq : s'.req = s.req)
    (hmargin : s'.seq.InMargin → room' ∨ (0 < s'.tcp.unacked ∧ s'.tcp.sent = .sendMargin))
    (hunit : s'.seq.isTransmitting = true →
      s'.req.noRequest = true ∧ (looping' ∨ s'.seq.failToSendSeq = true)) :
    Flow looping' room' s' where
  margin := hmargin
  unit := hunit
  reply f hf := by
    rw [hreq, hnone] at hf
    cases hf
  begun := by rw [hreq]; exact h.begun

/-- With a reply in progress, or just over, nothing else is going on. -/
theorem Flow.of_reply {looping room : Prop} (hm : ¬ s'.seq.InMargin)
    (hoff : s'.seq.isTransmitting = false)
    (hreply : ∀ f, s'.req.replying = some f → s'.tcp.sent = .postcopyRequested f ∧
      (looping ∨ s'.req.failToSendReq f = true) ∧
        (room ∨ 0 < s'.tcp.unacked ∨ ThreadRetries f s'))
    (hbegun : s'.req.started = s'.req.served ++ answering s'.req) : Flow looping room s' where
  margin hm' := absurd hm' hm
  unit ht := by
    rw [hoff] at ht
    cases ht
  reply := hreply
  begun := hbegun

theorem Flow.not_inMargin {looping : Prop} (h : Flow looping False s)
    (hs : s.tcp.sent ≠ .sendMargin) : ¬ s.seq.InMargin := by
  intro hm
  rcases h.margin hm with hf | ⟨-, hs'⟩
  · exact hf
  · exact hs hs'

theorem Flow.replying_none {looping room : Prop} (h : Flow looping room s)
    (hs : ∀ f, s.tcp.sent ≠ .postcopyRequested f) : s.req.replying = none := by
  cases hr : s.req.replying with
  | none => rfl
  | some f => exact absurd (h.reply f hr).1 (hs f)

end

/-- The pieces of a step keep the transfers and what carries them on. -/
theorem keeps_progress (mem : GuestMem) :
    Keeps mem (fun p s => (baseAt p s ∧ replyAt p s) ∧ progressAt p s) progressAt := by
  rintro p s p' s' hp ⟨⟨⟨⟨hc, hl⟩, hrange⟩, hr⟩, h⟩
  have hback := NoMemRefused.of_piece hp
  cases hp with
  | stay => exact h.1
  | @replyMore f r rs =>
    intro hs'
    obtain ⟨ht, hf, hm⟩ := h (hback hs')
    have ho : Offers r ⟨.postcopyRequested, replyMsg mem f s.req⟩ s (replyMore mem f r s) :=
      offers_tcpWrite _ rfl
    have hw := hs'.wrote ho (by simp) (by simp)
    refine ⟨ht.of_seq rfl (ho.seqKeys_other (by simp) (by simp)), .of_reply hm
      (hr.1.quiet (by simp [hr.2])) (fun g hg => ?_) hf.begun, hm⟩
    cases hr.2.symm.trans hg
    exact ⟨by simp [replyMore], .inl trivial, .inr (.inl (by simp [replyMore, hw]))⟩
  | @replyLast f r rs =>
    intro hs'
    obtain ⟨ht, hf, hm⟩ := h (hback hs')
    have ho : Offers r ⟨.postcopyRequested, { replyMsg mem f s.req with protoId := .dataReqMem }⟩ s
        (replyLast mem f r s) := offers_tcpWrite _ rfl
    refine ⟨ht.of_seq rfl (ho.seqKeys_other (by simp) (by simp)), .of_reply hm
      (hr.1.quiet (by simp [hr.2])) (by simp [replyLast]) ?_⟩
    have hbegun := hf.begun
    rw [answering, hr.2] at hbegun
    simpa [answering, replyLast] using hbegun
  | @replyFull f _ _ hfull =>
    intro hs'
    obtain ⟨ht, hf, hm⟩ := h (hback hs')
    refine ⟨ht.of_seq rfl rfl, .of_reply hm (hr.1.quiet (by simp [hr.2])) (fun g hg => ?_) hf.begun⟩
    cases hr.2.symm.trans hg
    obtain ⟨hsent, -, hroom⟩ := hf.reply f hr.2
    exact ⟨hsent, .inr (by simp [setFailToSendReq]), .inr (hroom.resolve_left (not_not_intro hfull))⟩
  | @marginMore r _ _ _ hmore hw =>
    intro hs'
    obtain ⟨ht, hf⟩ := h (hback hs')
    refine ⟨ht.more hl.1 hc.2.open hmore hw, hf.of_none hr.2 rfl (fun _ => .inr ?_) fun hu => ?_⟩
    · exact ⟨by simp [marginMore, hw], by simp [marginMore]⟩
    · exact ⟨(hf.unit hu).1, .inl trivial⟩
  | @marginMoreFailed r _ _ _ _ hw =>
    intro hs'
    have ho : Offers r ⟨.sendMargin, seqMsgNext mem s.seq⟩ s (marginMore mem r s) :=
      offers_tcpWrite _ rfl
    rw [hs'.wrote ho (by simp) (by simp)] at hw
    cases hw
  | @marginBatchEnd next r _ _ _ hlast hnext =>
    intro hs'
    obtain ⟨ht, hf⟩ := h (hback hs')
    have ho : Offers r ⟨.sendMargin, seqMsgNext mem s.seq⟩ s (marginBatchEnd mem next r s) :=
      offers_tcpWrite _ rfl
    have hin := (hc.1.inMargin_of_active hc.2 (MarginType.next_ne hnext).1).1
    have hfresh : s.seq.called next = false :=
      hc.1.later next (by rw [MarginType.index_next hnext]; exact Nat.lt_succ_self _)
    have hm : ¬ (marginBatchEnd mem next r s).seq.InMargin := fun hm => by
      cases hfresh.symm.trans hm.called
    refine ⟨ht.last hl.1 hc.2.open hlast ho (hs'.wrote ho (by simp) (by simp)) rfl rfl
      (not_open_of_notCreated hin.thread hm) rfl rfl rfl ht.exited, hf.of_none hr.2 rfl
      (fun hm' => absurd hm' hm) fun hu => ?_⟩
    cases (hc.1.not_transmitting hin.thread).symm.trans hu
  | @marginBuffEnd r _ _ _ hlast htype =>
    intro hs'
    obtain ⟨ht, hf⟩ := h (hback hs')
    have ho : Offers r ⟨.sendMargin, { seqMsgNext mem s.seq with protoId := .buffMem }⟩ s
        (marginBuffEnd mem r s) := offers_tcpWrite _ rfl
    have hw := hs'.wrote ho (by simp) (by simp)
    have hin := (hc.1.inMargin_of_active hc.2 (by simp [htype])).1
    have hoff : (marginBuffEnd mem r s).seq.isTransmitting = false :=
      hc.1.not_transmitting hin.thread
    have hrun : (marginBuffEnd mem r s).seq.thread = .running := by simp [marginBuffEnd, hw]
    refine ⟨ht.last hl.1 hc.2.open hlast ho hw rfl rfl (not_open_of_thread (by simp [hrun]) hoff)
      rfl rfl rfl (by simp [hrun]), hf.of_none hr.2 rfl
      (fun hm' => absurd hm' (not_inMargin_of_running hrun)) fun hu => ?_⟩
    cases hoff.symm.trans hu
  | @unitEnd r _ _ _ hlast htype =>
    intro hs'
    obtain ⟨ht, hf⟩ := h (hback hs')
    have ho : Offers r ⟨.sendMargin, (unitEnd mem r s).seq.seqMsg⟩ s (unitEnd mem r s) :=
      offers_tcpWrite _ rfl
    have hw := hs'.wrote ho (by simp) (by simp)
    have hu := Control.inUnit_of_active hc.2 htype
    have hoff : (unitEnd mem r s).seq.isTransmitting = false := by simp [unitEnd, hw]
    refine ⟨ht.last hl.1 hc.2.open hlast ho hw rfl rfl (not_open_of_thread hu.thread hoff)
      rfl rfl rfl ht.exited, hf.of_none hr.2 rfl (fun hm' => absurd hm'.thread hu.thread)
      fun hu' => ?_⟩
    cases hoff.symm.trans hu'
  | marginDefault _ _ htype =>
    have hm := (hc.1.inMargin_of_active hc.2 (by simp [htype])).1
    exact absurd htype hm.whole.1
  | marginFull hfull =>
    intro hs'
    obtain ⟨ht, hf⟩ := h (hback hs')
    refine ⟨ht.of_same rfl rfl, hf.of_none hr.2 rfl (fun hm => .inr ?_) fun hu => ?_⟩
    · exact (hf.margin ⟨hm.thread, hm.whole, hm.called⟩).resolve_left (not_not_intro hfull)
    · exact ⟨(hf.unit hu).1, .inr rfl⟩
  | readyCalled =>
    intro hs'
    obtain ⟨ht, hf, -⟩ := h (hback hs')
    exact ⟨ht, hf⟩
  | readyStart hwhole hfresh =>
    intro hs'
    obtain ⟨ht, hf, hm, hroom⟩ := h (hback hs')
    have hclosed := not_open_of_notCreated hc.2.thread hm
    have hstart := hc.1.startMargin hc.2 hwhole hfresh
    refine ⟨ht.begin hclosed (hc.1.startMargin_busy hc.2 hwhole.2 hfresh) hstart.2.open rfl rfl rfl
      ht.exited, hf.of_none hr.2 rfl (fun _ => .inl (hroom hwhole.2 hfresh)) fun hu => ?_⟩
    cases (hc.1.not_transmitting hc.2.thread).symm.trans hu
  | readyLess htype hfresh hfull =>
    intro hs'
    obtain ⟨-, -, -, hroom⟩ := h (hback hs')
    exact absurd hfull (hroom (by simp [htype]) hfresh)
  | @readyLessSent r _ _ htype hfresh havail =>
    intro hs'
    obtain ⟨ht, hf, hm, -⟩ := h (hback hs')
    have ho : Offers r ⟨.sendMarginLessThan1kb, seqMsgLessThan1kb mem (startMarginLessThan1kb s).seq⟩
        s (lessThan1kb mem r (startMarginLessThan1kb s)) := offers_tcpWrite _ rfl
    have hbuff : s.seq.called .marginBuff = false := hc.1.later _ (by rw [htype]; decide)
    have hm' : ¬ (lessThan1kb mem r (startMarginLessThan1kb s)).seq.InMargin := fun hm' => by
      have hcalled : Function.update s.seq.called s.seq.mType true .marginBuff = true := hm'.called
      rw [Function.update_of_ne (by simp [htype]), hbuff] at hcalled
      cases hcalled
    have hclosed := not_open_of_notCreated hc.2.thread hm
    have hclosed' : ¬ (lessThan1kb mem r (startMarginLessThan1kb s)).seq.Open :=
      not_open_of_notCreated hc.2.thread hm'
    refine ⟨⟨fun _ => ?_, fun ho' => absurd ho' hclosed', Nat.zero_le _, ht.exited⟩,
      hf.of_none hr.2 rfl (fun h => absurd h hm') fun hu => ?_⟩
    · rw [ho.seqKeys_eq (.inr rfl) (hs'.wrote ho (by simp) (by simp)), ht.between hclosed]
      simp [lessThan1kb, startMarginLessThan1kb, startMargin, setSendMargin, seqMsgLessThan1kb,
        sentAll_append, htype, marginRange, areaAt, marginList, MarginType.index]
      rfl
    · cases (hc.1.not_transmitting hc.2.thread).symm.trans hu
  | ackCpu _ _ hsent =>
    intro hs'
    obtain ⟨ht, hf⟩ := h.1 (hback hs')
    have hm := hf.not_inMargin (by simp [hsent])
    have hnone := hf.replying_none (by simp [hsent])
    have htype := (hc.cpu hsent).2
    have hseq := hc.startMargins_seq hsent
    have hm' : ∀ len, ¬ (startMargins (s.acked len)).seq.InMargin := fun len => by
      rwa [hseq, SeqState.inMargin_setMisc]
    refine ⟨ht.of_same (hseq _) rfl, ?_, hm' _, fun hne hfresh => ?_⟩
    · exact .of_reply (hm' _) (hc.not_transmitting (hc.cpu hsent).1)
        (fun f hfr => by cases hnone.symm.trans hfr) (by
          simpa [startMargins, Client.acked, answering, hnone] using hf.begun)
    · exact h.2.1 ⟨.inl hsent, by simp [htype], by rw [htype]; exact hfresh⟩
  | ackMargins _ _ hsent =>
    intro hs'
    obtain ⟨ht, hf⟩ := h.1 (hback hs')
    have hm := hf.not_inMargin (by simp [hsent])
    have hnone := hf.replying_none (by simp [hsent])
    exact ⟨ht.of_seq rfl rfl, hf.of_none hnone rfl (fun hm' => absurd hm' hm) hf.unit, hm,
      fun hne hfresh => h.2.1 ⟨.inr hsent, hne, hfresh⟩⟩
  | @ackMargin len tcp _ _ _ hsent =>
    intro hs'
    obtain ⟨ht, hf⟩ := h.1 (hback hs')
    have hnone := hf.replying_none (by simp [hsent])
    refine ⟨ht.of_seq rfl rfl, hf.of_none hnone rfl (fun hm => ?_) fun hu => ?_⟩
    · rcases h.2.2 (.inl hm) with hlen | hroom
      · exact .inr ⟨Nat.sub_pos_of_lt hlen, hsent⟩
      · exact .inl hroom
    · exact ⟨(hf.unit hu).1, .inl trivial⟩
  | @ackReply f len tcp _ _ _ hsent =>
    intro hs'
    obtain ⟨ht, hf⟩ := h.1 (hback hs')
    have hm := hf.not_inMargin (by simp [hsent])
    have hrep := hr.1.callback f hsent
    refine ⟨ht.of_seq rfl rfl, .of_reply hm (hr.1.quiet (by simp [hrep])) (fun g hg => ?_) hf.begun,
      hm⟩
    cases hrep.symm.trans hg
    refine ⟨hsent, .inl trivial, ?_⟩
    by_cases hretry : ThreadRetries f s
    · exact .inr (.inr hretry)
    · rcases h.2.2 (.inr ⟨f, hrep, hretry⟩) with hlen | hroom
      · exact .inr (.inl (Nat.sub_pos_of_lt hlen))
      · exact .inl hroom
  | ackDone _ _ hsent =>
    intro hs'
    obtain ⟨ht, hf⟩ := h.1 (hback hs')
    have hm := hf.not_inMargin (by simp [hsent])
    have hnone := hf.replying_none (by simp [hsent])
    have hm' : ¬ (setMigrationDoneMsgSent s).seq.InMargin := fun hm' =>
      hm ⟨hm'.thread, hm'.whole, hm'.called⟩
    exact ⟨ht.of_same rfl rfl, hf.of_none hnone rfl (fun h => absurd h hm') hf.unit⟩
  | ackNone _ _ hsent =>
    intro hs'
    obtain ⟨ht, hf⟩ := h.1 (hback hs')
    have hm := hf.not_inMargin (by rcases hsent with hsent | hsent <;> simp [hsent])
    have hnone := hf.replying_none (by rcases hsent with hsent | hsent <;> simp [hsent])
    exact ⟨ht.of_seq rfl rfl, hf.of_none hnone rfl (fun hm' => absurd hm' hm) hf.unit⟩
  | threadExit hrun hdone =>
    intro hs'
    obtain ⟨ht, hf⟩ := h.1 (hback hs')
    have hoff := hc.not_transmitting_of_done hdone
    have hclosed := not_open_of_thread (s := s) (by simp [hrun]) hoff
    refine ⟨ht.of_closed hclosed (not_open_of_thread (by simp [threadExit]) hoff) rfl rfl rfl rfl
      fun _ => hdone, .of_reply (fun hm => by cases hm.thread) hoff (fun f hfr => ?_) hf.begun⟩
    obtain ⟨hsent, hfail, hroom⟩ := hf.reply f hfr
    refine ⟨hsent, hfail, .inr (.inl ?_)⟩
    rcases hroom with hroom | hun | hretry
    · exact hroom.elim
    · exact hun
    · cases hdone.symm.trans hretry.2.1
  | @threadDone r rs _ hrun hdone havail hnot =>
    intro hs'
    obtain ⟨ht, hf⟩ := h.1 (hback hs')
    have hnone : s.req.replying = none := by
      by_contra hne
      rcases h.2 hdone hne with hsent | hfull
      · cases hnot.symm.trans hsent
      · exact not_full_cons havail hfull
    have ho : Offers r ⟨.sendMigrationDone, { s.seq.seqMsg with protoId := .migDone }⟩ s
        (migrationDoneMsg r s) := offers_tcpWrite _ rfl
    have hm : ¬ (migrationDoneMsg r s).seq.InMargin := not_inMargin_of_running hrun
    refine ⟨ht.of_same rfl (ho.seqKeys_other (by simp) (by simp)), hf.of_none hnone rfl
      (fun hm' => absurd hm' hm) fun hu => ?_⟩
    cases (hc.not_transmitting_of_done hdone).symm.trans hu
  | threadMargin hturn htrans =>
    intro hs'
    obtain ⟨ht, hf⟩ := h.1 (hback hs')
    have hnone := hr.1.none_of_noRequest hturn.noRequest
    exact ⟨ht.of_same rfl rfl, hf.of_none hnone rfl
      (fun hm => absurd hm (not_inMargin_of_running hturn.running))
      fun _ => ⟨hturn.noRequest, .inl trivial⟩⟩
  | threadClear hturn hoff =>
    intro hs'
    obtain ⟨ht, hf⟩ := h.1 (hback hs')
    have hnone := hr.1.none_of_noRequest hturn.noRequest
    exact ⟨ht.of_seq rfl rfl, .of_reply (not_inMargin_of_running hturn.running) hoff
      (fun f hfr => by cases hnone.symm.trans hfr) hf.begun⟩
  | threadDisrupted hturn hoff _ hdis =>
    intro hs'
    obtain ⟨ht, hf⟩ := h.1 (hback hs')
    have hnone := hr.1.none_of_noRequest hturn.noRequest
    have hm := not_inMargin_of_running hturn.running
    refine ⟨ht.of_seq rfl rfl, .of_reply hm hoff (fun f hfr => ?_) ?_, hm⟩
    · cases Option.some.inj hfr
      exact ⟨by simp [startReply], .inl trivial, .inr (.inr ⟨hturn.running, hturn.notDone, hdis⟩)⟩
    · have hbegun := hf.begun
      rw [answering, hnone] at hbegun
      simp [startReply, answering, hnone, hbegun]
  | @threadUnit tcp _ a next hturn hoff =>
    intro hs'
    obtain ⟨ht, hf⟩ := h.1 (hback hs')
    have hnone := hr.1.none_of_noRequest hturn.noRequest
    have hclosed := not_open_of_thread (s := s) (by simp [hturn.running]) hoff
    have hstart := hc.startUnit hturn hoff a next
    exact ⟨ht.begin hclosed (hc.startUnit_busy hturn hoff a next) hstart.2.open rfl rfl rfl ht.exited,
      hf.of_none hnone rfl (fun hm => absurd hm (not_inMargin_of_running hturn.running))
      fun _ => ⟨hturn.noRequest, .inl trivial⟩⟩
  | threadFinish hturn hoff =>
    intro hs'
    obtain ⟨ht, hf⟩ := h.1 (hback hs')
    have hnone := hr.1.none_of_noRequest hturn.noRequest
    have hthread : s.seq.thread ≠ .notCreated := by simp [hturn.running]
    exact ⟨ht.of_closed (not_open_of_thread hthread hoff) (not_open_of_thread hthread rfl) rfl rfl
      rfl rfl fun _ => rfl, hf.of_none hnone rfl
      (fun hm => absurd hm (not_inMargin_of_running hturn.running)) (by rintro ⟨⟩)⟩
  | @threadFinishSent r rs _ next hturn hoff =>
    intro hs'
    obtain ⟨ht, hf⟩ := h.1 (hback hs')
    have hnone := hr.1.none_of_noRequest hturn.noRequest
    have hthread : s.seq.thread ≠ .notCreated := by simp [hturn.running]
    have ho : Offers r ⟨.sendMigrationDone, { s.seq.seqMsg with protoId := .migDone }⟩ s
        (setMigrationDone (migrationDoneMsg r (noUnitLeft s))) := offers_tcpWrite _ rfl
    exact ⟨ht.of_closed (not_open_of_thread hthread hoff) (not_open_of_thread hthread rfl) rfl rfl
      rfl (ho.seqKeys_other (by simp) (by simp)) fun _ => rfl, hf.of_none hnone rfl
      (fun hm => absurd hm (not_inMargin_of_running hturn.running)) (by rintro ⟨⟩)⟩
  | @threadReply f tcp _ hrun hdone hreq hdis =>
    intro hs'
    obtain ⟨ht, hf⟩ := h.1 (hback hs')
    have hrep := hr.1.replying_of_retry hreq hdis ‹_›
    have hm := not_inMargin_of_running hrun
    refine ⟨ht.of_seq rfl rfl, .of_reply hm (hr.1.quiet (by simp [hrep])) (fun g hg => ?_) hf.begun,
      hm⟩
    cases hrep.symm.trans hg
    exact ⟨(hf.reply f hrep).1, .inl trivial, .inr (.inr ⟨hrun, hdone, hdis⟩)⟩
  | requestMarked =>
    intro hs'
    obtain ⟨ht, hf⟩ := h.1 (hback hs')
    exact ⟨ht.of_seq rfl rfl, hf.margin, hf.unit, hf.reply, hf.begun⟩
  | requestDeferred _ _ htrans =>
    intro hs'
    obtain ⟨ht, hf⟩ := h.1 (hback hs')
    have hnone := hr.1.none_of_transmitting (hc.mirror ▸ htrans)
    exact ⟨ht.of_seq rfl rfl, hf.margin, hf.unit, fun f hfr => (by cases hnone.symm.trans hfr),
      hf.begun⟩
  | @requestReply addr tcp _ _ hmark htrans =>
    intro hs'
    obtain ⟨ht, hf⟩ := h.1 (hback hs')
    rcases h.2 with hm | ht' | ⟨hm, hsame, hroom⟩
    · cases hmark.symm.trans hm
    · cases htrans.symm.trans ht'
    · refine ⟨ht.of_seq rfl rfl, .of_reply hm (hc.mirror ▸ htrans) (fun f hfr => ?_) ?_, hm⟩
      · cases Option.some.inj hfr
        refine ⟨by simp [startReply], .inl trivial, ?_⟩
        rcases hroom with hun | hretry | hroom
        · exact .inr (.inl hun)
        · exact .inr (.inr hretry)
        · exact .inl hroom
      · have hbegun := hf.begun
        unfold answering at hbegun
        show (if s.req.replying ≠ none ∧ s.req.msg.addrToMigrate = requestMask addr
          then s.req.started else s.req.started ++ [requestMask addr]) =
            s.req.served ++ [requestMask addr]
        cases hrep : s.req.replying with
        | none =>
          rw [hrep] at hbegun
          simp [hbegun]
        | some f =>
          rw [hrep] at hbegun hsame
          have haddr := hsame.resolve_left (by simp)
          rw [if_pos ⟨by simp, haddr.symm⟩, hbegun, haddr]

/-! ### The step that carries on -/

section
variable {mem : GuestMem} {s : Client}

/-- A sending loop with room for one message. -/
theorem whileSendbuf_one (body : TcpAnswer → Client → Client × Bool) (full : Client → Client)
    (s : Client) : whileSendbuf body full [goodAnswer] s =
      if (body goodAnswer s).2 then full (body goodAnswer s).1 else (body goodAnswer s).1 := by
  split_ifs with hgo
  · exact @whileAvail_cons_of_more _ _ (fun r => tcpSendbufAvailable r.sndbuf) body full goodAnswer
      [] s goodAnswer_available hgo
  · exact @whileAvail_cons_of_return _ _ (fun r => tcpSendbufAvailable r.sndbuf) body full
      goodAnswer [] s goodAnswer_available (by simpa using hgo)

theorem sendMargin_one (hwhole : s.seq.mType ≠ .margin06sp) : ∃ m,
    (sendMargin mem [goodAnswer] s).tcp.queue = s.tcp.queue ++ [⟨.sendMargin, m⟩] ∧
      m.addrToMigrate = s.seq.seqMsg.addrToMigrate ∧ m.batchNum = s.seq.batch := by
  have hpass : ∃ m, (sendMarginPass mem goodAnswer s).1.tcp.queue =
      s.tcp.queue ++ [⟨.sendMargin, m⟩] ∧
        m.addrToMigrate = s.seq.seqMsg.addrToMigrate ∧ m.batchNum = s.seq.batch := by
    unfold sendMarginPass
    split_ifs with hlast
    · cases hnext : s.seq.mType.next with
      | some next => exact ⟨seqMsgNext mem s.seq, by simp [marginBatchEnd, goodAnswer], rfl, rfl⟩
      | none =>
        cases htype : s.seq.mType with
        | marginBuff =>
          exact ⟨{ seqMsgNext mem s.seq with protoId := .buffMem },
            by simp [marginBuffEnd, goodAnswer], rfl, rfl⟩
        | noMargin =>
          exact ⟨(unitEnd mem goodAnswer s).seq.seqMsg, by simp [unitEnd, goodAnswer], rfl, rfl⟩
        | margin06sp => exact absurd htype hwhole
        | _ => simp [htype, MarginType.next] at hnext
    · exact ⟨seqMsgNext mem s.seq, by simp [marginMore, goodAnswer], rfl, rfl⟩
  rw [sendMargin, whileSendbuf_one]
  split_ifs
  · exact hpass
  · exact hpass

theorem reply_one (f : ReplyFn) : ∃ m,
    (reply mem f [goodAnswer] s).tcp.queue = s.tcp.queue ++ [⟨.postcopyRequested, m⟩] ∧
      m.addrToMigrate = s.req.msg.addrToMigrate ∧ m.batchNum = s.req.batch f := by
  have hpass : ∃ m, (replyPass mem f goodAnswer s).1.tcp.queue =
      s.tcp.queue ++ [⟨.postcopyRequested, m⟩] ∧
        m.addrToMigrate = s.req.msg.addrToMigrate ∧ m.batchNum = s.req.batch f := by
    unfold replyPass
    split_ifs with hlast
    · exact ⟨{ replyMsg mem f s.req with protoId := .dataReqMem },
        by simp [replyLast, goodAnswer], rfl, rfl⟩
    · exact ⟨replyMsg mem f s.req, by simp [replyMore, goodAnswer], rfl, rfl⟩
  rw [reply, whileSendbuf_one]
  split_ifs
  · exact hpass
  · exact hpass

/-- A margin is carried on by the next acknowledgement, a unit by the next pass of the thread. -/
theorem sendsNext_seq (hc : Control s) (hl : SeqLabels s.seq) (ht : Transfers s)
    (hf : Flow False False s) (hopen : s.seq.Open) :
    SendsNext mem seqKeys s (s.seq.startAddr, s.seq.sendNum) := by
  have hbusy := (ht.during hopen).1
  have hkey : ∀ m : BfMsg, m.addrToMigrate = s.seq.seqMsg.addrToMigrate →
      m.batchNum = s.seq.batch →
        seqKeys [⟨.sendMargin, m⟩] = [(s.seq.startAddr, s.seq.sendNum)] := by
    intro m haddr hbatch
    simp [seqKeys, haddr, hbatch, hl.addr, hbusy.1]
  rcases hopen with hm | hu
  · obtain ⟨hun, hsent⟩ := (hf.margin hm).resolve_left id
    obtain ⟨m, hqueue, haddr, hbatch⟩ := @sendMargin_one mem (s.acked 1) hm.whole.1
    refine ⟨.ack 1 [goodAnswer], sentCallback mem [goodAnswer] (s.acked 1), ⟨.sendMargin, m⟩,
      by simp, if_pos ⟨Nat.one_pos, hun⟩, ?_, hkey m haddr hbatch⟩
    rw [sentCallback, show (s.acked 1).tcp.sent = .sendMargin from hsent]
    exact hqueue
  · have hno := hf.unit hu.transmitting
    have hrun : s.seq.thread = .running := by
      cases hthread : s.seq.thread with
      | notCreated => exact absurd hthread hu.thread
      | running => rfl
      | exited => cases hu.notDone.symm.trans (ht.exited hthread)
    have htype : s.seq.mType ≠ .margin06sp := by simp [hc.created hu.thread]
    obtain ⟨m, hqueue, haddr, hbatch⟩ := @sendMargin_one mem (setFailToSendSeq false s) htype
    refine ⟨.thread [goodAnswer], seqTransmitThread mem [goodAnswer] s, ⟨.sendMargin, m⟩, by simp,
      if_pos hrun, ?_, hkey m haddr hbatch⟩
    have hpass : seqTransmitThread mem [goodAnswer] s =
        sendMargin mem [goodAnswer] (setFailToSendSeq false s) := by
      simp [seqTransmitThread, hu.notDone, hno.1, hu.transmitting, hno.2.resolve_left id]
    rw [hpass]
    exact hqueue

/-- A reply is carried on by the next acknowledgement, or by the next pass of the thread. -/
theorem sendsNext_reply (hr : ReplyState s) (hf : Flow False False s) {f : ReplyFn}
    (hrep : s.req.replying = some f) :
    SendsNext mem replyKeys s (s.req.msg.addrToMigrate, s.req.batch f) := by
  have hkey : ∀ m : BfMsg, m.addrToMigrate = s.req.msg.addrToMigrate → m.batchNum = s.req.batch f →
      replyKeys [⟨.postcopyRequested, m⟩] = [(s.req.msg.addrToMigrate, s.req.batch f)] := by
    intro m haddr hbatch
    simp [replyKeys, haddr, hbatch]
  obtain ⟨hsent, hfail, hroom⟩ := hf.reply f hrep
  rcases hroom.resolve_left id with hun | ⟨hrun, hdone, hdis⟩
  · obtain ⟨m, hqueue, haddr, hbatch⟩ := @reply_one mem (s.acked 1) f
    refine ⟨.ack 1 [goodAnswer], sentCallback mem [goodAnswer] (s.acked 1), ⟨.postcopyRequested, m⟩,
      by simp, if_pos ⟨Nat.one_pos, hun⟩, ?_, hkey m haddr hbatch⟩
    rw [sentCallback, show (s.acked 1).tcp.sent = .postcopyRequested f from hsent]
    exact hqueue
  · have hreq := hr.during (by simp [hrep])
    have hfail := hfail.resolve_left id
    obtain ⟨m, hqueue, haddr, hbatch⟩ := @reply_one mem (setFailToSendReq f false s) f
    refine ⟨.thread [goodAnswer], seqTransmitThread mem [goodAnswer] s, ⟨.postcopyRequested, m⟩,
      by simp, if_pos hrun, ?_, hkey m haddr hbatch⟩
    have hpass : seqTransmitThread mem [goodAnswer] s =
        reply mem f [goodAnswer] (setFailToSendReq f false s) := by
      cases f <;> simp [seqTransmitThread, hdone, hreq, hdis, hfail, postcopyRequested,
        postcopyRequestedDisrupted]
    rw [hpass]
    exact hqueue

end

/-- In every run whose events leave no transfer behind, and in which requests leave a reply alone
and `tcp_write` refuses no memory, every transfer is over or some step carries it on where it
stopped, and no sender goes past the end of its transfer. -/
theorem progress_of_reachable (mem : GuestMem) (s : Client)
    (hs : (clientMachine mem).ReachableWhen (fun s e => RequestFits s e ∧ CarriesOn s e) s)
    (hrefused : NoMemRefused s) : Progress mem s := by
  have hkeeps := (keeps_baseReply mem).and (keeps_progress mem)
  have hinit : ∀ q r, q < 2 ^ 32 → (baseAt .idle (Client.start mem q r) ∧
      replyAt .idle (Client.start mem q r)) ∧ progressAt .idle (Client.start mem q r) := by
    intro q r _
    have hm : ¬ (Client.start mem q r).seq.InMargin := fun hm => by cases hm.called
    refine ⟨⟨base_start mem q r, ReplyState.start q r⟩, fun _ => ⟨⟨fun _ => ?_, fun ho => ?_, le_rfl,
      by rintro ⟨⟩⟩, .of_reply hm rfl (by rintro f ⟨⟩) rfl⟩⟩
    · cases hw : r.wrote <;> simp [Client.start, TcpPcb.tcpWrite, hw, seqKeys, sentAll]
    · exact absurd ho (not_open_of_notCreated rfl hm)
  have hinv := hkeeps.reachable hinit (fun s e h hC => ⟨⟨h.1.1, h.1.2, hC.1⟩, h.2, hC.2⟩) hs
  obtain ⟨⟨⟨⟨hc, hl⟩, -⟩, hr⟩, hprog⟩ := hinv
  obtain ⟨ht, hf⟩ := hprog hrefused
  have hwhole : WholeReplies s := (wholeReplies_of_reachable mem s (hs.mono fun _ _ h => h.1)
    fun q hq hb => by rcases hrefused q hq with h | h <;> simp [h] at hb).1
  refine ⟨?_, ?_, ht.bound⟩
  · by_cases hopen : s.seq.Open
    · obtain ⟨hbusy, done, hstarted, hkeys⟩ := ht.during hopen
      exact .part hstarted hbusy.2 hkeys (sendsNext_seq hc hl.1 ht hf hopen)
    · exact .whole (ht.between hopen)
  · have hserved : (s.req.served.flatMap fun u => unitKeys u batchSize) =
        sentAll (s.req.served.map (·, batchSize)) := by
      simp [sentAll, List.flatMap_map]
    have hbegun := hf.begun
    rw [WholeReplies, hserved] at hwhole
    unfold partialKeys at hwhole
    unfold answering at hbegun
    cases hrep : s.req.replying with
    | none =>
      rw [hrep] at hbegun hwhole
      refine .whole (hwhole.trans ?_)
      simp [hbegun]
    | some f =>
      rw [hrep] at hbegun hwhole
      refine .part ?_ (hl.2.batch f) hwhole (sendsNext_reply hr hf hrep)
      simp [hbegun]

/-- The client after the acknowledgement that sends five messages of the first margin. -/
def marginBegun : Client :=
  sentCallback (fun _ => 0) (List.replicate 5 goodAnswer) (freshClient.acked sizeOfSendbuf)

theorem progress_marginBegun : Progress (fun _ => 0) marginBegun ∧
    marginBegun.seq.started = [(0x98000, 17)] ∧ marginBegun.seq.sendNum = 5 := by
  refine ⟨progress_of_reachable _ _ (.step (e := goodAck 5)
    (.init ⟨0, goodAnswer, by decide, rfl⟩) ⟨trivial, fun _ => ?_, fun _ => .inr ?_⟩ rfl) ?_,
    by decide, by decide⟩
  · exact not_full_cons goodAnswer_available
  · exact not_full_cons goodAnswer_available
  · have hlen : marginBegun.tcp.refused.length = 0 := by decide
    simp [NoMemRefused, List.length_eq_zero_iff.mp hlen]

/-- The client after the acknowledgement that should send the first margin: the first `tcp_write`
fails, and nothing is left that could be acknowledged. -/
def marginStalled : Client :=
  sentCallback (fun _ => 0) [badAnswer] (freshClient.acked sizeOfSendbuf)

/-- The first margin is begun, none of it is queued, and nothing will carry it on. -/
theorem not_progress_marginStalled : ¬ ∀ (mem : GuestMem) (s : Client),
    (clientMachine mem).Reachable s → Progress mem s := by
  intro h
  have hs : (clientMachine fun _ => 0).Reachable marginStalled :=
    .step (e := .ack sizeOfSendbuf [badAnswer]) (.init ⟨0, goodAnswer, by decide, rfl⟩) trivial rfl
  have hstarted : marginStalled.seq.started = [(0x98000, 17)] := by decide
  have hkeys : seqKeys marginStalled.tcp.queue = [] := by decide
  have hun : marginStalled.tcp.unacked = 0 := by decide
  have hthread : marginStalled.seq.thread = .notCreated := by decide
  have hseq := (h _ _ hs).seq
  rw [hstarted, hkeys] at hseq
  rcases hseq with hwhole | ⟨-, -, -, e, s', q, hreq, hstep, -⟩
  · rw [sentAll_singleton, unitKeys_succ] at hwhole
    simp at hwhole
  · cases e with
    | ack len tcp =>
      have hnone : (clientMachine fun _ => 0).step marginStalled (.ack len tcp) = none :=
        if_neg (by omega)
      cases hnone.symm.trans hstep
    | thread tcp =>
      simp [clientMachine, Client.step, hthread] at hstep
    | request addr tcp => exact hreq addr tcp rfl

end OnDemandVirt.Migration
