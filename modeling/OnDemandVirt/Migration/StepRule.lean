import OnDemandVirt.Migration.Client

/-!
# What one step of the client can do

A step of the client is a dispatch followed by at most one sending loop. `Piece` lists what it is
made of: each loop pass, each way into a loop, and the steps without a loop, each with what is
known when it happens. An invariant is an `Assertion`: what holds between steps, before a pass of
a reply loop, before a pass of `send_margin` and before `send_margins`. It is shown piece by piece
(`Keeps`), and `Keeps.reachable` puts the pieces together for whole runs. The loops carry the
answers that are left, so an assertion can speak about them.
-/

namespace OnDemandVirt.Migration

open Lib

/-- Where in a step the client is: between steps, when an event happens, before a pass of a reply
loop or of `send_margin`, or before `send_margins`, with the answers that are left. -/
inductive Point
  | idle
  | start (e : ClientEvent)
  | reply (f : ReplyFn) (tcp : List TcpAnswer)
  | margin (tcp : List TcpAnswer)
  | ready (tcp : List TcpAnswer)

/-- What holds at each point of a step. -/
abbrev Assertion := Point → Client → Prop

/-- The margins that `send_margin` sends. -/
def MarginType.Whole (t : MarginType) : Prop := t ≠ .margin06sp ∧ t ≠ .noMargin

instance (t : MarginType) : Decidable t.Whole := inferInstanceAs (Decidable (_ ∧ _))

/-- The next answer, if there is one, stops the loop. -/
def Full (tcp : List TcpAnswer) : Prop := ∀ r ∈ tcp.head?, tcpSendbufAvailable r.sndbuf = false

/-- The thread is in the part of its loop that sends memory, with no request in progress. -/
structure SeqTurn (s : Client) : Prop where
  running : s.seq.thread = .running
  notDone : s.seq.migrationDone = false
  noRequest : s.req.noRequest = true

/-- A pass of the thread does nothing: there is no room for the message that ends the migration,
or what is being sent or answered is not marked for a retry. -/
def Waits (tcp : List TcpAnswer) (s : Client) : Prop :=
  (s.seq.migrationDone = true ∧ s.seq.migrationDoneMsgSent = false ∧ Full tcp) ∨
    (SeqTurn s ∧ s.seq.isTransmitting = true ∧ s.seq.failToSendSeq = false) ∨
    (s.seq.migrationDone = false ∧ s.req.noRequest = false ∧ ∃ f,
      s.req.requestRecvDisrupted = decide (f = .disrupted) ∧ s.req.failToSendReq f = false)

section
variable (mem : GuestMem)

/-- The pieces of a step. -/
inductive Piece : Point → Client → Point → Client → Prop
  | stay {tcp s} : s.seq.thread = .running → Waits tcp s → Piece (.start (.thread tcp)) s .idle s
  | replyMore {f r rs s} : tcpSendbufAvailable r.sndbuf = true → s.req.batch f + 1 < batchSize →
      Piece (.reply f (r :: rs)) s (.reply f rs) (replyMore mem f r s)
  | replyLast {f r rs s} : tcpSendbufAvailable r.sndbuf = true → batchSize ≤ s.req.batch f + 1 →
      Piece (.reply f (r :: rs)) s .idle (replyLast mem f r s)
  | replyFull {f rs s} : Full rs → Piece (.reply f rs) s .idle (setFailToSendReq f true s)
  | marginMore {r rs s} : tcpSendbufAvailable r.sndbuf = true →
      s.seq.sendNum + 1 < s.seq.sendSize → r.wrote = true →
        Piece (.margin (r :: rs)) s (.margin rs) (marginMore mem r s)
  | marginMoreFailed {r rs s} : tcpSendbufAvailable r.sndbuf = true →
      s.seq.sendNum + 1 < s.seq.sendSize → r.wrote = false →
        Piece (.margin (r :: rs)) s .idle (marginMore mem r s)
  | marginBatchEnd {next r rs s} : tcpSendbufAvailable r.sndbuf = true →
      s.seq.sendSize ≤ s.seq.sendNum + 1 → s.seq.mType.next = some next →
        Piece (.margin (r :: rs)) s .idle (marginBatchEnd mem next r s)
  | marginBuffEnd {r rs s} : tcpSendbufAvailable r.sndbuf = true →
      s.seq.sendSize ≤ s.seq.sendNum + 1 → s.seq.mType = .marginBuff →
        Piece (.margin (r :: rs)) s .idle (marginBuffEnd mem r s)
  | unitEnd {r rs s} : tcpSendbufAvailable r.sndbuf = true →
      s.seq.sendSize ≤ s.seq.sendNum + 1 → s.seq.mType = .noMargin →
        Piece (.margin (r :: rs)) s .idle (unitEnd mem r s)
  | marginDefault {r rs s} : tcpSendbufAvailable r.sndbuf = true →
      s.seq.sendSize ≤ s.seq.sendNum + 1 → s.seq.mType = .margin06sp →
        Piece (.margin (r :: rs)) s (.margin rs) (marginDefault mem s)
  | marginFull {rs s} : Full rs → Piece (.margin rs) s .idle (setFailToSendSeq true s)
  /-- `send_margins` has nothing to start. -/
  | readyCalled {tcp s} : (s.seq.mType = .noMargin ∨ s.seq.called s.seq.mType = true) →
      Piece (.ready tcp) s .idle s
  | readyStart {tcp s} : s.seq.mType.Whole → s.seq.called s.seq.mType = false →
      Piece (.ready tcp) s (.margin tcp) (startMargin s)
  | readyLess {tcp s} : s.seq.mType = .margin06sp → s.seq.called s.seq.mType = false → Full tcp →
      Piece (.ready tcp) s .idle (startMarginLessThan1kb s)
  | readyLessSent {r rs s} : s.seq.mType = .margin06sp → s.seq.called s.seq.mType = false →
      tcpSendbufAvailable r.sndbuf = true →
        Piece (.ready (r :: rs)) s .idle (lessThan1kb mem r (startMarginLessThan1kb s))
  /-- An acknowledgement, by the callback it runs. -/
  | ackCpu {len tcp s} : 0 < len → len ≤ s.tcp.unacked →
      s.tcp.sent = .cpuRecvCallback →
        Piece (.start (.ack len tcp)) s (.ready tcp) (startMargins (s.acked len))
  | ackMargins {len tcp s} : 0 < len → len ≤ s.tcp.unacked →
      s.tcp.sent = .sendMargins → Piece (.start (.ack len tcp)) s (.ready tcp) (s.acked len)
  | ackMargin {len tcp s} : 0 < len → len ≤ s.tcp.unacked →
      s.tcp.sent = .sendMargin → Piece (.start (.ack len tcp)) s (.margin tcp) (s.acked len)
  | ackReply {f len tcp s} : 0 < len → len ≤ s.tcp.unacked →
      s.tcp.sent = .postcopyRequested f →
        Piece (.start (.ack len tcp)) s (.reply f tcp) (s.acked len)
  | ackDone {len tcp s} : 0 < len → len ≤ s.tcp.unacked →
      s.tcp.sent = .migrationDoneSent →
        Piece (.start (.ack len tcp)) s .idle (setMigrationDoneMsgSent (s.acked len))
  | ackNone {len tcp s} : 0 < len → len ≤ s.tcp.unacked →
      (s.tcp.sent = .marginsSent ∨ s.tcp.sent = .postcopyRequestedSent) →
        Piece (.start (.ack len tcp)) s .idle (s.acked len)
  /-- A pass of `seq_transmit_thread`, by its branches. -/
  | threadExit {tcp s} : s.seq.thread = .running → s.seq.migrationDone = true →
      s.seq.migrationDoneMsgSent = true → Piece (.start (.thread tcp)) s .idle (threadExit s)
  | threadDone {r rs s} : s.seq.thread = .running → s.seq.migrationDone = true →
      tcpSendbufAvailable r.sndbuf = true → s.seq.migrationDoneMsgSent = false →
        Piece (.start (.thread (r :: rs))) s .idle (migrationDoneMsg r s)
  | threadMargin {tcp s} : SeqTurn s → s.seq.isTransmitting = true →
      s.seq.failToSendSeq = true →
        Piece (.start (.thread tcp)) s (.margin tcp) (setFailToSendSeq false s)
  | threadClear {tcp s} : SeqTurn s → s.seq.isTransmitting = false →
      s.req.requestRecvDisrupted = true → getBitarray s.bitarray s.req.requestedAddr = true →
        Piece (.start (.thread tcp)) s .idle (setDisrupted false s)
  | threadDisrupted {tcp s} : SeqTurn s → s.seq.isTransmitting = false →
      s.seq.seqThreadIsTransmitting = false → s.req.requestRecvDisrupted = true →
        getBitarray s.bitarray s.req.requestedAddr = false →
          Piece (.start (.thread tcp)) s (.reply .disrupted tcp) (startReply .disrupted s)
  | threadUnit {tcp s a next} : SeqTurn s → s.seq.isTransmitting = false →
      (s.req.requestRecvDisrupted = true → s.seq.seqThreadIsTransmitting = true) →
        getStartAddr s.bitarray s.seq.nextStart = (a, next) → a ≠ endOfMemory →
          Piece (.start (.thread tcp)) s (.margin tcp) (startUnit a next s)
  | threadFinish {tcp s next} : SeqTurn s → s.seq.isTransmitting = false →
      getStartAddr s.bitarray s.seq.nextStart = (endOfMemory, next) → Full tcp →
        Piece (.start (.thread tcp)) s .idle (setMigrationDone (noUnitLeft s))
  | threadFinishSent {r rs s next} : SeqTurn s →
      s.seq.isTransmitting = false →
        getStartAddr s.bitarray s.seq.nextStart = (endOfMemory, next) →
          tcpSendbufAvailable r.sndbuf = true →
            Piece (.start (.thread (r :: rs))) s
              .idle (setMigrationDone (migrationDoneMsg r (noUnitLeft s)))
  | threadReply {f tcp s} : s.seq.thread = .running →
      s.seq.migrationDone = false → s.req.noRequest = false →
        s.req.requestRecvDisrupted = decide (f = .disrupted) → s.req.failToSendReq f = true →
          Piece (.start (.thread tcp)) s (.reply f tcp) (setFailToSendReq f false s)
  /-- A request, by what becomes of it. -/
  | requestMarked {addr tcp s} : vtMigrationRange addr = true →
      getBitarray s.bitarray addr = true →
        Piece (.start (.request addr tcp)) s .idle (setRequestedAddr addr s)
  | requestDeferred {addr tcp s} : vtMigrationRange addr = true →
      getBitarray s.bitarray addr = false → s.seq.seqThreadIsTransmitting = true →
        Piece (.start (.request addr tcp)) s .idle (setDisrupted true (setRequestedAddr addr s))
  | requestReply {addr tcp s} : vtMigrationRange addr = true →
      getBitarray s.bitarray addr = false → s.seq.seqThreadIsTransmitting = false →
        Piece (.start (.request addr tcp)) s
          (.reply .requested tcp) (startReply .requested (setRequestedAddr addr s))

/-- From `s` to `s'` the message `q` is handed to `tcp_write`, which answers `r`. -/
structure Offers (r : TcpAnswer) (q : Queued) (s s' : Client) : Prop where
  queue : s'.tcp.queue = s.tcp.queue ++ (if r.wrote then [q] else [])
  refused : s'.tcp.refused = s.tcp.refused ++ (if r.wrote then [] else [q])

theorem offers_tcpWrite {r : TcpAnswer} {q : Queued} {s s' : Client} (f : SentFn)
    (h : s'.tcp = (s.tcp.tcpSent f).tcpWrite r q) : Offers r q s s' :=
  ⟨by rw [h, TcpPcb.tcpWrite_queue, TcpPcb.tcpSent_queue],
    by rw [h, TcpPcb.tcpWrite_refused, TcpPcb.tcpSent_refused]⟩

variable {mem} in
/-- A piece hands at most one message to `tcp_write`, and only a reply loop a reply message. -/
theorem Piece.offers {p s p' s'} (h : Piece mem p s p' s') :
    (s'.tcp.queue = s.tcp.queue ∧ s'.tcp.refused = s.tcp.refused) ∨
      ∃ r q, Offers r q s s' ∧ (q.by_ = .postcopyRequested → ∃ f tcp, p = .reply f tcp) := by
  cases h with
  | replyMore => exact .inr ⟨_, _, offers_tcpWrite _ rfl, fun _ => ⟨_, _, rfl⟩⟩
  | replyLast => exact .inr ⟨_, _, offers_tcpWrite _ rfl, fun _ => ⟨_, _, rfl⟩⟩
  | marginMore => exact .inr ⟨_, _, offers_tcpWrite _ rfl, by simp⟩
  | marginMoreFailed => exact .inr ⟨_, _, offers_tcpWrite _ rfl, by simp⟩
  | marginBatchEnd => exact .inr ⟨_, _, offers_tcpWrite _ rfl, by simp⟩
  | marginBuffEnd => exact .inr ⟨_, _, offers_tcpWrite _ rfl, by simp⟩
  | unitEnd => exact .inr ⟨_, _, offers_tcpWrite _ rfl, by simp⟩
  | readyLessSent => exact .inr ⟨_, _, offers_tcpWrite _ rfl, by simp⟩
  | threadDone => exact .inr ⟨_, _, offers_tcpWrite _ rfl, by simp⟩
  | threadFinishSent => exact .inr ⟨_, _, offers_tcpWrite _ rfl, by simp⟩
  | _ => exact .inl ⟨rfl, rfl⟩

variable {mem} in
/-- No piece takes a queued message back. -/
theorem Piece.queue_mono {p s p' s'} (h : Piece mem p s p' s') {q : Queued}
    (hq : q ∈ s.tcp.queue) : q ∈ s'.tcp.queue := by
  rcases h.offers with ⟨hqueue, -⟩ | ⟨r, x, ho, -⟩
  · rwa [hqueue]
  · rw [ho.queue]
    exact List.mem_append_left _ hq

variable {mem} in
/-- No refused message is forgotten. -/
theorem Piece.refused_mono {p s p' s'} (h : Piece mem p s p' s') {q : Queued}
    (hq : q ∈ s.tcp.refused) : q ∈ s'.tcp.refused := by
  rcases h.offers with ⟨-, hrefused⟩ | ⟨r, x, ho, -⟩
  · rwa [hrefused]
  · rw [ho.refused]
    exact List.mem_append_left _ hq

/-- From `P`, every piece leads to `Q`. -/
def Keeps (P Q : Assertion) : Prop :=
  ∀ ⦃p s p' s'⦄, Piece mem p s p' s' → P p s → Q p' s'

variable {mem}

/-! ### The pieces put together -/

namespace Keeps

variable {P P' Q Q' : Assertion}

/-- An assertion that is kept given one that is kept anyway. -/
theorem and (h : Keeps mem P P) (h' : Keeps mem (fun p s => P p s ∧ Q p s) Q) :
    Keeps mem (fun p s => P p s ∧ Q p s) (fun p s => P p s ∧ Q p s) :=
  fun _ _ _ _ hp hPQ => ⟨h hp hPQ.1, h' hp hPQ⟩

theorem reply (h : Keeps mem P P) (f : ReplyFn) (tcp : List TcpAnswer) (s : Client)
    (hs : P (.reply f tcp) s) : P .idle (Migration.reply mem f tcp s) := by
  refine whileAvail_rule (P := fun rs s => P (.reply f rs) s) ?_ ?_ ?_ tcp s hs
  · intro r rs s havail hP hmore
    unfold replyPass at hmore ⊢
    split_ifs at hmore ⊢ with hlast
    exact h (.replyMore havail (Nat.lt_of_not_le hlast)) hP
  · intro r rs s havail hP hreturn
    unfold replyPass at hreturn ⊢
    split_ifs at hreturn ⊢ with hlast
    exact h (.replyLast havail hlast) hP
  · intro rs s hP hfull
    exact h (.replyFull hfull) hP

theorem sendMargin (h : Keeps mem P P) (tcp : List TcpAnswer) (s : Client)
    (hs : P (.margin tcp) s) : P .idle (Migration.sendMargin mem tcp s) := by
  refine whileAvail_rule (P := fun rs s => P (.margin rs) s) ?_ ?_ ?_ tcp s hs
  · intro r rs s havail hP hmore
    unfold sendMarginPass at hmore ⊢
    by_cases hlast : s.seq.sendSize ≤ s.seq.sendNum + 1
    · rw [if_pos hlast] at hmore ⊢
      cases htype : s.seq.mType with
      | margin06sp =>
        simp only [MarginType.next]
        exact h (.marginDefault havail hlast htype) hP
      | _ => simp [htype, MarginType.next] at hmore
    · rw [if_neg hlast] at hmore ⊢
      exact h (.marginMore havail (Nat.lt_of_not_le hlast) hmore) hP
  · intro r rs s havail hP hreturn
    unfold sendMarginPass at hreturn ⊢
    by_cases hlast : s.seq.sendSize ≤ s.seq.sendNum + 1
    · rw [if_pos hlast] at hreturn ⊢
      cases hnext : s.seq.mType.next with
      | some next => exact h (.marginBatchEnd havail hlast hnext) hP
      | none =>
        rw [hnext] at hreturn
        cases htype : s.seq.mType with
        | marginBuff => exact h (.marginBuffEnd havail hlast htype) hP
        | noMargin => exact h (.unitEnd havail hlast htype) hP
        | margin06sp => simp [htype] at hreturn
        | _ => simp [htype, MarginType.next] at hnext
    · rw [if_neg hlast] at hreturn ⊢
      exact h (.marginMoreFailed havail (Nat.lt_of_not_le hlast) hreturn) hP
  · intro rs s hP hfull
    exact h (.marginFull hfull) hP

theorem sendMargins (h : Keeps mem P P) (tcp : List TcpAnswer) (s : Client)
    (hs : P (.ready tcp) s) : P .idle (Migration.sendMargins mem tcp s) := by
  unfold Migration.sendMargins
  split_ifs with hcalled hless
  · exact h (.readyCalled hcalled) hs
  · rw [not_or] at hcalled
    have hfresh : s.seq.called s.seq.mType = false := by simpa using hcalled.2
    rw [sendMarginLessThan1kb]
    cases tcp with
    | nil => exact h (.readyLess hless hfresh (by simp [Full])) hs
    | cons r rs =>
      rw [ifSendbuf]
      split_ifs with havail
      · exact h (.readyLessSent hless hfresh havail) hs
      · exact h (.readyLess hless hfresh (by simpa [Full] using havail)) hs
  · rw [not_or] at hcalled
    have hfresh : s.seq.called s.seq.mType = false := by simpa using hcalled.2
    exact h.sendMargin tcp _ (h (.readyStart ⟨hless, hcalled.1⟩ hfresh) hs)

theorem sentCallback (h : Keeps mem P P) {len : Nat} {tcp : List TcpAnswer} {s : Client}
    (hs : P (.start (.ack len tcp)) s) (hpos : 0 < len) (hlen : len ≤ s.tcp.unacked) :
    P .idle (Migration.sentCallback mem tcp (s.acked len)) := by
  have hsent : (s.acked len).tcp.sent = s.tcp.sent := rfl
  unfold Migration.sentCallback
  rw [hsent]
  cases hcb : s.tcp.sent with
  | cpuRecvCallback => exact h.sendMargins tcp _ (h (.ackCpu hpos hlen hcb) hs)
  | sendMargins => exact h.sendMargins tcp _ (h (.ackMargins hpos hlen hcb) hs)
  | sendMargin => exact h.sendMargin tcp _ (h (.ackMargin hpos hlen hcb) hs)
  | marginsSent => exact h (.ackNone hpos hlen (.inl hcb)) hs
  | postcopyRequested f => exact h.reply f tcp _ (h (.ackReply hpos hlen hcb) hs)
  | postcopyRequestedSent => exact h (.ackNone hpos hlen (.inr hcb)) hs
  | migrationDoneSent => exact h (.ackDone hpos hlen hcb) hs

theorem postcopySeqTask (h : Keeps mem P P) {tcp : List TcpAnswer} {s : Client}
    (hs : P (.start (.thread tcp)) s) (hturn : SeqTurn s)
    (htrans : s.seq.isTransmitting = false)
    (hdis : s.req.requestRecvDisrupted = true → s.seq.seqThreadIsTransmitting = true) :
    P .idle (Migration.postcopySeqTask mem tcp s) := by
  unfold Migration.postcopySeqTask
  rcases hstart : getStartAddr s.bitarray s.seq.nextStart with ⟨a, next⟩
  simp only
  split_ifs with hend
  · subst hend
    rw [finishSeqTask, sendMigrationDone]
    cases tcp with
    | nil => exact h (.threadFinish hturn htrans hstart (by simp [Full])) hs
    | cons r rs =>
      rw [ifSendbuf]
      split_ifs with havail
      · exact h (.threadFinishSent hturn htrans hstart havail) hs
      · exact h (.threadFinish hturn htrans hstart (by simpa [Full] using havail)) hs
  · exact h.sendMargin tcp _ (h (.threadUnit hturn htrans hdis hstart hend) hs)

theorem seqTransmitThread (h : Keeps mem P P) {tcp : List TcpAnswer} {s : Client}
    (hs : P (.start (.thread tcp)) s) (hrun : s.seq.thread = .running) :
    P .idle (Migration.seqTransmitThread mem tcp s) := by
  unfold Migration.seqTransmitThread
  by_cases hdone : s.seq.migrationDone = true
  · rw [if_pos hdone]
    split_ifs with hsent
    · exact h (.threadExit hrun hdone hsent) hs
    · have hsent : s.seq.migrationDoneMsgSent = false := by simpa using hsent
      cases tcp with
      | nil => exact h (.stay hrun (.inl ⟨hdone, hsent, by simp [Full]⟩)) hs
      | cons r rs =>
        rw [sendMigrationDone, ifSendbuf]
        split_ifs with havail
        · exact h (.threadDone hrun hdone havail hsent) hs
        · exact h (.stay hrun (.inl ⟨hdone, hsent, by simpa [Full] using havail⟩)) hs
  rw [if_neg hdone]
  have hdone : s.seq.migrationDone = false := by simpa using hdone
  by_cases hreq : s.req.noRequest = true
  · rw [if_pos hreq]
    have hturn : SeqTurn s := ⟨hrun, hdone, hreq⟩
    by_cases htrans : s.seq.isTransmitting = true
    · rw [if_pos htrans]
      split_ifs with hfail
      · exact h.sendMargin tcp _ (h (.threadMargin hturn htrans hfail) hs)
      · exact h (.stay hrun (.inr (.inl ⟨hturn, htrans, by simpa using hfail⟩))) hs
    rw [if_neg htrans]
    have htrans : s.seq.isTransmitting = false := by simpa using htrans
    by_cases hdis : (s.req.requestRecvDisrupted && !s.seq.seqThreadIsTransmitting) = true
    · rw [if_pos hdis, sendDisruptedAddr]
      rw [Bool.and_eq_true, Bool.not_eq_true'] at hdis
      split_ifs with hmark
      · exact h (.threadClear hturn htrans hdis.1 hmark) hs
      · exact h.reply _ tcp _
          (h (.threadDisrupted hturn htrans hdis.2 hdis.1 (by simpa using hmark)) hs)
    · rw [if_neg hdis]
      refine h.postcopySeqTask hs hturn htrans fun hd => ?_
      simpa [hd] using hdis
  rw [if_neg hreq]
  have hreq : s.req.noRequest = false := by simpa using hreq
  cases hdis : s.req.requestRecvDisrupted with
  | true =>
    rw [if_pos rfl]
    split_ifs with hfail
    · exact h.reply _ tcp _ (h (.threadReply hrun hdone hreq (by simp [hdis]) hfail) hs)
    · exact h (.stay hrun (.inr (.inr ⟨hdone, hreq, .disrupted, by simp [hdis], by simpa using hfail⟩))) hs
  | false =>
    rw [if_neg (by simp)]
    split_ifs with hfail
    · exact h.reply _ tcp _ (h (.threadReply hrun hdone hreq (by simp [hdis]) hfail) hs)
    · exact h (.stay hrun (.inr (.inr ⟨hdone, hreq, .requested, by simp [hdis], by simpa using hfail⟩))) hs

theorem echoClientRecv (h : Keeps mem P P) {addr : Nat} {tcp : List TcpAnswer} {s : Client}
    (hs : P (.start (.request addr tcp)) s) (haddr : vtMigrationRange addr = true) :
    P .idle (Migration.echoClientRecv mem addr tcp s) := by
  unfold Migration.echoClientRecv requestRecv
  split_ifs with hmark htrans
  · exact h (.requestMarked haddr hmark) hs
  · exact h (.requestDeferred haddr (by simpa [setRequestedAddr] using hmark) htrans) hs
  · exact h.reply _ tcp _ (h (.requestReply haddr (by simpa [setRequestedAddr] using hmark)
      (by simpa [setRequestedAddr] using htrans)) hs)

/-- A step keeps an assertion that every piece keeps. -/
theorem step (h : Keeps mem P P) {s s' : Client} {e : ClientEvent} (hs : P (.start e) s)
    (hstep : s.step mem e = some s') : P .idle s' := by
  cases e with
  | ack len tcp =>
    rw [Client.step] at hstep
    split_ifs at hstep with hlen
    cases hstep
    exact h.sentCallback hs hlen.1 hlen.2
  | thread tcp =>
    rw [Client.step] at hstep
    split_ifs at hstep with hrun
    cases hstep
    exact h.seqTransmitThread hs hrun
  | request addr tcp =>
    rw [Client.step] at hstep
    split_ifs at hstep with haddr
    cases hstep
    exact h.echoClientRecv hs haddr

/-- An assertion that the start meets and every piece keeps holds in every state of the runs whose
steps meet `C`, which may be used when an event happens. -/
theorem reachable {C : Client → ClientEvent → Prop} (h : Keeps mem P P)
    (hinit : ∀ q r, q < 2 ^ 32 → P .idle (Client.start mem q r))
    (hstart : ∀ s e, P .idle s → C s e → P (.start e) s) {s : Client}
    (hs : (clientMachine mem).ReachableWhen C s) : P .idle s := by
  refine hs.invariant ?_ fun s e s' hI hC hstep => h.step (hstart s e hI hC) hstep
  rintro s ⟨q, r, hq, rfl⟩
  exact hinit q r hq

end Keeps

end

end OnDemandVirt.Migration
