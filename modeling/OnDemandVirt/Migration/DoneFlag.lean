import OnDemandVirt.Migration.Background

/-!
# The flag for the message that ends the migration

`migration_done_msg_sent` is set by `migration_done_sent`, a `tcp_sent` callback that
`send_migration_done` registers before it knows whether `tcp_write` takes the message, and that
every acknowledgement runs. So the flag is sound in the runs in which no acknowledgement arrives
while a refused message is the reason for the registration (`flagSound_of_noEarlyAck`), and one
such acknowledgement is enough to set it for nothing (`not_flagSound_earlyAck`).
-/

namespace OnDemandVirt.Migration

open Lib

/-- A message that ends the migration has been queued. -/
def DoneQueued (s : Client) : Prop := ∃ q ∈ s.tcp.queue, q.msg.protoId = .migDone

/-- `tcp_write` has refused such a message. -/
def DoneRefused (s : Client) : Prop := ∃ q ∈ s.tcp.refused, q.msg.protoId = .migDone

/-- `migration_done_msg_sent` is true only when the message has been queued. -/
def FlagSound (s : Client) : Prop := s.seq.migrationDoneMsgSent = true → DoneQueued s

/-- `migration_done_sent` is registered only together with a message. -/
def Tried (s : Client) : Prop :=
  s.tcp.sent = .migrationDoneSent → DoneQueued s ∨ DoneRefused s

/-- No acknowledgement runs `migration_done_sent` after the message was refused and before it is
queued. -/
def NoEarlyAck (s : Client) : ClientEvent → Prop
  | .ack _ _ => s.tcp.sent = .migrationDoneSent → DoneRefused s → DoneQueued s
  | _ => True

variable {mem : GuestMem} {p p' : Point} {s s' : Client}

/-! ### What a piece of a step does -/

theorem Piece.doneQueued_mono (h : Piece mem p s p' s') (hs : DoneQueued s) : DoneQueued s' := by
  obtain ⟨q, hq, hid⟩ := hs
  exact ⟨q, h.queue_mono hq, hid⟩

theorem Piece.doneRefused_mono (h : Piece mem p s p' s') (hs : DoneRefused s) : DoneRefused s' := by
  obtain ⟨q, hq, hid⟩ := hs
  exact ⟨q, h.refused_mono hq, hid⟩

/-- The message is handed to `tcp_write`, which takes it or refuses it. -/
theorem tried_of_offers {r : TcpAnswer} {q : Queued} (h : Offers r q s s')
    (hid : q.msg.protoId = .migDone) : DoneQueued s' ∨ DoneRefused s' := by
  cases hw : r.wrote with
  | true =>
    refine .inl ⟨q, ?_, hid⟩
    rw [h.queue, hw]
    simp
  | false =>
    refine .inr ⟨q, ?_, hid⟩
    rw [h.refused, hw]
    simp

/-- `migration_done_sent` is registered by the two pieces that hand the message to `tcp_write`. -/
theorem Piece.registers (h : Piece mem p s p' s') (hsent : s'.tcp.sent = .migrationDoneSent) :
    s.tcp.sent = .migrationDoneSent ∨ DoneQueued s' ∨ DoneRefused s' := by
  cases h with
  | threadDone => exact .inr (tried_of_offers (offers_tcpWrite .migrationDoneSent rfl) rfl)
  | threadFinishSent => exact .inr (tried_of_offers (offers_tcpWrite .migrationDoneSent rfl) rfl)
  | replyMore => simp [Migration.replyMore] at hsent
  | replyLast => simp [Migration.replyLast] at hsent
  | marginMore => simp [Migration.marginMore] at hsent
  | marginMoreFailed => simp [Migration.marginMore] at hsent
  | marginBatchEnd => simp [Migration.marginBatchEnd] at hsent
  | marginBuffEnd => simp [Migration.marginBuffEnd] at hsent
  | unitEnd => simp [Migration.unitEnd] at hsent
  | readyLessSent => simp [lessThan1kb] at hsent
  | threadDisrupted => simp [startReply] at hsent
  | requestReply => simp [startReply] at hsent
  | _ => exact .inl hsent

/-- The flag is set by an acknowledgement that runs `migration_done_sent`. -/
theorem Piece.sets_flag (h : Piece mem p s p' s') (hflag : s'.seq.migrationDoneMsgSent = true) :
    s.seq.migrationDoneMsgSent = true ∨
      s.tcp.sent = .migrationDoneSent ∧ ∃ len tcp, p = .start (.ack len tcp) := by
  cases h with
  | ackDone _ _ hsent => exact .inr ⟨hsent, _, _, rfl⟩
  | _ => exact .inl hflag

/-! ### Sound runs -/

/-- What holds at each point of a step. -/
def flagAt : Assertion
  | .start e, s => (Tried s ∧ FlagSound s) ∧ NoEarlyAck s e
  | _, s => Tried s ∧ FlagSound s

theorem flagAt_of (h : Tried s ∧ FlagSound s) (hp : ∀ e, p ≠ .start e) : flagAt p s := by
  cases p with
  | start e => exact absurd rfl (hp e)
  | _ => exact h

theorem of_flagAt (h : flagAt p s) : Tried s ∧ FlagSound s := by
  cases p with
  | start e => exact h.1
  | _ => exact h

/-- Only the beginning of a step is before an event. -/
theorem Piece.ne_start (h : Piece mem p s p' s') (e : ClientEvent) : p' ≠ .start e := by
  cases h <;> exact fun he => nomatch he

theorem keeps_flag (mem : GuestMem) : Keeps mem flagAt flagAt := by
  intro p s p' s' hp h
  obtain ⟨htried, hsound⟩ := of_flagAt h
  refine flagAt_of ⟨fun hsent => ?_, fun hflag => ?_⟩ hp.ne_start
  · rcases hp.registers hsent with hs | hnew
    · exact (htried hs).imp hp.doneQueued_mono hp.doneRefused_mono
    · exact hnew
  · rcases hp.sets_flag hflag with hs | ⟨hsent, len, tcp, rfl⟩
    · exact hp.doneQueued_mono (hsound hs)
    · have hearly : NoEarlyAck s (.ack len tcp) := h.2
      exact hp.doneQueued_mono ((htried hsent).elim id (hearly hsent))

/-- In every run without such an acknowledgement the flag is sound in every state. -/
theorem flagSound_of_noEarlyAck (mem : GuestMem) (s : Client)
    (hs : (clientMachine mem).ReachableWhen NoEarlyAck s) : FlagSound s := by
  have h : flagAt .idle s := by
    refine (keeps_flag mem).reachable (fun q r _ => ⟨?_, ?_⟩) (fun _ _ hI hC => ⟨hI, hC⟩) hs
    · intro hsent
      simp [Client.start] at hsent
    · intro hflag
      simp [Client.start] at hflag
  exact h.2

/-! ### The way to the end -/

/-- A good pass that began in `s₀` before a unit, at each point: no message ends the migration. -/
def unitPassAt (s₀ : Client) : Assertion
  | .start e, s => s = s₀ ∧ e = goodPass ∧
      (getStartAddr s.bitarray s.seq.nextStart).1 ≠ endOfMemory ∧ ¬ DoneQueued s
  | .margin _, s => s₀.tcp.unacked ≤ s.tcp.unacked ∧ ¬ DoneQueued s ∧
      s.seq.seqMsg.protoId ≠ .migDone
  | .idle, s => s₀.tcp.unacked ≤ s.tcp.unacked ∧ ¬ DoneQueued s
  | _, _ => True

theorem not_doneQueued_of_offers {r : TcpAnswer} {q : Queued} (h : Offers r q s s')
    (hs : ¬ DoneQueued s) (hid : q.msg.protoId ≠ .migDone) : ¬ DoneQueued s' := by
  rintro ⟨x, hx, hdone⟩
  rcases mem_of_offers h hx with hold | rfl
  · exact hs ⟨x, hold, hdone⟩
  · exact hid hdone

theorem not_doneRefused_of_offers {r : TcpAnswer} {q : Queued} (h : Offers r q s s')
    (hs : ¬ DoneRefused s) (hid : q.msg.protoId ≠ .migDone) : ¬ DoneRefused s' := by
  rintro ⟨x, hx, hdone⟩
  rw [h.refused] at hx
  rcases List.mem_append.mp hx with hold | hnew
  · exact hs ⟨x, hold, hdone⟩
  · cases hw : r.wrote with
    | true => simp [hw] at hnew
    | false =>
      simp only [hw, Bool.false_eq_true, if_false, List.mem_singleton] at hnew
      exact hid (hnew ▸ hdone)

/-- Before `migration_done` is set, no message that ends the migration is made. -/
structure Unended (s : Client) : Prop where
  reply : s.req.msg.protoId ≠ .migDone
  none : s.seq.migrationDone = false → (¬ DoneQueued s ∧ ¬ DoneRefused s) ∧
    s.seq.seqMsg.protoId ≠ .migDone

/-- Another message is handed to `tcp_write`. -/
theorem Unended.offer {r : TcpAnswer} {q : Queued} (h : Unended s) (ho : Offers r q s s')
    (hreply : s'.req.msg.protoId ≠ .migDone)
    (hdone : s'.seq.migrationDone = s.seq.migrationDone)
    (hid : s.seq.migrationDone = false →
      q.msg.protoId ≠ .migDone ∧ s'.seq.seqMsg.protoId ≠ .migDone) : Unended s' := by
  refine ⟨hreply, fun hfalse => ?_⟩
  rw [hdone] at hfalse
  obtain ⟨⟨hqueue, hrefused⟩, -⟩ := h.none hfalse
  obtain ⟨hq, hseq⟩ := hid hfalse
  exact ⟨⟨not_doneQueued_of_offers ho hqueue hq, not_doneRefused_of_offers ho hrefused hq⟩, hseq⟩

theorem keeps_unended (mem : GuestMem) : Keeps mem (fun _ => Unended) (fun _ => Unended) := by
  intro p s p' s' hp h
  cases hp with
  | replyMore => exact h.offer (offers_tcpWrite _ rfl) h.reply rfl fun hf => ⟨h.reply, (h.none hf).2⟩
  | replyLast => exact h.offer (offers_tcpWrite _ rfl) nofun rfl fun hf => ⟨nofun, (h.none hf).2⟩
  | marginMore =>
    exact h.offer (offers_tcpWrite _ rfl) h.reply rfl fun hf => ⟨(h.none hf).2, (h.none hf).2⟩
  | marginMoreFailed =>
    exact h.offer (offers_tcpWrite _ rfl) h.reply rfl fun hf => ⟨(h.none hf).2, (h.none hf).2⟩
  | marginBatchEnd =>
    exact h.offer (offers_tcpWrite _ rfl) h.reply rfl fun hf => ⟨(h.none hf).2, (h.none hf).2⟩
  | marginBuffEnd =>
    exact h.offer (offers_tcpWrite _ rfl) h.reply rfl fun _ => ⟨nofun, nofun⟩
  | unitEnd =>
    have hid : s.seq.migrationDone = false → (if s.req.requestedAddr = s.seq.startAddr then
        ProtoId.dataReqMem else s.seq.seqMsg.protoId) ≠ .migDone := by
      intro hf
      split_ifs
      · exact nofun
      · exact (h.none hf).2
    exact h.offer (offers_tcpWrite _ rfl) h.reply rfl fun hf => ⟨hid hf, hid hf⟩
  | readyLessSent =>
    exact h.offer (offers_tcpWrite _ rfl) h.reply rfl fun _ => ⟨nofun, nofun⟩
  | readyLess => exact ⟨h.reply, fun hf => ⟨(h.none hf).1, nofun⟩⟩
  | threadDone _ hdone => exact ⟨h.reply, fun hf => absurd (hdone.symm.trans hf) nofun⟩
  | threadFinish => exact ⟨h.reply, nofun⟩
  | threadFinishSent => exact ⟨h.reply, nofun⟩
  | threadUnit => exact ⟨h.reply, fun hf => ⟨(h.none hf).1, nofun⟩⟩
  | ackCpu => exact ⟨nofun, fun hf => ⟨(h.none hf).1, nofun⟩⟩
  | threadDisrupted => exact ⟨nofun, h.none⟩
  | requestReply => exact ⟨nofun, h.none⟩
  | _ => exact ⟨h.reply, h.none⟩

theorem unended_of_reachable (hs : (clientMachine mem).Reachable s) : Unended s := by
  refine (keeps_unended mem).reachable (fun q r _ => ⟨?_, fun _ => ⟨⟨?_, ?_⟩, ?_⟩⟩)
    (fun _ _ h _ => h) hs
  · simp [Client.start, cpuMsg]
  · simp [Client.start, cpuMsg, DoneQueued]
  · simp [Client.start, cpuMsg, DoneRefused]
  · rintro ⟨⟩

theorem le_unacked {tcp : TcpPcb} {n : Nat} (f : SentFn) (r : TcpAnswer) (q : Queued)
    (h : n ≤ tcp.unacked) : n ≤ ((tcp.tcpSent f).tcpWrite r q).unacked := by
  rw [TcpPcb.tcpWrite_unacked, TcpPcb.tcpSent_unacked]
  exact le_trans h (Nat.le_add_right _ _)

theorem keeps_unitPass (mem : GuestMem) (s₀ : Client) :
    Keeps mem (fun p s => (baseAt p s ∧ passAt s₀ p s) ∧ unitPassAt s₀ p s) (unitPassAt s₀) := by
  rintro p s p' s' hp ⟨⟨⟨⟨hc, -⟩, -⟩, hpass⟩, h⟩
  cases hp with
  | marginMore =>
    obtain ⟨hle, hnot, hid⟩ := h
    exact ⟨le_unacked _ _ _ hle, not_doneQueued_of_offers (offers_tcpWrite _ rfl) hnot hid, hid⟩
  | marginMoreFailed =>
    obtain ⟨hle, hnot, hid⟩ := h
    exact ⟨le_unacked _ _ _ hle, not_doneQueued_of_offers (offers_tcpWrite _ rfl) hnot hid⟩
  | marginBatchEnd =>
    obtain ⟨hle, hnot, hid⟩ := h
    exact ⟨le_unacked _ _ _ hle, not_doneQueued_of_offers (offers_tcpWrite _ rfl) hnot hid⟩
  | marginBuffEnd =>
    obtain ⟨hle, hnot, -⟩ := h
    exact ⟨le_unacked _ _ _ hle, not_doneQueued_of_offers (offers_tcpWrite _ rfl) hnot nofun⟩
  | unitEnd =>
    obtain ⟨hle, hnot, hid⟩ := h
    refine ⟨le_unacked _ _ _ hle, not_doneQueued_of_offers (offers_tcpWrite _ rfl) hnot ?_⟩
    show (if _ then ProtoId.dataReqMem else s.seq.seqMsg.protoId) ≠ .migDone
    split_ifs
    · exact nofun
    · exact hid
  | marginDefault => exact h
  | marginFull => exact ⟨h.1, h.2.1⟩
  | threadUnit =>
    obtain ⟨rfl, -, -, hnot⟩ := h
    exact ⟨le_rfl, hnot, nofun⟩
  | threadMargin _ htrans => simp [hpass.2.1.off] at htrans
  | threadFinish _ _ hstart =>
    obtain ⟨rfl, -, hne, -⟩ := h
    exact absurd (congrArg Prod.fst hstart) hne
  | threadFinishSent _ _ hstart =>
    obtain ⟨rfl, -, hne, -⟩ := h
    exact absurd (congrArg Prod.fst hstart) hne
  | stay =>
    obtain ⟨rfl, -, -, hnot⟩ := h
    exact ⟨le_rfl, hnot⟩
  | threadExit =>
    obtain ⟨rfl, -, -, hnot⟩ := h
    exact ⟨le_rfl, hnot⟩
  | threadClear =>
    obtain ⟨rfl, -, -, hnot⟩ := h
    exact ⟨le_rfl, hnot⟩
  | threadDone _ hdone => simp [hpass.2.1.notDone] at hdone
  | replyLast => exact hpass.elim
  | replyFull => exact hpass.elim
  | readyCalled => exact hpass.elim
  | readyStart => exact hpass.elim
  | readyLess => exact hpass.elim
  | readyLessSent => exact hpass.elim
  | replyMore => trivial
  | threadDisrupted => trivial
  | threadReply => trivial
  | _ => cases h.2.1

/-- The walk is at its end, and the message that ends the migration has not been tried. -/
structure AtEnd (s : Client) : Prop extends BetweenUnits s where
  ended : (getStartAddr s.bitarray s.seq.nextStart).1 = endOfMemory
  notQueued : ¬ DoneQueued s

/-- Good passes lead to the end of the walk, and nothing is acknowledged on the way. -/
theorem reaches_atEnd {C : Client → ClientEvent → Prop}
    (hC : ∀ s, BetweenUnits s → C s goodPass) (hs : (clientMachine mem).ReachableWhen C s)
    (hb : BetweenUnits s) (hnot : ¬ DoneQueued s) :
    ∃ t, (clientMachine mem).ReachableWhen C t ∧ AtEnd t ∧ s.tcp.unacked ≤ t.tcp.unacked := by
  -- every pass moves the walk on
  induction hn : endOfMemory - s.seq.nextStart using Nat.strong_induction_on generalizing s with
  | _ n ih =>
    by_cases hend : (getStartAddr s.bitarray s.seq.nextStart).1 = endOfMemory
    · exact ⟨s, hs, ⟨hb, hend, hnot⟩, le_rfl⟩
    · have hbase : baseAt .idle s :=
        (keeps_base mem).reachable (fun q r _ => base_start mem q r) (fun _ _ h _ => h) hs
      have hstep : (clientMachine mem).step s goodPass =
          some (seqTransmitThread mem (List.replicate batchSize goodAnswer) s) := if_pos hb.running
      have hkeeps := ((keeps_base mem).and (keeps_pass mem s)).and (keeps_unitPass mem s)
      obtain ⟨⟨hbase₁, hpassed⟩, hle, hnot₁⟩ :=
        hkeeps.step (s := s) (e := goodPass) ⟨⟨hbase, rfl, hb, rfl⟩, rfl, rfl, hend, hnot⟩ hstep
      rcases hpassed with ⟨-, ⟨hb₁, hlt, -⟩ | ⟨q, hq, hdone⟩⟩
      · have hwalk : WalkAt (seqTransmitThread mem (List.replicate batchSize goodAnswer) s).seq.nextStart :=
          hbase₁.1.2.1.walk
        have hend₁ : (seqTransmitThread mem (List.replicate batchSize goodAnswer) s).seq.nextStart ≤
            endOfMemory := by
          rcases hwalk with he | hu
          · exact he.le
          · exact (lt_trans hu.lt (by decide)).le
        obtain ⟨t, ht, hat, hle'⟩ := ih _ (by omega) (.step hs (hC s hb) hstep) hb₁ hnot₁ rfl
        exact ⟨t, ht, hat, hle.trans hle'⟩
      · exact absurd ⟨q, by rw [hq]; simp, hdone⟩ hnot₁

/-- The pass at the end of the walk hands the message to `tcp_write`. -/
theorem lastPass {t : Client} (h : AtEnd t) {r : TcpAnswer}
    (havail : tcpSendbufAvailable r.sndbuf = true) : (clientMachine mem).step t (.thread [r]) =
      some (setMigrationDone (migrationDoneMsg r (noUnitLeft t))) := by
  have hstart : getStartAddr t.bitarray t.seq.nextStart =
      (endOfMemory, (getStartAddr t.bitarray t.seq.nextStart).2) := Prod.ext h.ended rfl
  show (if t.seq.thread = .running then _ else _) = _
  rw [if_pos h.running, seqTransmitThread, if_neg (by simp [h.notDone]), if_pos h.noRequest,
    if_neg (by simp [h.off]), if_neg (by simp [h.free]), postcopySeqTask, hstart]
  show some (setMigrationDone (sendMigrationDone [r] (noUnitLeft t))) = _
  rw [sendMigrationDone, ifSendbuf, if_pos havail]

/-- The next acknowledgement sets the flag. -/
theorem lastAck (hsent : s.tcp.sent = .migrationDoneSent) (hunacked : 0 < s.tcp.unacked) :
    (clientMachine mem).step s (.ack 1 []) = some (setMigrationDoneMsgSent (s.acked 1)) := by
  have hacked : (s.acked 1).tcp.sent = .migrationDoneSent := hsent
  show (if 0 < 1 ∧ 1 ≤ s.tcp.unacked then some (sentCallback mem [] (s.acked 1)) else none) = _
  rw [if_pos ⟨Nat.one_pos, hunacked⟩, sentCallback, hacked]

/-! ### Two runs -/

theorem doneRefused_run (es : List ClientEvent) (hrun : (clientMachine mem).run s es = some s')
    (h : DoneRefused s) : DoneRefused s' := by
  induction es generalizing s with
  | nil =>
    cases hrun
    exact h
  | cons e es ih =>
    obtain ⟨t, hst, hts⟩ := Option.bind_eq_some_iff.mp hrun
    have hkeeps : Keeps mem (fun _ s => DoneRefused s) (fun _ s => DoneRefused s) :=
      fun _ _ _ _ hp h => hp.doneRefused_mono h
    exact ih hts (hkeeps.step h hst)

/-- A run in which no message that ends the migration was refused has no early acknowledgement. -/
theorem noEarlyAck_run (es : List ClientEvent) (hs : (clientMachine mem).ReachableWhen NoEarlyAck s)
    (hrun : (clientMachine mem).run s es = some s') (hnot : ¬ DoneRefused s') :
    (clientMachine mem).ReachableWhen NoEarlyAck s' := by
  induction es generalizing s with
  | nil =>
    cases hrun
    exact hs
  | cons e es ih =>
    have hearly : NoEarlyAck s e := by
      cases e with
      | ack => exact fun _ hr => absurd (doneRefused_run _ hrun hr) hnot
      | _ => trivial
    obtain ⟨t, hst, hts⟩ := Option.bind_eq_some_iff.mp hrun
    exact ih (.step hs hearly hst) hts

/-- The margins and the answer to a request. -/
def marginsOverEvents : List ClientEvent := allMarginAcks ++ [goodRequest 0x100000 batchSize]

set_option maxRecDepth 100000 in
/-- After them the thread is between two units and bytes are unacknowledged. -/
theorem marginsOver_run :
    ((clientMachine fun _ => 0).run freshClient marginsOverEvents).map
      (fun s => ((s.seq.thread, s.seq.migrationDone, s.req.noRequest, s.seq.isTransmitting,
        s.req.requestRecvDisrupted), decide (0 < s.tcp.unacked))) =
      some ((.running, false, true, false, false), true) := by
  decide

/-- The end of the walk is reached, with bytes unacknowledged. -/
theorem exists_atEnd : ∃ t, (clientMachine fun _ => 0).ReachableWhen NoEarlyAck t ∧ AtEnd t ∧
    0 < t.tcp.unacked := by
  obtain ⟨s, hrun, hfields⟩ := Option.map_eq_some_iff.mp marginsOver_run
  simp only [Prod.mk.injEq] at hfields
  obtain ⟨⟨hthread, hdone, hreq, hoff, hfree⟩, hunacked⟩ := hfields
  have hstart : (clientMachine fun _ => 0).ReachableWhen NoEarlyAck freshClient :=
    .init ⟨0, goodAnswer, by decide, rfl⟩
  have hnone := (unended_of_reachable (Machine.Reachable.run hstart.reachable _ hrun)).none hdone
  have hs := noEarlyAck_run _ hstart hrun hnone.1.2
  obtain ⟨t, ht, hat, hle⟩ := reaches_atEnd (fun _ _ => trivial) hs
    ⟨⟨hthread, hdone, hreq⟩, hoff, hfree⟩ hnone.1.1
  exact ⟨t, ht, hat, lt_of_lt_of_le (of_decide_eq_true hunacked) hle⟩

/-- The message is queued, and the next acknowledgement sets the flag. -/
theorem flagSound_lastAck : ∃ s : Client, s.seq.migrationDoneMsgSent = true ∧ DoneQueued s := by
  obtain ⟨t, ht, hat, hunacked⟩ := exists_atEnd
  let u := setMigrationDone (migrationDoneMsg goodAnswer (noUnitLeft t))
  have hu : (clientMachine fun _ => 0).ReachableWhen NoEarlyAck u := by
    have hearly : NoEarlyAck t (.thread [goodAnswer]) := trivial
    exact .step ht hearly (lastPass hat goodAnswer_available)
  have hqueued : DoneQueued u := by
    refine ⟨⟨.sendMigrationDone, { t.seq.seqMsg with protoId := .migDone }⟩, ?_, rfl⟩
    simp [u, setMigrationDone, migrationDoneMsg, noUnitLeft, goodAnswer]
  have hleft : 0 < u.tcp.unacked :=
    le_unacked .migrationDoneSent goodAnswer ⟨.sendMigrationDone, _⟩ hunacked
  have hearly : NoEarlyAck u (.ack 1 []) := fun _ _ => hqueued
  have hacked := Machine.ReachableWhen.step hu hearly (lastAck rfl hleft)
  exact ⟨_, rfl, flagSound_of_noEarlyAck (fun _ => 0) _ hacked rfl⟩

/-- `tcp_write` refuses the message, and then bytes that were queued before are acknowledged. -/
theorem not_flagSound_earlyAck : ¬ ∀ (mem : GuestMem) (s : Client),
    (clientMachine mem).Reachable s → FlagSound s := by
  intro hall
  obtain ⟨t, ht, hat, hunacked⟩ := exists_atEnd
  have hrefused := Machine.ReachableWhen.step ht.reachable trivial
    (lastPass (r := badAnswer) hat (by decide))
  have hacked := Machine.ReachableWhen.step hrefused trivial (lastAck rfl hunacked)
  have hqueued := hall _ _ hacked rfl
  exact hat.notQueued hqueued

end OnDemandVirt.Migration
