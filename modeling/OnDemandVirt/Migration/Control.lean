import OnDemandVirt.Migration.StepRule

/-!
# Where the margins and the background copy stand

`Control` relates the counters of `send_margin`, the margin type, the flags of the background
thread and the registered callback, in every state of every run. A margin or a unit that is being
sent has its batch counter and its `send_num` in step (`Busy`), except for a unit whose last
message was refused (`LastRefused`): the counters were reset and the flags were not.
-/

namespace OnDemandVirt.Migration

open Lib

namespace SeqState

/-- Batches are left, and the next one is `send_num`. -/
def Busy (t : SeqState) : Prop := t.batch = t.sendNum ∧ t.sendNum < t.sendSize

/-- All batches were tried, the counter of batches starts over, the unit is not over. -/
def LastRefused (t : SeqState) : Prop := t.batch = 0 ∧ t.sendSize ≤ t.sendNum

/-- A margin of `send_margin` has been started and is not over. -/
@[mk_iff] structure InMargin (t : SeqState) : Prop where
  thread : t.thread = .notCreated
  whole : t.mType.Whole
  called : t.called t.mType = true

/-- A background unit has been started and is not over. -/
@[mk_iff] structure InUnit (t : SeqState) : Prop where
  transmitting : t.isTransmitting = true
  thread : t.thread ≠ .notCreated
  notDone : t.migrationDone = false
  size : t.sendSize = batchSize

/-- What is known before a pass of `send_margin`. -/
def Active (t : SeqState) : Prop :=
  (t.InUnit ∧ (t.Busy ∨ t.LastRefused)) ∨ (t.InMargin ∧ t.Busy)

/-- The variables that no loop counter, phase or callback depends on. -/
def setMisc (t : SeqState) (m : BfMsg) (fail sent : Bool) : SeqState :=
  { t with seqMsg := m, failToSendSeq := fail, migrationDoneMsgSent := sent }

variable {t : SeqState} {m : BfMsg} {fail sent : Bool}

@[simp] theorem inMargin_setMisc : (t.setMisc m fail sent).InMargin ↔ t.InMargin := by
  simp only [inMargin_iff, setMisc]

@[simp] theorem inUnit_setMisc : (t.setMisc m fail sent).InUnit ↔ t.InUnit := by
  simp only [inUnit_iff, setMisc]

@[simp] theorem active_setMisc : (t.setMisc m fail sent).Active ↔ t.Active := by
  simp only [Active, inMargin_setMisc, inUnit_setMisc]
  rfl

end SeqState

/-- The control invariant of the margins and the background copy. -/
structure Control (s : Client) : Prop where
  mirror : s.seq.seqThreadIsTransmitting = s.seq.isTransmitting
  unit : s.seq.isTransmitting = true → s.seq.InUnit ∧ (s.seq.Busy ∨ s.seq.LastRefused)
  created : s.seq.thread ≠ .notCreated → s.seq.mType = .noMargin
  between : s.seq.thread ≠ .notCreated → s.seq.isTransmitting = false → s.seq.batch = 0
  resumes : s.tcp.sent = .sendMargin → s.seq.Busy ∧ (s.seq.InUnit ∨ s.seq.InMargin)
  margins : s.tcp.sent = .sendMargins → s.seq.thread = .notCreated
  cpu : s.tcp.sent = .cpuRecvCallback → s.seq.thread = .notCreated ∧ s.seq.mType = .margin00
  fresh : s.seq.thread = .notCreated → s.seq.mType ≠ .noMargin →
    s.seq.called s.seq.mType = false → s.seq.batch = 0
  later : ∀ t, s.seq.mType.index < t.index → s.seq.called t = false

/-- `send_margins` is only ever entered before the thread exists. -/
structure AtMargins (s : Client) : Prop where
  thread : s.seq.thread = .notCreated
  sent : s.tcp.sent = .cpuRecvCallback ∨ s.tcp.sent = .sendMargins

/-- The control invariant at each point of a step. -/
def controlAt : Assertion
  | .margin _, s => Control s ∧ s.seq.Active
  | .ready _, s => Control s ∧ AtMargins s
  | _, s => Control s

namespace MarginType

theorem next_ne {t u : MarginType} (h : t.next = some u) : t ≠ .noMargin ∧ u ≠ .noMargin := by
  cases t <;> simp_all [next] <;> subst h <;> simp

theorem index_next {t u : MarginType} (h : t.next = some u) : u.index = t.index + 1 := by
  cases t <;> simp_all [next] <;> subst h <;> rfl

theorem index_injective {t u : MarginType} (h : t.index = u.index) : t = u := by
  cases t <;> cases u <;> simp_all [index]

end MarginType

namespace Control

variable {mem : GuestMem} {s s' : Client}

theorem start (q : Nat) (r : TcpAnswer) : Control (Client.start mem q r) where
  mirror := rfl
  unit := by simp [Client.start]
  created := by simp [Client.start]
  between := by simp [Client.start]
  resumes := by simp [Client.start]
  margins := by simp [Client.start]
  cpu _ := ⟨rfl, rfl⟩
  fresh _ _ _ := rfl
  later _ _ := rfl

/-- The three callbacks that send margins and units. -/
def SeqCallback (f : SentFn) : Prop := f = .sendMargin ∨ f = .sendMargins ∨ f = .cpuRecvCallback

/-- Steps that leave margins and units alone. -/
theorem of_misc (h : Control s) {m : BfMsg} {fail sent : Bool}
    (hseq : s'.seq = s.seq.setMisc m fail sent)
    (hsent : s'.tcp.sent = s.tcp.sent ∨ ¬ SeqCallback s'.tcp.sent) : Control s' := by
  have hcb : ∀ f, SeqCallback f → s'.tcp.sent = f → s.tcp.sent = f := by
    rintro f hf rfl
    exact (hsent.resolve_right (not_not_intro hf)).symm
  exact {
    mirror := by rw [hseq]; exact h.mirror
    unit := by
      rw [hseq, SeqState.inUnit_setMisc]
      exact h.unit
    created := by rw [hseq]; exact h.created
    between := by rw [hseq]; exact h.between
    resumes := by
      rw [hseq, SeqState.inUnit_setMisc, SeqState.inMargin_setMisc]
      exact fun hs => h.resumes (hcb _ (.inl rfl) hs)
    margins := by
      rw [hseq]
      exact fun hs => h.margins (hcb _ (.inr (.inl rfl)) hs)
    cpu := by
      rw [hseq]
      exact fun hs => h.cpu (hcb _ (.inr (.inr rfl)) hs)
    fresh := by rw [hseq]; exact h.fresh
    later := by rw [hseq]; exact h.later }

theorem of_seq (h : Control s) (hseq : s'.seq = s.seq)
    (hsent : s'.tcp.sent = s.tcp.sent ∨ ¬ SeqCallback s'.tcp.sent) : Control s' :=
  @of_misc _ _ h s.seq.seqMsg s.seq.failToSendSeq s.seq.migrationDoneMsgSent hseq hsent

/-- A margin or a unit that is started or being sent. -/
theorem inMargin_of_active (h : Control s) (hact : s.seq.Active) (ht : s.seq.mType ≠ .noMargin) :
    s.seq.InMargin ∧ s.seq.Busy := by
  rcases hact with ⟨hu, -⟩ | hm
  · exact absurd (h.created hu.thread) ht
  · exact hm

theorem inUnit_of_active (hact : s.seq.Active) (ht : s.seq.mType = .noMargin) : s.seq.InUnit := by
  rcases hact with ⟨hu, -⟩ | ⟨hm, -⟩
  · exact hu
  · exact absurd ht hm.whole.2

theorem not_transmitting (h : Control s) (ht : s.seq.thread = .notCreated) :
    s.seq.isTransmitting = false := by
  cases hi : s.seq.isTransmitting with
  | false => rfl
  | true => exact absurd ht (h.unit hi).1.thread

/-- Before `send_margin` has sent its last batch, the counters are in step. -/
theorem busy_of_more (hact : s.seq.Active) (hmore : s.seq.sendNum + 1 < s.seq.sendSize) :
    s.seq.Busy := by
  rcases hact with ⟨-, hb | hl⟩ | ⟨-, hb⟩
  · exact hb
  · have := hl.2
    omega
  · exact hb

theorem marginMore (h : Control s) (hact : s.seq.Active)
    (hmore : s.seq.sendNum + 1 < s.seq.sendSize) (r : TcpAnswer) :
    Control (marginMore mem r s) ∧ (Migration.marginMore mem r s).seq.Active := by
  have hbusy := busy_of_more hact hmore
  have hbusy' : (Migration.marginMore mem r s).seq.Busy := ⟨by simp [Migration.marginMore, hbusy.1], hmore⟩
  have hin : s.seq.InUnit ∨ s.seq.InMargin := hact.imp And.left And.left
  have hin' : (Migration.marginMore mem r s).seq.InUnit ∨
      (Migration.marginMore mem r s).seq.InMargin := hin.imp
    (fun hu => ⟨hu.transmitting, hu.thread, hu.notDone, hu.size⟩) (fun hm => ⟨hm.thread, hm.whole, hm.called⟩)
  refine ⟨{
    mirror := h.mirror
    unit := fun hi => ⟨?_, .inl hbusy'⟩
    created := h.created
    between := fun ht hi => ?_
    resumes := fun _ => ⟨hbusy', hin'⟩
    margins := by simp [Migration.marginMore]
    cpu := by simp [Migration.marginMore]
    fresh := fun ht hn hc => ?_
    later := h.later }, hin'.imp (⟨·, .inl hbusy'⟩) (⟨·, hbusy'⟩)⟩
  · have hu := (h.unit hi).1
    exact ⟨hu.transmitting, hu.thread, hu.notDone, hu.size⟩
  · rcases hin with hu | hm
    · exact absurd hi (by simp [Migration.marginMore, hu.transmitting])
    · exact absurd hm.thread ht
  · rcases hin with hu | hm
    · exact absurd ht hu.thread
    · exact absurd hc (by simp [Migration.marginMore, hm.called])

theorem marginBatchEnd (h : Control s) (hact : s.seq.Active) {next : MarginType}
    (hnext : s.seq.mType.next = some next) (r : TcpAnswer) :
    Control (marginBatchEnd mem next r s) := by
  have hne := MarginType.next_ne hnext
  have hm := (h.inMargin_of_active hact hne.1).1
  have hoff := h.not_transmitting hm.thread
  exact {
    mirror := h.mirror
    unit := fun hi => absurd hi (by simp [Migration.marginBatchEnd, hoff])
    created := fun ht => absurd hm.thread ht
    between := fun ht => absurd hm.thread ht
    resumes := by simp [Migration.marginBatchEnd]
    margins := fun _ => hm.thread
    cpu := by simp [Migration.marginBatchEnd]
    fresh := fun _ _ _ => rfl
    later := fun t ht => by
      have hidx := MarginType.index_next hnext
      have ht : next.index < t.index := ht
      exact h.later t (by omega) }

theorem marginBuffEnd (h : Control s) (hact : s.seq.Active) (htype : s.seq.mType = .marginBuff)
    (r : TcpAnswer) : Control (marginBuffEnd mem r s) := by
  have hm := (h.inMargin_of_active hact (by simp [htype])).1
  have hoff := h.not_transmitting hm.thread
  exact {
    mirror := h.mirror
    unit := fun hi => absurd hi (by simp [Migration.marginBuffEnd, hoff])
    created := fun _ => rfl
    between := fun _ _ => rfl
    resumes := by simp [Migration.marginBuffEnd]
    margins := by simp [Migration.marginBuffEnd]
    cpu := by simp [Migration.marginBuffEnd]
    fresh := fun _ hn => absurd rfl hn
    later := fun t ht => by cases t <;> simp [Migration.marginBuffEnd, MarginType.index] at ht }

theorem unitEnd (h : Control s) (hact : s.seq.Active) (htype : s.seq.mType = .noMargin)
    (hlast : s.seq.sendSize ≤ s.seq.sendNum + 1) (r : TcpAnswer) : Control (unitEnd mem r s) := by
  have hu := inUnit_of_active hact htype
  exact {
    mirror := by simp [Migration.unitEnd, h.mirror]
    unit := fun hi => ⟨⟨hi, hu.thread, hu.notDone, hu.size⟩, .inr ⟨rfl, hlast⟩⟩
    created := h.created
    between := fun _ _ => rfl
    resumes := by simp [Migration.unitEnd]
    margins := by simp [Migration.unitEnd]
    cpu := by simp [Migration.unitEnd]
    fresh := fun ht => absurd ht hu.thread
    later := h.later }

theorem startMargin_sendSize_pos : 0 < (Migration.startMargin s).seq.sendSize := by
  simp only [Migration.startMargin, setSendMargin]
  split
  · exact Nat.one_pos
  · next hn => exact Nat.pos_of_ne_zero hn

theorem startMargin_busy (h : Control s) (hat : AtMargins s) (hne : s.seq.mType ≠ .noMargin)
    (hfresh : s.seq.called s.seq.mType = false) : (Migration.startMargin s).seq.Busy :=
  ⟨h.fresh hat.thread hne hfresh, startMargin_sendSize_pos⟩

theorem startMargin (h : Control s) (hat : AtMargins s) (hwhole : s.seq.mType.Whole)
    (hfresh : s.seq.called s.seq.mType = false) :
    Control (startMargin s) ∧ (Migration.startMargin s).seq.Active := by
  have hoff := h.not_transmitting hat.thread
  have hcalled : (Migration.startMargin s).seq.called (Migration.startMargin s).seq.mType = true := by
    simp [Migration.startMargin, setSendMargin]
  refine ⟨{
    mirror := h.mirror
    unit := fun hi => absurd hi (by simp [Migration.startMargin, setSendMargin, hoff])
    created := h.created
    between := fun ht => absurd hat.thread ht
    resumes := fun hs => absurd hs (by rcases hat.sent with hs' | hs' <;> simp [Migration.startMargin, hs'])
    margins := h.margins
    cpu := h.cpu
    fresh := fun _ _ hc => absurd hc (by simp [hcalled])
    later := fun t ht => ?_ }, .inr ⟨⟨hat.thread, hwhole, hcalled⟩,
      h.startMargin_busy hat hwhole.2 hfresh⟩⟩
  have hne : t ≠ s.seq.mType := fun heq => by
    subst heq
    exact absurd ht (by simp [Migration.startMargin, setSendMargin])
  simpa [Migration.startMargin, setSendMargin, Function.update, hne] using h.later t ht

theorem startMarginLessThan1kb (h : Control s) (hat : AtMargins s) :
    Control (startMarginLessThan1kb s) := by
  have hoff := h.not_transmitting hat.thread
  have hcalled : (Migration.startMarginLessThan1kb s).seq.called s.seq.mType = true := by
    simp [Migration.startMarginLessThan1kb, Migration.startMargin, setSendMargin]
  exact {
    mirror := h.mirror
    unit := fun hi => absurd hi (by
      simp [Migration.startMarginLessThan1kb, Migration.startMargin, setSendMargin, hoff])
    created := h.created
    between := fun ht => absurd hat.thread ht
    resumes := fun hs => absurd hs (by
      rcases hat.sent with hs' | hs' <;>
        simp [Migration.startMarginLessThan1kb, Migration.startMargin, hs'])
    margins := h.margins
    cpu := h.cpu
    fresh := fun _ _ hc => absurd hc (by
      rw [show (Migration.startMarginLessThan1kb s).seq.mType = s.seq.mType from rfl, hcalled]
      simp)
    later := fun t ht => by
      have hne : t ≠ s.seq.mType := fun heq => by
        subst heq
        exact absurd ht (Nat.lt_irrefl _)
      simpa [Migration.startMarginLessThan1kb, Migration.startMargin, setSendMargin,
        Function.update, hne] using h.later t ht }

theorem lessThan1kb (h : Control s) (hat : AtMargins s) (htype : s.seq.mType = .margin06sp)
    (hfresh : s.seq.called s.seq.mType = false) (r : TcpAnswer) :
    Control (lessThan1kb mem r (Migration.startMarginLessThan1kb s)) := by
  have h' := h.startMarginLessThan1kb hat
  have hbatch := h.fresh hat.thread (by simp [htype]) hfresh
  have hoff : (Migration.lessThan1kb mem r (Migration.startMarginLessThan1kb s)).seq.isTransmitting =
      false := h.not_transmitting hat.thread
  exact {
    mirror := h'.mirror
    unit := fun hi => absurd hi (by simp [hoff])
    created := fun ht => absurd hat.thread ht
    between := h'.between
    resumes := by simp [Migration.lessThan1kb]
    margins := fun _ => hat.thread
    cpu := by simp [Migration.lessThan1kb]
    fresh := fun _ _ _ => hbatch
    later := fun t ht => h'.later t (by
      rw [show (Migration.startMarginLessThan1kb s).seq.mType = s.seq.mType from rfl, htype]
      exact lt_trans (show MarginType.margin06sp.index < MarginType.marginBuff.index by decide) ht) }

theorem startUnit_sendSize (a next : Nat) (s : Client) :
    (Migration.startUnit a next s).seq.sendSize = batchSize := by
  simp only [Migration.startUnit, setSendMargin, Nat.add_sub_cancel_left]
  rfl

theorem startUnit_busy (h : Control s) (hturn : SeqTurn s) (hoff : s.seq.isTransmitting = false)
    (a next : Nat) : (Migration.startUnit a next s).seq.Busy :=
  ⟨h.between (by simp [hturn.running]) hoff, by rw [startUnit_sendSize]; exact Nat.succ_pos 31⟩

theorem startUnit (h : Control s) (hturn : SeqTurn s) (hoff : s.seq.isTransmitting = false)
    (a next : Nat) :
    Control (startUnit a next s) ∧ (Migration.startUnit a next s).seq.Active := by
  have hrun : s.seq.thread ≠ .notCreated := by simp [hturn.running]
  have hu : (Migration.startUnit a next s).seq.InUnit :=
    ⟨rfl, hrun, hturn.notDone, startUnit_sendSize a next s⟩
  have hbusy := h.startUnit_busy hturn hoff a next
  refine ⟨{
    mirror := rfl
    unit := fun _ => ⟨hu, .inl hbusy⟩
    created := h.created
    between := fun _ hi => absurd hi (by simp [Migration.startUnit])
    resumes := fun _ => ⟨hbusy, .inl hu⟩
    margins := h.margins
    cpu := h.cpu
    fresh := fun ht => absurd ht hrun
    later := h.later }, .inl ⟨hu, .inl hbusy⟩⟩

theorem noUnitLeft (h : Control s) (hturn : SeqTurn s) (hoff : s.seq.isTransmitting = false) :
    Control (setMigrationDone (noUnitLeft s)) := by
  have hrun : s.seq.thread ≠ .notCreated := by simp [hturn.running]
  exact {
    mirror := rfl
    unit := fun hi => absurd hi (by simp [setMigrationDone, Migration.noUnitLeft])
    created := h.created
    between := fun _ _ => h.between hrun hoff
    resumes := fun hs => by
      rcases (h.resumes hs).2 with hu | hm
      · exact absurd hu.transmitting (by simp [hoff])
      · exact absurd hm.thread hrun
    margins := h.margins
    cpu := h.cpu
    fresh := fun ht => absurd ht hrun
    later := h.later }

theorem not_transmitting_of_done (h : Control s) (hdone : s.seq.migrationDone = true) :
    s.seq.isTransmitting = false := by
  cases hi : s.seq.isTransmitting with
  | false => rfl
  | true => exact absurd (h.unit hi).1.notDone (by simp [hdone])

theorem threadExit (h : Control s) (hrun : s.seq.thread = .running)
    (hdone : s.seq.migrationDone = true) : Control (threadExit s) := by
  have hcreated : s.seq.thread ≠ .notCreated := by simp [hrun]
  have hoff := h.not_transmitting_of_done hdone
  exact {
    mirror := h.mirror
    unit := fun hi => absurd hi (by simp [Migration.threadExit, hoff])
    created := fun _ => h.created hcreated
    between := fun _ _ => h.between hcreated hoff
    resumes := fun hs => by
      rcases (h.resumes hs).2 with hu | hm
      · exact absurd hu.transmitting (by simp [hoff])
      · exact absurd hm.thread hcreated
    margins := fun hs => absurd (h.margins hs) hcreated
    cpu := fun hs => absurd (h.cpu hs).1 hcreated
    fresh := by simp [Migration.threadExit]
    later := h.later }

/-- `cpu_recv_callback` finds the first margin as the next one. -/
theorem startMargins_seq (h : Control s) (hcpu : s.tcp.sent = .cpuRecvCallback) (len : Nat) :
    (Migration.startMargins (s.acked len)).seq =
      s.seq.setMisc (Migration.startMargins (s.acked len)).seq.seqMsg s.seq.failToSendSeq
        s.seq.migrationDoneMsgSent := by
  simp only [Migration.startMargins, SeqState.setMisc, ← (h.cpu hcpu).2]
  rfl

theorem startMargins (h : Control s) (hcpu : s.tcp.sent = .cpuRecvCallback) (len : Nat) :
    Control (startMargins (s.acked len)) ∧ AtMargins (Migration.startMargins (s.acked len)) :=
  ⟨h.of_misc (h.startMargins_seq hcpu len) (.inl rfl), (h.cpu hcpu).1, .inl hcpu⟩

end Control

/-- The control invariant is kept by every piece of a step. -/
theorem keeps_control (mem : GuestMem) : Keeps mem controlAt controlAt := by
  intro p s p' s' hp h
  cases hp with
  | stay => exact h
  | replyMore => exact h.of_seq rfl (.inr (by simp [replyMore, Control.SeqCallback]))
  | replyLast => exact h.of_seq rfl (.inr (by simp [replyLast, Control.SeqCallback]))
  | replyFull => exact h.of_seq rfl (.inl rfl)
  | marginMore _ hmore => exact h.1.marginMore h.2 hmore _
  | marginMoreFailed _ hmore => exact (h.1.marginMore h.2 hmore _).1
  | marginBatchEnd _ _ hnext => exact h.1.marginBatchEnd h.2 hnext _
  | marginBuffEnd _ _ htype => exact h.1.marginBuffEnd h.2 htype _
  | unitEnd _ hlast htype => exact h.1.unitEnd h.2 htype hlast _
  | marginDefault _ _ htype =>
    have hm := (h.1.inMargin_of_active h.2 (by simp [htype])).1
    exact absurd htype hm.whole.1
  | marginFull => exact h.1.of_misc rfl (.inl rfl)
  | readyCalled => exact h.1
  | readyStart hwhole hfresh => exact h.1.startMargin h.2 hwhole hfresh
  | readyLess => exact h.1.startMarginLessThan1kb h.2
  | readyLessSent htype hfresh => exact h.1.lessThan1kb h.2 htype hfresh _
  | ackCpu _ _ hsent => exact h.startMargins hsent _
  | ackMargins _ _ hsent => exact ⟨h.of_seq rfl (.inl rfl), h.margins hsent, .inr hsent⟩
  | ackMargin _ _ hsent =>
    have hr := h.resumes hsent
    exact ⟨h.of_seq rfl (.inl rfl), hr.2.imp (⟨·, .inl hr.1⟩) (⟨·, hr.1⟩)⟩
  | ackReply => exact h.of_seq rfl (.inl rfl)
  | ackDone => exact h.of_misc rfl (.inl rfl)
  | ackNone => exact h.of_seq rfl (.inl rfl)
  | threadExit hrun hdone => exact h.threadExit hrun hdone
  | threadDone => exact h.of_misc rfl (.inr (by simp [migrationDoneMsg, Control.SeqCallback]))
  | threadMargin _ htrans =>
    refine ⟨h.of_misc rfl (.inl rfl), SeqState.active_setMisc.mpr (.inl (h.unit htrans))⟩
  | threadClear => exact h.of_seq rfl (.inl rfl)
  | threadDisrupted => exact h.of_seq rfl (.inr (by simp [startReply, Control.SeqCallback]))
  | threadUnit hturn hoff => exact h.startUnit hturn hoff _ _
  | threadFinish hturn hoff => exact h.noUnitLeft hturn hoff
  | threadFinishSent hturn hoff =>
    exact (h.noUnitLeft hturn hoff).of_misc rfl
      (.inr (by simp [setMigrationDone, migrationDoneMsg, Control.SeqCallback]))
  | threadReply => exact h.of_seq rfl (.inl rfl)
  | requestMarked => exact h.of_seq rfl (.inl rfl)
  | requestDeferred => exact h.of_seq rfl (.inl rfl)
  | requestReply => exact h.of_seq rfl (.inr (by simp [startReply, Control.SeqCallback]))

/-- The control invariant holds in every state of every run. -/
theorem control_of_reachable {mem : GuestMem} {C : Client → ClientEvent → Prop} {s : Client}
    (hs : (clientMachine mem).ReachableWhen C s) : Control s :=
  (keeps_control mem).reachable (fun q r _ => Control.start q r) (fun _ _ h _ => h) hs

end OnDemandVirt.Migration
