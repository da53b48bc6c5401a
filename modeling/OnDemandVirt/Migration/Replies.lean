import OnDemandVirt.Migration.Content

/-!
# Answering requests, one unit at a time

A reply is started by a request or by the thread, is interrupted by a full send buffer, and is
resumed by an acknowledgement or by the thread. `ReplyState` says that the counters, flags and the
callback belong to the one reply in progress, as long as no request is consumed that disturbs it
(`RequestFits`). From it `wholeReplies_of_reachable`: the reply messages in the queue are the 32
messages of one served unit after the other, and a part of the unit being answered.
-/

namespace OnDemandVirt.Migration

open Lib

/-- A request that may be answered now: no reply has stopped half-way through another unit, and
where a deferred request is left over, the thread does not take the new reply for its own. -/
structure ReplyFree (s : Client) (addr : Nat) : Prop where
  disrupted : s.req.batch .disrupted = 0
  requested : s.req.batch .requested = 0 ∨ requestMask addr = s.req.msg.addrToMigrate
  retry : s.req.requestRecvDisrupted = true → s.req.failToSendReq .disrupted = false

/-- A request that is not answered now, because its unit is marked or a unit is being sent, or
that may be answered now. -/
def RequestFits (s : Client) : ClientEvent → Prop
  | .request addr _ =>
    getBitarray s.bitarray addr = true ∨ s.seq.seqThreadIsTransmitting = true ∨ ReplyFree s addr
  | _ => True

/-- The variables of the replies belong to the reply in progress. -/
structure ReplyState (s : Client) : Prop where
  between : s.req.replying = none → ∀ f, s.req.batch f = 0
  other : ∀ f g, s.req.replying = some f → g ≠ f → s.req.batch g = 0
  during : s.req.replying ≠ none → s.req.noRequest = false
  disrupted : s.req.replying = some .disrupted → s.req.requestRecvDisrupted = true
  requested : s.req.replying = some .requested → s.req.requestRecvDisrupted = true →
    s.req.failToSendReq .disrupted = false
  addr : s.req.replying ≠ none → s.req.requestedAddr = s.req.msg.addrToMigrate ∨
    getBitarray s.bitarray s.req.requestedAddr = true
  low : s.req.replying ≠ none ∨ s.req.requestRecvDisrupted = true → s.req.requestedAddr < 2 ^ 36
  proto : s.req.replying ≠ none → s.req.msg.protoId = .dataMem
  quiet : s.req.replying ≠ none → s.seq.isTransmitting = false
  callback : ∀ f, s.tcp.sent = .postcopyRequested f → s.req.replying = some f
  held : ∀ f, s.req.replying = some f →
    s.tcp.sent = .postcopyRequested f ∨
      (s.seq.migrationDone = true ∧ s.tcp.sent = .migrationDoneSent)
  first : s.req.replying = none → s.req.noRequest = false → ∀ f, s.req.failToSendReq f = false

/-- The state of the replies at each point of a step. -/
def replyAt : Assertion
  | .start e, s => ReplyState s ∧ RequestFits s e
  | .reply f _, s => ReplyState s ∧ s.req.replying = some f
  | .margin _, s => ReplyState s ∧ s.req.replying = none
  | .ready _, s => ReplyState s ∧ s.req.replying = none
  | .idle, s => ReplyState s

namespace ReplyState

variable {mem : GuestMem} {s s' : Client}

theorem start (q : Nat) (r : TcpAnswer) : ReplyState (Client.start mem q r) where
  between _ _ := rfl
  other _ _ _ _ := rfl
  during h := absurd rfl h
  disrupted h := by cases h
  requested h := by cases h
  addr h := absurd rfl h
  low h := by simp [Client.start] at h
  proto h := absurd rfl h
  quiet _ := rfl
  callback f h := by simp [Client.start] at h
  held _ h := by simp [Client.start] at h
  first _ _ _ := rfl

/-- With no reply in progress, margins, units and marks do not matter. -/
theorem of_none (h : ReplyState s) (hnone : s.req.replying = none) (hreq : s'.req = s.req)
    (hsent : ∀ f, s'.tcp.sent ≠ .postcopyRequested f) : ReplyState s' where
  between := by rw [hreq]; exact h.between
  other := by rw [hreq]; exact h.other
  during := by rw [hreq]; exact h.during
  disrupted := by rw [hreq]; exact h.disrupted
  requested := by rw [hreq]; exact h.requested
  addr hne := absurd (hreq ▸ hnone) hne
  low := by rw [hreq]; exact h.low
  proto := by rw [hreq]; exact h.proto
  quiet hne := absurd (hreq ▸ hnone) hne
  callback f hf := absurd hf (hsent f)
  held f hf := by rw [hreq, hnone] at hf; cases hf
  first := by rw [hreq]; exact h.first

/-- What the replies have to do with the rest of the client is unchanged. -/
theorem of_same (h : ReplyState s) (hreq : s'.req = s.req) (hbits : s'.bitarray = s.bitarray)
    (hsent : s'.tcp.sent = s.tcp.sent) (htrans : s'.seq.isTransmitting = s.seq.isTransmitting)
    (hdone : s'.seq.migrationDone = s.seq.migrationDone) : ReplyState s' where
  between := by rw [hreq]; exact h.between
  other := by rw [hreq]; exact h.other
  during := by rw [hreq]; exact h.during
  disrupted := by rw [hreq]; exact h.disrupted
  requested := by rw [hreq]; exact h.requested
  addr := by rw [hreq, hbits]; exact h.addr
  low := by rw [hreq]; exact h.low
  proto := by rw [hreq]; exact h.proto
  quiet := by rw [hreq, htrans]; exact h.quiet
  callback := by rw [hreq, hsent]; exact h.callback
  held := by rw [hreq, hsent, hdone]; exact h.held
  first := by rw [hreq]; exact h.first

/-- The message that ends the migration takes the callback from a reply in progress. -/
theorem migrationDoneMsg (h : ReplyState s) (hdone : s.seq.migrationDone = true) (r : TcpAnswer) :
    ReplyState (migrationDoneMsg r s) where
  between := h.between
  other := h.other
  during := h.during
  disrupted := h.disrupted
  requested := h.requested
  addr := h.addr
  low := h.low
  proto := h.proto
  quiet := h.quiet
  callback f hf := by simp [Migration.migrationDoneMsg] at hf
  held _ _ := .inr ⟨hdone, by simp [Migration.migrationDoneMsg]⟩
  first := h.first

theorem startMargins (h : ReplyState s) (hnone : s.req.replying = none) (len : Nat) :
    ReplyState (startMargins (s.acked len)) where
  between := h.between
  other := h.other
  during := h.during
  disrupted := h.disrupted
  requested := h.requested
  addr hne := absurd hnone hne
  low := h.low
  proto hne := absurd hnone hne
  quiet := h.quiet
  callback := h.callback
  held := h.held
  first := h.first

theorem sent_ne (h : ReplyState s) (hnone : s.req.replying = none) (f : ReplyFn) :
    s.tcp.sent ≠ .postcopyRequested f := fun hs => by
  rw [h.callback f hs] at hnone
  cases hnone

theorem none_of_noRequest (h : ReplyState s) (hreq : s.req.noRequest = true) :
    s.req.replying = none := by
  cases hr : s.req.replying with
  | none => rfl
  | some f =>
    have hoff := h.during (by simp [hr])
    rw [hreq] at hoff
    cases hoff

theorem none_of_sent (h : ReplyState s) (hs : ∀ f, s.tcp.sent ≠ .postcopyRequested f)
    (hs' : s.tcp.sent ≠ .migrationDoneSent) : s.req.replying = none := by
  cases hr : s.req.replying with
  | none => rfl
  | some f =>
    rcases h.held f hr with hf | ⟨-, hf⟩
    · exact absurd hf (hs f)
    · exact absurd hf hs'

theorem none_of_transmitting (h : ReplyState s) (ht : s.seq.isTransmitting = true) :
    s.req.replying = none := by
  by_contra hne
  rw [h.quiet hne] at ht
  cases ht

theorem replyMore (h : ReplyState s) {f : ReplyFn} (hf : s.req.replying = some f) (r : TcpAnswer) :
    ReplyState (replyMore mem f r s) where
  between hn := by
    rw [show (Migration.replyMore mem f r s).req.replying = s.req.replying from rfl, hf] at hn
    cases hn
  other g k hg hk := by
    have hg : s.req.replying = some g := hg
    rw [hf] at hg
    cases hg
    simpa [Migration.replyMore, Function.update, hk] using h.other f k hf hk
  during := h.during
  disrupted := h.disrupted
  requested := h.requested
  addr := h.addr
  low := h.low
  proto := h.proto
  quiet := h.quiet
  callback g hg := by
    simp only [Migration.replyMore, TcpPcb.tcpWrite_sent, TcpPcb.tcpSent_sent,
      SentFn.postcopyRequested.injEq] at hg
    exact hg ▸ hf
  held g hg := by
    have hg : s.req.replying = some g := hg
    rw [hf] at hg
    cases hg
    exact .inl (by simp [Migration.replyMore])
  first hn := by
    rw [show (Migration.replyMore mem f r s).req.replying = s.req.replying from rfl, hf] at hn
    cases hn

theorem replyLast (h : ReplyState s) {f : ReplyFn} (hf : s.req.replying = some f) (r : TcpAnswer) :
    ReplyState (replyLast mem f r s) where
  between _ g := by
    by_cases hg : g = f
    · simp [Migration.replyLast, hg]
    · simpa [Migration.replyLast, Function.update, hg] using h.other f g hf hg
  other g k hg := by cases hg
  during hne := absurd rfl hne
  disrupted hg := by cases hg
  requested hg := by cases hg
  addr hne := absurd rfl hne
  low _ := h.low (.inl (by simp [hf]))
  proto hne := absurd rfl hne
  quiet hne := absurd rfl hne
  callback g hg := by simp [Migration.replyLast] at hg
  held g hg := by cases hg
  first _ hn := by cases hn

/-- A reply that is started, from whatever was there before. -/
theorem startReply {f : ReplyFn} {addr : Nat} (hother : ∀ k, k ≠ f → s.req.batch k = 0)
    (hdis : f = .disrupted → s.req.requestRecvDisrupted = true)
    (hreq : f = .requested → s.req.requestRecvDisrupted = true →
      s.req.failToSendReq .disrupted = false)
    (hlow : addr < 2 ^ 36) (hoff : s.seq.isTransmitting = false) :
    ReplyState (startReply f (Migration.setRequestedAddr addr s)) where
  between hn := by cases hn
  other g k hg hk := by
    cases hg
    exact hother k hk
  during _ := rfl
  disrupted hg := hdis (Option.some.inj hg)
  requested hg := hreq (Option.some.inj hg)
  addr _ := .inl rfl
  low _ := by
    show requestMask addr < 2 ^ 36
    exact lt_of_le_of_lt Nat.and_le_left hlow
  proto _ := rfl
  quiet _ := hoff
  callback g hg := by
    simp only [Migration.startReply, TcpPcb.tcpSent_sent, SentFn.postcopyRequested.injEq] at hg
    exact hg ▸ rfl
  held g hg := by
    cases hg
    exact .inl rfl
  first hn := by cases hn

theorem setFailToSendReq (h : ReplyState s) {f : ReplyFn} (hf : s.req.replying = some f) (b : Bool) :
    ReplyState (setFailToSendReq f b s) where
  between := h.between
  other := h.other
  during := h.during
  disrupted := h.disrupted
  requested hg hdis := by
    have hg : s.req.replying = some .requested := hg
    rw [hf] at hg
    cases hg
    simpa [Migration.setFailToSendReq, Function.update] using h.requested hf hdis
  addr := h.addr
  low := h.low
  proto := h.proto
  quiet := h.quiet
  callback := h.callback
  held := h.held
  first hn := by
    rw [show (Migration.setFailToSendReq f b s).req.replying = s.req.replying from rfl, hf] at hn
    cases hn

/-- A request of which only the address is kept, and maybe that it was deferred. -/
theorem setRequestedAddr (h : ReplyState s) {addr : Nat} (haddr : addr < 2 ^ 36)
    (hfits : s.req.replying = none ∨ getBitarray s.bitarray addr = true) :
    ReplyState (setRequestedAddr addr s) where
  between := h.between
  other := h.other
  during := h.during
  disrupted := h.disrupted
  requested := h.requested
  addr hne := .inr (hfits.resolve_left hne)
  low _ := haddr
  proto := h.proto
  quiet := h.quiet
  callback := h.callback
  held := h.held
  first := h.first

theorem setDisrupted (h : ReplyState s) (hnone : s.req.replying = none) {b : Bool}
    (hlow : b = true → s.req.requestedAddr < 2 ^ 36) : ReplyState (setDisrupted b s) where
  between := h.between
  other := h.other
  during := h.during
  disrupted hg := by cases hnone.symm.trans hg
  requested hg := by cases hnone.symm.trans hg
  addr := h.addr
  low hb := hlow (hb.resolve_left fun hne => hne hnone)
  proto := h.proto
  quiet := h.quiet
  callback := h.callback
  held := h.held
  first := h.first

/-- A request that is answered now starts a reply at batch 0, or goes on with the same unit. -/
theorem restart (h : ReplyState s) {addr : Nat} {tcp : List TcpAnswer}
    (hfits : RequestFits s (.request addr tcp)) (hmark : getBitarray s.bitarray addr = false)
    (htrans : s.seq.seqThreadIsTransmitting = false) :
    (∀ f, s.req.batch f = 0) ∨
      (s.req.replying = some .requested ∧ requestMask addr = s.req.msg.addrToMigrate) := by
  rcases hfits with hm | ht | hfree
  · rw [hmark] at hm
    cases hm
  · rw [htrans] at ht
    cases ht
  · have hzero : s.req.batch .requested = 0 → ∀ f, s.req.batch f = 0 := fun h0 f =>
      match f with
      | .requested => h0
      | .disrupted => hfree.disrupted
    rcases hfree.requested with h0 | hsame
    · exact .inl (hzero h0)
    · cases hrep : s.req.replying with
      | none => exact .inl (h.between hrep)
      | some f =>
        cases f with
        | requested => exact .inr ⟨rfl, hsame⟩
        | disrupted => exact .inl (hzero (h.other _ _ hrep (by simp)))

/-- The retry of the thread is for the reply in progress. -/
theorem replying_of_retry (h : ReplyState s) {f : ReplyFn} (hreq : s.req.noRequest = false)
    (hdis : s.req.requestRecvDisrupted = decide (f = .disrupted))
    (hfail : s.req.failToSendReq f = true) : s.req.replying = some f := by
  cases hr : s.req.replying with
  | none =>
    rw [h.first hr hreq f] at hfail
    cases hfail
  | some g =>
    cases f with
    | requested =>
      cases g with
      | requested => rfl
      | disrupted => simp [h.disrupted hr] at hdis
    | disrupted =>
      cases g with
      | requested => simp [h.requested hr (by simp [hdis])] at hfail
      | disrupted => rfl

end ReplyState

/-- The state of the replies is kept by every piece of a step. -/
theorem keeps_reply (mem : GuestMem) :
    Keeps mem (fun p s => baseAt p s ∧ replyAt p s) replyAt := by
  rintro p s p' s' hp ⟨⟨⟨hc, -⟩, -⟩, h⟩
  cases hp with
  | stay => exact h.1
  | replyMore => exact ⟨h.1.replyMore h.2 _, h.2⟩
  | replyLast => exact h.1.replyLast h.2 _
  | replyFull => exact h.1.setFailToSendReq h.2 _
  | marginMore => exact ⟨h.1.of_none h.2 rfl (by simp [marginMore]), h.2⟩
  | marginMoreFailed => exact h.1.of_none h.2 rfl (by simp [marginMore])
  | marginBatchEnd => exact h.1.of_none h.2 rfl (by simp [marginBatchEnd])
  | marginBuffEnd => exact h.1.of_none h.2 rfl (by simp [marginBuffEnd])
  | unitEnd => exact h.1.of_none h.2 rfl (by simp [unitEnd])
  | marginDefault => exact ⟨h.1.of_none h.2 rfl (h.1.sent_ne h.2), h.2⟩
  | marginFull => exact h.1.of_none h.2 rfl (h.1.sent_ne h.2)
  | readyCalled => exact h.1
  | readyStart => exact ⟨h.1.of_none h.2 rfl (h.1.sent_ne h.2), h.2⟩
  | readyLess => exact h.1.of_none h.2 rfl (h.1.sent_ne h.2)
  | readyLessSent => exact h.1.of_none h.2 rfl (by simp [lessThan1kb])
  | ackCpu _ _ hsent =>
    have hnone := h.1.none_of_sent (by simp [hsent]) (by simp [hsent])
    exact ⟨h.1.startMargins hnone _, hnone⟩
  | ackMargins _ _ hsent =>
    have hnone := h.1.none_of_sent (by simp [hsent]) (by simp [hsent])
    exact ⟨h.1.of_none hnone rfl (h.1.sent_ne hnone), hnone⟩
  | ackMargin _ _ hsent =>
    have hnone := h.1.none_of_sent (by simp [hsent]) (by simp [hsent])
    exact ⟨h.1.of_none hnone rfl (h.1.sent_ne hnone), hnone⟩
  | ackReply _ _ hsent => exact ⟨h.1.of_same rfl rfl rfl rfl rfl, h.1.callback _ hsent⟩
  | ackDone => exact h.1.of_same rfl rfl rfl rfl rfl
  | ackNone => exact h.1.of_same rfl rfl rfl rfl rfl
  | threadExit => exact h.1.of_same rfl rfl rfl rfl rfl
  | threadDone _ hdone => exact h.1.migrationDoneMsg hdone _
  | threadMargin hturn =>
    have hnone := h.1.none_of_noRequest hturn.noRequest
    exact ⟨h.1.of_none hnone rfl (h.1.sent_ne hnone), hnone⟩
  | threadClear hturn =>
    exact h.1.setDisrupted (h.1.none_of_noRequest hturn.noRequest) (by simp)
  | threadDisrupted hturn hoff _ hdis =>
    have hnone := h.1.none_of_noRequest hturn.noRequest
    exact ⟨ReplyState.startReply (fun k _ => h.1.between hnone k) (fun _ => hdis) (by simp)
      (h.1.low (.inr hdis)) hoff, rfl⟩
  | threadUnit hturn =>
    have hnone := h.1.none_of_noRequest hturn.noRequest
    exact ⟨h.1.of_none hnone rfl (h.1.sent_ne hnone), hnone⟩
  | threadFinish hturn =>
    have hnone := h.1.none_of_noRequest hturn.noRequest
    exact h.1.of_none hnone rfl (h.1.sent_ne hnone)
  | threadFinishSent hturn =>
    have hnone := h.1.none_of_noRequest hturn.noRequest
    exact h.1.of_none hnone rfl (by simp [setMigrationDone, migrationDoneMsg])
  | threadReply _ _ hreq hdis hfail =>
    have hf := h.1.replying_of_retry hreq hdis hfail
    exact ⟨h.1.setFailToSendReq hf _, hf⟩
  | requestMarked haddr hmark =>
    exact h.1.setRequestedAddr (lt_trans (vtMigrationRange_lt haddr) (by norm_num)) (.inr hmark)
  | requestDeferred haddr hmark htrans =>
    have hlow := lt_trans (vtMigrationRange_lt haddr) (show 2 ^ 35 < 2 ^ 36 by norm_num)
    have hnone := h.1.none_of_transmitting (hc.mirror ▸ htrans)
    exact (h.1.setRequestedAddr hlow (.inl hnone)).setDisrupted hnone fun _ => hlow
  | requestReply haddr hmark htrans =>
    have hlow := lt_trans (vtMigrationRange_lt haddr) (show 2 ^ 35 < 2 ^ 36 by norm_num)
    have hoff : s.seq.isTransmitting = false := hc.mirror ▸ htrans
    rcases h.2 with hm | ht | hfree
    · rw [hmark] at hm
      cases hm
    · rw [htrans] at ht
      cases ht
    · refine ⟨ReplyState.startReply (fun k hk => ?_) (by simp) (fun _ => hfree.retry) hlow hoff, rfl⟩
      cases k with
      | requested => exact absurd rfl hk
      | disrupted => exact hfree.disrupted

/-! ### What the bits say -/

/-- The bit of the unit was set by `send_margin` at the end of a margin, or by `postcopy_seq_task`. -/
def SeqMarked (s : Client) (u : Nat) : Prop :=
  (∃ a, IsGranUnit a ∧ a < s.seq.nextStart ∧ u / addrOffset = a / addrOffset) ∨
    ∃ t : MarginType, t.index < s.seq.mType.index ∧
      u / addrOffset = (marginRange s.virtioRecvQueue t).1 / addrOffset

/-- Besides margins and background units, only units that replies have sent are marked. -/
def Marks (s : Client) : Prop := ∀ u, getBitarray s.bitarray u = true →
  SeqMarked s u ∨ ∃ v ∈ s.req.served, u / addrOffset = v / addrOffset

section
variable {mem : GuestMem} {p p' : Point} {s s' : Client}

theorem SeqMarked.mono {u : Nat} (h : SeqMarked s u)
    (hq : s'.virtioRecvQueue = s.virtioRecvQueue) (hnext : s.seq.nextStart ≤ s'.seq.nextStart)
    (hindex : s.seq.mType.index ≤ s'.seq.mType.index) : SeqMarked s' u := by
  rcases h with ⟨a, ha, hlt, hu⟩ | ⟨t, hlt, hu⟩
  · exact .inl ⟨a, ha, lt_of_lt_of_le hlt hnext, hu⟩
  · exact .inr ⟨t, lt_of_lt_of_le hlt hindex, hq ▸ hu⟩

/-- A piece that sets no bit. -/
theorem Marks.of_same (h : Marks s) (hbits : s'.bitarray = s.bitarray)
    (hserved : s'.req.served = s.req.served) (hq : s'.virtioRecvQueue = s.virtioRecvQueue)
    (hnext : s.seq.nextStart ≤ s'.seq.nextStart)
    (hindex : s.seq.mType.index ≤ s'.seq.mType.index) : Marks s' := by
  intro u hu
  rw [hbits] at hu
  rw [hserved]
  exact (h u hu).imp_left fun hm => hm.mono hq hnext hindex

/-- A piece that sets the bit of a margin or of a background unit. -/
theorem Marks.set (h : Marks s) {a : Nat} (ha : a < 2 ^ 53)
    (hbits : s'.bitarray = setBitarray s.bitarray a)
    (hserved : s'.req.served = s.req.served) (hq : s'.virtioRecvQueue = s.virtioRecvQueue)
    (hnext : s.seq.nextStart ≤ s'.seq.nextStart)
    (hindex : s.seq.mType.index ≤ s'.seq.mType.index)
    (hmark : ∀ u, u / addrOffset = a / addrOffset → SeqMarked s' u) : Marks s' := by
  intro u hu
  rw [hbits, getBitarray_set _ _ _ ha, Bool.or_eq_true, decide_eq_true_eq] at hu
  rw [hserved]
  rcases hu with hu | hu
  · exact .inl (hmark u hu)
  · exact (h u hu).imp_left fun hm => hm.mono hq hnext hindex

theorem SeqLabels.lt {t : SeqState} (h : SeqLabels t) : t.startAddr < 2 ^ 53 := by
  have := h.bound
  omega

end

theorem keeps_marks (mem : GuestMem) :
    Keeps mem (fun p s => (baseAt p s ∧ replyAt p s) ∧ Marks s) fun _ s => Marks s := by
  rintro p s p' s' hp ⟨⟨⟨⟨hc, hl⟩, hrange⟩, hr⟩, h⟩
  cases hp with
  | replyLast =>
    intro u hu
    have hlow := hr.1.low (.inl (by simp [hr.2]))
    have haddr := hr.1.addr (by simp [hr.2])
    simp only [replyLast] at hu ⊢
    rw [getBitarray_set _ _ _ (lt_trans hlow (by norm_num)), Bool.or_eq_true,
      decide_eq_true_eq] at hu
    have hold : getBitarray s.bitarray u = true ∨ u / addrOffset = s.req.msg.addrToMigrate / addrOffset := by
      rcases hu with hu | hu
      · rcases haddr with haddr | hmark
        · exact .inr (haddr ▸ hu)
        · exact .inl (getBitarray_unit _ hu ▸ hmark)
      · exact .inl hu
    rcases hold with hold | hnew
    · rcases h u hold with hm | ⟨v, hv, huv⟩
      · exact .inl hm
      · exact .inr ⟨v, List.mem_append_left _ hv, huv⟩
    · exact .inr ⟨_, List.mem_append_right _ (List.mem_singleton.mpr rfl), hnew⟩
  | @marginBatchEnd next _ _ _ _ _ hnext =>
    have hm := (hc.1.inMargin_of_active hc.2 (MarginType.next_ne hnext).1).1
    have hindex := MarginType.index_next hnext
    refine h.set hl.1.lt rfl rfl rfl le_rfl (by simp only [marginBatchEnd]; omega) fun u hu => ?_
    refine .inr ⟨s.seq.mType, by simp only [marginBatchEnd]; omega, ?_⟩
    rw [hu, (hrange.margin hm).1]
    rfl
  | marginBuffEnd _ _ htype =>
    have hm := (hc.1.inMargin_of_active hc.2 (by simp [htype])).1
    have hindex : s.seq.mType.index < MarginType.noMargin.index := by rw [htype]; decide
    refine h.set hl.1.lt rfl rfl rfl le_rfl hindex.le fun u hu => ?_
    refine .inr ⟨s.seq.mType, hindex, ?_⟩
    rw [hu, (hrange.margin hm).1]
    rfl
  | @threadUnit _ _ a next _ _ _ hstart ha =>
    have hs := getStartAddr_spec hl.1.walk hstart
    obtain ⟨hu, -, hnext⟩ := hs.unit ha
    have hlt : a < next := by
      rw [hnext]
      exact hu.lt_next
    have hle : s.seq.nextStart ≤ next := hs.le.trans hlt.le
    have ha' : a < 2 ^ 53 := lt_trans hu.lt (by norm_num)
    exact h.set ha' rfl rfl rfl hle le_rfl fun v hv => .inl ⟨a, hu, hlt, hv⟩
  | threadFinish _ _ hstart =>
    exact h.of_same rfl rfl rfl (getStartAddr_spec hl.1.walk hstart).le le_rfl
  | threadFinishSent _ _ hstart =>
    exact h.of_same rfl rfl rfl (getStartAddr_spec hl.1.walk hstart).le le_rfl
  | ackCpu _ _ hsent =>
    exact h.of_same rfl rfl rfl le_rfl (by rw [(hc.cpu hsent).2]; exact le_rfl)
  | readyLessSent htype =>
    have hindex : s.seq.mType.index ≤ MarginType.marginBuff.index := by rw [htype]; decide
    exact h.of_same rfl rfl rfl le_rfl hindex
  | _ => exact h.of_same rfl rfl rfl le_rfl le_rfl

/-! ### The reply messages in the queue -/

/-- The address and batch fields of the queued reply messages, in order. -/
def replyKeys (queue : List Queued) : List (Nat × Nat) :=
  (queue.filter fun q => q.by_ = .postcopyRequested).map fun q =>
    (q.msg.addrToMigrate, q.msg.batchNum)

/-- The first `n` messages of a unit. -/
def unitKeys (u n : Nat) : List (Nat × Nat) := (List.range n).map fun b => (u, b)

/-- The messages that the reply in progress has queued. -/
def partialKeys (q : ReqState) : List (Nat × Nat) :=
  match q.replying with
  | none => []
  | some f => unitKeys q.msg.addrToMigrate (q.batch f)

/-- The reply messages are whole units, one after the other, and a part of the unit that is being
answered. -/
def WholeReplies (s : Client) : Prop := replyKeys s.tcp.queue =
  (s.req.served.flatMap fun u => unitKeys u batchSize) ++ partialKeys s.req

/-- No `tcp_write` of a reply message was refused. -/
def NoReplyRefused (s : Client) : Prop := ∀ q ∈ s.tcp.refused, q.by_ ≠ .postcopyRequested

@[simp] theorem unitKeys_zero (u : Nat) : unitKeys u 0 = [] := rfl

theorem unitKeys_succ (u n : Nat) : unitKeys u (n + 1) = unitKeys u n ++ [(u, n)] := by
  simp [unitKeys, List.range_succ]

theorem mem_unitKeys {u n : Nat} {k : Nat × Nat} : k ∈ unitKeys u n ↔ k.1 = u ∧ k.2 < n := by
  simp only [unitKeys, List.mem_map, List.mem_range, Prod.ext_iff]
  constructor
  · rintro ⟨b, hb, rfl, rfl⟩
    exact ⟨rfl, hb⟩
  · rintro ⟨h1, h2⟩
    exact ⟨k.2, h2, h1.symm, rfl⟩

theorem replyKeys_append (l l' : List Queued) : replyKeys (l ++ l') = replyKeys l ++ replyKeys l' := by
  simp [replyKeys]

section
variable {mem : GuestMem} {p p' : Point} {s s' : Client}

/-- Only the reply loops queue reply messages. -/
theorem Piece.replyKeys (h : Piece mem p s p' s') (hp : ∀ f tcp, p ≠ .reply f tcp) :
    replyKeys s'.tcp.queue = replyKeys s.tcp.queue := by
  rcases h.offers with ⟨hqueue, -⟩ | ⟨r, q, ho, hby⟩
  · rw [hqueue]
  · have hq : q.by_ ≠ .postcopyRequested := fun hb => by
      obtain ⟨f, tcp, hpf⟩ := hby hb
      exact hp f tcp hpf
    rw [ho.queue, replyKeys_append]
    cases r.wrote <;> simp [Migration.replyKeys, hq]

theorem NoReplyRefused.of_piece (h : Piece mem p s p' s') (hs : NoReplyRefused s') :
    NoReplyRefused s :=
  fun q hq => hs q (h.refused_mono hq)

/-- A reply message that is not refused is queued. -/
theorem Offers.replyKeys {r : TcpAnswer} {m : BfMsg} (h : Offers r ⟨.postcopyRequested, m⟩ s s')
    (hs' : NoReplyRefused s') : replyKeys s'.tcp.queue =
      replyKeys s.tcp.queue ++ [(m.addrToMigrate, m.batchNum)] := by
  cases hw : r.wrote with
  | false => exact absurd rfl (hs' ⟨.postcopyRequested, m⟩ (by simp [h.refused, hw]))
  | true => simp [h.queue, hw, Migration.replyKeys]

end

/-- The pieces keep the reply messages whole. -/
theorem keeps_whole (mem : GuestMem) :
    Keeps mem (fun p s => (baseAt p s ∧ replyAt p s) ∧ (NoReplyRefused s → WholeReplies s))
      fun _ s => NoReplyRefused s → WholeReplies s := by
  rintro p s p' s' hp ⟨⟨⟨⟨hc, hl⟩, -⟩, hr⟩, h⟩ hs'
  have hlog := h (NoReplyRefused.of_piece hp hs')
  have hkeys := hp.replyKeys
  unfold WholeReplies at hlog ⊢
  cases hp with
  | @replyMore f r =>
    have ho : Offers r ⟨.postcopyRequested, replyMsg mem f s.req⟩ s (replyMore mem f r s) :=
      offers_tcpWrite _ rfl
    rw [ho.replyKeys hs', hlog]
    simp [partialKeys, replyMore, hr.2, unitKeys_succ, replyMsg]
  | @replyLast f r rs _ _ hlast =>
    have ho : Offers r ⟨.postcopyRequested, { replyMsg mem f s.req with protoId := .dataReqMem }⟩ s
        (replyLast mem f r s) := offers_tcpWrite _ rfl
    have hfull : s.req.batch f + 1 = batchSize := Nat.le_antisymm (hl.2.batch f) hlast
    rw [ho.replyKeys hs', hlog]
    simp [partialKeys, replyLast, hr.2, replyMsg, ← hfull, unitKeys_succ]
  | threadDisrupted hturn =>
    have hnone := hr.1.none_of_noRequest hturn.noRequest
    rw [hkeys (by simp), hlog]
    simp [partialKeys, startReply, hnone, hr.1.between hnone]
  | requestReply _ hmark htrans =>
    rw [hkeys (by simp), hlog]
    congr 1
    show partialKeys s.req = unitKeys (requestMask _) (s.req.batch .requested)
    rcases hr.1.restart hr.2 hmark htrans with h0 | ⟨hsame, haddr⟩
    · unfold partialKeys
      cases s.req.replying <;> simp [h0]
    · simp [partialKeys, hsame, haddr, setRequestedAddr]
  -- the other pieces send no reply message and leave the reply in progress as it is
  | replyFull => exact hlog
  | _ => exact (hkeys (by simp)).trans hlog

theorem keeps_baseReply (mem : GuestMem) :
    Keeps mem (fun p s => baseAt p s ∧ replyAt p s) fun p s => baseAt p s ∧ replyAt p s :=
  (keeps_base mem).and (keeps_reply mem)

/-- In every run in which requests leave the reply in progress alone and no `tcp_write` of a reply
message is refused, replies are all-or-nothing: the reply messages are whole units, one after the
other, and the part of a unit that is being answered; all 32 messages of a unit that was answered
are queued; and a bit that is set belongs to a unit that was answered, to a margin that is over or
to a unit that the background copy has passed. -/
theorem wholeReplies_of_reachable (mem : GuestMem) (s : Client)
    (hs : (clientMachine mem).ReachableWhen RequestFits s) (hrefused : NoReplyRefused s) :
    WholeReplies s ∧ Marks s ∧ ∀ u ∈ s.req.served, ∀ b < batchSize, ∃ q ∈ s.tcp.queue,
      q.by_ = .postcopyRequested ∧ q.msg.addrToMigrate = u ∧ q.msg.batchNum = b := by
  have hkeeps := ((keeps_baseReply mem).and (keeps_marks mem)).and
    (fun _ _ _ _ hp h => keeps_whole mem hp ⟨h.1.1, h.2⟩)
  have hinv := hkeeps.reachable (fun q r _ => ?_) (fun s e h hC => ⟨⟨⟨h.1.1.1, h.1.1.2, hC⟩, h.1.2⟩, h.2⟩) hs
  · have hwhole := hinv.2 hrefused
    refine ⟨hwhole, hinv.1.2, fun u hu b hb => ?_⟩
    have hmem : (u, b) ∈ replyKeys s.tcp.queue := by
      rw [hwhole]
      exact List.mem_append_left _ (List.mem_flatMap.mpr ⟨u, hu, mem_unitKeys.2 ⟨rfl, hb⟩⟩)
    obtain ⟨q, hq, hkey⟩ := List.mem_map.mp hmem
    obtain ⟨hq, hby⟩ := List.mem_filter.mp hq
    rw [Prod.mk.injEq] at hkey
    exact ⟨q, hq, by simpa using hby, hkey.1, hkey.2⟩
  · refine ⟨⟨⟨base_start mem q r, ReplyState.start q r⟩, fun u hu => ?_⟩, fun _ => ?_⟩
    · rw [show (Client.start mem q r).bitarray = fun _ => 0 from rfl, getBitarray_zero] at hu
      cases hu
    · cases hw : r.wrote <;>
        simp [WholeReplies, Client.start, TcpPcb.tcpWrite, hw, replyKeys, partialKeys]

/-! ### Two runs -/

/-- The client before it has sent more than the CPU state, on a machine whose memory is all 0. -/
def freshClient : Client := Client.start (fun _ => 0) 0 goodAnswer

/-- A request for `addr` with room for `n` messages. -/
def goodRequest (addr n : Nat) : ClientEvent := .request addr (List.replicate n goodAnswer)

/-- A request that is answered in two parts. -/
def answeredInParts : Client :=
  postcopyRequested (fun _ => 0) (List.replicate 20 goodAnswer)
    ((echoClientRecv (fun _ => 0) 0x8010 (List.replicate 12 goodAnswer) freshClient).acked 1)

theorem wholeReplies_answeredInParts :
    (WholeReplies answeredInParts ∧ Marks answeredInParts ∧
      ∀ u ∈ answeredInParts.req.served, ∀ b < batchSize, ∃ q ∈ answeredInParts.tcp.queue,
        q.by_ = .postcopyRequested ∧ q.msg.addrToMigrate = u ∧ q.msg.batchNum = b) ∧
      answeredInParts.req.served = [0x8000] := by
  refine ⟨wholeReplies_of_reachable (fun _ => 0) answeredInParts ?_ ?_, by decide⟩
  · have hfits : RequestFits freshClient (goodRequest 0x8010 12) :=
      .inr (.inr ⟨rfl, .inl rfl, by rintro ⟨⟩⟩)
    exact .step (e := ClientEvent.ack 1 (List.replicate 20 goodAnswer))
      (.step (.init ⟨0, goodAnswer, by decide, rfl⟩) hfits rfl) trivial rfl
  · have hnone : answeredInParts.tcp.refused = [] := by
      have hlen : answeredInParts.tcp.refused.length = 0 := by decide
      exact List.length_eq_zero_iff.mp hlen
    rw [NoReplyRefused, hnone]
    simp

/-- A second request while the reply to the first one is interrupted. -/
def interruptedRequests : List ClientEvent := [goodRequest 0 1, goodRequest 0x8000 31]

theorem interrupted_run :
    ((clientMachine fun _ => 0).run freshClient interruptedRequests).map
      (fun s => (s.req.served, getBitarray s.bitarray 0x8000,
        replyKeys s.tcp.queue == (0, 0) :: (List.range 31).map fun b => (0x8000, b + 1))) =
      some ([0x8000], true, true) := by
  decide

/-- The second of two requests is answered with 31 messages, and its unit is marked. -/
theorem not_whole_interrupted : ¬ ∀ (mem : GuestMem) (s : Client), (clientMachine mem).Reachable s →
    ∀ u ∈ s.req.served, getBitarray s.bitarray u = true → ∀ b < batchSize,
      ∃ q ∈ s.tcp.queue, q.by_ = .postcopyRequested ∧ q.msg.addrToMigrate = u ∧
        q.msg.batchNum = b := by
  intro h
  obtain ⟨s, hrun, hfields⟩ := Option.map_eq_some_iff.mp interrupted_run
  simp only [Prod.mk.injEq, beq_iff_eq] at hfields
  obtain ⟨hserved, hmark, hkeys⟩ := hfields
  have hs : (clientMachine fun _ => 0).Reachable s :=
    (reachable_start (fun _ => 0) (by decide) goodAnswer).run _ hrun
  obtain ⟨q, hq, hby, haddr, hbatch⟩ := h _ s hs 0x8000 (by simp [hserved]) hmark 0 (by decide)
  have hkey : (0x8000, 0) ∈ replyKeys s.tcp.queue :=
    List.mem_map.mpr ⟨q, List.mem_filter.mpr ⟨hq, by simp [hby]⟩, by rw [haddr, hbatch]⟩
  rw [hkeys] at hkey
  simp at hkey

end OnDemandVirt.Migration
