import OnDemandVirt.Migration.Replies

/-!
# Every byte is named before the migration ends

A byte of usable memory is sent with a margin, with a background unit or with a reply. `Coverage`
says which bytes the queue names at any time: those of the margins that are over, those of the
marked units except the one that is being sent, and those of the batches of what is being sent or
answered. When no unit is left, that is every byte of `usable_mem_list`
(`complete_of_migrationDone`).
-/

namespace OnDemandVirt.Migration

open Lib

/-- A byte of `usable_mem_list`. -/
def Usable (x : Nat) : Prop := ∃ a ∈ usableMemList, a.Holds x

/-- The message names the byte: it carries memory, and its fields say where from. -/
def Names (q : Queued) (x : Nat) : Prop :=
  q.msg.IsMem ∧ q.msg.target ≤ x ∧ x < q.msg.target + q.msg.dataLen

/-- The usable bytes from `a` on, `n` of them, are named in the queue. -/
def Covers (queue : List Queued) (a n : Nat) : Prop :=
  ∀ x, a ≤ x → x < a + n → Usable x → ∃ q ∈ queue, Names q x

/-- Every byte of `usable_mem_list` is named in the queue. -/
def Complete (queue : List Queued) : Prop := ∀ x, Usable x → ∃ q ∈ queue, Names q x

/-- The messages before a message that ends the migration are complete. -/
def DoneAfterComplete (queue : List Queued) : Prop :=
  ∀ pre q post, queue = pre ++ q :: post → q.msg.protoId = .migDone → Complete pre

/-- `send_margin` loses nothing with the message: it is one of the memory around the virtio ring
past the first unit, which the background copy sends again, or the last one of a background unit,
which then never ends. -/
def NotLast (q : Queued) : Prop :=
  q.by_ = .sendMargin ∧ ((q.msg.batchSize = 384 ∧ batchSize ≤ q.msg.batchNum) ∨
    (q.msg.batchSize = batchSize ∧ q.msg.batchNum + 1 = batchSize))

/-- Nothing is lost with the message. -/
def Harmless (q : Queued) : Prop := NotLast q ∨ ∀ x, Names q x → ¬ Usable x

/-- No refused message loses a byte. -/
def NothingLost (s : Client) : Prop := ∀ q ∈ s.tcp.refused, Harmless q

/-! ### Bytes and blocks -/

theorem Covers.mono {queue queue' : List Queued} (h : ∀ q ∈ queue, q ∈ queue') {a n : Nat}
    (hc : Covers queue a n) : Covers queue' a n := by
  intro x ha hn hx
  obtain ⟨q, hq, hname⟩ := hc x ha hn hx
  exact ⟨q, h q hq, hname⟩

theorem Complete.mono {queue queue' : List Queued} (h : ∀ q ∈ queue, q ∈ queue')
    (hc : Complete queue) : Complete queue' := by
  intro x hx
  obtain ⟨q, hq, hname⟩ := hc x hx
  exact ⟨q, h q hq, hname⟩

/-- Block by block. -/
theorem covers_of_blocks {queue : List Queued} {a n : Nat}
    (h : ∀ i < n, Covers queue (a + sizeSendbufData * i) sizeSendbufData) :
    Covers queue a (sizeSendbufData * n) := by
  intro x ha hn hx
  have hi : (x - a) / sizeSendbufData < n :=
    Nat.div_lt_of_lt_mul (by omega)
  have hmod := Nat.div_add_mod (x - a) sizeSendbufData
  have hlt := Nat.mod_lt (x - a) (show 0 < sizeSendbufData by decide)
  exact h _ hi x (by omega) (by omega) hx

/-- Of an offered message either the queue names the bytes, or nothing is lost with it. -/
theorem Offers.covers {r : TcpAnswer} {q : Queued} {s s' : Client} (h : Offers r q s s')
    (hmem : q.msg.IsMem) (hlost : NothingLost s') (hlast : ¬ NotLast q) :
    Covers s'.tcp.queue q.msg.target q.msg.dataLen := by
  intro x ha hn hx
  cases hw : r.wrote with
  | true => exact ⟨q, by simp [h.queue, hw], hmem, ha, hn⟩
  | false =>
    have hharm := hlost q (by simp [h.refused, hw])
    exact absurd hx (hharm.resolve_left hlast x ⟨hmem, ha, hn⟩)

theorem Offers.covers_of_wrote {r : TcpAnswer} {q : Queued} {s s' : Client} (h : Offers r q s s')
    (hmem : q.msg.IsMem) (hw : r.wrote = true) :
    Covers s'.tcp.queue q.msg.target q.msg.dataLen :=
  fun _ ha hn _ => ⟨q, by simp [h.queue, hw], hmem, ha, hn⟩

theorem doneAfterComplete_append {queue : List Queued} (h : DoneAfterComplete queue) {q : Queued}
    (hq : q.msg.protoId = .migDone → Complete queue) : DoneAfterComplete (queue ++ [q]) := by
  intro pre x post heq hx
  rcases List.eq_nil_or_concat post with rfl | ⟨post', y, rfl⟩
  · obtain ⟨rfl, hqx⟩ := List.append_inj' heq rfl
    cases hqx
    exact hq hx
  · have heq' : queue ++ [q] = (pre ++ x :: post') ++ [y] := by simpa using heq
    obtain ⟨rfl, -⟩ := List.append_inj' heq' rfl
    exact h pre x post' rfl hx

theorem Offers.order {r : TcpAnswer} {q : Queued} {s s' : Client} (h : Offers r q s s')
    (hd : DoneAfterComplete s.tcp.queue) (hq : q.msg.protoId = .migDone → Complete s.tcp.queue) :
    DoneAfterComplete s'.tcp.queue := by
  rw [h.queue]
  cases r.wrote with
  | true => exact doneAfterComplete_append hd hq
  | false => simpa using hd

theorem BfMsg.IsMem.ne_migDone {m : BfMsg} (h : m.IsMem) : m.protoId ≠ .migDone := by
  rcases h with h | h | h | h <;> simp [h]

/-- Usable bytes are bytes of a margin or of a unit. -/
theorem Usable.cases {x : Nat} (h : Usable x) :
    (∃ t : MarginType, t.index < 7 ∧ (areaAt marginList t.index).Holds x) ∨
      IsGranUnit (x / addrOffset * addrOffset) := by
  obtain ⟨a, ha, hx⟩ := h
  rw [isGranUnit_iff]
  simp only [usableMemList, List.mem_cons, List.not_mem_nil, or_false] at ha
  by_cases h0 : 0x98000 ≤ x ∧ x ≤ 0x9c3ff
  · exact .inl ⟨.margin00, by decide, h0⟩
  by_cases h1 : 0x86b47000 ≤ x ∧ x ≤ 0x86b47fff
  · exact .inl ⟨.margin01, by decide, h1⟩
  by_cases h2 : 0x86b98000 ≤ x ∧ x ≤ 0x86b9bfff
  · exact .inl ⟨.margin02, by decide, h2⟩
  by_cases h3 : 0x86fbf000 ≤ x ∧ x ≤ 0x86fbffff
  · exact .inl ⟨.margin03, by decide, h3⟩
  by_cases h4 : 0x86fd0000 ≤ x ∧ x ≤ 0x86fd4fff
  · exact .inl ⟨.margin04, by decide, h4⟩
  by_cases h5 : 0x87fcd000 ≤ x ∧ x ≤ 0x87fcffff
  · exact .inl ⟨.margin05, by decide, h5⟩
  by_cases h6 : 0x9c400 ≤ x ∧ x ≤ 0x9c6f9
  · exact .inl ⟨.margin06sp, by decide, h6⟩
  right
  rcases ha with rfl | rfl | rfl | rfl | rfl | rfl | rfl <;> obtain ⟨hlo, hhi⟩ := hx <;>
    simp only [addrOffset] at * <;> omega

/-! ### Margins -/

/-- The units in which the margins start, the memory around the virtio ring apart, are not sent by
the background copy. -/
theorem not_isGranUnit_margin (q : Nat) {t : MarginType} (hw : t.Whole) (ht : t ≠ .marginBuff)
    {u : Nat} (hu : IsGranUnit u) : u / addrOffset ≠ (marginRange q t).1 / addrOffset := by
  rw [isGranUnit_iff] at hu
  obtain ⟨h1, h2⟩ := hw
  cases t <;> simp_all [marginRange, areaAt, marginList, MarginType.index, addrOffset] <;> omega

/-- The number of messages tells the memory around the virtio ring from the other margins and from
units. -/
theorem Ranges.sendSize {s : Client} (h : Ranges s) (hm : s.seq.InMargin) :
    (s.seq.mType = .marginBuff → s.seq.sendSize = 384) ∧
      (s.seq.mType ≠ .marginBuff → s.seq.sendSize ≠ 384) ∧ s.seq.sendSize ≠ batchSize := by
  obtain ⟨haddr, hsize⟩ := h.margin hm
  obtain ⟨h1, h2⟩ := hm.whole
  cases ht : s.seq.mType with
  | margin06sp => exact absurd ht h1
  | noMargin => exact absurd ht h2
  | marginBuff =>
    simp only [ht, marginRange, if_true] at haddr hsize
    refine ⟨fun _ => ?_, fun hne => absurd rfl hne, ?_⟩ <;>
      simp only [sizeSendbufData, batchSize] at hsize ⊢ <;> omega
  | _ =>
    simp only [ht, marginRange, areaAt, marginList, MarginType.index, reduceCtorEq, if_false,
      List.getElem?_cons_zero, List.getElem?_cons_succ, Option.getD_some] at haddr hsize
    refine ⟨by rintro ⟨⟩, fun _ => ?_, ?_⟩ <;>
      simp only [sizeSendbufData, batchSize] at hsize ⊢ <;> omega

/-! ### The protocol id -/

/-- What is sent carries the protocol id of memory. -/
structure Protos (s : Client) : Prop where
  margin : s.seq.InMargin → s.seq.seqMsg.protoId = .dataMem
  margins : s.tcp.sent = .sendMargins → s.seq.called s.seq.mType = false →
    s.seq.seqMsg.protoId = .dataMem
  unit : s.seq.isTransmitting = true → s.seq.Busy → s.seq.seqMsg.protoId = .dataMem

/-- The protocol id at each point of a step. -/
def protosAt : Assertion
  | .ready _, s => Protos s ∧ (s.seq.called s.seq.mType = false → s.seq.seqMsg.protoId = .dataMem)
  | _, s => Protos s

theorem Protos.of_same {s s' : Client} (h : Protos s)
    (hproto : s'.seq.seqMsg.protoId = s.seq.seqMsg.protoId)
    (hm : s'.seq.InMargin → s.seq.InMargin)
    (hs : s'.tcp.sent = .sendMargins → s'.seq.called s'.seq.mType = false →
      s.tcp.sent = .sendMargins ∧ s.seq.called s.seq.mType = false)
    (hu : s'.seq.isTransmitting = true → s'.seq.Busy → s.seq.isTransmitting = true ∧ s.seq.Busy) :
    Protos s' where
  margin h' := hproto ▸ h.margin (hm h')
  margins h1 h2 := hproto ▸ h.margins (hs h1 h2).1 (hs h1 h2).2
  unit h1 h2 := hproto ▸ h.unit (hu h1 h2).1 (hu h1 h2).2

theorem Protos.of_dataMem {s : Client} (h : s.seq.seqMsg.protoId = .dataMem) : Protos s :=
  ⟨fun _ => h, fun _ _ => h, fun _ _ => h⟩

theorem keeps_protos (mem : GuestMem) :
    Keeps mem (fun p s => (baseAt p s ∧ contentAt mem p s) ∧ protosAt p s) protosAt := by
  rintro p s p' s' hp ⟨⟨⟨⟨hc, -⟩, -⟩, hcont⟩, h⟩
  cases hp with
  | marginMore _ hmore =>
    refine h.of_same rfl (fun hm => (hm.of_eq (t := s.seq) rfl rfl rfl).1) (by simp [marginMore]) fun hi _ => ?_
    exact ⟨hi, hcont.2⟩
  | marginMoreFailed _ hmore =>
    refine h.of_same rfl (fun hm => (hm.of_eq (t := s.seq) rfl rfl rfl).1) (by simp [marginMore]) fun hi _ => ?_
    exact ⟨hi, hcont.2⟩
  | marginBatchEnd _ _ hnext =>
    have hm := (hc.1.inMargin_of_active hc.2 (MarginType.next_ne hnext).1).1
    exact Protos.of_dataMem (h.margin hm)
  | marginBuffEnd _ _ htype =>
    have hm := (hc.1.inMargin_of_active hc.2 (by simp [htype])).1
    have hoff := hc.1.not_transmitting hm.thread
    exact ⟨fun hm' => absurd rfl hm'.whole.2, by simp [marginBuffEnd],
      fun hi => absurd (hoff.symm.trans hi) (by simp)⟩
  | unitEnd _ _ htype =>
    refine ⟨fun hm => absurd htype hm.whole.2, by simp [unitEnd], fun _ hbusy => ?_⟩
    exact absurd hbusy.1 (by simp [unitEnd])
  | marginDefault _ _ htype =>
    have hm := (hc.1.inMargin_of_active hc.2 (by simp [htype])).1
    exact absurd htype hm.whole.1
  | readyCalled => exact h.1
  | readyStart hwhole hfresh => exact Protos.of_dataMem (h.2 hfresh)
  | readyLess htype =>
    have hoff := hc.1.not_transmitting hc.2.thread
    refine ⟨fun hm => absurd htype hm.whole.1, fun _ hcalled => ?_,
      fun hi => absurd (hoff.symm.trans hi) (by simp)⟩
    simp [startMarginLessThan1kb, startMargin, setSendMargin] at hcalled
  | readyLessSent => exact Protos.of_dataMem rfl
  | ackCpu => exact ⟨Protos.of_dataMem rfl, fun _ => rfl⟩
  | ackMargins _ _ hsent =>
    exact ⟨h.of_same rfl (fun hm => (hm.of_eq (t := s.seq) rfl rfl rfl).1) (fun h1 h2 => ⟨h1, h2⟩)
      (fun h1 h2 => ⟨h1, h2⟩), h.margins hsent⟩
  | threadUnit => exact Protos.of_dataMem rfl
  | threadExit =>
    exact h.of_same rfl (fun hm => by cases hm.thread) (fun h1 h2 => ⟨h1, h2⟩) fun h1 h2 => ⟨h1, h2⟩
  | threadDone hrun hdone =>
    refine ⟨fun hm => ?_, by simp [migrationDoneMsg], fun hi => ?_⟩
    · have hthread : s.seq.thread = .notCreated := hm.thread
      rw [hrun] at hthread
      cases hthread
    · exact absurd (hc.unit hi).1.notDone (by simp [hdone])
  | threadFinish hturn =>
    refine ⟨fun hm => ?_, fun hs => ?_, by rintro ⟨⟩⟩
    · have hthread : s.seq.thread = .notCreated := hm.thread
      rw [hturn.running] at hthread
      cases hthread
    · exact absurd (hc.margins hs) (by simp [hturn.running])
  | threadFinishSent hturn =>
    refine ⟨fun hm => ?_, by simp [setMigrationDone, migrationDoneMsg], by rintro ⟨⟩⟩
    have hthread : s.seq.thread = .notCreated := hm.thread
    rw [hturn.running] at hthread
    cases hthread
  | replyMore =>
    exact h.of_same rfl id (by simp [replyMore]) fun h1 h2 => ⟨h1, h2⟩
  | replyLast => exact h.of_same rfl id (by simp [replyLast]) fun h1 h2 => ⟨h1, h2⟩
  | threadDisrupted =>
    exact h.of_same rfl id (by simp [startReply]) fun h1 h2 => ⟨h1, h2⟩
  | requestReply => exact h.of_same rfl id (by simp [startReply]) fun h1 h2 => ⟨h1, h2⟩
  | _ =>
    exact h.of_same rfl (fun hm => (hm.of_eq (t := s.seq) rfl rfl rfl).1) (fun h1 h2 => ⟨h1, h2⟩)
      fun h1 h2 => ⟨h1, h2⟩

/-! ### The invariant -/

/-- The bytes of a margin of `margin_list` are named. -/
def CoversMargin (queue : List Queued) (t : MarginType) : Prop :=
  ∀ x, (areaAt marginList t.index).Holds x → Usable x → ∃ q ∈ queue, Names q x

/-- What the queue names. -/
structure Coverage (s : Client) : Prop where
  margins : ∀ t : MarginType, t.index < s.seq.mType.index → t.index < 7 →
    CoversMargin s.tcp.queue t
  marked : ∀ u, IsGranUnit u → getBitarray s.bitarray u = true →
    Covers s.tcp.queue u addrOffset ∨ (s.seq.isTransmitting = true ∧ u = s.seq.startAddr)
  sending : s.seq.Busy → (s.seq.isTransmitting = true ∨ s.seq.InMargin) → ∀ i < s.seq.sendNum,
    (s.seq.mType = .marginBuff → i < batchSize) →
      Covers s.tcp.queue (s.seq.startAddr + sizeSendbufData * i) sizeSendbufData
  replying : ∀ f, s.req.replying = some f → ∀ i < s.req.batch f,
    Covers s.tcp.queue (s.req.msg.addrToMigrate + sizeSendbufData * i) sizeSendbufData
  walk : MarkedBetween s.bitarray 0 s.seq.nextStart
  done : s.seq.migrationDone = true → Complete s.tcp.queue
  order : DoneAfterComplete s.tcp.queue

theorem CoversMargin.mono {queue queue' : List Queued} (h : ∀ q ∈ queue, q ∈ queue')
    {t : MarginType} (hc : CoversMargin queue t) : CoversMargin queue' t := by
  intro x hx hu
  obtain ⟨q, hq, hname⟩ := hc x hx hu
  exact ⟨q, h q hq, hname⟩

theorem MarkedBetween.mono {bits bits' : Nat → BitVec 64} {a b : Nat}
    (h : ∀ u, getBitarray bits u = true → getBitarray bits' u = true)
    (hm : MarkedBetween bits a b) : MarkedBetween bits' a b :=
  fun u hu h1 h2 => h u (hm u hu h1 h2)

namespace Coverage

variable {mem : GuestMem} {s s' : Client}

/-- Nothing is sent and nothing is marked; a reply may have been started. -/
theorem of_same (h : Coverage s) {m : BfMsg} {fail sent : Bool}
    (hqueue : s'.tcp.queue = s.tcp.queue) (hbits : s'.bitarray = s.bitarray)
    (hseq : s'.seq = s.seq.setMisc m fail sent)
    (hreply : ∀ f, s'.req.replying = some f → s'.req.batch f = 0 ∨
      (s.req.replying = some f ∧ s'.req.batch f = s.req.batch f ∧
        s'.req.msg.addrToMigrate = s.req.msg.addrToMigrate)) : Coverage s' where
  margins := by rw [hqueue, hseq]; exact h.margins
  marked := by rw [hqueue, hseq, hbits]; exact h.marked
  sending := by
    rw [hqueue, hseq, SeqState.inMargin_setMisc]
    exact h.sending
  replying f hf i hi := by
    rw [hqueue]
    rcases hreply f hf with h0 | ⟨hf', hb, ha⟩
    · omega
    · rw [ha]
      exact h.replying f hf' i (hb ▸ hi)
  walk := by rw [hbits, hseq]; exact h.walk
  done := by rw [hqueue, hseq]; exact h.done
  order := by rw [hqueue]; exact h.order

/-- When no unit is left, every usable byte is named. -/
theorem complete (h : Coverage s) (htype : s.seq.mType = .noMargin)
    (hoff : s.seq.isTransmitting = false)
    (hall : MarkedBetween s.bitarray s.seq.nextStart endOfMemory) : Complete s.tcp.queue := by
  intro x hx
  rcases hx.cases with ⟨t, ht, hold⟩ | hu
  · exact h.margins t (lt_trans ht (by rw [htype]; decide)) ht x hold hx
  · have hmark := h.walk.trans hall _ hu (Nat.zero_le _) (lt_of_le_of_ne
      (by have := hu.lt; unfold endOfMemory; omega) hu.ne_end)
    rcases h.marked _ hu hmark with hc | ⟨hi, -⟩
    · have hdiv := Nat.div_add_mod x addrOffset
      have hlt := Nat.mod_lt x (show 0 < addrOffset by decide)
      exact hc x (Nat.div_mul_le_self _ _) (by rw [Nat.mul_comm]; omega) hx
    · rw [hoff] at hi
      cases hi

theorem replyMore (h : Coverage s) {f : ReplyFn} (hf : s.req.replying = some f)
    (hproto : s.req.msg.protoId = .dataMem) (r : TcpAnswer)
    (hlost : NothingLost (replyMore mem f r s)) : Coverage (replyMore mem f r s) := by
  have ho : Offers r ⟨.postcopyRequested, replyMsg mem f s.req⟩ s (Migration.replyMore mem f r s) :=
    offers_tcpWrite _ rfl
  have hmem : (replyMsg mem f s.req).IsMem := .inl hproto
  have hnew := ho.covers hmem hlost (by simp [NotLast])
  have hmono : ∀ q ∈ s.tcp.queue, q ∈ (Migration.replyMore mem f r s).tcp.queue := fun q hq => by
    rw [ho.queue]
    exact List.mem_append_left _ hq
  exact {
    margins := fun t h1 h2 => (h.margins t h1 h2).mono hmono
    marked := fun u hu hm => (h.marked u hu hm).imp_left (Covers.mono hmono)
    sending := fun hb hi i h1 h2 => (h.sending hb hi i h1 h2).mono hmono
    replying := fun g hg i hi => by
      have hg : s.req.replying = some g := hg
      rw [hf] at hg
      cases hg
      rcases Nat.lt_or_ge i (s.req.batch f) with hlt | hge
      · exact (h.replying f hf i hlt).mono hmono
      · have hi' : i = s.req.batch f := by
          simp only [Migration.replyMore, Function.update_self] at hi
          omega
        subst hi'
        have hblock : Covers (Migration.replyMore mem f r s).tcp.queue
            (s.req.msg.addrToMigrate + sizeSendbufData * s.req.batch f) sizeSendbufData := by
          simpa [BfMsg.target, BfMsg.dataLen, replyMsg, hproto] using hnew
        exact hblock
    walk := h.walk
    done := fun hd => (h.done hd).mono hmono
    order := ho.order h.order fun hp => absurd hp hmem.ne_migDone }

theorem replyLast (h : Coverage s) {f : ReplyFn} (hf : s.req.replying = some f)
    (hlow : s.req.requestedAddr < 2 ^ 36) (haligned : s.req.msg.addrToMigrate % addrOffset = 0)
    (haddr : s.req.requestedAddr = s.req.msg.addrToMigrate ∨
      getBitarray s.bitarray s.req.requestedAddr = true)
    (hlast : batchSize ≤ s.req.batch f + 1) (r : TcpAnswer)
    (hlost : NothingLost (replyLast mem f r s)) : Coverage (replyLast mem f r s) := by
  have ho : Offers r ⟨.postcopyRequested, { replyMsg mem f s.req with protoId := .dataReqMem }⟩ s
      (Migration.replyLast mem f r s) := offers_tcpWrite _ rfl
  have hmem : { replyMsg mem f s.req with protoId := .dataReqMem }.IsMem := .inr (.inl rfl)
  have hnew := ho.covers hmem hlost (by simp [NotLast])
  have hmono : ∀ q ∈ s.tcp.queue, q ∈ (Migration.replyLast mem f r s).tcp.queue := fun q hq => by
    rw [ho.queue]
    exact List.mem_append_left _ hq
  have hunit : Covers (Migration.replyLast mem f r s).tcp.queue s.req.msg.addrToMigrate addrOffset := by
    refine covers_of_blocks (n := batchSize) fun i hi => ?_
    rcases Nat.lt_or_ge i (s.req.batch f) with hlt | hge
    · exact (h.replying f hf i hlt).mono hmono
    · have hi' : i = s.req.batch f := by
        simp only [batchSize] at hi hlast
        omega
      subst hi'
      simpa [BfMsg.target, BfMsg.dataLen, replyMsg] using hnew
  have hold : ∀ u, IsGranUnit u → getBitarray s.bitarray u = true →
      Covers (Migration.replyLast mem f r s).tcp.queue u addrOffset ∨
        (s.seq.isTransmitting = true ∧ u = s.seq.startAddr) :=
    fun u hu hm => (h.marked u hu hm).imp_left (Covers.mono hmono)
  exact {
    margins := fun t h1 h2 => (h.margins t h1 h2).mono hmono
    marked := fun u hu hm => by
      simp only [Migration.replyLast] at hm
      rw [getBitarray_set _ _ _ (lt_trans hlow (by norm_num)), Bool.or_eq_true,
        decide_eq_true_eq] at hm
      rcases hm with hm | hm
      · rcases haddr with haddr | hmark
        · rw [haddr] at hm
          have hu' := hu.aligned
          have heq : u = s.req.msg.addrToMigrate := by
            simp only [addrOffset] at haligned
            omega
          exact .inl (heq ▸ hunit)
        · exact hold u hu (getBitarray_unit _ hm ▸ hmark)
      · exact hold u hu hm
    sending := fun hb hi i h1 h2 => (h.sending hb hi i h1 h2).mono hmono
    replying := fun g hg => by cases hg
    walk := h.walk.mono fun u hu => getBitarray_set_mono _ hu
    done := fun hd => (h.done hd).mono hmono
    order := ho.order h.order fun hp => absurd hp hmem.ne_migDone }

/-- The block that the next message of `send_margin` names. -/
theorem covers_next (hbusy : s.seq.Busy) (hlabels : SeqLabels s.seq) {queue : List Queued}
    {p : ProtoId} (hp : p ≠ .dataMemSp)
    (hc : Covers queue { seqMsgNext mem s.seq with protoId := p }.target
      { seqMsgNext mem s.seq with protoId := p }.dataLen) :
    Covers queue (s.seq.startAddr + sizeSendbufData * s.seq.sendNum) sizeSendbufData := by
  simpa [BfMsg.target, BfMsg.dataLen, seqMsgNext, hp, hlabels.addr, hbusy.1] using hc

/-- A batch that is not the last one is named, unless it is sent again later. -/
theorem marginMore (h : Coverage s) (hact : s.seq.Active) (hbusy : s.seq.Busy)
    (hlabels : SeqLabels s.seq) (hrange : Ranges s) (hprotos : Protos s)
    (hmore : s.seq.sendNum + 1 < s.seq.sendSize) (r : TcpAnswer)
    (hlost : NothingLost (marginMore mem r s)) : Coverage (marginMore mem r s) := by
  have hin : s.seq.isTransmitting = true ∨ s.seq.InMargin :=
    hact.imp (fun hu => hu.1.transmitting) And.left
  have hproto : s.seq.seqMsg.protoId = .dataMem :=
    hin.elim (fun hi => hprotos.unit hi hbusy) hprotos.margin
  have ho : Offers r ⟨.sendMargin, seqMsgNext mem s.seq⟩ s (Migration.marginMore mem r s) :=
    offers_tcpWrite _ rfl
  have hmem : (seqMsgNext mem s.seq).IsMem := .inl hproto
  have hmono : ∀ q ∈ s.tcp.queue, q ∈ (Migration.marginMore mem r s).tcp.queue := fun q hq => by
    rw [ho.queue]
    exact List.mem_append_left _ hq
  have hnew : (s.seq.mType = .marginBuff → s.seq.sendNum < batchSize) →
      Covers (Migration.marginMore mem r s).tcp.queue
        (s.seq.startAddr + sizeSendbufData * s.seq.sendNum) sizeSendbufData := by
    intro hbuff
    refine covers_next hbusy hlabels (p := s.seq.seqMsg.protoId) (by simp [hproto])
      (ho.covers hmem hlost ?_)
    rintro ⟨-, ⟨hsize, hbatch⟩ | ⟨hsize, hbatch⟩⟩
    · have hsize : s.seq.sendSize = 384 := hlabels.size ▸ hsize
      have hbatch : batchSize ≤ s.seq.sendNum := hbusy.1 ▸ hbatch
      rcases hact with ⟨hu, -⟩ | ⟨hm, -⟩
      · rw [hu.size] at hsize
        cases hsize
      · have htype : s.seq.mType = .marginBuff := by
          by_contra hne
          exact (hrange.sendSize hm).2.1 hne hsize
        exact absurd (hbuff htype) (Nat.not_lt.mpr hbatch)
    · have hsize : s.seq.sendSize = batchSize := hlabels.size ▸ hsize
      have hbatch : s.seq.sendNum + 1 = batchSize := hbusy.1 ▸ hbatch
      omega
  exact {
    margins := fun t h1 h2 => (h.margins t h1 h2).mono hmono
    marked := fun u hu hm => (h.marked u hu hm).imp_left (Covers.mono hmono)
    sending := fun _ _ i hi hbuff => by
      rcases Nat.lt_or_ge i s.seq.sendNum with hlt | hge
      · exact (h.sending hbusy hin i hlt hbuff).mono hmono
      · have hi' : i = s.seq.sendNum := by
          have hi : i < s.seq.sendNum + 1 := hi
          omega
        subst hi'
        exact hnew hbuff
    replying := fun f hf i hi => (h.replying f hf i hi).mono hmono
    walk := h.walk
    done := fun hd => (h.done hd).mono hmono
    order := ho.order h.order fun hp => absurd hp hmem.ne_migDone }

/-- A margin that is over is named, and marks no unit of the background copy. -/
theorem marginBatchEnd (h : Coverage s) (hc : Control s) (hact : s.seq.Active) (hbusy : s.seq.Busy)
    (hlabels : SeqLabels s.seq) (hrange : Ranges s) (hprotos : Protos s)
    (hlast : s.seq.sendSize ≤ s.seq.sendNum + 1) {next : MarginType}
    (hnext : s.seq.mType.next = some next) (r : TcpAnswer)
    (hlost : NothingLost (marginBatchEnd mem next r s)) :
    Coverage (marginBatchEnd mem next r s) := by
  have hm := (hc.inMargin_of_active hact (MarginType.next_ne hnext).1).1
  have hbuff : s.seq.mType ≠ .marginBuff := fun ht => by simp [ht, MarginType.next] at hnext
  have hoff := hc.not_transmitting hm.thread
  obtain ⟨-, hsize, hsize'⟩ := hrange.sendSize hm
  have ho : Offers r ⟨.sendMargin, seqMsgNext mem s.seq⟩ s (Migration.marginBatchEnd mem next r s) :=
    offers_tcpWrite _ rfl
  have hproto := hprotos.margin hm
  have hmem : (seqMsgNext mem s.seq).IsMem := .inl hproto
  have hmono : ∀ q ∈ s.tcp.queue, q ∈ (Migration.marginBatchEnd mem next r s).tcp.queue :=
    fun q hq => by
      rw [ho.queue]
      exact List.mem_append_left _ hq
  have hnew : Covers (Migration.marginBatchEnd mem next r s).tcp.queue
      (s.seq.startAddr + sizeSendbufData * s.seq.sendNum) sizeSendbufData := by
    refine covers_next hbusy hlabels (p := s.seq.seqMsg.protoId) (by simp [hproto])
      (ho.covers hmem hlost ?_)
    rintro ⟨-, ⟨hs, -⟩ | ⟨hs, -⟩⟩
    · exact hsize hbuff (hlabels.size ▸ hs)
    · exact hsize' (hlabels.size ▸ hs)
  have hwhole : Covers (Migration.marginBatchEnd mem next r s).tcp.queue s.seq.startAddr
      (sizeSendbufData * s.seq.sendSize) := by
    refine covers_of_blocks fun i hi => ?_
    rcases Nat.lt_or_ge i s.seq.sendNum with hlt | hge
    · exact (h.sending hbusy (.inr hm) i hlt fun ht => absurd ht hbuff).mono hmono
    · have hi' : i = s.seq.sendNum := by omega
      subst hi'
      exact hnew
  exact {
    margins := fun t h1 h2 => by
      have h1 : t.index < next.index := h1
      rw [MarginType.index_next hnext] at h1
      rcases Nat.lt_succ_iff_lt_or_eq.mp h1 with hlt | heq
      · exact (h.margins t hlt h2).mono hmono
      · have ht := MarginType.index_injective heq
        subst ht
        intro x hx hu
        have hrange' := hrange.margin hm
        simp only [marginRange, if_neg hbuff] at hrange'
        refine hwhole x (hrange'.1 ▸ hx.1) ?_ hu
        rw [hrange'.2]
        exact Nat.lt_succ_of_le hx.2
    marked := fun u hu hmark => by
      simp only [Migration.marginBatchEnd] at hmark
      rw [getBitarray_set _ _ _ hlabels.lt, Bool.or_eq_true, decide_eq_true_eq] at hmark
      rcases hmark with hmark | hmark
      · rw [(hrange.margin hm).1] at hmark
        exact absurd hmark (not_isGranUnit_margin _ hm.whole hbuff hu)
      · exact (h.marked u hu hmark).imp_left (Covers.mono hmono)
    sending := fun hb _ i hi => by
      rw [show (Migration.marginBatchEnd mem next r s).seq.sendNum = 0 from hb.1.symm] at hi
      exact absurd hi (Nat.not_lt_zero i)
    replying := fun f hf i hi => (h.replying f hf i hi).mono hmono
    walk := h.walk.mono fun u hu => getBitarray_set_mono _ hu
    done := fun hd => (h.done hd).mono hmono
    order := ho.order h.order fun hp => absurd hp hmem.ne_migDone }

/-- The end of the memory around the virtio ring marks its first unit, which is named. -/
theorem marginBuffEnd (h : Coverage s) (hc : Control s) (hact : s.seq.Active) (hbusy : s.seq.Busy)
    (hlabels : SeqLabels s.seq) (hrange : Ranges s)
    (hlast : s.seq.sendSize ≤ s.seq.sendNum + 1) (htype : s.seq.mType = .marginBuff)
    (r : TcpAnswer) : Coverage (marginBuffEnd mem r s) := by
  have hm := (hc.inMargin_of_active hact (by simp [htype])).1
  have hsize := (hrange.sendSize hm).1 htype
  have ho : Offers r ⟨.sendMargin, { seqMsgNext mem s.seq with protoId := .buffMem }⟩ s
      (Migration.marginBuffEnd mem r s) := offers_tcpWrite _ rfl
  have hmono : ∀ q ∈ s.tcp.queue, q ∈ (Migration.marginBuffEnd mem r s).tcp.queue :=
    fun q hq => by
      rw [ho.queue]
      exact List.mem_append_left _ hq
  have hunit : Covers s.tcp.queue s.seq.startAddr addrOffset := by
    refine covers_of_blocks (n := batchSize) fun i hi => ?_
    refine h.sending hbusy (.inr hm) i ?_ fun _ => hi
    simp only [batchSize] at hi
    omega
  exact {
    margins := fun t h1 h2 => by
      have hlt : t.index < s.seq.mType.index := by
        rw [htype]
        exact h2
      exact (h.margins t hlt h2).mono hmono
    marked := fun u hu hmark => by
      simp only [Migration.marginBuffEnd] at hmark
      rw [getBitarray_set _ _ _ hlabels.lt, Bool.or_eq_true, decide_eq_true_eq] at hmark
      rcases hmark with hmark | hmark
      · have hstart : s.seq.startAddr = virtioQueue64 s.virtioRecvQueue := by
          rw [(hrange.margin hm).1, htype]
          rfl
        have hvirtio := (virtioQueue64_eq s.virtioRecvQueue).1
        have haligned := hu.aligned
        have heq : u = s.seq.startAddr := by
          rw [← hstart] at hvirtio
          omega
        exact .inl ((heq ▸ hunit).mono hmono)
      · exact (h.marked u hu hmark).imp_left (Covers.mono hmono)
    sending := fun hb _ i hi => by
      rw [show (Migration.marginBuffEnd mem r s).seq.sendNum = 0 from hb.1.symm] at hi
      exact absurd hi (Nat.not_lt_zero i)
    replying := fun f hf i hi => (h.replying f hf i hi).mono hmono
    walk := h.walk.mono fun u hu => getBitarray_set_mono _ hu
    done := fun hd => (h.done hd).mono hmono
    order := ho.order h.order (by rintro ⟨⟩) }

/-- A background unit that is over is named. -/
theorem unitEnd (h : Coverage s) (hact : s.seq.Active) (hbusy : s.seq.Busy)
    (hlabels : SeqLabels s.seq) (hprotos : Protos s) (hlast : s.seq.sendSize ≤ s.seq.sendNum + 1)
    (htype : s.seq.mType = .noMargin) (r : TcpAnswer) : Coverage (unitEnd mem r s) := by
  have hu := Control.inUnit_of_active hact htype
  have hproto := hprotos.unit hu.transmitting hbusy
  have ho : Offers r ⟨.sendMargin, (Migration.unitEnd mem r s).seq.seqMsg⟩ s
      (Migration.unitEnd mem r s) := offers_tcpWrite _ rfl
  have hmem : (Migration.unitEnd mem r s).seq.seqMsg.IsMem := by
    simp only [Migration.unitEnd, BfMsg.IsMem, hproto]
    split <;> simp
  have hsp : (if s.req.requestedAddr = s.seq.startAddr then ProtoId.dataReqMem
      else s.seq.seqMsg.protoId) ≠ .dataMemSp := by
    rw [hproto]
    split <;> simp
  have hmono : ∀ q ∈ s.tcp.queue, q ∈ (Migration.unitEnd mem r s).tcp.queue := fun q hq => by
    rw [ho.queue]
    exact List.mem_append_left _ hq
  exact {
    margins := fun t h1 h2 => (h.margins t h1 h2).mono hmono
    marked := fun u hg hmark => by
      rcases h.marked u hg hmark with hcov | ⟨-, heq⟩
      · exact .inl (hcov.mono hmono)
      · cases hw : r.wrote with
        | false => exact .inr ⟨by simp [Migration.unitEnd, hw, hu.transmitting], heq⟩
        | true =>
          have hnew := covers_next hbusy hlabels hsp (ho.covers_of_wrote hmem hw)
          subst heq
          refine .inl (covers_of_blocks (n := batchSize) fun i hi => ?_)
          rcases Nat.lt_or_ge i s.seq.sendNum with hlt | hge
          · exact (h.sending hbusy (.inl hu.transmitting) i hlt (by simp [htype])).mono hmono
          · have hi' : i = s.seq.sendNum := by
              have := hu.size
              omega
            subst hi'
            exact hnew
    sending := fun hb => by cases hb.1
    replying := fun f hf i hi => (h.replying f hf i hi).mono hmono
    walk := h.walk
    done := fun hd => (h.done hd).mono hmono
    order := ho.order h.order fun hp => absurd hp hmem.ne_migDone }

/-- With no margin or unit being sent, only what has been sent counts. -/
theorem of_started (h : Coverage s) (hoff : s.seq.isTransmitting = false)
    (hqueue : s'.tcp.queue = s.tcp.queue) (hbits : s'.bitarray = s.bitarray) (hreq : s'.req = s.req)
    (htype : s'.seq.mType = s.seq.mType) (hnext : s'.seq.nextStart = s.seq.nextStart)
    (hnum : s'.seq.Busy → s'.seq.sendNum = 0)
    (hdone : s'.seq.migrationDone = s.seq.migrationDone) : Coverage s' where
  margins := by rw [hqueue, htype]; exact h.margins
  marked u hu hm := by
    rw [hbits] at hm
    rw [hqueue]
    exact .inl ((h.marked u hu hm).resolve_right fun hi => by simp [hoff] at hi)
  sending hb _ i hi := by
    rw [hnum hb] at hi
    exact absurd hi (Nat.not_lt_zero i)
  replying := by rw [hqueue, hreq]; exact h.replying
  walk := by rw [hbits, hnext]; exact h.walk
  done := by rw [hqueue, hdone]; exact h.done
  order := by rw [hqueue]; exact h.order

/-- The margin smaller than 1KB. -/
theorem lessThan1kb (h : Coverage s) (hoff : s.seq.isTransmitting = false)
    (htype : s.seq.mType = .margin06sp) (r : TcpAnswer)
    (hlost : NothingLost (lessThan1kb mem r (startMarginLessThan1kb s))) :
    Coverage (lessThan1kb mem r (startMarginLessThan1kb s)) := by
  have ho : Offers r ⟨.sendMarginLessThan1kb, seqMsgLessThan1kb mem (startMarginLessThan1kb s).seq⟩ s
      (Migration.lessThan1kb mem r (startMarginLessThan1kb s)) := offers_tcpWrite _ rfl
  have hmem : (seqMsgLessThan1kb mem (startMarginLessThan1kb s).seq).IsMem :=
    .inr (.inr (.inr rfl))
  have hnew := ho.covers hmem hlost (by simp [NotLast])
  have hmono : ∀ q ∈ s.tcp.queue,
      q ∈ (Migration.lessThan1kb mem r (startMarginLessThan1kb s)).tcp.queue := fun q hq => by
    rw [ho.queue]
    exact List.mem_append_left _ hq
  have hstart : (startMarginLessThan1kb s).seq.startAddr = 0x9c400 := by
    simp [startMarginLessThan1kb, Migration.startMargin, setSendMargin, htype, marginRange,
      areaAt, marginList, MarginType.index]
  exact {
    margins := fun t h1 h2 => by
      have h1 : t.index < MarginType.marginBuff.index := h1
      by_cases hlt : t.index < s.seq.mType.index
      · exact (h.margins t hlt h2).mono hmono
      · have ht : t = .margin06sp := MarginType.index_injective (by
          rw [htype] at hlt
          simp only [MarginType.index] at h1 hlt ⊢
          omega)
        subst ht
        intro x hx hu
        refine hnew x ?_ ?_ hu
        · show (startMarginLessThan1kb s).seq.startAddr + sizeSendbufData * 0 ≤ x
          rw [hstart]
          exact hx.1
        · show x < (startMarginLessThan1kb s).seq.startAddr + sizeSendbufData * 0 + 762
          rw [hstart]
          exact Nat.lt_succ_of_le hx.2
    marked := fun u hu hm =>
      .inl (((h.marked u hu hm).resolve_right fun hi => by simp [hoff] at hi).mono hmono)
    sending := fun _ _ i hi => absurd hi (Nat.not_lt_zero i)
    replying := fun f hf i hi => (h.replying f hf i hi).mono hmono
    walk := h.walk.mono fun u hu => hu
    done := fun hd => (h.done hd).mono hmono
    order := ho.order h.order fun hp => absurd hp hmem.ne_migDone }

/-- A unit that is started is marked, and the walk goes on behind it. -/
theorem startUnit (h : Coverage s) (hturn : SeqTurn s) (hoff : s.seq.isTransmitting = false)
    {a next : Nat} (hs : StartAddr s.bitarray s.seq.nextStart a next) (ha : a ≠ endOfMemory) :
    Coverage (startUnit a next s) := by
  obtain ⟨hu, -, hnext⟩ := hs.unit ha
  have hlt : a < 2 ^ 53 := lt_trans hu.lt (by norm_num)
  have hmono : ∀ u, getBitarray s.bitarray u = true →
      getBitarray (Migration.startUnit a next s).bitarray u = true :=
    fun u hm => getBitarray_set_mono _ hm
  have hmark : getBitarray (Migration.startUnit a next s).bitarray a = true := by
    simp only [Migration.startUnit]
    rw [getBitarray_set _ _ _ hlt]
    simp
  exact {
    margins := h.margins
    marked := fun u hg hm => by
      simp only [Migration.startUnit] at hm
      rw [getBitarray_set _ _ _ hlt, Bool.or_eq_true, decide_eq_true_eq] at hm
      rcases hm with hm | hm
      · have hg' := hg.aligned
        have hu' := hu.aligned
        exact .inr ⟨rfl, by
          show u = a
          omega⟩
      · exact .inl ((h.marked u hg hm).resolve_right fun hi => by simp [hoff] at hi)
    sending := fun _ _ i hi => absurd hi (Nat.not_lt_zero i)
    replying := h.replying
    walk := by
      have hpassed := ((h.walk.trans hs.passed).mono hmono).trans (markedBetween_next hu hmark)
      rw [← hnext] at hpassed
      exact hpassed
    done := fun hd => by
      have hd : s.seq.migrationDone = true := hd
      rw [hturn.notDone] at hd
      cases hd
    order := h.order }

/-- When no unit is left everything is named. -/
theorem noUnitLeft (h : Coverage s) (hoff : s.seq.isTransmitting = false)
    (htype : s.seq.mType = .noMargin) {next : Nat}
    (hs : StartAddr s.bitarray s.seq.nextStart endOfMemory next) :
    Complete s.tcp.queue ∧ Coverage (setMigrationDone (noUnitLeft s)) := by
  have hall := h.complete htype hoff hs.passed
  refine ⟨hall, {
    margins := h.margins
    marked := fun u hu hm => .inl ((h.marked u hu hm).resolve_right fun hi => by simp [hoff] at hi)
    sending := fun _ hin => ?_
    replying := h.replying
    walk := h.walk.trans hs.passed
    done := fun _ => hall
    order := h.order }⟩
  rcases hin with hi | hm
  · cases hi
  · exact absurd htype hm.whole.2

/-- The message that ends the migration, when everything is named. -/
theorem migrationDoneMsg (h : Coverage s) (hall : Complete s.tcp.queue)
    (htype : s.seq.mType = .noMargin) (hoff : s.seq.isTransmitting = false) (r : TcpAnswer)
    {done : Bool} (hs' : s' = { Migration.migrationDoneMsg r s with
      seq := { (Migration.migrationDoneMsg r s).seq with migrationDone := done } }) :
    Coverage s' := by
  have ho : Offers r ⟨.sendMigrationDone, { s.seq.seqMsg with protoId := .migDone }⟩ s s' :=
    offers_tcpWrite _ (by rw [hs']; rfl)
  have hmono : ∀ q ∈ s.tcp.queue, q ∈ s'.tcp.queue := fun q hq => by
    rw [ho.queue]
    exact List.mem_append_left _ hq
  subst hs'
  exact {
    margins := fun t h1 h2 => (h.margins t h1 h2).mono hmono
    marked := fun u hu hm =>
      .inl (((h.marked u hu hm).resolve_right fun hi => by simp [hoff] at hi).mono hmono)
    sending := fun _ hin => by
      rcases hin with hi | hm
      · exact absurd (hoff.symm.trans hi) (by simp)
      · exact absurd htype hm.whole.2
    replying := fun f hf i hi => (h.replying f hf i hi).mono hmono
    walk := h.walk
    done := fun _ => hall.mono hmono
    order := ho.order h.order fun _ => hall }

end Coverage

theorem NothingLost.of_piece {mem : GuestMem} {p p' : Point} {s s' : Client}
    (h : Piece mem p s p' s') (hs : NothingLost s') : NothingLost s :=
  fun q hq => hs q (h.refused_mono hq)

/-- All that the coverage rests on. -/
def coverBaseAt (mem : GuestMem) : Assertion := fun p s =>
  ((baseAt p s ∧ replyAt p s) ∧ contentAt mem p s) ∧ protosAt p s

theorem keeps_coverBase (mem : GuestMem) : Keeps mem (coverBaseAt mem) (coverBaseAt mem) :=
  ((keeps_baseReply mem).and fun _ _ _ _ hp h => keeps_content mem hp ⟨h.1.1, h.2⟩).and
    fun _ _ _ _ hp h => keeps_protos mem hp ⟨⟨h.1.1.1, h.1.2⟩, h.2⟩

/-- The coverage is kept by every piece of a step. -/
theorem keeps_coverage (mem : GuestMem) :
    Keeps mem (fun p s => coverBaseAt mem p s ∧ (NothingLost s → Coverage s))
      fun _ s => NothingLost s → Coverage s := by
  rintro p s p' s' hp ⟨⟨⟨⟨⟨⟨hc, hl⟩, hrange⟩, hr⟩, hcont⟩, hprotos⟩, h⟩ hlost
  have h := h (NothingLost.of_piece hp hlost)
  cases hp with
  | replyMore => exact h.replyMore hr.2 (hr.1.proto (by simp [hr.2])) _ hlost
  | replyLast _ hlast =>
    exact h.replyLast hr.2 (hr.1.low (.inl (by simp [hr.2]))) hl.2.aligned
      (hr.1.addr (by simp [hr.2])) hlast _ hlost
  | marginMore _ hmore => exact h.marginMore hc.2 hcont.2 hl.1 hrange hprotos hmore _ hlost
  | marginMoreFailed _ hmore => exact h.marginMore hc.2 hcont.2 hl.1 hrange hprotos hmore _ hlost
  | marginBatchEnd _ hlast hnext =>
    exact h.marginBatchEnd hc.1 hc.2 hcont.2 hl.1 hrange hprotos hlast hnext _ hlost
  | marginBuffEnd _ hlast htype =>
    exact h.marginBuffEnd hc.1 hc.2 hcont.2 hl.1 hrange hlast htype _
  | unitEnd _ hlast htype => exact h.unitEnd hc.2 hcont.2 hl.1 hprotos hlast htype _
  | marginDefault _ _ htype =>
    have hm := (hc.1.inMargin_of_active hc.2 (by simp [htype])).1
    exact absurd htype hm.whole.1
  | readyStart =>
    exact h.of_started (hc.1.not_transmitting hc.2.thread) rfl rfl rfl rfl rfl (fun _ => rfl) rfl
  | readyLess =>
    exact h.of_started (hc.1.not_transmitting hc.2.thread) rfl rfl rfl rfl rfl (fun _ => rfl) rfl
  | readyLessSent htype =>
    exact h.lessThan1kb (hc.1.not_transmitting hc.2.thread) htype _ hlost
  | ackCpu _ _ hsent =>
    exact h.of_same rfl rfl (hc.startMargins_seq hsent _) fun f hf => .inr ⟨hf, rfl, rfl⟩
  | threadExit hrun hdone =>
    have hoff := hc.not_transmitting_of_done hdone
    refine h.of_started hoff rfl rfl rfl rfl rfl (fun hb => ?_) rfl
    exact hb.1.symm.trans (hc.between (by simp [hrun]) hoff)
  | threadDone hrun hdone =>
    exact h.migrationDoneMsg (h.done hdone) (hc.created (by simp [hrun]))
      (hc.not_transmitting_of_done hdone) _ rfl
  | threadDisrupted hturn =>
    have hnone := hr.1.none_of_noRequest hturn.noRequest
    exact h.of_same rfl rfl rfl fun f _ => .inl (hr.1.between hnone f)
  | threadUnit hturn hoff _ hstart ha =>
    exact h.startUnit hturn hoff (getStartAddr_spec hl.1.walk hstart) ha
  | threadFinish hturn hoff hstart =>
    have htype := hc.created (by simp [hturn.running])
    exact (h.noUnitLeft hoff htype (getStartAddr_spec hl.1.walk hstart)).2
  | threadFinishSent hturn hoff hstart =>
    have htype := hc.created (by simp [hturn.running])
    obtain ⟨hall, hcov⟩ := h.noUnitLeft hoff htype (getStartAddr_spec hl.1.walk hstart)
    exact hcov.migrationDoneMsg hall htype rfl _ rfl
  | requestReply _ hmark htrans =>
    refine h.of_same rfl rfl rfl fun f hf => ?_
    cases hf
    rcases hr.1.restart hr.2 hmark htrans with h0 | ⟨hsame, haddr⟩
    · exact .inl (h0 _)
    · exact .inr ⟨hsame, rfl, haddr⟩
  | _ => exact h.of_same rfl rfl rfl fun f hf => .inr ⟨hf, rfl, rfl⟩

theorem Coverage.start (mem : GuestMem) (q : Nat) (r : TcpAnswer) :
    Coverage (Client.start mem q r) where
  margins _ h := absurd h (Nat.not_lt_zero _)
  marked u _ hm := by
    rw [show (Client.start mem q r).bitarray = fun _ => 0 from rfl, getBitarray_zero] at hm
    cases hm
  sending _ _ i hi := absurd hi (Nat.not_lt_zero i)
  replying _ hf := by cases hf
  walk _ _ _ h := absurd h (Nat.not_lt_zero _)
  done h := by cases h
  order := by
    intro pre x post heq hx
    have hmem : x ∈ (Client.start mem q r).tcp.queue := by
      rw [heq]
      simp
    cases hw : r.wrote <;> simp [Client.start, TcpPcb.tcpWrite, hw] at hmem
    subst hmem
    cases hx

/-- In every run in which requests leave the reply in progress alone, the thread does not retry a
refused last message and no refused message loses a byte, every byte of `usable_mem_list` is named
by a message that was queued before the message that ends the migration. -/
theorem complete_of_migrationDone (mem : GuestMem) (s : Client)
    (hs : (clientMachine mem).ReachableWhen (fun s e => RequestFits s e ∧ ¬ RetriesRefused s e) s)
    (hlost : NothingLost s) : DoneAfterComplete s.tcp.queue := by
  have hkeeps := (keeps_coverBase mem).and (keeps_coverage mem)
  refine ((hkeeps.reachable (fun q r _ => ?_) (fun s e h hC => ?_) hs).2 hlost).order
  · refine ⟨⟨⟨⟨base_start mem q r, ReplyState.start q r⟩, ?_⟩, ?_⟩, fun _ => Coverage.start mem q r⟩
    · exact queueFaithful_start mem q r
    · exact ⟨fun hm => (by cases hm.called), by simp [Client.start], by rintro ⟨⟩⟩
  · obtain ⟨⟨⟨⟨hbase, hr⟩, hcont⟩, hprotos⟩, hcov⟩ := h
    exact ⟨⟨⟨⟨hbase, hr, hC.1⟩, hcont, hC.2⟩, hprotos⟩, hcov⟩

end OnDemandVirt.Migration
