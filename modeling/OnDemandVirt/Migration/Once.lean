import OnDemandVirt.Migration.Carries

/-!
# No unit is sent again

What is said of each queued message and those before it (`AtEach`). The first such property: once
the margins are over, no message names a usable byte whose bit was set by a message before it, or
one that comes after the end of the migration (`keeps_fresh`). Bits of the server are set by the
last message of a unit, and by then the client has marked the unit and is done with it (`Settled`).
-/

namespace OnDemandVirt.Migration

open Lib

/-! ### The order of the queue -/

/-- What is said of each message and the messages before it. -/
def AtEach (P : List Queued → Queued → Prop) (queue : List Queued) : Prop :=
  ∀ pre q post, queue = pre ++ q :: post → P pre q

theorem AtEach.nil (P : List Queued → Queued → Prop) : AtEach P [] :=
  fun pre q post h => absurd h (by simp)

theorem AtEach.append {P : List Queued → Queued → Prop} {queue : List Queued} {q : Queued}
    (h : AtEach P queue) (hq : P queue q) : AtEach P (queue ++ [q]) := by
  intro pre x post heq
  rcases List.eq_nil_or_concat post with rfl | ⟨post', y, rfl⟩
  · obtain ⟨rfl, hqx⟩ := List.append_inj' heq rfl
    cases hqx
    exact hq
  · have heq' : queue ++ [q] = (pre ++ x :: post') ++ [y] := by simpa using heq
    obtain ⟨rfl, -⟩ := List.append_inj' heq' rfl
    exact h pre x post' rfl

theorem AtEach.offers {P : List Queued → Queued → Prop} {r : TcpAnswer} {q : Queued} {s s' : Client}
    (ho : Offers r q s s') (h : AtEach P s.tcp.queue) (hq : P s.tcp.queue q) :
    AtEach P s'.tcp.queue := by
  rw [ho.queue]
  cases r.wrote with
  | true => exact h.append hq
  | false => simpa using h

/-- What is said of a message that has arrived and of those before it. -/
theorem AtEach.of_mem_take {P : List Queued → Queued → Prop} {queue : List Queued} {n : Nat}
    (h : AtEach P queue) {q : Queued} (hq : q ∈ queue.take n) :
    ∃ pre, P pre q ∧ ∀ w ∈ pre ++ [q], w ∈ queue.take n := by
  obtain ⟨pre, post, hsplit⟩ := List.append_of_mem hq
  refine ⟨pre, h pre q (post ++ queue.drop n) ?_, fun w hw => ?_⟩
  · rw [← List.cons_append, ← List.append_assoc, ← hsplit, List.take_append_drop]
  · rw [hsplit]
    simp only [List.mem_append, List.mem_cons, List.not_mem_nil, or_false] at hw ⊢
    exact hw.imp_right .inl

/-! ### Units that are done -/

/-- After the message nothing more is sent for the byte. -/
def Closes (m : BfMsg) (x : Nat) : Prop := m.SetsBit x ∨ m.protoId = .migDone

/-- The unit of the byte is being sent or answered. -/
def InProgress (s : Client) (x : Nat) : Prop :=
  (s.seq.isTransmitting = true ∧ SameUnit x s.seq.startAddr) ∨
    (s.req.replying ≠ none ∧ SameUnit x s.req.msg.addrToMigrate)

/-- The client is done with the unit of the byte. -/
def Settled (s : Client) (x : Nat) : Prop :=
  getBitarray s.bitarray x = true ∧ ¬ InProgress s x

/-- With the messages that set bits of the server, the client is done with the units. -/
structure Once (s : Client) : Prop where
  closed : ∀ w ∈ s.tcp.queue, ∀ x, Usable x → Closes w.msg x → Settled s x
  margins : ∀ t : MarginType, t.index < s.seq.mType.index → t.index < 6 →
    getBitarray s.bitarray (areaAt marginList t.index).startAddr = true
  buff : (∃ w ∈ s.tcp.queue, w.msg.protoId = .buffMem) → s.seq.mType = .noMargin
  walk : MarkedBetween s.bitarray 0 s.seq.nextStart
  done : s.seq.migrationDone = true → ∀ x, Usable x → Settled s x
  addr : s.req.replying ≠ none → s.req.requestedAddr = s.req.msg.addrToMigrate

/-- After the margins, what the message names was not closed by a message before it. -/
def Fresh (pre : List Queued) (q : Queued) : Prop :=
  (∃ b ∈ pre, b.msg.protoId = .buffMem) → ∀ x, Usable x → Names q x →
    ∀ w ∈ pre, ¬ Closes w.msg x

/-- A usable byte outside of the units of `usable_mem_list_gran` is in a unit that is marked with
a margin. -/
theorem Usable.unit {x : Nat} (h : Usable x) : IsGranUnit (x / addrOffset * addrOffset) ∨
    ∃ t : MarginType, t.index < 6 ∧ SameUnit x (areaAt marginList t.index).startAddr := by
  rcases h.cases with ⟨t, ht, hx⟩ | hg
  · right
    by_cases hsp : t = .margin06sp
    · refine ⟨.margin00, by decide, ?_⟩
      rw [hsp] at hx
      simp only [areaAt, marginList, MarginType.index, MemArea.Holds, SameUnit, addrOffset] at *
      simp at *
      omega
    · refine ⟨t, ?_, ?_⟩
      · cases t <;> simp_all [MarginType.index]
      · cases t <;> simp_all [areaAt, marginList, MarginType.index, MemArea.Holds, SameUnit,
          addrOffset] <;> omega
  · exact .inl hg

/-! ### Steps -/

section
variable {mem : GuestMem} {s s' : Client}

/-- A unit stays settled, where only units that were not marked come to be in progress. -/
theorem Settled.next {x : Nat} (h : Settled s x)
    (hbits : ∀ u, getBitarray s.bitarray u = true → getBitarray s'.bitarray u = true)
    (hprog : ∀ y, InProgress s' y → InProgress s y ∨ getBitarray s.bitarray y = false) :
    Settled s' x := by
  refine ⟨hbits x h.1, fun hp => ?_⟩
  rcases hprog x hp with hp | hp
  · exact h.2 hp
  · rw [h.1] at hp
    cases hp

/-- What a piece has to show: the message it sends closes units that are settled by then, and
margins, the walk and the end come with their bits. -/
theorem Once.next (h : Once s) {new : List Queued} (hqueue : s'.tcp.queue = s.tcp.queue ++ new)
    (hbits : ∀ u, getBitarray s.bitarray u = true → getBitarray s'.bitarray u = true)
    (hprog : ∀ y, InProgress s' y → InProgress s y ∨ getBitarray s.bitarray y = false)
    (hnew : ∀ w ∈ new, ∀ x, Usable x → Closes w.msg x → Settled s' x)
    (hbuff : (∃ w ∈ new, w.msg.protoId = .buffMem) → s'.seq.mType = .noMargin)
    (hnone : s.seq.mType = .noMargin → s'.seq.mType = .noMargin)
    (hmargins : ∀ t : MarginType, t.index < s'.seq.mType.index → t.index < 6 →
      t.index < s.seq.mType.index ∨
        getBitarray s'.bitarray (areaAt marginList t.index).startAddr = true)
    (hwalk : MarkedBetween s'.bitarray 0 s.seq.nextStart →
      MarkedBetween s'.bitarray 0 s'.seq.nextStart)
    (hdone : s'.seq.migrationDone = true →
      s.seq.migrationDone = true ∨ ∀ x, Usable x → Settled s' x)
    (haddr : s'.req.replying ≠ none → s'.req.requestedAddr = s'.req.msg.addrToMigrate) :
    Once s' where
  closed w hw x hx hclose := by
    rw [hqueue, List.mem_append] at hw
    rcases hw with hw | hw
    · exact (h.closed w hw x hx hclose).next hbits hprog
    · exact hnew w hw x hx hclose
  margins t ht ht' := by
    rcases hmargins t ht ht' with hlt | hbit
    · exact hbits _ (h.margins t hlt ht')
    · exact hbit
  buff hw := by
    obtain ⟨w, hw, hproto⟩ := hw
    rw [hqueue, List.mem_append] at hw
    rcases hw with hw | hw
    · exact hnone (h.buff ⟨w, hw, hproto⟩)
    · exact hbuff ⟨w, hw, hproto⟩
  walk := hwalk (h.walk.mono hbits)
  done hd x hx := by
    rcases hdone hd with hd | hall
    · exact (h.done hd x hx).next hbits hprog
    · exact hall x hx
  addr := haddr

/-- A message that closes nothing, or none at all, while margins, walk and requests stay. -/
theorem Once.of_same (h : Once s) {new : List Queued} (hqueue : s'.tcp.queue = s.tcp.queue ++ new)
    (hnew : ∀ w ∈ new, (∀ x, ¬ Closes w.msg x) ∧ w.msg.protoId ≠ .buffMem)
    (hbits : s'.bitarray = s.bitarray) (htype : s'.seq.mType = s.seq.mType)
    (hstart : s'.seq.nextStart = s.seq.nextStart)
    (hdone : s'.seq.migrationDone = s.seq.migrationDone)
    (hprog : ∀ y, InProgress s' y → InProgress s y)
    (haddr : s'.req.replying ≠ none → s'.req.requestedAddr = s'.req.msg.addrToMigrate) :
    Once s' := by
  refine h.next hqueue (by rw [hbits]; exact fun _ => id) (fun y hy => .inl (hprog y hy))
    (fun w hw x _ hc => absurd hc ((hnew w hw).1 x)) (fun hw => ?_) (by rw [htype]; exact id)
    (by rw [htype]; exact fun t ht _ => .inl ht) (by rw [hstart]; exact id)
    (by rw [hdone]; exact .inl) haddr
  obtain ⟨w, hw, hproto⟩ := hw
  exact absurd hproto (hnew w hw).2

/-- All usable bytes are settled when the walk is over and the margins are marked. -/
theorem Once.all_settled (h : Once s) (htype : s.seq.mType = .noMargin)
    (hall : MarkedBetween s.bitarray s.seq.nextStart endOfMemory)
    (hprog : ∀ x, ¬ InProgress s x) {x : Nat} (hx : Usable x) : Settled s x := by
  refine ⟨?_, hprog x⟩
  rcases hx.unit with hu | ⟨t, ht, hsame⟩
  · have hmark := h.walk.trans hall _ hu (Nat.zero_le _) (lt_of_le_of_ne
      (by have := hu.lt; unfold endOfMemory; omega) hu.ne_end)
    rwa [getBitarray_unit s.bitarray (b := x) (Nat.mul_div_cancel _ (by decide))] at hmark
  · have hlt : t.index < s.seq.mType.index := lt_trans ht (by rw [htype]; decide)
    rw [getBitarray_unit s.bitarray hsame]
    exact h.margins t hlt ht

end

/-! ### Pieces -/

theorem Offers.mem_new {r : TcpAnswer} {q w : Queued} (hw : w ∈ if r.wrote then [q] else []) :
    r.wrote = true ∧ w = q := by
  split at hw
  · exact ⟨‹_›, List.mem_singleton.mp hw⟩
  · cases hw

theorem not_closes {m : BfMsg} (h : ¬ m.Ends) (hdone : m.protoId ≠ .migDone) (x : Nat) :
    ¬ Closes m x := by
  rintro (hset | hd)
  · exact h hset.1
  · exact hdone hd

/-- A message that sets only the bit of its own unit. -/
theorem sameUnit_of_closes {m : BfMsg} {x a : Nat} (h : Closes m x) (hbuff : m.protoId ≠ .buffMem)
    (hdone : m.protoId ≠ .migDone) (haddr : m.addrToMigrate = a) : SameUnit x a := by
  rcases h with ⟨-, hsame | ⟨hb, -⟩⟩ | hd
  · exact haddr ▸ hsame
  · exact absurd hb hbuff
  · exact absurd hd hdone

/-- A batch of `send_margin` that is not the last one sets no bit. -/
theorem Protos.not_ends (mem : GuestMem) {s : Client} (h : Protos s) (hl : SeqLabels s.seq)
    (hr : Ranges s) (hact : s.seq.Active) (hbusy : s.seq.Busy)
    (hmore : s.seq.sendNum + 1 < s.seq.sendSize) : ¬ (seqMsgNext mem s.seq).Ends := by
  have hsize := sendSize_lt hr hact
  have hproto := h.dataMem hact hbusy
  simp [BfMsg.Ends, seqMsgNext, hproto, BfMsg.lastOfBatch, hl.size, hbusy.1]
  omega

theorem not_inProgress {s : Client} (htrans : s.seq.isTransmitting = false)
    (hnone : s.req.replying = none) (x : Nat) : ¬ InProgress s x := by
  rintro (⟨ht, -⟩ | ⟨hr, -⟩)
  · rw [htrans] at ht
    cases ht
  · exact hr hnone

/-- No usable byte is in the unit of 0x86b35000. -/
theorem not_sameUnit_hole {x : Nat} (h : Usable x) : ¬ SameUnit x 0x86b35000 := by
  intro hsame
  obtain ⟨a, ha, hlo, hhi⟩ := h
  simp only [usableMemList, List.mem_cons, List.not_mem_nil, or_false] at ha
  rcases ha with rfl | rfl | rfl | rfl | rfl | rfl | rfl <;>
    simp only [SameUnit, addrOffset] at * <;> omega

theorem marked_set {bits : Nat → BitVec 64} {a x : Nat} (ha : a < 2 ^ 53) (h : SameUnit x a) :
    getBitarray (setBitarray bits a) x = true := by
  rw [getBitarray_set _ _ _ ha, Bool.or_eq_true, decide_eq_true_eq]
  exact .inl h

theorem keeps_once (mem : GuestMem) :
    Keeps mem (fun p s => (coverBaseAt mem p s ∧ turnAt p s) ∧ Once s) fun _ s => Once s := by
  rintro p s p' s' hp ⟨⟨⟨⟨⟨⟨⟨hc, hl⟩, hrange⟩, hr⟩, hcont⟩, hprotos⟩, ht⟩, h⟩
  cases hp with
  | replyMore _ hmore =>
    have hproto := hr.1.proto (by simp [hr.2])
    have hsize := ht.size (by simp [hr.2])
    refine h.of_same (offers_tcpWrite _ rfl).queue (fun w hw => ?_) rfl rfl rfl rfl (fun _ => id)
      h.addr
    obtain ⟨-, rfl⟩ := Offers.mem_new hw
    refine ⟨not_closes ?_ (by simp [replyMsg, hproto]), by simp [replyMsg, hproto]⟩
    simp [BfMsg.Ends, replyMsg, hproto, BfMsg.lastOfBatch, hsize]
    omega
  | @replyLast f r _ _ _ _ =>
    have hlow := hr.1.low (.inl (by simp [hr.2]))
    have haddr := h.addr (by simp [hr.2])
    have hnot : ∀ y, ¬ InProgress (replyLast mem f r s) y :=
      not_inProgress (hr.1.quiet (by simp [hr.2])) rfl
    refine h.next (offers_tcpWrite _ rfl).queue (fun _ => getBitarray_set_mono _)
      (fun y hy => absurd hy (hnot y)) (fun w hw x _ hclose => ?_) (fun hw => ?_) id
      (fun t ht _ => .inl ht) id .inl fun hne => absurd rfl hne
    · obtain ⟨-, rfl⟩ := Offers.mem_new hw
      exact ⟨marked_set (lt_trans hlow (by norm_num))
        (sameUnit_of_closes hclose (by simp) (by simp) haddr.symm), hnot x⟩
    · obtain ⟨w, hw, hproto⟩ := hw
      obtain ⟨-, rfl⟩ := Offers.mem_new hw
      cases hproto
  | replyFull =>
    exact h.of_same (List.append_nil _).symm (by simp) rfl rfl rfl rfl (fun _ => id) h.addr
  | marginMore _ hmore =>
    have hproto := hprotos.dataMem hc.2 hcont.2
    have hends := hprotos.not_ends mem hl.1 hrange hc.2 hcont.2 hmore
    refine h.of_same (offers_tcpWrite _ rfl).queue (fun w hw => ?_) rfl rfl rfl rfl (fun _ => id)
      h.addr
    obtain ⟨-, rfl⟩ := Offers.mem_new hw
    exact ⟨not_closes hends (by simp [seqMsgNext, hproto]), by simp [seqMsgNext, hproto]⟩
  | marginMoreFailed _ hmore =>
    have hproto := hprotos.dataMem hc.2 hcont.2
    have hends := hprotos.not_ends mem hl.1 hrange hc.2 hcont.2 hmore
    refine h.of_same (offers_tcpWrite _ rfl).queue (fun w hw => ?_) rfl rfl rfl rfl (fun _ => id)
      h.addr
    obtain ⟨-, rfl⟩ := Offers.mem_new hw
    exact ⟨not_closes hends (by simp [seqMsgNext, hproto]), by simp [seqMsgNext, hproto]⟩
  | @marginBatchEnd next r _ _ _ _ hnext =>
    have hm := (hc.1.inMargin_of_active hc.2 (MarginType.next_ne hnext).1).1
    have hproto := hprotos.dataMem hc.2 hcont.2
    have hindex := MarginType.index_next hnext
    have hbound := hl.1.bound
    have hlow : s.seq.startAddr < 2 ^ 53 := by simp only [sizeSendbufData] at hbound; omega
    have hnot : ∀ y, ¬ InProgress (marginBatchEnd mem next r s) y :=
      not_inProgress (hc.1.not_transmitting hm.thread) hr.2
    refine h.next (offers_tcpWrite _ rfl).queue (fun _ => getBitarray_set_mono _)
      (fun y hy => absurd hy (hnot y)) (fun w hw x _ hclose => ?_) (fun hw => ?_)
      (fun hnone => absurd hnone hm.whole.2) (fun t hlt ht => ?_) id .inl h.addr
    · obtain ⟨-, rfl⟩ := Offers.mem_new hw
      exact ⟨marked_set hlow (sameUnit_of_closes hclose (by simp [seqMsgNext, hproto])
        (by simp [seqMsgNext, hproto]) hl.1.addr), hnot x⟩
    · obtain ⟨w, hw, hbuff⟩ := hw
      obtain ⟨-, rfl⟩ := Offers.mem_new hw
      simp [seqMsgNext, hproto] at hbuff
    · have hlt : t.index < next.index := hlt
      by_cases heq : t = s.seq.mType
      · right
        have hb : s.seq.mType ≠ .marginBuff := fun hb => by simp [hb, MarginType.next] at hnext
        have haddr := (hrange.margin hm).1
        rw [marginRange, if_neg hb] at haddr
        refine marked_set hlow ?_
        rw [heq, haddr]
        exact rfl
      · left
        have hne : t.index ≠ s.seq.mType.index := fun hi => heq (MarginType.index_injective hi)
        omega
  | @marginBuffEnd r _ _ _ _ htype =>
    have hm := (hc.1.inMargin_of_active hc.2 (by simp [htype])).1
    have hbound := hl.1.bound
    have hlow : s.seq.startAddr < 2 ^ 53 := by simp only [sizeSendbufData] at hbound; omega
    have hnot : ∀ y, ¬ InProgress (marginBuffEnd mem r s) y :=
      not_inProgress (hc.1.not_transmitting hm.thread) hr.2
    have hmarked : ∀ t : MarginType, t.index < 6 →
        getBitarray s.bitarray (areaAt marginList t.index).startAddr = true :=
      fun t ht => h.margins t (lt_trans ht (by rw [htype]; decide)) ht
    refine h.next (offers_tcpWrite _ rfl).queue (fun _ => getBitarray_set_mono _)
      (fun y hy => absurd hy (hnot y)) (fun w hw x hx hclose => ⟨?_, hnot x⟩) (fun _ => rfl)
      (fun _ => rfl) (fun t _ ht => .inr (getBitarray_set_mono _ (hmarked t ht))) id .inl h.addr
    obtain ⟨-, rfl⟩ := Offers.mem_new hw
    rcases hclose with ⟨-, hsame | ⟨-, hsame | hsame⟩⟩ | hd
    · refine marked_set hlow ?_
      rw [← hl.1.addr]
      exact hsame
    · exact absurd hsame (not_sameUnit_hole hx)
    · refine getBitarray_set_mono _ ?_
      rw [getBitarray_unit s.bitarray hsame]
      exact hmarked .margin05 (by decide)
    · cases hd
  | @unitEnd r _ _ _ _ htype =>
    have hunit := Control.inUnit_of_active hc.2 htype
    have hproto := hprotos.unit hunit.transmitting hcont.2
    have hsent : ∀ {m : BfMsg}, (m.protoId = if s.req.requestedAddr = s.seq.startAddr then
        .dataReqMem else s.seq.seqMsg.protoId) → m.protoId ≠ .buffMem ∧ m.protoId ≠ .migDone := by
      intro m hm
      rw [hm, hproto]
      split <;> simp
    refine h.next (offers_tcpWrite _ rfl).queue (fun _ => id) (fun y hy => .inl ?_)
      (fun w hw x _ hclose => ?_) (fun hw => ?_) id (fun t ht _ => .inl ht) id .inl h.addr
    · refine hy.imp_left fun hy => ⟨?_, hy.2⟩
      exact hunit.transmitting
    · obtain ⟨hwrote, rfl⟩ := Offers.mem_new hw
      have hoff : (unitEnd mem r s).seq.isTransmitting = false := by simp [unitEnd, hwrote]
      refine ⟨?_, not_inProgress hoff hr.2 x⟩
      show getBitarray s.bitarray x = true
      rw [getBitarray_unit s.bitarray
        (sameUnit_of_closes hclose (hsent rfl).1 (hsent rfl).2 hl.1.addr)]
      exact ht.marked hunit.transmitting
    · obtain ⟨w, hw, hbuff⟩ := hw
      obtain ⟨-, rfl⟩ := Offers.mem_new hw
      exact absurd hbuff (hsent rfl).1
  | marginDefault =>
    exact h.of_same (List.append_nil _).symm (by simp) rfl rfl rfl rfl (fun _ => id) h.addr
  | readyStart =>
    have hnot : ∀ y, ¬ InProgress (startMargin s) y :=
      not_inProgress (hc.1.not_transmitting hc.2.thread) hr.2
    exact h.of_same (List.append_nil _).symm (by simp) rfl rfl rfl rfl
      (fun y hy => absurd hy (hnot y)) h.addr
  | readyLess =>
    have hnot : ∀ y, ¬ InProgress (startMarginLessThan1kb s) y :=
      not_inProgress (hc.1.not_transmitting hc.2.thread) hr.2
    exact h.of_same (List.append_nil _).symm (by simp) rfl rfl rfl rfl
      (fun y hy => absurd hy (hnot y)) h.addr
  | @readyLessSent r _ _ htype =>
    have hnot : ∀ y, ¬ InProgress (lessThan1kb mem r (startMarginLessThan1kb s)) y :=
      not_inProgress (hc.1.not_transmitting hc.2.thread) hr.2
    have hmarked : ∀ t : MarginType, t.index < 6 →
        getBitarray s.bitarray (areaAt marginList t.index).startAddr = true :=
      fun t ht => h.margins t (by rw [htype]; exact ht) ht
    refine h.next (offers_tcpWrite (s := s) _ rfl).queue (fun _ => id)
      (fun y hy => absurd hy (hnot y)) (fun w hw x _ hclose => ⟨?_, hnot x⟩) (fun hw => ?_)
      (fun hnone => by simp [htype] at hnone) (fun t _ ht => .inr (hmarked t ht)) id .inl h.addr
    · obtain ⟨-, rfl⟩ := Offers.mem_new hw
      have haddr :
          (seqMsgLessThan1kb mem (startMarginLessThan1kb s).seq).addrToMigrate = 0x9c400 := by
        rw [show (seqMsgLessThan1kb mem (startMarginLessThan1kb s).seq).addrToMigrate =
          (marginRange s.virtioRecvQueue s.seq.mType).1 from rfl, htype]
        rfl
      have hsame := sameUnit_of_closes hclose (by simp [seqMsgLessThan1kb, startMarginLessThan1kb])
        (by simp [seqMsgLessThan1kb, startMarginLessThan1kb]) haddr
      have hfirst : SameUnit 0x9c400 (areaAt marginList MarginType.margin00.index).startAddr := rfl
      show getBitarray s.bitarray x = true
      rw [getBitarray_unit s.bitarray (hsame.trans hfirst)]
      exact hmarked .margin00 (by decide)
    · obtain ⟨w, hw, hbuff⟩ := hw
      obtain ⟨-, rfl⟩ := Offers.mem_new hw
      simp [seqMsgLessThan1kb, startMarginLessThan1kb] at hbuff
  | ackCpu _ _ hsent =>
    exact h.of_same (List.append_nil _).symm (by simp) rfl (hc.cpu hsent).2.symm rfl rfl
      (fun _ => id) h.addr
  | @threadDone r _ _ hrun hdone =>
    refine h.next (offers_tcpWrite _ rfl).queue (fun _ => id) (fun _ => .inl)
      (fun w hw x hx _ => h.done hdone x hx) (fun hw => ?_) id (fun t ht _ => .inl ht) id .inl
      h.addr
    obtain ⟨w, hw, hbuff⟩ := hw
    obtain ⟨-, rfl⟩ := Offers.mem_new hw
    cases hbuff
  | threadDisrupted hturn hoff _ hdis hmark =>
    have hlow := lt_trans (hr.1.low (.inr hdis)) (show 2 ^ 36 < 2 ^ 64 by norm_num)
    refine h.next (List.append_nil _).symm (fun _ => id) (fun y hy => ?_) (by simp) (by simp) id
      (fun t ht _ => .inl ht) id .inl fun _ => rfl
    rcases hy with ⟨htrans, -⟩ | ⟨-, hsame⟩
    · exact absurd (hoff.symm.trans htrans) (by simp)
    · right
      rw [getBitarray_unit s.bitarray (hsame.trans (unitOf_requestMask hlow))]
      exact hmark
  | @threadUnit _ _ a next hturn hoff hdis hstart ha =>
    have hs := getStartAddr_spec hl.1.walk hstart
    obtain ⟨hu, hclear, hnext⟩ := hs.unit ha
    have hlt : a < 2 ^ 53 := lt_trans hu.lt (by norm_num)
    have hnone := hr.1.none_of_noRequest hturn.noRequest
    refine h.next (List.append_nil _).symm (fun _ => getBitarray_set_mono _) (fun y hy => ?_)
      (by simp) (by simp) id (fun t ht _ => .inl ht) (fun hwalk => ?_) .inl h.addr
    · rcases hy with ⟨-, hsame⟩ | ⟨hne, -⟩
      · right
        rw [getBitarray_unit s.bitarray hsame]
        exact hclear
      · exact absurd hnone hne
    · have hpassed : MarkedBetween (setBitarray s.bitarray a) s.seq.nextStart a :=
        hs.passed.mono fun u hu => getBitarray_set_mono _ hu
      show MarkedBetween (setBitarray s.bitarray a) 0 next
      rw [hnext]
      exact (hwalk.trans hpassed).trans (markedBetween_next hu (marked_set hlt rfl))
  | @threadFinish _ _ next hturn hoff hstart =>
    have hs := getStartAddr_spec hl.1.walk hstart
    have hnone := hr.1.none_of_noRequest hturn.noRequest
    have hall : ∀ x, Usable x → Settled s x := fun x => h.all_settled
      (hc.created (by simp [hturn.running])) hs.passed (not_inProgress hoff hnone)
    have hnot : ∀ y, ¬ InProgress (setMigrationDone (noUnitLeft s)) y := not_inProgress rfl hnone
    exact h.next (List.append_nil _).symm (fun _ => id) (fun y hy => absurd hy (hnot y)) (by simp)
      (by simp) id (fun t ht _ => .inl ht) (fun hwalk => hwalk.trans hs.passed)
      (fun _ => .inr fun x hx => ⟨(hall x hx).1, hnot x⟩) h.addr
  | @threadFinishSent r _ _ next hturn hoff hstart =>
    have hs := getStartAddr_spec hl.1.walk hstart
    have hnone := hr.1.none_of_noRequest hturn.noRequest
    have hall : ∀ x, Usable x → Settled s x := fun x => h.all_settled
      (hc.created (by simp [hturn.running])) hs.passed (not_inProgress hoff hnone)
    have hnot : ∀ y, ¬ InProgress (setMigrationDone (migrationDoneMsg r (noUnitLeft s))) y :=
      not_inProgress rfl hnone
    refine h.next (offers_tcpWrite (s := s) _ rfl).queue (fun _ => id)
      (fun y hy => absurd hy (hnot y)) (fun w hw x hx _ => ⟨(hall x hx).1, hnot x⟩) (fun hw => ?_)
      id (fun t ht _ => .inl ht) (fun hwalk => hwalk.trans hs.passed)
      (fun _ => .inr fun x hx => ⟨(hall x hx).1, hnot x⟩) h.addr
    obtain ⟨w, hw, hbuff⟩ := hw
    obtain ⟨-, rfl⟩ := Offers.mem_new hw
    cases hbuff
  | requestMarked =>
    obtain ⟨hnone, -, -⟩ := owed_eq_nil_iff.mp ht.2
    exact h.of_same (List.append_nil _).symm (by simp) rfl rfl rfl rfl (fun _ => id)
      fun hne => absurd hnone hne
  | requestDeferred =>
    obtain ⟨hnone, -, -⟩ := owed_eq_nil_iff.mp ht.2
    exact h.of_same (List.append_nil _).symm (by simp) rfl rfl rfl rfl (fun _ => id)
      fun hne => absurd hnone hne
  | @requestReply addr _ _ haddr hmark htrans =>
    have hoff : s.seq.isTransmitting = false := hc.mirror ▸ htrans
    refine h.next (List.append_nil _).symm (fun _ => id) (fun y hy => ?_) (by simp) (by simp) id
      (fun t ht _ => .inl ht) id .inl fun _ => rfl
    rcases hy with ⟨htrans, -⟩ | ⟨-, hsame⟩
    · exact absurd (hoff.symm.trans htrans) (by simp)
    · right
      have hunit := hsame.trans (unitOf_requestMask (vtMigrationRange_lt_word haddr))
      rw [getBitarray_unit s.bitarray hunit]
      exact hmark
  | _ => exact h.of_same (List.append_nil _).symm (by simp) rfl rfl rfl rfl (fun _ => id) h.addr

/-! ### The queue -/

/-- What is sent for a unit that is in progress was not closed before. -/
theorem Once.fresh {s : Client} (h : Once s) {q : Queued}
    (hprog : s.seq.mType = .noMargin → ∀ x, Names q x → InProgress s x) : Fresh s.tcp.queue q :=
  fun hbuff x hx hname w hw hclose =>
    (h.closed w hw x hx hclose).2 (hprog (h.buff hbuff) x hname)

/-- A block of an aligned unit lies in the unit. -/
theorem sameUnit_of_names {q : Queued} {x a : Nat} (h : Names q x) (haddr : q.msg.addrToMigrate = a)
    (ha : a % addrOffset = 0) (hbatch : q.msg.batchNum < batchSize) : SameUnit x a := by
  obtain ⟨-, h1, h2⟩ := h
  have hlen := q.msg.dataLen_le
  simp only [BfMsg.target, sizeSendbufData, batchSize, addrOffset, haddr, SameUnit] at *
  omega

theorem keeps_fresh (mem : GuestMem) :
    Keeps mem (fun p s => ((coverBaseAt mem p s ∧ turnAt p s) ∧ Once s) ∧ AtEach Fresh s.tcp.queue)
      fun _ s => AtEach Fresh s.tcp.queue := by
  rintro p s p' s' hp ⟨⟨⟨⟨⟨⟨⟨⟨hc, hl⟩, hrange⟩, hr⟩, hcont⟩, hprotos⟩, ht⟩, hone⟩, h⟩
  -- what `send_margin` sends after the margins is a block of the unit that is being sent
  have hunit : ∀ {q : Queued}, q.msg.addrToMigrate = s.seq.seqMsg.addrToMigrate →
      q.msg.batchNum = s.seq.batch → s.seq.Active → s.seq.Busy → SeqLabels s.seq →
        Fresh s.tcp.queue q := fun {q} haddr hnum hact hbusy hlabels => by
    refine hone.fresh fun htype x hname => ?_
    have hin := Control.inUnit_of_active hact htype
    refine .inl ⟨hin.transmitting, sameUnit_of_names hname (haddr.trans hlabels.addr)
      (hrange.unit hin.transmitting).1 ?_⟩
    rw [hnum, hbusy.1, ← hin.size]
    exact hbusy.2
  cases hp with
  | @replyMore f =>
    refine AtEach.offers (offers_tcpWrite _ rfl) h (hone.fresh fun _ x hname => .inr ?_)
    exact ⟨by simp [hr.2], sameUnit_of_names hname rfl hl.2.aligned (hl.2.batch f)⟩
  | @replyLast f =>
    refine AtEach.offers (offers_tcpWrite _ rfl) h (hone.fresh fun _ x hname => .inr ?_)
    exact ⟨by simp [hr.2], sameUnit_of_names hname rfl hl.2.aligned (hl.2.batch f)⟩
  | marginMore => exact AtEach.offers (offers_tcpWrite _ rfl) h (hunit rfl rfl hc.2 hcont.2 hl.1)
  | marginMoreFailed =>
    exact AtEach.offers (offers_tcpWrite _ rfl) h (hunit rfl rfl hc.2 hcont.2 hl.1)
  | marginBatchEnd =>
    exact AtEach.offers (offers_tcpWrite _ rfl) h (hunit rfl rfl hc.2 hcont.2 hl.1)
  | marginBuffEnd => exact AtEach.offers (offers_tcpWrite _ rfl) h (hunit rfl rfl hc.2 hcont.2 hl.1)
  | unitEnd => exact AtEach.offers (offers_tcpWrite _ rfl) h (hunit rfl rfl hc.2 hcont.2 hl.1)
  | readyLessSent htype =>
    refine AtEach.offers (s := s) (offers_tcpWrite _ rfl) h (hone.fresh fun hnone => ?_)
    rw [htype] at hnone
    cases hnone
  | threadDone =>
    refine AtEach.offers (offers_tcpWrite _ rfl) h (hone.fresh fun _ x hname => ?_)
    exact absurd rfl (BfMsg.IsMem.ne_migDone hname.1)
  | threadFinishSent =>
    refine AtEach.offers (s := s) (offers_tcpWrite _ rfl) h (hone.fresh fun _ x hname => ?_)
    exact absurd rfl (BfMsg.IsMem.ne_migDone hname.1)
  | _ => exact h

theorem once_start (mem : GuestMem) (q : Nat) (r : TcpAnswer) : Once (Client.start mem q r) where
  closed w hw x _ hclose := by
    have hmsg : w.msg = cpuMsg mem := by
      cases hr : r.wrote <;> simp [Client.start, TcpPcb.tcpWrite, hr] at hw
      rw [hw]
    rw [hmsg] at hclose
    exact absurd hclose (not_closes (by simp [BfMsg.Ends, cpuMsg]) (by simp [cpuMsg]) x)
  margins t ht := absurd ht (Nat.not_lt_zero _)
  buff hw := by
    obtain ⟨w, hw, hproto⟩ := hw
    cases hr : r.wrote <;> simp [Client.start, TcpPcb.tcpWrite, hr] at hw
    rw [hw] at hproto
    cases hproto
  walk _ _ _ h := absurd h (Nat.not_lt_zero _)
  done h := by cases h
  addr h := absurd rfl h

theorem fresh_start (mem : GuestMem) (q : Nat) (r : TcpAnswer) :
    AtEach Fresh (Client.start mem q r).tcp.queue := by
  have hnil : AtEach Fresh [] := AtEach.nil _
  cases hr : r.wrote with
  | false => simpa [Client.start, TcpPcb.tcpWrite, hr] using hnil
  | true =>
    have hcpu : Fresh [] ⟨.echoClientSend, cpuMsg mem⟩ := by
      rintro ⟨b, hb, -⟩
      cases hb
    simpa [Client.start, TcpPcb.tcpWrite, hr] using hnil.append hcpu

end OnDemandVirt.Migration
