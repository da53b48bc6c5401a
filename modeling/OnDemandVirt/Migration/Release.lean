import OnDemandVirt.Migration.Arrival
import OnDemandVirt.Migration.Background

/-!
# What the guest reads

Once the memory around the virtio ring has arrived the processors go on, and a page of
`usable_mem_list` is mapped when the bit of its unit is set or the migration is over. By then its
bytes are there (`TwoParty.Ordered.hasUnit_of_bit`), all but those of the second message of the
connection, which `echo_recv` drops, and no later message writes to it (`step_spares_mapped`). A
state between two units leads to the end of the migration (`finishes`).
-/

namespace OnDemandVirt.Migration

open Lib

namespace TwoParty

variable {mem before : GuestMem} {s s' : TwoParty}

/-- The byte is the client's, or the second message of the connection carries it. -/
def Right (mem : GuestMem) (s : TwoParty) (x : Nat) : Prop :=
  s.server.mem x = mem x ∨ ∃ q, s.client.tcp.queue[1]? = some q ∧ Names q x

/-- The server has all usable bytes of the unit, but for the second message. -/
def HasUnit (mem : GuestMem) (s : TwoParty) (u : Nat) : Prop :=
  ∀ x, SameUnit x u → Usable x → s.Right mem x

end TwoParty

/-- The pages that hold usable bytes are migrated on request. -/
theorem vtMigrationRange_of_usable {x g : Nat} (hx : Usable x) (hpage : x / 0x1000 = g / 0x1000) :
    vtMigrationRange g = true := by
  obtain ⟨a, ha, hlo, hhi⟩ := hx
  rw [vtMigrationRange_iff]
  simp only [usableMemList, List.mem_cons, List.not_mem_nil, or_false] at ha
  rcases ha with rfl | rfl | rfl | rfl | rfl | rfl | rfl <;> simp only at hlo hhi <;> omega

theorem sameUnit_of_page {x g : Nat} (h : x / 0x1000 = g / 0x1000) : SameUnit x g := by
  simp only [SameUnit, addrOffset]
  omega

namespace TwoParty.Ordered

variable {mem before : GuestMem} {s : TwoParty} {x : Nat}

/-- The bytes of a message that has arrived. -/
theorem right_of_names (h : s.Ordered mem before) {P : BfMsg → Prop} (hany : s.server.Acted P)
    {q : Queued} (hq : q ∈ s.client.tcp.queue.take s.got) (hname : Names q x) : s.Right mem x := by
  rcases h.arrived.acted_or_second hany hq with hacted | hsecond
  · exact .inl (h.flow.server.written x ⟨_, hacted, .inr hname⟩)
  · exact .inr ⟨q, hsecond, hname⟩

/-- Once the memory around the virtio ring has arrived, so have the margins. -/
theorem right_of_margin (h : s.Ordered mem before) (hlost : NothingLost s.client)
    (hbuff : s.server.Acted fun m => m.protoId = .buffMem) (hu : Usable x) (hm : InMargins x) :
    s.Right mem x := by
  obtain ⟨q, hq, hproto⟩ := h.arrived.of_acted hbuff
  obtain ⟨pre, hat, hpre⟩ := (h.order hlost).of_mem_take hq
  obtain ⟨t, ht, hold⟩ := hm
  obtain ⟨w, hw, hname⟩ := hat.margins hproto t ht x hold hu
  exact h.right_of_names hbuff (hpre w (List.mem_append_left _ hw)) hname

/-- The units whose bits are set. -/
theorem hasUnit_of_bit (h : s.Ordered mem before) (hlost : NothingLost s.client)
    (hbuff : s.server.Acted fun m => m.protoId = .buffMem) {u : Nat}
    (hbit : getBitarray s.server.bitarray u = true) : s.HasUnit mem u := by
  intro x hsame hx
  obtain ⟨q, hq, hends, hunit | ⟨-, hunit⟩⟩ := h.arrived.of_acted (h.flow.server.bits u hbit)
  · obtain ⟨pre, hat, hpre⟩ := (h.order hlost).of_mem_take hq
    rcases hat.unit hends x (hsame.trans hunit) hx with ⟨w, hw, hname⟩ | hm
    · exact h.right_of_names hbuff (hpre w hw) hname
    · exact h.right_of_margin hlost hbuff hx hm
  · refine h.right_of_margin hlost hbuff hx ?_
    rcases hunit with hunit | hunit
    · -- the unit of 0x86b35000 lies before the usable memory around it
      have hnone := hsame.trans hunit
      obtain ⟨a, ha, hlo, hhi⟩ := hx
      simp only [usableMemList, List.mem_cons, List.not_mem_nil, or_false] at ha
      rcases ha with rfl | rfl | rfl | rfl | rfl | rfl | rfl <;>
        simp only [addrOffset] at * <;> omega
    · exact inMargins_of_unit 0 (t := .margin05) (by decide) (by decide)
        (hsame.trans hunit) hx

/-- When the migration is over, everything is there. -/
theorem right_of_done (h : s.Ordered mem before) (hlost : NothingLost s.client)
    (hdone : s.server.Acted fun m => m.protoId = .migDone) (hx : Usable x) : s.Right mem x := by
  obtain ⟨q, hq, hproto⟩ := h.arrived.of_acted hdone
  obtain ⟨pre, hcomplete, hpre⟩ := AtEach.of_mem_take (h.coverage hlost).order hq
  obtain ⟨w, hw, hname⟩ := hcomplete hproto x hx
  exact h.right_of_names hdone (hpre w (List.mem_append_left _ hw)) hname

end TwoParty.Ordered

/-! ### Runs -/

section
variable {mem before : GuestMem} {s s' : TwoParty}

/-- A page is mapped only after the processors have gone on. -/
theorem running_of_mapped {C : TwoParty → TwoPartyEvent → Prop}
    (hs : (twoPartyMachine mem before).ReachableWhen C s) :
    s.server.mapped ≠ [] → s.server.vcpu ≠ .stopped := by
  refine hs.invariant (I := fun s => s.server.mapped ≠ [] → s.server.vcpu ≠ .stopped)
    (fun s h hm => ?_) fun s e s' h _ hstep hm => ?_
  · obtain ⟨c, -, rfl⟩ := h
    exact absurd rfl hm
  · cases TwoParty.moves hstep with
    | client => exact h hm
    | @recv more =>
      generalize ((s.client.tcp.queue.drop s.got).take (more + 1)).map Queued.msg = chain at hm ⊢
      rcases Server.echoRecv_cases chain s.server with ⟨-, he⟩ | ⟨-, ⟨-, he⟩ | ⟨m, rest, -, he⟩⟩
      · simp only [he] at hm ⊢
        exact h hm
      · simp only [he] at hm ⊢
        exact h hm
      · obtain ⟨hvcpu, hmapped, -, -⟩ := Server.act_frame (s := s.server) (m := m)
        simp only [he, hvcpu, hmapped] at hm ⊢
        exact h hm
    | poll => exact h hm
    | resume => simp [Server.resume]
    | fault hrunning =>
      unfold Server.eptViolation
      split
      · simp
      · simp [hrunning]
    | map => simp [Server.mapPage]

/-! ### Pages are not written again -/

theorem BfMsg.SetsBit.congr {m : BfMsg} {x y : Nat} (h : m.SetsBit y) (hsame : SameUnit x y) :
    m.SetsBit x := by
  obtain ⟨hends, hunit | ⟨hbuff, hunit | hunit⟩⟩ := h
  · exact ⟨hends, .inl (hsame.trans hunit)⟩
  · exact ⟨hends, .inr ⟨hbuff, .inl (hsame.trans hunit)⟩⟩
  · exact ⟨hends, .inr ⟨hbuff, .inr (hsame.trans hunit)⟩⟩

/-- The messages that write usable bytes carry memory. -/
theorem names_of_writes {q : Queued} {x : Nat} (hx : Usable x) (h : q.msg.Writes x) :
    Names q x := by
  rcases h with ⟨-, hlo, hhi⟩ | h
  · obtain ⟨a, ha, hlo', hhi'⟩ := hx
    simp only [usableMemList, List.mem_cons, List.not_mem_nil, or_false] at ha
    simp only [cpuStateAddr, sizeSendbufData] at hlo hhi
    rcases ha with rfl | rfl | rfl | rfl | rfl | rfl | rfl <;> simp only at hlo' hhi' <;> omega
  · exact h

/-- Where messages were acted on before, nothing is kept. -/
theorem TwoParty.Arrived.nothing_kept (h : s.Arrived) (hacted : s.server.acted ≠ []) :
    s.server.p = [] ∧ s.server.state = .received := by
  rw [h.acted] at hacted
  refine ⟨?_, ?_⟩
  · rw [h.kept]
    generalize s.arrived = ms at hacted
    rcases ms with _ | ⟨a, _ | ⟨b, t⟩⟩
    · rfl
    · exact absurd rfl hacted
    · rfl
  · by_contra hstate
    have hnil : s.arrived = [] := h.state.mp (by cases hst : s.server.state <;> simp_all)
    rw [hnil] at hacted
    exact hacted rfl

/-- The next message, where messages were acted on before. -/
theorem TwoParty.Arrived.echoRecv_one (h : s.Arrived) (hacted : s.server.acted ≠ []) (m : BfMsg) :
    s.server.echoRecv [m] = { Server.act m s.server with p := [] } := by
  obtain ⟨hkept, hstate⟩ := h.nothing_kept hacted
  rw [Server.echoRecv, hstate, hkept]
  rfl

/-- A step after a page was mapped: what is acted on does not write to the page. -/
theorem step_spares_mapped (hs : (twoPartyMachine mem before).ReachableWhen TwoParty.Orderly s)
    {e : TwoPartyEvent} (hC : s.Orderly e) (hstep : s.step mem e = some s') {g x : Nat}
    (hg : g ∈ s.server.mapped) (hpage : x / 0x1000 = g / 0x1000) (hx : Usable x) :
    g ∈ s'.server.mapped ∧ ∃ l, s'.server.acted = s.server.acted ++ l ∧ ∀ m ∈ l, ¬ m.Writes x := by
  have h := ordered_of_reachable hs
  have hsame : ∀ {t : Server}, t.acted = s.server.acted → ∃ l, t.acted = s.server.acted ++ l ∧
      ∀ m ∈ l, ¬ m.Writes x := fun ht => ⟨[], by simpa using ht, by simp⟩
  cases TwoParty.moves hstep with
  | client => exact ⟨hg, hsame rfl⟩
  | recv hlt =>
    cases hC
    have hlt : s.got < s.client.tcp.queue.length := hlt
    have hbuff := h.flow.server.started (.inr (running_of_mapped hs (List.ne_nil_of_mem hg)))
    have hacted : s.server.acted ≠ [] := by
      obtain ⟨m, hm, -⟩ := hbuff
      exact List.ne_nil_of_mem hm
    have hsplit := List.take_append_drop s.got s.client.tcp.queue
    rw [List.drop_eq_getElem_cons hlt] at hsplit
    rw [List.drop_eq_getElem_cons hlt, Nat.zero_add, List.take_succ_cons, List.take_zero,
      List.map_singleton, h.arrived.echoRecv_one hacted]
    refine ⟨?_, _, rfl, fun m hm hwrites => ?_⟩
    · rw [show ∀ t : Server, ({ t with p := [] } : Server).mapped = t.mapped from fun _ => rfl,
        Server.act_frame.2.1]
      exact hg
    · rw [List.mem_singleton.mp hm] at hwrites
      have hfresh := h.fresh _ _ _ hsplit.symm (h.arrived.of_acted hbuff) x hx
        (names_of_writes hx hwrites)
      rcases h.flow.server.mapped g hg (vtMigrationRange_of_usable hx hpage) with hbit | hdone
      · obtain ⟨w, hw, hset⟩ := h.arrived.of_acted (h.flow.server.bits g hbit)
        exact hfresh w hw (.inl (hset.congr (sameUnit_of_page hpage)))
      · obtain ⟨w, hw, hd⟩ := h.arrived.of_acted hdone
        exact hfresh w hw (.inr hd)
  | poll => exact ⟨hg, hsame rfl⟩
  | resume => exact ⟨hg, hsame rfl⟩
  | @fault gphys _ =>
    unfold Server.eptViolation
    split
    · exact ⟨hg, hsame rfl⟩
    · exact ⟨List.mem_append_left _ hg, hsame rfl⟩
  | map => exact ⟨List.mem_append_left _ hg, hsame rfl⟩

/-! ### The end can be reached -/

/-- Runs that go on from a state. -/
theorem reachableWhen_trans {C : TwoParty → TwoPartyEvent → Prop}
    (hs : (twoPartyMachine mem before).ReachableWhen C s)
    (hs' : ((twoPartyMachine mem before).startingAt s).ReachableWhen C s') :
    (twoPartyMachine mem before).ReachableWhen C s' := by
  induction hs' with
  | init h0 =>
    cases h0
    exact hs
  | step _ hc hstep ih => exact .step ih hc hstep

variable (mem before) in
/-- `s'` is reached from `s` by an orderly run. -/
def Continues (s s' : TwoParty) : Prop :=
  ((twoPartyMachine mem before).startingAt s).ReachableWhen TwoParty.Orderly s'

/-- Where a message was acted on before, the next one that arrives is acted on. -/
theorem recv_one {s₀ : TwoParty} (hs : Continues mem before s₀ s) (h : s.Ordered mem before)
    (hacted : s.server.acted ≠ []) {q : Queued} (hq : s.client.tcp.queue[s.got]? = some q) :
    ∃ s', Continues mem before s₀ s' ∧ s'.client = s.client ∧ s'.got = s.got + 1 ∧
      s'.server = { Server.act q.msg s.server with p := [] } := by
  obtain ⟨hlt, hget⟩ := List.getElem?_eq_some_iff.mp hq
  have hchain : ((s.client.tcp.queue.drop s.got).take (0 + 1)).map Queued.msg = [q.msg] := by
    rw [List.drop_eq_getElem_cons hlt, hget]
    rfl
  have hC : s.Orderly (.recv 0) := rfl
  refine ⟨_, .step hs hC (if_pos hlt), rfl, rfl, ?_⟩
  simp only [hchain]
  exact h.arrived.echoRecv_one hacted q.msg

theorem Continues.ordered {s₀ : TwoParty}
    (h₀ : (twoPartyMachine mem before).ReachableWhen TwoParty.Orderly s₀)
    (hs : Continues mem before s₀ s) : s.Ordered mem before :=
  ordered_of_reachable (reachableWhen_trans h₀ hs)

/-- Messages arrive until there are `n` of them. -/
theorem recv_until {s₀ : TwoParty}
    (h₀ : (twoPartyMachine mem before).ReachableWhen TwoParty.Orderly s₀)
    (hs : Continues mem before s₀ s) (hacted : s.server.acted ≠ []) {n : Nat} (hle : s.got ≤ n)
    (hn : n ≤ s.client.tcp.queue.length) :
    ∃ s', Continues mem before s₀ s' ∧ s'.client = s.client ∧ s'.got = n ∧
      s'.server.acted ≠ [] ∧ s'.server.vcpu = s.server.vcpu := by
  induction n, hle using Nat.le_induction with
  | base => exact ⟨s, hs, rfl, rfl, hacted, rfl⟩
  | succ n hle ih =>
    obtain ⟨t, ht, hclient, hgot, hacted', hvcpu⟩ := ih (Nat.le_of_succ_le hn)
    have hlt : t.got < t.client.tcp.queue.length := by rw [hgot, hclient]; exact hn
    obtain ⟨s', hs', hclient', hgot', hserver⟩ := recv_one ht (ht.ordered h₀) hacted'
      (List.getElem?_eq_getElem hlt)
    refine ⟨s', hs', hclient'.trans hclient, by rw [hgot', hgot], ?_, ?_⟩
    · rw [hserver]
      exact List.append_ne_nil_of_right_ne_nil _ (List.cons_ne_nil _ _)
    · rw [hserver, ← hvcpu]
      exact Server.act_frame.1

/-- The thread sends the units that are left and the message that ends the migration. -/
theorem passes_until {s₀ : TwoParty}
    (h₀ : (twoPartyMachine mem before).ReachableWhen TwoParty.Orderly s₀)
    (hs : Continues mem before s₀ s) (hb : BetweenUnits s.client) :
    ∃ s' pre q, Continues mem before s₀ s' ∧ s'.server = s.server ∧ s'.got = s.got ∧
      s'.client.tcp.refused = s.client.tcp.refused ∧ s'.client.tcp.queue = pre ++ [q] ∧
      s.client.tcp.queue.length ≤ pre.length ∧ q.msg.protoId = .migDone := by
  induction hn : endOfMemory - s.client.seq.nextStart using Nat.strong_induction_on
    generalizing s with
  | _ n ih =>
    have hbase : baseAt .idle s.client := (hs.ordered h₀).flow.client.1.1.1.1.1.1
    obtain ⟨c, hstep, hbase', hrefused, hpassed⟩ := goodPass_step mem hbase hb
    replace hstep : s.client.step mem goodPass = some c := hstep
    have hC : s.Orderly (.client goodPass) := not_retriesRefused_goodPass hb
    have hs₁ : Continues mem before s₀ { s with client := c } := by
      refine .step hs hC ?_
      show TwoParty.step mem s (.client goodPass) = _
      rw [TwoParty.step, hstep]
      rfl
    rcases hpassed with ⟨hb', hlt, -⟩ | ⟨q, hq, hdone⟩
    · have hle : c.seq.nextStart ≤ endOfMemory := by
        rcases hbase'.1.2.1.walk with he | hu
        · exact he.le
        · exact (lt_trans hu.lt (by decide)).le
      obtain ⟨s', pre, q, hs', hserver, hgot, hr, heq, hlen, hdone⟩ :=
        ih _ (by simp only; omega) hs₁ hb' rfl
      have hprefix := (keeps_queue mem s.client.tcp.queue).step (List.prefix_refl _) hstep
      exact ⟨s', pre, q, hs', hserver, hgot, hr.trans hrefused, heq, hprefix.length_le.trans hlen,
        hdone⟩
    · exact ⟨_, s.client.tcp.queue, q, hs₁, rfl, rfl, hrefused, hq, le_rfl, hdone⟩

/-- From a state in which the guest runs and the client is between two units, the units that are
left are sent and arrive, and the message that ends the migration after them. -/
theorem finishes (hs : (twoPartyMachine mem before).ReachableWhen TwoParty.Orderly s)
    (hlost : NothingLost s.client) (hrunning : s.server.vcpu ≠ .stopped)
    (hb : BetweenUnits s.client) :
    ∃ s', Continues mem before s s' ∧ NothingLost s'.client ∧ ¬ s'.server.Live := by
  have h := ordered_of_reachable hs
  have hacted : s.server.acted ≠ [] := by
    obtain ⟨m, hm, -⟩ := h.flow.server.started (.inr hrunning)
    exact List.ne_nil_of_mem hm
  obtain ⟨s₁, pre, q, hs₁, hserver, hgot, hrefused, hqueue, hlen, hdone⟩ :=
    passes_until hs (.init rfl) hb
  have hlen₁ : s₁.client.tcp.queue.length = pre.length + 1 := by simp [hqueue]
  obtain ⟨s₂, hs₂, hclient, hgot₂, hacted₂, hvcpu⟩ := recv_until hs hs₁ (by rwa [hserver])
    (n := pre.length) (by rw [hgot]; exact h.flow.got.trans hlen) (by omega)
  obtain ⟨s₃, hs₃, hclient₃, -, hserver₃⟩ := recv_one hs₂ (hs₂.ordered hs) hacted₂ (q := q)
    (by rw [hclient, hgot₂, hqueue]; simp)
  refine ⟨s₃, hs₃, ?_, ?_⟩
  · rw [hclient₃, hclient, NothingLost, hrefused]
    exact hlost
  · rw [hserver₃, Server.Live]
    simp only [Server.act_flags.2, hdone, Server.act_frame.1, hvcpu, hserver]
    simp [hrunning]

end

end OnDemandVirt.Migration
