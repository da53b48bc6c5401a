import OnDemandVirt.Migration.Carries

/-!
# Client and server

The client and the server with what is on its way between them: the messages that the client has
queued and the server has not received yet, and the requests. Both directions are in order and
without loss, and what the client sends is cut into chains between messages. The client's memory
does not change, because its guest no longer runs.

Besides the two sides, the invariant (`TwoParty.Flow`) is about the requests: at most one is under
way, as a request, as something that the client owes or as an answer.
-/

namespace OnDemandVirt.Migration

open Lib

/-! ### The machine -/

/-- Both sides, the number of queued messages that have arrived at the server, and the requests that
have not arrived at the client. -/
structure TwoParty where
  client : Client
  server : Server
  got : Nat
  requests : List Nat

/-- What can happen. -/
inductive TwoPartyEvent
  /-- A step of the client; a request is the oldest one on its way. -/
  | client (e : ClientEvent)
  /-- A chain of `more + 1` messages arrives at the server. -/
  | recv (more : Nat)
  /-- `echo_poll` sends `n` messages that were kept back to the client. It looks only at `REQ_MEM`
  messages, and while messages are kept there are none. -/
  | poll (n : Nat)
  /-- The processors leave `postcopy_migration_ready_vmmcall`. -/
  | resume
  /-- A fault, and whether the `tcp_write` of its request succeeds. -/
  | fault (gphys : Nat) (wrote : Bool)
  /-- The loop of `vt_ept_violation` ends. -/
  | map

/-- The address that the client's step takes from the requests. -/
def ClientEvent.requested : ClientEvent → List Nat
  | .request addr _ => [addr]
  | _ => []

section
variable (mem before : GuestMem)

/-- What an event does. -/
def TwoParty.step (s : TwoParty) : TwoPartyEvent → Option TwoParty
  | .client e =>
    if e.requested.isPrefixOf s.requests then
      (s.client.step mem e).map fun c =>
        { s with client := c, requests := s.requests.drop e.requested.length }
    else none
  | .recv more =>
    if s.got + more < s.client.tcp.queue.length then
      let chain := ((s.client.tcp.queue.drop s.got).take (more + 1)).map Queued.msg
      some { s with server := s.server.echoRecv chain, got := s.got + (more + 1) }
    else none
  | .poll n => if n ≤ s.server.p.length then some { s with server := s.server.poll n } else none
  | .resume =>
    if s.server.vcpu = .stopped ∧ s.server.stopValue = false then
      some { s with server := s.server.resume }
    else none
  | .fault gphys wrote =>
    if s.server.vcpu = .running then
      some { s with
        server := s.server.eptViolation gphys
        requests := s.requests ++ (if wrote && s.server.requests gphys then [gphys] else []) }
    else none
  | .map =>
    match s.server.vcpu with
    | .waiting gphys =>
      if s.server.eptRecved || !s.server.aftMig then
        some { s with server := s.server.mapPage gphys }
      else none
    | _ => none

/-- A client that holds `mem` and a server that holds `before`. -/
def twoPartyMachine : Machine TwoParty TwoPartyEvent where
  init s := ∃ c, (clientMachine mem).init c ∧ s = ⟨c, Server.start before, 0, []⟩
  step s e := s.step mem e

end

/-- What a step does, with what it needs. -/
inductive TwoParty.Moves (mem : GuestMem) (s : TwoParty) : TwoPartyEvent → TwoParty → Prop
  | client {e : ClientEvent} {c : Client} {rest : List Nat}
      (hrequests : s.requests = e.requested ++ rest) (hstep : s.client.step mem e = some c) :
      s.Moves mem (.client e) { s with client := c, requests := rest }
  | recv {more : Nat} (hlt : s.got + more < s.client.tcp.queue.length) :
      s.Moves mem (.recv more) { s with
        server := s.server.echoRecv
          (((s.client.tcp.queue.drop s.got).take (more + 1)).map Queued.msg)
        got := s.got + (more + 1) }
  | poll {n : Nat} (hle : n ≤ s.server.p.length) :
      s.Moves mem (.poll n) { s with server := s.server.poll n }
  | resume (hstopped : s.server.vcpu = .stopped) (hvalue : s.server.stopValue = false) :
      s.Moves mem .resume { s with server := s.server.resume }
  | fault {gphys : Nat} {wrote : Bool} (hrunning : s.server.vcpu = .running) :
      s.Moves mem (.fault gphys wrote) { s with
        server := s.server.eptViolation gphys
        requests := s.requests ++ (if wrote && s.server.requests gphys then [gphys] else []) }
  | map {gphys : Nat} (hwaiting : s.server.vcpu = .waiting gphys)
      (hends : s.server.aftMig = true → s.server.eptRecved = true) :
      s.Moves mem .map { s with server := s.server.mapPage gphys }

theorem TwoParty.moves {mem : GuestMem} {s s' : TwoParty} {e : TwoPartyEvent}
    (hstep : s.step mem e = some s') : s.Moves mem e s' := by
  cases e with
  | client e =>
    rw [TwoParty.step] at hstep
    split_ifs at hstep with hprefix
    obtain ⟨rest, hrest⟩ := List.isPrefixOf_iff_prefix.mp hprefix
    obtain ⟨c, hc, rfl⟩ := Option.map_eq_some_iff.mp hstep
    rw [← hrest, List.drop_left]
    exact .client hrest.symm hc
  | recv more =>
    rw [TwoParty.step] at hstep
    split_ifs at hstep with hlt
    cases hstep
    exact .recv hlt
  | poll n =>
    rw [TwoParty.step] at hstep
    split_ifs at hstep with hle
    cases hstep
    exact .poll hle
  | resume =>
    rw [TwoParty.step] at hstep
    split_ifs at hstep with hguard
    cases hstep
    exact .resume hguard.1 hguard.2
  | fault gphys wrote =>
    rw [TwoParty.step] at hstep
    by_cases hrunning : s.server.vcpu = .running
    · rw [if_pos hrunning] at hstep
      cases hstep
      exact .fault hrunning
    · rw [if_neg hrunning] at hstep
      cases hstep
  | map =>
    rw [TwoParty.step] at hstep
    cases hv : s.server.vcpu with
    | stopped => simp [hv] at hstep
    | running => simp [hv] at hstep
    | waiting gphys =>
      simp only [hv] at hstep
      split_ifs at hstep with hguard
      cases hstep
      refine .map hv fun ha => ?_
      rwa [ha, Bool.not_true, Bool.or_false] at hguard

/-- The client retries a refused last message (`RetriesRefused`). -/
def TwoParty.Retries (s : TwoParty) : TwoPartyEvent → Prop
  | .client e => RetriesRefused s.client e
  | _ => False

/-- The unit that a processor waits for. -/
def Server.awaits (s : Server) : List Nat :=
  match s.vcpu with
  | .waiting gphys => if s.eptRecved then [] else [unitOf gphys]
  | _ => []

theorem Server.mem_awaits {s : Server} {u : Nat} (h : u ∈ s.awaits) :
    ∃ g, s.vcpu = .waiting g ∧ u = unitOf g := by
  unfold Server.awaits at h
  cases hv : s.vcpu with
  | waiting g =>
    simp only [hv] at h
    split_ifs at h
    · cases h
    · exact ⟨g, rfl, List.mem_singleton.mp h⟩
  | stopped => simp [hv] at h
  | running => simp [hv] at h

/-- The requests and the answers that are on their way or owed. -/
def TwoParty.tokens (s : TwoParty) : List Nat :=
  s.requests.map unitOf ++ (reqUnits s.server.p ++ underway s.got s.client)

/-- The migration goes on: the guest has not started here yet, or memory is still fetched. -/
def Server.Live (s : Server) : Prop := s.vcpu = .stopped ∨ s.aftMig = true

/-! ### Steps of the server -/

namespace Server

variable {s : Server} {m : BfMsg}

theorem act_frame : (act m s).vcpu = s.vcpu ∧ (act m s).mapped = s.mapped ∧
    (act m s).p = s.p ∧ (act m s).state = s.state := by
  obtain ⟨h1, h2, -, h4, h5⟩ := handle_frame m s
  exact ⟨h1, h2, h4, h5⟩

theorem act_flags : (act m s).eptRecved = (s.eptRecved || decide (m.protoId = .dataReqMem)) ∧
    (act m s).aftMig = (s.aftMig && decide (m.protoId ≠ .migDone)) :=
  ⟨(handle_flags m s).1, (handle_flags m s).2.1⟩

/-- A chain is kept, or its first message, after those that were kept, is acted on. -/
theorem echoRecv_cases (chain : List BfMsg) (s : Server) :
    (s.state = .accepted ∧ s.echoRecv chain = { s with state := .received, p := chain }) ∨
      (s.state = .received ∧ ((s.p ++ chain = [] ∧ s.echoRecv chain = s) ∨
        ∃ m rest, s.p ++ chain = m :: rest ∧ s.echoRecv chain = { act m s with p := [] })) := by
  unfold echoRecv
  cases s.state with
  | accepted => exact .inl ⟨rfl, rfl⟩
  | received =>
    refine .inr ⟨rfl, ?_⟩
    cases s.p ++ chain with
    | nil => exact .inl ⟨rfl, rfl⟩
    | cons m rest => exact .inr ⟨m, rest, rfl, rfl⟩

end Server

/-! ### What the server knows -/

/-- The message is acted on. -/
def Server.Acted (s : Server) (P : BfMsg → Prop) : Prop := ∃ m ∈ s.acted, P m

/-- The memory and the flags of the server come from the messages it acted on. -/
structure Server.Sound (mem before : GuestMem) (s : Server) : Prop where
  written : ∀ x, s.Acted (·.Writes x) → s.mem x = mem x
  others : ∀ x, ¬ s.Acted (·.Writes x) → s.mem x = before x
  bits : ∀ u, getBitarray s.bitarray u = true → s.Acted (·.SetsBit u)
  started : s.stopValue = false ∨ s.vcpu ≠ .stopped → s.Acted fun m => m.protoId = .buffMem
  done : ¬ s.Live → s.Acted fun m => m.protoId = .migDone
  mapped : ∀ g ∈ s.mapped, vtMigrationRange g = true →
    getBitarray s.bitarray g = true ∨ s.Acted fun m => m.protoId = .migDone

namespace Server

variable {mem before : GuestMem} {s : Server} {m : BfMsg}

theorem Acted.act {P : BfMsg → Prop} (h : s.Acted P) : (act m s).Acted P := by
  obtain ⟨x, hx, hP⟩ := h
  exact ⟨x, List.mem_append_left _ hx, hP⟩

theorem acted_act {P : BfMsg → Prop} : (act m s).Acted P ↔ s.Acted P ∨ P m := by
  simp [Acted, act, or_and_right, exists_or]

/-- A message that carries the client's bytes writes them. -/
theorem handle_mem_of_writes (hc : Carries mem m) (hf : Faithful mem m) {x : Nat}
    (hx : m.Writes x) : (handle m s).mem x = mem x := by
  rw [handle_mem]
  rcases hx with ⟨hcpu, hge, hlt⟩ | ⟨hmem, hge, hlt⟩
  · rw [if_pos hcpu, memcpyMem_of_mem hge (by omega) (by omega), hc.cpu hcpu,
      Nat.add_sub_cancel' hge]
  · have hlen := m.dataLen_le
    have hcpu : m.protoId ≠ .dataCpu := by
      rcases hmem with h | h | h | h <;> simp [h]
    rw [if_neg hcpu, if_pos hmem, recvPtr_eq (hc.addressed hmem),
      memcpyMem_of_mem hge (by omega) (by omega), hf hmem _ (by simp only; omega),
      Nat.add_sub_cancel' hge]

namespace Sound

theorem start : (Server.start before).Sound mem before where
  written x h := by obtain ⟨m, hm, -⟩ := h; cases hm
  others _ _ := rfl
  bits u h := by
    rw [show (Server.start before).bitarray = fun _ => 0 from rfl, getBitarray_zero] at h
    cases h
  started h := by rcases h with h | h <;> simp [Server.start] at h
  done h := absurd (.inl rfl) h
  mapped g h := by cases h

theorem act (h : s.Sound mem before) (hc : Carries mem m) (hf : Faithful mem m) :
    (act m s).Sound mem before := by
  obtain ⟨hvcpu, hmapped, -, -⟩ := act_frame (s := s) (m := m)
  refine ⟨fun x hx => ?_, fun x hx => ?_, fun u hu => ?_, fun hs => ?_, fun hl => ?_,
    fun g hg hrange => ?_⟩
  · rw [acted_act] at hx
    by_cases hw : m.Writes x
    · exact handle_mem_of_writes hc hf hw
    · exact (handle_mem_of_not_writes hc.addressed hw).trans (h.written x (hx.resolve_right hw))
  · rw [acted_act, not_or] at hx
    exact (handle_mem_of_not_writes hc.addressed hx.2).trans (h.others x hx.1)
  · rw [acted_act]
    exact (handle_bit (fun hends => hc.low hends.isMem) hu).imp_left (h.bits u)
  · rw [acted_act]
    rw [hvcpu, show (Server.act m s).stopValue = (handle m s).stopValue from rfl,
      (handle_flags m s).2.2] at hs
    by_cases hbuff : m.protoId = .buffMem
    · exact .inr hbuff
    · exact .inl (h.started (by simpa [hbuff] using hs))
  · rw [acted_act]
    rw [Live, hvcpu, act_flags.2] at hl
    by_cases hdone : m.protoId = .migDone
    · exact .inr hdone
    · exact .inl (h.done (by simpa [hdone, Live] using hl))
  · rw [hmapped] at hg
    exact (h.mapped g hg hrange).imp handle_bit_mono Acted.act

/-- A step without a message. -/
theorem of_same {s' : Server} (h : s.Sound mem before) (hmem : s'.mem = s.mem)
    (hbits : s'.bitarray = s.bitarray) (hacted : s'.acted = s.acted)
    (hstarted : s'.stopValue = false ∨ s'.vcpu ≠ .stopped → s.stopValue = false ∨ s.vcpu ≠ .stopped)
    (hlive : s.Live → s'.Live)
    (hmapped : ∀ g ∈ s'.mapped, vtMigrationRange g = true → g ∈ s.mapped ∨
      getBitarray s.bitarray g = true ∨ ¬ s.Live) : s'.Sound mem before := by
  have hsame : ∀ P, s.Acted P → s'.Acted P := fun P hP => by
    unfold Acted
    rwa [hacted]
  refine ⟨fun x hx => ?_, fun x hx => ?_, fun u hu => ?_,
    fun hs => hsame _ (h.started (hstarted hs)),
    fun hl => hsame _ (h.done (mt hlive hl)), fun g hg hrange => ?_⟩
  · rw [hmem]
    exact h.written x (by unfold Acted at hx ⊢; rwa [hacted] at hx)
  · rw [hmem]
    exact h.others x fun hP => hx (hsame _ hP)
  · rw [hbits] at hu
    exact hsame _ (h.bits u hu)
  · rw [hbits]
    rcases hmapped g hg hrange with hm | hm | hm
    · exact (h.mapped g hm hrange).imp_right (hsame _)
    · exact .inl hm
    · exact .inr (hsame _ (h.done hm))

theorem echoRecv (h : s.Sound mem before) (chain : List BfMsg)
    (hall : ∀ m ∈ s.p ++ chain, Carries mem m ∧ Faithful mem m) :
    (s.echoRecv chain).Sound mem before := by
  rcases echoRecv_cases chain s with ⟨-, he⟩ | ⟨-, ⟨-, he⟩ | ⟨m, rest, hm, he⟩⟩
  · rw [he]
    exact h.of_same rfl rfl rfl id id fun g hg _ => .inl hg
  · rw [he]
    exact h
  · rw [he]
    obtain ⟨hc, hf⟩ := hall m (by rw [hm]; exact List.mem_cons_self)
    exact (h.act hc hf).of_same rfl rfl rfl id id fun g hg _ => .inl hg

end Sound

end Server

/-! ### What is on its way -/

section
variable {mem before : GuestMem} {c c' : Client}

/-- No piece of a step takes a message back. -/
theorem keeps_queue (mem : GuestMem) (l : List Queued) :
    Keeps mem (fun _ s => l <+: s.tcp.queue) fun _ s => l <+: s.tcp.queue := by
  intro p s p' s' hp h
  rcases hp.offers with ⟨hqueue, -⟩ | ⟨r, x, ho, -⟩
  · rwa [hqueue]
  · rw [ho.queue]
    exact h.trans (List.prefix_append _ _)

/-- What the client keeps for the other side. -/
def clientAt (mem : GuestMem) : Assertion := fun p s =>
  ((coverBaseAt mem p s ∧ turnAt p s) ∧ QueueCarries mem s) ∧ (NoReplyRefused s → WholeReplies s)

theorem keeps_client (mem : GuestMem) : Keeps mem (clientAt mem) (clientAt mem) :=
  (((keeps_coverBase mem).and (keeps_turns mem)).and (keeps_carries mem)).and
    fun _ _ _ _ hp h => keeps_whole mem hp ⟨h.1.1.1.1.1, h.2⟩

/-- Where nothing is owed, every request may be answered now. -/
theorem requestFits_of_owed (hr : ReplyState c) (h : owed c = []) (e : ClientEvent) :
    RequestFits c e := by
  obtain ⟨hnone, hdis, -⟩ := owed_eq_nil_iff.mp h
  cases e with
  | request addr tcp =>
    refine .inr (.inr ⟨hr.between hnone _, .inl (hr.between hnone _), fun hd => ?_⟩)
    rw [hdis] at hd
    cases hd
  | _ => trivial

/-- A step of the client, on a request only when nothing is owed. -/
theorem clientAt_start {e : ClientEvent} (h : clientAt mem .idle c) (hretry : ¬ RetriesRefused c e)
    (hnil : e.requested ≠ [] → owed c = []) : clientAt mem (.start e) c := by
  obtain ⟨⟨⟨⟨⟨⟨hbase, hr⟩, hcont⟩, hprotos⟩, ht⟩, hcarries⟩, hwhole⟩ := h
  have hfits : RequestFits c e := by
    cases e with
    | request addr tcp => exact requestFits_of_owed hr (hnil (by simp [ClientEvent.requested])) _
    | _ => trivial
  refine ⟨⟨⟨⟨⟨⟨hbase, hr, hfits⟩, hcont, hretry⟩, hprotos⟩, ?_⟩, hcarries⟩, hwhole⟩
  cases e with
  | request addr tcp => exact ⟨ht, hnil (by simp [ClientEvent.requested])⟩
  | _ => exact ht

theorem clientAt_init (hc : (clientMachine mem).init c) : clientAt mem .idle c := by
  obtain ⟨q, r, -, rfl⟩ := hc
  refine ⟨⟨⟨⟨⟨⟨base_start mem q r, ReplyState.start q r⟩, queueFaithful_start mem q r⟩, ?_⟩,
    Turns.start q r⟩, queueCarries_start mem q r⟩, fun _ => ?_⟩
  · exact ⟨fun hm => (by cases hm.called), by simp [Client.start], by rintro ⟨⟩⟩
  · cases hw : r.wrote <;>
      simp [WholeReplies, Client.start, TcpPcb.tcpWrite, hw, replyKeys, partialKeys]

end

/-! ### The requests -/

/-- The client and the server, and between them at most one request. While the migration goes on,
it is the one that a processor waits for. -/
structure TwoParty.Flow (mem before : GuestMem) (s : TwoParty) : Prop where
  client : clientAt mem .idle s.client
  server : s.server.Sound mem before
  got : s.got ≤ s.client.tcp.queue.length
  one : s.tokens.length ≤ 1
  live : s.server.Live → s.tokens.Sublist s.server.awaits
  granted : s.server.Live → s.server.eptRecved = true →
    ∃ g, s.server.vcpu = .waiting g ∧ getBitarray s.server.bitarray g = true
  queued : ∀ m ∈ s.server.p, ∃ q ∈ s.client.tcp.queue, q.msg = m

namespace TwoParty.Flow

variable {mem before : GuestMem} {s s' : TwoParty}

/-- With a request on its way, nothing else is. -/
theorem only_request (h : s.Flow mem before) {l rest : List Nat} (hl : l ≠ [])
    (hrest : s.requests = l ++ rest) :
    rest = [] ∧ reqUnits s.server.p = [] ∧ underway s.got s.client = [] := by
  have hone := h.one
  have hpos := List.length_pos_iff.mpr hl
  rw [TwoParty.tokens, hrest] at hone
  simp only [List.map_append, List.length_append, List.length_map] at hone
  refine ⟨List.eq_nil_of_length_eq_zero ?_, List.eq_nil_of_length_eq_zero ?_,
    List.eq_nil_of_length_eq_zero ?_⟩ <;> omega

theorem owed_nil (h : s.Flow mem before) {l rest : List Nat} (hl : l ≠ [])
    (hrest : s.requests = l ++ rest) : owed s.client = [] :=
  (List.append_eq_nil_iff.mp (h.only_request hl hrest).2.2).2

theorem client_step {e : ClientEvent} (h : s.Flow mem before)
    (hretry : ¬ RetriesRefused s.client e) (hstep : s.Moves mem (.client e) s') :
    s'.Flow mem before := by
  cases hstep with | @client _ c rest hrest hc
  have howed : e.requested ≠ [] → owed s.client = [] := fun hne => h.owed_nil hne hrest
  have hunits : (e.requested.map unitOf ++ underway s.got s.client).length ≤ 1 := by
    have hone := h.one
    rw [TwoParty.tokens, hrest, List.map_append] at hone
    simp only [List.length_append] at hone ⊢
    omega
  have hkeeps := ((keeps_client mem).and fun _ _ _ _ hp h =>
    keeps_owes mem s.got hunits hp ⟨h.1.1.1, h.2⟩).and
      fun _ _ _ _ hp h => keeps_queue mem s.client.tcp.queue hp h.2
  obtain ⟨⟨hclient, hgot, hunder⟩, hqueue⟩ := hkeeps.step (e := e)
    ⟨⟨clientAt_start h.client hretry howed, by
      cases e <;> exact ⟨h.got, List.Sublist.refl _⟩⟩, List.prefix_refl _⟩ hc
  have hsub : (TwoParty.tokens ⟨c, s.server, s.got, rest⟩).Sublist s.tokens := by
    simp only [TwoParty.tokens]
    rw [hrest, List.map_append]
    by_cases hne : e.requested = []
    · rw [hne] at hunder ⊢
      exact (List.Sublist.refl _).append ((List.Sublist.refl _).append hunder)
    · obtain ⟨h1, h2, -⟩ := h.only_request hne hrest
      simpa [h1, h2] using hunder
  exact ⟨hclient, h.server, hgot, hsub.length_le.trans h.one, fun hl => hsub.trans (h.live hl),
    h.granted, fun m hm => (h.queued m hm).imp fun q hq => ⟨hqueue.subset hq.1, hq.2⟩⟩

/-- What the server gets is what is on its way. -/
theorem underway_drop (n k : Nat) (c : Client) : underway n c =
    reqUnits (((c.tcp.queue.drop n).take k).map Queued.msg) ++ underway (n + k) c := by
  rw [underway, underway, ← List.append_assoc, ← reqUnits_append, ← List.map_append,
    ← List.drop_drop, List.take_append_drop]

theorem recv_step {more : Nat} (h : s.Flow mem before)
    (hstep : s.Moves mem (.recv more) s') : s'.Flow mem before := by
  cases hstep with | recv hlt
  generalize hchain : ((s.client.tcp.queue.drop s.got).take (more + 1)).map Queued.msg = chain
  have hunder := underway_drop s.got (more + 1) s.client
  rw [hchain] at hunder
  have htokens : s.tokens = s.requests.map unitOf ++
      (reqUnits (s.server.p ++ chain) ++ underway (s.got + (more + 1)) s.client) := by
    rw [TwoParty.tokens, hunder, reqUnits_append, List.append_assoc]
  have hqueued : ∀ m ∈ s.server.p ++ chain, ∃ q ∈ s.client.tcp.queue, q.msg = m := fun m hm => by
    rcases List.mem_append.mp hm with hm | hm
    · exact h.queued m hm
    · rw [← hchain] at hm
      obtain ⟨q, hq, rfl⟩ := List.mem_map.mp hm
      exact ⟨q, List.mem_of_mem_drop (List.mem_of_mem_take hq), rfl⟩
  have hcont : ∀ m ∈ s.server.p ++ chain, Carries mem m ∧ Faithful mem m := fun m hm => by
    obtain ⟨q, hq, rfl⟩ := hqueued m hm
    exact ⟨h.client.1.2 q hq, h.client.1.1.1.1.2 q hq⟩
  have hsound := h.server.echoRecv chain hcont
  have hgot : s.got + (more + 1) ≤ s.client.tcp.queue.length := by omega
  rcases Server.echoRecv_cases chain s.server with ⟨-, he⟩ | ⟨-, ⟨hnil, he⟩ | ⟨m, rest, hm, he⟩⟩
  · rw [he] at hsound ⊢
    have hsub : (s.requests.map unitOf ++ (reqUnits chain ++
        underway (s.got + (more + 1)) s.client)).Sublist s.tokens := by
      rw [htokens, reqUnits_append, List.append_assoc]
      exact (List.Sublist.refl _).append (List.sublist_append_right _ _)
    exact ⟨h.client, hsound, hgot, hsub.length_le.trans h.one, fun hl => hsub.trans (h.live hl),
      h.granted, fun x hx => hqueued x (List.mem_append_right _ hx)⟩
  · rw [he] at hsound ⊢
    obtain ⟨hp, hc⟩ := List.append_eq_nil_iff.mp hnil
    rw [hc] at hunder
    have hsame : underway s.got s.client = underway (s.got + (more + 1)) s.client := by
      rw [hunder, reqUnits]
      rfl
    have heq : TwoParty.tokens ⟨s.client, s.server, s.got + (more + 1), s.requests⟩ = s.tokens := by
      simp only [TwoParty.tokens, hsame]
    exact ⟨h.client, hsound, hgot, heq ▸ h.one, heq ▸ h.live, h.granted, h.queued⟩
  · rw [he] at hsound ⊢
    obtain ⟨hvcpu, -, -, -⟩ := Server.act_frame (s := s.server) (m := m)
    obtain ⟨hept, haft⟩ := Server.act_flags (s := s.server) (m := m)
    have hsub : (s.requests.map unitOf ++ (reqUnits [] ++
        underway (s.got + (more + 1)) s.client)).Sublist s.tokens := by
      rw [htokens]
      exact (List.Sublist.refl _).append (List.sublist_append_right _ _)
    have hlive : Server.Live { Server.act m s.server with p := [] } → s.server.Live := by
      unfold Server.Live
      simp only [hvcpu, haft, Bool.and_eq_true]
      exact Or.imp_right And.left
    -- the answer that is acted on was the only request left
    have hreq : m.protoId = .dataReqMem → s.tokens = [unitOf m.addrToMigrate] ∧
        s.requests.map unitOf ++ (reqUnits [] ++ underway (s.got + (more + 1)) s.client) = [] := by
      intro hproto
      have hunits : reqUnits (m :: rest) = unitOf m.addrToMigrate :: reqUnits rest := by
        simp [reqUnits, hproto]
      have hlen := h.one
      rw [htokens, hm, hunits] at hlen
      simp only [List.length_append, List.length_cons] at hlen
      have h1 : s.requests.map unitOf = [] := List.eq_nil_of_length_eq_zero (by omega)
      have h2 : reqUnits rest = [] := List.eq_nil_of_length_eq_zero (by omega)
      have h3 : underway (s.got + (more + 1)) s.client = [] :=
        List.eq_nil_of_length_eq_zero (by omega)
      rw [htokens, hm, hunits, h1, h2, h3]
      exact ⟨rfl, rfl⟩
    refine ⟨h.client, hsound, hgot, hsub.length_le.trans h.one, fun hl => ?_, fun hl hr => ?_,
      by rintro x ⟨⟩⟩
    · by_cases hproto : m.protoId = .dataReqMem
      · rw [TwoParty.tokens]
        simp only [(hreq hproto).2]
        exact List.nil_sublist _
      · have hawaits : Server.awaits { Server.act m s.server with p := [] } = s.server.awaits := by
          simp only [Server.awaits, hvcpu, hept, hproto, decide_false, Bool.or_false]
        rw [hawaits]
        exact hsub.trans (h.live (hlive hl))
    · simp only [hept, Bool.or_eq_true, decide_eq_true_eq] at hr
      simp only [hvcpu]
      rcases hr with hr | hproto
      · obtain ⟨g, hg, hbit⟩ := h.granted (hlive hl) hr
        exact ⟨g, hg, Server.handle_bit_mono hbit⟩
      · have htok := h.live (hlive hl)
        rw [(hreq hproto).1] at htok
        have hmem : m ∈ s.server.p ++ chain := by
          rw [hm]
          exact List.mem_cons_self
        have hlow := (hcont m hmem).1.low (.inr (.inl hproto))
        obtain ⟨g, hg, hunit⟩ := Server.mem_awaits (List.singleton_sublist.mp htok)
        exact ⟨g, hg, Server.handle_bit_self (.inl hproto) hlow hunit.symm⟩

theorem poll_step {n : Nat} (h : s.Flow mem before) (hstep : s.Moves mem (.poll n) s') :
    s'.Flow mem before := by
  cases hstep
  have hdrop : (s.server.p.drop n).Sublist s.server.p := List.drop_sublist _ _
  have hsub : (s.requests.map unitOf ++ (reqUnits (s.server.p.drop n) ++
      underway s.got s.client)).Sublist s.tokens :=
    (List.Sublist.refl _).append ((reqUnits_sublist hdrop).append (List.Sublist.refl _))
  exact ⟨h.client, h.server.of_same rfl rfl rfl id id fun g hg _ => .inl hg, h.got,
    hsub.length_le.trans h.one, fun hl => hsub.trans (h.live hl), h.granted,
    fun m hm => h.queued m (hdrop.subset hm)⟩

theorem resume_step (h : s.Flow mem before) (hstep : s.Moves mem .resume s') :
    s'.Flow mem before := by
  cases hstep with | resume hstopped hvalue
  have hlive : s.server.Live := .inl hstopped
  have hnil : s.server.awaits = [] := by simp [Server.awaits, hstopped]
  refine ⟨h.client, h.server.of_same rfl rfl rfl (fun _ => .inl hvalue) (fun _ => .inr rfl)
    fun g hg _ => .inl hg, h.got, h.one, fun _ => ?_, fun _ hr => ?_, h.queued⟩
  · have htok := h.live hlive
    rw [hnil] at htok
    exact htok.trans (List.nil_sublist _)
  · obtain ⟨g, hg, -⟩ := h.granted hlive hr
    rw [hstopped] at hg
    cases hg

theorem fault_step {gphys : Nat} {wrote : Bool} (h : s.Flow mem before)
    (hstep : s.Moves mem (.fault gphys wrote) s') : s'.Flow mem before := by
  cases hstep with | fault hrun
  have hnil : s.server.awaits = [] := by simp [Server.awaits, hrun]
  by_cases hasks : (s.server.aftMig && vtMigrationRange gphys) = true
  · have hlive : s.server.Live := .inr (Bool.and_eq_true _ _ ▸ hasks).1
    have htok : s.tokens = [] := by
      have hsub := h.live hlive
      rw [hnil] at hsub
      exact List.sublist_nil.mp hsub
    have hept : s.server.eptRecved = false := by
      by_contra hr
      obtain ⟨g, hg, -⟩ := h.granted hlive (by simpa using hr)
      rw [hrun] at hg
      cases hg
    obtain ⟨hrequests, hrest⟩ := List.append_eq_nil_iff.mp htok
    have hrequests : s.requests = [] := List.map_eq_nil_iff.mp hrequests
    have hafter : (s.server.eptViolation gphys) = { s.server with
        eptRecved := getBitarray s.server.bitarray gphys, vcpu := .waiting gphys } := by
      rw [Server.eptViolation, if_pos hasks, hept, Bool.false_or]
    have htokens : TwoParty.tokens ⟨s.client, s.server.eptViolation gphys, s.got,
        s.requests ++ (if wrote && s.server.requests gphys then [gphys] else [])⟩ =
          if wrote && s.server.requests gphys then [unitOf gphys] else [] := by
      rw [hafter, TwoParty.tokens, hrequests]
      simp only [hrest, List.nil_append, List.append_nil]
      split <;> rfl
    refine ⟨h.client, ?_, h.got, ?_, fun _ => ?_, fun _ hr => ?_, ?_⟩
    · rw [hafter]
      refine h.server.of_same rfl rfl rfl (fun _ => .inr (by simp [hrun])) (fun _ => ?_)
        fun g hg _ => .inl hg
      exact .inr (Bool.and_eq_true _ _ ▸ hasks).1
    · rw [htokens]
      split <;> simp
    · rw [htokens, hafter, Server.awaits]
      cases hbit : getBitarray s.server.bitarray gphys <;>
        cases wrote <;> simp [Server.requests, hbit, hasks]
    · rw [hafter] at hr ⊢
      exact ⟨gphys, rfl, hr⟩
    · rw [hafter]
      exact h.queued
  · have hafter : s.server.eptViolation gphys =
        { s.server with mapped := s.server.mapped ++ [gphys] } := if_neg hasks
    have hnone : s.server.requests gphys = false := by
      rw [Server.requests]
      simp only [Bool.not_eq_true] at hasks
      rw [hasks, Bool.false_and]
    rw [hnone, Bool.and_false, hafter]
    simp only [Bool.false_eq_true, if_false, List.append_nil]
    refine ⟨h.client, h.server.of_same rfl rfl rfl id id fun g hg hrange => ?_, h.got, h.one,
      h.live, h.granted, h.queued⟩
    rcases List.mem_append.mp hg with hg | hg
    · exact .inl hg
    · rw [List.mem_singleton.mp hg] at hrange
      refine .inr (.inr fun hl => ?_)
      rcases hl with hl | hl
      · rw [hrun] at hl
        cases hl
      · exact hasks (by rw [hl, hrange]; rfl)

theorem map_step (h : s.Flow mem before) (hstep : s.Moves mem .map s') : s'.Flow mem before := by
  cases hstep with | @map gphys hv hept
  have hlive : Server.Live (s.server.mapPage gphys) → s.server.Live := fun hl =>
    hl.elim (fun hl => by cases hl) .inr
  refine ⟨h.client, h.server.of_same rfl rfl rfl (fun _ => .inr (by simp [hv])) (fun hl => ?_)
    fun g hg _ => ?_, h.got, h.one, fun hl => ?_, fun _ hr => (by cases hr), h.queued⟩
  · rcases hl with hl | hl
    · rw [hv] at hl
      cases hl
    · exact .inr hl
  · rcases List.mem_append.mp hg with hg | hg
    · exact .inl hg
    · rw [List.mem_singleton.mp hg]
      cases ha : s.server.aftMig with
      | true =>
        obtain ⟨g', hg', hbit⟩ := h.granted (.inr ha) (hept ha)
        rw [hv] at hg'
        cases hg'
        exact .inr (.inl hbit)
      | false => exact .inr (.inr fun hl => by simp [Server.Live, hv, ha] at hl)
  · have ha : s.server.aftMig = true := hl.resolve_left (by simp [Server.mapPage])
    have htok := h.live (hlive hl)
    rw [Server.awaits, hv] at htok
    simp only [hept ha, if_true] at htok
    exact htok.trans (List.nil_sublist _)

theorem step {e : TwoPartyEvent} (h : s.Flow mem before) (hretry : ¬ s.Retries e)
    (hstep : s.step mem e = some s') : s'.Flow mem before := by
  have hmoves := TwoParty.moves hstep
  cases e with
  | client e => exact h.client_step hretry hmoves
  | recv more => exact h.recv_step hmoves
  | poll n => exact h.poll_step hmoves
  | resume => exact h.resume_step hmoves
  | fault gphys wrote => exact h.fault_step hmoves
  | map => exact h.map_step hmoves

theorem init (h : (twoPartyMachine mem before).init s) : s.Flow mem before := by
  obtain ⟨c, hc, rfl⟩ := h
  have hclient := clientAt_init hc
  obtain ⟨q, r, -, rfl⟩ := hc
  have htokens : TwoParty.tokens ⟨Client.start mem q r, Server.start before, 0, []⟩ = [] := by
    cases hw : r.wrote <;>
      simp [TwoParty.tokens, underway, reqUnits, owed, EndsAsReply, Server.start, Client.start,
        TcpPcb.tcpWrite, hw, cpuMsg]
  refine ⟨hclient, Server.Sound.start, Nat.zero_le _, by rw [htokens]; exact Nat.zero_le _,
    fun _ => by rw [htokens]; exact List.nil_sublist _, fun _ hr => (by cases hr),
    fun m hm => (by cases hm)⟩

end TwoParty.Flow

theorem flow_of_reachable {mem before : GuestMem} {C : TwoParty → TwoPartyEvent → Prop}
    {s : TwoParty} (hC : ∀ s e, C s e → ¬ s.Retries e)
    (hs : (twoPartyMachine mem before).ReachableWhen C s) : s.Flow mem before :=
  hs.invariant (fun _ hs => TwoParty.Flow.init hs) fun _ _ _ h hc hstep => h.step (hC _ _ hc) hstep

end OnDemandVirt.Migration
