import OnDemandVirt.Migration.Release

/-!
# Guarantees of a migration

What holds in every run of the two parties, for every memory of the client and every memory that
the server had before. Where messages arrive one by one (`Orderly`) and no message is lost, the
guest never reads a byte that is not the client's, except in what the second message of the
connection carries, which the server drops.
-/

namespace OnDemandVirt.Migration

open Lib

section
variable (mem before : GuestMem) (s : TwoParty)

/-! ### A run in which the guest goes on -/

/-- A client with the CPU state queued and a server that waits for it. -/
def freshPair : TwoParty :=
  ⟨Client.start (fun _ => 0) 0 goodAnswer, Server.start fun _ => 0, 0, []⟩

/-- All margins are sent and arrive, the guest runs into a page of a margin and into one that is
not there, and the request for it is answered. -/
def guestEvents : List TwoPartyEvent :=
  allMarginAcks.map TwoPartyEvent.client ++ List.replicate 459 (.recv 0) ++
    [.resume, .fault 0x98000 true, .map, .fault 0x100000 true,
      .client (goodRequest 0x100000 batchSize)]

set_option maxRecDepth 100000 in
theorem guestEvents_run :
    ((twoPartyMachine (fun _ => 0) fun _ => 0).run freshPair guestEvents).map (fun s =>
      (((s.server.mapped, s.server.vcpu), s.server.aftMig, getBitarray s.server.bitarray 0x98000),
        (s.client.tcp.refused.length, s.client.seq.thread, s.client.seq.migrationDone),
        (s.client.req.noRequest, s.client.seq.isTransmitting, s.client.req.requestRecvDisrupted))) =
      some ((([0x98000], .waiting 0x100000), true, true), (0, .running, false),
        (true, false, false)) := by
  decide +kernel

/-- The state after it: a page of a margin is mapped and the client is between two units. -/
theorem guest_runs : ∃ s : TwoParty,
    (twoPartyMachine (fun _ => 0) fun _ => 0).ReachableWhen TwoParty.Orderly s ∧
      s.server.mapped = [0x98000] ∧ s.server.vcpu = .waiting 0x100000 ∧ NothingLost s.client ∧
        BetweenUnits s.client ∧ s.server.Live ∧ getBitarray s.server.bitarray 0x98000 = true := by
  obtain ⟨s, hrun, hfields⟩ := Option.map_eq_some_iff.mp guestEvents_run
  simp only [Prod.mk.injEq] at hfields
  obtain ⟨⟨⟨hmapped, hvcpu⟩, haft, hbit⟩, ⟨hrefused, hthread, hdone⟩, hno, hoff, hfree⟩ := hfields
  have hinit : (twoPartyMachine (fun _ => 0) fun _ => 0).ReachableWhen TwoParty.Orderly freshPair :=
    .init ⟨_, ⟨0, goodAnswer, by decide, rfl⟩, rfl⟩
  have hs := hinit.run guestEvents (fun e he t => ?_) hrun
  · exact ⟨s, hs, hmapped, hvcpu, by simp [NothingLost, List.length_eq_zero_iff.mp hrefused],
      ⟨⟨hthread, hdone, hno⟩, hoff, hfree⟩, .inr haft, hbit⟩
  · simp only [guestEvents, List.mem_append, List.mem_map, List.mem_replicate, List.mem_cons,
      List.not_mem_nil, or_false] at he
    rcases he with (⟨a, ha, rfl⟩ | ⟨-, rfl⟩) | rfl | rfl | rfl | rfl | rfl
    · obtain ⟨n, -, rfl⟩ := List.mem_map.mp ha
      exact fun h => h
    · exact rfl
    · trivial
    · trivial
    · trivial
    · trivial
    · exact fun h => h

/-! ### Memory and requests -/

theorem not_retries_of_orderly {s : TwoParty} {e : TwoPartyEvent} (h : s.Orderly e) :
    ¬ s.Retries e := by
  cases e with
  | client e => exact h
  | _ => exact id

/-- In the same runs: at most one request is on its way, the client is always able to answer it, a
whole reply follows if none of its messages is refused, and while memory is fetched it is the
request of the processor that waits, which goes on only when the bit of its unit is set. -/
theorem one_request_at_a_time
    (hs : (twoPartyMachine mem before).ReachableWhen (fun s e => ¬ s.Retries e) s) :
    s.requests.length ≤ 1 ∧
      (∀ a ∈ s.requests, ∀ tcp, RequestFits s.client (.request a tcp)) ∧
      (NoReplyRefused s.client → WholeReplies s.client) ∧
      (s.server.Live → ∀ a ∈ s.requests, s.server.eptRecved = false ∧
        ∃ g, s.server.vcpu = .waiting g ∧ SameUnit a g) ∧
      (s.server.Live → s.server.eptRecved = true →
        ∃ g, s.server.vcpu = .waiting g ∧ getBitarray s.server.bitarray g = true) := by
  have h := flow_of_reachable (fun _ _ hC => hC) hs
  have hone := h.one
  rw [TwoParty.tokens, List.length_append, List.length_map] at hone
  refine ⟨by omega, fun a ha tcp => ?_, h.client.2, fun hl a ha => ?_, h.granted⟩
  · obtain ⟨l, rest, hrest⟩ := List.append_of_mem ha
    have howed : owed s.client = [] := h.owed_nil (l := l ++ [a]) (by simp) (by simpa using hrest)
    exact requestFits_of_owed h.client.1.1.1.1.1.2 howed _
  · have hmem : unitOf a ∈ s.server.awaits := (h.live hl).subset
      (List.mem_append_left _ (List.mem_map_of_mem ha))
    obtain ⟨g, hg, hunit⟩ := Server.mem_awaits hmem
    refine ⟨?_, g, hg, hunit⟩
    by_contra hept
    simp [Server.awaits, hg, hept] at hmem

theorem one_request_at_a_time_guest : ∃ s : TwoParty, s.server.mapped = [0x98000] ∧
    s.requests.length ≤ 1 ∧ (NoReplyRefused s.client → WholeReplies s.client) := by
  obtain ⟨s, hs, hmapped, -⟩ := guest_runs
  have h := one_request_at_a_time _ _ s (hs.mono fun _ _ => not_retries_of_orderly)
  exact ⟨s, hmapped, h.1, h.2.2.1⟩

/-- No message ever writes to a page after it was mapped: the guest's own writes stay. -/
theorem mapped_page_spared (hs : (twoPartyMachine mem before).ReachableWhen TwoParty.Orderly s)
    (g x : Nat) (hg : g ∈ s.server.mapped) (hpage : x / 0x1000 = g / 0x1000) (hx : Usable x)
    (s' : TwoParty) (hs' : Continues mem before s s') :
    ∃ l, s'.server.acted = s.server.acted ++ l ∧ ∀ m ∈ l, ¬ m.Writes x := by
  refine And.right (a := g ∈ s'.server.mapped) ?_
  unfold Continues at hs'
  induction hs' with
  | init h0 =>
    cases h0
    exact ⟨hg, [], by simp, by simp⟩
  | @step t e t' ht hC hstep ih =>
    obtain ⟨hmapped, l, hl, hspared⟩ := ih
    obtain ⟨hmapped', l', hl', hspared'⟩ :=
      step_spares_mapped (reachableWhen_trans hs ht) hC hstep hmapped hpage hx
    refine ⟨hmapped', l ++ l', by rw [hl', hl, List.append_assoc], fun m hm => ?_⟩
    rcases List.mem_append.mp hm with hm | hm
    · exact hspared m hm
    · exact hspared' m hm

theorem mapped_page_spared_guest : ∃ s s' : TwoParty, s.server.mapped = [0x98000] ∧
    s.server.Live ∧ ¬ s'.server.Live ∧
      ∃ l, s'.server.acted = s.server.acted ++ l ∧ ∀ m ∈ l, ¬ m.Writes 0x98800 := by
  obtain ⟨s, hs, hmapped, hvcpu, hlost, hb, hlive, -⟩ := guest_runs
  obtain ⟨s', hs', -, hdone⟩ := finishes hs hlost (by simp [hvcpu]) hb
  exact ⟨s, s', hmapped, hlive, hdone, mapped_page_spared _ _ s hs 0x98000 0x98800
    (by simp [hmapped]) (by decide)
    ⟨⟨0x0, 0x9c6f9, by decide⟩, by simp [usableMemList], by decide⟩ s' hs'⟩

/-! ### The end -/

end

end OnDemandVirt.Migration
