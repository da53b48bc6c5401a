import OnDemandVirt.Migration.Message

/-!
# Messages in the byte stream

TCP hands the peer's bytes over in chains of pbufs, cut anywhere. Both receive callbacks look at the
first pbuf of a chain only and throw the rest away, so they act on the messages of the stream only
where every chain is one message in one pbuf. The server's first chain is not looked at when
it arrives: it is kept, and `echo_poll` may send it back to the client.

A pbuf is described by the positions its bytes have in the stream.
-/

namespace OnDemandVirt.Migration

/-- The payload of a pbuf: `len` bytes from the position `start` of the stream on. -/
structure Pbuf where
  start : Nat
  len : Nat
  deriving DecidableEq, Repr

/-- The length of a pbuf as it arrives. -/
structure Seg where
  len : Nat
  pos : 0 < len := by decide

/-- The pbuf chain of one receive callback: its first pbuf and the others. -/
structure Chain where
  first : Seg
  rest : List Seg

/-- `tot_len`. -/
def Chain.totLen (c : Chain) : Nat := c.first.len + (c.rest.map Seg.len).sum

/-- The pbufs of segments that begin at a position of the stream. -/
def pbufsAt (pos : Nat) : List Seg → List Pbuf
  | [] => []
  | s :: ss => ⟨pos, s.len⟩ :: pbufsAt (pos + s.len) ss

/-- The pbufs of a chain. -/
def Chain.pbufs (c : Chain) (pos : Nat) : List Pbuf :=
  ⟨pos, c.first.len⟩ :: pbufsAt (pos + c.first.len) c.rest

/-- The bytes of the stream in a message read at `payload`: what a shorter pbuf lacks is read from
behind it. -/
def readMsg (p : Pbuf) : Pbuf := ⟨p.start, min p.len sizeOfSendbuf⟩

/-- `ES_ACCEPTED` and `ES_RECEIVED`. -/
inductive EchoStates
  | accepted | received
  deriving DecidableEq, Repr

/-- `struct echo_state` with, as history, how much of the stream has arrived and the messages acted
on. -/
structure EchoState where
  state : EchoStates
  p : List Pbuf
  arrived : Nat
  acted : List Pbuf

/-- What can happen at the server's end. -/
inductive StreamEvent
  | recv (c : Chain)
  | poll (tcp : List TcpAnswer)

/-! ### The callbacks -/

/-- `echo_recv` on a chain. -/
def echoRecvChain (c : Chain) (es : EchoState) : EchoState :=
  match es.state with
  | .accepted =>
    { es with state := .received, p := c.pbufs es.arrived, arrived := es.arrived + c.totLen }
  | .received =>
    let p := if es.p = [] then c.pbufs es.arrived else es.p ++ c.pbufs es.arrived
    { es with p := [], arrived := es.arrived + c.totLen, acted := es.acted ++ (p.head?.map readMsg).toList }

/-- `echo_send`: pbufs leave the front of the chain while the send buffer takes them. -/
def echoSend : List TcpAnswer → List Pbuf → List Pbuf
  | _, [] => []
  | [], p => p
  | r :: rs, b :: p => if b.len ≤ r.sndbuf ∧ r.wrote then echoSend rs p else b :: p

/-- `echo_poll`. -/
def echoPoll (tcp : List TcpAnswer) (es : EchoState) : EchoState :=
  if es.p = [] then es else { es with p := echoSend tcp es.p }

/-- `echo_client_recv` on a chain: it acts on the new chain, whatever was kept. -/
def echoClientRecvChain (c : Chain) (es : EchoState) : EchoState :=
  { es with
    p := []
    arrived := es.arrived + c.totLen
    acted := es.acted ++ [readMsg ⟨es.arrived, c.first.len⟩] }

/-- One event at the server's end. -/
def serverStep (es : EchoState) : StreamEvent → EchoState
  | .recv c => echoRecvChain c es
  | .poll tcp => echoPoll tcp es

/-- The server's callbacks over a run. -/
def serverRun (es : EchoState) (evs : List StreamEvent) : EchoState := evs.foldl serverStep es

/-- The client's callbacks over a run. -/
def clientRun (es : EchoState) (cs : List Chain) : EchoState :=
  cs.foldl (fun es c => echoClientRecvChain c es) es

/-- A connection of which nothing has arrived. -/
def EchoState.new (state : EchoStates) : EchoState := ⟨state, [], 0, []⟩

/-! ### The messages of the stream -/

/-- The messages from a position on in `total` bytes. -/
def cutAt (pos total : Nat) : List Pbuf :=
  (List.range (total / sizeOfSendbuf)).map fun k => ⟨pos + sizeOfSendbuf * k, sizeOfSendbuf⟩

/-- The messages acted on are the stream cut into messages. -/
def EchoState.Framed (es : EchoState) : Prop := es.acted = cutAt 0 es.arrived

/-- The chains of a run. -/
def chains : List StreamEvent → List Chain
  | [] => []
  | .recv c :: evs => c :: chains evs
  | .poll _ :: evs => chains evs

/-- Every chain is one message in one pbuf; the last one may hold part of another message. -/
def OneMessageEach : List Chain → Prop
  | [] => True
  | [c] => sizeOfSendbuf ≤ c.first.len ∧ c.totLen < 2 * sizeOfSendbuf
  | c :: cs => c.first.len = sizeOfSendbuf ∧ c.rest = [] ∧ OneMessageEach cs

/-- No poll before the second chain finds room to send the first pbuf back. -/
def KeptUntilNext (b : Nat) : List StreamEvent → Prop
  | [] => True
  | .recv _ :: _ => True
  | .poll tcp :: evs =>
    (∀ r ∈ tcp.head?, ¬ (b ≤ r.sndbuf ∧ r.wrote = true)) ∧ KeptUntilNext b evs

/-- What the events after the first chain may be. -/
def FirstKept (c : Chain) (evs : List StreamEvent) : Prop :=
  match chains evs with
  | [] => c.totLen < sizeOfSendbuf
  | [c'] => sizeOfSendbuf ≤ c.first.len ∧ c.totLen + c'.totLen < 2 * sizeOfSendbuf ∧
      KeptUntilNext c.first.len evs
  | _ => False

/-- The runs of a new connection of the server: at most two chains, and the first one is still
there, whole, when the second one arrives. -/
def OneMessageInTwo : List StreamEvent → Prop
  | [] => True
  | .poll _ :: evs => OneMessageInTwo evs
  | .recv c :: evs => FirstKept c evs

/-! ### Lemmas -/

/-- What is acted on when nothing is kept: the first pbuf of each chain. -/
def firsts (pos : Nat) : List Chain → List Pbuf
  | [] => []
  | c :: cs => readMsg ⟨pos, c.first.len⟩ :: firsts (pos + c.totLen) cs

/-- The bytes of chains. -/
def totLens (cs : List Chain) : Nat := (cs.map Chain.totLen).sum

theorem totLen_pos (c : Chain) : 0 < c.totLen := by
  have := c.first.pos
  unfold Chain.totLen
  omega

theorem totLen_eq_first {c : Chain} (h : c.totLen = c.first.len) : c.rest = [] := by
  obtain ⟨first, rest⟩ := c
  cases rest with
  | nil => rfl
  | cons s ss =>
    have := s.pos
    simp only [Chain.totLen, List.map_cons, List.sum_cons] at h
    omega

theorem readMsg_eq_iff (pos len : Nat) :
    readMsg ⟨pos, len⟩ = ⟨pos, sizeOfSendbuf⟩ ↔ sizeOfSendbuf ≤ len := by
  simp [readMsg]

/-- The first message of a stream that has one, and the rest. -/
theorem cutAt_of_le {pos total : Nat} (h : sizeOfSendbuf ≤ total) : cutAt pos total =
    ⟨pos, sizeOfSendbuf⟩ :: cutAt (pos + sizeOfSendbuf) (total - sizeOfSendbuf) := by
  have hdiv : total / sizeOfSendbuf = (total - sizeOfSendbuf) / sizeOfSendbuf + 1 := by
    unfold sizeOfSendbuf at *
    omega
  rw [cutAt, hdiv, List.range_succ_eq_map, List.map_cons, List.map_map, cutAt]
  congr 1
  apply List.map_congr_left
  intro k _
  simp only [Function.comp, Nat.succ_eq_add_one, Nat.mul_add, Nat.mul_one]
  congr 1
  omega

theorem cutAt_eq_nil_iff {pos total : Nat} : cutAt pos total = [] ↔ total < sizeOfSendbuf := by
  rw [cutAt, List.map_eq_nil_iff, List.range_eq_nil]
  exact Nat.div_eq_zero_iff.trans (by simp)

theorem first_le_totLen (c : Chain) : c.first.len ≤ c.totLen := Nat.le_add_right _ _

theorem totLens_cons (c : Chain) (cs : List Chain) : totLens (c :: cs) = c.totLen + totLens cs := by
  simp [totLens]

/-- The first pbufs are the messages of the stream exactly where every chain is one message. The
induction is on the chains: a second chain forces the first one to be exactly one message. -/
theorem firsts_eq_cutAt_iff (pos : Nat) (cs : List Chain) :
    firsts pos cs = cutAt pos (totLens cs) ↔ OneMessageEach cs := by
  induction cs generalizing pos with
  | nil =>
    rw [firsts, eq_comm, cutAt_eq_nil_iff]
    simp [totLens, OneMessageEach]
  | cons c cs ih =>
    have hle := first_le_totLen c
    rw [firsts, totLens_cons]
    by_cases htotal : sizeOfSendbuf ≤ c.totLen + totLens cs
    · rw [cutAt_of_le htotal, List.cons.injEq, readMsg_eq_iff]
      cases cs with
      | nil =>
        rw [firsts, eq_comm, cutAt_eq_nil_iff, OneMessageEach]
        simp only [totLens, List.map_nil, List.sum_nil]
        omega
      | cons c' cs =>
        show _ ↔ c.first.len = sizeOfSendbuf ∧ c.rest = [] ∧ OneMessageEach (c' :: cs)
        constructor
        · rintro ⟨hfirst, htail⟩
          have hsecond : sizeOfSendbuf ≤ c.totLen + totLens (c' :: cs) - sizeOfSendbuf := by
            by_contra hlt
            rw [cutAt_eq_nil_iff.2 (Nat.lt_of_not_le hlt)] at htail
            cases htail
          have hstart := congrArg (fun l => l.head?.map Pbuf.start) htail
          rw [cutAt_of_le hsecond] at hstart
          simp only [firsts, readMsg, List.head?_cons, Option.map_some, Option.some.injEq] at hstart
          have hone : c.totLen = sizeOfSendbuf := by omega
          have hlen : c.first.len = sizeOfSendbuf := by omega
          refine ⟨hlen, totLen_eq_first (by omega), (ih (pos + c.totLen)).mp ?_⟩
          rw [htail, hone, Nat.add_sub_cancel_left]
        · rintro ⟨hlen, hrest, heach⟩
          have hone : c.totLen = sizeOfSendbuf := by
            rw [Chain.totLen, hrest, hlen]
            rfl
          refine ⟨hlen.ge, ?_⟩
          rw [hone, Nat.add_sub_cancel_left]
          exact (ih _).mpr heach
    · rw [cutAt_eq_nil_iff.2 (Nat.lt_of_not_le htotal)]
      constructor
      · intro h
        cases h
      · intro h
        have hfirst : sizeOfSendbuf ≤ c.first.len := by
          cases cs with
          | nil => exact h.1
          | cons c' cs => exact h.1.ge
        omega

/-! ### Runs -/

/-- With nothing kept, the server acts on the first pbuf of every chain. -/
theorem serverRun_received (pos : Nat) (acted : List Pbuf) (evs : List StreamEvent) :
    serverRun ⟨.received, [], pos, acted⟩ evs =
      ⟨.received, [], pos + totLens (chains evs), acted ++ firsts pos (chains evs)⟩ := by
  induction evs generalizing pos acted with
  | nil => simp [serverRun, chains, totLens, firsts]
  | cons ev evs ih =>
    rw [serverRun, List.foldl_cons, ← serverRun]
    cases ev with
    | recv c =>
      have hstep : serverStep ⟨.received, [], pos, acted⟩ (.recv c) =
          ⟨.received, [], pos + c.totLen, acted ++ [readMsg ⟨pos, c.first.len⟩]⟩ := by
        simp [serverStep, echoRecvChain, Chain.pbufs]
      rw [hstep, ih, chains, totLens_cons, firsts, List.append_assoc, Nat.add_assoc]
      rfl
    | poll tcp => exact ih pos acted

theorem clientRun_eq (cs : List Chain) : ∀ es : EchoState,
    (clientRun es cs).arrived = es.arrived + totLens cs ∧
      (clientRun es cs).acted = es.acted ++ firsts es.arrived cs := by
  induction cs with
  | nil => simp [clientRun, totLens, firsts]
  | cons c cs ih =>
    intro es
    obtain ⟨harrived, hacted⟩ := ih (echoClientRecvChain c es)
    rw [clientRun, List.foldl_cons, ← clientRun, harrived, hacted, totLens_cons, firsts]
    simp only [echoClientRecvChain]
    exact ⟨by omega, by simp⟩

/-- What the polls before the next chain leave of the kept one. -/
def drain : List Pbuf → List StreamEvent → List Pbuf
  | p, .poll tcp :: evs => drain (if p = [] then [] else echoSend tcp p) evs
  | p, _ => p

/-- With a chain kept, the next chain makes the server act on what the polls have left. -/
theorem serverRun_kept (p : List Pbuf) (pos : Nat) (acted : List Pbuf) (evs : List StreamEvent) :
    (serverRun ⟨.received, p, pos, acted⟩ evs).arrived = pos + totLens (chains evs) ∧
      (serverRun ⟨.received, p, pos, acted⟩ evs).acted =
        acted ++ match chains evs with
          | [] => []
          | c :: cs => readMsg ((drain p evs).head?.getD ⟨pos, c.first.len⟩) ::
              firsts (pos + c.totLen) cs := by
  induction evs generalizing p with
  | nil => simp [serverRun, chains, totLens]
  | cons ev evs ih =>
    rw [serverRun, List.foldl_cons, ← serverRun]
    cases ev with
    | recv c =>
      have hstep : serverStep ⟨.received, p, pos, acted⟩ (.recv c) =
          ⟨.received, [], pos + c.totLen, acted ++ [readMsg (p.head?.getD ⟨pos, c.first.len⟩)]⟩ := by
        cases p <;> simp [serverStep, echoRecvChain, Chain.pbufs]
      rw [hstep, serverRun_received, chains, totLens_cons]
      exact ⟨Nat.add_assoc _ _ _, by simp [drain]⟩
    | poll tcp =>
      have hstep : serverStep ⟨.received, p, pos, acted⟩ (.poll tcp) =
          ⟨.received, if p = [] then [] else echoSend tcp p, pos, acted⟩ := by
        by_cases hp : p = [] <;> simp [serverStep, echoPoll, hp]
      rw [hstep]
      exact ih _

theorem echoSend_subset (tcp : List TcpAnswer) (p : List Pbuf) : ∀ b ∈ echoSend tcp p, b ∈ p := by
  induction p generalizing tcp with
  | nil => cases tcp <;> simp [echoSend]
  | cons b p ih =>
    cases tcp with
    | nil => exact fun b' hb' => hb'
    | cons r rs =>
      rw [echoSend]
      split_ifs
      · exact fun b' hb' => List.mem_cons_of_mem _ (ih rs b' hb')
      · exact fun b' hb' => hb'

theorem drain_subset (evs : List StreamEvent) (p : List Pbuf) : ∀ b ∈ drain p evs, b ∈ p := by
  induction evs generalizing p with
  | nil => exact fun b hb => by simpa [drain] using hb
  | cons ev evs ih =>
    cases ev with
    | recv c => exact fun b hb => by simpa [drain] using hb
    | poll tcp =>
      intro b hb
      have hb' := ih _ b hb
      by_cases hp : p = []
      · simp [hp] at hb'
      · rw [if_neg hp] at hb'
        exact echoSend_subset tcp p b hb'

/-- A poll sends the first pbuf back if it finds room for it. -/
theorem echoSend_cons (tcp : List TcpAnswer) (b : Pbuf) (p : List Pbuf) :
    (∀ r ∈ tcp.head?, ¬ (b.len ≤ r.sndbuf ∧ r.wrote = true)) ∧ echoSend tcp (b :: p) = b :: p ∨
      (¬ (∀ r ∈ tcp.head?, ¬ (b.len ≤ r.sndbuf ∧ r.wrote = true)) ∧
        ∀ b' ∈ echoSend tcp (b :: p), b' ∈ p) := by
  cases tcp with
  | nil => exact .inl ⟨by simp, rfl⟩
  | cons r rs =>
    rw [echoSend]
    by_cases h : b.len ≤ r.sndbuf ∧ r.wrote = true
    · rw [if_pos h]
      exact .inr ⟨by simpa using h, echoSend_subset rs p⟩
    · rw [if_neg h]
      exact .inl ⟨by simpa using h, rfl⟩

/-- The first pbuf is still there when the next chain arrives, or what is left comes from behind
it. -/
theorem drain_cons (evs : List StreamEvent) (b : Pbuf) (p : List Pbuf) :
    (KeptUntilNext b.len evs ∧ drain (b :: p) evs = b :: p) ∨
      (¬ KeptUntilNext b.len evs ∧ ∀ b' ∈ drain (b :: p) evs, b' ∈ p) := by
  induction evs with
  | nil => exact .inl ⟨trivial, by simp [drain]⟩
  | cons ev evs ih =>
    cases ev with
    | recv c => exact .inl ⟨trivial, by simp [drain]⟩
    | poll tcp =>
      rw [drain, if_neg (List.cons_ne_nil _ _), KeptUntilNext]
      rcases echoSend_cons tcp b p with ⟨hkeep, hsend⟩ | ⟨hgo, hsend⟩
      · rw [hsend]
        rcases ih with ⟨hk, hd⟩ | ⟨hk, hd⟩
        · exact .inl ⟨⟨hkeep, hk⟩, hd⟩
        · exact .inr ⟨fun h => hk h.2, hd⟩
      · exact .inr ⟨fun h => hgo h.1, fun b' hb' => hsend b' (drain_subset evs _ b' hb')⟩

theorem pbufsAt_start (pos : Nat) (ss : List Seg) : ∀ b ∈ pbufsAt pos ss, pos ≤ b.start := by
  induction ss generalizing pos with
  | nil => simp [pbufsAt]
  | cons s ss ih =>
    intro b hb
    rcases List.mem_cons.mp hb with rfl | hb
    · exact Nat.le_refl _
    · have := ih _ b hb
      omega

/-- The first message acted on starts at the beginning of the stream exactly if the first pbuf was
kept. -/
theorem kept_start_iff (c c' : Chain) (evs : List StreamEvent) :
    ((drain (c.pbufs 0) evs).head?.getD ⟨c.totLen, c'.first.len⟩).start = 0 ↔
      KeptUntilNext c.first.len evs := by
  have hpos := totLen_pos c
  rcases drain_cons evs ⟨0, c.first.len⟩ (pbufsAt (0 + c.first.len) c.rest) with ⟨hk, hd⟩ | ⟨hk, hd⟩
  · rw [Chain.pbufs, hd]
    simpa using hk
  · rw [Chain.pbufs]
    refine ⟨fun h => absurd h ?_, fun h => absurd h hk⟩
    cases hdrain : drain (⟨0, c.first.len⟩ :: pbufsAt (0 + c.first.len) c.rest) evs with
    | nil => simp only [List.head?_nil, Option.getD_none]; omega
    | cons b q =>
      have hb := pbufsAt_start _ _ b (hd b (by rw [hdrain]; exact List.mem_cons_self))
      have := c.first.pos
      simp only [List.head?_cons, Option.getD_some]
      omega

theorem kept_head {c : Chain} {evs : List StreamEvent} (h : KeptUntilNext c.first.len evs)
    (b : Pbuf) : (drain (c.pbufs 0) evs).head?.getD b = ⟨0, c.first.len⟩ := by
  rcases drain_cons evs ⟨0, c.first.len⟩ (pbufsAt (0 + c.first.len) c.rest) with ⟨hk, hd⟩ | ⟨hk, hd⟩
  · rw [Chain.pbufs, hd]
    rfl
  · exact absurd h hk

/-! ### Framing -/

/-- A new connection of the server: the first chain is only kept, so a third one always finds the
server out of step. -/
theorem framed_accepted_iff (evs : List StreamEvent) :
    (serverRun (.new .accepted) evs).Framed ↔ OneMessageInTwo evs := by
  induction evs with
  | nil => simp [serverRun, EchoState.new, EchoState.Framed, OneMessageInTwo, cutAt]
  | cons ev evs ih =>
    cases ev with
    | poll tcp => exact ih
    | recv c =>
      have hstep : serverRun (.new .accepted) (.recv c :: evs) =
          serverRun ⟨.received, c.pbufs 0, c.totLen, []⟩ evs := by
        rw [serverRun, List.foldl_cons, ← serverRun]
        simp [serverStep, echoRecvChain, EchoState.new]
      obtain ⟨harrived, hacted⟩ := serverRun_kept (c.pbufs 0) c.totLen [] evs
      have hle := first_le_totLen c
      rw [OneMessageInTwo, FirstKept, EchoState.Framed, hstep, harrived, hacted, List.nil_append]
      cases hchains : chains evs with
      | nil => rw [eq_comm, cutAt_eq_nil_iff]; simp [totLens]
      | cons c' cs =>
        have hpos := totLen_pos c'
        have hstart := kept_start_iff c c' evs
        simp only [totLens_cons]
        by_cases htotal : sizeOfSendbuf ≤ c.totLen + (c'.totLen + totLens cs)
        · rw [cutAt_of_le htotal, List.cons.injEq]
          by_cases hkept : KeptUntilNext c.first.len evs
          · rw [kept_head hkept, readMsg_eq_iff]
            cases cs with
            | nil =>
              rw [firsts, eq_comm (a := []), cutAt_eq_nil_iff]
              simp only [totLens, List.map_nil, List.sum_nil, hkept, and_true]
              omega
            | cons c'' cs =>
              refine ⟨?_, False.elim⟩
              rintro ⟨hfirst, htail⟩
              have hsecond : sizeOfSendbuf ≤
                  c.totLen + (c'.totLen + totLens (c'' :: cs)) - sizeOfSendbuf := by
                by_contra hlt
                rw [cutAt_eq_nil_iff.2 (Nat.lt_of_not_le hlt)] at htail
                cases htail
              have hsecond' := congrArg (fun l => l.head?.map Pbuf.start) htail
              rw [cutAt_of_le hsecond] at hsecond'
              simp only [firsts, readMsg, List.head?_cons, Option.map_some,
                Option.some.injEq] at hsecond'
              omega
          · constructor
            · rintro ⟨hhead, -⟩
              exact absurd (hstart.mp (congrArg Pbuf.start hhead)) hkept
            · intro h
              cases cs with
              | nil => exact absurd h.2.2 hkept
              | cons c'' cs => exact h.elim
        · rw [cutAt_eq_nil_iff.2 (Nat.lt_of_not_le htotal)]
          refine ⟨fun h => absurd h (List.cons_ne_nil _ _), fun h => ?_⟩
          cases cs with
          | nil => have := h.1; omega
          | cons c'' cs => exact h.elim

/-- A connection on which nothing is kept any more. -/
theorem framed_received_iff (evs : List StreamEvent) :
    (serverRun (.new .received) evs).Framed ↔ OneMessageEach (chains evs) := by
  rw [EchoState.new, EchoState.Framed, serverRun_received, List.nil_append, Nat.zero_add]
  exact firsts_eq_cutAt_iff 0 (chains evs)

theorem framed_client_iff (st : EchoStates) (cs : List Chain) :
    (clientRun (.new st) cs).Framed ↔ OneMessageEach cs := by
  obtain ⟨harrived, hacted⟩ := clientRun_eq cs (.new st)
  rw [EchoState.Framed, harrived, hacted, EchoState.new, List.nil_append, Nat.zero_add]
  exact firsts_eq_cutAt_iff 0 cs

/-- The runs in which the server acts on the messages of its stream. -/
def ServerInStep : EchoStates → List StreamEvent → Prop
  | .accepted, evs => OneMessageInTwo evs
  | .received, evs => OneMessageEach (chains evs)

/-- Both ends act on exactly the messages of their streams where TCP delivers them one by one, in
one pbuf each, and in no other run. -/
theorem framed_iff (st : EchoStates) (evs : List StreamEvent) (cs : List Chain) :
    (serverRun (.new st) evs).Framed ∧ (clientRun (.new .received) cs).Framed ↔
      ServerInStep st evs ∧ OneMessageEach cs := by
  rw [framed_client_iff]
  cases st with
  | accepted => rw [framed_accepted_iff, ServerInStep]
  | received => rw [framed_received_iff, ServerInStep]

/-- Two messages in one chain: the second one is lost. -/
theorem not_framed_two_in_one : ¬ ∀ st evs cs,
    (serverRun (.new st) evs).Framed ∧ (clientRun (.new .received) cs).Framed := by
  intro h
  have hserver := (h .received [.recv ⟨⟨1048, by decide⟩, [⟨1048, by decide⟩]⟩] []).1
  rw [EchoState.Framed] at hserver
  revert hserver
  decide

end OnDemandVirt.Migration
