import OnDemandVirt.Migration.Message
import OnDemandVirt.Lib.Loop
import OnDemandVirt.Lib.Machine

/-!
# The client: the machine being migrated

`echo-client.c`, as atomic steps: an acknowledgement runs the callback registered with
`tcp_sent`, a pass of `seq_transmit_thread` runs its loop body once, and a message of the server
runs `echo_client_recv`. Every sending loop has the shape
`while (tcp_sendbuf_available (tpcb)) { .. } fail_to_send = true`; its passes take their
`TcpAnswer`s from a list, and the end of the list is a full send buffer.

The variables are grouped by who uses them: margins and background units (`SeqState`), requests
and their replies (`ReqState`), the connection (`TcpPcb`) and the bit array they all share.
-/

namespace OnDemandVirt.Migration

open Lib

/-- `enum margin_type`: the margin that is sent or is next to be sent. -/
inductive MarginType
  | margin00 | margin01 | margin02 | margin03 | margin04 | margin05 | margin06sp | marginBuff
  | noMargin
  deriving DecidableEq, Repr

/-- The arms of `send_margin` that only move on to the next margin. -/
def MarginType.next : MarginType → Option MarginType
  | .margin00 => some .margin01
  | .margin01 => some .margin02
  | .margin02 => some .margin03
  | .margin03 => some .margin04
  | .margin04 => some .margin05
  | .margin05 => some .margin06sp
  | _ => none

/-- The position of a margin in the order they are sent in, and in `margin_list`. -/
def MarginType.index : MarginType → Nat
  | .margin00 => 0
  | .margin01 => 1
  | .margin02 => 2
  | .margin03 => 3
  | .margin04 => 4
  | .margin05 => 5
  | .margin06sp => 6
  | .marginBuff => 7
  | .noMargin => 8

/-- Where `seq_transmit_thread` stands. -/
inductive SeqThread
  | notCreated | running | exited
  deriving DecidableEq, Repr

/-- The variables of the margins and of the background copy. `started` is history that no function
reads: the start and the number of messages of every margin and unit that was set up. -/
structure SeqState where
  /-- `postcopy_state.start_addr`. -/
  startAddr : Nat
  /-- `postcopy_state.mem_area`. -/
  memArea : Nat
  /-- `postcopy_state.send_size`. -/
  sendSize : Nat
  /-- `postcopy_state.send_num`. -/
  sendNum : Nat
  /-- `postcopy_state.m_type`. -/
  mType : MarginType
  seqMsg : BfMsg
  /-- The static `batch` of `send_margin`. -/
  batch : Nat
  /-- The statics `margin00` to `margin_buff` of `send_margins`. -/
  called : MarginType → Bool
  /-- The static `start_addr` of `get_start_addr`. -/
  nextStart : Nat
  isTransmitting : Bool
  seqThreadIsTransmitting : Bool
  failToSendSeq : Bool
  migrationDone : Bool
  migrationDoneMsgSent : Bool
  thread : SeqThread
  started : List (Nat × Nat)

/-- The variables of the requests. `replying`, `started` and `served` are history that no function
reads: the reply in progress, the units of the replies that were begun and the addresses that
completed replies have sent. -/
structure ReqState where
  msg : BfMsg
  /-- The statics `batch` of `postcopy_requested` and of `postcopy_requested_disrupted`. -/
  batch : ReplyFn → Nat
  requestedAddr : Nat
  requestedOffset : Nat
  reqMemAreaNum : Nat
  noRequest : Bool
  requestRecvDisrupted : Bool
  /-- `fail_to_send_req` and `fail_to_send_req_dis`. -/
  failToSendReq : ReplyFn → Bool
  replying : Option ReplyFn
  started : List Nat
  served : List Nat

/-- The client's variables. -/
structure Client where
  /-- `virtio_recv_queue`. -/
  virtioRecvQueue : Nat
  bitarray : Nat → BitVec 64
  seq : SeqState
  req : ReqState
  tcp : TcpPcb

/-- `while (tcp_sendbuf_available (tpcb)) body` followed by `full`. -/
abbrev whileSendbuf : (TcpAnswer → Client → Client × Bool) → (Client → Client) →
    List TcpAnswer → Client → Client :=
  whileAvail fun r => tcpSendbufAvailable r.sndbuf

section
variable (mem : GuestMem)

/-! ### Answering requests -/

/-- `msg` with the next batch of the requested unit. -/
def replyMsg (f : ReplyFn) (q : ReqState) : BfMsg :=
  { q.msg with
    batchNum := q.batch f
    data := memcpyData mem
      (vmemAddr q.reqMemAreaNum ((q.requestedOffset + q.batch f * sizeSendbufData) % 2 ^ 64))
      sizeSendbufData q.msg.data }

/-- The end of a unit in `postcopy_requested` and `postcopy_requested_disrupted`; only the second
clears `request_recv_disrupted`. The result of `tcp_send_msg` is ignored. -/
def replyLast (f : ReplyFn) (r : TcpAnswer) (s : Client) : Client :=
  let m := { replyMsg mem f s.req with protoId := .dataReqMem }
  { s with
    tcp := (s.tcp.tcpSent .postcopyRequestedSent).tcpWrite r ⟨.postcopyRequested, m⟩
    bitarray := setBitarray s.bitarray s.req.requestedAddr
    req := { s.req with
      msg := m
      batch := Function.update s.req.batch f 0
      noRequest := true
      requestRecvDisrupted := if f = .disrupted then false else s.req.requestRecvDisrupted
      replying := none
      served := s.req.served ++ [s.req.msg.addrToMigrate] } }

/-- Any other batch of the unit. The result of `tcp_send_msg` is ignored here too. -/
def replyMore (f : ReplyFn) (r : TcpAnswer) (s : Client) : Client :=
  let m := replyMsg mem f s.req
  { s with
    tcp := (s.tcp.tcpSent (.postcopyRequested f)).tcpWrite r ⟨.postcopyRequested, m⟩
    req := { s.req with msg := m, batch := Function.update s.req.batch f (s.req.batch f + 1) } }

/-- One pass of the loop of the two reply functions. -/
def replyPass (f : ReplyFn) (r : TcpAnswer) (s : Client) : Client × Bool :=
  if batchSize ≤ s.req.batch f + 1 then (replyLast mem f r s, false) else (replyMore mem f r s, true)

/-- `fail_to_send_req = true`, `fail_to_send_req_dis = true`. -/
def setFailToSendReq (f : ReplyFn) (b : Bool) (s : Client) : Client :=
  { s with req := { s.req with failToSendReq := Function.update s.req.failToSendReq f b } }

/-- The two reply functions differ in the static counter they advance, the callback they register,
the flag they set when the send buffer is full, and in `replyLast`. -/
def reply (f : ReplyFn) : List TcpAnswer → Client → Client :=
  whileSendbuf (replyPass mem f) (setFailToSendReq f true)

/-- `postcopy_requested`. -/
def postcopyRequested : List TcpAnswer → Client → Client := reply mem .requested

/-- `postcopy_requested_disrupted`. -/
def postcopyRequestedDisrupted : List TcpAnswer → Client → Client := reply mem .disrupted

/-- What `request_recv` and `send_disrupted_addr` do before they call their reply function. -/
def startReply (f : ReplyFn) (s : Client) : Client :=
  let (num, addr, offset) := selectMemArea s.req.requestedAddr
  { s with
    tcp := s.tcp.tcpSent (.postcopyRequested f)
    req := { s.req with
      reqMemAreaNum := num
      requestedAddr := addr
      requestedOffset := offset
      msg := { s.req.msg with protoId := .dataMem, addrToMigrate := addr, batchSize := batchSize }
      noRequest := false
      replying := some f
      -- a request for the unit that is being answered begins no other reply
      started := if s.req.replying ≠ none ∧ s.req.msg.addrToMigrate = addr then s.req.started
        else s.req.started ++ [addr] } }

/-- `request_recv_disrupted = ..`. -/
def setDisrupted (b : Bool) (s : Client) : Client :=
  { s with req := { s.req with requestRecvDisrupted := b } }

/-- `requested_addr = ..`. -/
def setRequestedAddr (addr : Nat) (s : Client) : Client :=
  { s with req := { s.req with requestedAddr := addr } }

/-- `request_recv`. -/
def requestRecv (tcp : List TcpAnswer) (s : Client) : Client :=
  if getBitarray s.bitarray s.req.requestedAddr then s
  else if s.seq.seqThreadIsTransmitting then setDisrupted true s
  else postcopyRequested mem tcp (startReply .requested s)

/-- `send_disrupted_addr`. -/
def sendDisruptedAddr (tcp : List TcpAnswer) (s : Client) : Client :=
  if getBitarray s.bitarray s.req.requestedAddr then setDisrupted false s
  else postcopyRequestedDisrupted mem tcp (startReply .disrupted s)

/-- `echo_client_recv` on a `REQ_MEM` message. -/
def echoClientRecv (addr : Nat) (tcp : List TcpAnswer) (s : Client) : Client :=
  requestRecv mem tcp (setRequestedAddr addr s)

/-! ### Margins and background units -/

/-- `seq_msg` with the next batch of the margin or unit. -/
def seqMsgNext (t : SeqState) : BfMsg :=
  { t.seqMsg with
    batchNum := t.batch
    data := memcpyData mem
      (vmemAddr t.memArea
        ((t.startAddr + 2 ^ 64 - areaStart t.memArea + t.sendNum * sizeSendbufData) % 2 ^ 64))
      sizeSendbufData t.seqMsg.data }

/-- A batch of `send_margin` that is not the last one. -/
def marginMore (r : TcpAnswer) (s : Client) : Client :=
  let m := seqMsgNext mem s.seq
  { s with
    tcp := (s.tcp.tcpSent .sendMargin).tcpWrite r ⟨.sendMargin, m⟩
    seq := { s.seq with seqMsg := m, batch := s.seq.batch + 1, sendNum := s.seq.sendNum + 1 } }

/-- The last batch of one of the margins 0 to 5, with `margin_batch_end`. -/
def marginBatchEnd (next : MarginType) (r : TcpAnswer) (s : Client) : Client :=
  let m := seqMsgNext mem s.seq
  { s with
    bitarray := setBitarray s.bitarray s.seq.startAddr
    tcp := (s.tcp.tcpSent .sendMargins).tcpWrite r ⟨.sendMargin, m⟩
    seq := { s.seq with seqMsg := m, batch := 0, sendNum := s.seq.sendNum + 1, mType := next } }

/-- The last batch of the memory around the virtio ring. On an error the function returns before
`thread_new`. -/
def marginBuffEnd (r : TcpAnswer) (s : Client) : Client :=
  let m := { seqMsgNext mem s.seq with protoId := .buffMem }
  { s with
    bitarray := setBitarray s.bitarray s.seq.startAddr
    tcp := (s.tcp.tcpSent .marginsSent).tcpWrite r ⟨.sendMargin, m⟩
    seq := { s.seq with
      seqMsg := m
      batch := 0
      sendNum := s.seq.sendNum + 1
      mType := .noMargin
      thread := if r.wrote then .running else s.seq.thread } }

/-- The last batch of a background unit. On an error the function returns with both flags still
set. -/
def unitEnd (r : TcpAnswer) (s : Client) : Client :=
  let m := { seqMsgNext mem s.seq with
    protoId := if s.req.requestedAddr = s.seq.startAddr then .dataReqMem else s.seq.seqMsg.protoId }
  { s with
    tcp := (s.tcp.tcpSent .marginsSent).tcpWrite r ⟨.sendMargin, m⟩
    seq := { s.seq with
      seqMsg := m
      batch := 0
      sendNum := s.seq.sendNum + 1
      isTransmitting := if r.wrote then false else s.seq.isTransmitting
      seqThreadIsTransmitting := if r.wrote then false else s.seq.seqThreadIsTransmitting } }

/-- "no default happen": nothing is sent and the loop goes on. -/
def marginDefault (s : Client) : Client :=
  { s with
    seq := { s.seq with
      seqMsg := seqMsgNext mem s.seq, batch := s.seq.batch + 1, sendNum := s.seq.sendNum + 1 } }

/-- One pass of the loop of `send_margin`. -/
def sendMarginPass (r : TcpAnswer) (s : Client) : Client × Bool :=
  if s.seq.sendSize ≤ s.seq.sendNum + 1 then
    match s.seq.mType.next with
    | some next => (marginBatchEnd mem next r s, false)
    | none =>
      match s.seq.mType with
      | .marginBuff => (marginBuffEnd mem r s, false)
      | .noMargin => (unitEnd mem r s, false)
      | _ => (marginDefault mem s, true)
  else (marginMore mem r s, r.wrote)

/-- `fail_to_send_seq = true`. -/
def setFailToSendSeq (b : Bool) (s : Client) : Client :=
  { s with seq := { s.seq with failToSendSeq := b } }

/-- `send_margin`. -/
def sendMargin : List TcpAnswer → Client → Client :=
  whileSendbuf (sendMarginPass mem) (setFailToSendSeq true)

/-- `set_send_margin`. Where no usable area holds the range, `mem_area` stays what it was. -/
def setSendMargin (startAddr endAddr : Nat) (t : SeqState) : SeqState :=
  let n := (endAddr - startAddr + 1) / sizeSendbufData
  let n := if n = 0 then 1 else n
  { t with
    startAddr := startAddr
    sendSize := n
    sendNum := 0
    memArea := (usableMemList.findIdx? fun a =>
      decide (a.startAddr ≤ startAddr ∧ endAddr ≤ a.endAddr)).getD t.memArea
    seqMsg := { t.seqMsg with addrToMigrate := startAddr, batchSize := n }
    started := t.started ++ [(startAddr, n)] }

/-- `if (tcp_sendbuf_available (tpcb)) body`. -/
def ifSendbuf (body : TcpAnswer → Client → Client) : List TcpAnswer → Client → Client
  | [], s => s
  | r :: _, s => if tcpSendbufAvailable r.sndbuf then body r s else s

/-- `seq_msg` with the 762 bytes of the last margin. -/
def seqMsgLessThan1kb (t : SeqState) : BfMsg :=
  { t.seqMsg with
    batchNum := 0
    data := memcpyData mem
      (vmemAddr t.memArea ((t.startAddr + 2 ^ 64 - areaStart t.memArea) % 2 ^ 64)) 762
      t.seqMsg.data }

/-- What `send_margin_less_than_1kb` does when the send buffer has room. -/
def lessThan1kb (r : TcpAnswer) (s : Client) : Client :=
  let m := seqMsgLessThan1kb mem s.seq
  { s with
    tcp := (s.tcp.tcpSent .sendMargins).tcpWrite r ⟨.sendMarginLessThan1kb, m⟩
    seq := { s.seq with mType := .marginBuff, seqMsg := { m with protoId := .dataMem } } }

/-- `send_margin_less_than_1kb`. -/
def sendMarginLessThan1kb : List TcpAnswer → Client → Client := ifSendbuf (lessThan1kb mem)

/-- `virtio_queue64`: the start of the memory around the virtio ring. -/
def virtioQueue64 (virtioRecvQueue : Nat) : Nat := (virtioRecvQueue <<< 12) &&& 0xfffe0000

/-- The range of a margin in `send_margins`. -/
def marginRange (virtioRecvQueue : Nat) (t : MarginType) : Nat × Nat :=
  if t = .marginBuff then
    (virtioQueue64 virtioRecvQueue, virtioQueue64 virtioRecvQueue + 0x5ffff)
  else ((areaAt marginList t.index).startAddr, (areaAt marginList t.index).endAddr)

/-- The margin `t` set up by `send_margins`. -/
def startMargin (s : Client) : Client :=
  let t := s.seq.mType
  let range := marginRange s.virtioRecvQueue t
  { s with
    seq := setSendMargin range.1 range.2
      { s.seq with called := Function.update s.seq.called t true } }

/-- The margin smaller than 1KB set up by `send_margins`. -/
def startMarginLessThan1kb (s : Client) : Client :=
  let s := startMargin s
  { s with
    seq := { s.seq with
      sendSize := 1, seqMsg := { s.seq.seqMsg with protoId := .dataMemSp, batchSize := 1 } } }

/-- `send_margins`. -/
def sendMargins (tcp : List TcpAnswer) (s : Client) : Client :=
  if s.seq.mType = .noMargin ∨ s.seq.called s.seq.mType = true then s
  else if s.seq.mType = .margin06sp then sendMarginLessThan1kb mem tcp (startMarginLessThan1kb s)
  else sendMargin mem tcp (startMargin s)

/-- What `send_migration_done` does when the send buffer has room. -/
def migrationDoneMsg (r : TcpAnswer) (s : Client) : Client :=
  let m := { s.seq.seqMsg with protoId := .migDone }
  { s with
    tcp := (s.tcp.tcpSent .migrationDoneSent).tcpWrite r ⟨.sendMigrationDone, m⟩
    seq := { s.seq with seqMsg := m } }

/-- `send_migration_done`. -/
def sendMigrationDone : List TcpAnswer → Client → Client := ifSendbuf migrationDoneMsg

/-- The loop of `get_start_addr` over the units that were already sent, with fuel. -/
def skipSent (bits : Nat → BitVec 64) : Nat → Nat → Nat
  | 0, startAddr => startAddr
  | fuel + 1, startAddr =>
    if getBitarray bits startAddr then
      let startAddr := getNextAddr startAddr
      if startAddr = endOfMemory then endOfMemory else skipSent bits fuel startAddr
    else startAddr

/-- `get_start_addr`: the unit to send and the new value of its static `start_addr`. The fuel is
more than the units of `usable_mem_list_gran`. -/
def getStartAddr (bits : Nat → BitVec 64) (startAddr : Nat) : Nat × Nat :=
  if startAddr = endOfMemory then (endOfMemory, endOfMemory)
  else
    let ret := skipSent bits (2 ^ 20) startAddr
    if ret = endOfMemory then (endOfMemory, endOfMemory) else (ret, getNextAddr ret)

/-- The unit `startAddr` set up by `postcopy_seq_task`. -/
def startUnit (startAddr next : Nat) (s : Client) : Client :=
  let t := setSendMargin startAddr (startAddr + (addrOffset - 1)) s.seq
  { s with
    bitarray := setBitarray s.bitarray startAddr
    seq := { t with
      nextStart := next
      isTransmitting := true
      seqThreadIsTransmitting := true
      seqMsg := { t.seqMsg with protoId := .dataMem } } }

/-- The flags of the background copy when there is no unit left. -/
def noUnitLeft (s : Client) : Client :=
  { s with
    seq := { s.seq with
      nextStart := endOfMemory, isTransmitting := false, seqThreadIsTransmitting := false } }

/-- `migration_done = true`. -/
def setMigrationDone (s : Client) : Client := { s with seq := { s.seq with migrationDone := true } }

/-- The end of the background copy in `postcopy_seq_task`. -/
def finishSeqTask (tcp : List TcpAnswer) (s : Client) : Client :=
  setMigrationDone (sendMigrationDone tcp (noUnitLeft s))

/-- `postcopy_seq_task`. -/
def postcopySeqTask (tcp : List TcpAnswer) (s : Client) : Client :=
  let (startAddr, next) := getStartAddr s.bitarray s.seq.nextStart
  if startAddr = endOfMemory then finishSeqTask tcp s
  else sendMargin mem tcp (startUnit startAddr next s)

/-- The end of `seq_transmit_thread`. -/
def threadExit (s : Client) : Client := { s with seq := { s.seq with thread := .exited } }

/-- One pass of the loop of `seq_transmit_thread`. -/
def seqTransmitThread (tcp : List TcpAnswer) (s : Client) : Client :=
  if s.seq.migrationDone then
    if s.seq.migrationDoneMsgSent then threadExit s else sendMigrationDone tcp s
  else if s.req.noRequest then
    if s.seq.isTransmitting then
      if s.seq.failToSendSeq then sendMargin mem tcp (setFailToSendSeq false s) else s
    else if s.req.requestRecvDisrupted && !s.seq.seqThreadIsTransmitting then
      sendDisruptedAddr mem tcp s
    else postcopySeqTask mem tcp s
  else if s.req.requestRecvDisrupted then
    if s.req.failToSendReq .disrupted then
      postcopyRequestedDisrupted mem tcp (setFailToSendReq .disrupted false s)
    else s
  else if s.req.failToSendReq .requested then
    postcopyRequested mem tcp (setFailToSendReq .requested false s)
  else s

/-- The messages and the margin that `cpu_recv_callback` begins with. -/
def startMargins (s : Client) : Client :=
  { s with
    req := { s.req with msg := { s.req.msg with protoId := .dataMem } }
    seq := { s.seq with
      seqMsg := { s.seq.seqMsg with protoId := .dataMem }, mType := .margin00 } }

/-- `cpu_recv_callback`. -/
def cpuRecvCallback (tcp : List TcpAnswer) (s : Client) : Client :=
  sendMargins mem tcp (startMargins s)

/-- `migration_done_sent`. -/
def setMigrationDoneMsgSent (s : Client) : Client :=
  { s with seq := { s.seq with migrationDoneMsgSent := true } }

/-! ### The machine -/

/-- The callback registered with `tcp_sent`. -/
def sentCallback (tcp : List TcpAnswer) (s : Client) : Client :=
  match s.tcp.sent with
  | .cpuRecvCallback => cpuRecvCallback mem tcp s
  | .sendMargins => sendMargins mem tcp s
  | .sendMargin => sendMargin mem tcp s
  | .postcopyRequested f => reply mem f tcp s
  | .migrationDoneSent => setMigrationDoneMsgSent s
  | .marginsSent => s
  | .postcopyRequestedSent => s

/-- What can happen to the client. -/
inductive ClientEvent
  /-- `len` bytes are acknowledged and the registered callback runs. -/
  | ack (len : Nat) (tcp : List TcpAnswer)
  /-- A pass of `seq_transmit_thread`. -/
  | thread (tcp : List TcpAnswer)
  /-- The server's request for an address arrives. -/
  | request (addr : Nat) (tcp : List TcpAnswer)

/-- The answers of the TCP stack during the event. -/
def ClientEvent.tcp : ClientEvent → List TcpAnswer
  | .ack _ tcp => tcp
  | .thread tcp => tcp
  | .request _ tcp => tcp

/-- `len` bytes are no longer unacknowledged. -/
def Client.acked (len : Nat) (s : Client) : Client :=
  { s with tcp := { s.tcp with unacked := s.tcp.unacked - len } }

/-- What an event does. Only addresses of `vt_migration_range` are ever requested. -/
def Client.step (s : Client) : ClientEvent → Option Client
  | .ack len tcp =>
    if 0 < len ∧ len ≤ s.tcp.unacked then some (sentCallback mem tcp (s.acked len)) else none
  | .thread tcp => if s.seq.thread = .running then some (seqTransmitThread mem tcp s) else none
  | .request addr tcp =>
    if vtMigrationRange addr = true then some (echoClientRecv mem addr tcp s) else none

/-- `CPU_STATE_MEMORY_ADDR_POSTCOPY`. -/
abbrev cpuStateAddr : Nat := 0x49005000

/-- The message with the CPU state. -/
def cpuMsg : BfMsg :=
  { BfMsg.init with
    protoId := .dataCpu, data := memcpyData mem cpuStateAddr sizeSendbufData BfMsg.init.data }

/-- `echo_client_init` followed by `echo_client_send_postcopy_migration`, which queues the CPU
state and registers `cpu_recv_callback`. -/
def Client.start (virtioRecvQueue : Nat) (r : TcpAnswer) : Client where
  virtioRecvQueue := virtioRecvQueue
  bitarray := fun _ => 0
  seq :=
    { startAddr := 0, memArea := 0, sendSize := 0, sendNum := 0, mType := .margin00
      seqMsg := BfMsg.init, batch := 0, called := fun _ => false, nextStart := 0
      isTransmitting := false, seqThreadIsTransmitting := false, failToSendSeq := false
      migrationDone := false, migrationDoneMsgSent := false, thread := .notCreated, started := [] }
  req :=
    { msg := cpuMsg mem, batch := fun _ => 0, requestedAddr := 0xffffffffffffffff
      requestedOffset := 0, reqMemAreaNum := 0, noRequest := false, requestRecvDisrupted := false
      failToSendReq := fun _ => false, replying := none, started := [], served := [] }
  tcp := (TcpPcb.mk .cpuRecvCallback 0 [] []).tcpWrite r ⟨.echoClientSend, cpuMsg mem⟩

/-- The client as a machine, for any `virtio_recv_queue` (a `u32`). -/
def clientMachine : Machine Client ClientEvent where
  init s := ∃ q r, q < 2 ^ 32 ∧ s = Client.start mem q r
  step s e := s.step mem e

theorem reachable_start {q : Nat} (hq : q < 2 ^ 32) (r : TcpAnswer) :
    (clientMachine mem).Reachable (Client.start mem q r) :=
  .init ⟨q, r, hq, rfl⟩

end

end OnDemandVirt.Migration
