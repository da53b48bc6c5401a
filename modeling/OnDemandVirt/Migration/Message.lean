import OnDemandVirt.Migration.Layout

/-!
# Messages and the sending side of the connection

A message (`bf_msg_t`) is 24 bytes of metadata and 1024 bytes of data. The client fills its two
message buffers, `msg` and `seq_msg`, and hands them to `tcp_write`, which copies them into the
connection's send queue or fails. The TCP stack decides how large `tcp_sndbuf` is at each pass of
a sending loop and whether the pass's `tcp_write` succeeds; both are inputs (`TcpAnswer`) here.
-/

namespace OnDemandVirt.Migration

/-- The protocol ids a migration uses, `unset` for the 0 of `bf_msg_init_msg`. -/
inductive ProtoId
  | unset | dataCpu | dataMem | dataReqMem | migDone | buffMem | dataMemSp
  deriving DecidableEq, Repr

/-- Guest-physical memory. -/
abbrev GuestMem := Nat → UInt8

/-- The data part of a message. -/
abbrev MsgData := Fin sizeSendbufData → UInt8

/-- `bf_msg_t`, as a `meta_data_mem` message. -/
structure BfMsg where
  protoId : ProtoId
  addrToMigrate : Nat
  batchNum : Nat
  batchSize : Nat
  data : MsgData

/-- `bf_msg_init_msg`. -/
def BfMsg.init : BfMsg := ⟨.unset, 0, 0, 0, fun _ => 0⟩

namespace BfMsg

/-- The message carries memory of the migrated machine. -/
def IsMem (m : BfMsg) : Prop :=
  m.protoId = .dataMem ∨ m.protoId = .dataReqMem ∨ m.protoId = .buffMem ∨ m.protoId = .dataMemSp

instance (m : BfMsg) : Decidable m.IsMem := inferInstanceAs (Decidable (_ ∨ _))

/-- The address its fields name: `addr_to_migrate + 1024 * batch_num`. -/
def target (m : BfMsg) : Nat := m.addrToMigrate + sizeSendbufData * m.batchNum

/-- The bytes the receiver copies out of the message. -/
def dataLen (m : BfMsg) : Nat := if m.protoId = .dataMemSp then 762 else sizeSendbufData

end BfMsg

/-- `memcpy (msg.data, src, len)`: the bytes from `len` on stay what they were. -/
def memcpyData (mem : GuestMem) (src len : Nat) (old : MsgData) : MsgData :=
  fun k => if k.val < len then mem (src + k.val) else old k

/-- `usable_vmem_list[area] + offset`, where `offset` is `(bytes into the area) >> 3` and the
list's entries are `u64` pointers into the direct map of physical memory. -/
def vmemAddr (area bytes : Nat) : Nat := (areaStart area + 8 * (bytes >>> 3)) % 2 ^ 64

/-- What the TCP stack answers in one pass of a sending loop. -/
structure TcpAnswer where
  /-- `tcp_sndbuf (pcb)`. -/
  sndbuf : Nat
  /-- The `tcp_write` of the pass succeeds. -/
  wrote : Bool

/-- `tcp_sendbuf_available`. `SIZE_OF_SENDBUF` is the macro `SEND_SIZE + 24` without parentheses,
so what is tested is `tcp_sndbuf - 1024 + 24 >= 0`. -/
def tcpSendbufAvailable (sndbuf : Nat) : Bool := decide (0 ≤ (sndbuf : Int) - sizeSendbufData + 24)

/-- The two functions that answer a request. -/
inductive ReplyFn
  | requested | disrupted
  deriving DecidableEq, Repr

/-- The functions the client registers with `tcp_sent`. -/
inductive SentFn
  | cpuRecvCallback | sendMargins | sendMargin | marginsSent
  | postcopyRequested (f : ReplyFn) | postcopyRequestedSent | migrationDoneSent
  deriving DecidableEq, Repr

/-- The functions that queue messages. -/
inductive Sender
  | echoClientSend | sendMargin | sendMarginLessThan1kb | postcopyRequested | sendMigrationDone
  deriving DecidableEq, Repr

/-- A queued message with the function that queued it. -/
structure Queued where
  by_ : Sender
  msg : BfMsg

/-- The client's connection: the registered `tcp_sent` callback, the bytes not yet acknowledged
and, as history, every message queued so far and every message that `tcp_write` refused. -/
structure TcpPcb where
  sent : SentFn
  unacked : Nat
  queue : List Queued
  refused : List Queued

namespace TcpPcb

/-- `tcp_sent`. -/
def tcpSent (p : TcpPcb) (f : SentFn) : TcpPcb := { p with sent := f }

/-- `tcp_write` of a message. -/
def tcpWrite (p : TcpPcb) (r : TcpAnswer) (q : Queued) : TcpPcb :=
  if r.wrote then { p with unacked := p.unacked + sizeOfSendbuf, queue := p.queue ++ [q] }
  else { p with refused := p.refused ++ [q] }

@[simp] theorem tcpSent_sent (p : TcpPcb) (f : SentFn) : (p.tcpSent f).sent = f := rfl

@[simp] theorem tcpSent_queue (p : TcpPcb) (f : SentFn) : (p.tcpSent f).queue = p.queue := rfl

@[simp] theorem tcpSent_refused (p : TcpPcb) (f : SentFn) : (p.tcpSent f).refused = p.refused := rfl

@[simp] theorem tcpSent_unacked (p : TcpPcb) (f : SentFn) : (p.tcpSent f).unacked = p.unacked := rfl

@[simp] theorem tcpWrite_sent (p : TcpPcb) (r : TcpAnswer) (q : Queued) :
    (p.tcpWrite r q).sent = p.sent := by
  unfold tcpWrite
  split <;> rfl

@[simp] theorem tcpWrite_queue (p : TcpPcb) (r : TcpAnswer) (q : Queued) :
    (p.tcpWrite r q).queue = p.queue ++ (if r.wrote then [q] else []) := by
  unfold tcpWrite
  split <;> simp

@[simp] theorem tcpWrite_refused (p : TcpPcb) (r : TcpAnswer) (q : Queued) :
    (p.tcpWrite r q).refused = p.refused ++ (if r.wrote then [] else [q]) := by
  unfold tcpWrite
  split <;> simp

@[simp] theorem tcpWrite_unacked (p : TcpPcb) (r : TcpAnswer) (q : Queued) :
    (p.tcpWrite r q).unacked = p.unacked + (if r.wrote then sizeOfSendbuf else 0) := by
  unfold tcpWrite
  split <;> simp

end TcpPcb

end OnDemandVirt.Migration
