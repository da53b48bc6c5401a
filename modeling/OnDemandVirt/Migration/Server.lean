import OnDemandVirt.Migration.Agreement
import OnDemandVirt.Migration.Content
import OnDemandVirt.Migration.Framing

/-!
# The server: the machine a migration goes to

`echo_recv` of `echo-server.c` on the messages of a migration, the fault handler of `vt_ept.c` with
its wait for the requested unit, and the end of `postcopy_migration_ready_vmmcall`. A pbuf holds one
message here: what happens to other pbufs is said in `Migration.Framing`. Of a chain only the first
pbuf is looked at, and the first chain of the connection is kept until the next one arrives.

`mmio_lock` is held from the fault to the mapping of its page, so one fault waits at a time.
-/

namespace OnDemandVirt.Migration

/-! ### State -/

/-- Where the guest's processors stand: in the loop of `postcopy_migration_ready_vmmcall`, in the
guest, or one of them in the loop of `vt_ept_violation`. -/
inductive Vcpu
  | stopped
  | running
  | waiting (gphys : Nat)
  deriving DecidableEq, Repr

/-- The variables of `echo-server.c` and the flags it shares with `vt_ept.c` and
`vmmcall_postcopy_migration_ready.c`. `acted` and `mapped` are history that no function reads: the
messages that `echo_recv` acted on and the faults whose page was mapped. -/
structure Server where
  /-- The memory, which `vmem_for_cpu` and `usable_vmem_list` map. -/
  mem : GuestMem
  bitarray : Nat → BitVec 64
  memAreaNum : Nat
  /-- `es->state`. -/
  state : EchoStates
  /-- The chain `es->p`. -/
  p : List BfMsg
  eptRecved : Bool
  /-- `aft_mig_in_mmio`. -/
  aftMig : Bool
  stopValue : Bool
  vcpu : Vcpu
  acted : List BfMsg
  mapped : List Nat

/-- The server before the first message, in `postcopy_migration_ready_vmmcall`. -/
def Server.start (mem : GuestMem) : Server :=
  { mem := mem, bitarray := fun _ => 0, memAreaNum := 0, state := .accepted, p := []
    eptRecved := false, aftMig := false, stopValue := true, vcpu := .stopped, acted := []
    mapped := [] }

/-! ### Receiving -/

/-- `memcpy (dst, msg.data, len)`. -/
def memcpyMem (mem : GuestMem) (dst : Nat) (data : MsgData) (len : Nat) : GuestMem := fun x =>
  if h : x - dst < sizeSendbufData then
    if dst ≤ x ∧ x - dst < len then data ⟨x - dst, h⟩ else mem x
  else mem x

/-- `usable_vmem_list[mem_area_num] + offset` for a message; the product of `batch_num` is an
`unsigned int`. -/
def recvPtr (m : BfMsg) : Nat :=
  vmemAddr (setMemAreaNum m.addrToMigrate)
    ((m.addrToMigrate + 2 ^ 64 - areaStart (setMemAreaNum m.addrToMigrate) +
      m.batchNum * sizeSendbufData % 2 ^ 32) % 2 ^ 64)

/-- The message is the last one of its batch: `batch_size - 1 == batch_num`, for `unsigned int`s. -/
def BfMsg.lastOfBatch (m : BfMsg) : Bool := m.batchSize == (m.batchNum + 1) % 2 ^ 32

namespace Server

/-- `set_mem_area_num` and the copy. -/
def store (m : BfMsg) (len : Nat) (s : Server) : Server :=
  { s with
    memAreaNum := setMemAreaNum m.addrToMigrate
    mem := memcpyMem s.mem (recvPtr m) m.data len }

/-- `set_bitarray`. -/
def setBit (gphys : Nat) (s : Server) : Server :=
  { s with bitarray := setBitarray s.bitarray gphys }

/-- The part of `echo_recv` that depends on the message. The processors leave the loop of
`postcopy_migration_ready_vmmcall` when a `BUFF_MEM` message clears `stop_value`. -/
def handle (m : BfMsg) (s : Server) : Server :=
  match m.protoId with
  | .dataCpu => { s with mem := memcpyMem s.mem cpuStateAddr m.data sizeSendbufData }
  | .dataReqMem => setBit m.addrToMigrate { store m sizeSendbufData s with eptRecved := true }
  | .dataMem =>
    if m.lastOfBatch then setBit m.addrToMigrate (store m sizeSendbufData s)
    else store m sizeSendbufData s
  | .buffMem =>
    if m.lastOfBatch then
      { setBit 0x87fcd000 (setBit 0x86b35000 (setBit m.addrToMigrate (store m sizeSendbufData s)))
        with stopValue := false }
    else { store m sizeSendbufData s with stopValue := false }
  | .dataMemSp => setBit m.addrToMigrate (store m 762 s)
  | .migDone => { s with aftMig := false }
  | .unset => s

/-- `echo_recv` acts on a message. -/
def act (m : BfMsg) (s : Server) : Server := { handle m s with acted := s.acted ++ [m] }

/-- `echo_recv` on a chain of messages. -/
def echoRecv (chain : List BfMsg) (s : Server) : Server :=
  match s.state with
  | .accepted => { s with state := .received, p := chain }
  | .received =>
    match s.p ++ chain with
    | [] => s
    | m :: _ => { act m s with p := [] }

/-- `echo_poll` with room for `n` pbufs: they leave the kept chain and are sent back. -/
def poll (n : Nat) (s : Server) : Server := { s with p := s.p.drop n }

/-! ### Faults -/

/-- The end of `postcopy_migration_ready_vmmcall`. -/
def resume (s : Server) : Server := { s with aftMig := true, vcpu := .running }

/-- `vt_ept_violation` on a page without an MMIO handler, up to its loop, with
`echo_server_reply_request`. -/
def eptViolation (gphys : Nat) (s : Server) : Server :=
  if s.aftMig && vtMigrationRange gphys then
    { s with
      eptRecved := s.eptRecved || getBitarray s.bitarray gphys
      vcpu := .waiting gphys }
  else { s with mapped := s.mapped ++ [gphys] }

/-- `echo_server_reply_request` writes a request to the connection. -/
def requests (gphys : Nat) (s : Server) : Bool :=
  s.aftMig && vtMigrationRange gphys && !getBitarray s.bitarray gphys

/-- The rest of `vt_ept_violation` once its loop has ended. -/
def mapPage (gphys : Nat) (s : Server) : Server :=
  { s with mapped := s.mapped ++ [gphys], eptRecved := false, vcpu := .running }

end Server

/-! ### What a message changes -/

/-- The message writes the byte. -/
def BfMsg.Writes (m : BfMsg) (x : Nat) : Prop :=
  (m.protoId = .dataCpu ∧ cpuStateAddr ≤ x ∧ x < cpuStateAddr + sizeSendbufData) ∨
    (m.IsMem ∧ m.target ≤ x ∧ x < m.target + m.dataLen)

/-- The message has the address and the counter that a client gives it. -/
structure BfMsg.Addressed (m : BfMsg) : Prop where
  aligned : m.addrToMigrate % 8 = 0
  bound : m.addrToMigrate + sizeSendbufData * m.batchNum < 2 ^ 64
  batch : sizeSendbufData * m.batchNum < 2 ^ 32

/-- The message sets the bit of its unit. -/
def BfMsg.Ends (m : BfMsg) : Prop :=
  m.protoId = .dataReqMem ∨ m.protoId = .dataMemSp ∨
    ((m.protoId = .dataMem ∨ m.protoId = .buffMem) ∧ m.lastOfBatch = true)

/-- The message sets the bit of the byte's unit. -/
def BfMsg.SetsBit (m : BfMsg) (x : Nat) : Prop :=
  m.Ends ∧ (SameUnit x m.addrToMigrate ∨
    (m.protoId = .buffMem ∧ (SameUnit x 0x86b35000 ∨ SameUnit x 0x87fcd000)))

theorem BfMsg.Ends.isMem {m : BfMsg} (h : m.Ends) : m.IsMem := by
  rcases h with h | h | ⟨h | h, -⟩
  · exact .inr (.inl h)
  · exact .inr (.inr (.inr h))
  · exact .inl h
  · exact .inr (.inr (.inl h))

theorem memcpyMem_of_mem {mem : GuestMem} {dst len x : Nat} {data : MsgData} (hge : dst ≤ x)
    (hlt : x - dst < len) (hsize : x - dst < sizeSendbufData) :
    memcpyMem mem dst data len x = data ⟨x - dst, hsize⟩ := by
  rw [memcpyMem, dif_pos hsize, if_pos ⟨hge, hlt⟩]

theorem memcpyMem_of_outside {mem : GuestMem} {dst len x : Nat} {data : MsgData}
    (h : x < dst ∨ dst + len ≤ x) : memcpyMem mem dst data len x = mem x := by
  have hnot : ¬ (dst ≤ x ∧ x - dst < len) := by omega
  simp only [memcpyMem, if_neg hnot, dite_eq_ite, ite_self]

theorem BfMsg.dataLen_le (m : BfMsg) : m.dataLen ≤ sizeSendbufData := by
  unfold BfMsg.dataLen
  split <;> decide

/-- Where the message is copied to is where it says that its bytes come from. -/
theorem recvPtr_eq {m : BfMsg} (h : m.Addressed) : recvPtr m = m.target := by
  have hbatch : m.batchNum * sizeSendbufData % 2 ^ 32 = sizeSendbufData * m.batchNum := by
    rw [Nat.mul_comm, Nat.mod_eq_of_lt h.batch]
  have hoff : sizeSendbufData * m.batchNum % 8 = 0 := by
    simp only [sizeSendbufData]
    omega
  rw [recvPtr, hbatch, vmemAddr_offset h.aligned hoff h.bound, BfMsg.target]

namespace Server

variable (m : BfMsg) (s : Server)

-- the server is taken apart first, so that no two states are compared field by field

/-- What a message leaves alone. -/
theorem handle_frame : (handle m s).vcpu = s.vcpu ∧ (handle m s).mapped = s.mapped ∧
    (handle m s).acted = s.acted ∧ (handle m s).p = s.p ∧ (handle m s).state = s.state := by
  cases s
  unfold handle
  cases m.protoId
  case dataMem => cases m.lastOfBatch <;> exact ⟨rfl, rfl, rfl, rfl, rfl⟩
  case buffMem => cases m.lastOfBatch <;> exact ⟨rfl, rfl, rfl, rfl, rfl⟩
  all_goals exact ⟨rfl, rfl, rfl, rfl, rfl⟩

/-- `ept_recved` is set by the last message of a reply, `aft_mig_in_mmio` cleared by the message
that ends the migration, and the processors are let go by a `BUFF_MEM` message. -/
theorem handle_flags : (handle m s).eptRecved = (s.eptRecved || decide (m.protoId = .dataReqMem)) ∧
    (handle m s).aftMig = (s.aftMig && decide (m.protoId ≠ .migDone)) ∧
    (handle m s).stopValue = (s.stopValue && decide (m.protoId ≠ .buffMem)) := by
  cases s
  unfold handle
  cases m.protoId
  case dataMem => cases m.lastOfBatch <;> simp [store, setBit]
  case buffMem => cases m.lastOfBatch <;> simp [store, setBit]
  all_goals simp [store, setBit]

/-- The memory after a message. -/
theorem handle_mem : (handle m s).mem =
    if m.protoId = .dataCpu then memcpyMem s.mem cpuStateAddr m.data sizeSendbufData
    else if m.IsMem then memcpyMem s.mem (recvPtr m) m.data m.dataLen
    else s.mem := by
  cases s
  unfold handle
  cases hproto : m.protoId
  case dataMem => cases m.lastOfBatch <;> simp [hproto, BfMsg.IsMem, BfMsg.dataLen, store, setBit]
  case buffMem => cases m.lastOfBatch <;> simp [hproto, BfMsg.IsMem, BfMsg.dataLen, store, setBit]
  all_goals simp [hproto, BfMsg.IsMem, BfMsg.dataLen, store, setBit]

/-- The bit array after a message. -/
theorem handle_bitarray (hends : m.Ends) : (handle m s).bitarray =
    if m.protoId = .buffMem then
      setBitarray (setBitarray (setBitarray s.bitarray m.addrToMigrate) 0x86b35000) 0x87fcd000
    else setBitarray s.bitarray m.addrToMigrate := by
  cases s
  unfold handle
  rcases hends with hproto | hproto | ⟨hproto | hproto, hlast⟩
  all_goals simp [hproto, store, setBit]
  all_goals simp [hlast]

theorem handle_bitarray_of_not_ends (hends : ¬ m.Ends) : (handle m s).bitarray = s.bitarray := by
  cases s
  unfold handle
  unfold BfMsg.Ends at hends
  cases hproto : m.protoId
  case dataMem => simp_all [store]
  case buffMem => simp_all [store]
  case dataReqMem => exact absurd (.inl hproto) hends
  case dataMemSp => exact absurd (.inr (.inl hproto)) hends
  all_goals rfl

variable {m s}

/-- A message leaves the bytes that it does not write as they are. -/
theorem handle_mem_of_not_writes (h : m.IsMem → m.Addressed) {x : Nat} (hx : ¬ m.Writes x) :
    (handle m s).mem x = s.mem x := by
  rw [handle_mem]
  split_ifs with hcpu hmem
  · have hout : ¬ (cpuStateAddr ≤ x ∧ x < cpuStateAddr + sizeSendbufData) :=
      fun hin => hx (.inl ⟨hcpu, hin⟩)
    exact memcpyMem_of_outside (by omega)
  · have hout : ¬ (m.target ≤ x ∧ x < m.target + m.dataLen) := fun hin => hx (.inr ⟨hmem, hin⟩)
    rw [recvPtr_eq (h hmem)]
    exact memcpyMem_of_outside (by omega)
  · rfl

/-- The bits that a message sets. -/
theorem handle_bit (h : m.Ends → m.addrToMigrate < 2 ^ 53) {u : Nat}
    (hu : getBitarray (handle m s).bitarray u = true) :
    getBitarray s.bitarray u = true ∨ m.SetsBit u := by
  by_cases hends : m.Ends
  · have hset : getBitarray (setBitarray s.bitarray m.addrToMigrate) u = true →
        getBitarray s.bitarray u = true ∨ SameUnit u m.addrToMigrate := fun hbit => by
      rw [getBitarray_set _ _ _ (h hends), Bool.or_eq_true, decide_eq_true_eq] at hbit
      exact hbit.symm
    rw [handle_bitarray m s hends] at hu
    split_ifs at hu with hbuff
    · rw [getBitarray_set _ _ _ (by norm_num), Bool.or_eq_true, decide_eq_true_eq,
        getBitarray_set _ _ _ (by norm_num), Bool.or_eq_true, decide_eq_true_eq] at hu
      rcases hu with hu | hu | hu
      · exact .inr ⟨hends, .inr ⟨hbuff, .inr hu⟩⟩
      · exact .inr ⟨hends, .inr ⟨hbuff, .inl hu⟩⟩
      · exact (hset hu).imp_right fun hu => ⟨hends, .inl hu⟩
    · exact (hset hu).imp_right fun hu => ⟨hends, .inl hu⟩
  · rw [handle_bitarray_of_not_ends m s hends] at hu
    exact .inl hu

/-- No bit is cleared. -/
theorem handle_bit_mono {u : Nat} (h : getBitarray s.bitarray u = true) :
    getBitarray (handle m s).bitarray u = true := by
  by_cases hends : m.Ends
  · rw [handle_bitarray m s hends]
    split_ifs
    · exact getBitarray_set_mono _ (getBitarray_set_mono _ (getBitarray_set_mono _ h))
    · exact getBitarray_set_mono _ h
  · rwa [handle_bitarray_of_not_ends m s hends]

/-- The last message of a unit sets its bit. -/
theorem handle_bit_self (hends : m.Ends) (h : m.addrToMigrate < 2 ^ 53) {u : Nat}
    (hu : SameUnit u m.addrToMigrate) : getBitarray (handle m s).bitarray u = true := by
  have hset : getBitarray (setBitarray s.bitarray m.addrToMigrate) u = true := by
    rw [getBitarray_set _ _ _ h, Bool.or_eq_true, decide_eq_true_eq]
    exact .inl hu
  rw [handle_bitarray m s hends]
  split_ifs
  · exact getBitarray_set_mono _ (getBitarray_set_mono _ hset)
  · exact hset

end Server

end OnDemandVirt.Migration
