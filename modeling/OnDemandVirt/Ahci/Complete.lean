import Mathlib.Data.List.FinRange
import OnDemandVirt.Ahci.Start
import OnDemandVirt.Lib.Machine
import OnDemandVirt.Lib.Numerals

/-!
# Completing slots

`ahci_cmd_complete` reads the length of the scatter list and its entries again. Whether it comes
through depends on how the second reading agrees with what was allocated at the start
(`completion_fault_iff`). A run of a port is any order of `ahci_cmd_start`, `ahci_cmd_complete`,
`ahci_cmd_cancel`, the device and the guest, where every reading is whatever the guest has written.
-/

namespace OnDemandVirt.Ahci

open Lib Storage Ata

/-! ### The loops over the slots -/

/-- `NUM_OF_COMMAND_HEADER`. -/
abbrev numOfCommandHeader : Nat := 32

/-- A bit of each slot, as in `shadowbit`, `PxCI` and `PxSACT`. -/
abbrev SlotBits := Fin numOfCommandHeader → Bool

/-- `struct ahci_port`. -/
structure Port where
  slots : Fin numOfCommandHeader → Slot
  shadowbit : SlotBits
  device : PortDevice

/-- A completion that was made: what it started from. -/
structure Completed where
  index : Fin numOfCommandHeader
  slot : Slot
  device : PortDevice
  reading : CompleteReading
  mem : ByteMem

/-- What it did. -/
def Completed.result (c : Completed) : Completion :=
  ahciCmdCompleteSlot c.device c.reading c.mem c.slot

/-- What has become of a command. -/
inductive Outcome
  | running
  | cancelled
  | completed (done : Completed)

/-- A command: what it was started from, and what has become of it. -/
structure Issued where
  reading : StartReading
  device : PortDevice
  mem : ByteMem
  outcome : Outcome

/-- A port in a run: the guest's memory, the completions so far, the last one first, the last
command of each slot, and what has stopped the VMM. -/
structure PortRun where
  port : Port
  mem : ByteMem
  log : List Completed
  issued : Fin numOfCommandHeader → Option Issued
  stopped : Option Fault

namespace PortRun

/-- `ahci_cmd_start` for the slot `i`. -/
def startSlot (reads : Fin numOfCommandHeader → StartReading) (pxci : SlotBits) (s : PortRun)
    (i : Fin numOfCommandHeader) : PortRun :=
  if s.stopped.isNone && pxci i then
    match ahciCmdStartSlot s.port.device (reads i) s.mem (s.port.slots i) with
    | .error f => { s with stopped := some f }
    | .ok slot =>
      if s.port.shadowbit i then { s with stopped := some .assertion }
      else
        { s with
          port := { s.port with
            slots := Function.update s.port.slots i slot
            shadowbit := Function.update s.port.shadowbit i true }
          issued := Function.update s.issued i
            (some ⟨reads i, s.port.device, s.mem, .running⟩) }
  else s

/-- `ahci_cmd_start`. -/
def ahciCmdStart (reads : Fin numOfCommandHeader → StartReading) (pxci : SlotBits) (s : PortRun) :
    PortRun :=
  (List.finRange numOfCommandHeader).foldl (startSlot reads pxci) s

/-- A slot with a command that is no longer issued or active. -/
def Completes (pxsact pxci : SlotBits) (s : PortRun) (i : Fin numOfCommandHeader) : Prop :=
  s.port.shadowbit i = true ∧ pxci i = false ∧ pxsact i = false

instance (pxsact pxci : SlotBits) (s : PortRun) (i : Fin numOfCommandHeader) :
    Decidable (s.Completes pxsact pxci i) := inferInstanceAs (Decidable (_ ∧ _))

/-- `ahci_cmd_complete` for the slot `i`. -/
def completeSlot (reads : Fin numOfCommandHeader → CompleteReading) (pxsact pxci : SlotBits)
    (s : PortRun) (i : Fin numOfCommandHeader) : PortRun :=
  if s.stopped.isNone ∧ s.Completes pxsact pxci i then
    let done : Completed := ⟨i, s.port.slots i, s.port.device, reads i, s.mem⟩
    { port :=
        { slots := Function.update s.port.slots i done.result.slot
          shadowbit := Function.update s.port.shadowbit i false
          device := done.result.device }
      mem := done.result.mem
      log := done :: s.log
      issued := Function.update s.issued i
        ((s.issued i).map fun c => { c with outcome := .completed done })
      stopped := done.result.fault }
  else s

/-- `ahci_cmd_complete`. -/
def ahciCmdComplete (reads : Fin numOfCommandHeader → CompleteReading) (pxsact pxci : SlotBits)
    (s : PortRun) : PortRun :=
  (List.finRange numOfCommandHeader).foldl (completeSlot reads pxsact pxci) s

/-- `ahci_cmd_cancel`. -/
def ahciCmdCancel (s : PortRun) : PortRun :=
  { s with
    port := { s.port with
      slots i := if s.port.shadowbit i then { s.port.slots i with dmabuf := none }
        else s.port.slots i
      shadowbit _ := false }
    issued i := if s.port.shadowbit i then (s.issued i).map fun c => { c with outcome := .cancelled }
      else s.issued i }

/-- The device writes into the buffer of a slot. -/
def deviceWrite (i : Fin numOfCommandHeader) (data : ByteMem) (s : PortRun) : PortRun :=
  let slot := { s.port.slots i with
    dmabuf := (s.port.slots i).dmabuf.map fun buf => data.read 0 buf.length }
  { s with port := { s.port with slots := Function.update s.port.slots i slot } }

end PortRun

/-- What happens to a port. -/
inductive PortEvent
  | start (reads : Fin numOfCommandHeader → StartReading) (pxci : SlotBits)
  | complete (reads : Fin numOfCommandHeader → CompleteReading) (pxsact pxci : SlotBits)
  | cancel
  | device (i : Fin numOfCommandHeader) (data : ByteMem)
  /-- The guest writes its memory. -/
  | guest (mem : ByteMem)

/-- The runs of a port, from the initialization on. -/
def portMachine : Machine PortRun PortEvent where
  init s := (∀ i, s.port.slots i = .initial) ∧ (∀ i, s.port.shadowbit i = false) ∧ s.log = [] ∧
    (∀ i, s.issued i = none) ∧ s.stopped = none
  step s e :=
    if s.stopped.isSome then none
    else some <| match e with
      | .start reads pxci => s.ahciCmdStart reads pxci
      | .complete reads pxsact pxci => s.ahciCmdComplete reads pxsact pxci
      | .cancel => s.ahciCmdCancel
      | .device i data => s.deviceWrite i data
      | .guest mem => { s with mem := mem }

/-! ### Copying back -/

theorem copied_copyToGuest_le (prdt : List Prd) (remain : Nat) (buf : List (BitVec 8))
    (mem : ByteMem) : (copyToGuest prdt remain buf mem).copied ≤ remain := by
  induction prdt generalizing remain buf mem with
  | nil => exact Nat.zero_le _
  | cons prd prdt ih =>
    rw [copyToGuest]
    split
    · next hle =>
      have := ih (remain - prd.len) (buf.drop prd.len) (mem.write prd.phys (buf.take prd.len))
      simp only
      omega
    · exact Nat.zero_le _

theorem copyToGuest_ok_iff (prdt : List Prd) (remain : Nat) (buf : List (BitVec 8))
    (mem : ByteMem) : (copyToGuest prdt remain buf mem).ok = true ↔ totalLen prdt = remain := by
  induction prdt generalizing remain buf mem with
  | nil => rw [copyToGuest, beq_iff_eq]; exact eq_comm
  | cons prd prdt ih =>
    have hlen : totalLen (prd :: prdt) = prd.len + totalLen prdt := ScatterList.len_cons _ _ _
    rw [copyToGuest, hlen]
    split
    · next hle =>
      rw [ih]
      omega
    · next hlt => exact ⟨fun h => (by cases h), fun h => by omega⟩

/-- A copy that comes through is what the scatter list says. -/
theorem mem_copyToGuest {prdt : List Prd} {remain : Nat} {buf : List (BitVec 8)} {mem : ByteMem}
    (h : (copyToGuest prdt remain buf mem).ok = true) :
    (copyToGuest prdt remain buf mem).mem = (buffers prdt).scatter buf mem := by
  induction prdt generalizing remain buf mem with
  | nil => rfl
  | cons prd prdt ih =>
    rw [copyToGuest] at h ⊢
    split at h
    · next hle =>
      rw [if_pos hle]
      exact ih h
    · cases h

/-! ### One completion -/

/-- What every slot keeps to: the buffer has the length that is noted, and the sectors of a read or
write command are a number of cipher blocks. -/
structure Slot.Sound (slot : Slot) : Prop where
  length : ∀ buf, slot.dmabuf = some buf → buf.length = slot.dmabuflen
  blocks : slot.info.rwflag = true → aesBlkBytes ∣ slot.info.ssiz

theorem Slot.Sound.initial : Slot.initial.Sound where
  length buf h := by cases h
  blocks h := by cases h

/-- The second reading agrees with what the slot was started with: there is a scatter list exactly
where there is a buffer, and for a read it has the bytes of the buffer. -/
def Agrees (slot : Slot) (r : CompleteReading) : Prop :=
  (r.prdtl = 0 ↔ slot.dmabuf = none) ∧
    (slot.hdr.w = false → r.prdtl ≠ 0 → totalLen (entries r.prdt r.prdtl) = slot.dmabuflen)

variable {device : PortDevice} {slot : Slot}

theorem ahciCmdPosthook_some (hs : slot.Sound) {buf : List (BitVec 8)}
    (hbuf : slot.dmabuf = some buf) : ∃ device' buf', buf'.length = buf.length ∧
      ahciCmdPosthook device slot = .ok (device', { slot with dmabuf := some buf' }) := by
  have hself : slot = { slot with dmabuf := some buf } := by
    rw [← hbuf]
  rw [ahciCmdPosthook]
  split
  · next hid =>
    have hcheck : ∃ device', ahciIdentityCheck device slot = .ok device' := by
      rw [ahciIdentityCheck, hbuf]
      cases hident : slot.info.identify with
      | none => exact absurd hident hid
      | device => exact ⟨_, rfl⟩
      | packet =>
        simp only
        split
        · exact ⟨_, rfl⟩
        · exact ⟨_, rfl⟩
    obtain ⟨device', hdevice⟩ := hcheck
    rw [hdevice]
    exact ⟨device', buf, rfl, congrArg (fun s => Except.ok (device', s)) hself⟩
  · split
    · next hrw =>
      obtain ⟨buf', hok, hlen⟩ := handleBuffer_ok device .read
        (hs.blocks (Bool.and_eq_true_iff.mp hrw).1) buf
      rw [hbuf]
      simp only [hok]
      exact ⟨device, buf', hlen, rfl⟩
    · exact ⟨device, buf, rfl, congrArg (fun s => Except.ok (device, s)) hself⟩

theorem ahciCmdPosthook_none (hbuf : slot.dmabuf = none) {device' : PortDevice} {slot' : Slot}
    (h : ahciCmdPosthook device slot = .ok (device', slot')) : slot'.dmabuf = none := by
  rw [ahciCmdPosthook] at h
  split at h
  · cases hcheck : ahciIdentityCheck device slot with
    | error f => rw [hcheck] at h; cases h
    | ok d =>
      rw [hcheck] at h
      cases h
      exact hbuf
  · split at h
    · rw [hbuf] at h
      cases h
    · cases h
      exact hbuf

/-- The copy that completing a slot makes from the shadow buffer `buf`. -/
def Slot.copyBack (slot : Slot) (r : CompleteReading) (mem : ByteMem) (buf : List (BitVec 8)) :
    CopyResult :=
  if slot.hdr.w then ⟨mem, 0, true⟩
  else copyToGuest (entries r.prdt r.prdtl) slot.dmabuflen buf mem

theorem copied_copyBack_le (r : CompleteReading) (mem : ByteMem) (buf : List (BitVec 8)) :
    (slot.copyBack r mem buf).copied ≤ slot.dmabuflen := by
  rw [Slot.copyBack]
  split
  · exact Nat.zero_le _
  · exact copied_copyToGuest_le _ _ _ _

theorem copyBack_ok_iff (r : CompleteReading) (mem : ByteMem) (buf : List (BitVec 8)) :
    (slot.copyBack r mem buf).ok = true ↔
      (slot.hdr.w = false → totalLen (entries r.prdt r.prdtl) = slot.dmabuflen) := by
  rw [Slot.copyBack]
  cases slot.hdr.w with
  | true => simp
  | false => simp [copyToGuest_ok_iff]

/-- A completion with a scatter list and a buffer. -/
theorem completeSlot_some (hs : slot.Sound) {r : CompleteReading} (hprdtl : r.prdtl ≠ 0)
    (mem : ByteMem) {buf : List (BitVec 8)} (hbuf : slot.dmabuf = some buf) :
    ∃ device' buf', ahciCmdPosthook device slot = .ok (device', { slot with dmabuf := some buf' }) ∧
      ahciCmdCompleteSlot device r mem slot =
        if (slot.copyBack r mem buf').ok then
          ⟨{ slot with dmabuf := none }, device', (slot.copyBack r mem buf').mem,
            (slot.copyBack r mem buf').copied, none⟩
        else ⟨{ slot with dmabuf := some buf' }, device', (slot.copyBack r mem buf').mem,
            (slot.copyBack r mem buf').copied, some .assertion⟩ := by
  obtain ⟨device', buf', -, hhook⟩ := ahciCmdPosthook_some hs hbuf
  refine ⟨device', buf', hhook, ?_⟩
  rw [ahciCmdCompleteSlot, if_pos hprdtl, hhook]
  rfl

theorem completeSlot_zero {r : CompleteReading} (hprdtl : r.prdtl = 0) (mem : ByteMem) :
    ahciCmdCompleteSlot device r mem slot =
      ⟨slot, device, mem, 0, if slot.dmabuf.isNone then none else some .assertion⟩ := by
  rw [ahciCmdCompleteSlot, if_neg (not_not.mpr hprdtl)]

theorem completeSlot_none {r : CompleteReading} (hprdtl : r.prdtl ≠ 0) (mem : ByteMem)
    (hbuf : slot.dmabuf = none) :
    (ahciCmdCompleteSlot device r mem slot).copied = 0 ∧
      (ahciCmdCompleteSlot device r mem slot).fault ≠ none := by
  rw [ahciCmdCompleteSlot, if_pos hprdtl]
  cases hhook : ahciCmdPosthook device slot with
  | error f => simp
  | ok p =>
    obtain ⟨device', slot'⟩ := p
    simp [ahciCmdPosthook_none hbuf hhook]

/-- Completing a slot comes through exactly where the two readings agree. -/
theorem completion_fault_iff (hs : slot.Sound) (r : CompleteReading) (mem : ByteMem) :
    (ahciCmdCompleteSlot device r mem slot).fault = none ↔ Agrees slot r := by
  rw [Agrees]
  by_cases hprdtl : r.prdtl = 0
  · rw [completeSlot_zero hprdtl]
    cases slot.dmabuf <;> simp [hprdtl]
  · cases hbuf : slot.dmabuf with
    | none =>
      exact ⟨fun h => absurd h (completeSlot_none hprdtl mem hbuf).2,
        fun h => absurd (h.1.mpr rfl) hprdtl⟩
    | some buf =>
      obtain ⟨device', buf', -, heq⟩ := completeSlot_some hs hprdtl mem hbuf
      have hok : (slot.copyBack r mem buf').ok = true ↔ _ := copyBack_ok_iff r mem buf'
      rw [heq]
      split
      · next h =>
        exact ⟨fun _ => ⟨⟨fun h0 => absurd h0 hprdtl, fun he => (by cases he)⟩,
          fun hw _ => hok.mp h hw⟩, fun _ => rfl⟩
      · next h => exact ⟨fun hf => (by cases hf), fun hag => absurd (hok.mpr fun hw => hag.2 hw hprdtl) h⟩

/-- Whatever the second reading is, no more is copied than was allocated. -/
theorem completion_copied_le (hs : slot.Sound) (r : CompleteReading) (mem : ByteMem) :
    (ahciCmdCompleteSlot device r mem slot).copied ≤ slot.bufferLen := by
  by_cases hprdtl : r.prdtl = 0
  · rw [completeSlot_zero hprdtl]
    exact Nat.zero_le _
  · cases hbuf : slot.dmabuf with
    | none =>
      rw [(completeSlot_none hprdtl mem hbuf).1]
      exact Nat.zero_le _
    | some buf =>
      obtain ⟨device', buf', -, heq⟩ := completeSlot_some hs hprdtl mem hbuf
      have hlen : slot.bufferLen = slot.dmabuflen := by
        rw [Slot.bufferLen, hbuf]
        exact hs.length buf hbuf
      have hcopied : (slot.copyBack r mem buf').copied ≤ slot.dmabuflen := copied_copyBack_le r mem buf'
      rw [heq, hlen]
      split
      · exact hcopied
      · exact hcopied

/-- A completion that comes through leaves the slot without a buffer. -/
theorem completion_slot (hs : slot.Sound) {r : CompleteReading} (h : Agrees slot r) (mem : ByteMem) :
    (ahciCmdCompleteSlot device r mem slot).slot = { slot with dmabuf := none } := by
  by_cases hprdtl : r.prdtl = 0
  · rw [completeSlot_zero hprdtl, ← h.1.mp hprdtl]
  · cases hbuf : slot.dmabuf with
    | none => exact absurd (h.1.mpr hbuf) hprdtl
    | some buf =>
      obtain ⟨device', buf', -, heq⟩ := completeSlot_some hs hprdtl mem hbuf
      rw [heq, if_pos ((copyBack_ok_iff r mem buf').mpr fun hw => h.2 hw hprdtl)]

/-! ### Runs -/

/-- The slots of a port keep to what holds of each slot. -/
def PortRun.Sound (s : PortRun) : Prop := ∀ i, (s.port.slots i).Sound

/-- A completion that copies no more than was allocated and that nothing stops. -/
def Completed.Safe (c : Completed) : Prop :=
  c.result.copied ≤ c.slot.bufferLen ∧ c.result.fault = none

/-- The step completes only slots with which its readings agree. -/
def ReadingsAgree (s : PortRun) : PortEvent → Prop
  | .complete reads pxsact pxci =>
    ∀ i, s.Completes pxsact pxci i → Agrees (s.port.slots i) (reads i)
  | _ => True

theorem Slot.Sound.start {r : StartReading} {mem : ByteMem} {slot' : Slot} (hs : slot.Sound)
    (h : ahciCmdStartSlot device r mem slot = .ok slot') : slot'.Sound := by
  obtain ⟨hfree, ⟨-, rfl⟩ | ⟨-, -, buf, hbuf, hhook⟩⟩ := ahciCmdStartSlot_eq_ok.mp h
  · exact ⟨hs.length, hs.blocks⟩
  · obtain ⟨-, info, buf', hlen, hblocks, rfl⟩ := ahciCmdPrehook_eq_ok hhook
    refine ⟨fun b hb => ?_, hblocks⟩
    cases hb
    exact (hlen.trans (r.length_filled hbuf)).trans r.toNat_ahciGetDmalen.symm

theorem Slot.Sound.noBuffer (hs : slot.Sound) : Slot.Sound { slot with dmabuf := none } where
  length buf h := by cases h
  blocks := hs.blocks

namespace PortRun

variable {s : PortRun} {reads : Fin numOfCommandHeader → StartReading}
  {again : Fin numOfCommandHeader → CompleteReading} {pxsact pxci : SlotBits}

theorem Sound.update {i : Fin numOfCommandHeader} {slot' : Slot} (hs : s.Sound)
    (hslot : slot'.Sound) : ∀ j, (Function.update s.port.slots i slot' j).Sound := by
  intro j
  rcases eq_or_ne j i with rfl | hne
  · rw [Function.update_self]
    exact hslot
  · rw [Function.update_of_ne hne]
    exact hs j

theorem startSlot_spec (hs : s.Sound) (i : Fin numOfCommandHeader) :
    (s.startSlot reads pxci i).Sound ∧ (s.startSlot reads pxci i).log = s.log := by
  rw [startSlot]
  split
  · cases hstart : ahciCmdStartSlot s.port.device (reads i) s.mem (s.port.slots i) with
    | error f => exact ⟨hs, rfl⟩
    | ok slot' =>
      simp only
      split
      · exact ⟨hs, rfl⟩
      · exact ⟨hs.update ((hs i).start hstart), rfl⟩
  · exact ⟨hs, rfl⟩

theorem ahciCmdStart_spec (hs : s.Sound) :
    (s.ahciCmdStart reads pxci).Sound ∧ (s.ahciCmdStart reads pxci).log = s.log := by
  have hloop : ∀ (is : List (Fin numOfCommandHeader)) (s : PortRun), s.Sound →
      (is.foldl (startSlot reads pxci) s).Sound ∧
        (is.foldl (startSlot reads pxci) s).log = s.log := by
    intro is
    induction is with
    | nil => exact fun s hs => ⟨hs, rfl⟩
    | cons i is ih =>
      intro s hs
      obtain ⟨hsound, hlog⟩ := startSlot_spec hs i
      obtain ⟨hsound', hlog'⟩ := ih _ hsound
      exact ⟨hsound', hlog'.trans hlog⟩
  rw [ahciCmdStart]
  exact hloop _ s hs

/-- The slots of a list that the loop has still to complete. -/
def AgreeOn (again : Fin numOfCommandHeader → CompleteReading) (pxsact pxci : SlotBits)
    (is : List (Fin numOfCommandHeader)) (s : PortRun) : Prop :=
  ∀ i ∈ is, s.Completes pxsact pxci i → Agrees (s.port.slots i) (again i)

theorem completeSlot_spec (hs : s.Sound) (hlog : ∀ c ∈ s.log, c.Safe) {i : Fin numOfCommandHeader}
    {is : List (Fin numOfCommandHeader)} (hi : i ∉ is)
    (hagree : AgreeOn again pxsact pxci (i :: is) s) :
    (s.completeSlot again pxsact pxci i).Sound ∧
      (∀ c ∈ (s.completeSlot again pxsact pxci i).log, c.Safe) ∧
      AgreeOn again pxsact pxci is (s.completeSlot again pxsact pxci i) := by
  have htail : AgreeOn again pxsact pxci is s := fun j hj => hagree j (List.mem_cons_of_mem _ hj)
  rw [completeSlot]
  split
  · next h =>
    have hag := hagree i List.mem_cons_self h.2
    refine ⟨hs.update ?_, fun c hc => ?_, fun j hj hcompl => ?_⟩
    · rw [Completed.result, completion_slot (hs i) hag]
      exact (hs i).noBuffer
    · rcases List.mem_cons.mp hc with rfl | hc
      · exact ⟨completion_copied_le (hs i) _ _, (completion_fault_iff (hs i) _ _).mpr hag⟩
      · exact hlog c hc
    · -- the loop does not come back to a slot
      have hne : j ≠ i := fun he => hi (he ▸ hj)
      simp only [Completes, Function.update_of_ne hne] at hcompl ⊢
      exact htail j hj hcompl
  · exact ⟨hs, hlog, htail⟩

theorem ahciCmdComplete_spec (hs : s.Sound) (hlog : ∀ c ∈ s.log, c.Safe)
    (hagree : ∀ i, s.Completes pxsact pxci i → Agrees (s.port.slots i) (again i)) :
    (s.ahciCmdComplete again pxsact pxci).Sound ∧
      ∀ c ∈ (s.ahciCmdComplete again pxsact pxci).log, c.Safe := by
  have hloop : ∀ (is : List (Fin numOfCommandHeader)) (s : PortRun), is.Nodup → s.Sound →
      (∀ c ∈ s.log, c.Safe) → AgreeOn again pxsact pxci is s →
      (is.foldl (completeSlot again pxsact pxci) s).Sound ∧
        ∀ c ∈ (is.foldl (completeSlot again pxsact pxci) s).log, c.Safe := by
    intro is
    induction is with
    | nil => exact fun s _ hs hlog _ => ⟨hs, hlog⟩
    | cons i is ih =>
      intro s hnodup hs hlog hagree
      obtain ⟨hi, hnodup⟩ := List.nodup_cons.mp hnodup
      obtain ⟨hs', hlog', hagree'⟩ := completeSlot_spec hs hlog hi hagree
      exact ih _ hnodup hs' hlog' hagree'
  rw [ahciCmdComplete]
  exact hloop _ s (List.nodup_finRange _) hs hlog fun i _ => hagree i

end PortRun

theorem portMachine_invariant {s : PortRun} (h : portMachine.ReachableWhen ReadingsAgree s) :
    s.Sound ∧ ∀ c ∈ s.log, c.Safe := by
  refine h.invariant (I := fun s => s.Sound ∧ ∀ c ∈ s.log, c.Safe) ?_ ?_
  · rintro s ⟨hslots, -, hlog, -⟩
    refine ⟨fun i => ?_, fun c hc => ?_⟩
    · rw [hslots i]
      exact Slot.Sound.initial
    · rw [hlog] at hc
      cases hc
  · rintro s e s' ⟨hs, hlog⟩ hagree hstep
    simp only [portMachine] at hstep
    split at hstep
    · cases hstep
    cases hstep
    cases e with
    | start reads pxci =>
      obtain ⟨hs', hlog'⟩ := PortRun.ahciCmdStart_spec hs
      exact ⟨hs', fun c hc => hlog c (hlog' ▸ hc)⟩
    | complete reads pxsact pxci => exact PortRun.ahciCmdComplete_spec hs hlog hagree
    | cancel =>
      refine ⟨fun i => ?_, hlog⟩
      simp only [PortRun.ahciCmdCancel]
      split
      · exact (hs i).noBuffer
      · exact hs i
    | device i data =>
      refine ⟨hs.update ⟨fun buf hbuf => ?_, (hs i).blocks⟩, hlog⟩
      obtain ⟨old, hold, rfl⟩ := Option.map_eq_some_iff.mp hbuf
      exact (ByteMem.length_read _ _ _).trans ((hs i).length old hold)
    | guest mem => exact ⟨hs, hlog⟩

/-- In a run of a port in which the second reading of every slot that is completed agrees with what
the slot was started with, no completion copies more than was allocated, misses a buffer or fails an
assertion. -/
theorem completions_safe {s : PortRun} (h : portMachine.ReachableWhen ReadingsAgree s) :
    ∀ c ∈ s.log, c.result.copied ≤ c.slot.bufferLen ∧ c.result.fault = none :=
  (portMachine_invariant h).2

/-- A loop that changes nothing. -/
theorem foldl_fixed_of_mem {α σ : Type*} {f : σ → α → σ} {s : σ} (is : List α)
    (h : ∀ i ∈ is, f s i = s) : is.foldl f s = s := by
  induction is with
  | nil => rfl
  | cons i is ih =>
    rw [List.foldl_cons, h i List.mem_cons_self]
    exact ih fun j hj => h j (List.mem_cons_of_mem _ hj)

namespace PortRun

variable {s : PortRun} {reads : Fin numOfCommandHeader → StartReading}
  {again : Fin numOfCommandHeader → CompleteReading} {pxsact pxci : SlotBits}

theorem step_start (h : s.stopped = none) :
    portMachine.step s (.start reads pxci) = some (s.ahciCmdStart reads pxci) :=
  if_neg (by rw [h]; decide)

theorem step_complete (h : s.stopped = none) :
    portMachine.step s (.complete again pxsact pxci) = some (s.ahciCmdComplete again pxsact pxci) :=
  if_neg (by rw [h]; decide)

/-- Only the first slot is started. -/
theorem ahciCmdStart_first (h : ∀ i, pxci (Fin.succ i) = false) :
    s.ahciCmdStart reads pxci = s.startSlot reads pxci 0 := by
  rw [ahciCmdStart, List.finRange_succ, List.foldl_cons]
  refine foldl_fixed_of_mem _ fun i hi => ?_
  obtain ⟨j, -, rfl⟩ := List.mem_map.mp hi
  rw [startSlot, h j, Bool.and_false]
  rfl

theorem shadowbit_succ_startSlot (j : Fin 31) (h : s.port.shadowbit (Fin.succ j) = false) :
    (s.startSlot reads pxci 0).port.shadowbit (Fin.succ j) = false := by
  rw [startSlot]
  split
  · split
    · exact h
    · split
      · exact h
      · simp only [Function.update_of_ne (Fin.succ_ne_zero j)]
        exact h
  · exact h

/-- Only the first slot has a command. -/
theorem ahciCmdComplete_first (h : ∀ i, s.port.shadowbit (Fin.succ i) = false) :
    s.ahciCmdComplete again pxsact pxci = s.completeSlot again pxsact pxci 0 := by
  rw [ahciCmdComplete, List.finRange_succ, List.foldl_cons]
  refine foldl_fixed_of_mem _ fun i hi => ?_
  obtain ⟨j, -, rfl⟩ := List.mem_map.mp hi
  have hbit : (s.completeSlot again pxsact pxci 0).port.shadowbit (Fin.succ j) = false := by
    rw [completeSlot]
    split
    · simp only [Function.update_of_ne (Fin.succ_ne_zero j)]
      exact h j
    · exact h j
  rw [completeSlot, if_neg]
  rintro ⟨-, hcompl, -⟩
  rw [hbit] at hcompl
  cases hcompl

end PortRun

/-- A port before its first command. -/
def PortRun.fresh : PortRun where
  port := ⟨fun _ => .initial, fun _ => false, ⟨[], [], false⟩⟩
  mem _ := 0
  log := []
  issued _ := none
  stopped := none

/-- IDENTIFY DEVICE, with a scatter list of `prdtl` entries of two bytes. -/
def identifyReading (prdtl : BitVec 16) : StartReading where
  hdr := ⟨false, false, prdtl⟩
  counted _ := ⟨0x1000, 0, 1, false⟩
  table :=
    { cfis := { Slot.initial.cfis with fisType := 0x27, command := 0xEC }
      acmd _ := 0
      prdt _ := ⟨0x1000, 0, 1, false⟩ }
  fresh _ := 0
  stale := ⟨.command, .ready, .read, 0, 0, 0⟩

/-- A second reading of such a list. -/
def identifyAgain (prdtl : BitVec 16) : CompleteReading := ⟨prdtl, fun _ => ⟨0x1000, 0, 1, false⟩⟩

/-- The port with the command in its first slot. -/
def identifyStarted (prdtl : BitVec 16) : PortRun :=
  PortRun.fresh.ahciCmdStart (fun _ => identifyReading prdtl) fun i => i == 0

/-- And after the device is done with it. -/
def identifyCompleted (prdtl prdtl' : BitVec 16) : PortRun :=
  (identifyStarted prdtl).ahciCmdComplete (fun _ => identifyAgain prdtl') (fun _ => false)
    fun _ => false

theorem identifyStarted_eq (prdtl : BitVec 16) : identifyStarted prdtl =
    PortRun.fresh.startSlot (fun _ => identifyReading prdtl) (fun i => i == 0) 0 :=
  PortRun.ahciCmdStart_first fun _ => beq_false_of_ne (Fin.succ_ne_zero _)

theorem identify_reachable {C : PortRun → PortEvent → Prop} {prdtl prdtl' : BitVec 16}
    (hstopped : (identifyStarted prdtl).stopped = none)
    (hstart : C .fresh (.start (fun _ => identifyReading prdtl) fun i => i == 0))
    (hcomplete : C (identifyStarted prdtl)
      (.complete (fun _ => identifyAgain prdtl') (fun _ => false) fun _ => false)) :
    portMachine.ReachableWhen C (identifyCompleted prdtl prdtl') := by
  have hinit : portMachine.ReachableWhen C .fresh := .init ⟨fun _ => rfl, fun _ => rfl, rfl, fun _ => rfl, rfl⟩
  exact .step (.step hinit hstart (PortRun.step_start rfl)) hcomplete
    (PortRun.step_complete hstopped)

theorem identifyCompleted_eq {prdtl prdtl' : BitVec 16} : identifyCompleted prdtl prdtl' =
    (identifyStarted prdtl).completeSlot (fun _ => identifyAgain prdtl') (fun _ => false)
      (fun _ => false) 0 := by
  refine PortRun.ahciCmdComplete_first fun i => ?_
  rw [identifyStarted_eq]
  exact PortRun.shadowbit_succ_startSlot i rfl

theorem completions_safe_identify : (identifyCompleted 1 1).log.length = 1 ∧
    ∀ c ∈ (identifyCompleted 1 1).log, c.result.copied ≤ c.slot.bufferLen ∧
      c.result.fault = none := by
  have hstarted := identifyStarted_eq 1
  refine ⟨?_, completions_safe (identify_reachable ?_ trivial fun i hi => ?_)⟩
  · rw [identifyCompleted_eq, hstarted]
    rfl
  · rw [hstarted]
    rfl
  · rw [hstarted] at hi ⊢
    cases i using Fin.cases with
    | zero => exact ⟨by decide, fun _ _ => rfl⟩
    | succ j => exact absurd hi.1 (by rw [PortRun.shadowbit_succ_startSlot j rfl]; decide)

/-- A scatter list that the guest makes longer while its command runs. -/
theorem longer_list_fails : ¬∀ s, portMachine.Reachable s → ∀ c ∈ s.log,
    c.result.copied ≤ c.slot.bufferLen ∧ c.result.fault = none := by
  intro h
  have hstarted := identifyStarted_eq 0
  have hreach : portMachine.Reachable (identifyCompleted 0 1) :=
    identify_reachable (by rw [hstarted]; rfl) trivial trivial
  have hlast : ∃ c ∈ (identifyCompleted 0 1).log, c.result.fault = some .assertion := by
    rw [identifyCompleted_eq, hstarted]
    exact ⟨_, List.mem_cons_self, rfl⟩
  obtain ⟨c, hc, hfault⟩ := hlast
  have hnone := (h _ hreach c hc).2
  rw [hfault] at hnone
  cases hnone

end OnDemandVirt.Ahci
