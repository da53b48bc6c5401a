import OnDemandVirt.Vmm.Interpreter

/-!
# What a failed write leaves behind

`write_linearaddr_q` and the others write an operand that goes over the end of a page in two parts,
each with its own walk of the page tables. Where the walk for the second part fails, the first part
stays written: the write is torn. All that the interpreter writes, it writes through them: an operand
in memory, and a value that is pushed.
-/

namespace OnDemandVirt.Vmm.Interp

open Lib Lib.Fallible Lib.LowBits

variable {S M : Type} {p : Platform S M} {g g' : Vcpu S M} {op : InstOp}

/-! ### Writes -/

/-- A write that is refused after a part of it has changed memory. -/
def Torn (p : Platform S M) (n : Nat) (linear data : BitVec 64) (g : Vcpu S M) : Prop :=
  ∃ e m, writeLinearaddr p n g.world.sys linear data g.world.mem = (.error (.err e), m) ∧
    m ≠ g.world.mem

theorem keeps_onMem {α : Type} {w : S → Fallible M Abort α} :
    Keeps Abort.Returned (onMem w) g ↔ Keeps Abort.Returned (w g.world.sys) g.world.mem := by
  refine keeps_onPart fun m => ?_
  constructor
  · intro h
    exact congrArg (fun g => g.world.mem) h
  · rintro rfl
    rfl

theorem keeps_writeLinearaddr_iff {n : Nat} {linear data : BitVec 64} :
    Keeps Abort.Returned (writeLinearaddr p n g.world.sys linear data) g.world.mem ↔
      ¬ Torn p n linear data g := by
  constructor
  · rintro h ⟨e, m, hw, hne⟩
    exact hne (h (.err e) m trivial hw)
  · intro h e m he hw
    cases e with
    | panic => exact absurd he id
    | err e => exact not_not.mp fun hne => h ⟨e, m, hw, hne⟩

theorem keeps_writeInPage {n : Nat} {s : S} {linear data : BitVec 64} {m : M} :
    Keeps Abort.Returned (writeInPage p n s linear data) m :=
  keeps_reads_bind.mpr fun _ _ => keeps_modify _

/-- Only a write over the end of a page is torn. -/
theorem not_torn_of_inPage {n : Nat} {linear data : BitVec 64}
    (hn : n = 1 ∨ n = 2 ∨ n = 4 ∨ n = 8) (h : (linear &&& 0xFFF).toNat + n ≤ 0x1000) :
    ¬ Torn p n linear data g := by
  rw [← keeps_writeLinearaddr_iff]
  have hone : writeLinearaddr p n g.world.sys linear data =
      writeInPage p n g.world.sys linear data := by
    rcases hn with rfl | rfl | rfl | rfl
    · rfl
    · refine if_neg fun hend => ?_
      rw [hend] at h
      exact absurd h (by decide)
    · refine if_neg fun hend => ?_
      have hge : 0xFFD ≤ (linear &&& 0xFFF).toNat := BitVec.le_def.mp hend
      omega
    · refine if_neg fun hend => ?_
      have hge : 0xFF9 ≤ (linear &&& 0xFFF).toNat := BitVec.le_def.mp hend
      omega
  rw [hone]
  exact keeps_writeInPage

/-- Where a word goes over the end of a page: its first byte is changed, and its second one fails. -/
theorem torn_word_iff {linear data : BitVec 64} (h : linear &&& 0xFFF = 0xFFF) :
    Torn p 2 linear data g ↔
      ∃ e m, writeLinearaddrB p g.world.sys linear data g.world.mem = (.ok (), m) ∧
        m ≠ g.world.mem ∧
        writeLinearaddrB p g.world.sys (linear + 1) (data >>> 8) m = (.error (.err e), m) := by
  have htwo : writeLinearaddr p 2 g.world.sys linear data =
      (writeLinearaddrB p g.world.sys linear data >>= fun _ =>
        writeLinearaddrB p g.world.sys (linear + 1) (data >>> 8)) := if_pos h
  unfold Torn
  rw [htwo]
  constructor
  · rintro ⟨e, m, hw, hne⟩
    rcases bind_eq_error.mp hw with hfst | ⟨_, t, hfst, hsnd⟩
    · exact absurd (keeps_writeInPage (.err e) m trivial hfst) hne
    · have hm : m = t := keeps_writeInPage (.err e) m trivial hsnd
      exact ⟨e, t, hfst, hm ▸ hne, hm ▸ hsnd⟩
  · rintro ⟨e, m, hfst, hne, hsnd⟩
    exact ⟨e, m, bind_eq_error.mpr (.inr ⟨(), m, hfst, hsnd⟩), hne⟩

/-- The tests of a segment that a write makes. -/
def SegUsable (p : Platform S M) (longmode : Bool) (r : SegReg) (g : Vcpu S M) : Prop :=
  longmode = true ∨ testAcr (p.readSregAcr r g.world.sys) = .ok ()

theorem keeps_cpuSegWrite_iff {n : Nat} {r : SegReg} {offset data : BitVec 64} :
    Keeps Abort.Returned (cpuSegWrite p n r offset data) g ↔
      (testAcr (p.readSregAcr r g.world.sys) = .ok () →
        ¬ Torn p n (p.readSregBase r g.world.sys + offset) data g) := by
  unfold cpuSegWrite
  rw [keeps_reads_bind]
  constructor
  · intro h hacr
    exact keeps_writeLinearaddr_iff.1 (keeps_onMem.1 (h () hacr))
  · intro h _ hacr
    exact keeps_onMem.2 (keeps_writeLinearaddr_iff.2 (h hacr))

theorem keeps_lguestsegWrite_iff {longmode : Bool} {n : Nat} {r : SegReg}
    {offset data : BitVec 64} :
    Keeps Abort.Returned (lguestsegWrite p longmode n r offset data) g ↔
      (SegUsable p longmode r g → ¬ Torn p n (p.readSregBase r g.world.sys + offset) data g) := by
  cases longmode with
  | true =>
    unfold lguestsegWrite
    rw [if_pos rfl, keeps_onMem, keeps_writeLinearaddr_iff]
    simp [SegUsable]
  | false =>
    unfold lguestsegWrite
    rw [if_neg Bool.false_ne_true, keeps_cpuSegWrite_iff]
    simp [SegUsable]

/-- An operand that is written: its memory is not torn. -/
def OperandWhole (p : Platform S M) (n : Nat) (op : InstOp) (data : BitVec 64) (g : Vcpu S M) :
    Prop :=
  op.brm = none → SegUsable p op.longmode op.seg g →
    ¬ Torn p n (p.readSregBase op.seg g.world.sys + modrmOff op 0) data g

theorem keeps_writeModrm_iff {n : Nat} {data : BitVec 64} :
    Keeps Abort.Returned (writeModrm p n op data) g ↔ OperandWhole p n op data g := by
  unfold writeModrm OperandWhole
  cases op.brm with
  | none =>
    dsimp only
    rw [keeps_lguestsegWrite_iff]
    exact ⟨fun h _ => h, fun h => h rfl⟩
  | some r => simp

/-! ### The stack -/

theorem testAcr_eq_ok_or (acr : BitVec 64) : testAcr acr = .ok () ∨ ∃ e, testAcr acr = .error e := by
  cases testAcr acr with
  | ok _ => exact .inl rfl
  | error e => exact .inr ⟨e, rfl⟩

theorem cpuStackGet_eq_ok_iff {sp : BitVec 64} :
    cpuStackGet p g = .ok sp ↔ testAcr (ssAcr p g) = .ok () ∧ clipSp p g (g.reg rspReg) = sp := by
  unfold cpuStackGet
  rcases testAcr_eq_ok_or (ssAcr p g) with h | ⟨e, h⟩
  · rw [h]
    exact ⟨fun heq => ⟨rfl, Except.ok.inj heq⟩, fun heq => congrArg Except.ok heq.2⟩
  · rw [h]
    exact ⟨fun heq => (nomatch heq), fun heq => (nomatch heq.1)⟩

/-- Where a push goes. -/
def pushAddr (p : Platform S M) (sp : BitVec 64) (type : Width) (g : Vcpu S M) : BitVec 64 :=
  p.readSregBase .ss g.world.sys + clipSp p g (sp - BitVec.ofNat 64 (stackLen type))

theorem keeps_cpuStackPush_iff {sp data : BitVec 64} {type : Width} :
    Keeps Abort.Returned (cpuStackPush p sp data type) g ↔
      (testAcr (ssAcr p g) = .ok () →
        ¬ Torn p (stackLen type) (pushAddr p sp type g) data g) := by
  unfold cpuStackPush
  rw [keeps_check_bind]
  refine imp_congr_right fun hacr => ?_
  rw [keeps_reads_bind]
  constructor
  · intro h
    exact keeps_cpuSegWrite_iff.1 (keeps_bind.mp (h _ rfl)).1 hacr
  · rintro h _ ⟨⟩
    refine (keeps_bind_of_not_fails fun _ _ _ => not_fails_pure _).mpr ?_
    exact keeps_cpuSegWrite_iff.2 fun _ => h

/-- Everything but memory. -/
def aroundMem (g : Vcpu S M) : (GeneralReg → BitVec 64) × BitVec 64 × BitVec 64 × S :=
  (g.reg, g.ip, g.flags, g.world.sys)

theorem frames_onMem {α : Type} (w : S → Fallible M Abort α) : Frames aroundMem (onMem w) :=
  frames_onPart fun _ _ => rfl

theorem frames_cpuSegWrite (n : Nat) (r : SegReg) (offset data : BitVec 64) :
    Frames aroundMem (cpuSegWrite p n r offset data) :=
  (frames_reads _).bind fun _ => frames_onMem _

theorem frames_lguestsegWrite (longmode : Bool) (n : Nat) (r : SegReg) (offset data : BitVec 64) :
    Frames aroundMem (lguestsegWrite p longmode n r offset data) := by
  unfold lguestsegWrite
  split
  · exact frames_onMem _
  · exact frames_cpuSegWrite n r offset data

theorem frames_cpuStackPush (sp data : BitVec 64) (type : Width) :
    Frames aroundMem (cpuStackPush p sp data type) :=
  (frames_reads _).bind fun _ => (frames_reads _).bind fun _ =>
    (frames_cpuSegWrite _ _ _ _).bind fun _ => frames_pure _

theorem sys_of_aroundMem (h : aroundMem g' = aroundMem g) : g'.world.sys = g.world.sys :=
  congrArg (fun x => x.2.2.2) h

theorem ssAcr_of_sys (h : g'.world.sys = g.world.sys) : ssAcr p g' = ssAcr p g := by
  rw [ssAcr, ssAcr, h]

theorem setRegN_sys (n : Nat) (rex : Bool) (r : GeneralReg) (d : BitVec 64) (g : Vcpu S M) :
    (setRegN n rex r d g).world.sys = g.world.sys := by
  unfold setRegN
  split_ifs <;> rfl

theorem frames_writeModrm (n : Nat) (op : InstOp) (d : BitVec 64) :
    Frames (fun g : Vcpu S M => g.world.sys) (writeModrm p n op d) := by
  unfold writeModrm
  cases op.brm with
  | none => exact fun g => sys_of_aroundMem (frames_lguestsegWrite _ _ _ _ _ g)
  | some r => exact frames_modify (setRegN_sys n _ r d)

theorem total_updateIp : Total Abort.Returned (updateIp op : Emul S M Unit) := total_modify _

theorem not_fails_cpuStackSet {sp : BitVec 64} (h : testAcr (ssAcr p g) = .ok ()) :
    ¬ Fails Abort.Returned (cpuStackSet p sp) g := by
  refine not_fails_reads_bind (fun e he => ?_) fun _ _ => not_fails_modify _
  rw [h] at he
  cases he

/-- A value that is pushed: memory is not torn. -/
def PushWhole (p : Platform S M) (op : InstOp) (data : BitVec 64) (g : Vcpu S M) : Prop :=
  testAcr (ssAcr p g) = .ok () →
    ¬ Torn p (stackLen op.optype) (pushAddr p (clipSp p g (g.reg rspReg)) op.optype g) data g

theorem keeps_pushValue_iff {data : BitVec 64} :
    Keeps Abort.Returned (pushValue p op data) g ↔ PushWhole p op data g := by
  unfold pushValue PushWhole
  rw [keeps_reads_bind]
  constructor
  · intro h hacr
    have hpush := (keeps_bind.mp (h _ (cpuStackGet_eq_ok_iff.2 ⟨hacr, rfl⟩))).1
    exact keeps_cpuStackPush_iff.1 hpush hacr
  · intro h sp hsp
    obtain ⟨hacr, rfl⟩ := cpuStackGet_eq_ok_iff.1 hsp
    refine (keeps_bind_of_not_fails fun sp' g' hpush => ?_).mpr
      (keeps_cpuStackPush_iff.2 h)
    have hacr' : testAcr (ssAcr p g') = .ok () := by
      rw [ssAcr_of_sys (sys_of_aroundMem ((frames_cpuStackPush _ _ _).eq hpush))]
      exact hacr
    exact not_fails_bind (not_fails_cpuStackSet hacr') fun _ g'' _ => total_updateIp g''

end OnDemandVirt.Vmm.Interp
