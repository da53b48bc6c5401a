import OnDemandVirt.Vmm.Decoded
import OnDemandVirt.Vmm.FailedEmulation

/-!
# Restarting an instruction

When the interpreter returns an error, the guest may be made to handle a fault and to start the
instruction again. `Restartable` says for each instruction when the guest is then as it was before:
the readings come before the first change, so that it is about the change that is made ahead of one
that can still fail. RDMSR loads its registers whether the MSR is there or not, XCHG loads its
register ahead of the memory operand, INT moves the instruction pointer first, and each write of
memory is made page by page.
-/

namespace OnDemandVirt.Vmm.Interp

open Lib Lib.Fallible Lib.LowBits

variable {S M : Type} {p : Platform S M} {g : Vcpu S M} {op : InstOp}

/-! ### Operands -/

theorem total_panic : Total Abort.Returned (panic : Emul S M Unit) := total_throw id

theorem keeps_idataWr_iff {operand : IdataOperand} {len : Nat} {d : BitVec 64} :
    Keeps Abort.Returned (idataWr p op operand len d) g ↔
      (operand = .m → OperandWhole p (operandLen op len) op d g) := by
  cases operand with
  | m =>
    refine keeps_writeModrm_iff.trans ?_
    simp
  | _ => simp [idataWr]

/-- An operand is written, and nothing fails after it. -/
theorem keeps_idataWr_bind_iff {operand : IdataOperand} {len : Nat} {d : BitVec 64}
    {f : Unit → Emul S M Unit} (hf : ∀ a, Total Abort.Returned (f a)) :
    Keeps Abort.Returned (idataWr p op operand len d >>= f) g ↔
      (operand = .m → OperandWhole p (operandLen op len) op d g) :=
  (keeps_bind_of_not_fails fun a s _ => hf a s).trans keeps_idataWr_iff

/-- Loading a register is not seen by a write of memory. -/
theorem commutes_writeModrm {k : Vcpu S M → Vcpu S M} {n : Nat} {d : BitVec 64}
    (hbrm : op.brm = none) (hworld : ∀ g, (k g).world = g.world)
    (hk : ∀ g w, k { g with world := w } = { k g with world := w }) :
    Commutes k (writeModrm p n op d) := by
  have hmem : ∀ w : S → Fallible M Abort Unit, Commutes k (onMem w) := by
    intro w
    refine commutes_onPart (fun s => ?_) (fun s => ?_) fun s m => ?_
    · rw [hworld]
    · rw [hworld]
    · rw [hk s { s.world with mem := m }]
      simp only [hworld]
  have hseg : ∀ offset, Commutes k (cpuSegWrite p n op.seg offset d) := fun offset =>
    (commutes_reads fun s => by rw [hworld]).bind fun _ => hmem _
  unfold writeModrm lguestsegWrite
  rw [hbrm]
  dsimp only
  split
  · exact hmem _
  · exact hseg _

theorem setRegN_world (n : Nat) (rex : Bool) (r : GeneralReg) (d : BitVec 64) (g : Vcpu S M) :
    (setRegN n rex r d g).world = g.world := by
  unfold setRegN
  split_ifs <;> rfl

theorem setRegN_withWorld (n : Nat) (rex : Bool) (r : GeneralReg) (d : BitVec 64) (g : Vcpu S M)
    (w : Around S M) : setRegN n rex r d { g with world := w } =
      { setRegN n rex r d g with world := w } := by
  unfold setRegN
  split_ifs <;> rfl

/-- XCHG: the register is loaded ahead of memory. -/
theorem keeps_loadThenStore_iff {n : Nat} {rex : Bool} {r : GeneralReg} {x d : BitVec 64} :
    Keeps Abort.Returned
        (modify (setRegN n rex r x) >>= fun _ => writeModrm p n op d >>= fun _ => updateIp op) g ↔
      OperandWhole p n op d g ∧
        (Fails Abort.Returned (writeModrm p n op d) g → setRegN n rex r x g = g) := by
  rw [← keeps_writeModrm_iff]
  cases hbrm : op.brm with
  | some r' =>
    have hwrite : ∀ g : Vcpu S M, ¬ Fails Abort.Returned (writeModrm p n op d) g := by
      unfold writeModrm
      rw [hbrm]
      exact fun g => not_fails_modify _
    have hall : ¬ Fails Abort.Returned
        (modify (setRegN n rex r x) >>= fun _ => writeModrm p n op d >>= fun _ => updateIp op) g :=
      fails_modify_bind.not.mpr (not_fails_bind (hwrite _) fun _ s _ => total_updateIp s)
    exact ⟨fun _ => ⟨.of_not_fails (hwrite g), fun h => absurd h (hwrite g)⟩,
      fun _ => .of_not_fails hall⟩
  | none =>
    have hcomm : Commutes (setRegN n rex r x) (writeModrm p n op d) :=
      commutes_writeModrm hbrm (setRegN_world n rex r x) (setRegN_withWorld n rex r x)
    have hdrop : Keeps Abort.Returned
          (modify (setRegN n rex r x) >>= fun _ => writeModrm p n op d >>= fun _ => updateIp op) g ↔
        Keeps Abort.Returned (modify (setRegN n rex r x) >>= fun _ => writeModrm p n op d) g :=
      leaves_bind_of_not_fails fun _ s _ => total_updateIp s
    rw [hdrop, keeps_modify_bind_of_commutes hcomm]
    have hreg : ∀ e t, writeModrm p n op d g = (.error e, t) →
        (setRegN n rex r x t = g ↔ t = g ∧ setRegN n rex r x g = g) := by
      intro e t ht
      have hframe : aroundMem t = aroundMem g := by
        unfold writeModrm at ht
        rw [hbrm] at ht
        exact (frames_lguestsegWrite _ _ _ _ _).eq ht
      have ht' : t = { g with world := t.world } := by
        obtain ⟨hr, hi, hf, -⟩ := by simpa [aroundMem] using hframe
        rw [← hr, ← hi, ← hf]
      constructor
      · intro h
        have hw : t.world = g.world := by
          rw [← setRegN_world n rex r x t, h]
        have htg : t = g := by
          rw [ht', hw]
        exact ⟨htg, htg ▸ h⟩
      · rintro ⟨rfl, h⟩
        exact h
    constructor
    · intro h
      refine ⟨fun e t he ht => ((hreg e t ht).mp (h e t he ht)).1, ?_⟩
      rintro ⟨e, t, he, ht⟩
      exact ((hreg e t ht).mp (h e t he ht)).2
    · rintro ⟨hkeep, hsame⟩ e t he ht
      exact (hreg e t ht).mpr ⟨hkeep e t he ht, hsame ⟨e, t, he, ht⟩⟩

/-! ### What each instruction needs -/

/-- A software interrupt whose vector is read and whose frame is pushed. -/
def IntDelivered (p : Platform S M) (num : BitVec 64) (g : Vcpu S M) : Prop :=
  ¬ Fails Abort.Returned (cpuEmulRealmodeInt p num) g

/-- The instructions of the tables. -/
def IdataRestartable (p : Platform S M) (op : InstOp) (id : Idata) (g : Vcpu S M) : Prop :=
  match (groupFunc op id.func).kind with
  | .twoOp => ∀ src dst, idataRd p op id.src id.len g = .ok src →
      idataRd p op id.dst id.len g = .ok dst → id.dst = .m →
      OperandWhole p (operandLen op id.len) op (id2op p op id g.flags src dst).1 g
  | .xchg => ∀ src dst, idataRd p op id.src id.len g = .ok src →
      idataRd p op id.dst id.len g = .ok dst →
      OperandWhole p (operandLen op id.len) op src g ∧
        (Fails Abort.Returned (writeModrm p (operandLen op id.len) op src) g →
          setRegN (operandLen op id.len) op.hasRex op.rreg dst g = g)
  | .mov => ∀ src, idataRd p op id.src id.len g = .ok src → id.dst = .m →
      OperandWhole p (operandLen op id.len) op src g
  | .compare => True
  | .unsupported => True

/-- The guest can restart the instruction when it fails. -/
def Restartable (p : Platform S M) : Opcode → InstOp → Vcpu S M → Prop
  | .pushf, op, g => op.longmode = false →
      PushWhole p op (g.flags &&& ~~~(rflagsVmBit ||| rflagsRfBit)) g
  | .pushSr r, op, g => op.longmode = false →
      ∀ sel, readSel p (SegReg.no r) g = .ok sel → PushWhole p op sel g
  | .ffPush, op, g => op.longmode = false →
      ∀ data, readModrm p (stackLen op.optype) op 0 g = .ok data → PushWhole p op data g
  | .pop8f, op, g => op.longmode = false → ∀ sp x, cpuStackGet p g = .ok sp →
      cpuStackPop p sp op.optype g = .ok x → OperandWhole p (stackLen op.optype) op x.1 g
  | .int, op, g => op.real = true → IntDelivered p (op.imm &&& 0xFF) (g.updateIp op.toOp)
  | .int3, op, g => op.real = true → IntDelivered p 3 (g.updateIp op.toOp)
  | .rdmsr, _, g => (rdmsrRead p g).1 = true → rdmsrRegs (rdmsrRead p g).2 g = g
  | .smsw, op, g => OperandWhole p (operandLen op 2) op (p.readControlReg 0 g.world.sys) g
  | .movFromSr, op, g => op.brm = none → ∀ sel, readSel p op.reg g = .ok sel →
      OperandWhole p 2 (op.withSize .w16) sel g
  | .idata id, op, g => IdataRestartable p op id g
  | _, _, _ => True

/-! ### The stack -/

theorem keeps_unlessPanic_iff {c : Prop} [Decidable c] {q : Emul S M Unit} :
    Keeps Abort.Returned (if c then panic else q) g ↔ (¬ c → Keeps Abort.Returned q g) := by
  by_cases h : c
  · simp [h, total_panic.keeps]
  · simp [h]

theorem keeps_opcodePushf_iff :
    Keeps Abort.Returned (opcodePushf p op) g ↔ Restartable p .pushf op g := by
  unfold opcodePushf Restartable
  rw [keeps_unlessPanic_iff, Bool.not_eq_true]
  refine imp_congr_right fun _ => ?_
  rw [keeps_get_bind, keeps_pushValue_iff]

theorem keeps_opcodePushSr_iff {r : SegReg} :
    Keeps Abort.Returned (opcodePushSr p op r) g ↔ Restartable p (.pushSr r) op g := by
  unfold opcodePushSr Restartable
  rw [keeps_unlessPanic_iff, Bool.not_eq_true]
  refine imp_congr_right fun _ => ?_
  simp only [keeps_reads_bind, keeps_pushValue_iff]

theorem keeps_opcodeFfPush_iff :
    Keeps Abort.Returned (opcodeFfPush p op) g ↔ Restartable p .ffPush op g := by
  unfold opcodeFfPush Restartable
  rw [keeps_unlessPanic_iff, Bool.not_eq_true]
  refine imp_congr_right fun _ => ?_
  simp only [keeps_reads_bind, keeps_pushValue_iff]

theorem keeps_opcode8fPop_iff :
    Keeps Abort.Returned (opcode8fPop p op) g ↔ Restartable p .pop8f op g := by
  unfold opcode8fPop Restartable
  rw [keeps_unlessPanic_iff, Bool.not_eq_true]
  refine imp_congr_right fun _ => ?_
  rw [keeps_reads_bind]
  refine forall_congr' fun sp => ?_
  rw [← imp_forall_iff]
  refine imp_congr_right fun hget => ?_
  rw [keeps_reads_bind]
  refine forall_congr' fun x => imp_congr_right fun _ => ?_
  rw [← keeps_writeModrm_iff]
  refine keeps_bind_of_not_fails fun _ t hwrite => ?_
  have hsys : t.world.sys = g.world.sys := (frames_writeModrm _ _ _).eq hwrite
  refine fails_modify_bind.not.mpr (not_fails_cpuStackSet ?_)
  calc testAcr (ssAcr p (t.updateIp op.toOp))
      = testAcr (ssAcr p g) := congrArg testAcr (ssAcr_of_sys hsys)
    _ = .ok () := (cpuStackGet_eq_ok_iff.mp hget).1

/-- The flags are loaded, then the stack pointer. -/
theorem total_stiIf (c : Prop) [Decidable c] :
    Total Abort.Returned (if c then cpuEmulSti p else pure () : Emul S M Unit) := by
  split
  · exact (total_modify _).bind fun _ => total_modify _
  · exact total_pure ()

theorem keeps_opcodePopf : Keeps Abort.Returned (opcodePopf p op) g := by
  unfold opcodePopf
  split
  · exact total_panic.keeps
  · refine keeps_reads_bind.mpr fun sp hget => keeps_get_bind.mpr ?_
    refine keeps_reads_bind.mpr fun x hpop => .of_not_fails ?_
    have hacr : testAcr (ssAcr p g) = .ok () := (cpuStackGet_eq_ok_iff.mp hget).1
    refine fails_modify_bind.not.mpr (fails_modify_bind.not.mpr ?_)
    exact not_fails_bind (not_fails_cpuStackSet hacr) fun _ t _ => total_stiIf _ t

theorem keeps_opcodeIret : Keeps Abort.Returned (opcodeIret p op) g := by
  unfold opcodeIret
  split
  · exact total_panic.keeps
  split
  · refine keeps_reads_bind.mpr fun sp hget => keeps_get_bind.mpr ?_
    refine keeps_reads_bind.mpr fun x _ => keeps_reads_bind.mpr fun y _ =>
      keeps_reads_bind.mpr fun z _ => .of_not_fails ?_
    refine fails_modify_bind.not.mpr (fails_modify_bind.not.mpr (fails_modify_bind.not.mpr ?_))
    refine not_fails_bind (not_fails_cpuStackSet ?_) fun _ t _ => total_stiIf _ t
    -- Loading CS leaves the stack segment alone.
    exact (congrArg testAcr (p.ss_writeRealmodeSeg _ _)).trans (cpuStackGet_eq_ok_iff.mp hget).1
  · exact total_panic.keeps

/-! ### Interrupts -/

/-- Until the frame is pushed the instruction pointer stays as it is, and then nothing fails. -/
theorem keepsPart_cpuEmulRealmodeInt (num : BitVec 64) (g : Vcpu S M) :
    KeepsPart Abort.Returned aroundMem (cpuEmulRealmodeInt p num) g := by
  refine keepsPart_reads_bind fun off _ => keepsPart_reads_bind fun seg _ =>
    keepsPart_reads_bind fun cs _ => ?_
  change KeepsPart Abort.Returned aroundMem (reads (cpuStackGet p) >>= _) g
  refine keepsPart_reads_bind fun sp hget => ?_
  refine keepsPart_bind (frames_cpuStackPush _ _ _) fun sp₁ g₁ h₁ => ?_
  refine keepsPart_bind (frames_cpuStackPush _ _ _) fun sp₂ g₂ h₂ => ?_
  refine keepsPart_bind (frames_cpuStackPush _ _ _) fun sp₃ g₃ h₃ => .of_not_fails ?_
  refine fails_modify_bind.not.mpr (fails_modify_bind.not.mpr (fails_modify_bind.not.mpr ?_))
  refine not_fails_bind (not_fails_cpuStackSet ?_) fun _ t _ => total_modify _ t
  have hframe : aroundMem g₃ = aroundMem g :=
    ((frames_cpuStackPush _ _ _).eq h₃).trans
      (((frames_cpuStackPush _ _ _).eq h₂).trans ((frames_cpuStackPush _ _ _).eq h₁))
  calc testAcr (p.readSregAcr .ss (p.writeRealmodeSeg .cs _ g₃.world.sys))
      = testAcr (ssAcr p g₃) := congrArg testAcr (p.ss_writeRealmodeSeg _ _)
    _ = testAcr (ssAcr p g) := congrArg testAcr (ssAcr_of_sys (sys_of_aroundMem hframe))
    _ = .ok () := (cpuStackGet_eq_ok_iff.mp hget).1

/-- The instruction pointer has moved. -/
theorem updateIp_ip_ne (hip : op.ip = g.ip) (hpos : 0 < op.ipOff) (hle : op.ipOff ≤ 15) :
    (g.updateIp op.toOp).ip ≠ g.ip := by
  intro h
  have hadd : g.ip + BitVec.ofNat 64 op.ipOff = g.ip := by
    rw [← hip]
    exact h.trans hip.symm
  have hzero : BitVec.ofNat 64 op.ipOff = 0 := by
    simpa using hadd
  have hnat := congrArg BitVec.toNat hzero
  rw [BitVec.toNat_ofNat, Nat.mod_eq_of_lt (by omega)] at hnat
  simp at hnat
  omega

theorem keeps_opcodeIntN_iff {num : BitVec 64} (hip : op.ip = g.ip) (hpos : 0 < op.ipOff)
    (hle : op.ipOff ≤ 15) :
    Keeps Abort.Returned (opcodeIntN p num op) g ↔
      (op.real = true → IntDelivered p num (g.updateIp op.toOp)) := by
  unfold opcodeIntN
  cases op.real with
  | false => simp [total_panic.keeps]
  | true =>
    rw [if_pos rfl]
    constructor
    · rintro h - ⟨e, t, he, ht⟩
      have hsame : t = g := h e t he ht
      have hframe := keepsPart_cpuEmulRealmodeInt num _ e t he ht
      refine updateIp_ip_ne hip hpos hle ?_
      rw [hsame] at hframe
      exact (congrArg (fun x => x.2.1) hframe).symm
    · exact fun h => .of_not_fails (h rfl)

/-! ### Registers of the system -/

/-- RAX and RDX are loaded whether the MSR can be read or not. -/
theorem keeps_opcodeRdmsr_iff :
    Keeps Abort.Returned (opcodeRdmsr p op) g ↔ Restartable p .rdmsr op g := by
  change _ ↔ ((rdmsrRead p g).1 = true → _)
  unfold opcodeRdmsr
  rw [keeps_get_bind]
  cases hfail : (rdmsrRead p g).1 with
  | true =>
    rw [if_pos rfl]
    constructor
    · exact fun h _ => h (.err .msrFault) _ trivial rfl
    · rintro h e t - ⟨⟩
      exact h rfl
  | false =>
    rw [if_neg Bool.false_ne_true]
    refine ⟨fun _ h => absurd h Bool.false_ne_true, fun _ => .of_not_fails ?_⟩
    exact fails_modify_bind.not.mpr (total_updateIp _)

theorem keeps_opcodeWrmsr : Keeps Abort.Returned (opcodeWrmsr p op) g := by
  refine keeps_get_bind.mpr ?_
  dsimp only
  split
  · exact keeps_throw _
  · exact ((total_modify _).bind fun _ => total_updateIp).keeps

theorem keeps_opcodeLdt {write : BitVec 32 → BitVec 16 → S → S} :
    Keeps Abort.Returned (opcodeLdt p write op) g := by
  unfold opcodeLdt
  split
  · exact keeps_throw _
  rw [keeps_unlessPanic_iff]
  intro _
  refine keeps_reads_bind.mpr fun limit _ => keeps_reads_bind.mpr fun base _ => ?_
  exact ((total_modify _).bind fun _ => total_updateIp).keeps

theorem total_opcodeMovToCr : Total Abort.Returned (opcodeMovToCr p op : Emul S M Unit) := by
  refine total_get.bind fun g => ?_
  dsimp only
  split
  · exact (total_modify _).bind fun _ => total_updateIp
  · exact total_panic

theorem total_opcodeMovFromCr : Total Abort.Returned (opcodeMovFromCr p op : Emul S M Unit) := by
  refine total_get.bind fun g => ?_
  dsimp only
  split
  · exact (total_modify _).bind fun _ => total_updateIp
  · exact total_panic

theorem keeps_opcodeSmsw_iff :
    Keeps Abort.Returned (opcodeSmsw p op) g ↔ Restartable p .smsw op g := by
  refine keeps_get_bind.trans ((keeps_idataWr_bind_iff fun _ => total_updateIp).trans ?_)
  exact ⟨fun h => h rfl, fun h _ => h⟩

theorem keeps_opcodeLmsw : Keeps Abort.Returned (opcodeLmsw p op) g :=
  keeps_reads_bind.mpr fun _ _ => ((total_modify _).bind fun _ => total_updateIp).keeps

theorem keeps_opcodeMovFromSr_iff :
    Keeps Abort.Returned (opcodeMovFromSr p op) g ↔ Restartable p .movFromSr op g := by
  change _ ↔ (op.brm = none → ∀ sel, readSel p op.reg g = .ok sel →
    OperandWhole p 2 (op.withSize .w16) sel g)
  unfold opcodeMovFromSr
  simp only [keeps_reads_bind, keeps_idataWr_bind_iff fun _ => total_updateIp]
  cases hbrm : op.brm with
  | none =>
    have hlen : operandLen (op.withSize .w16) 2 = 2 := by
      simp [operandLen, InstOp.withSize, Width.bits]
    rw [if_pos rfl, hlen]
    exact ⟨fun h _ sel hsel => h sel hsel trivial, fun h sel hsel _ => h rfl sel hsel⟩
  | some r =>
    -- A register is written without fail.
    refine ⟨fun _ h => (nomatch h), fun _ sel _ _ h => ?_⟩
    rw [if_neg (by simp), hbrm] at h
    cases h

/-- Loading a segment register changes nothing here: the switch of modes does. -/
theorem keeps_writingSreg {r : Fin 8} : Keeps Abort.Returned (writingSreg p r) g := by
  refine keeps_get_bind.mpr ?_
  split
  · exact keeps_throw _
  · exact total_panic.keeps

/-! ### I/O -/

theorem total_opcodeIn (byte : Bool) (port : BitVec 64) :
    Total Abort.Returned (opcodeIn p byte port op : Emul S M Unit) :=
  total_get.bind fun _ => total_modify _

theorem total_opcodeOut (byte : Bool) (port : BitVec 64) :
    Total Abort.Returned (opcodeOut p byte port op : Emul S M Unit) :=
  total_get.bind fun _ => total_modify _

/-! ### Moves and arithmetic -/

theorem keeps_opcodeMovzx {n : Nat} : Keeps Abort.Returned (opcodeMovzx p n op) g :=
  keeps_reads_bind.mpr fun _ _ =>
    (keeps_idataWr_bind_iff fun _ => total_updateIp).mpr fun h => (nomatch h)

theorem keeps_opcode0fLss : Keeps Abort.Returned (opcode0fLss p op) g := by
  unfold opcode0fLss
  rw [keeps_unlessPanic_iff, keeps_unlessPanic_iff, keeps_unlessPanic_iff]
  intro _ _ _
  refine keeps_reads_bind.mpr fun data _ => keeps_reads_bind.mpr fun seg _ => ?_
  exact ((total_modify _).bind fun _ => (total_modify _).bind fun _ => total_updateIp).keeps

theorem keeps_opcodeBtImm : Keeps Abort.Returned (opcodeBtImm p op) g :=
  keeps_reads_bind.mpr fun _ _ => ((total_modify _).bind fun _ => total_updateIp).keeps

/-- XCHG is the only one of the functions of its kind. -/
theorem func_of_kind_xchg {func : IdataFunction} (h : (groupFunc op func).kind = .xchg) :
    func = .xchg := by
  cases func with
  | xchg => rfl
  | grp1 =>
    have hne := grp1_ne_xchg op.reg.val
    rw [groupFunc] at h
    cases hf : grp1 op.reg.val <;> rw [hf] at h hne
    all_goals first
      | exact absurd rfl hne
      | cases h
  | grp2 =>
    have hne := grp2_ne_xchg op.reg.val
    rw [groupFunc] at h
    cases hf : grp2 op.reg.val <;> rw [hf] at h hne
    all_goals first
      | exact absurd rfl hne
      | cases h
  | grp11 =>
    rw [groupFunc] at h
    split at h <;> cases h
  | _ => cases h

theorem keeps_opcodeIdata_iff {id : Idata} (hrow : id.XchgRow) :
    Keeps Abort.Returned (opcodeIdata p op id) g ↔ IdataRestartable p op id g := by
  have hend : ∀ flags : BitVec 64, Total Abort.Returned
      (setFlags (fun _ => flags) >>= fun _ => updateIp op : Emul S M Unit) := fun _ =>
    (total_modify _).bind fun _ => total_updateIp
  unfold opcodeIdata IdataRestartable
  cases hkind : (groupFunc op id.func).kind with
  | twoOp =>
    simp only [keeps_reads_bind, keeps_get_bind, keeps_idataWr_bind_iff fun _ => hend _]
    exact ⟨fun h src dst hsrc hdst => h src hsrc dst hdst,
      fun h src hsrc dst hdst => h src dst hsrc hdst⟩
  | compare =>
    refine iff_of_true (keeps_reads_bind.mpr fun src _ => keeps_reads_bind.mpr fun dst _ => ?_)
      trivial
    exact keeps_get_bind.mpr (hend _).keeps
  | xchg =>
    obtain ⟨hdst, hsrc⟩ := hrow (func_of_kind_xchg hkind)
    have hswap : ∀ src dst, Keeps Abort.Returned (do
          idataWr p op id.src id.len dst
          idataWr p op id.dst id.len src
          updateIp op) g ↔
        OperandWhole p (operandLen op id.len) op src g ∧
          (Fails Abort.Returned (writeModrm p (operandLen op id.len) op src) g →
            setRegN (operandLen op id.len) op.hasRex op.rreg dst g = g) := by
      intro src dst
      rw [hdst, hsrc]
      exact keeps_loadThenStore_iff
    simp only [keeps_reads_bind, hswap]
    exact ⟨fun h src dst hs hd => h src hs dst hd, fun h src hs dst hd => h src dst hs hd⟩
  | mov =>
    simp only [keeps_reads_bind, keeps_idataWr_bind_iff fun _ => total_updateIp]
  | unsupported => exact iff_of_true (keeps_throw _) trivial

/-! ### The interpreter -/

/-- A failure leaves the guest as it was, for an instruction that has been decoded. -/
theorem keeps_exec_iff {ins : Opcode} (hrow : ins.XchgRow) (hip : op.ip = g.ip)
    (hpos : 0 < op.ipOff) (hle : op.ipOff ≤ 15) (hstr : ∀ o, ins ≠ .string o) :
    Keeps Abort.Returned (exec p ins op) g ↔ Restartable p ins op g := by
  cases ins with
  | string o => exact absurd rfl (hstr o)
  | pushf => exact keeps_opcodePushf_iff
  | pushSr r => exact keeps_opcodePushSr_iff
  | ffPush => exact keeps_opcodeFfPush_iff
  | pop8f => exact keeps_opcode8fPop_iff
  | int => exact keeps_opcodeIntN_iff hip hpos hle
  | int3 => exact keeps_opcodeIntN_iff hip hpos hle
  | rdmsr => exact keeps_opcodeRdmsr_iff
  | smsw => exact keeps_opcodeSmsw_iff
  | movFromSr => exact keeps_opcodeMovFromSr_iff
  | idata id => exact keeps_opcodeIdata_iff hrow
  | hlt => exact iff_of_true ((total_modify _).bind fun _ => total_modify _).keeps trivial
  | cli => exact iff_of_true ((total_modify _).bind fun _ => total_modify _).keeps trivial
  | sti =>
    refine iff_of_true (Total.keeps ?_) trivial
    exact (total_modify _).bind fun _ => (total_modify _).bind fun _ => total_modify _
  | popf => exact iff_of_true keeps_opcodePopf trivial
  | iret => exact iff_of_true keeps_opcodeIret trivial
  | inbImm => exact iff_of_true (total_opcodeIn _ _).keeps trivial
  | inImm => exact iff_of_true (total_opcodeIn _ _).keeps trivial
  | inbDx => exact iff_of_true (total_get.bind fun _ => total_opcodeIn _ _).keeps trivial
  | inDx => exact iff_of_true (total_get.bind fun _ => total_opcodeIn _ _).keeps trivial
  | outbImm => exact iff_of_true (total_opcodeOut _ _).keeps trivial
  | outImm => exact iff_of_true (total_opcodeOut _ _).keeps trivial
  | outbDx => exact iff_of_true (total_get.bind fun _ => total_opcodeOut _ _).keeps trivial
  | outDx => exact iff_of_true (total_get.bind fun _ => total_opcodeOut _ _).keeps trivial
  | movToSr => exact iff_of_true keeps_writingSreg trivial
  | popSr r => exact iff_of_true keeps_writingSreg trivial
  | jmpFarDirect => exact iff_of_true keeps_writingSreg trivial
  | jmpFarIndirect => exact iff_of_true keeps_writingSreg trivial
  | retf => exact iff_of_true keeps_writingSreg trivial
  | movToCr => exact iff_of_true total_opcodeMovToCr.keeps trivial
  | movFromCr => exact iff_of_true total_opcodeMovFromCr.keeps trivial
  | clts => exact iff_of_true ((total_modify _).bind fun _ => total_updateIp).keeps trivial
  | wbinvd => exact iff_of_true total_updateIp.keeps trivial
  | wrmsr => exact iff_of_true keeps_opcodeWrmsr trivial
  | movzxRm8ToR => exact iff_of_true keeps_opcodeMovzx trivial
  | movzxRm16ToR => exact iff_of_true keeps_opcodeMovzx trivial
  | lss => exact iff_of_true keeps_opcode0fLss trivial
  | lgdt => exact iff_of_true keeps_opcodeLdt trivial
  | lidt => exact iff_of_true keeps_opcodeLdt trivial
  | lmsw => exact iff_of_true keeps_opcodeLmsw trivial
  | invlpg => exact iff_of_true ((total_modify _).bind fun _ => total_updateIp).keeps trivial
  | btImm => exact iff_of_true keeps_opcodeBtImm trivial
  | into => exact iff_of_true total_panic.keeps trivial
  | movToDr => exact iff_of_true total_panic.keeps trivial
  | movFromDr => exact iff_of_true total_panic.keeps trivial
  | invd => exact iff_of_true total_panic.keeps trivial

/-- The instruction is not MOVS, STOS, INS or OUTS. -/
def NonString (p : Platform S M) (g : Vcpu S M) : Prop :=
  ∀ o op, decode p g ≠ .ok (.string o, op)

/-- A run that returns an error leaves registers, flags, the instruction pointer, memory and the
registers of the system as they were. -/
def FailureKeeps (p : Platform S M) (g : Vcpu S M) : Prop :=
  ∀ e g', cpuInterpreter p g = (.error (.err e), g') → g' = g

theorem failureKeeps_iff_keeps : FailureKeeps p g ↔ Keeps Abort.Returned (cpuInterpreter p) g := by
  constructor
  · intro h e g' he hg'
    cases e with
    | err e => exact h e g' hg'
    | panic => exact absurd he id
  · exact fun h e g' hg' => h (.err e) g' trivial hg'

/-- When a failed emulation changes nothing. -/
theorem failureKeeps_iff_restartable (hstr : NonString p g) :
    FailureKeeps p g ↔ ∀ ins op, decode p g = .ok (ins, op) → Restartable p ins op g := by
  rw [failureKeeps_iff_keeps]
  unfold cpuInterpreter
  rw [keeps_reads_bind]
  have hexec : ∀ ins op, decode p g = .ok (ins, op) →
      (Keeps Abort.Returned (exec p ins op) g ↔ Restartable p ins op g) := by
    intro ins op hdec
    obtain ⟨hip, hpos, hle⟩ := decode_ip hdec
    exact keeps_exec_iff (decode_xchgRow hdec) hip hpos hle fun o heq => hstr o op (heq ▸ hdec)
  constructor
  · exact fun h ins op hdec => (hexec ins op hdec).mp (h (ins, op) hdec)
  · exact fun h x hdec => (hexec x.1 x.2 hdec).mpr (h x.1 x.2 hdec)

/-! ### An MSR that is not there -/

/-- RDMSR at address 0, in 16-bit code; no MSR but EFER can be read. -/
def missingMsr : Platform Unit Unit where
  readControlReg _ _ := 1
  writeControlReg _ _ s := s
  readSregAcr _ _ := accessRightsPBit
  readSregBase _ _ := 0
  readSregSel _ _ := some 0
  writeRealmodeSeg _ _ s := s
  ss_writeRealmodeSeg _ _ := rfl
  writingSreg _ _ := .sw
  readMsr n _ := (n != msrIa32Efer, 0)
  writeMsr _ _ _ := none
  idtrBase _ := 0
  writeGdtr _ _ s := s
  writeIdtr _ _ s := s
  invlpg _ s := s
  hlt s := s
  intEnabled s := s
  callIo _ _ _ g := (g, .rerun)
  getPte _ _ _ _ := .ok 0
  pteAddrMask := 0x000FFFFFFFFFF000
  readGphys _ gphys _ _ _ := if gphys = 0 then 0x0F else 0x32
  writeGphys _ _ _ _ _ m := m
  alu _ _ _ flags dst := (dst, flags)
  string _ _ := throw .panic

/-- A guest that has 1 in each register and reads the MSR with that number. -/
def readsMissingMsr : Vcpu Unit Unit where
  reg _ := 1
  ip := 0
  flags := 2
  world := ⟨(), ()⟩

/-- `op` of the decoded instruction. -/
def rdmsrOp : InstOp :=
  { firstOp missingMsr readsMissingMsr with ipOff := 2 }

theorem decode_missingMsr : decode missingMsr readsMissingMsr = .ok (.rdmsr, rdmsrOp) := by
  rfl

theorem nonString_missingMsr : NonString missingMsr readsMissingMsr := by
  intro o op h
  rw [decode_missingMsr] at h
  cases h

theorem failureKeeps_iff_restartable_missingMsr :
    NonString missingMsr readsMissingMsr ∧
      (FailureKeeps missingMsr readsMissingMsr ↔
        ∀ ins op, decode missingMsr readsMissingMsr = .ok (ins, op) →
          Restartable missingMsr ins op readsMissingMsr) :=
  ⟨nonString_missingMsr, failureKeeps_iff_restartable nonString_missingMsr⟩

/-- The guest gets a fault, with RAX and RDX cleared. -/
theorem rdmsr_fault_changes_registers :
    NonString missingMsr readsMissingMsr ∧
      cpuInterpreter missingMsr readsMissingMsr =
        (.error (.err .msrFault), rdmsrRegs 0 readsMissingMsr) ∧
      (rdmsrRegs 0 readsMissingMsr).reg .rax = 0 ∧ readsMissingMsr.reg .rax = 1 ∧
      ¬ FailureKeeps missingMsr readsMissingMsr := by
  have hrun : cpuInterpreter missingMsr readsMissingMsr =
      (.error (.err .msrFault), rdmsrRegs 0 readsMissingMsr) := by
    unfold cpuInterpreter
    rw [bind_ok (show reads (decode missingMsr) readsMissingMsr =
      (.ok (.rdmsr, rdmsrOp), readsMissingMsr) by rw [reads, decode_missingMsr])]
    rfl
  refine ⟨nonString_missingMsr, hrun, rfl, rfl, fun h => ?_⟩
  have hsame : rdmsrRegs 0 readsMissingMsr = readsMissingMsr := h _ _ hrun
  have hrax : (rdmsrRegs 0 readsMissingMsr).reg .rax = readsMissingMsr.reg .rax := by
    rw [hsame]
  exact absurd hrax (by decide)

end OnDemandVirt.Vmm.Interp
