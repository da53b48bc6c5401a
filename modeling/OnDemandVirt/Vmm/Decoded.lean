import OnDemandVirt.Vmm.Decode

/-!
# What decoding gives

The instruction that is decoded starts where the guest stands and is 1 to 15 bytes long, and what it
has of the tables is one of their rows. Both are facts about the parts of `decode` that a sequence of
parts has when each of them has it.
-/

namespace OnDemandVirt.Vmm.Interp

open Lib.LowBits

variable {S M : Type} {p : Platform S M} {g : Vcpu S M} {α β : Type}

theorem bind_eq_ok_iff {d : Decode α} {f : α → Decode β} {op op' : InstOp} {b : β} :
    (d >>= f) op = .ok (b, op') ↔ ∃ a t, d op = .ok (a, t) ∧ f a t = .ok (b, op') := by
  change (d op >>= fun x => f x.1 x.2) = _ ↔ _
  rcases d op with _ | ⟨a, t⟩
  · simp [bind, Except.bind]
  · simp [bind, Except.bind]

/-! ### The bytes that are read -/

/-- A part that reads on, up to the 15th byte. -/
def Advances (d : Decode α) : Prop :=
  ∀ op a op', d op = .ok (a, op') →
    op'.ip = op.ip ∧ op.ipOff ≤ op'.ipOff ∧ (op.ipOff ≤ 15 → op'.ipOff ≤ 15)

theorem advances_pure (a : α) : Advances (pure a) := by
  rintro op _ _ ⟨⟩
  exact ⟨rfl, Nat.le_refl _, id⟩

theorem advances_get : Advances get := by
  rintro op _ _ ⟨⟩
  exact ⟨rfl, Nat.le_refl _, id⟩

theorem advances_fail (e : Abort) : Advances (fail e : Decode α) := by
  intro op a op' h
  cases h

theorem advances_modify {f : InstOp → InstOp} (hip : ∀ op, (f op).ip = op.ip)
    (hoff : ∀ op, (f op).ipOff = op.ipOff) : Advances (modify f) := by
  rintro op _ _ ⟨⟩
  rw [hip, hoff]
  exact ⟨rfl, Nat.le_refl _, id⟩

theorem Advances.bind {d : Decode α} {f : α → Decode β} (hd : Advances d)
    (hf : ∀ a, Advances (f a)) : Advances (d >>= f) := by
  intro op b op' h
  obtain ⟨a, t, hda, hfa⟩ := bind_eq_ok_iff.1 h
  obtain ⟨hip, hle, hend⟩ := hd op a t hda
  obtain ⟨hip', hle', hend'⟩ := hf a t b op' hfa
  exact ⟨hip'.trans hip, hle.trans hle', hend' ∘ hend⟩

/-- A byte that is read is one of the first 15. -/
theorem readNextB_eq_ok {op op' : InstOp} {b : BitVec 64} (h : readNextB p g op = .ok (b, op')) :
    op.ipOff < 15 ∧ op' = { op with ipOff := op.ipOff + 1 } := by
  unfold readNextB at h
  split at h
  · cases h
  · rename_i hoff
    rcases hread : cpuSegRead p 1 .cs (op.ip + BitVec.ofNat 64 op.ipOff) g with e | x
    · rw [hread] at h
      cases h
    · rw [hread] at h
      cases h
      exact ⟨by omega, rfl⟩

theorem advances_readNextB : Advances (readNextB p g) := by
  intro op b op' h
  obtain ⟨hlt, rfl⟩ := readNextB_eq_ok h
  refine ⟨rfl, ?_, fun _ => ?_⟩
  · exact Nat.le_succ op.ipOff
  · exact hlt

theorem advances_readNextW : Advances (readNextW p g) :=
  Advances.bind advances_readNextB fun _ => Advances.bind advances_readNextB fun _ =>
    advances_pure _

theorem advances_readNextL : Advances (readNextL p g) :=
  Advances.bind advances_readNextW fun _ => Advances.bind advances_readNextW fun _ =>
    advances_pure _

theorem advances_readModrmB : Advances (readModrmB p g) :=
  Advances.bind advances_readNextB fun _ => advances_modify (fun _ => by rfl) fun _ => by rfl

theorem advances_readDisp (n : Nat) : Advances (readDisp p g n) := by
  unfold readDisp
  split
  · exact Advances.bind advances_readNextB fun _ => advances_pure _
  · exact Advances.bind advances_readNextW fun _ => advances_pure _
  · exact Advances.bind advances_readNextL fun _ => advances_pure _
  · exact advances_pure _

theorem advances_readBase (m : ModrmInfo) : Advances (readBase p g m) := by
  refine Advances.bind advances_get fun op => ?_
  split
  · exact Advances.bind advances_readNextB fun _ => advances_pure _
  · exact advances_pure _

theorem advances_getModrm : Advances (getModrm p g) := by
  refine Advances.bind advances_get fun op => ?_
  split
  · exact advances_pure _
  · exact (advances_readBase _).bind fun _ => (advances_readDisp _).bind fun _ =>
      advances_modify (fun _ => by rfl) fun _ => by rfl

theorem advances_fetchModrm : Advances (fetchModrm p g) :=
  Advances.bind advances_readModrmB fun _ => advances_getModrm

theorem advances_readMoffs : Advances (readMoffs p g) := by
  refine Advances.bind advances_get fun op => ?_
  dsimp only
  split
  · exact Advances.bind advances_readNextW fun _ =>
      advances_modify (fun _ => by rfl) fun _ => by rfl
  · exact Advances.bind advances_readNextL fun _ =>
      advances_modify (fun _ => by rfl) fun _ => by rfl

theorem advances_readImmB : Advances (readImmB p g) :=
  Advances.bind advances_readNextB fun _ => advances_modify (fun _ => by rfl) fun _ => by rfl

theorem advances_readImme1 (len : Nat) : Advances (readImme1 p g len) :=
  Advances.bind advances_readNextB fun _ => advances_modify (fun _ => by rfl) fun _ => by rfl

theorem advances_readImme2 : Advances (readImme2 p g) := by
  refine Advances.bind advances_get fun op => ?_
  dsimp only
  split
  · exact Advances.bind advances_readNextW fun _ =>
      advances_modify (fun _ => by rfl) fun _ => by rfl
  · exact Advances.bind advances_readNextL fun _ =>
      advances_modify (fun _ => by rfl) fun _ => by rfl

theorem advances_decodeGrp3 (id : Idata) : Advances (decodeGrp3 p g id) := by
  unfold decodeGrp3
  split
  · dsimp only
    split
    · exact (advances_readImme1 _).bind fun _ => advances_pure _
    · exact Advances.bind advances_readImme2 fun _ => advances_pure _
  · exact advances_pure _

theorem advances_decodeIdata (id : Idata) : Advances (decodeIdata p g id) := by
  unfold decodeIdata
  split
  · exact Advances.bind advances_fetchModrm fun _ => advances_pure _
  · exact Advances.bind advances_fetchModrm fun _ => (advances_readImme1 _).bind fun _ =>
      advances_pure _
  · exact (advances_readImme1 _).bind fun _ => advances_pure _
  · exact Advances.bind advances_fetchModrm fun _ => Advances.bind advances_readImme2 fun _ =>
      advances_pure _
  · exact Advances.bind advances_readImme2 fun _ => advances_pure _
  · exact Advances.bind advances_readMoffs fun _ => advances_pure _
  · refine Advances.bind advances_fetchModrm fun _ => Advances.bind advances_get fun op => ?_
    split
    · exact advances_decodeGrp3 _
    · exact advances_fail _
  · exact advances_decodeGrp3 _
  · exact advances_decodeGrp3 _

theorem advances_decode0F01 : Advances (decode0F01 p g) := by
  refine Advances.bind advances_readModrmB fun _ => Advances.bind advances_get fun op => ?_
  dsimp only
  split
  · exact Advances.bind advances_getModrm fun _ => advances_pure _
  · exact advances_fail _

theorem advances_decode0FBA : Advances (decode0FBA p g) := by
  refine Advances.bind advances_readModrmB fun _ => Advances.bind advances_get fun op => ?_
  split
  · exact Advances.bind advances_getModrm fun _ => Advances.bind advances_readImmB fun _ =>
      advances_pure _
  · exact advances_fail _

theorem advances_decode0F : Advances (decode0F p g) := by
  refine Advances.bind advances_readNextB fun code => Advances.bind advances_get fun op => ?_
  split
  · exact advances_decode0F01
  · exact advances_decode0FBA
  iterate 4 exact Advances.bind advances_readModrmB fun _ => advances_pure _
  iterate 5 exact advances_pure _
  iterate 2 exact Advances.bind advances_fetchModrm fun _ => advances_pure _
  · split
    · exact advances_fail _
    · split
      iterate 4 exact advances_pure _
      · exact Advances.bind advances_fetchModrm fun _ => advances_pure _
      · exact advances_fail _

theorem advances_decodeFF : Advances (decodeFF p g) := by
  refine Advances.bind advances_fetchModrm fun _ => Advances.bind advances_get fun op => ?_
  split
  · exact advances_pure _
  · exact advances_pure _
  · exact advances_fail _

theorem advances_decode8F : Advances (decode8F p g) := by
  refine Advances.bind advances_fetchModrm fun _ => Advances.bind advances_get fun op => ?_
  split
  · exact advances_pure _
  · exact advances_fail _

theorem advances_decodeOpcode (code : Nat) : Advances (decodeOpcode p g code) := by
  unfold decodeOpcode
  split
  case h_1 => exact advances_decode0F
  all_goals first
    | exact advances_pure _
    | exact Advances.bind advances_readImmB fun _ => advances_pure _
    | exact Advances.bind advances_fetchModrm fun _ => advances_pure _
    | exact advances_decodeFF
    | exact advances_decode8F
    | skip
  split
  · exact advances_decodeIdata _
  · exact advances_fail _

theorem advances_readPrefixes (n : Nat) : Advances (readPrefixes p g n) := by
  induction n with
  | zero => exact advances_fail _
  | succ n ih =>
    refine Advances.bind advances_readNextB fun code => Advances.bind advances_get fun op => ?_
    split
    · exact advances_fail _
    · split
      · exact (advances_modify (fun _ => by rfl) fun _ => by rfl).bind fun _ => ih
      · exact advances_pure _

/-- The sizes do not touch the position. -/
theorem sized_ip (code : CodeSize) (pfx : InstPrefix) (ip : BitVec 64) (ipOff : Nat) :
    (Op.sized code pfx ip ipOff).ip = ip ∧ (Op.sized code pfx ip ipOff).ipOff = ipOff := by
  cases code <;> exact ⟨rfl, rfl⟩

theorem advances_readRex (code : BitVec 64) : Advances (readRex p g code) := by
  unfold readRex
  dsimp only
  split
  · refine Advances.bind advances_readNextB fun code' => Advances.bind ?_ fun _ => advances_pure _
    exact advances_modify (fun _ => by exact (sized_ip _ _ _ _).1)
      fun _ => by exact (sized_ip _ _ _ _).2
  · refine (advances_pure _).bind fun code' => Advances.bind ?_ fun _ => advances_pure _
    exact advances_modify (fun _ => by exact (sized_ip _ _ _ _).1)
      fun _ => by exact (sized_ip _ _ _ _).2

/-- At least one byte is read. -/
theorem pos_of_readPrefixes {n : Nat} {op op' : InstOp} {code : BitVec 64}
    (h : readPrefixes p g n op = .ok (code, op')) : 0 < op'.ipOff := by
  cases n with
  | zero => cases h
  | succ n =>
    obtain ⟨b, t, hb, hrest⟩ := bind_eq_ok_iff.1 h
    obtain ⟨-, rfl⟩ := readNextB_eq_ok hb
    have hle : op.ipOff + 1 ≤ op'.ipOff := by
      refine (Advances.bind advances_get ?_ _ _ _ hrest).2.1
      intro op
      split
      · exact advances_fail _
      · split
        · exact (advances_modify (fun _ => by rfl) fun _ => by rfl).bind fun _ =>
            advances_readPrefixes n
        · exact advances_pure _
    omega

/-- The instruction starts at the guest's instruction pointer and has 1 to 15 bytes. -/
theorem decode_ip {ins : Opcode} {op : InstOp} (h : decode p g = .ok (ins, op)) :
    op.ip = g.ip ∧ 0 < op.ipOff ∧ op.ipOff ≤ 15 := by
  obtain ⟨code, t, hpfx, hrest⟩ := bind_eq_ok_iff.1 h
  have hpos : 0 < t.ipOff := pos_of_readPrefixes hpfx
  obtain ⟨hip, -, hend⟩ := advances_readPrefixes 15 _ _ _ hpfx
  have hadv : Advances (do
      let code ← readRex p g code
      decodeOpcode p g code.toNat : Decode Opcode) :=
    (advances_readRex code).bind fun code => advances_decodeOpcode code.toNat
  obtain ⟨hip', hle', hend'⟩ := hadv _ _ _ hrest
  exact ⟨hip'.trans hip, by omega, hend' (hend (Nat.zero_le 15))⟩

/-! ### The rows of the tables -/

/-- A result that has some property. -/
def Gives (Q : α → Prop) (d : Decode α) : Prop := ∀ op a op', d op = .ok (a, op') → Q a

variable {Q : α → Prop}

theorem gives_pure {a : α} (h : Q a) : Gives Q (pure a) := by
  rintro op _ _ ⟨⟩
  exact h

theorem gives_fail (e : Abort) : Gives Q (fail e) := by
  intro op a op' h
  cases h

theorem gives_bind {d : Decode β} {f : β → Decode α} (h : ∀ b, Gives Q (f b)) :
    Gives Q (d >>= f) := by
  intro op a op' hd
  obtain ⟨b, t, -, hf⟩ := bind_eq_ok_iff.1 hd
  exact h b t a op' hf

/-- XCHG is from a register to what ModR/M names. -/
def Idata.XchgRow (id : Idata) : Prop := id.func = .xchg → id.dst = .m ∧ id.src = .r

theorem grp1_ne_xchg (n : Nat) : grp1 n ≠ .xchg := by
  unfold grp1
  split <;> decide

theorem grp2_ne_xchg (n : Nat) : grp2 n ≠ .xchg := by
  unfold grp2
  split <;> decide

theorem xchgRow_of_idataRow {code : Nat} {id : Idata} (h : idataRow code = some id) :
    id.XchgRow := by
  unfold idataRow at h
  split at h
  · -- The rows of `grp1`.
    split at h
    all_goals first
      | exact fun hx => absurd (Option.some.inj h ▸ hx) (grp1_ne_xchg _)
      | cases h
  · split at h
    all_goals cases h
    all_goals first
      | exact fun _ => ⟨rfl, rfl⟩
      | exact fun hx => (nomatch hx)

theorem xchgRow_of_grp3 {len n : Nat} {id : Idata} (h : grp3 len n = some id) : id.XchgRow := by
  unfold grp3 at h
  split at h
  all_goals cases h
  all_goals exact fun hx => (nomatch hx)

/-- An instruction of the tables is one of their rows. -/
def Opcode.XchgRow : Opcode → Prop
  | .idata id => id.XchgRow
  | _ => True

theorem gives_decodeGrp3 {id : Idata} (h : id.XchgRow) :
    Gives Opcode.XchgRow (decodeGrp3 p g id) := by
  unfold decodeGrp3
  split
  · dsimp only
    split
    · exact gives_bind fun _ => gives_pure h
    · exact gives_bind fun _ => gives_pure h
  · exact gives_pure h

theorem gives_decodeIdata {id : Idata} (h : id.XchgRow) :
    Gives Opcode.XchgRow (decodeIdata p g id) := by
  unfold decodeIdata
  split
  case h_7 =>
    refine gives_bind fun _ => gives_bind fun op => ?_
    split
    · rename_i id' hrow
      exact gives_decodeGrp3 (xchgRow_of_grp3 hrow)
    · exact gives_fail _
  all_goals first
    | exact gives_decodeGrp3 h
    | exact gives_bind fun _ => gives_pure h
    | exact gives_bind fun _ => gives_bind fun _ => gives_pure h

theorem gives_decode0F01 : Gives Opcode.XchgRow (decode0F01 p g) := by
  refine gives_bind fun _ => gives_bind fun op => ?_
  dsimp only
  split
  · rename_i ins hins
    refine gives_bind fun _ => gives_pure ?_
    split at hins <;> cases hins <;> trivial
  · exact gives_fail _

theorem gives_decode0FBA : Gives Opcode.XchgRow (decode0FBA p g) := by
  refine gives_bind fun _ => gives_bind fun op => ?_
  split
  · exact gives_bind fun _ => gives_bind fun _ => gives_pure trivial
  · exact gives_fail _

theorem gives_decode0F : Gives Opcode.XchgRow (decode0F p g) := by
  refine gives_bind fun code => gives_bind fun op => ?_
  split
  case h_1 => exact gives_decode0F01
  case h_2 => exact gives_decode0FBA
  all_goals first
    | exact gives_pure trivial
    | exact gives_bind fun _ => gives_pure trivial
    | skip
  split
  · exact gives_fail _
  · split
    all_goals first
      | exact gives_pure trivial
      | exact gives_bind fun _ => gives_pure trivial
      | exact gives_fail _

theorem gives_decodeFF : Gives Opcode.XchgRow (decodeFF p g) := by
  refine gives_bind fun _ => gives_bind fun op => ?_
  split
  · exact gives_pure trivial
  · exact gives_pure trivial
  · exact gives_fail _

theorem gives_decode8F : Gives Opcode.XchgRow (decode8F p g) := by
  refine gives_bind fun _ => gives_bind fun op => ?_
  split
  · exact gives_pure trivial
  · exact gives_fail _

theorem gives_decodeOpcode (code : Nat) : Gives Opcode.XchgRow (decodeOpcode p g code) := by
  unfold decodeOpcode
  split
  case h_1 => exact gives_decode0F
  all_goals first
    | exact gives_pure trivial
    | exact gives_bind fun _ => gives_pure trivial
    | exact gives_decodeFF
    | exact gives_decode8F
    | skip
  split
  · rename_i id hrow
    exact gives_decodeIdata (xchgRow_of_idataRow hrow)
  · exact gives_fail _

theorem decode_xchgRow {ins : Opcode} {op : InstOp} (h : decode p g = .ok (ins, op)) :
    ins.XchgRow := by
  have hgives : Gives Opcode.XchgRow (do
      let code ← readPrefixes p g 15
      let code ← readRex p g code
      decodeOpcode p g code.toNat : Decode Opcode) :=
    gives_bind fun _ => gives_bind fun code => gives_decodeOpcode code.toNat
  exact hgives _ _ _ h

end OnDemandVirt.Vmm.Interp
