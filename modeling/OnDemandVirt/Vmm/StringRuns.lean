import OnDemandVirt.Vmm.StringInst

/-!
# What a string instruction leaves behind

The elements of a string instruction, one after the other, are what the instruction is for. The
loop of the interpreter does the first of them, and ends with the count, the indexes and the
instruction pointer of a guest that is ready to do the others; but when an element stops a repeated
instruction the count is one too low and the indexes are those of the first element.
-/

namespace OnDemandVirt.Vmm

open Lib.LowBits

theorem Width.bits_le (w : Width) : w.bits ≤ 64 := by cases w <;> decide

variable {W : Type} (bus : Bus W) (op : Op) (a : StringArgs) (g : Guest W)

/-! ### The elements -/

/-- From an element to the next one. -/
def stringStep (flags : BitVec 64) : BitVec 64 :=
  if flags &&& rflagsDfBit ≠ 0 then -BitVec.ofNat 64 a.len else BitVec.ofNat 64 a.len

/-- The index of element `i`. -/
def elementIndex (r : GeneralReg) (i : Nat) : BitVec 64 :=
  g.reg r + BitVec.ofNat 64 i * stringStep a g.flags

/-- The work on element `i`. -/
def element (i : Nat) (w : W) : W × ElementEnd :=
  stringElement bus op a { g with world := w } (elementIndex a g .rsi i) (elementIndex a g .rdi i)

/-- The first `k` elements, where all of them succeed. -/
def runElements : Nat → Option W
  | 0 => some g.world
  | k + 1 =>
    (runElements k).bind fun w =>
      match element bus op a g k w with
      | (w', .ok) => some w'
      | _ => none

/-- The count in a register of the width `w`. -/
def countAt (w : Width) : Nat := (low w.bits (g.reg .rcx)).toNat

/-- The elements that one call gets to: with interrupts enabled at most 17. -/
def rounds : Nat :=
  if op.rep then
    if g.flags &&& rflagsIfBit ≠ 0 then min (countAt g op.reptype) 17 else countAt g op.reptype
  else 1

variable {bus op a g} {g' : Guest W} {l : StringLocals} {k : Nat}

theorem low_elementIndex_succ (r : GeneralReg) {reg : BitVec 64}
    (h : low op.addrtype.bits reg = low op.addrtype.bits (elementIndex a g r k)) :
    low op.addrtype.bits (stringIndex op a g.flags reg) =
      low op.addrtype.bits (elementIndex a g r (k + 1)) := by
  have hbits := op.addrtype.bits_le
  have hidx : low op.addrtype.bits (stringIndex op a g.flags reg) =
      low op.addrtype.bits (reg + stringStep a g.flags) := by
    simp only [stringIndex, low_setLow, stringStep]
    split
    · rw [BitVec.sub_eq_add_neg]
      exact low_add hbits (low_low _ _) rfl
    · exact low_add hbits (low_low _ _) rfl
  have hsucc : elementIndex a g r (k + 1) = elementIndex a g r k + stringStep a g.flags := by
    rw [elementIndex, elementIndex, BitVec.ofNat_add, BitVec.add_mul, BitVec.one_mul,
      BitVec.add_assoc]
  rw [hidx, hsucc]
  exact low_add hbits h rfl

/-- An element depends on the indexes only through their low parts. -/
theorem stringElement_congr {regr regr' regw regw' : BitVec 64} (hw : g'.world = g.world)
    (hax : g'.reg .rax = g.reg .rax) (hdx : g'.reg .rdx = g.reg .rdx)
    (hr : a.rd = true → low op.addrtype.bits regr' = low op.addrtype.bits regr)
    (hwr : a.wr = true → low op.addrtype.bits regw' = low op.addrtype.bits regw) :
    stringElement bus op a g' regr' regw' = stringElement bus op a g regr regw := by
  have hread : (if a.rd then
        bus.read op.longmode (op.pfx.seg.getD .ds) (low op.addrtype.bits regr') a.len g'.world
      else (g'.world, some 0)) =
      if a.rd then
        bus.read op.longmode (op.pfx.seg.getD .ds) (low op.addrtype.bits regr) a.len g.world
      else (g.world, some 0) := by
    split
    · rw [hr ‹_›, hw]
    · rw [hw]
  have hexec : ∀ w data, execInst bus a.exec { g' with world := w } data =
      execInst bus a.exec { g with world := w } data := by
    intro w data
    cases a.exec <;> simp [execInst, hax, hdx]
  simp only [stringElement, hread, hexec]
  cases hwr' : a.wr with
  | false => rfl
  | true => rw [hwr hwr']

/-! ### The loop -/

/-- Before iteration `k`: the count is already in the register, the indexes are in the local
variables. -/
structure StringInv (bus : Bus W) (op : Op) (a : StringArgs) (g : Guest W) (k : Nat) (g' : Guest W)
    (l : StringLocals) : Prop where
  reg : g'.reg =
    if op.rep then Function.update g.reg .rcx (g.reg .rcx - BitVec.ofNat 64 k) else g.reg
  ip : g'.ip = g.ip
  flags : g'.flags = g.flags
  world : runElements bus op a g k = some g'.world
  regr : a.rd = true →
    low op.addrtype.bits l.regr = low op.addrtype.bits (elementIndex a g .rsi k)
  regw : a.wr = true →
    low op.addrtype.bits l.regw = low op.addrtype.bits (elementIndex a g .rdi k)
  loopcount : l.loopcount = if g.flags &&& rflagsIfBit ≠ 0 then 16 - k else 16
  completed : l.completed = k

/-- A call that did all the elements it got to. -/
structure StringFinished (bus : Bus W) (op : Op) (a : StringArgs) (g : Guest W)
    (r : StringResult W) : Prop where
  completed : r.completed = rounds op g
  world : runElements bus op a g (rounds op g) = some r.guest.world
  rcx : r.guest.reg .rcx =
    if op.rep then g.reg .rcx - BitVec.ofNat 64 (rounds op g) else g.reg .rcx
  rsi : a.rd = true → low op.addrtype.bits (r.guest.reg .rsi) =
    low op.addrtype.bits (elementIndex a g .rsi (rounds op g))
  rdi : a.wr = true → low op.addrtype.bits (r.guest.reg .rdi) =
    low op.addrtype.bits (elementIndex a g .rdi (rounds op g))
  others : ∀ q, q ≠ .rcx → (a.rd = true → q ≠ .rsi) → (a.wr = true → q ≠ .rdi) →
    r.guest.reg q = g.reg q
  flags : r.guest.flags = g.flags
  ip : r.guest.ip =
    if op.rep = true ∧ rounds op g ≠ countAt g op.reptype then g.ip
    else op.ip + BitVec.ofNat 64 op.ipOff

/-- A call that element `m` stopped: the count is already that of the next element, the indexes are
those of the first. -/
structure StringStopped (bus : Bus W) (op : Op) (a : StringArgs) (g : Guest W) (m : Nat)
    (r : StringResult W) : Prop where
  lt : m < rounds op g
  completed : r.completed = m
  before : (runElements bus op a g m).isSome = true
  fails : runElements bus op a g (m + 1) = none
  reg : r.guest.reg =
    if op.rep then Function.update g.reg .rcx (g.reg .rcx - BitVec.ofNat 64 (m + 1)) else g.reg
  flags : r.guest.flags = g.flags
  ip : r.guest.ip = g.ip

theorem rounds_le_countAt (h : op.rep = true) : rounds op g ≤ countAt g op.reptype := by
  unfold rounds
  rw [if_pos h]
  split <;> omega

/-- There is another iteration in this call after `k` while neither the count nor the budget is
used up. -/
theorem iterates_iff (h : op.rep = true) (hk : k < rounds op g) :
    (countAt g op.reptype - (k + 1) ≠ 0 ∧
      (if g.flags &&& rflagsIfBit ≠ 0 then 16 - k else 16) ≠ 0) ↔ k + 1 < rounds op g := by
  unfold rounds at *
  rw [if_pos h] at *
  split <;> rename_i hif
  · rw [if_pos hif] at hk
    omega
  · rw [if_neg hif] at hk
    omega

theorem runElements_succ_of_ok {w w' : W} (hw : runElements bus op a g k = some w)
    (he : element bus op a g k w = (w', .ok)) : runElements bus op a g (k + 1) = some w' := by
  simp [runElements, hw, he]

theorem runElements_succ_of_stop {w : W} (hw : runElements bus op a g k = some w)
    (he : (element bus op a g k w).2 ≠ .ok) : runElements bus op a g (k + 1) = none := by
  rw [runElements, hw, Option.bind_some]
  split
  · rename_i heq
    exact absurd (by rw [heq]) he
  · rfl

theorem runElements_none_of_le {m : Nat} (h : runElements bus op a g k = none) (hm : k ≤ m) :
    runElements bus op a g m = none := by
  induction m, hm using Nat.le_induction with
  | base => exact h
  | succ m _ ih => rw [runElements, ih, Option.bind_none]

/-- `cnt`, after the decrement. -/
def cntLeft (op : Op) (g : Guest W) : BitVec 64 :=
  if op.rep then low op.reptype.bits (g.reg .rcx) - 1 else 0

/-- The guest after the count has been stored. -/
def decCount (op : Op) (g : Guest W) : Guest W :=
  if op.rep then g.setReg .rcx (setLow op.reptype.bits (g.reg .rcx) (cntLeft op g)) else g

/-- The locals for the next iteration. -/
def nextLocals (op : Op) (a : StringArgs) (flags : BitVec 64) (l : StringLocals) : StringLocals where
  regr := if a.rd then stringIndex op a flags l.regr else l.regr
  regw := if a.wr then stringIndex op a flags l.regw else l.regw
  loopcount := if flags &&& rflagsIfBit ≠ 0 then l.loopcount - 1 else l.loopcount
  completed := l.completed + 1

/-- The indexes go into the registers. -/
def storeIndexes (a : StringArgs) (g : Guest W) (l : StringLocals) : Guest W :=
  let g := if a.rd then g.setReg .rsi l.regr else g
  if a.wr then g.setReg .rdi l.regw else g

theorem stringLoop_succ {fuel : Nat}
    (h : op.rep = true → low op.reptype.bits (g.reg .rcx) ≠ 0) :
    stringLoop bus op a (fuel + 1) g l =
      let e := stringElement bus op a (decCount op g) l.regr l.regw
      let g' := { decCount op g with world := e.1 }
      let l' := nextLocals op a g'.flags l
      match e.2 with
      | .fault => some ⟨true, g', l.completed⟩
      | .rerun => some ⟨false, g', l.completed⟩
      | .ok =>
        if cntLeft op g ≠ 0 ∧ l.loopcount ≠ 0 then stringLoop bus op a fuel g' l'
        else
          let g' := storeIndexes a g' l'
          some ⟨false, if cntLeft op g = 0 then g'.updateIp op else g', l'.completed⟩ := by
  have hcnt : (op.rep && decide (low op.reptype.bits (g.reg .rcx) = 0)) = false := by
    cases hrep : op.rep with
    | false => rfl
    | true => exact decide_eq_false (h hrep)
  rw [stringLoop, hcnt]
  rfl

@[simp] theorem decCount_ip : (decCount op g).ip = g.ip := by
  unfold decCount
  split <;> rfl

@[simp] theorem decCount_flags : (decCount op g).flags = g.flags := by
  unfold decCount
  split <;> rfl

@[simp] theorem decCount_world : (decCount op g).world = g.world := by
  unfold decCount
  split <;> rfl

/-- The count of a repeated instruction before iteration `k`. -/
theorem StringInv.count (hi : StringInv bus op a g k g' l) (hrep : op.rep = true)
    (hk : k < rounds op g) :
    (low op.reptype.bits (g'.reg .rcx)).toNat = countAt g op.reptype - k := by
  have hle := rounds_le_countAt (g := g) hrep
  rw [hi.reg, if_pos hrep, Function.update_self]
  exact toNat_low_sub op.reptype.bits_le (by unfold countAt at hle; omega)

theorem StringInv.cntLeft (hi : StringInv bus op a g k g' l) (hrep : op.rep = true)
    (hk : k < rounds op g) : (cntLeft op g').toNat = countAt g op.reptype - (k + 1) := by
  have hle := rounds_le_countAt (g := g) hrep
  have hcount := hi.count hrep hk
  rw [OnDemandVirt.Vmm.cntLeft, if_pos hrep]
  have hsub : (low op.reptype.bits (g'.reg .rcx) - 1).toNat =
      (low op.reptype.bits (g'.reg .rcx)).toNat - 1 := toNat_sub_ofNat (k := 1) (by omega)
  omega

/-- The count goes to memory before the element is done. -/
theorem StringInv.decCount_reg (hi : StringInv bus op a g k g' l) (hk : k < rounds op g) :
    (decCount op g').reg =
      if op.rep then Function.update g.reg .rcx (g.reg .rcx - BitVec.ofNat 64 (k + 1))
      else g.reg := by
  cases hrep : op.rep with
  | false =>
    have hreg := hi.reg
    rw [hrep] at hreg
    rw [decCount, hrep]
    exact hreg
  | true =>
    have hle := rounds_le_countAt (g := g) hrep
    have hcount := hi.count hrep hk
    have hsub := setLow_sub (x := g'.reg .rcx) (k := 1) op.reptype.bits_le (by omega)
    rw [decCount, hrep, OnDemandVirt.Vmm.cntLeft, if_pos hrep]
    simp only [if_true, Guest.setReg]
    rw [show (1 : BitVec 64) = BitVec.ofNat 64 1 from rfl, hsub, hi.reg, hrep]
    simp only [if_true, Function.update_self, Function.update_idem]
    congr 1
    rw [BitVec.ofNat_add]
    simp only [BitVec.sub_eq_add_neg, BitVec.neg_add, BitVec.add_assoc]

/-- The element of iteration `k` is that of the architecture. -/
theorem StringInv.element_eq (hi : StringInv bus op a g k g' l) (hk : k < rounds op g) :
    stringElement bus op a (decCount op g') l.regr l.regw = element bus op a g k g'.world := by
  have hreg := hi.decCount_reg hk
  have hother : ∀ r : GeneralReg, r ≠ .rcx → (decCount op g').reg r = g.reg r := by
    intro r hr
    rw [hreg]
    cases op.rep
    · rfl
    · exact Function.update_of_ne hr _ _
  exact stringElement_congr decCount_world (hother _ (by decide)) (hother _ (by decide)) hi.regr
    hi.regw

/-- The invariant after an iteration whose element is done. -/
theorem StringInv.next {w : W} (hi : StringInv bus op a g k g' l) (hk : k < rounds op g)
    (he : element bus op a g k g'.world = (w, .ok)) :
    StringInv bus op a g (k + 1) { decCount op g' with world := w }
      (nextLocals op a (decCount op g').flags l) where
  reg := hi.decCount_reg hk
  ip := decCount_ip.trans hi.ip
  flags := decCount_flags.trans hi.flags
  world := runElements_succ_of_ok hi.world he
  regr hrd := by
    simp only [nextLocals, hrd, if_true, decCount_flags, hi.flags]
    exact low_elementIndex_succ .rsi (hi.regr hrd)
  regw hwr := by
    simp only [nextLocals, hwr, if_true, decCount_flags, hi.flags]
    exact low_elementIndex_succ .rdi (hi.regw hwr)
  loopcount := by
    simp only [nextLocals, decCount_flags, hi.flags, hi.loopcount]
    split
    · omega
    · rfl
  completed := by simp only [nextLocals, hi.completed]

/-- The end of a call after its last iteration. -/
theorem StringInv.finished (hi : StringInv bus op a g (rounds op g) g' l) {b : Bool}
    (hip : b = true ↔ ¬ (op.rep = true ∧ rounds op g ≠ countAt g op.reptype)) :
    StringFinished bus op a g
      ⟨false, if b then (storeIndexes a g' l).updateIp op else storeIndexes a g' l,
        l.completed⟩ := by
  have hreg : (if b then (storeIndexes a g' l).updateIp op else storeIndexes a g' l).reg =
      (storeIndexes a g' l).reg := by cases b <;> rfl
  have hworld : (storeIndexes a g' l).world = g'.world := by
    unfold storeIndexes
    cases a.rd <;> cases a.wr <;> rfl
  constructor
  · exact hi.completed
  · refine hi.world.trans (congrArg some ?_)
    rw [← hworld]
    cases b <;> rfl
  · rw [hreg]
    have hcx : (storeIndexes a g' l).reg .rcx = g'.reg .rcx := by
      unfold storeIndexes
      cases a.rd <;> cases a.wr <;> rfl
    rw [hcx, hi.reg]
    cases op.rep
    · rfl
    · simp
  · intro hrd
    rw [hreg, ← hi.regr hrd]
    simp only [storeIndexes, hrd, if_true]
    cases a.wr <;> rfl
  · intro hwr
    rw [hreg, ← hi.regw hwr]
    simp only [storeIndexes, hwr, if_true]
    cases a.rd <;> rfl
  · intro q hcx hsi hdi
    have hq : (storeIndexes a g' l).reg q = g'.reg q := by
      unfold storeIndexes
      cases hrd : a.rd <;> cases hwr : a.wr <;>
        simp_all [Guest.setReg, Function.update_of_ne]
    rw [hreg, hq, hi.reg]
    split
    · exact Function.update_of_ne hcx _ _
    · rfl
  · rw [← hi.flags]
    unfold storeIndexes
    cases b <;> cases a.rd <;> cases a.wr <;> rfl
  · cases b with
    | true =>
      rw [if_neg (hip.mp rfl)]
      rfl
    | false =>
      have hcond : op.rep = true ∧ rounds op g ≠ countAt g op.reptype := by
        by_contra hc
        exact absurd (hip.mpr hc) (by decide)
      rw [if_pos hcond, ← hi.ip]
      simp only [storeIndexes]
      cases a.rd <;> cases a.wr <;> rfl

theorem rounds_of_not_rep (h : op.rep = false) : rounds op g = 1 := by
  simp [rounds, h]

/-- `cnt` is zero after iteration `k` exactly when that was the last element. -/
theorem StringInv.cntLeft_eq_zero_iff (hi : StringInv bus op a g k g' l) (hk : k < rounds op g) :
    OnDemandVirt.Vmm.cntLeft op g' = 0 ↔
      ¬ (op.rep = true ∧ k + 1 ≠ countAt g op.reptype) := by
  cases hrep : op.rep with
  | false => simp [OnDemandVirt.Vmm.cntLeft, hrep]
  | true =>
    have hle := rounds_le_countAt (g := g) hrep
    have hleft := hi.cntLeft hrep hk
    have hzero : OnDemandVirt.Vmm.cntLeft op g' = 0 ↔
        (OnDemandVirt.Vmm.cntLeft op g').toNat = 0 :=
      ⟨fun h => by rw [h]; rfl, fun h => BitVec.eq_of_toNat_eq h⟩
    rw [hzero, hleft]
    simp only [true_and, not_not]
    omega

/-- The loop goes on exactly when there is another iteration in this call. -/
theorem StringInv.continues_iff (hi : StringInv bus op a g k g' l) (hk : k < rounds op g) :
    (OnDemandVirt.Vmm.cntLeft op g' ≠ 0 ∧ l.loopcount ≠ 0) ↔ k + 1 < rounds op g := by
  rw [Ne, hi.cntLeft_eq_zero_iff hk, hi.loopcount, not_not]
  cases hrep : op.rep with
  | false =>
    have := rounds_of_not_rep (g := g) hrep
    simp only [false_and, Bool.false_eq_true, false_iff]
    omega
  | true =>
    have hle := rounds_le_countAt (g := g) hrep
    rw [← iterates_iff hrep hk]
    simp only [true_and]
    refine and_congr_left fun _ => ?_
    omega

/-- The loop, with fuel for the iterations that are left in this call. -/
theorem stringLoop_spec (fuel : Nat) :
    ∀ (k : Nat) (g' : Guest W) (l : StringLocals), StringInv bus op a g k g' l →
      k < rounds op g → rounds op g - k ≤ fuel →
      ∃ r, stringLoop bus op a fuel g' l = some r ∧
        (StringFinished bus op a g r ∨ ∃ m, StringStopped bus op a g m r) := by
  induction fuel with
  | zero =>
    intro k g' l _ hk hfuel
    omega
  | succ fuel ih =>
    intro k g' l hi hk hfuel
    have hne : op.rep = true → low op.reptype.bits (g'.reg .rcx) ≠ 0 := by
      intro hrep h0
      have hcount := hi.count hrep hk
      have hle := rounds_le_countAt (g := g) hrep
      have h00 : (0 : BitVec 64).toNat = 0 := rfl
      rw [h0, h00] at hcount
      omega
    rw [stringLoop_succ hne, hi.element_eq hk]
    rcases he : element bus op a g k g'.world with ⟨w, e⟩
    have hstop : e ≠ .ok → ∀ b : Bool, StringStopped bus op a g k
        ⟨b, { decCount op g' with world := w }, l.completed⟩ := fun hne b =>
      { lt := hk
        completed := hi.completed
        before := by rw [hi.world]; rfl
        fails := runElements_succ_of_stop hi.world (by rw [he]; exact hne)
        reg := hi.decCount_reg hk
        flags := decCount_flags.trans hi.flags
        ip := decCount_ip.trans hi.ip }
    cases e with
    | fault => exact ⟨_, rfl, .inr ⟨k, hstop (by decide) true⟩⟩
    | rerun => exact ⟨_, rfl, .inr ⟨k, hstop (by decide) false⟩⟩
    | ok =>
      have hnext := hi.next hk he
      have hlast := hi.cntLeft_eq_zero_iff hk
      simp only
      split
      · rename_i hc
        have hk' := (hi.continues_iff hk).mp hc
        exact ih (k + 1) _ _ hnext hk' (by omega)
      · rename_i hc
        have hk' : ¬ k + 1 < rounds op g := fun h => hc ((hi.continues_iff hk).mpr h)
        have hround : k + 1 = rounds op g := by omega
        rw [hround] at hnext hlast
        refine ⟨_, rfl, .inl ?_⟩
        have hfin := hnext.finished (b := decide (cntLeft op g' = 0))
          (decide_eq_true_iff.trans hlast)
        simpa only [decide_eq_true_eq] using hfin

theorem elementIndex_zero (r : GeneralReg) : elementIndex a g r 0 = g.reg r := by
  simp [elementIndex]

theorem stringInv_zero :
    StringInv bus op a g 0 g
      { regr := g.reg .rsi, regw := g.reg .rdi, loopcount := 16, completed := 0 } where
  reg := by
    split
    · simp
    · rfl
  ip := rfl
  flags := rfl
  world := rfl
  regr _ := by rw [elementIndex_zero]
  regw _ := by rw [elementIndex_zero]
  loopcount := by split <;> rfl
  completed := rfl

/-- A string instruction returns: it has done all the elements it got to, or one stopped it. -/
theorem stringInstruction_spec :
    ∃ r, stringInstruction bus op a g = some r ∧
      (StringFinished bus op a g r ∨ ∃ m, StringStopped bus op a g m r) := by
  unfold stringInstruction
  rcases Nat.eq_zero_or_pos (rounds op g) with h0 | hpos
  · -- A count of zero: nothing is done but the update of the instruction pointer.
    have hrep : op.rep = true := by
      by_contra h
      have := rounds_of_not_rep (g := g) (by simpa using h)
      omega
    have hcount : countAt g op.reptype = 0 := by
      unfold rounds at h0
      rw [if_pos hrep] at h0
      split at h0 <;> omega
    have hzero : low op.reptype.bits (g.reg .rcx) = 0 := BitVec.eq_of_toNat_eq hcount
    refine ⟨⟨false, g.updateIp op, 0⟩, by simp [stringLoop, hrep, hzero], .inl ?_⟩
    constructor
    · exact h0.symm
    · rw [h0]
      rfl
    · rw [h0]
      simp [Guest.updateIp]
    · intro _
      rw [h0, elementIndex_zero]
      rfl
    · intro _
      rw [h0, elementIndex_zero]
      rfl
    · exact fun _ _ _ _ => rfl
    · rfl
    · rw [if_neg (by omega)]
      rfl
  · refine stringLoop_spec _ 0 g _ stringInv_zero hpos ?_
    cases hrep : op.rep with
    | false => rw [rounds_of_not_rep hrep]; omega
    | true =>
      have := rounds_le_countAt (g := g) hrep
      unfold countAt at this
      omega

/-! ### Restarting -/

/-- The elements of the instruction, by the register that the address size selects. -/
def elementCount (op : Op) (g : Guest W) : Nat := if op.rep then countAt g op.addrtype else 1

/-- The guest is in the state after the completed elements: the count and the indexes, as the
address size sees them, and the instruction pointer, which moves when no element is left. -/
structure Restartable (op : Op) (a : StringArgs) (g : Guest W) (r : StringResult W) : Prop where
  count :
    if op.rep then (low op.addrtype.bits (r.guest.reg .rcx)).toNat + r.completed = elementCount op g
    else r.guest.reg .rcx = g.reg .rcx
  rsi : a.rd = true → low op.addrtype.bits (r.guest.reg .rsi) =
    low op.addrtype.bits (elementIndex a g .rsi r.completed)
  rdi : a.wr = true → low op.addrtype.bits (r.guest.reg .rdi) =
    low op.addrtype.bits (elementIndex a g .rdi r.completed)
  others : ∀ q, q ≠ .rcx → (a.rd = true → q ≠ .rsi) → (a.wr = true → q ≠ .rdi) →
    r.guest.reg q = g.reg q
  flags : r.guest.flags = g.flags
  ip : r.guest.ip =
    if r.completed = elementCount op g then g.ip + BitVec.ofNat 64 op.ipOff else g.ip

/-- The count that the loop uses and the one that the address size selects end the call in the same
way: they are equal, or both are over the budget of the call. -/
def CountsAgree (op : Op) (g : Guest W) : Prop :=
  countAt g op.reptype = countAt g op.addrtype ∨
    g.flags &&& rflagsIfBit ≠ 0 ∧ 17 < countAt g op.reptype ∧ 17 < countAt g op.addrtype

theorem Width.bits_pos (w : Width) : 0 < w.bits := by cases w <;> decide

/-- A moved instruction pointer. -/
theorem ip_add_ne (h0 : 0 < op.ipOff) (h15 : op.ipOff ≤ 15) :
    g.ip + BitVec.ofNat 64 op.ipOff ≠ g.ip := by
  intro h
  have := congrArg BitVec.toNat h
  have hlt := g.ip.isLt
  rw [BitVec.toNat_add, BitVec.toNat_ofNat] at this
  omega

variable {r : StringResult W} {m : Nat}

/-- An element that stops a repeated instruction leaves a count that is one too low. -/
theorem StringStopped.not_restartable (h : StringStopped bus op a g m r) (hrep : op.rep = true) :
    ¬ Restartable op a g r := by
  intro hr
  have hbits := op.addrtype.bits_le
  have hcount := hr.count
  rw [elementCount, hrep, if_pos rfl, if_pos rfl, h.completed, h.reg, hrep, if_pos rfl,
    Function.update_self] at hcount
  have hm : m ≤ (low op.addrtype.bits (g.reg .rcx)).toNat := by
    unfold countAt at hcount
    omega
  have hsub := toNat_low_sub hbits hm
  refine low_add_one_ne op.addrtype.bits_pos hbits
    (x := g.reg .rcx - BitVec.ofNat 64 (m + 1)) (BitVec.eq_of_toNat_eq ?_)
  have hadd : g.reg .rcx - BitVec.ofNat 64 (m + 1) + BitVec.ofNat 64 1 =
      g.reg .rcx - BitVec.ofNat 64 m := by
    rw [BitVec.ofNat_add, BitVec.sub_eq_add_neg, BitVec.sub_eq_add_neg, BitVec.neg_add,
      BitVec.add_assoc, BitVec.sub_eq_add_neg, BitVec.add_assoc, BitVec.add_left_neg,
      BitVec.add_zero]
  rw [hadd, hsub]
  unfold countAt at hcount
  omega

/-- Without a repeat prefix nothing has changed when the element stops the instruction. -/
theorem StringStopped.restartable (h : StringStopped bus op a g m r) (hrep : op.rep = false) :
    Restartable op a g r := by
  have hm : m = 0 := by
    have := h.lt
    rw [rounds_of_not_rep hrep] at this
    omega
  subst hm
  have hreg : r.guest.reg = g.reg := by rw [h.reg, hrep]; rfl
  constructor
  · rw [hrep, hreg]
    rfl
  · intro _
    rw [hreg, h.completed, elementIndex_zero]
  · intro _
    rw [hreg, h.completed, elementIndex_zero]
  · exact fun q _ _ _ => congrFun hreg q
  · exact h.flags
  · rw [elementCount, hrep, h.completed, if_neg (by simp)]
    exact h.ip

/-- A call that did all the elements it got to. -/
theorem StringFinished.restartable_iff (h : StringFinished bus op a g r) (hip : op.ip = g.ip)
    (h0 : 0 < op.ipOff) (h15 : op.ipOff ≤ 15) :
    Restartable op a g r ↔ (op.rep = true → CountsAgree op g) := by
  have hne := ip_add_ne (g := g) h0 h15
  constructor
  · intro hr hrep
    have hcount := hr.count
    have hrip := hr.ip
    have hle := rounds_le_countAt (g := g) hrep
    rw [elementCount, hrep, if_pos rfl, h.completed] at hrip
    rw [elementCount, hrep, if_pos rfl, if_pos rfl, h.completed] at hcount
    rw [h.ip, hip] at hrip
    have hiff : rounds op g = countAt g op.reptype ↔ rounds op g = countAt g op.addrtype := by
      constructor
      · intro heq
        by_contra hc
        rw [if_neg (by simp [heq]), if_neg hc] at hrip
        exact hne hrip
      · intro heq
        by_contra hc
        rw [if_pos ⟨hrep, hc⟩, if_pos heq] at hrip
        exact hne hrip.symm
    unfold CountsAgree
    by_cases hend : rounds op g = countAt g op.reptype
    · exact .inl (hend.symm.trans (hiff.mp hend))
    · have hend' : rounds op g ≠ countAt g op.addrtype := fun he => hend (hiff.mpr he)
      right
      unfold rounds at *
      rw [if_pos hrep] at *
      split at hle
      · rename_i hif
        rw [if_pos hif] at *
        exact ⟨hif, by omega, by omega⟩
      · rename_i hif
        rw [if_neg hif] at hend
        exact absurd rfl hend
  · intro hagree
    have hcnt : rounds op g ≤ elementCount op g ∧
        ((op.rep = true ∧ rounds op g ≠ countAt g op.reptype) ↔
          rounds op g ≠ elementCount op g) := by
      cases hrep : op.rep with
      | false => simp [rounds, elementCount, hrep]
      | true =>
        have hle := rounds_le_countAt (g := g) hrep
        rw [elementCount, hrep, if_pos rfl]
        simp only [true_and]
        obtain heq | ⟨hif, h1, h2⟩ := hagree hrep
        · rw [← heq]
          exact ⟨hle, Iff.rfl⟩
        · have hround : rounds op g = 17 := by
            rw [rounds, if_pos hrep, if_pos hif]
            omega
          rw [hround]
          exact ⟨by omega, by omega⟩
    constructor
    · cases hrep : op.rep with
      | false =>
        rw [h.rcx, hrep]
        rfl
      | true =>
        have hle := hcnt.1
        rw [elementCount, hrep, if_pos rfl] at hle
        rw [if_pos rfl, h.rcx, hrep, if_pos rfl, h.completed, elementCount, hrep, if_pos rfl,
          toNat_low_sub op.addrtype.bits_le hle]
        unfold countAt at *
        omega
    · rw [h.completed]
      exact h.rsi
    · rw [h.completed]
      exact h.rdi
    · exact h.others
    · exact h.flags
    · rw [h.ip, h.completed, hip]
      by_cases hc : rounds op g = elementCount op g
      · rw [if_pos hc, if_neg (fun hh => hcnt.2.mp hh hc)]
      · rw [if_neg hc, if_pos (hcnt.2.mpr hc)]

/-- The elements that are left for the instruction when it is executed again. -/
theorem Restartable.element_eq (h : Restartable op a g r) (i : Nat)
    (w : W) : element bus op a r.guest i w = element bus op a g (r.completed + i) w := by
  have hidx : ∀ q, low op.addrtype.bits (r.guest.reg q) =
      low op.addrtype.bits (elementIndex a g q r.completed) →
      low op.addrtype.bits (elementIndex a r.guest q i) =
        low op.addrtype.bits (elementIndex a g q (r.completed + i)) := by
    intro q hq
    have hsum : elementIndex a g q (r.completed + i) =
        elementIndex a g q r.completed + BitVec.ofNat 64 i * stringStep a g.flags := by
      rw [elementIndex, elementIndex, BitVec.ofNat_add, BitVec.add_mul, BitVec.add_assoc]
    rw [hsum, elementIndex, h.flags]
    exact low_add op.addrtype.bits_le hq rfl
  have hother : ∀ q : GeneralReg, q ≠ .rcx → q ≠ .rsi → q ≠ .rdi →
      r.guest.reg q = g.reg q := fun q h1 h2 h3 => h.others q h1 (fun _ => h2) fun _ => h3
  exact stringElement_congr rfl (hother _ (by decide) (by decide) (by decide))
    (hother _ (by decide) (by decide) (by decide)) (fun hrd => hidx _ (h.rsi hrd))
    fun hwr => hidx _ (h.rdi hwr)

theorem Op.sized_ip (code : CodeSize) (p : InstPrefix) (ip : BitVec 64) (ipOff : Nat) :
    (Op.sized code p ip ipOff).ip = ip := by cases code <;> rfl

theorem Op.sized_ipOff (code : CodeSize) (p : InstPrefix) (ip : BitVec 64) (ipOff : Nat) :
    (Op.sized code p ip ipOff).ipOff = ipOff := by cases code <;> rfl

/-- Every string instruction returns, and without a repeat prefix its guest is ready for the rest.
With one, it is so exactly when no element that the call gets to faults or asks for a rerun, and
the count of the code size agrees with the count of the address size. Executed again, the
instruction goes on with the next element. -/
theorem string_restartable_iff (bus : Bus W) (code : CodeSize) (p : InstPrefix) (g : Guest W)
    (o : StringOpcode) {ipOff : Nat} (h0 : 0 < ipOff) (h15 : ipOff ≤ 15) :
    let op := Op.sized code p g.ip ipOff
    let a := o.args op.optype
    ∃ r, stringInstruction bus op a g = some r ∧
      (runElements bus op a g r.completed).isSome = true ∧
      (Restartable op a g r ↔
        (op.rep = true →
          CountsAgree op g ∧ (runElements bus op a g (rounds op g)).isSome = true)) ∧
      (Restartable op a g r →
        ∀ i w, element bus op a r.guest i w = element bus op a g (r.completed + i) w) := by
  intro op a
  have hip : op.ip = g.ip := Op.sized_ip code p g.ip ipOff
  have hoff : op.ipOff = ipOff := Op.sized_ipOff code p g.ip ipOff
  obtain ⟨r, hr, hfin | ⟨m, hstop⟩⟩ :
      ∃ r, stringInstruction bus op a g = some r ∧
        (StringFinished bus op a g r ∨ ∃ m, StringStopped bus op a g m r) :=
    stringInstruction_spec
  · refine ⟨r, hr, ?_, ?_, fun h => h.element_eq⟩
    · rw [hfin.completed, hfin.world]
      rfl
    · rw [hfin.restartable_iff hip (hoff ▸ h0) (hoff ▸ h15), hfin.world]
      simp
  · refine ⟨r, hr, ?_, ?_, fun h => h.element_eq⟩
    · rw [hstop.completed]
      exact hstop.before
    · cases hrep : op.rep with
      | false => exact iff_of_true (hstop.restartable hrep) (by simp)
      | true =>
        refine iff_of_false (hstop.not_restartable hrep) fun h => ?_
        have hnone := runElements_none_of_le hstop.fails hstop.lt
        rw [hnone] at h
        cases (h rfl).2

/-- A page ends at `0x1000`, and there is nothing in the next one. -/
def pageBus : Bus Unit where
  read _ _ off _ w := (w, if off < 0x1000 then some 0 else none)
  write _ _ _ _ _ w := (w, true)
  callIo _ _ data w := (w, some data)

/-- REP MOVSB of two bytes from the end of the page. -/
def pageEndGuest : Guest Unit where
  reg r := if r = .rcx then 2 else if r = .rsi then 0xFFF else if r = .rdi then 0x800 else 0
  ip := 0x7C00
  flags := 0x202
  world := ()

def repPrefix : InstPrefix where
  seg := none
  repne := false
  repe := true
  opsize := false
  addrsize := false
  rexW := false

theorem string_restartable_iff_rep_stos :
    0 < 2 ∧ 2 ≤ 15 ∧
      ∃ r, stringInstruction pageBus (Op.sized .code32 repPrefix pageEndGuest.ip 2)
          (StringOpcode.stosb.args (Op.sized .code32 repPrefix pageEndGuest.ip 2).optype)
          pageEndGuest = some r ∧
        Restartable (Op.sized .code32 repPrefix pageEndGuest.ip 2)
          (StringOpcode.stosb.args (Op.sized .code32 repPrefix pageEndGuest.ip 2).optype)
          pageEndGuest r := by
  obtain ⟨r, hr, -, hiff, -⟩ :=
    string_restartable_iff pageBus .code32 repPrefix pageEndGuest .stosb (show 0 < 2 by decide)
      (by decide)
  exact ⟨by decide, by decide, r, hr, hiff.mpr fun _ => ⟨.inl rfl, by decide⟩⟩

/-- The second byte faults, and the count says that it has been copied. -/
theorem rep_movs_not_restartable :
    ¬ ∀ (W : Type) (bus : Bus W) (code : CodeSize) (p : InstPrefix) (g : Guest W)
        (o : StringOpcode) (ipOff : Nat), 0 < ipOff → ipOff ≤ 15 →
      let op := Op.sized code p g.ip ipOff
      let a := o.args op.optype
      ∀ r, stringInstruction bus op a g = some r → Restartable op a g r := by
  intro h
  have hrun : ∃ r, stringInstruction pageBus (Op.sized .code32 repPrefix pageEndGuest.ip 2)
      (StringOpcode.movsb.args (Op.sized .code32 repPrefix pageEndGuest.ip 2).optype)
      pageEndGuest = some r ∧ r.err = true ∧ r.completed = 1 ∧ r.guest.reg .rcx = 0 ∧
      r.guest.reg .rsi = 0xFFF :=
    ⟨_, rfl, rfl, rfl, by decide, by decide⟩
  obtain ⟨r, hr, -, hdone, hcx, -⟩ := hrun
  have hcount := (h Unit pageBus .code32 repPrefix pageEndGuest .movsb 2 (by decide) (by decide)
    r hr).count
  rw [hcx, hdone] at hcount
  exact absurd hcount (by decide)

end OnDemandVirt.Vmm
