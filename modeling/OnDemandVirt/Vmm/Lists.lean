import OnDemandVirt.Lib.DoubleLinks
import Mathlib.Data.BitVec
import Mathlib.Tactic.Ring

/-!
# Lists

The macros of `core/list.h`: `LIST1`, whose links back are pointers to the link forward of the node
before, and `LIST3`, for nodes of one array, whose links are differences of places in the array and
0 at the ends. A pointer into the array is the place it is at.
-/

namespace OnDemandVirt.Vmm

open Lib.DoubleLinks (Pos Op Impl Lists Near Link Inserted Removed follow holds_none insertBefore)

variable {H : Type*} [DecidableEq H]

/-! ### `LIST1` -/

section

variable {α : Type*} [DecidableEq α]

/-- The two fields in the heads and in the nodes. A pointer to one of the fields is the head or the
node that it is in. -/
structure List1 (H α : Type*) where
  pnext : Pos H α → Pos H α
  next : Pos H α → Option α

namespace List1

def setPnext (m : List1 H α) (p v : Pos H α) : List1 H α :=
  { m with pnext := Function.update m.pnext p v }

def setNext (m : List1 H α) (p : Pos H α) (v : Option α) : List1 H α :=
  { m with next := Function.update m.next p v }

/-- `list1_insert`; `d` and `n` are in the node `d`. -/
def insertAt (m : List1 H α) (p : Pos H α) (d : α) (n : Option α) (npn : Pos H α) : List1 H α :=
  (((m.setNext p (some d)).setPnext (.node d) p).setNext (.node d) n).setPnext npn (.node d)

/-- `list1_delete`. -/
def deleteAt (m : List1 H α) (p : Pos H α) (n : Option α) (npn : Pos H α) : List1 H α :=
  (m.setNext p n).setPnext npn p

/-- `LIST1_HEAD_INIT`. -/
def headInit (h : H) (m : List1 H α) : List1 H α :=
  (m.setPnext (.head h) (.head h)).setNext (.head h) none

/-- `LIST1_NEXTPNEXT`. -/
def nextpnext (m : List1 H α) (h : H) (data : Pos H α) : Pos H α :=
  match m.next data with
  | some n => .node n
  | none => .head h

/-- `LIST1_ADD`. -/
def add (h : H) (data : α) (m : List1 H α) : List1 H α :=
  m.insertAt (m.pnext (.head h)) data none (.head h)

/-- `LIST1_PUSH`. -/
def push (h : H) (data : α) (m : List1 H α) : List1 H α :=
  m.insertAt (.head h) data (m.next (.head h)) (m.nextpnext h (.head h))

/-- `LIST1_DEL`. -/
def del (h : H) (data : α) (m : List1 H α) : List1 H α :=
  m.deleteAt (m.pnext (.node data)) (m.next (.node data)) (m.nextpnext h (.node data))

/-- `LIST1_INSERT`. -/
def insert (h : H) (nextd : Option α) (data : α) (m : List1 H α) : List1 H α :=
  match nextd with
  | some n => m.insertAt (m.pnext (.node n)) data (some n) (.node n)
  | none => m.add h data

end List1

/-- `LIST1_POP` is `LIST1_DEL` of `head.next`. -/
def list1 : Impl H α (List1 H α) where
  init := List1.headInit
  add := List1.add
  insert := List1.insert
  push := List1.push
  delete := List1.del
  first h m := m.next (.head h)

variable {m : List1 H α} {h : H} {x : α} {p q : Pos H α}

omit [DecidableEq H] [DecidableEq α] in
theorem ne_of_near {pool : α → Prop} (hp : Near pool h x p) : p ≠ .node x := by
  rintro rfl
  exact hp.2 rfl

theorem List1.insertAt_spec (hp : p ≠ .node x) (hq : q ≠ .node x) :
    Inserted Pos.node? id m.next m.pnext (m.insertAt p x q.node? q).next
      (m.insertAt p x q.node? q).pnext (.node x) p q :=
  .of_update hp hq (Function.update_comm hp ..) rfl

theorem List1.deleteAt_spec : Removed Pos.node? id m.next m.pnext (m.deleteAt p q.node? q).next
    (m.deleteAt p q.node? q).pnext (.node x) p q :=
  .of_update rfl rfl

omit [DecidableEq H] [DecidableEq α] in
theorem List1.nextpnext_eq {pool : α → Prop} (hq : Near pool h x q) (hnext : m.next p = q.node?) :
    m.nextpnext h p = q := by
  unfold List1.nextpnext
  rw [hnext]
  cases q with
  | head h' =>
    have hh : h' = h := hq
    exact congrArg Pos.head hh.symm
  | node z => rfl

/-- The operations of `LIST1` change the links as they should. -/
theorem list1_lawful (pool : α → Prop) :
    (list1 : Impl H α (List1 H α)).Lawful pool id List1.next List1.pnext where
  first _ _ := rfl
  init h m := by
    refine ⟨⟨Function.update_self .., Function.update_self ..⟩, fun a ha => ⟨?_, ?_⟩⟩
    · exact Function.update_of_ne ha ..
    · exact Function.update_of_ne ha ..
  add h x p m _ hp hlink := by
    have hadd : list1.add h x m = m.insertAt p x none (.head h) :=
      congrArg (fun p => m.insertAt p x none (.head h)) hlink.2
    rw [hadd]
    exact List1.insertAt_spec (ne_of_near hp) (by simp)
  insert h x y p m _ _ hne hp hlink := by
    have hinsert : list1.insert h (some y) x m = m.insertAt p x (some y) (.node y) :=
      congrArg (fun p => m.insertAt p x (some y) (.node y)) hlink.2
    rw [hinsert]
    exact List1.insertAt_spec (q := .node y) (ne_of_near hp) (by simpa using hne)
  insert_none _ _ _ := rfl
  push h x q m _ hq hlink := by
    have hpush : list1.push h x m = m.insertAt (.head h) x q.node? q :=
      congrArg₂ (m.insertAt (.head h) x) hlink.1 (List1.nextpnext_eq hq hlink.1)
    rw [hpush]
    exact List1.insertAt_spec (by simp) (ne_of_near hq)
  delete h x p q m _ _ hq _ hleft hright := by
    have hdel : list1.delete h x m = m.deleteAt p q.node? q := by
      change m.deleteAt _ _ _ = _
      rw [hleft.2, hright.1, List1.nextpnext_eq hq hright.1]
      rfl
    rw [hdel]
    exact List1.deleteAt_spec

end

/-! ### `LIST3` -/

/-- The two fields in the nodes of the array, of `w` bits, and in the heads. -/
structure List3 (w : Nat) (H : Type*) where
  prev : Int → BitVec w
  next : Int → BitVec w
  headPrev : H → Option Int
  headNext : H → Option Int

namespace List3

/-- The difference of two pointers, as it is stored. -/
def offset (w : Nat) (x y : Int) : BitVec w := BitVec.ofInt w (x - y)

/-- A pointer and a difference that was stored. -/
def advance {w : Nat} (data : Int) (off : BitVec w) : Int := data + off.toInt

variable {w : Nat}

def setPrev (m : List3 w H) (x : Int) (v : BitVec w) : List3 w H :=
  { m with prev := Function.update m.prev x v }

def setNext (m : List3 w H) (x : Int) (v : BitVec w) : List3 w H :=
  { m with next := Function.update m.next x v }

def setHeadPrev (m : List3 w H) (h : H) (v : Option Int) : List3 w H :=
  { m with headPrev := Function.update m.headPrev h v }

def setHeadNext (m : List3 w H) (h : H) (v : Option Int) : List3 w H :=
  { m with headNext := Function.update m.headNext h v }

/-- `LIST3_HEAD_INIT`. -/
def headInit (h : H) (m : List3 w H) : List3 w H := (m.setHeadNext h none).setHeadPrev h none

/-- `LIST3_ADD`. -/
def add (h : H) (data : Int) (m : List3 w H) : List3 w H :=
  let m := m.setNext data 0
  match m.headPrev h with
  | some prev =>
    let m := m.setPrev data (offset w prev data)
    let m := m.setNext prev (-m.prev data)
    m.setHeadPrev h (some data)
  | none =>
    let m := m.setPrev data 0
    let m := m.setHeadNext h (some data)
    m.setHeadPrev h (some data)

/-- `LIST3_INSERT`. -/
def insert (h : H) (nextd : Option Int) (data : Int) (m : List3 w H) : List3 w H :=
  match nextd with
  | some nextd =>
    let m := m.setNext data (offset w nextd data)
    if m.prev nextd ≠ 0 then
      let m := m.setPrev data (m.next data + m.prev nextd)
      let m := m.setPrev nextd (-m.next data)
      m.setNext (advance data (m.prev data)) (-m.prev data)
    else
      let m := m.setPrev data 0
      let m := m.setPrev nextd (-m.next data)
      m.setHeadNext h (some data)
  | none => m.add h data

/-- `LIST3_PUSH`. -/
def push (h : H) (data : Int) (m : List3 w H) : List3 w H := m.insert h (m.headNext h) data

/-- `LIST3_DEL`. -/
def del (h : H) (data : Int) (m : List3 w H) : List3 w H :=
  if m.prev data ≠ 0 then
    if m.next data ≠ 0 then
      let prev := advance data (m.prev data)
      let m := m.setNext prev (m.next prev + m.next data)
      let next := advance data (m.next data)
      m.setPrev next (m.prev next + m.prev data)
    else
      let m := m.setHeadPrev h (some (advance data (m.prev data)))
      m.setNext (advance data (m.prev data)) 0
  else if m.next data ≠ 0 then
    let m := m.setHeadNext h (some (advance data (m.next data)))
    m.setPrev (advance data (m.next data)) 0
  else (m.setHeadNext h none).setHeadPrev h none

/-- Where a difference leads, as `LIST3_FOREACH` follows it. -/
def decode (x : Int) (off : BitVec w) : Option Int :=
  if off ≠ 0 then some (advance x off) else none

/-- Where the links forward lead. -/
def fwd (m : List3 w H) : Pos H Int → Option Int
  | .head h => m.headNext h
  | .node x => decode x (m.next x)

/-- Where the links backward lead. -/
def bwd (m : List3 w H) : Pos H Int → Option Int
  | .head h => m.headPrev h
  | .node x => decode x (m.prev x)

end List3

/-- `LIST3_POP` is `LIST3_DEL` of `head.next`. -/
def list3 {w : Nat} : Impl H Int (List3 w H) where
  init := List3.headInit
  add := List3.add
  insert := List3.insert
  push := List3.push
  delete := List3.del
  first h m := m.headNext h

/-- An array whose differences a field of `w` bits holds. -/
structure NodeArray (w : Nat) where
  size : Nat
  size_le : size ≤ 2 ^ (w - 1)

/-- The places of the array. -/
def NodeArray.In {w : Nat} (array : NodeArray w) (x : Int) : Prop := 0 ≤ x ∧ x < array.size

/-- The arrays of `struct cpu_mmu_spt_data_internal`, whose links are `short`. -/
def sptRwmap : NodeArray 16 := ⟨4096, by decide⟩
def sptShadow1 : NodeArray 16 := ⟨2048, by decide⟩
def sptShadow1map : NodeArray 16 := ⟨512, by decide⟩
def sptShadow2 : NodeArray 16 := ⟨512, by decide⟩

namespace List3

section Offsets

variable {w : Nat} {array : NodeArray w} {x y z : Int}

theorem neg_offset : -offset w y x = offset w x y := by
  rw [offset, offset, ← BitVec.ofInt_neg, Int.neg_sub]

theorem offset_add : offset w y x + offset w z y = offset w z x := by
  rw [offset, offset, offset, ← BitVec.ofInt_add]
  congr 1
  ring

theorem offset_of_advance {off : BitVec w} (h : advance x off = y) : off = offset w y x := by
  rw [← h, advance, offset, add_sub_cancel_left, BitVec.ofInt_toInt]

variable (hx : array.In x) (hy : array.In y)

include hx hy

/-- The type of the fields holds the differences of all places. -/
theorem toInt_offset : (offset w y x).toInt = y - x := by
  obtain ⟨hx₀, hxn⟩ := hx
  obtain ⟨hy₀, hyn⟩ := hy
  have hn' : (array.size : Int) ≤ 2 ^ (w - 1) := by exact_mod_cast array.size_le
  rw [offset, BitVec.toInt_ofInt]
  cases w with
  | zero =>
    have hone : (array.size : Int) ≤ 1 := by simpa using hn'
    have hzero : y - x = 0 := by omega
    rw [hzero]
    rfl
  | succ w =>
    have hpow : ((2 ^ (w + 1) : Nat) : Int) = 2 * 2 ^ w := by
      push_cast
      ring
    rw [Nat.add_sub_cancel] at hn'
    refine Int.bmod_eq_of_le ?_ ?_
    · rw [hpow]
      omega
    · rw [hpow]
      omega

theorem advance_offset : advance x (offset w y x) = y := by
  rw [advance, toInt_offset hx hy]
  ring

theorem offset_ne_zero (hne : y ≠ x) : offset w y x ≠ 0 := by
  intro hzero
  have htoInt := toInt_offset hx hy
  have htoInt₀ : (0 : BitVec w).toInt = 0 := BitVec.toInt_zero
  rw [hzero] at htoInt
  omega

end Offsets

/-! ### What is stored for a position -/

section

variable {w : Nat} {array : NodeArray w} {h : H} {x y : Int} {p q : Pos H Int} {m : List3 w H}

@[simp] theorem fwd_setNext (v : BitVec w) :
    (m.setNext x v).fwd = Function.update m.fwd (.node x) (decode x v) := by
  funext a
  cases a with
  | head h => rfl
  | node z =>
    by_cases hz : z = x
    · subst hz
      rw [Function.update_self]
      exact congrArg (decode z) (Function.update_self ..)
    · rw [Function.update_of_ne (by simpa using hz)]
      exact congrArg (decode z) (Function.update_of_ne hz ..)

@[simp] theorem bwd_setPrev (v : BitVec w) :
    (m.setPrev x v).bwd = Function.update m.bwd (.node x) (decode x v) := by
  funext a
  cases a with
  | head h => rfl
  | node z =>
    by_cases hz : z = x
    · subst hz
      rw [Function.update_self]
      exact congrArg (decode z) (Function.update_self ..)
    · rw [Function.update_of_ne (by simpa using hz)]
      exact congrArg (decode z) (Function.update_of_ne hz ..)

@[simp] theorem fwd_setHeadNext (v : Option Int) :
    (m.setHeadNext h v).fwd = Function.update m.fwd (.head h) v := by
  funext a
  cases a with
  | head h' =>
    by_cases hh : h' = h
    · subst hh
      rw [Function.update_self]
      exact Function.update_self ..
    · rw [Function.update_of_ne (by simpa using hh)]
      exact Function.update_of_ne hh ..
  | node z => rfl

@[simp] theorem bwd_setHeadPrev (v : Option Int) :
    (m.setHeadPrev h v).bwd = Function.update m.bwd (.head h) v := by
  funext a
  cases a with
  | head h' =>
    by_cases hh : h' = h
    · subst hh
      rw [Function.update_self]
      exact Function.update_self ..
    · rw [Function.update_of_ne (by simpa using hh)]
      exact Function.update_of_ne hh ..
  | node z => rfl

omit [DecidableEq H] in
@[simp] theorem fwd_setPrev (v : BitVec w) : (m.setPrev x v).fwd = m.fwd := rfl

omit [DecidableEq H] in
@[simp] theorem bwd_setNext (v : BitVec w) : (m.setNext x v).bwd = m.bwd := rfl

@[simp] theorem fwd_setHeadPrev (v : Option Int) : (m.setHeadPrev h v).fwd = m.fwd := rfl

@[simp] theorem bwd_setHeadNext (v : Option Int) : (m.setHeadNext h v).bwd = m.bwd := rfl

/-- What a node at `x` stores for a position. -/
def stored (w : Nat) (x : Int) : Pos H Int → BitVec w
  | .head _ => 0
  | .node z => offset w z x

omit [DecidableEq H] in
theorem eq_stored {v : BitVec w} (hv : decode x v = p.node?) : v = stored w x p := by
  unfold List3.decode at hv
  cases p with
  | head h => simpa [Pos.node?, stored] using hv
  | node z =>
    by_cases hzero : v = 0
    · simp [hzero, Pos.node?] at hv
    · rw [if_pos hzero] at hv
      exact offset_of_advance (Option.some.inj hv)

omit [DecidableEq H] in
@[simp] theorem decode_zero : decode x 0#w = none := if_neg fun h => h rfl

theorem ne_zero_of_decode {v : BitVec w} (hv : decode x v = some y) : v ≠ 0 := by
  rintro rfl
  cases hv

theorem decode_offset (hx : array.In x) (hy : array.In y)
    (hne : y ≠ x) : decode x (offset w y x) = some y := by
  rw [List3.decode, if_pos (offset_ne_zero hx hy hne), advance_offset hx hy]

omit [DecidableEq H] in
@[simp] theorem prev_setPrev (v : BitVec w) : (m.setPrev x v).prev x = v :=
  Function.update_self ..

omit [DecidableEq H] in
theorem prev_setPrev_of_ne (hne : y ≠ x) (v : BitVec w) : (m.setPrev y v).prev x = m.prev x :=
  Function.update_of_ne hne.symm ..

omit [DecidableEq H] in
@[simp] theorem next_setNext (v : BitVec w) : (m.setNext x v).next x = v :=
  Function.update_self ..

omit [DecidableEq H] in
@[simp] theorem prev_setNext (v : BitVec w) : (m.setNext x v).prev = m.prev := rfl

omit [DecidableEq H] in
@[simp] theorem next_setPrev (v : BitVec w) : (m.setPrev x v).next = m.next := rfl

@[simp] theorem prev_setHeadPrev (v : Option Int) : (m.setHeadPrev h v).prev = m.prev := rfl

@[simp] theorem next_setHeadNext (v : Option Int) : (m.setHeadNext h v).next = m.next := rfl

end

section

variable {w : Nat} {array : NodeArray w} {h : H} {x y : Int} {p q : Pos H Int} (m : List3 w H)
  (hx : array.In x)

include hx

theorem add_spec (hp : Near array.In h x p)
    (hlink : Link Pos.node? Pos.node? m.fwd m.bwd p (.head h)) :
    Inserted Pos.node? Pos.node? m.fwd m.bwd (m.add h x).fwd (m.add h x).bwd (.node x) p
      (.head h) := by
  have hlast : (m.setNext x 0).headPrev h = p.node? := hlink.2
  unfold List3.add
  dsimp only
  rw [hlast]
  cases p with
  | head h' =>
    obtain rfl : h' = h := hp
    refine .of_update (by simp) (by simp) ?_ ?_
    · simp [Pos.node?]
    · simp [Pos.node?]
  | node z =>
    have hz := decode_offset hx hp.1 hp.2
    have hxz := decode_offset hp.1 hx hp.2.symm
    refine .of_update (by simpa using hp.2) (by simp) ?_ ?_
    · simp [Pos.node?, neg_offset, hxz]
    · simp [Pos.node?, hz]

theorem insert_spec (hy : array.In y) (hne : y ≠ x) (hp : Near array.In h x p)
    (hlink : Link Pos.node? Pos.node? m.fwd m.bwd p (.node y)) :
    Inserted Pos.node? Pos.node? m.fwd m.bwd (m.insert h (some y) x).fwd
      (m.insert h (some y) x).bwd (.node x) p (.node y) := by
  have hprev : m.prev y = stored w y p := eq_stored hlink.2
  have hyx := decode_offset hx hy hne
  have hxy := decode_offset hy hx hne.symm
  unfold List3.insert
  dsimp only
  rw [prev_setNext, hprev]
  cases p with
  | head h' =>
    obtain rfl : h' = h := hp
    rw [if_neg (by simp [stored])]
    refine .of_update (by simp) (by simpa using hne) ?_ ?_
    · simp [Pos.node?, hyx]
    · simp [Pos.node?, neg_offset, hxy]
  | node z =>
    have hz := decode_offset hx hp.1 hp.2
    have hxz := decode_offset hp.1 hx hp.2.symm
    have hnonzero : stored w y (.node z : Pos H Int) ≠ 0 := hprev ▸ ne_zero_of_decode hlink.2
    rw [if_pos hnonzero]
    refine .of_update (by simpa using hp.2) (by simpa using hne) ?_ ?_
    · simp [Pos.node?, stored, neg_offset, offset_add, prev_setPrev_of_ne hne,
        advance_offset hx hp.1, hyx, hxz]
    · simp [Pos.node?, stored, neg_offset, offset_add, hxy, hz]

theorem del_spec (hp : Near array.In h x p) (hq : Near array.In h x q)
    (hpq : p = q → p = .head h)
    (hleft : Link Pos.node? Pos.node? m.fwd m.bwd p (.node x))
    (hright : Link Pos.node? Pos.node? m.fwd m.bwd (.node x) q) :
    Removed Pos.node? Pos.node? m.fwd m.bwd (m.del h x).fwd (m.del h x).bwd (.node x) p q := by
  have hprev : m.prev x = stored w x p := eq_stored hleft.2
  have hnext : m.next x = stored w x q := eq_stored hright.1
  unfold List3.del
  dsimp only
  cases p with
  | head h' =>
    obtain rfl : h' = h := hp
    rw [if_neg (by simp [hprev, stored])]
    cases q with
    | head h' =>
      obtain rfl : h' = _ := hq
      rw [if_neg (by simp [hnext, stored])]
      refine .of_update ?_ ?_
      · simp [Pos.node?]
      · simp [Pos.node?]
    | node y =>
      have hnonzero : m.next x ≠ 0 := ne_zero_of_decode hright.1
      rw [if_pos hnonzero]
      have hy : advance x (m.next x) = y := by rw [hnext, stored, advance_offset hx hq.1]
      refine .of_update ?_ ?_
      · simp [Pos.node?, hy]
      · simp [Pos.node?, hy]
  | node z =>
    have hnonzero : m.prev x ≠ 0 := ne_zero_of_decode hleft.2
    have hz : advance x (m.prev x) = z := by rw [hprev, stored, advance_offset hx hp.1]
    have hzx : m.next z = stored w z (.node x) := eq_stored hleft.1
    rw [if_pos hnonzero, hz]
    cases q with
    | head h' =>
      obtain rfl : h' = h := hq
      rw [if_neg (by simp [hnext, stored])]
      refine .of_update ?_ ?_
      · simp [Pos.node?, hz]
      · simp [Pos.node?, hz]
    | node y =>
      have hne : y ≠ z := by
        rintro rfl
        cases hpq rfl
      have hnonzero : m.next x ≠ 0 := ne_zero_of_decode hright.1
      have hyx : m.prev y = stored w y (.node x) := eq_stored hright.2
      have hsame : ∀ v, (m.setNext z v).next x = m.next x :=
        fun v => Function.update_of_ne hp.2.symm ..
      have hy : advance x (m.next x) = y := by rw [hnext, stored, advance_offset hx hq.1]
      rw [if_pos hnonzero, hsame, hy]
      refine .of_update ?_ ?_
      · simp [Pos.node?, hzx, hnext, stored, offset_add, decode_offset hp.1 hq.1 hne]
      · simp [Pos.node?, hyx, hprev, stored, offset_add, decode_offset hq.1 hp.1 hne.symm]

end

/-- The operations of `LIST3` change the links as they should. -/
theorem lawful {w : Nat} (array : NodeArray w) :
    (list3 : Impl H Int (List3 w H)).Lawful array.In Pos.node? fwd bwd where
  first _ _ := rfl
  init h m := by
    refine ⟨⟨?_, ?_⟩, fun a ha => ⟨?_, ?_⟩⟩
    · simp [list3, List3.headInit, Pos.node?]
    · simp [list3, List3.headInit, Pos.node?]
    · change (List3.headInit h m).fwd a = _
      rw [List3.headInit, fwd_setHeadPrev, fwd_setHeadNext, Function.update_of_ne ha]
    · change (List3.headInit h m).bwd a = _
      rw [List3.headInit, bwd_setHeadPrev, Function.update_of_ne ha, bwd_setHeadNext]
  add h x p m hx hp hlink := add_spec m hx hp hlink
  insert h x y p m hx hy hne hp hlink := insert_spec m hx hy hne hp hlink
  insert_none _ _ _ := rfl
  push h x q m hx hq hlink := by
    have hfirst : m.headNext h = q.node? := hlink.1
    have hpush : list3.push h x m = m.insert h q.node? x :=
      congrArg (fun nextd => m.insert h nextd x) hfirst
    rw [hpush]
    cases q with
    | head h' =>
      obtain rfl : h' = h := hq
      exact add_spec m hx rfl hlink
    | node y => exact insert_spec m hx hq.1 hq.2 rfl hlink
  delete h x p q m hx hp hq hpq hleft hright := del_spec m hx hp hq hpq hleft hright

end List3

/-! ### Following the links -/

/-- The nodes that `LIST3_FOREACH` meets, if it ends in so many steps. -/
def List3.foreach {w : Nat} (m : List3 w H) (h : H) (steps : Nat) : Option (List Int) :=
  follow (fun x => decode x (m.next x)) steps (m.headNext h)

/-- The nodes that the links backward lead through. -/
def List3.backward {w : Nat} (m : List3 w H) (h : H) (steps : Nat) : Option (List Int) :=
  follow (fun x => decode x (m.prev x)) steps (m.headPrev h)

section

variable {α : Type*} [DecidableEq α]

/-- The nodes that `LIST1_FOREACH` meets, if it ends in so many steps. -/
def List1.foreach (m : List1 H α) (h : H) (steps : Nat) : Option (List α) :=
  follow (fun x => m.next (.node x)) steps (m.next (.head h))

/-- The nodes that the links backward lead through. -/
def List1.backward (m : List1 H α) (h : H) (steps : Nat) : Option (List α) :=
  follow (fun x => (m.pnext (.node x)).node?) steps (m.pnext (.head h)).node?

/-- Whatever is done with any number of lists, from the first initialisation on, their links lead
through the lists that the same operations make, and what is popped is what should be. -/
theorem lists_refine {w : Nat} (array : NodeArray w) :
    (∀ (ops : List (Op H Int)) (m : List3 w H), Lists.ValidRun array.In (fun _ => none) ops →
      (list3.run ops m).1 = (Lists.run ops fun _ => none).1 ∧
      ∀ h l, (Lists.run ops fun _ => none).2 h = some l → ∀ steps, l.length ≤ steps →
        (list3.run ops m).2.foreach h steps = some l ∧
          (list3.run ops m).2.backward h steps = some l.reverse) ∧
    ∀ (ops : List (Op H α)) (m : List1 H α), Lists.ValidRun (fun _ => True) (fun _ => none) ops →
      (list1.run ops m).1 = (Lists.run ops fun _ => none).1 ∧
      ∀ h l, (Lists.run ops fun _ => none).2 h = some l → ∀ steps, l.length ≤ steps →
        (list1.run ops m).2.foreach h steps = some l ∧
          (list1.run ops m).2.backward h steps = some l.reverse := by
  constructor
  · intro ops m hvalid
    obtain ⟨hholds, hresults⟩ := (holds_none m.fwd m.bwd).run (List3.lawful array) hvalid
    exact ⟨hresults, fun h l hl steps hsteps => hholds.follow hl id (fun _ => rfl) hsteps⟩
  · intro ops m hvalid
    obtain ⟨hholds, hresults⟩ := (holds_none m.next m.pnext).run (list1_lawful _) hvalid
    exact ⟨hresults,
      fun h l hl steps hsteps => hholds.follow hl Pos.node? (fun _ => rfl) hsteps⟩

/-- A node is put in, another ahead of it, and the first is taken out and put in again. -/
def exchange {α : Type*} (x y : α) : List (Op Unit α) :=
  [.init (), .add () x, .insert () (some x) y, .delete () x, .push () x]

theorem exchange_valid {pool : α → Prop} {x y : α} (hx : pool x) (hy : pool y) (hne : x ≠ y) :
    Lists.ValidRun pool (fun _ => none) (exchange x y) := by
  simp [exchange, Lists.ValidRun, Lists.Valid, Lists.Free, Lists.apply, Lists.modify,
    insertBefore, hx, hy, hne, hne.symm]

theorem lists_refine_exchange :
    (∃ m : List3 16 Unit,
      (list3.run (exchange 7 4095) m).2.foreach () 2 = some [7, 4095]) ∧
    ∃ m : List1 Unit Char, (list1.run (exchange 'a' 'b') m).2.backward () 2 = some ['b', 'a'] := by
  have hrefine := lists_refine (H := Unit) (α := Char) sptRwmap
  have hin : ∀ k : Nat, k < 4096 → sptRwmap.In k := fun k hk =>
    ⟨Int.natCast_nonneg k, by exact_mod_cast hk⟩
  have hthree := hrefine.1 (exchange 7 4095)
    ⟨fun _ => 1, fun _ => 1, fun _ => some 9, fun _ => none⟩
    (exchange_valid (hin 7 (by decide)) (hin 4095 (by decide)) (by decide))
  have hone := hrefine.2 (exchange 'a' 'b') ⟨fun _ => .head (), fun _ => some 'c'⟩
    (exchange_valid trivial trivial (by decide))
  exact ⟨⟨_, (hthree.2 () [7, 4095] rfl 2 (by decide)).1⟩,
    ⟨_, (hone.2 () ['a', 'b'] rfl 2 (by decide)).2⟩⟩

end

end OnDemandVirt.Vmm
