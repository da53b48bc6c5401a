import OnDemandVirt.Vmm.GuestWalk

/-!
# What a walk leaves in the tables

`get_pte_sub` without its cursor: at each level an entry is read below the last one, checked and
marked. A walk changes nothing but marks of the entries on its way, and a second walk goes the way
of the first one.
-/

namespace OnDemandVirt.Vmm

open Lib.X86

variable {mask : BitVec 64} {d : GetPteData} {levels i r : Nat} {virt e : BitVec 64}
  {mem : TableMem} {m : Pmap}

/-! ### One level -/

/-- The topmost entries of PAE paging have no rights of their own. -/
def simplify2 (levels level : Nat) (entry : BitVec 64) : BitVec 64 :=
  if levels = 3 ∧ level = 3 then entry ||| (pdeRwBit ||| pdeUsBit ||| pdeABit) else entry

/-- Without page size extensions there are no large pages. -/
def simplify3 (d : GetPteData) (level : Nat) (entry : BitVec 64) : BitVec 64 :=
  if level = 2 ∧ !d.pse then entry &&& ~~~pdePsBit else entry

/-- Whether the entry is to be marked dirty. -/
def setsDirty (d : GetPteData) (level : Nat) (entry : BitVec 64) : Bool :=
  (level = 2 ∧ entry &&& pdePsBit ≠ 0 ∨ level = 1 ∨ level = 3 ∧ entry &&& pdePsBit ≠ 0) && d.write

/-- The checks of an entry: the entry as it is kept, and whether to mark it dirty. -/
def checkEntry (mask : BitVec 64) (d : GetPteData) (levels level : Nat) (entry : BitVec 64) :
    Option (Except Vmmerr (BitVec 64 × Bool)) :=
  if entry &&& pdePBit = 0 then some (.error .pageNotPresent)
  else
    (testPmapEntryReservedBit mask entry level levels d).bind fun reserved =>
      if reserved then some (.error .pageBadReservedBit)
      else
        match entryRefuses d (simplify2 levels level entry) with
        | some err => some (.error err)
        | none =>
          some (.ok (simplify3 d level (simplify2 levels level entry),
            setsDirty d level (simplify3 d level (simplify2 levels level entry))))

theorem getPteEntry_eq (n : Nat) (mem : TableMem) (m : Pmap) :
    getPteEntry mask d levels i (n + 1) mem m =
      (checkEntry mask d levels i (pmapRead mem m).1).bind fun
        | .error err => some (mem, .error err)
        | .ok (entry, setd) =>
          (setAdBit mem (pmapRead mem m).2 entry true setd).bind fun (fail, mem, m, entry) =>
            if fail then getPteEntry mask d levels i n mem m else some (mem, .ok (m, entry)) := by
  rw [getPteEntry]
  dsimp only
  rw [checkEntry]
  by_cases hp : (pmapRead mem m).1 &&& pdePBit = 0
  · rw [if_pos hp, if_pos hp]
    rfl
  rw [if_neg hp, if_neg hp]
  cases testPmapEntryReservedBit mask (pmapRead mem m).1 i levels d with
  | none => rfl
  | some reserved =>
    cases reserved with
    | true => rfl
    | false =>
      change (match entryRefuses d (simplify2 levels i (pmapRead mem m).1) with
        | some err => some (mem, Except.error err)
        | none =>
          (setAdBit mem (pmapRead mem m).2 (simplify3 d i (simplify2 levels i (pmapRead mem m).1))
            true (setsDirty d i
              (simplify3 d i (simplify2 levels i (pmapRead mem m).1)))).bind _) = _
      rw [Option.bind_some, if_neg Bool.false_ne_true]
      cases entryRefuses d (simplify2 levels i (pmapRead mem m).1) with
      | some err => rfl
      | none => rfl

/-- What `checkEntry` lets through. -/
structure Passes (mask : BitVec 64) (d : GetPteData) (levels level : Nat) (e x : BitVec 64)
    (setd : Bool) : Prop where
  present : e &&& pdePBit ≠ 0
  reserved : testPmapEntryReservedBit mask e level levels d = some false
  rights : entryRefuses d (simplify2 levels level e) = none
  kept : x = simplify3 d level (simplify2 levels level e)
  dirty : setd = setsDirty d level x

theorem checkEntry_eq_ok_iff {x : BitVec 64} {setd : Bool} :
    checkEntry mask d levels i e = some (.ok (x, setd)) ↔ Passes mask d levels i e x setd := by
  constructor
  · intro h
    unfold checkEntry at h
    split_ifs at h with hp
    · cases h
    obtain ⟨reserved, hres, h⟩ := Option.bind_eq_some_iff.mp h
    cases reserved with
    | true => cases h
    | false =>
      rw [if_neg Bool.false_ne_true] at h
      cases href : entryRefuses d (simplify2 levels i e) with
      | some err =>
        rw [href] at h
        cases h
      | none =>
        rw [href] at h
        cases h
        exact ⟨hp, hres, href, rfl, rfl⟩
  · intro h
    rw [checkEntry, if_neg h.present, h.reserved, Option.bind_some, if_neg Bool.false_ne_true,
      h.rights, h.dirty, h.kept]

/-- A level of a walk below the entry `e` of level `r`: the memory and the error, or the level and
the entry that the walk is at, and the entry that is kept. -/
def stepBelow (mask : BitVec 64) (d : GetPteData) (levels : Nat) (virt : BitVec 64) (i : Nat)
    (mem : TableMem) (r : Nat) (e : BitVec 64) :
    Option (TableMem × Except Vmmerr (Nat × BitVec 64 × BitVec 64)) :=
  if (pmapTables levels).stops r e then
    (checkEntry mask d levels (i + 1) (readValue levels virt i (r, e))).bind fun
      | .error err => some (mem, .error err)
      | .ok (x, setd) => if x ||| adBits setd = x then some (mem, .ok (r, e, x)) else none
  else
    let a := entryAddrOf levels i e virt
    (checkEntry mask d levels (i + 1) (rdEntry levels mem a)).bind fun
      | .error err => some (mem, .error err)
      | .ok (x, setd) =>
        if x ||| adBits setd = x then some (mem, .ok (i, rdEntry levels mem a, x))
        else some (Function.update mem a (x ||| adBits setd),
          .ok (i, x ||| adBits setd, x ||| adBits setd))

/-- The levels below `i`. -/
def walkBelow (mask : BitVec 64) (d : GetPteData) (levels : Nat) (virt : BitVec 64) :
    (i : Nat) → TableMem → (r : Nat) → (e last : BitVec 64) →
      Option (TableMem × Except Vmmerr (BitVec 64))
  | 0, mem, _, _, last => some (mem, .ok last)
  | i + 1, mem, r, e, _ =>
    (stepBelow mask d levels virt i mem r e).bind fun
      | (mem, .error err) => some (mem, .error err)
      | (mem, .ok (r, e, x)) => walkBelow mask d levels virt i mem r e x

/-- The cursor of a walk is at the entry `e` of level `r`. -/
structure CursorAt (n : Nat) (virt : BitVec 64) (r : Nat) (e : BitVec 64) (m : Pmap) : Prop where
  levels : m.levels = n
  type : m.type = .guestAtomic
  curaddr : m.curaddr = virt
  readlevel : m.readlevel = r
  entry : m.entry r = e
  le_levels : r ≤ n

theorem CursorAt.setlevel (h : CursorAt levels virt r e m) (level : Nat) :
    CursorAt levels virt r e (pmapSetlevel m level) :=
  ⟨h.levels, h.type, h.curaddr, h.readlevel, h.entry, h.le_levels⟩

/-- What `set_ad_bit` is to write. -/
theorem setAdBit_eq (mem : TableMem) (m : Pmap) (x : BitVec 64) (setd : Bool) :
    setAdBit mem m x true setd =
      if x ||| adBits setd = x then some (false, mem, m, x)
      else (pmapWrite mem m (x ||| adBits setd) 0xFFF).map fun (fail, mem, m) =>
        (fail, mem, m, x ||| adBits setd) := by
  unfold Vmm.setAdBit
  dsimp only
  rw [pdeABit_test, pdeDBit_test, Bool.true_and, or_adBits]
  by_cases hno : x ||| adBits setd = x
  · obtain ⟨h5, h6⟩ := or_adBits_eq_iff.mp hno
    rw [if_pos hno, h5, Bool.not_true, Bool.false_or]
    cases setd with
    | false => rfl
    | true =>
      rw [h6 rfl]
      rfl
  · rw [if_neg hno, if_pos]
    by_contra hset
    rw [Bool.not_eq_true, Bool.or_eq_false_iff] at hset
    refine hno (or_adBits_eq_iff.mpr ⟨by simpa using hset.1, fun hd => ?_⟩)
    rw [hd] at hset
    simpa using hset.2

/-- What is kept of an entry fits into it. -/
theorem Passes.fits {x : BitVec 64} {setd : Bool} (h : Passes mask d levels i e x setd)
    (he : wordOf (entryBits levels) e = e) :
    wordOf (entryBits levels) (x ||| adBits setd) = x ||| adBits setd := by
  by_cases hl : levels = 2
  · have hbits : entryBits levels = 32 := if_pos hl
    have hlt : e.toNat < 2 ^ 32 := by
      rw [hbits] at he
      rw [← he, wordOf, BitVec.toNat_setWidth, BitVec.toNat_setWidth]
      omega
    have hx : x.toNat < 2 ^ 32 := by
      rw [h.kept, simplify2, if_neg (by omega), simplify3]
      split_ifs
      · rw [BitVec.toNat_and]
        exact Nat.lt_of_le_of_lt Nat.and_le_left hlt
      · exact hlt
    refine wordOf_entryBits fun _ => ?_
    rw [BitVec.toNat_or]
    exact Nat.or_lt_two_pow hx (by cases setd <;> decide)
  · rw [entryBits, if_neg hl, wordOf_64]

theorem wordOf_rdEntry (mem : TableMem) (a : BitVec 64) :
    wordOf (entryBits levels) (rdEntry levels mem a) = rdEntry levels mem a := by
  rw [rdEntry_eq, pmapRd, wordOf, wordOf]
  apply BitVec.eq_of_toNat_eq
  simp only [BitVec.toNat_setWidth]
  unfold entryBits
  split_ifs <;> omega

/-! ### The walk without its cursor -/

theorem CursorAt.read_stopped (h : CursorAt levels virt r e m) (hir : i < r)
    (hstop : (pmapTables levels).stops r e = true) :
    pmapRead mem (pmapSetlevel m (i + 1)) =
      (readValue levels virt i (r, e), pmapSetlevel m (i + 1)) := by
  have hset := h.setlevel (i + 1)
  have hcur : (pmapSetlevel m (i + 1)).curlevel = i := rfl
  obtain ⟨k, hk⟩ : ∃ k, r - i = k + 1 := ⟨r - i - 1, by omega⟩
  rw [pmapRead, hset.readlevel, hcur, hk, readLoop_stop, hset.levels, hset.curaddr, hset.readlevel,
    hset.entry, hcur]
  · rw [hset.levels, hset.readlevel, hset.entry]
    exact hstop
  · rw [hset.readlevel]
    exact hir

theorem CursorAt.read_fetches (h : CursorAt levels virt (i + 1) e m)
    (hstop : (pmapTables levels).stops (i + 1) e = false) :
    pmapRead mem (pmapSetlevel m (i + 1)) =
      (rdEntry levels mem (entryAddrOf levels i e virt), (pmapSetlevel m (i + 1)).fetch mem) := by
  have hset := h.setlevel (i + 1)
  have hcur : (pmapSetlevel m (i + 1)).curlevel = i := rfl
  have hn : i + 1 - i = 0 + 1 := by omega
  rw [pmapRead, hset.readlevel, hcur, hn, readLoop_fetch, readLoop]
  · have hentry : ((pmapSetlevel m (i + 1)).fetch mem).entry i =
        rdEntry levels mem (entryAddrOf levels i e virt) := by
      simp only [Pmap.fetch, hset.readlevel, hset.levels, hset.entry, hset.curaddr,
        Nat.add_sub_cancel, Function.update_self]
    exact congrArg (·, _) hentry
  · rw [hset.levels, hset.readlevel, hset.entry]
    exact hstop

/-- The cursor after an entry was fetched, and the entry and the address that it keeps. -/
theorem CursorAt.fetch (h : CursorAt levels virt (i + 1) e m) (mem : TableMem) :
    CursorAt levels virt i (rdEntry levels mem (entryAddrOf levels i e virt)) (m.fetch mem) ∧
      (m.fetch mem).entryaddr i = entryAddrOf levels i e virt := by
  have hle := h.le_levels
  refine ⟨⟨h.levels, h.type, h.curaddr, ?_, ?_, by omega⟩, ?_⟩ <;>
    simp only [Pmap.fetch, h.readlevel, h.levels, h.entry, h.curaddr, Nat.add_sub_cancel,
      Function.update_self]

/-- Writing the entry that was just read. -/
theorem CursorAt.write {a x : BitVec 64} (h : CursorAt levels virt i e m) (mem : TableMem)
    (hcur : m.curlevel = i) (hi : i < levels) (haddr : m.entryaddr i = a) (he : e = rdEntry levels mem a)
    (hx : wordOf (entryBits levels) x = x) :
    ∃ m', pmapWrite mem m x 0xFFF = some (false, Function.update mem a x, m') ∧
      CursorAt levels virt i x m' := by
  have hold : wordOf (entryBits levels) e = pmapRd (entryBits levels) mem a := by
    rw [he, wordOf_rdEntry, rdEntry_eq]
  refine ⟨{ m with entry := Function.update m.entry i x }, ?_,
    ⟨h.levels, h.type, h.curaddr, h.readlevel, Function.update_self _ _ _, h.le_levels⟩⟩
  rw [pmapWrite, hcur, if_pos ⟨Nat.le_of_eq h.readlevel, by rw [h.levels]; exact hi⟩, h.levels,
    h.type, haddr, h.entry, writeEntry_full, wrEntry_eq, pmapWr, if_pos hold, hx]
  rfl

/-- What is known of the result of a level with the cursor from the one without it. -/
def StepAgrees (levels : Nat) (virt : BitVec 64)
    (code : Option (TableMem × Except Vmmerr (Pmap × BitVec 64))) :
    Option (TableMem × Except Vmmerr (Nat × BitVec 64 × BitVec 64)) → Prop
  | none => code = none
  | some (mem, .error err) => code = some (mem, .error err)
  | some (mem, .ok (r, e, x)) => ∃ m, code = some (mem, .ok (m, x)) ∧ CursorAt levels virt r e m

theorem CursorAt.step (h : CursorAt levels virt r e m) (hir : i < r)
    (hr : (pmapTables levels).stops r e = false → r = i + 1) (n : Nat) :
    StepAgrees levels virt
      (getPteEntry mask d levels (i + 1) (n + 1) mem (pmapSetlevel m (i + 1)))
      (stepBelow mask d levels virt i mem r e) := by
  rw [getPteEntry_eq, stepBelow]
  have hset := h.setlevel (i + 1)
  cases hstop : (pmapTables levels).stops r e with
  | true =>
    rw [h.read_stopped hir hstop, if_pos rfl]
    dsimp only
    rcases checkEntry mask d levels (i + 1) (readValue levels virt i (r, e)) with
      _ | ⟨err⟩ | ⟨x, setd⟩
    · exact rfl
    · exact rfl
    · simp only [Option.bind_some, setAdBit_eq]
      by_cases hno : x ||| adBits setd = x
      · rw [if_pos hno, if_pos hno]
        exact ⟨_, rfl, hset⟩
      · -- the entry of a large page is not written at the levels below
        have hassert : pmapWrite mem (pmapSetlevel m (i + 1)) (x ||| adBits setd) 0xFFF = none := by
          rw [pmapWrite, if_neg]
          rw [hset.readlevel]
          exact fun hle => Nat.not_le.mpr hir hle.1
        rw [if_neg hno, if_neg hno, hassert]
        exact rfl
  | false =>
    obtain rfl := hr hstop
    have hfetch := hset.fetch mem
    rw [h.read_fetches hstop, if_neg Bool.false_ne_true]
    dsimp only
    rcases hcheck : checkEntry mask d levels (i + 1)
      (rdEntry levels mem (entryAddrOf levels i e virt)) with _ | ⟨err⟩ | ⟨x, setd⟩
    · exact rfl
    · exact rfl
    · simp only [Option.bind_some, setAdBit_eq]
      by_cases hno : x ||| adBits setd = x
      · rw [if_pos hno, if_pos hno]
        exact ⟨_, rfl, hfetch.1⟩
      · have hfits := (checkEntry_eq_ok_iff.1 hcheck).fits (wordOf_rdEntry _ _)
        obtain ⟨m', hwrite, hm'⟩ := hfetch.1.write mem rfl h.le_levels hfetch.2 rfl hfits
        rw [if_neg hno, if_neg hno, hwrite]
        exact ⟨m', rfl, hm'⟩

theorem checkEntry_ne_success {err : Vmmerr}
    (h : checkEntry mask d levels i e = some (.error err)) : err ≠ .success := by
  unfold checkEntry at h
  split_ifs at h with hp
  · cases h
    exact nofun
  obtain ⟨reserved, -, h⟩ := Option.bind_eq_some_iff.mp h
  cases reserved with
  | true =>
    cases h
    exact nofun
  | false =>
    rw [if_neg Bool.false_ne_true] at h
    rcases entryRefuses_cases d (simplify2 levels i e) with hr | hr | hr <;> rw [hr] at h <;>
      cases h <;> exact nofun

/-- What is known of the result of `get_pte_sub` from the walk without its cursor. -/
def LoopEnds (code : Option (Vmmerr × TableMem × (Nat → BitVec 64))) :
    Option (TableMem × Except Vmmerr (BitVec 64)) → Prop
  | none => code = none
  | some (mem, .error err) => err ≠ .success ∧ ∃ entries, code = some (err, mem, entries)
  | some (mem, .ok pte) => ∃ entries, code = some (.success, mem, entries) ∧ entries 0 = pte

theorem stepBelow_ne_success {err : Vmmerr} {mem' : TableMem}
    (h : stepBelow mask d levels virt i mem r e = some (mem', .error err)) : err ≠ .success := by
  unfold stepBelow at h
  split_ifs at h with hstop
  · obtain ⟨out, hcheck, h⟩ := Option.bind_eq_some_iff.mp h
    rcases out with err' | ⟨x, setd⟩
    · cases h
      exact checkEntry_ne_success hcheck
    · dsimp only at h
      split_ifs at h
      cases h
  · obtain ⟨out, hcheck, h⟩ := Option.bind_eq_some_iff.mp h
    rcases out with err' | ⟨x, setd⟩
    · cases h
      exact checkEntry_ne_success hcheck
    · dsimp only at h
      split_ifs at h <;> cases h

/-- From a level on, a walk is at an entry of a large page or goes on to the next table. -/
theorem stepBelow_next {mem' : TableMem} {r' : Nat} {e' x : BitVec 64}
    (h : stepBelow mask d levels virt i mem r e = some (mem', .ok (r', e', x))) (hir : i < r) :
    i ≤ r' ∧ ∀ k, k + 1 = i → k < r' ∧ ((pmapTables levels).stops r' e' = false → r' = k + 1) := by
  unfold stepBelow at h
  split_ifs at h with hstop
  · obtain ⟨out, -, h⟩ := Option.bind_eq_some_iff.mp h
    rcases out with err | ⟨x', setd⟩
    · cases h
    · dsimp only at h
      split_ifs at h
      cases h
      refine ⟨Nat.le_of_lt hir, fun k hk => ⟨by omega, fun hgo => ?_⟩⟩
      rw [hstop] at hgo
      cases hgo
  · obtain ⟨out, -, h⟩ := Option.bind_eq_some_iff.mp h
    rcases out with err | ⟨x', setd⟩
    · cases h
    · dsimp only at h
      split_ifs at h <;> cases h <;> exact ⟨Nat.le_refl _, fun k hk => ⟨by omega, fun _ => hk.symm⟩⟩

theorem CursorAt.loop (n : Nat) {i : Nat} {r : Nat} {e last : BitVec 64} {mem : TableMem} {m : Pmap}
    (entries : Nat → BitVec 64) (h : CursorAt levels virt r e m)
    (hr : ∀ k, k + 1 = i → k < r ∧ ((pmapTables levels).stops r e = false → r = k + 1))
    (hlast : i = 0 → entries 0 = last) :
    LoopEnds (getPteLoop mask d levels (n + 1) i mem m entries)
      (walkBelow mask d levels virt i mem r e last) := by
  induction i generalizing mem m r e last entries with
  | zero => exact ⟨entries, rfl, hlast rfl⟩
  | succ i ih =>
    obtain ⟨hir, hgo⟩ := hr i rfl
    have hstep : StepAgrees levels virt _ (stepBelow mask d levels virt i mem r e) :=
      h.step hir hgo n
    rw [walkBelow]
    rcases hs : stepBelow mask d levels virt i mem r e with _ | ⟨mem', err | ⟨r', e', x⟩⟩
    · rw [hs] at hstep
      rw [getPteLoop, hstep]
      exact rfl
    · rw [hs] at hstep
      exact ⟨stepBelow_ne_success hs, entries, getPteLoop_of_error entries hstep⟩
    · rw [hs] at hstep
      obtain ⟨m', hcode, hm'⟩ := hstep
      rw [getPteLoop_of_ok entries hcode]
      refine ih _ hm' (stepBelow_next hs hir).2 fun hi => ?_
      rw [hi, Function.update_self]

theorem cursorAt_openedAt (m : Pmap) (cr3 virt : BitVec 64) (levels : Nat) :
    CursorAt levels virt levels (rootEntry levels cr3) (openedAt m cr3 virt levels) :=
  ⟨rfl, rfl, rfl, readlevel_openedAt _ _ _ _, Function.update_self _ _ _, Nat.le_refl _⟩

/-! ### Marks -/

/-- An entry that has been marked since as accessed or dirty. -/
structure MarkedFrom (e e' : BitVec 64) : Prop where
  same : ∀ j < 64, j ≠ 5 → j ≠ 6 → e'.getLsbD j = e.getLsbD j
  accessed : e.getLsbD 5 = true → e'.getLsbD 5 = true
  dirty : e.getLsbD 6 = true → e'.getLsbD 6 = true

namespace MarkedFrom

variable {e' e'' x : BitVec 64} {setd : Bool}

@[refl] theorem refl (e : BitVec 64) : MarkedFrom e e := ⟨fun _ _ _ _ => rfl, id, id⟩

theorem trans (h : MarkedFrom e e') (h' : MarkedFrom e' e'') : MarkedFrom e e'' :=
  ⟨fun j hj h5 h6 => (h'.same j hj h5 h6).trans (h.same j hj h5 h6), h'.accessed ∘ h.accessed,
    h'.dirty ∘ h.dirty⟩

theorem or_adBits (e : BitVec 64) (setd : Bool) : MarkedFrom e (e ||| adBits setd) := by
  refine ⟨fun j hj h5 h6 => ?_, fun h => ?_, fun h => ?_⟩
  · rw [BitVec.getLsbD_or, getLsbD_adBits setd hj]
    simp [h5, h6]
  · rw [BitVec.getLsbD_or, h, Bool.true_or]
  · rw [BitVec.getLsbD_or, h, Bool.true_or]

/-- A test of other bits does not see the marks. -/
theorem and_eq (h : MarkedFrom e e') {f : BitVec 64} (h5 : f.getLsbD 5 = false)
    (h6 : f.getLsbD 6 = false) : e' &&& f = e &&& f := by
  apply eq_of_bits
  intro j hj
  rw [BitVec.getLsbD_and, BitVec.getLsbD_and]
  by_cases hj5 : j = 5
  · rw [hj5, h5, Bool.and_false, Bool.and_false]
  by_cases hj6 : j = 6
  · rw [hj6, h6, Bool.and_false, Bool.and_false]
  rw [h.same j hj hj5 hj6]

/-- Marks that an entry has already are not set in it again. -/
theorem or_eq (h : MarkedFrom e e') (hset : e ||| adBits setd = e) : e' ||| adBits setd = e' := by
  obtain ⟨h5, h6⟩ := or_adBits_eq_iff.mp hset
  exact or_adBits_eq_iff.mpr ⟨h.accessed h5, fun hd => h.dirty (h6 hd)⟩

theorem stops (h : MarkedFrom e e') :
    (pmapTables levels).stops r e' = (pmapTables levels).stops r e := by
  unfold pmapTables
  dsimp only
  rw [h.and_eq (by decide) (by decide), h.and_eq (by decide) (by decide)]

theorem splitPdpe (h : MarkedFrom e e') (virt : BitVec 64) :
    MarkedFrom (splitPdpe virt e) (splitPdpe virt e') := by
  refine ⟨fun j hj h5 h6 => ?_, fun h5 => ?_, fun h6 => ?_⟩
  · rw [getLsbD_splitPdpe _ _ hj, getLsbD_splitPdpe _ _ hj, h.same j hj h5 h6]
  · rw [getLsbD_splitPdpe _ _ (by decide)] at h5 ⊢
    exact h.accessed h5
  · rw [getLsbD_splitPdpe _ _ (by decide)] at h6 ⊢
    exact h.dirty h6

theorem handlePdePsBit (h : MarkedFrom e e') (levels : Nat) (virt : BitVec 64) :
    MarkedFrom (handlePdePsBit levels virt e) (handlePdePsBit levels virt e') := by
  by_cases hl : levels = 2
  · subst hl
    refine ⟨fun j hj h5 h6 => ?_, fun h5 => ?_, fun h6 => ?_⟩
    · have h12 := h.same 12 (by decide) (by decide) (by decide)
      rw [getLsbD_handlePdePsBit_two _ _ hj, getLsbD_handlePdePsBit_two _ _ hj, h12,
        h.same j hj h5 h6]
      by_cases hmoved : 32 ≤ j ∧ j ≤ 39
      · rw [h.same (j - 19) (by omega) (by omega) (by omega)]
      · rw [decide_eq_false hmoved, Bool.false_and, Bool.false_and]
    · rw [getLsbD_handlePdePsBit_two _ _ (by decide)] at h5 ⊢
      simpa using h.accessed (by simpa using h5)
    · rw [getLsbD_handlePdePsBit_two _ _ (by decide)] at h6 ⊢
      simpa using h.dirty (by simpa using h6)
  · refine ⟨fun j hj h5 h6 => ?_, fun h5 => ?_, fun h6 => ?_⟩
    · have h12 := h.same 12 (by decide) (by decide) (by decide)
      rw [getLsbD_handlePdePsBit hl _ _ hj, getLsbD_handlePdePsBit hl _ _ hj, h12,
        h.same j hj h5 h6]
    · rw [getLsbD_handlePdePsBit hl _ _ (by decide)] at h5 ⊢
      exact h.accessed h5
    · rw [getLsbD_handlePdePsBit hl _ _ (by decide)] at h6 ⊢
      exact h.dirty h6

theorem readValue (h : MarkedFrom e e') (levels : Nat) (virt : BitVec 64) (i r : Nat) :
    MarkedFrom (readValue levels virt i (r, e)) (readValue levels virt i (r, e')) := by
  unfold Vmm.readValue
  dsimp only
  rw [h.and_eq (f := pdePBit) (by decide) (by decide)]
  split_ifs
  · exact h
  · exact refl _
  · exact (h.splitPdpe virt).handlePdePsBit levels virt
  · exact h.splitPdpe virt
  · exact h.handlePdePsBit levels virt

end MarkedFrom

/-- A mask of address bits. -/
def LowClear (mask : BitVec 64) : Prop := mask.getLsbD 5 = false ∧ mask.getLsbD 6 = false

theorem lowClear_getPteAddrMask (n : Nat) : LowClear (getPteAddrMask n) := by
  unfold LowClear getPteAddrMask
  simp

theorem reservedBitTable_low (nxe : Bool) {k l : Nat}
    (h : k = 0 ∧ l ≤ 2 ∨ k = 1 ∧ l ≤ 2 ∨ k = 2 ∧ l ≤ 5) : LowClear (reservedBitTable nxe k l) := by
  unfold LowClear
  obtain ⟨rfl, hl⟩ | ⟨rfl, hl⟩ | ⟨rfl, hl⟩ := h <;> interval_cases l <;> cases nxe <;> decide

theorem reservedLevel_le (h2 : 2 ≤ levels) (h4 : levels ≤ 4) (hi : i ≤ levels)
    (hne : ¬ (levels = 3 ∧ i = 3)) (e : BitVec 64) :
    levels - 2 = 0 ∧ reservedLevel e i levels ≤ 2 ∨ levels - 2 = 1 ∧ reservedLevel e i levels ≤ 2 ∨
      levels - 2 = 2 ∧ reservedLevel e i levels ≤ 5 := by
  unfold reservedLevel
  dsimp only
  split_ifs <;> omega

/-- What `get_pte_sub` makes of the control registers, and a mask of address bits. -/
structure WalkData (mask : BitVec 64) (d : GetPteData) (n : Nat) : Prop where
  low : LowClear mask
  low7 : mask.getLsbD 7 = false
  two_le : 2 ≤ n
  le_four : n ≤ 4
  pse : d.pse = true ∨ d.pae = false ∧ n = 2
  pae : n = 3 → d.pae = true

theorem walkData_pagingLevels (d : GetPteData) (n : Nat) :
    WalkData (getPteAddrMask n) (pagingLevels d).2 (pagingLevels d).1 := by
  have h7 : (getPteAddrMask n).getLsbD 7 = false := by
    unfold getPteAddrMask
    simp
  have hlow := lowClear_getPteAddrMask n
  unfold pagingLevels
  split_ifs with hlme hpae
  · exact ⟨hlow, h7, Nat.le_of_ble_eq_true rfl, Nat.le_refl _, .inl rfl, nofun⟩
  · exact ⟨hlow, h7, Nat.le_of_ble_eq_true rfl, Nat.le_of_ble_eq_true rfl, .inl rfl, fun _ => hpae⟩
  · refine ⟨hlow, h7, Nat.le_refl _, Nat.le_of_ble_eq_true rfl, .inr ⟨?_, rfl⟩, nofun⟩
    exact Bool.not_eq_true _ ▸ hpae

section

variable {x e' : BitVec 64} {setd : Bool} (w : WalkData mask d levels)

include w

theorem MarkedFrom.reserved (h : MarkedFrom e e') (hi : i ≤ levels)
    (hne : ¬ (levels = 3 ∧ i = 3)) :
    testPmapEntryReservedBit mask e' i levels d = testPmapEntryReservedBit mask e i levels d := by
  have hlevel : reservedLevel e' i levels = reservedLevel e i levels := by
    unfold reservedLevel
    dsimp only
    rw [h.and_eq (by decide) (by decide)]
  have hrow := reservedBitTable_low d.nxe (reservedLevel_le w.two_le w.le_four hi hne e)
  have hlow : LowClear (reservedBitTable d.nxe (levels - 2) (reservedLevel e i levels) ^^^
      (mask ^^^ pteAddrMask64)) := by
    have h5 : pteAddrMask64.getLsbD 5 = false := by decide
    have h6 : pteAddrMask64.getLsbD 6 = false := by decide
    unfold LowClear
    rw [BitVec.getLsbD_xor, BitVec.getLsbD_xor, BitVec.getLsbD_xor, BitVec.getLsbD_xor, hrow.1,
      hrow.2, w.low.1, w.low.2, h5, h6]
    exact ⟨rfl, rfl⟩
  unfold testPmapEntryReservedBit
  dsimp only
  rw [hlevel, h.and_eq hlow.1 hlow.2]

omit w in
theorem getLsbD_simplify3 (d : GetPteData) (e : BitVec 64) {j : Nat} (hj : j < 64) (h7 : j ≠ 7) :
    (simplify3 d i e).getLsbD j = e.getLsbD j := by
  have hps : pdePsBit = bits 7 7 := by decide
  unfold simplify3
  split_ifs
  · rw [BitVec.getLsbD_and, BitVec.getLsbD_not, hps, getLsbD_bit hj, decide_eq_false h7,
      decide_eq_true hj]
    exact Bool.and_true _
  · rfl

omit w in
theorem MarkedFrom.simplify3 (h : MarkedFrom e e') (d : GetPteData) (i : Nat) :
    MarkedFrom (simplify3 d i e) (simplify3 d i e') := by
  refine ⟨fun j hj h5 h6 => ?_, fun h5 => ?_, fun h6 => ?_⟩
  · unfold Vmm.simplify3
    split_ifs
    · rw [BitVec.getLsbD_and, BitVec.getLsbD_and, h.same j hj h5 h6]
    · exact h.same j hj h5 h6
  · rw [getLsbD_simplify3 _ _ (by decide) (by decide)] at h5 ⊢
    exact h.accessed h5
  · rw [getLsbD_simplify3 _ _ (by decide) (by decide)] at h6 ⊢
    exact h.dirty h6

omit w in
theorem simplify2_of_ne (hne : ¬ (levels = 3 ∧ i = 3)) (e : BitVec 64) : simplify2 levels i e = e :=
  if_neg hne

/-- An entry that was let through is let through when it has been marked. -/
theorem Passes.marked (h : Passes mask d levels i e x setd) (he : MarkedFrom e e')
    (hi : i ≤ levels) (hne : ¬ (levels = 3 ∧ i = 3)) :
    Passes mask d levels i e' (simplify3 d i e') setd ∧ MarkedFrom x (simplify3 d i e') := by
  have hkept := h.kept
  rw [simplify2_of_ne hne] at hkept
  have hx : MarkedFrom x (simplify3 d i e') := hkept ▸ he.simplify3 d i
  refine ⟨⟨?_, ?_, ?_, ?_, ?_⟩, hx⟩
  · rw [he.and_eq (by decide) (by decide)]
    exact h.present
  · rw [he.reserved w hi hne]
    exact h.reserved
  · have hrights := h.rights
    rw [simplify2_of_ne hne] at hrights ⊢
    unfold entryRefuses at hrights ⊢
    rwa [he.and_eq (by decide) (by decide), he.and_eq (by decide) (by decide),
      he.and_eq (by decide) (by decide)]
  · rw [simplify2_of_ne hne]
  · rw [h.dirty]
    unfold setsDirty
    rw [hx.and_eq (by decide) (by decide)]

omit w in
theorem simplify3_and (d : GetPteData) (e : BitVec 64) {f : BitVec 64}
    (hf : ~~~pdePsBit &&& f = f) : simplify3 d i e &&& f = e &&& f := by
  unfold simplify3
  split_ifs
  · rw [BitVec.and_assoc, hf]
  · rfl

/-- An entry is let through as it is kept, too. -/
theorem Passes.again (h : Passes mask d levels i e x setd) (hne : ¬ (levels = 3 ∧ i = 3)) :
    Passes mask d levels i x x setd := by
  have hkept := h.kept
  rw [simplify2_of_ne hne] at hkept
  have hand {f : BitVec 64} (hf : ~~~pdePsBit &&& f = f) : x &&& f = e &&& f :=
    hkept ▸ simplify3_and d e hf
  refine ⟨?_, ?_, ?_, ?_, h.dirty⟩
  · rw [hand (by decide)]
    exact h.present
  · rcases w.pse with hpse | ⟨hpae, -⟩
    · have hx : x = e := by
        rw [hkept, simplify3, if_neg]
        simp [hpse]
      rw [hx]
      exact h.reserved
    · by_cases hpse : d.pse = true
      · have hx : x = e := by
          rw [hkept, simplify3, if_neg]
          simp [hpse]
        rw [hx]
        exact h.reserved
      · rw [testPmapEntryReservedBit, if_pos]
        simp [hpae, hpse]
  · have hrights := h.rights
    rw [simplify2_of_ne hne] at hrights ⊢
    unfold entryRefuses at hrights ⊢
    rwa [hand (by decide), hand (by decide), hand (by decide)]
  · rw [simplify2_of_ne hne]
    conv_lhs => rw [hkept]
    rw [hkept]
    unfold simplify3
    split_ifs
    · rw [BitVec.and_assoc, BitVec.and_self]
    · rfl

/-- The bits that are reserved in the topmost entries of PAE paging, once they were tested. -/
theorem reserved_pdpte (hl : levels = 3) (h : testPmapEntryReservedBit mask e 3 levels d ≠ none) :
    ∃ f : BitVec 64, f.getLsbD 5 = true ∧ f.getLsbD 6 = true ∧ f.getLsbD 7 = true ∧
      ∀ e', testPmapEntryReservedBit mask e' 3 levels d = some (e' &&& f != 0) := by
  subst hl
  have htest (e' : BitVec 64) : testPmapEntryReservedBit mask e' 3 3 d =
      if 0xFFFFFFF0000001E6 ^^^ (mask ^^^ pteAddrMask64) = 0xFFFFFFFFFFFFFFFF then none
      else some (e' &&& (0xFFFFFFF0000001E6 ^^^ (mask ^^^ pteAddrMask64)) != 0) := by
    have hlevel : reservedLevel e' 3 3 = 3 := by
      unfold reservedLevel
      simp
    have hrow : reservedBitTable d.nxe (3 - 2) 3 = 0xFFFFFFF0000001E6 := by
      cases d.nxe <;> rfl
    unfold testPmapEntryReservedBit
    dsimp only
    rw [hlevel, hrow, w.pae rfl, Bool.not_true, Bool.false_and, if_neg Bool.false_ne_true]
  refine ⟨0xFFFFFFF0000001E6 ^^^ (mask ^^^ pteAddrMask64), ?_, ?_, ?_, fun e' => ?_⟩
  · rw [BitVec.getLsbD_xor, BitVec.getLsbD_xor, w.low.1]
    decide
  · rw [BitVec.getLsbD_xor, BitVec.getLsbD_xor, w.low.2]
    decide
  · rw [BitVec.getLsbD_xor, BitVec.getLsbD_xor, w.low7]
    decide
  · rw [htest] at h ⊢
    split_ifs at h ⊢ with hones
    · exact absurd rfl h
    · rfl

/-- The topmost entries of PAE paging are not marked. -/
theorem Passes.pdpte_unmarked (h : Passes mask d levels 3 e x setd) (hl : levels = 3) :
    x ||| adBits setd = x := by
  obtain ⟨f, -, -, h7, hf⟩ := reserved_pdpte w hl (h.reserved ▸ Option.some_ne_none _)
  have hzero : e &&& f = 0 := by
    have hres := h.reserved
    rw [hf, Option.some.injEq] at hres
    simpa using hres
  have hx : x = e ||| (pdeRwBit ||| pdeUsBit ||| pdeABit) := by
    rw [h.kept, simplify2, if_pos ⟨hl, rfl⟩, simplify3, if_neg (by simp)]
  have hps : x &&& pdePsBit = 0 := by
    have he7 : e.getLsbD 7 = false := by
      by_contra hset
      rw [Bool.not_eq_false] at hset
      have hboth : (e &&& f).getLsbD 7 = true := by
        rw [BitVec.getLsbD_and, hset, h7]
        rfl
      rw [hzero] at hboth
      exact absurd hboth (by decide)
    by_contra hne
    have hlarge := and_pdePsBit.mp hne
    rw [large, hx, BitVec.getLsbD_or, he7] at hlarge
    exact absurd hlarge (by decide)
  have hsetd : setd = false := by
    rw [h.dirty, setsDirty, hps]
    simp
  rw [or_adBits_eq_iff, hsetd]
  refine ⟨?_, fun h => absurd h Bool.false_ne_true⟩
  rw [hx, BitVec.getLsbD_or]
  exact Bool.or_true _

end

/-! ### What a level does -/

/-- How a level of a walk ends where it is passed: with the entry of a large page, or with one that
is marked already or is marked now. -/
inductive StepEnds (mask : BitVec 64) (d : GetPteData) (levels : Nat) (virt : BitVec 64) (i : Nat)
    (mem : TableMem) (r : Nat) (e : BitVec 64) : TableMem → Nat → BitVec 64 → BitVec 64 → Prop
  | large {x : BitVec 64} {setd : Bool} (hstop : (pmapTables levels).stops r e = true)
      (hpass : Passes mask d levels (i + 1) (readValue levels virt i (r, e)) x setd)
      (hset : x ||| adBits setd = x) : StepEnds mask d levels virt i mem r e mem r e x
  | keeps {x : BitVec 64} {setd : Bool} (hstop : (pmapTables levels).stops r e = false)
      (hpass : Passes mask d levels (i + 1) (rdEntry levels mem (entryAddrOf levels i e virt)) x
        setd)
      (hset : x ||| adBits setd = x) :
      StepEnds mask d levels virt i mem r e mem i
        (rdEntry levels mem (entryAddrOf levels i e virt)) x
  | marks {x : BitVec 64} {setd : Bool} (hstop : (pmapTables levels).stops r e = false)
      (hpass : Passes mask d levels (i + 1) (rdEntry levels mem (entryAddrOf levels i e virt)) x
        setd)
      (hset : x ||| adBits setd ≠ x) :
      StepEnds mask d levels virt i mem r e
        (Function.update mem (entryAddrOf levels i e virt) (x ||| adBits setd)) i
        (x ||| adBits setd) (x ||| adBits setd)

theorem stepBelow_eq_ok_iff {mem' : TableMem} {r' : Nat} {e' x : BitVec 64} :
    stepBelow mask d levels virt i mem r e = some (mem', .ok (r', e', x)) ↔
      StepEnds mask d levels virt i mem r e mem' r' e' x := by
  constructor
  · intro h
    unfold stepBelow at h
    cases hstop : (pmapTables levels).stops r e with
    | true =>
      rw [if_pos hstop] at h
      obtain ⟨out, hcheck, h⟩ := Option.bind_eq_some_iff.mp h
      rcases out with err | ⟨x', setd⟩
      · cases h
      · dsimp only at h
        split_ifs at h with hset
        cases h
        exact .large hstop (checkEntry_eq_ok_iff.1 hcheck) hset
    | false =>
      rw [hstop, if_neg Bool.false_ne_true] at h
      obtain ⟨out, hcheck, h⟩ := Option.bind_eq_some_iff.mp h
      rcases out with err | ⟨x', setd⟩
      · cases h
      · dsimp only at h
        split_ifs at h with hset
        · cases h
          exact .keeps hstop (checkEntry_eq_ok_iff.1 hcheck) hset
        · cases h
          exact .marks hstop (checkEntry_eq_ok_iff.1 hcheck) hset
  · rintro (⟨hstop, hpass, hset⟩ | ⟨hstop, hpass, hset⟩ | ⟨hstop, hpass, hset⟩)
    · rw [stepBelow, if_pos hstop, checkEntry_eq_ok_iff.2 hpass, Option.bind_some]
      exact if_pos hset
    · rw [stepBelow, hstop, if_neg Bool.false_ne_true]
      dsimp only
      rw [checkEntry_eq_ok_iff.2 hpass, Option.bind_some]
      exact if_pos hset
    · rw [stepBelow, hstop, if_neg Bool.false_ne_true]
      dsimp only
      rw [checkEntry_eq_ok_iff.2 hpass, Option.bind_some]
      exact if_neg hset

theorem stepBelow_error {mem' : TableMem} {err : Vmmerr}
    (h : stepBelow mask d levels virt i mem r e = some (mem', .error err)) : mem' = mem := by
  unfold stepBelow at h
  split_ifs at h with hstop
  · obtain ⟨out, -, h⟩ := Option.bind_eq_some_iff.mp h
    rcases out with err' | ⟨x, setd⟩
    · cases h
      rfl
    · dsimp only at h
      split_ifs at h
      cases h
  · obtain ⟨out, -, h⟩ := Option.bind_eq_some_iff.mp h
    rcases out with err' | ⟨x, setd⟩
    · cases h
      rfl
    · dsimp only at h
      split_ifs at h <;> cases h

/-- An entry that has been marked since, or is no longer that of a large page. -/
structure TouchedFrom (e e' : BitVec 64) : Prop where
  same : ∀ j < 64, j ≠ 5 → j ≠ 6 → j ≠ 7 → e'.getLsbD j = e.getLsbD j
  accessed : e.getLsbD 5 = true → e'.getLsbD 5 = true
  dirty : e.getLsbD 6 = true → e'.getLsbD 6 = true
  large : e'.getLsbD 7 = true → e.getLsbD 7 = true

@[refl] theorem TouchedFrom.refl (e : BitVec 64) : TouchedFrom e e :=
  ⟨fun _ _ _ _ _ => rfl, id, id, id⟩

theorem TouchedFrom.trans {e e' e'' : BitVec 64} (h : TouchedFrom e e') (h' : TouchedFrom e' e'') :
    TouchedFrom e e'' :=
  ⟨fun j hj h5 h6 h7 => (h'.same j hj h5 h6 h7).trans (h.same j hj h5 h6 h7),
    h'.accessed ∘ h.accessed, h'.dirty ∘ h.dirty, h.large ∘ h'.large⟩

theorem MarkedFrom.touched {e e' : BitVec 64} (h : MarkedFrom e e') : TouchedFrom e e' :=
  ⟨fun j hj h5 h6 _ => h.same j hj h5 h6, h.accessed, h.dirty,
    fun h7 => (h.same 7 (by decide) (by decide) (by decide)) ▸ h7⟩

theorem touchedFrom_simplify3 (d : GetPteData) (i : Nat) (e : BitVec 64) :
    TouchedFrom e (simplify3 d i e) := by
  refine ⟨fun j hj _ _ h7 => getLsbD_simplify3 d e hj h7, fun h5 => ?_, fun h6 => ?_, fun h7 => ?_⟩
  · rwa [getLsbD_simplify3 _ _ (by decide) (by decide)]
  · rwa [getLsbD_simplify3 _ _ (by decide) (by decide)]
  · unfold simplify3 at h7
    split_ifs at h7
    · rw [BitVec.getLsbD_and, Bool.and_eq_true] at h7
      exact h7.1
    · exact h7

/-- The words of a memory, as entries of the tables, are related to those of another one. -/
def Words (n : Nat) (R : BitVec 64 → BitVec 64 → Prop) (mem mem' : TableMem) : Prop :=
  ∀ a, R (rdEntry n mem a) (rdEntry n mem' a)

theorem rdEntry_update_self {a y : BitVec 64} (hy : wordOf (entryBits levels) y = y) :
    rdEntry levels (Function.update mem a y) a = y := by
  rw [rdEntry_eq, pmapRd, Function.update_self, hy]

theorem words_update {R : BitVec 64 → BitVec 64 → Prop} (hrefl : ∀ e, R e e) {a y : BitVec 64}
    (hy : wordOf (entryBits levels) y = y) (h : R (rdEntry levels mem a) y) :
    Words levels R mem (Function.update mem a y) := by
  intro a'
  by_cases ha : a' = a
  · rw [ha, rdEntry_update_self hy]
    exact h
  · rw [rdEntry_congr (Function.update_of_ne ha _ _)]
    exact hrefl _

section

variable {mem' : TableMem} {r' : Nat} {e' x : BitVec 64} (w : WalkData mask d levels)

include w

theorem Passes.not_pdpte {setd : Bool} (h : Passes mask d levels i e x setd)
    (hset : x ||| adBits setd ≠ x) : ¬ (levels = 3 ∧ i = 3) := by
  rintro ⟨hl, rfl⟩
  exact hset (h.pdpte_unmarked w hl)

theorem StepEnds.touched (h : StepEnds mask d levels virt i mem r e mem' r' e' x) :
    Words levels TouchedFrom mem mem' := by
  cases h with
  | large => exact fun _ => .refl _
  | keeps => exact fun _ => .refl _
  | marks hstop hpass hset =>
    refine words_update TouchedFrom.refl (hpass.fits (wordOf_rdEntry _ _)) ?_
    have hkept := hpass.kept
    rw [simplify2_of_ne (hpass.not_pdpte w hset)] at hkept
    refine (touchedFrom_simplify3 d (i + 1) _).trans ?_
    rw [← hkept]
    exact (MarkedFrom.or_adBits _ _).touched

/-- Below the entry of a large page that is none, only marks are set. -/
theorem StepEnds.marked (h : StepEnds mask d levels virt i mem r e mem' r' e' x)
    (hps : d.pse = true ∨ i = 0) : Words levels MarkedFrom mem mem' := by
  cases h with
  | large => exact fun _ => .refl _
  | keeps => exact fun _ => .refl _
  | marks hstop hpass hset =>
    refine words_update MarkedFrom.refl (hpass.fits (wordOf_rdEntry _ _)) ?_
    have hkept := hpass.kept
    rw [simplify2_of_ne (hpass.not_pdpte w hset), simplify3, if_neg] at hkept
    · rw [← hkept]
      exact MarkedFrom.or_adBits _ _
    · rintro ⟨hi, hpse⟩
      rcases hps with hps | hps
      · simp [hps] at hpse
      · omega

theorem walkBelow_touched {last : BitVec 64} {out : Except Vmmerr (BitVec 64)}
    (h : walkBelow mask d levels virt i mem r e last = some (mem', out)) :
    Words levels TouchedFrom mem mem' := by
  induction i generalizing mem r e last with
  | zero =>
    cases h
    exact fun _ => .refl _
  | succ i ih =>
    rw [walkBelow] at h
    obtain ⟨⟨mem₁, err | ⟨r₁, e₁, x⟩⟩, hstep, h⟩ := Option.bind_eq_some_iff.mp h
    · cases h
      rw [stepBelow_error hstep]
      exact fun _ => .refl _
    · exact fun a => ((stepBelow_eq_ok_iff.1 hstep).touched w a).trans (ih h a)

theorem walkBelow_marked {last : BitVec 64} {out : Except Vmmerr (BitVec 64)}
    (h : walkBelow mask d levels virt i mem r e last = some (mem', out))
    (hps : d.pse = true ∨ i ≤ 1) : Words levels MarkedFrom mem mem' := by
  induction i generalizing mem r e last with
  | zero =>
    cases h
    exact fun _ => .refl _
  | succ i ih =>
    rw [walkBelow] at h
    obtain ⟨⟨mem₁, err | ⟨r₁, e₁, x⟩⟩, hstep, h⟩ := Option.bind_eq_some_iff.mp h
    · cases h
      rw [stepBelow_error hstep]
      exact fun _ => .refl _
    · have hstep := (stepBelow_eq_ok_iff.1 hstep).marked w (hps.imp id fun hi => by omega)
      exact fun a => (hstep a).trans (ih h (hps.imp id fun hi => by omega) a)

end

end OnDemandVirt.Vmm
