import OnDemandVirt.Vmm.GetPteStep

/-!
# Below a large page

`get_pte_sub` goes through all levels also where an entry maps a large page: below it the pmap makes
entries of smaller pages. These pass all checks and have their bits set already, and the last of them
is for the page of the address.
-/

namespace OnDemandVirt.Vmm

open Lib.X86

variable {c : Cpu} {acc : Lib.X86.Access} {d : GetPteData} {mem : TableMem} {m : Pmap}
  {va table e : BitVec 64} {level i : Nat}

/-! ### Below a large page -/

/-- The entry of the callers' level `i` that the pmap makes from the leaf `e` of `level`. -/
def madeEntry (levels : Nat) (va e : BitVec 64) (level i : Nat) : BitVec 64 :=
  readValue levels va (i - 1) (level - 1, e)

theorem madeEntry_two (hp : present e = true) (levels : Nat) :
    madeEntry levels va e 2 1 = handlePdePsBit levels va e := by
  rw [madeEntry, readValue_of_lt (by decide), if_neg (and_pdePBit.mpr hp), if_neg (by decide)]

theorem madeEntry_three_two (hp : present e = true) (levels : Nat) :
    madeEntry levels va e 3 2 = splitPdpe va e := by
  rw [madeEntry, readValue_of_lt (by decide), if_neg (and_pdePBit.mpr hp), if_pos rfl,
    if_neg (by decide)]

theorem madeEntry_three_one (hp : present e = true) (levels : Nat) :
    madeEntry levels va e 3 1 = handlePdePsBit levels va (splitPdpe va e) := by
  rw [madeEntry, readValue_of_lt (by decide), if_neg (and_pdePBit.mpr hp), if_pos rfl, if_pos rfl]

/-- A leaf of a large page with an entry that is made from it. -/
def Made (level i : Nat) : Prop := level = 2 ∧ i = 1 ∨ level = 3 ∧ (i = 2 ∨ i = 1)

/-- The bits of the entries of 64 bits that are made. -/
theorem getLsbD_madeEntry {levels : Nat} (hlevels : levels ≠ 2) (hmade : Made level i)
    (hp : present e = true) {j : Nat} (hj : j < 64) :
    (madeEntry levels va e level i).getLsbD j =
      if 12 ≤ j ∧ j ≤ 20 ∧ i = 1 ∨ 21 ≤ j ∧ j ≤ 29 ∧ level = 3 then va.getLsbD j
      else if j = 7 ∧ i = 1 then e.getLsbD 12
      else e.getLsbD j := by
  obtain ⟨rfl, rfl⟩ | ⟨rfl, rfl | rfl⟩ := hmade
  · rw [madeEntry_two hp, getLsbD_handlePdePsBit hlevels va e hj]
    simp
  · rw [madeEntry_three_two hp, getLsbD_splitPdpe va e hj]
    simp
  · rw [madeEntry_three_one hp, getLsbD_handlePdePsBit hlevels va _ hj,
      getLsbD_splitPdpe va e (by decide), getLsbD_splitPdpe va e hj]
    split_ifs <;> first | rfl | omega

/-- What an entry that is made has of its leaf. -/
theorem getLsbD_madeEntry_of_lt {levels : Nat} (hmade : Made level i)
    (htwo : levels = 2 → level = 2) (hp : present e = true) {j : Nat} (hj : j < 64)
    (h : j < 7 ∨ 40 ≤ j) : (madeEntry levels va e level i).getLsbD j = e.getLsbD j := by
  by_cases hlevels : levels = 2
  · obtain ⟨rfl, rfl⟩ : level = 2 ∧ i = 1 := by
      have := htwo hlevels
      obtain h | h := hmade <;> omega
    rw [hlevels, madeEntry_two hp, getLsbD_handlePdePsBit_two va e hj, if_neg (by omega),
      if_neg (by omega), decide_eq_false (by omega), Bool.false_and, Bool.or_false]
  · rw [getLsbD_madeEntry hlevels hmade hp hj, if_neg (by omega), if_neg (by omega)]

/-! ### The entries that are made pass -/

/-- The entry of a leaf with its accessed and dirty bits. -/
def marked (acc : Lib.X86.Access) (e : BitVec 64) : BitVec 64 := e ||| adBits acc.write

theorem getLsbD_adBits (setd : Bool) {j : Nat} (hj : j < 64) :
    (adBits setd).getLsbD j = (decide (j = 5) || (setd && decide (j = 6))) := by
  unfold adBits accessedBit dirtyBit
  cases setd with
  | false => rw [if_neg Bool.false_ne_true, getLsbD_bit hj, Bool.false_and, Bool.or_false]
  | true => rw [if_pos rfl, BitVec.getLsbD_or, getLsbD_bit hj, getLsbD_bit hj, Bool.true_and]

theorem getLsbD_marked {j : Nat} (hj : j < 64) :
    (marked acc e).getLsbD j = (e.getLsbD j || (decide (j = 5) || (acc.write && decide (j = 6)))) := by
  rw [marked, BitVec.getLsbD_or, getLsbD_adBits _ hj]

theorem getLsbD_marked_of_ne {j : Nat} (hj : j < 64) (h5 : j ≠ 5) (h6 : j ≠ 6) :
    (marked acc e).getLsbD j = e.getLsbD j := by
  rw [getLsbD_marked hj, decide_eq_false h5, decide_eq_false h6]
  simp

theorem present_marked (hp : present e = true) : present (marked acc e) = true := by
  rw [present, getLsbD_marked_of_ne (by decide) (by decide) (by decide)]
  exact hp

/-- An entry with its bits set passes without a change. -/
theorem getPteEntry_passes {mask s : BitVec 64} {levels n : Nat} {m' : Pmap}
    (hread : pmapRead mem m = (s, m')) (hp : present s = true)
    (htest : testPmapEntryReservedBit mask s i levels d = some false)
    (href : entryRefuses d s = none) (h5 : s.getLsbD 5 = true)
    (h6 : d.write = true → s.getLsbD 6 = true) (hpae : ¬ (levels = 3 ∧ i = 3))
    (hpse : i = 2 → d.pse = true) :
    getPteEntry mask d levels i (n + 1) mem m = some (mem, .ok (m', s)) := by
  have hsimple : ¬ (i = 2 ∧ (!d.pse) = true) := by
    rintro ⟨h2, hno⟩
    rw [hpse h2] at hno
    cases hno
  have hset : ∀ cond : Bool, setAdBit mem m' s true (cond && d.write) = some (false, mem, m', s) := by
    intro cond
    unfold setAdBit
    dsimp only
    rw [pdeABit_test, pdeDBit_test, h5]
    cases hw : d.write with
    | false =>
      rw [Bool.and_false]
      rfl
    | true =>
      rw [h6 hw, Bool.not_true, Bool.and_false, Bool.and_false]
      rfl
  rw [getPteEntry, hread]
  dsimp only
  rw [if_neg (and_pdePBit.mpr hp), htest, Option.bind_some, if_neg Bool.false_ne_true]
  simp only [if_neg hpae, href, if_neg hsimple]
  rw [hset]
  rfl

theorem le_of_nxReserved {nxe : Bool} {j : Nat} (h : (nxReserved nxe).getLsbD j = true) :
    j = 63 := by
  unfold nxReserved at h
  cases nxe
  · rw [if_neg Bool.false_ne_true, getLsbD_bits, decide_eq_true_eq] at h
    omega
  · simp at h

/-- A reserved bit of an entry that is made is one of its leaf, which the entry keeps. -/
theorem reserved_madeEntry (hM : 32 ≤ c.maxphyaddr) (hmode : c.mode = .pae ∨ c.mode = .ia32e)
    (hmade : Made level i) (hleaf : c.mode.leaf level e = true) {x : BitVec 64}
    (hx : large x = large e) {j : Nat} (hj : j < 64)
    (hbit : (c.reserved i x).getLsbD j = true) :
    (c.reserved level e).getLsbD j = true ∧ (32 ≤ j ∨ 13 ≤ j ∧ j ≤ 20 ∧ i = 2) := by
  have hlarge : large e = true := by
    obtain ⟨rfl, -⟩ | ⟨rfl, -⟩ := hmade <;> obtain hmode | hmode := hmode <;>
      rw [hmode] at hleaf <;> first | exact hleaf | cases hleaf
  obtain ⟨rfl, rfl⟩ | ⟨rfl, rfl | rfl⟩ := hmade <;> obtain hmode | hmode := hmode
  case inr.inl.inl =>
    rw [hmode] at hleaf
    cases hleaf
  case inr.inr.inl =>
    rw [hmode] at hleaf
    cases hleaf
  all_goals
    have hnx := @le_of_nxReserved c.nxe j
    simp only [Cpu.reserved, hmode, hx, hlarge] at hbit ⊢
    simp [getLsbD_bits] at hbit ⊢
    grind

section

variable (hM : 32 ≤ c.maxphyaddr ∧ c.maxphyaddr ≤ 52) (hd : DataOf c acc d)
  (hp : present e = true) (hres : e &&& c.reserved level e = 0#64)
  (hleaf : c.mode.leaf level e = true)

include hM hd hp hres hleaf

theorem testReserved_made_long (hmode : c.mode = .pae ∨ c.mode = .ia32e) (hmade : Made level i) :
    testPmapEntryReservedBit (getPteAddrMask c.maxphyaddr)
      (madeEntry c.mode.levels va (marked acc e) level i) i c.mode.levels d = some false := by
  have hlevels : c.mode.levels ≠ 2 := by
    rcases hmode with hmode | hmode <;> rw [hmode] <;> decide
  have hbits := fun j => @getLsbD_madeEntry va (marked acc e) level i _ hlevels hmade
    (present_marked hp) j
  -- The entry is as large as its leaf where that counts.
  have hlarge : i = 2 → large (madeEntry c.mode.levels va (marked acc e) level i) = large e := by
    rintro rfl
    rw [large, hbits 7 (by decide), if_neg (by omega), if_neg (by omega),
      getLsbD_marked_of_ne (by decide) (by decide) (by decide)]
    rfl
  have hsmall : i ≠ 2 → ∀ x y : BitVec 64, c.reserved i x = c.reserved i y := by
    intro hi x y
    obtain rfl : i = 1 := by
      obtain h | h := hmade <;> omega
    rcases hmode with hmode | hmode <;> simp [Cpu.reserved, hmode]
  generalize hs : madeEntry c.mode.levels va (marked acc e) level i = s at *
  have hcov : EntryCovered c i s := by
    refine ⟨fun h => ?_, fun _ h => ?_, fun _ h => ?_, fun h => ?_⟩
    · rcases hmode with hmode | hmode <;> rw [hmode] at h <;> cases h
    · rcases hmode with hmode | hmode <;> rw [hmode] at h <;> cases h
    · obtain hmade | hmade := hmade <;> omega
    · obtain ⟨rfl, rfl⟩ | ⟨rfl, rfl | rfl⟩ := hmade <;>
        obtain hmode | hmode := hmode <;> rw [hmode] at h hleaf
      case inr.inl.inl => cases hleaf
      case inr.inl.inr =>
        have hls : large s = true := (hlarge rfl).trans hleaf
        rw [Mode.leaf, hls] at h
        cases h
      all_goals cases h
  have hzero : s &&& c.reserved i s = 0#64 := by
    rw [BitVec.and_comm, and_eq_zero_iff]
    intro j hj hbit
    have hrow : (c.reserved level e).getLsbD j = true ∧ (32 ≤ j ∨ 13 ≤ j ∧ j ≤ 20 ∧ i = 2) := by
      by_cases hi : i = 2
      · exact reserved_madeEntry hM.1 hmode hmade hleaf (hlarge hi) hj hbit
      · rw [hsmall hi s e] at hbit
        exact reserved_madeEntry hM.1 hmode hmade hleaf rfl hj hbit
    rw [hbits j hj, if_neg (by omega), if_neg (by omega),
      getLsbD_marked_of_ne hj (by omega) (by omega)]
    exact and_eq_zero_iff.mp ((BitVec.and_comm _ _).trans hres) j hj hrow.1
  have hle : 1 ≤ i ∧ i ≤ c.mode.levels := by
    obtain ⟨rfl, rfl⟩ | ⟨rfl, rfl | rfl⟩ := hmade <;> obtain hmode | hmode := hmode <;>
      rw [hmode] <;> decide
  have hword : c.mode.word s = s := by
    rcases hmode with hmode | hmode <;> rw [hmode] <;> rfl
  rw [testReserved_eq hM hd (by rcases hmode with hmode | hmode <;> rw [hmode] <;> decide) hle.1
    hle.2 hcov hword, hzero]
  rfl

omit hres in
theorem testReserved_made_bits32 (hmode : c.mode = .bits32 true) (hlevel : level = 2)
    (hcov : EntryCovered c level e) (hword : e &&& bits 0 31 = e) :
    testPmapEntryReservedBit (getPteAddrMask c.maxphyaddr)
      (madeEntry 2 va (marked acc e) 2 1) 1 2 d = some false := by
  subst hlevel
  have hlarge : large e = true := by
    rw [hmode] at hleaf
    exact hleaf
  have hrow : reservedLevel (madeEntry 2 va (marked acc e) 2 1) 1 2 = 1 := by
    cases hl : large (madeEntry 2 va (marked acc e) 2 1) with
    | false => exact reservedLevel_small hl
    | true => exact reservedLevel_large hl
  have htable : reservedBitTable c.nxe 0 1 ^^^ addrFlip c.maxphyaddr = addrFlip c.maxphyaddr := by
    cases c.nxe <;> exact BitVec.zero_xor
  have hzero : madeEntry 2 va (marked acc e) 2 1 &&& addrFlip c.maxphyaddr = 0#64 := by
    rw [BitVec.and_comm, and_eq_zero_iff, addrFlip_bits hM.1 hM.2]
    intro j hj hbit
    rw [getLsbD_bits, decide_eq_true_eq] at hbit
    rw [madeEntry_two (present_marked hp), getLsbD_handlePdePsBit_two va _ hj, if_neg (by omega),
      if_neg (by omega), getLsbD_marked_of_ne hj (by omega) (by omega), Bool.or_eq_false_iff]
    constructor
    · rw [← hword, BitVec.getLsbD_and, getLsbD_bits, decide_eq_false (by omega), Bool.and_false]
    · by_cases h39 : 32 ≤ j ∧ j ≤ 39
      · rw [getLsbD_marked_of_ne (by omega) (by omega) (by omega)]
        have h36 := and_eq_zero_iff.mp ((BitVec.and_comm _ _).trans
          (hcov.pse36 true hmode rfl hlarge)) (j - 19) (by omega)
        rw [h36, Bool.and_false]
        rw [BitVec.getLsbD_ushiftRight, getLsbD_bits, decide_eq_true_eq]
        omega
      · rw [decide_eq_false h39, Bool.false_and]
  rw [testReserved_of_row hM hd (by rw [hmode]; nofun) hrow (.inl ⟨rfl, by decide⟩), htable, hzero]
  rfl

theorem testReserved_made (hcov : EntryCovered c level e) (hword : c.mode.word e = e)
    (hmade : Made level i) :
    testPmapEntryReservedBit (getPteAddrMask c.maxphyaddr)
      (madeEntry c.mode.levels va (marked acc e) level i) i c.mode.levels d = some false := by
  cases hm : c.mode with
  | off =>
    rw [hm] at hleaf
    obtain ⟨rfl, -⟩ | ⟨rfl, -⟩ := hmade <;> cases hleaf
  | bits32 pse =>
    rw [hm] at hword
    cases pse with
    | false =>
      rw [hm] at hleaf
      obtain ⟨rfl, -⟩ | ⟨rfl, -⟩ := hmade <;> cases hleaf
    | true =>
      obtain ⟨rfl, rfl⟩ | ⟨rfl, -⟩ := hmade
      · exact testReserved_made_bits32 hM hd hp hleaf hm rfl hcov hword
      · rw [hm] at hleaf
        cases hleaf
  | pae =>
    rw [← hm]
    exact testReserved_made_long hM hd hp hres hleaf (.inl hm) hmade
  | ia32e =>
    rw [← hm]
    exact testReserved_made_long hM hd hp hres hleaf (.inr hm) hmade

end

/-- The lowest entry that the pmap has cached maps a large page. -/
structure OnLeaf (n : Nat) (va x : BitVec 64) (level : Nat) (m : Pmap) : Prop where
  levels : m.levels = n
  curaddr : m.curaddr = va
  readlevel : m.readlevel = level - 1
  entry : m.entry (level - 1) = x
  stops : 2 ≤ level → (pmapTables n).stops (level - 1) x = true

theorem OnLeaf.setlevel {levels : Nat} {x : BitVec 64} (h : OnLeaf levels va x level m) (i : Nat) :
    OnLeaf levels va x level (pmapSetlevel m i) := ⟨h.levels, h.curaddr, h.readlevel, h.entry, h.stops⟩

theorem OnLeaf.read {levels : Nat} {x : BitVec 64} (h : OnLeaf levels va x level m)
    (hmade : Made level i) (mem : TableMem) :
    pmapRead mem (pmapSetlevel m i) = (madeEntry levels va x level i, pmapSetlevel m i) := by
  have hlt : i - 1 < level - 1 := by
    obtain h | h := hmade <;> omega
  obtain ⟨n, hn⟩ : ∃ n, m.readlevel - (i - 1) = n + 1 := ⟨level - 1 - (i - 1) - 1, by
    rw [h.readlevel]
    omega⟩
  have hstop : (pmapTables (pmapSetlevel m i).levels).stops (pmapSetlevel m i).readlevel
      ((pmapSetlevel m i).entry (pmapSetlevel m i).readlevel) = true := by
    change (pmapTables m.levels).stops m.readlevel (m.entry m.readlevel) = true
    rw [h.readlevel, h.levels, h.entry]
    exact h.stops (by omega)
  have hcur : (pmapSetlevel m i).curlevel < (pmapSetlevel m i).readlevel := by
    change i - 1 < m.readlevel
    rw [h.readlevel]
    exact hlt
  change readLoop mem (m.readlevel - (i - 1)) (pmapSetlevel m i) = _
  rw [hn, readLoop_stop n hstop hcur]
  change (readValue m.levels m.curaddr (i - 1) (m.readlevel, m.entry m.readlevel), _) = _
  rw [h.levels, h.curaddr, h.readlevel, h.entry]
  rfl

/-- The rights of an entry that is made are those of its leaf. -/
theorem perm_madeEntry (va : BitVec 64) (acc : Lib.X86.Access) {levels : Nat}
    (hmade : Made level i) (htwo : levels = 2 → level = 2)
    (hp : present e = true) :
    writable (madeEntry levels va (marked acc e) level i) = writable e ∧
      user (madeEntry levels va (marked acc e) level i) = user e ∧
      noExec (madeEntry levels va (marked acc e) level i) = noExec e := by
  have hbit : ∀ j < 64, j < 5 ∨ j = 63 →
      (madeEntry levels va (marked acc e) level i).getLsbD j = e.getLsbD j := by
    intro j hj h
    rw [getLsbD_madeEntry_of_lt hmade htwo (present_marked hp) hj (by omega),
      getLsbD_marked_of_ne hj (by omega) (by omega)]
  exact ⟨hbit 1 (by decide) (by decide), hbit 2 (by decide) (by decide),
    hbit 63 (by decide) (by decide)⟩

/-- The level above a table, and one that `get_pte_sub` has entries made for. -/
theorem levels_of_leaf (hleaf : c.mode.leaf level e = true) (h2 : level = 2 ∨ level = 3) :
    (c.mode.levels = 2 → level = 2) ∧ (level = 3 → c.mode = .ia32e) := by
  cases hm : c.mode with
  | ia32e => exact ⟨nofun, fun _ => rfl⟩
  | off =>
    rw [hm] at hleaf
    obtain rfl | rfl := h2 <;> cases hleaf
  | bits32 pse =>
    rw [hm] at hleaf
    obtain rfl | rfl := h2
    · exact ⟨fun _ => rfl, nofun⟩
    · cases hleaf
  | pae =>
    rw [hm] at hleaf
    obtain rfl | rfl := h2
    · exact ⟨fun _ => rfl, nofun⟩
    · cases hleaf

section

variable (hM : 32 ≤ c.maxphyaddr ∧ c.maxphyaddr ≤ 52) (hd : DataOf c acc d)
  (hp : present e = true) (hres : e &&& c.reserved level e = 0#64)
  (hleaf : c.mode.leaf level e = true) (hcov : EntryCovered c level e)
  (hword : c.mode.word e = e) {p : Perm}
  (hrights : Perm.refuses ⟨p.rw && writable e, p.us && user e, p.nx || noExec e⟩ c acc = false)

include hM hd hp hres hleaf hcov hword hrights

/-- Below a large page every level passes. -/
theorem getPteEntry_belowLeaf (h : OnLeaf c.mode.levels va (marked acc e) level m)
    (hmade : Made level i) (n : Nat) (mem : TableMem) :
    getPteEntry (getPteAddrMask c.maxphyaddr) d c.mode.levels i (n + 1) mem (pmapSetlevel m i) =
      some (mem, .ok (pmapSetlevel m i,
        madeEntry c.mode.levels va (marked acc e) level i)) := by
  have h2 : level = 2 ∨ level = 3 := by
    obtain h | h := hmade <;> omega
  obtain ⟨htwo, hthree⟩ := levels_of_leaf hleaf h2
  obtain ⟨hw, hu, hx⟩ := perm_madeEntry va acc hmade htwo hp
  have hlow : ∀ j < 64, j < 7 →
      (madeEntry c.mode.levels va (marked acc e) level i).getLsbD j =
        (marked acc e).getLsbD j := fun j hj h =>
    getLsbD_madeEntry_of_lt hmade htwo (present_marked hp) hj (.inl h)
  refine getPteEntry_passes (h.read hmade mem) ?_ ?_ ?_ ?_ ?_ ?_ ?_
  · rw [present, hlow 0 (by decide) (by decide)]
    exact present_marked hp
  · exact testReserved_made hM hd hp hres hleaf hcov hword hmade
  · rw [entryRefuses_eq_none_iff hd hrights, hw, hu, hx]
    dsimp only
    rw [Bool.and_assoc, Bool.and_assoc, Bool.or_assoc, Bool.and_self, Bool.and_self, Bool.or_self]
    exact hrights
  · rw [hlow 5 (by decide) (by decide), getLsbD_marked (by decide)]
    simp
  · intro hwrite
    rw [hd.write] at hwrite
    rw [hlow 6 (by decide) (by decide), getLsbD_marked (by decide), hwrite]
    simp
  · obtain h | h := hmade <;> omega
  · rintro rfl
    have hlevel : level = 3 := by
      obtain h | h := hmade <;> omega
    rw [hd.pse, hthree hlevel]
    rfl

end

/-! ### The page -/

theorem page_marked (mode : Mode) (va e : BitVec 64) :
    marked acc e &&& bits 12 51 = mode.pageOf 1 e va := by
  have hpage : mode.pageOf 1 e va = (e &&& bits 12 51) ||| (va &&& bits 12 11) := by
    cases mode <;> rfl
  rw [hpage]
  refine eq_of_bits fun j hj => ?_
  rw [BitVec.getLsbD_and, BitVec.getLsbD_or, BitVec.getLsbD_and, BitVec.getLsbD_and,
    getLsbD_bits, getLsbD_bits, decide_eq_false (p := 12 ≤ j ∧ j ≤ 11 ∧ j < 64) (by omega),
    Bool.and_false, Bool.or_false]
  by_cases h12 : 12 ≤ j
  · rw [getLsbD_marked_of_ne hj (by omega) (by omega)]
  · rw [decide_eq_false (by omega), Bool.and_false, Bool.and_false]

/-- The page of the last entry that is made. -/
theorem page_madeEntry (hp : present e = true) (hleaf : c.mode.leaf level e = true)
    (hword : c.mode.word e = e) (h2 : level = 2 ∨ level = 3) :
    madeEntry c.mode.levels va (marked acc e) level 1 &&& bits 12 51 =
      c.mode.pageOf level e va := by
  have hmade : Made level 1 := by
    rcases h2 with rfl | rfl
    · exact .inl ⟨rfl, rfl⟩
    · exact .inr ⟨rfl, .inr rfl⟩
  refine eq_of_bits fun j hj => ?_
  rw [BitVec.getLsbD_and, getLsbD_bits]
  by_cases hlevels : c.mode.levels = 2
  · obtain rfl : level = 2 := (levels_of_leaf hleaf h2).1 hlevels
    obtain ⟨pse, hm⟩ : ∃ pse, c.mode = .bits32 pse := by
      cases hm : c.mode with
      | bits32 pse => exact ⟨pse, rfl⟩
      | off => rw [hm] at hlevels; cases hlevels
      | pae => rw [hm] at hlevels; cases hlevels
      | ia32e => rw [hm] at hlevels; cases hlevels
    have hpage : c.mode.pageOf 2 e va =
        (e &&& bits 22 31) ||| ((e &&& bits 13 20) <<< 19) ||| (va &&& bits 12 21) := by
      rw [hm]
      rfl
    have hhigh : 32 ≤ j → e.getLsbD j = false := by
      intro h32
      rw [← hword, hm]
      change (e &&& bits 0 31).getLsbD j = false
      rw [BitVec.getLsbD_and, getLsbD_bits, decide_eq_false (by omega), Bool.and_false]
    rw [hlevels, madeEntry_two (present_marked hp), getLsbD_handlePdePsBit_two va _ hj, hpage,
      BitVec.getLsbD_or, BitVec.getLsbD_or, BitVec.getLsbD_and, BitVec.getLsbD_and,
      BitVec.getLsbD_shiftLeft, BitVec.getLsbD_and, getLsbD_bits, getLsbD_bits, getLsbD_bits]
    by_cases h12 : 12 ≤ j
    · rw [getLsbD_marked_of_ne hj (by omega) (by omega)]
      by_cases h21 : j ≤ 21
      · rw [if_pos ⟨h12, h21⟩]
        simp [hj, h12, h21, show ¬ 22 ≤ j by omega]
        grind
      · rw [if_neg (by omega), if_neg (by omega)]
        by_cases h32 : 32 ≤ j
        · rw [hhigh h32, getLsbD_marked_of_ne (by omega) (by omega) (by omega)]
          simp [h32, hj, h21, show ¬ j < 19 by omega]
          grind
        · simp [h32, hj, h12, h21, show 22 ≤ j by omega, show j ≤ 31 by omega]
          grind
    · simp [h12, show ¬ 22 ≤ j by omega, show j < 19 by omega]
  · rw [getLsbD_madeEntry hlevels hmade (present_marked hp) hj]
    have hpage : c.mode.pageOf level e va =
        (e &&& bits (3 + 9 * level) 51) ||| (va &&& bits 12 (2 + 9 * level)) := by
      cases hm : c.mode with
      | bits32 pse => rw [hm] at hlevels; exact absurd rfl hlevels
      | off => rfl
      | pae => rfl
      | ia32e => rfl
    rw [hpage, BitVec.getLsbD_or, BitVec.getLsbD_and, BitVec.getLsbD_and, getLsbD_bits,
      getLsbD_bits]
    by_cases h12 : 12 ≤ j
    · rw [getLsbD_marked_of_ne hj (by omega) (by omega)]
      by_cases hin : j ≤ 2 + 9 * level
      · rw [if_pos (by omega), decide_eq_false (p := 3 + 9 * level ≤ j ∧ _) (by omega),
          Bool.and_false, Bool.false_or]
        congr 1
        rw [decide_eq_decide]
        omega
      · rw [if_neg (by omega), if_neg (by omega),
          decide_eq_false (p := 12 ≤ j ∧ j ≤ 2 + 9 * level ∧ j < 64) (by omega), Bool.and_false,
          Bool.or_false]
        congr 1
        rw [decide_eq_decide]
        omega
    · rw [decide_eq_false (by omega), decide_eq_false (by omega), decide_eq_false (by omega)]
      simp

end OnDemandVirt.Vmm
