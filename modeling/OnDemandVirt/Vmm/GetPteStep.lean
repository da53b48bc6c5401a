import OnDemandVirt.Vmm.GetPteEntry

/-!
# One level of the guest's walk

The pmap is at the table of a level. `get_pte_sub` reads the entry there, faults where a processor
faults, and otherwise sets the bits that a processor sets and goes to the table below.
-/

namespace OnDemandVirt.Vmm

open Lib.X86

variable {c : Cpu} {acc : Lib.X86.Access} {d : GetPteData} {mem : TableMem} {m : Pmap}
  {va table e : BitVec 64} {level : Nat}

/-- The lowest entry that the pmap has cached points to the table of a level. -/
structure AtTable (mode : Mode) (va table : BitVec 64) (level : Nat) (m : Pmap) : Prop where
  levels : m.levels = mode.levels
  type : m.type = .guestAtomic
  curaddr : m.curaddr = va
  readlevel : m.readlevel = level
  le_levels : level ≤ mode.levels
  goesOn : (pmapTables mode.levels).stops level (m.entry level) = false
  leads : m.entry level &&& tableMask mode.levels level = table
  aligned : table &&& offsetMask mode level = 0#64

/-- The pmap after reading the entry `e` at `a`, of the callers' level `level`. -/
def fetched (m : Pmap) (level : Nat) (a e : BitVec 64) : Pmap :=
  { m with
    curlevel := level - 1
    readlevel := level - 1
    entryaddr := Function.update m.entryaddr (level - 1) a
    entry := Function.update m.entry (level - 1) e }

theorem AtTable.read (h : AtTable c.mode va table level m) (hmode : c.mode ≠ .off)
    (h1 : 1 ≤ level) (hva : c.mode ≠ .ia32e → va &&& bits 32 63 = 0#64) (mem : TableMem) :
    pmapRead mem (pmapSetlevel m level) =
      (c.mode.word (mem (table + c.mode.offset level va)),
        fetched m level (table + c.mode.offset level va)
          (c.mode.word (mem (table + c.mode.offset level va)))) := by
  have hn : m.readlevel - (level - 1) = 0 + 1 := by
    rw [h.readlevel]
    omega
  have hgo : (pmapTables (pmapSetlevel m level).levels).stops (pmapSetlevel m level).readlevel
      ((pmapSetlevel m level).entry (pmapSetlevel m level).readlevel) = false := by
    change (pmapTables m.levels).stops m.readlevel (m.entry m.readlevel) = false
    rw [h.readlevel, h.levels]
    exact h.goesOn
  have haddr := entryAddrOf_eq hmode h1 hva h.leads h.aligned
  have hfetch : (pmapSetlevel m level).fetch mem = fetched m level
      (table + c.mode.offset level va) (c.mode.word (mem (table + c.mode.offset level va))) := by
    simp only [Pmap.fetch, pmapSetlevel, fetched, h.readlevel, h.levels, h.curaddr, haddr,
      rdEntry_word hmode]
  change readLoop mem (m.readlevel - (level - 1)) (pmapSetlevel m level) = _
  rw [hn, readLoop_fetch 0 hgo, hfetch, readLoop]
  exact congrArg (·, _) (Function.update_self _ _ _)

/-! ### Setting the accessed and dirty bits -/

theorem writeEntry_full (m : Pmap) (x : BitVec 64) : writeEntry m x 0xFFF = x := by
  have hmask : ~~~0xFFF#64 ||| (0xFFF : BitVec 32).setWidth 64 = BitVec.allOnes 64 := by decide
  have hattr : (attrdef m &&& ~~~(0xFFF : BitVec 32)).setWidth 64 = 0#64 := by
    unfold attrdef
    split_ifs <;> decide
  rw [writeEntry, hmask, hattr, BitVec.and_allOnes, BitVec.or_zero]

/-- Writing the entry that was just read: the exchange succeeds. -/
theorem AtTable.write (h : AtTable c.mode va table level m) (hmode : c.mode ≠ .off)
    (h1 : 1 ≤ level) {a x : BitVec 64} (he : e = c.mode.word (mem a)) (hx : c.mode.word x = x) :
    pmapWrite mem (fetched m level a e) x 0xFFF =
      some (false, Function.update mem a x, fetched m level a x) := by
  have hle := h.le_levels
  have haddr : (fetched m level a e).entryaddr (fetched m level a e).curlevel = a :=
    Function.update_self _ _ _
  have hentry : (fetched m level a e).entry (fetched m level a e).curlevel = e :=
    Function.update_self _ _ _
  have hlevels : (fetched m level a e).levels = c.mode.levels := h.levels
  have htype : (fetched m level a e).type = .guestAtomic := h.type
  have hassert : (fetched m level a e).readlevel ≤ (fetched m level a e).curlevel ∧
      (fetched m level a e).curlevel < (fetched m level a e).levels :=
    ⟨Nat.le_refl _, by
      change level - 1 < m.levels
      rw [h.levels]
      omega⟩
  have hsame : wordOf (entryBits c.mode.levels) e = pmapRd (entryBits c.mode.levels) mem a := by
    rw [pmapRd, entryBits_word hmode, entryBits_word hmode, he, word_word]
  rw [pmapWrite, if_pos hassert, haddr, hentry, hlevels, htype, writeEntry_full, wrEntry_eq,
    pmapWr]
  dsimp only
  rw [if_pos hsame, entryBits_word hmode, hx]
  dsimp only [fetched]
  rw [Function.update_idem, h.levels, h.type]
  rfl

theorem or_bit_eq_iff {k : Nat} (hk : k < 64) : e ||| bits k k = e ↔ e.getLsbD k = true := by
  constructor
  · intro h
    rw [← h, BitVec.getLsbD_or, getLsbD_bit hk]
    simp
  · intro h
    apply eq_of_bits
    intro i hi
    rw [BitVec.getLsbD_or, getLsbD_bit hi]
    by_cases hik : i = k
    · rw [hik, h]
      rfl
    · rw [decide_eq_false hik, Bool.or_false]

/-- The bits that an entry gets: accessed, and dirty where the access writes the page. -/
def adBits (setd : Bool) : BitVec 64 :=
  if setd then accessedBit ||| dirtyBit else accessedBit

theorem bit_test {k : Nat} (hk : k < 64) {mask : BitVec 64} (hmask : mask = bits k k) :
    (e &&& mask == 0#64) = !e.getLsbD k := by
  have h := and_bit_ne_zero_iff (x := e) hk hmask
  cases hbit : e.getLsbD k with
  | false =>
    rw [hbit] at h
    exact beq_iff_eq.mpr (not_not.mp fun hne => absurd (h.mp hne) Bool.false_ne_true)
  | true => exact beq_eq_false_iff_ne.mpr (h.mpr hbit)

theorem pdeABit_test : (e &&& pdeABit == 0) = !e.getLsbD 5 := bit_test (by decide) (by decide)

theorem pdeDBit_test : (e &&& pdeDBit == 0) = !e.getLsbD 6 := bit_test (by decide) (by decide)

theorem or_adBits_eq_iff {setd : Bool} :
    e ||| adBits setd = e ↔ e.getLsbD 5 = true ∧ (setd = true → e.getLsbD 6 = true) := by
  have hA : e ||| accessedBit = e ↔ e.getLsbD 5 = true := or_bit_eq_iff (by decide)
  have hD : e ||| dirtyBit = e ↔ e.getLsbD 6 = true := or_bit_eq_iff (by decide)
  constructor
  · intro h
    refine ⟨?_, fun hsetd => ?_⟩
    · rw [← h, BitVec.getLsbD_or]
      cases setd <;> exact Bool.or_true _
    · subst hsetd
      rw [← h, BitVec.getLsbD_or]
      exact Bool.or_true _
  · rintro ⟨h5, h6⟩
    cases setd with
    | false => exact hA.mpr h5
    | true =>
      rw [adBits, if_pos rfl, ← BitVec.or_assoc, hA.mpr h5]
      exact hD.mpr (h6 rfl)

/-- What `set_ad_bit` makes of an entry. -/
theorem or_adBits (e : BitVec 64) (setd : Bool) :
    (if (setd && !e.getLsbD 6) = true then
        (if (!e.getLsbD 5) = true then e ||| pdeABit else e) ||| pdeDBit
      else if (!e.getLsbD 5) = true then e ||| pdeABit else e) = e ||| adBits setd := by
  have hA : e.getLsbD 5 = true → e ||| accessedBit = e := (or_bit_eq_iff (by decide)).mpr
  have hD : e.getLsbD 6 = true → e ||| dirtyBit = e := (or_bit_eq_iff (by decide)).mpr
  have hassoc : e ||| (accessedBit ||| dirtyBit) = (e ||| dirtyBit) ||| accessedBit := by
    rw [BitVec.or_comm accessedBit, BitVec.or_assoc]
  cases setd with
  | false =>
    cases h5 : e.getLsbD 5 with
    | false => rfl
    | true => exact (hA h5).symm
  | true =>
    cases h5 : e.getLsbD 5 with
    | false =>
      cases h6 : e.getLsbD 6 with
      | false => exact BitVec.or_assoc _ _ _
      | true =>
        rw [adBits, if_pos rfl, hassoc, hD h6]
        rfl
    | true =>
      rw [adBits, if_pos rfl, ← BitVec.or_assoc, hA h5]
      cases h6 : e.getLsbD 6 with
      | false => rfl
      | true => exact (hD h6).symm

/-- `set_ad_bit` sets the bits, if they are not already set. -/
theorem AtTable.setAdBit (h : AtTable c.mode va table level m) (hmode : c.mode ≠ .off)
    (h1 : 1 ≤ level) {a : BitVec 64} (he : e = c.mode.word (mem a)) (setd : Bool) :
    setAdBit mem (fetched m level a e) e true setd =
      some (false, setBits mem a e (adBits setd), fetched m level a (e ||| adBits setd),
        e ||| adBits setd) := by
  have hlow : c.mode.word (adBits setd) = adBits setd :=
    word_low _ (by cases setd <;> decide)
  have hword : c.mode.word (e ||| adBits setd) = e ||| adBits setd := by
    rw [word_or, hlow, he, word_word]
  have hwrite := h.write hmode h1 he hword
  unfold Vmm.setAdBit
  dsimp only
  rw [pdeABit_test, pdeDBit_test, Bool.true_and, or_adBits, hwrite]
  by_cases hset : e ||| adBits setd = e
  · obtain ⟨h5, h6⟩ := or_adBits_eq_iff.1 hset
    have hnone : ¬ (!e.getLsbD 5 || setd && !e.getLsbD 6) = true := by
      rw [h5]
      cases setd with
      | false => exact Bool.false_ne_true
      | true =>
        rw [h6 rfl]
        exact Bool.false_ne_true
    rw [if_neg hnone, setBits, if_pos hset, hset]
  · have hsome : (!e.getLsbD 5 || setd && !e.getLsbD 6) = true := by
      by_contra hnone
      rw [Bool.not_eq_true, Bool.or_eq_false_iff, Bool.not_eq_false', Bool.and_eq_false_iff,
        Bool.not_eq_false'] at hnone
      refine hset (or_adBits_eq_iff.2 ⟨hnone.1, fun hsetd => ?_⟩)
      rw [hsetd] at hnone
      exact hnone.2.resolve_left nofun
    rw [if_pos hsome, setBits, if_neg hset]
    rfl

/-! ### One level -/

/-- The code sets the dirty bit where a processor does. -/
theorem setd_eq_leaf (hmode : c.mode ≠ .off) (h1 : 1 ≤ level) (hl : level ≤ c.mode.levels)
    (hcov : EntryCovered c level e) (hres : e &&& c.reserved level e = 0#64) :
    decide (level = 2 ∧ e &&& pdePsBit ≠ 0 ∨ level = 1 ∨ level = 3 ∧ e &&& pdePsBit ≠ 0) =
      c.mode.leaf level e := by
  rw [Bool.eq_iff_iff, decide_eq_true_iff, and_pdePsBit]
  cases hm : c.mode with
  | off => exact absurd hm hmode
  | bits32 pse =>
    rw [hm] at hl
    obtain rfl | rfl : level = 1 ∨ level = 2 := by
      have : Mode.levels (.bits32 pse) = 2 := rfl
      omega
    · simp [Mode.leaf]
    · cases pse with
      | false => simp [Mode.leaf, hcov.pse hm rfl]
      | true => simp [Mode.leaf]
  | pae =>
    rw [hm] at hl
    obtain rfl | rfl | rfl : level = 1 ∨ level = 2 ∨ level = 3 := by
      have : Mode.levels .pae = 3 := rfl
      omega
    · simp [Mode.leaf]
    · simp [Mode.leaf]
    · have hsmall : large e = false := by
        rw [Bool.eq_false_iff]
        intro hlarge
        have hbit := and_eq_zero_iff.mp hres 7 (by decide) hlarge
        simp only [Cpu.reserved, hm, if_true] at hbit
        rw [BitVec.getLsbD_or, BitVec.getLsbD_or, getLsbD_bits 5 8] at hbit
        simp at hbit
      simp [Mode.leaf, hsmall]
  | ia32e =>
    rw [hm] at hl
    obtain rfl | rfl | rfl | rfl : level = 1 ∨ level = 2 ∨ level = 3 ∨ level = 4 := by
      have : Mode.levels .ia32e = 4 := rfl
      omega
    · simp [Mode.leaf]
    · simp [Mode.leaf]
    · simp [Mode.leaf]
    · simp [Mode.leaf]

/-- The bits that a processor sets in an entry that it uses. -/
def markBits (c : Cpu) (acc : Lib.X86.Access) (level : Nat) (e : BitVec 64) : BitVec 64 :=
  if c.mode.leaf level e then adBits acc.write else c.mode.used level

/-- The entry as `get_pte_sub` keeps it: simplify2 gives the topmost entries of PAE paging all
rights. -/
def keptEntry (c : Cpu) (acc : Lib.X86.Access) (level : Nat) (e : BitVec 64) : BitVec 64 :=
  if c.mode = .pae ∧ level = 3 then e ||| (pdeRwBit ||| pdeUsBit ||| pdeABit)
  else e ||| markBits c acc level e

theorem levels_eq_three (mode : Mode) : mode.levels = 3 ↔ mode = .pae := by
  cases mode <;> simp [Mode.levels]

section

variable (h : AtTable c.mode va table level m) (hmode : c.mode ≠ .off) (h1 : 1 ≤ level)
  (hva : c.mode ≠ .ia32e → va &&& bits 32 63 = 0#64)
  (hM : 32 ≤ c.maxphyaddr ∧ c.maxphyaddr ≤ 52) (hd : DataOf c acc d)
  (he : e = c.mode.word (mem (table + c.mode.offset level va))) (n : Nat)

include h hmode h1 hva he

theorem getPteEntry_absent (mask : BitVec 64) (hp : present e = false) :
    getPteEntry mask d c.mode.levels level (n + 1) mem (pmapSetlevel m level) =
      some (mem, .error .pageNotPresent) := by
  rw [getPteEntry, h.read hmode h1 hva, ← he]
  dsimp only
  rw [if_pos]
  rw [← not_not (a := e &&& pdePBit = 0), ← ne_eq, and_pdePBit, hp]
  exact Bool.false_ne_true

include hM hd

theorem getPteEntry_reserved (hp : present e = true) (hcov : EntryCovered c level e)
    (hres : e &&& c.reserved level e ≠ 0#64) :
    getPteEntry (getPteAddrMask c.maxphyaddr) d c.mode.levels level (n + 1) mem
      (pmapSetlevel m level) = some (mem, .error .pageBadReservedBit) := by
  have hword : c.mode.word e = e := by rw [he, word_word]
  rw [getPteEntry, h.read hmode h1 hva, ← he]
  dsimp only
  have hres' : (e &&& c.reserved level e != 0) = true := bne_iff_ne.mpr hres
  rw [if_neg (and_pdePBit.mpr hp), testReserved_eq hM hd hmode h1 h.le_levels hcov hword,
    Option.bind_some, if_pos hres']

/-- An entry that is in order: what is left are the rights and the accessed and dirty bits. -/
theorem getPteEntry_present (hp : present e = true) (hcov : EntryCovered c level e)
    (hres : e &&& c.reserved level e = 0#64) :
    getPteEntry (getPteAddrMask c.maxphyaddr) d c.mode.levels level (n + 1) mem
      (pmapSetlevel m level) =
      let a := table + c.mode.offset level va
      let entry := if c.mode = .pae ∧ level = 3 then e ||| (pdeRwBit ||| pdeUsBit ||| pdeABit)
        else e
      match entryRefuses d entry with
      | some err => some (mem, .error err)
      | none => some (setBits mem a e (markBits c acc level e),
          .ok (fetched m level a (e ||| markBits c acc level e), keptEntry c acc level e)) := by
  have hword : c.mode.word e = e := by rw [he, word_word]
  rw [getPteEntry, h.read hmode h1 hva, ← he]
  dsimp only
  have hres' : ¬ (e &&& c.reserved level e != 0) = true := fun hne => bne_iff_ne.mp hne hres
  have hsetd := setd_eq_leaf hmode h1 h.le_levels hcov hres
  rw [if_neg (and_pdePBit.mpr hp), testReserved_eq hM hd hmode h1 h.le_levels hcov hword,
    Option.bind_some, if_neg hres']
  by_cases hpae : c.mode = .pae ∧ level = 3
  · -- no bits are set in the topmost entries of PAE paging
    have hcode : c.mode.levels = 3 ∧ level = 3 := ⟨(levels_eq_three _).mpr hpae.1, hpae.2⟩
    have hleaf : c.mode.leaf level e = false := by
      rw [hpae.1, hpae.2]
      rfl
    have hmark : markBits c acc level e = 0#64 := by
      rw [markBits, hleaf, if_neg Bool.false_ne_true, Mode.used, if_pos hpae]
      rfl
    have hkept : keptEntry c acc level e = e ||| (pdeRwBit ||| pdeUsBit ||| pdeABit) := if_pos hpae
    have hps : (e ||| (pdeRwBit ||| pdeUsBit ||| pdeABit)) &&& pdePsBit = e &&& pdePsBit := by
      rw [BitVec.and_or_distrib_right]
      exact BitVec.or_zero
    have hthree : ¬ (level = 2 ∧ (!d.pse) = true) := fun hand => by omega
    simp only [if_pos hcode, if_pos hpae, if_neg hthree, hps, hmark, hkept]
    rw [hsetd, hleaf, Bool.false_and, BitVec.or_zero]
    have hset : Vmm.setAdBit mem (fetched m level (table + c.mode.offset level va) e)
        (e ||| (pdeRwBit ||| pdeUsBit ||| pdeABit)) true false =
        some (false, mem, fetched m level (table + c.mode.offset level va) e,
          e ||| (pdeRwBit ||| pdeUsBit ||| pdeABit)) := by
      have h5 : (e ||| (pdeRwBit ||| pdeUsBit ||| pdeABit)).getLsbD 5 = true := by
        rw [BitVec.getLsbD_or]
        exact Bool.or_true _
      unfold Vmm.setAdBit
      dsimp only
      rw [pdeABit_test, h5]
      rfl
    have hsame : setBits mem (table + c.mode.offset level va) e 0#64 = mem :=
      if_pos BitVec.or_zero
    rw [hset, hsame]
    cases entryRefuses d (e ||| (pdeRwBit ||| pdeUsBit ||| pdeABit)) with
    | some err => rfl
    | none => rfl
  · have hcode : ¬ (c.mode.levels = 3 ∧ level = 3) :=
      fun h => hpae ⟨(levels_eq_three _).mp h.1, h.2⟩
    have hkept : keptEntry c acc level e = e ||| markBits c acc level e := if_neg hpae
    have hmark : markBits c acc level e = adBits (c.mode.leaf level e && acc.write) := by
      rw [markBits, Mode.used, if_neg hpae]
      cases c.mode.leaf level e with
      | false => rfl
      | true => exact congrArg adBits (Bool.true_and _).symm
    -- `simplify3` has nothing to clear.
    have hsimple : (if level = 2 ∧ (!d.pse) = true then e &&& ~~~pdePsBit else e) = e := by
      split_ifs with h2
      · have hpse : c.mode = .bits32 false := by
          have hd' := hd.pse
          rw [Bool.not_eq_true'] at h2
          rw [h2.2] at hd'
          exact not_not.mp (of_decide_eq_false hd'.symm)
        have hlarge := hcov.pse hpse h2.1
        refine eq_of_bits fun i hi => ?_
        rw [BitVec.getLsbD_and, BitVec.getLsbD_not, decide_eq_true hi, Bool.true_and,
          show pdePsBit = bits 7 7 by decide, getLsbD_bit hi]
        by_cases h7 : i = 7
        · subst h7
          rw [show e.getLsbD 7 = false from hlarge]
          rfl
        · rw [decide_eq_false h7]
          exact Bool.and_true _
      · rfl
    simp only [if_neg hcode, if_neg hpae, hsimple]
    rw [hsetd, hd.write, h.setAdBit hmode h1 he, hkept, hmark]
    cases entryRefuses d e with
    | some err => rfl
    | none => rfl

end

end OnDemandVirt.Vmm
