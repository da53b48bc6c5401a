import OnDemandVirt.Vmm.GetPteLarge

/-!
# The guest's walk

`get_pte_sub` against the walk of a processor. The rights are looked at level by level, so that a
walk that is refused is refused at the first entry that takes a right away, where a processor goes
on and may find another fault.
-/

namespace OnDemandVirt.Vmm

open Lib.X86

variable {c : Cpu} {acc : Lib.X86.Access} {d : GetPteData} {mem : TableMem} {m : Pmap}
  {va table e : BitVec 64} {level i : Nat}

/-! ### The loop over the levels -/

/-- The rights under the entries below level `n`. -/
def gather (entries : Nat → BitVec 64) : (n : Nat) → Perm → Perm
  | 0, p => p
  | n + 1, p =>
    gather entries n ⟨p.rw && writable (entries n), p.us && user (entries n),
      p.nx || noExec (entries n)⟩

/-- What the loop leaves in `entries` below a level, for the translation that it finds. -/
structure Found (level : Nat) (p : Perm) (t : Translation) (entries entries' : Nat → BitVec 64) :
    Prop where
  above : ∀ j, level ≤ j → entries' j = entries j
  page : entries' 0 &&& bits 12 51 = t.page
  perm : gather entries' level p = t.perm

theorem perm_marked (acc : Lib.X86.Access) (e : BitVec 64) : writable (marked acc e) = writable e ∧
    user (marked acc e) = user e ∧ noExec (marked acc e) = noExec e :=
  ⟨getLsbD_marked_of_ne (by decide) (by decide) (by decide),
    getLsbD_marked_of_ne (by decide) (by decide) (by decide),
    getLsbD_marked_of_ne (by decide) (by decide) (by decide)⟩

theorem under_of_leaf (hleaf : c.mode.leaf level e = true) (p : Perm) :
    p.under c.mode level e = ⟨p.rw && writable e, p.us && user e, p.nx || noExec e⟩ := by
  refine if_neg ?_
  rintro ⟨hm, rfl⟩
  rw [hm] at hleaf
  cases hleaf

theorem level_of_leaf (h1 : 1 ≤ level) (hl : level ≤ c.mode.levels)
    (hleaf : c.mode.leaf level e = true) : level = 1 ∨ level = 2 ∨ level = 3 := by
  have h4 : c.mode.levels ≤ 4 := by
    cases c.mode <;> simp [Mode.levels]
  by_contra hno
  obtain rfl : level = 4 := by omega
  cases hm : c.mode with
  | ia32e =>
    rw [hm] at hleaf
    cases hleaf
  | off => rw [hm] at hl; exact absurd hl (by decide)
  | bits32 pse => rw [hm] at hl; exact absurd hl (by simp [Mode.levels])
  | pae => rw [hm] at hl; exact absurd hl (by decide)

theorem getPteLoop_of_ok {mask : BitVec 64} {levels n : Nat} {mem mem' : TableMem} {m m' : Pmap}
    {entry : BitVec 64} (entries : Nat → BitVec 64)
    (h : getPteEntry mask d levels (i + 1) n mem (pmapSetlevel m (i + 1)) =
      some (mem', .ok (m', entry))) :
    getPteLoop mask d levels n (i + 1) mem m entries =
      getPteLoop mask d levels n i mem' m' (Function.update entries i entry) := by
  rw [getPteLoop, h]
  rfl

theorem getPteLoop_of_error {mask : BitVec 64} {levels n : Nat} {mem mem' : TableMem} {m : Pmap}
    {err : Vmmerr} (entries : Nat → BitVec 64)
    (h : getPteEntry mask d levels (i + 1) n mem (pmapSetlevel m (i + 1)) =
      some (mem', .error err)) :
    getPteLoop mask d levels n (i + 1) mem m entries = some (err, mem', entries) := by
  rw [getPteLoop, h]
  rfl

section

variable (hM : 32 ≤ c.maxphyaddr ∧ c.maxphyaddr ≤ 52) (hd : DataOf c acc d)
  (hp : present e = true) (hres : e &&& c.reserved level e = 0#64)
  (hleaf : c.mode.leaf level e = true) (hcov : EntryCovered c level e)
  (hword : c.mode.word e = e) {p : Perm}
  (hrights : (p.under c.mode level e).refuses c acc = false)

include hM hd hp hres hleaf hcov hword hrights

/-- From a leaf on: the entry itself is already in `entries`. -/
theorem getPteLoop_belowLeaf (h : OnLeaf c.mode.levels va (marked acc e) level m)
    (hlevel : level = 1 ∨ level = 2 ∨ level = 3) (n : Nat) (mem : TableMem)
    (entries : Nat → BitVec 64) :
    ∃ entries', getPteLoop (getPteAddrMask c.maxphyaddr) d c.mode.levels (n + 1) (level - 1) mem m
        (Function.update entries (level - 1) (marked acc e)) = some (.success, mem, entries') ∧
      Found level p ⟨c.mode.pageOf level e va, p.under c.mode level e⟩ entries entries' := by
  obtain ⟨hw, hu, hx⟩ := perm_marked acc e
  have hunder := under_of_leaf hleaf p
  have hentry : ∀ i m, OnLeaf c.mode.levels va (marked acc e) level m → Made level i →
      getPteEntry (getPteAddrMask c.maxphyaddr) d c.mode.levels i (n + 1) mem (pmapSetlevel m i) =
        some (mem, .ok (pmapSetlevel m i,
          madeEntry c.mode.levels va (marked acc e) level i)) := fun i m h hmade =>
    getPteEntry_belowLeaf hM hd hp hres hleaf hcov hword (hunder ▸ hrights) h hmade n mem
  obtain rfl | rfl | rfl := hlevel
  · refine ⟨_, rfl, fun j hj => ?_, ?_, ?_⟩
    · exact Function.update_of_ne (by omega) _ _
    · exact page_marked c.mode va e
    · rw [hunder, gather, gather, Function.update_self, hw, hu, hx]
  · have hmade : Made 2 1 := .inl ⟨rfl, rfl⟩
    obtain ⟨hw₁, hu₁, hx₁⟩ := perm_madeEntry va acc hmade
      (fun h => (levels_of_leaf hleaf (.inl rfl)).1 h) hp
    refine ⟨_, getPteLoop_of_ok _ (hentry 1 m h hmade), fun j hj => ?_, ?_, ?_⟩
    · rw [Function.update_of_ne (by omega), Function.update_of_ne (by omega)]
    · rw [Function.update_self]
      exact page_madeEntry hp hleaf hword (.inl rfl)
    · rw [hunder, gather, gather, gather, Function.update_self,
        Function.update_of_ne (by decide), Function.update_self, hw, hu, hx, hw₁, hu₁, hx₁]
      dsimp only
      rw [Bool.and_assoc, Bool.and_assoc, Bool.or_assoc, Bool.and_self, Bool.and_self,
        Bool.or_self]
  · have hmade₂ : Made 3 2 := .inr ⟨rfl, .inl rfl⟩
    have hmade₁ : Made 3 1 := .inr ⟨rfl, .inr rfl⟩
    have htwo := (levels_of_leaf hleaf (.inr rfl)).1
    obtain ⟨hw₁, hu₁, hx₁⟩ := perm_madeEntry va acc hmade₁ htwo hp
    obtain ⟨hw₂, hu₂, hx₂⟩ := perm_madeEntry va acc hmade₂ htwo hp
    refine ⟨_, (getPteLoop_of_ok _ (hentry 2 m h hmade₂)).trans
      (getPteLoop_of_ok _ (hentry 1 _ (h.setlevel 2) hmade₁)), fun j hj => ?_, ?_, ?_⟩
    · rw [Function.update_of_ne (by omega), Function.update_of_ne (by omega),
        Function.update_of_ne (by omega)]
    · rw [Function.update_self]
      exact page_madeEntry hp hleaf hword (.inr rfl)
    · have hgather : ∀ x : Nat → BitVec 64, x 2 = marked acc e →
          x 1 = madeEntry c.mode.levels va (marked acc e) 3 2 →
          x 0 = madeEntry c.mode.levels va (marked acc e) 3 1 →
          gather x 3 p = ⟨p.rw && writable e, p.us && user e, p.nx || noExec e⟩ := by
        intro x h2 h1 h0
        simp only [gather, h2, h1, h0, hw, hu, hx, hw₁, hu₁, hx₁, hw₂, hu₂, hx₂, Bool.and_assoc,
          Bool.or_assoc, Bool.and_self, Bool.or_self]
      rw [hunder]
      exact hgather _ rfl rfl rfl

end

/-- The fault that an error stands for. -/
def Vmmerr.fault : Vmmerr → Option Fault
  | .success => none
  | .pageNotPresent => some .notPresent
  | .pageBadReservedBit => some .reserved
  | .pageNotAccessible => some .protection
  | .pageNotExecutable => some .protection

/-- The entry whose rights are looked at: simplify2. -/
def simplified (c : Cpu) (level : Nat) (e : BitVec 64) : BitVec 64 :=
  if c.mode = .pae ∧ level = 3 then e ||| (pdeRwBit ||| pdeUsBit ||| pdeABit) else e

theorem noExec_of_reserved_pae (hM : c.maxphyaddr ≤ 52) (hpae : c.mode = .pae ∧ level = 3)
    (hres : e &&& c.reserved level e = 0#64) : noExec e = false := by
  rw [noExec, Bool.eq_false_iff]
  intro hbit
  have hclear := and_eq_zero_iff.mp hres 63 (by decide) hbit
  obtain ⟨hm, rfl⟩ := hpae
  simp only [Cpu.reserved, hm, if_true] at hclear
  rw [BitVec.getLsbD_or, getLsbD_bits c.maxphyaddr 63, Bool.or_eq_false_iff] at hclear
  exact absurd hclear.2 (by
    rw [decide_eq_false_iff_not, not_not]
    omega)

theorem perm_simplified (hM : c.maxphyaddr ≤ 52) (hres : e &&& c.reserved level e = 0#64)
    (p : Perm) :
    (⟨p.rw && writable (simplified c level e), p.us && user (simplified c level e),
      p.nx || noExec (simplified c level e)⟩ : Perm) = p.under c.mode level e := by
  unfold simplified Perm.under
  by_cases hpae : c.mode = .pae ∧ level = 3
  · have hnx := noExec_of_reserved_pae hM hpae hres
    have hw : writable (e ||| (pdeRwBit ||| pdeUsBit ||| pdeABit)) = true := by
      rw [writable, BitVec.getLsbD_or]
      exact Bool.or_true _
    have hu : user (e ||| (pdeRwBit ||| pdeUsBit ||| pdeABit)) = true := by
      rw [user, BitVec.getLsbD_or]
      exact Bool.or_true _
    have hx : noExec (e ||| (pdeRwBit ||| pdeUsBit ||| pdeABit)) = false := by
      rw [noExec, BitVec.getLsbD_or, show e.getLsbD 63 = false from hnx]
      rfl
    rw [if_pos hpae, if_pos hpae, hw, hu, hx, Bool.and_true, Bool.and_true, Bool.or_false]
  · rw [if_neg hpae, if_neg hpae]

/-- What is kept of an entry has the rights that were looked at. -/
theorem perm_keptEntry (c : Cpu) (acc : Lib.X86.Access) (level : Nat) (e : BitVec 64) :
    writable (keptEntry c acc level e) = writable (simplified c level e) ∧
      user (keptEntry c acc level e) = user (simplified c level e) ∧
      noExec (keptEntry c acc level e) = noExec (simplified c level e) := by
  unfold keptEntry simplified
  by_cases hpae : c.mode = .pae ∧ level = 3
  · rw [if_pos hpae, if_pos hpae]
    exact ⟨rfl, rfl, rfl⟩
  · have hmark : ∀ j < 64, j ≠ 5 → j ≠ 6 → (markBits c acc level e).getLsbD j = false := by
      intro j hj h5 h6
      have had : ∀ setd, (adBits setd).getLsbD j = false := by
        intro setd
        rw [getLsbD_adBits _ hj, decide_eq_false h5, decide_eq_false h6]
        simp
      unfold markBits Mode.used
      rw [if_neg hpae]
      split_ifs
      · exact had _
      · exact had false
    rw [if_neg hpae, if_neg hpae]
    refine ⟨?_, ?_, ?_⟩
    · rw [writable, BitVec.getLsbD_or, hmark 1 (by decide) (by decide) (by decide), Bool.or_false]
      rfl
    · rw [user, BitVec.getLsbD_or, hmark 2 (by decide) (by decide) (by decide), Bool.or_false]
      rfl
    · rw [noExec, BitVec.getLsbD_or, hmark 63 (by decide) (by decide) (by decide), Bool.or_false]
      rfl

/-- The pmap goes on to the table that the entry points to. -/
theorem AtTable.next (h : AtTable c.mode va table level m) (hmode : c.mode ≠ .off)
    (h1 : 1 ≤ level) (hp : present e = true) (hres : e &&& c.reserved level e = 0#64)
    (hcov : EntryCovered c level e) (hleaf : c.mode.leaf level e = false) (a : BitVec 64) :
    AtTable c.mode va (tableOf e) (level - 1) (fetched m level a (e ||| markBits c acc level e)) := by
  have hmark : markBits c acc level e = c.mode.used level := by
    rw [markBits, hleaf, if_neg Bool.false_ne_true]
  have hused : ∀ j < 64, j ≠ 5 → (c.mode.used level).getLsbD j = false := by
    intro j hj h5
    unfold Mode.used
    split_ifs
    · exact BitVec.getLsbD_zero
    · rw [accessedBit, getLsbD_bit hj, decide_eq_false h5]
  have hentry : (fetched m level a (e ||| markBits c acc level e)).entry (level - 1) =
      e ||| c.mode.used level := by
    rw [← hmark]
    exact Function.update_self _ _ _
  have hsetd := setd_eq_leaf hmode h1 h.le_levels hcov hres
  rw [hleaf, decide_eq_false_iff_not] at hsetd
  have hle := h.le_levels
  have hmask : tableMask c.mode.levels (level - 1) = bits 12 47 := by
    unfold tableMask
    rw [if_neg (by omega)]
    decide
  have hoffset : offsetMask c.mode (level - 1) = bits 0 11 := by
    refine if_neg ?_
    rintro ⟨hm, h3⟩
    rw [hm] at hle
    have : Mode.levels .pae = 3 := rfl
    omega
  refine ⟨h.levels, h.type, h.curaddr, rfl, by omega, ?_, ?_, ?_⟩
  · rw [hentry, stops_eq_false_iff]
    constructor
    · rw [and_pdePBit, present, BitVec.getLsbD_or, show e.getLsbD 0 = true from hp]
      rfl
    · intro hl
      have hlarge : large e = false := by
        by_contra hlarge
        rw [Bool.not_eq_false] at hlarge
        refine hsetd ?_
        rw [and_pdePsBit]
        have : level = 2 ∨ level = 3 := by omega
        grind
      by_contra hne
      rw [← ne_eq, and_pdePsBit, large, BitVec.getLsbD_or, hused 7 (by decide) (by decide),
        Bool.or_false] at hne
      rw [large, hne] at hlarge
      cases hlarge
  · rw [hentry, hmask]
    refine eq_of_bits fun j hj => ?_
    rw [tableOf, BitVec.getLsbD_and, BitVec.getLsbD_and, BitVec.getLsbD_or, getLsbD_bits,
      getLsbD_bits]
    by_cases h12 : 12 ≤ j
    · rw [hused j hj (by omega), Bool.or_false]
      by_cases h48 : 48 ≤ j ∧ j ≤ 51
      · have hclear := and_eq_zero_iff.mp ((BitVec.and_comm _ _).trans (hcov.table hleaf)) j hj (by
          rw [getLsbD_bits, decide_eq_true_eq]
          omega)
        rw [hclear, Bool.false_and, Bool.false_and]
      · congr 1
        rw [decide_eq_decide]
        omega
    · rw [decide_eq_false (by omega), decide_eq_false (by omega), Bool.and_false, Bool.and_false]
  · rw [hoffset, tableOf, and_eq_zero_iff]
    intro j hj hbit
    rw [BitVec.getLsbD_and, Bool.and_eq_true, getLsbD_bits, decide_eq_true_eq] at hbit
    rw [getLsbD_bits, decide_eq_false_iff_not]
    omega

/-- What the loop gives for what a walk gives. -/
def LoopAgrees (level : Nat) (p : Perm) (entries : Nat → BitVec 64)
    (r : Except Fault Translation × Mem) (loop : Option (Vmmerr × TableMem × (Nat → BitVec 64))) :
    Prop :=
  ∃ err entries', loop = some (err, r.2, entries') ∧
    match r.1 with
    | .ok t => err = .success ∧ Found level p t entries entries'
    | .error f => err.fault = some f

section

variable (hmode : c.mode ≠ .off) (hM : 32 ≤ c.maxphyaddr ∧ c.maxphyaddr ≤ 52)
  (hd : DataOf c acc d) (hva : c.mode ≠ .ia32e → va &&& bits 32 63 = 0#64) (n : Nat)

include hmode hM hd hva

/-- By induction on the level: each entry either ends both walks or leads both to the same table. -/
theorem getPteLoop_agrees (level : Nat) (table : BitVec 64) (p : Perm) (mem : TableMem) (m : Pmap)
    (entries : Nat → BitVec 64) (h1 : 1 ≤ level) (h : AtTable c.mode va table level m)
    (hp : p.refuses c acc = false)
    (hcov : ∀ x ∈ visits c va level table mem, EntryCovered c x.1 x.2) :
    LoopAgrees level p entries (walkEarly c acc va level table p mem)
      (getPteLoop (getPteAddrMask c.maxphyaddr) d c.mode.levels (n + 1) level mem m entries) := by
  induction level generalizing table p mem m entries with
  | zero => omega
  | succ level ih =>
    obtain ⟨e, he⟩ : ∃ e, e = c.mode.word (mem (table + c.mode.offset (level + 1) va)) := ⟨_, rfl⟩
    have hword : c.mode.word e = e := by rw [he, word_word]
    rw [walkEarly]
    rw [visits] at hcov
    dsimp only at hcov ⊢
    rw [← he] at hcov ⊢
    cases hpres : present e with
    | false =>
      rw [Bool.not_false, if_pos rfl]
      exact ⟨.pageNotPresent, entries,
        getPteLoop_of_error _ (getPteEntry_absent h hmode h1 hva he n _ hpres), rfl⟩
    | true =>
      rw [hpres, Bool.not_true, if_neg Bool.false_ne_true] at hcov
      rw [Bool.not_true, if_neg Bool.false_ne_true]
      have hcovered : EntryCovered c (level + 1) e := by
        refine hcov (level + 1, e) ?_
        split_ifs <;> simp
      by_cases hres : e &&& c.reserved (level + 1) e ≠ 0
      · rw [if_pos hres]
        exact ⟨.pageBadReservedBit, entries, getPteLoop_of_error _
          (getPteEntry_reserved h hmode h1 hva hM hd he n hpres hcovered hres), rfl⟩
      rw [if_neg hres]
      rw [not_not] at hres
      have hentry := getPteEntry_present h hmode h1 hva hM hd he n hpres hcovered hres
      dsimp only at hentry
      rw [← simplified] at hentry
      have hperm := perm_simplified hM.2 hres p
      have hiff := entryRefuses_eq_none_iff (e := simplified c (level + 1) e) hd hp
      rw [hperm] at hiff
      cases href : (p.under c.mode (level + 1) e).refuses c acc with
      | true =>
        rw [if_pos rfl]
        have hsome : entryRefuses d (simplified c (level + 1) e) ≠ none := by
          rw [ne_eq, hiff, href]
          exact Bool.noConfusion
        rcases entryRefuses_cases d (simplified c (level + 1) e) with hr | hr | hr
        · exact absurd hr hsome
        · rw [hr] at hentry
          exact ⟨.pageNotAccessible, entries, getPteLoop_of_error _ hentry, rfl⟩
        · rw [hr] at hentry
          exact ⟨.pageNotExecutable, entries, getPteLoop_of_error _ hentry, rfl⟩
      | false =>
        rw [if_neg Bool.false_ne_true]
        rw [hiff.mpr href] at hentry
        have hloop := getPteLoop_of_ok entries hentry
        cases hleaf : c.mode.leaf (level + 1) e with
        | true =>
          have hnot : ¬ (c.mode = .pae ∧ level + 1 = 3) := by
            rintro ⟨hm, h3⟩
            rw [hm, h3] at hleaf
            cases hleaf
          have hmark : markBits c acc (level + 1) e = adBits acc.write := if_pos hleaf
          have hkept : keptEntry c acc (level + 1) e = marked acc e := by
            rw [keptEntry, if_neg hnot, hmark, marked]
          have hon : OnLeaf c.mode.levels va (marked acc e) (level + 1)
              (fetched m (level + 1) (table + c.mode.offset (level + 1) va) (marked acc e)) := by
            refine ⟨h.levels, h.curaddr, rfl, Function.update_self _ _ _, fun h2 => ?_⟩
            have hlarge : large e = true := by
              have hsetd := setd_eq_leaf hmode h1 h.le_levels hcovered hres
              rw [hleaf, decide_eq_true_eq, and_pdePsBit] at hsetd
              grind
            have hl3 := level_of_leaf h1 h.le_levels hleaf
            by_contra hstop
            rw [Bool.not_eq_true, stops_eq_false_iff] at hstop
            refine absurd (hstop.2 (by omega)) ?_
            rw [← ne_eq, and_pdePsBit, large,
              getLsbD_marked_of_ne (by decide) (by decide) (by decide)]
            exact hlarge
          obtain ⟨entries', hrest, hfound⟩ := getPteLoop_belowLeaf hM hd hpres hres hleaf
            hcovered hword href hon (level_of_leaf h1 h.le_levels hleaf) n
            (setBits mem (table + c.mode.offset (level + 1) va) e (adBits acc.write)) entries
          rw [if_pos rfl]
          refine ⟨.success, entries', ?_, rfl, hfound⟩
          rw [hloop, hmark, hkept, ← marked]
          exact hrest
        | false =>
          have h1' : 1 ≤ level := by
            rcases Nat.eq_zero_or_pos level with rfl | hpos
            · cases hm : c.mode <;> rw [hm] at hleaf <;> cases hleaf
            · exact hpos
          have hmark : markBits c acc (level + 1) e = c.mode.used (level + 1) := by
            rw [markBits, hleaf, if_neg Bool.false_ne_true]
          have hnext : AtTable c.mode va (tableOf e) level
              (fetched m (level + 1) (table + c.mode.offset (level + 1) va)
                (e ||| markBits c acc (level + 1) e)) :=
            h.next hmode h1 hpres hres hcovered hleaf _
          rw [if_neg Bool.false_ne_true]
          obtain ⟨err, entries', hrest, hres'⟩ := ih (tableOf e) (p.under c.mode (level + 1) e)
            (setBits mem (table + c.mode.offset (level + 1) va) e (c.mode.used (level + 1))) _
            (Function.update entries level (keptEntry c acc (level + 1) e)) h1' hnext href
            fun x hx => hcov x (by
              rw [if_neg (by rw [hleaf]; simp [hres])]
              exact List.mem_cons_of_mem _ hx)
          refine ⟨err, entries', ?_, ?_⟩
          · rw [hmark] at hrest hloop
            exact hloop.trans hrest
          · split at hres'
            · obtain ⟨herr, habove, hpage, hgather⟩ := hres'
              refine ⟨herr, fun j hj => ?_, hpage, ?_⟩
              · rw [habove j (by omega), Function.update_of_ne (by omega)]
              · obtain ⟨hw, hu, hx⟩ := perm_keptEntry c acc (level + 1) e
                rw [gather, habove level (Nat.le_refl _), Function.update_self, hw, hu, hx, hperm]
                exact hgather
            · exact hres'

end

/-! ### The walk -/

/-- The mode of a processor with these control registers. -/
def modeOf (cr0 cr4 efer : BitVec 64) : Mode :=
  if hasBit cr0 cr0PgBit = false then .off
  else if hasBit efer msrIa32EferLmeBit then .ia32e
  else if hasBit cr4 cr4PaeBit then .pae
  else .bits32 (hasBit cr4 cr4PseBit)

def cpuOf (cr0 cr4 efer : BitVec 64) (maxphyaddr : Nat) : Cpu where
  mode := modeOf cr0 cr4 efer
  wp := hasBit cr0 cr0WpBit
  nxe := hasBit efer msrIa32EferNxeBit
  maxphyaddr := maxphyaddr

/-- CR3 as the mode has it, with a table below 2 ^ 48. -/
structure Cr3Covered (mode : Mode) (cr3 : BitVec 64) : Prop where
  high : cr3 &&& bits 48 63 = 0#64
  bits32 : ∀ pse, mode = .bits32 pse → cr3 &&& bits 32 47 = 0#64

/-- The entry that `pmap_open_guest` makes of CR3. -/
def rootEntry (levels : Nat) (cr3 : BitVec 64) : BitVec 64 :=
  if levels = 3 then (cr3 &&& (~~~0x1F#64 ||| 0x8 ||| 0x10)) ||| pdePBit
  else (cr3 &&& (~~~0xFFF#64 ||| 0x8 ||| 0x10)) ||| pdePBit

theorem getLsbD_rootEntry (n : Nat) (cr3 : BitVec 64) {j : Nat} (hj : j < 64) :
    (rootEntry n cr3).getLsbD j =
      (decide (j = 0) || (cr3.getLsbD j && decide (3 ≤ j ∧ (j ≤ 4 ∨ n = 3 ∨ 12 ≤ j)))) := by
  have h3 : (~~~0x1F#64 ||| 0x8 ||| 0x10 : BitVec 64) = bits 3 63 := by decide
  have h12 : (~~~0xFFF#64 ||| 0x8 ||| 0x10 : BitVec 64) = bits 12 63 ||| bits 3 4 := by decide
  have hp : pdePBit = bits 0 0 := by decide
  unfold rootEntry
  split_ifs with hn
  · rw [h3, hp, BitVec.getLsbD_or, BitVec.getLsbD_and, getLsbD_bits, getLsbD_bit hj, Bool.or_comm]
    congr 2
    rw [decide_eq_decide]
    omega
  · rw [h12, hp, BitVec.getLsbD_or, BitVec.getLsbD_and, BitVec.getLsbD_or, getLsbD_bits,
      getLsbD_bits, getLsbD_bit hj, Bool.or_comm, ← Bool.decide_or]
    congr 2
    rw [decide_eq_decide]
    omega

theorem getLsbD_tableMask (n level : Nat) {j : Nat} (hj : j < 64) :
    (tableMask n level).getLsbD j =
      decide (if n = 3 ∧ level = 3 then 5 ≤ j ∧ j ≤ 31 else 12 ≤ j ∧ j ≤ 47) := by
  unfold tableMask
  split_ifs
  · rw [show (0xFFFFFFE0 : BitVec 64) = bits 5 31 by decide, getLsbD_bits, decide_eq_decide]
    omega
  · rw [show (0x0000FFFFFFFFF000 : BitVec 64) = bits 12 47 by decide, getLsbD_bits,
      decide_eq_decide]
    omega

theorem rootOf_eq {mode : Mode} (hmode : mode ≠ .off) {cr3 : BitVec 64}
    (hcr3 : Cr3Covered mode cr3) :
    rootEntry mode.levels cr3 &&& tableMask mode.levels mode.levels = mode.rootOf cr3 := by
  refine eq_of_bits fun j hj => ?_
  have hhigh : 48 ≤ j → cr3.getLsbD j = false := fun h =>
    and_eq_zero_iff.mp ((BitVec.and_comm _ _).trans hcr3.high) j hj (by
      rw [getLsbD_bits, decide_eq_true_eq]
      omega)
  rw [BitVec.getLsbD_and, getLsbD_rootEntry _ _ hj, getLsbD_tableMask _ _ hj]
  cases mode with
  | off => exact absurd rfl hmode
  | bits32 pse =>
    have hmid : 32 ≤ j → cr3.getLsbD j = false := fun h => by
      by_cases h48 : 48 ≤ j
      · exact hhigh h48
      · exact and_eq_zero_iff.mp ((BitVec.and_comm _ _).trans (hcr3.bits32 pse rfl)) j hj (by
          rw [getLsbD_bits, decide_eq_true_eq]
          omega)
    change _ = (cr3 &&& bits 12 31).getLsbD j
    rw [BitVec.getLsbD_and, getLsbD_bits]
    simp only [Mode.levels]
    grind
  | pae =>
    change _ = (cr3 &&& bits 5 31).getLsbD j
    rw [BitVec.getLsbD_and, getLsbD_bits]
    simp only [Mode.levels]
    grind
  | ia32e =>
    change _ = (cr3 &&& bits 12 51).getLsbD j
    rw [BitVec.getLsbD_and, getLsbD_bits]
    simp only [Mode.levels]
    grind

/-- The pmap at the topmost table. -/
def openedAt (m : Pmap) (cr3 va : BitVec 64) (levels : Nat) : Pmap :=
  pmapSeek (pmapOpenGuest m cr3 levels true) va (levels + 1)

theorem readlevel_openedAt (m : Pmap) (cr3 va : BitVec 64) (levels : Nat) :
    (openedAt m cr3 va levels).readlevel = levels := by
  change seekLoop levels m.curaddr va (levels - levels) levels = _
  rw [Nat.sub_self, seekLoop]

theorem read_openedAt (m : Pmap) (cr3 va : BitVec 64) (levels : Nat) (mem : TableMem) :
    pmapRead mem (openedAt m cr3 va levels) =
      (rootEntry levels cr3, openedAt m cr3 va levels) := by
  have hcur : (openedAt m cr3 va levels).curlevel = levels := Nat.add_sub_cancel levels 1
  rw [pmapRead, readlevel_openedAt, hcur, Nat.sub_self, readLoop, hcur]
  exact congrArg (·, _) (Function.update_self _ _ _)

theorem atTable_openedAt (hmode : c.mode ≠ .off) {cr3 : BitVec 64}
    (hcr3 : Cr3Covered c.mode cr3) (m : Pmap) :
    AtTable c.mode va (c.mode.rootOf cr3) c.mode.levels (openedAt m cr3 va c.mode.levels) := by
  have hentry : (openedAt m cr3 va c.mode.levels).entry c.mode.levels =
      rootEntry c.mode.levels cr3 := Function.update_self _ _ _
  refine ⟨rfl, rfl, rfl, readlevel_openedAt _ _ _ _, Nat.le_refl _, ?_, ?_, ?_⟩
  · rw [hentry, stops_eq_false_iff]
    refine ⟨?_, fun hl => ?_⟩
    · rw [and_pdePBit, present, getLsbD_rootEntry _ _ (by decide)]
      rfl
    · by_contra hne
      rw [← ne_eq, and_pdePsBit, large, getLsbD_rootEntry _ _ (by decide)] at hne
      have h3 : c.mode.levels ≠ 3 := by omega
      simp [h3] at hne
  · rw [hentry]
    exact rootOf_eq hmode hcr3
  · rw [and_eq_zero_iff]
    intro j hj hbit
    unfold offsetMask
    cases hm : c.mode <;> rw [hm] at hbit <;>
      simp [Mode.rootOf, Mode.levels, getLsbD_bits] at hbit ⊢ <;> omega

/-- The rights under all entries, as `set_m2` takes them. -/
theorem gather_eq (x : Nat → BitVec 64) (l : Nat) (p : Perm) :
    gather x (l + 1) p = ⟨p.rw && (entriesPerm x l).1, p.us && (entriesPerm x l).2.1,
      p.nx || (entriesPerm x l).2.2⟩ := by
  have hw : ∀ e : BitVec 64, (e &&& pdeRwBit != 0) = writable e := fun e => by
    rw [Bool.eq_iff_iff, bne_iff_ne, and_pdeRwBit]
  have hu : ∀ e : BitVec 64, (e &&& pdeUsBit != 0) = user e := fun e => by
    rw [Bool.eq_iff_iff, bne_iff_ne, and_pdeUsBit]
  have hx : ∀ e : BitVec 64, (e &&& pdeNxBit != 0) = noExec e := fun e => by
    rw [Bool.eq_iff_iff, bne_iff_ne, and_pdeNxBit]
  induction l generalizing p with
  | zero => simp only [gather, entriesPerm, hw, hu, hx]
  | succ l ih =>
    rw [gather, ih]
    simp only [entriesPerm, hw, hu, hx]
    congr 1
    · rw [Bool.and_assoc, Bool.and_comm (writable _)]
    · rw [Bool.and_assoc, Bool.and_comm (user _)]
    · rw [Bool.or_assoc, Bool.or_comm (noExec _)]

/-- What `cpu_mmu_get_pte` returns for a translation: the page and the rights of it, or an error
that stands for the fault. -/
structure ReturnsAs (r : Except Fault Translation × Mem) (err : Vmmerr) (mem : TableMem)
    (entries : Nat → BitVec 64) (levels : Nat) : Prop where
  mem : mem = r.2
  ok : ∀ t, r.1 = .ok t → err = .success ∧ entries 0 &&& bits 12 51 = t.page ∧
    entriesPerm entries levels = (t.perm.rw, t.perm.us, t.perm.nx)
  error : ∀ f, r.1 = .error f → err.fault = some f

/-- The entry that is made up without paging. -/
def flatEntry (M : Nat) (va : BitVec 64) : BitVec 64 :=
  (va &&& getPteAddrMask M) ||| pdePBit ||| pdeRwBit ||| pdeUsBit ||| pdeABit ||| pdeDBit

theorem getLsbD_flatEntry {M : Nat} (hM : 32 ≤ M ∧ M ≤ 52) {j : Nat} (hj : j < 64) :
    (flatEntry M va).getLsbD j =
      (va.getLsbD j && decide (12 ≤ j ∧ j ≤ M - 1) || decide (j ≤ 2 ∨ 5 ≤ j ∧ j ≤ 6)) := by
  have hlow : pdePBit ||| pdeRwBit ||| pdeUsBit ||| pdeABit ||| pdeDBit = bits 0 2 ||| bits 5 6 := by
    decide
  have hflat : flatEntry M va = (va &&& getPteAddrMask M) |||
      (pdePBit ||| pdeRwBit ||| pdeUsBit ||| pdeABit ||| pdeDBit) := by
    simp only [flatEntry, BitVec.or_assoc]
  rw [hflat, hlow, getPteAddrMask_eq hM.1 hM.2, BitVec.getLsbD_or, BitVec.getLsbD_or,
    BitVec.getLsbD_and, getLsbD_bits, getLsbD_bits, getLsbD_bits]
  grind

theorem page_flatEntry {M : Nat} (hM : 32 ≤ M ∧ M ≤ 52) (hva : va &&& bits 32 63 = 0#64) :
    flatEntry M va &&& bits 12 51 = va &&& bits 12 31 := by
  refine eq_of_bits fun j hj => ?_
  have hhigh : 32 ≤ j → va.getLsbD j = false := fun h =>
    and_eq_zero_iff.mp ((BitVec.and_comm _ _).trans hva) j hj (by
      rw [getLsbD_bits, decide_eq_true_eq]
      omega)
  rw [BitVec.getLsbD_and, BitVec.getLsbD_and, getLsbD_flatEntry hM hj, getLsbD_bits, getLsbD_bits]
  grind

/-- `struct get_pte_data` as `cpu_mmu_get_pte` fills it. -/
def dataFor (cr0 cr4 efer : BitVec 64) (acc : Lib.X86.Access) : GetPteData where
  pg := hasBit cr0 cr0PgBit
  wp := hasBit cr0 cr0WpBit
  pse := hasBit cr4 cr4PseBit
  pae := hasBit cr4 cr4PaeBit
  lme := hasBit efer msrIa32EferLmeBit
  nxe := hasBit efer msrIa32EferNxeBit
  write := acc.write
  user := acc.user
  exec := acc.exec

theorem dataOf_pagingLevels {cr0 : BitVec 64} (cr4 efer : BitVec 64) (acc : Lib.X86.Access) (M : Nat)
    (hpg : hasBit cr0 cr0PgBit = true) :
    (pagingLevels (dataFor cr0 cr4 efer acc)).1 = (modeOf cr0 cr4 efer).levels ∧
      DataOf (cpuOf cr0 cr4 efer M) acc (pagingLevels (dataFor cr0 cr4 efer acc)).2 := by
  have hm : modeOf cr0 cr4 efer =
      if hasBit efer msrIa32EferLmeBit then .ia32e
      else if hasBit cr4 cr4PaeBit then .pae else .bits32 (hasBit cr4 cr4PseBit) :=
    if_neg (by rw [hpg]; decide)
  have hcpu : (cpuOf cr0 cr4 efer M).mode = modeOf cr0 cr4 efer := rfl
  unfold pagingLevels
  cases hl : hasBit efer msrIa32EferLmeBit with
  | true =>
    rw [hl, if_pos rfl] at hm
    have hd : (dataFor cr0 cr4 efer acc).lme = true := hl
    rw [if_pos hd]
    exact ⟨by rw [hm]; rfl, rfl, rfl, rfl, rfl, rfl, by rw [hcpu, hm]; rfl, by rw [hcpu, hm]; rfl⟩
  | false =>
    rw [hl, if_neg Bool.false_ne_true] at hm
    have hd : ¬ (dataFor cr0 cr4 efer acc).lme = true := by
      rw [show (dataFor cr0 cr4 efer acc).lme = false from hl]
      exact Bool.false_ne_true
    rw [if_neg hd]
    cases ha : hasBit cr4 cr4PaeBit with
    | true =>
      rw [ha, if_pos rfl] at hm
      have hd' : (dataFor cr0 cr4 efer acc).pae = true := ha
      rw [if_pos hd']
      exact ⟨by rw [hm]; rfl, rfl, rfl, rfl, rfl, rfl, by rw [hcpu, hm]; rfl,
        by rw [hcpu, hm]; exact ha⟩
    | false =>
      rw [ha, if_neg Bool.false_ne_true] at hm
      have hd' : ¬ (dataFor cr0 cr4 efer acc).pae = true := by
        rw [show (dataFor cr0 cr4 efer acc).pae = false from ha]
        exact Bool.false_ne_true
      rw [if_neg hd']
      refine ⟨by rw [hm]; rfl, rfl, rfl, rfl, rfl, rfl, ?_, by rw [hcpu, hm]; exact ha⟩
      rw [hcpu, hm]
      change hasBit cr4 cr4PseBit = _
      cases hasBit cr4 cr4PseBit <;> rfl

/-- The other entry that is made up without paging. -/
def flatPde : BitVec 64 := pdePBit ||| pdeRwBit ||| pdeUsBit ||| pdeABit ||| pdeDBit ||| pdePsBit

theorem entriesPerm_flat {M : Nat} (hM : 32 ≤ M ∧ M ≤ 52) {x : Nat → BitVec 64}
    (h0 : x 0 = flatEntry M va) (h1 : x 1 = flatPde) : entriesPerm x 1 = (true, true, false) := by
  have hbit := @getLsbD_flatEntry va M hM
  have hone : writable (x 1) = true ∧ user (x 1) = true ∧ noExec (x 1) = false := by
    rw [h1]
    decide
  have hzero : writable (x 0) = true ∧ user (x 0) = true ∧ noExec (x 0) = false := by
    rw [h0, writable, user, noExec, hbit (by decide), hbit (by decide), hbit (by decide)]
    simp
    omega
  have hall := gather_eq x 1 ⟨true, true, false⟩
  simp only [gather, hone, hzero, Bool.and_true, Bool.or_false, Bool.true_and,
    Bool.false_or, Perm.mk.injEq] at hall
  obtain ⟨hw, hu, hx⟩ := hall
  exact Prod.ext hw.symm (Prod.ext hu.symm hx.symm)

/-- `get_pte_sub` without paging. -/
theorem getPteSub_off {M : Nat} (hM : 32 ≤ M ∧ M ≤ 52) (hva : va &&& bits 32 63 = 0#64)
    (hpg : d.pg = false) (n : Nat) (cr3 : BitVec 64) (mem : TableMem) (m : Pmap)
    (entries : Nat → BitVec 64) :
    ∃ entries', getPteSub (getPteAddrMask M) n mem m va cr3 d entries =
        some (.success, mem, entries', 1) ∧
      entries' 0 &&& bits 12 51 = va &&& bits 12 31 ∧
      entriesPerm entries' 1 = (true, true, false) := by
  refine ⟨Function.update (Function.update entries 0 (flatEntry M va)) 1 flatPde, ?_,
    page_flatEntry hM hva, entriesPerm_flat hM rfl rfl⟩
  unfold getPteSub
  rw [hpg, Bool.not_false, if_pos rfl]
  rfl

/-- The entry made of CR3 takes no right away. -/
theorem entriesPerm_root {mode : Mode} {cr3 : BitVec 64} (hcr3 : Cr3Covered mode cr3) {l : Nat}
    {x entries : Nat → BitVec 64} {perm : Perm}
    (habove : ∀ j, l ≤ j → x j = Function.update entries l
      (rootEntry l cr3 ||| (pdeRwBit ||| pdeUsBit ||| pdeABit)) j)
    (hgather : gather x l ⟨true, true, false⟩ = perm) :
    entriesPerm x l = (perm.rw, perm.us, perm.nx) := by
  have hroot : x l = rootEntry l cr3 ||| (pdeRwBit ||| pdeUsBit ||| pdeABit) := by
    rw [habove l (Nat.le_refl l), Function.update_self]
  have hw : writable (x l) = true := by
    rw [hroot, writable, BitVec.getLsbD_or]
    exact Bool.or_true _
  have hu : user (x l) = true := by
    rw [hroot, user, BitVec.getLsbD_or]
    exact Bool.or_true _
  have hx : noExec (x l) = false := by
    have h63 : cr3.getLsbD 63 = false :=
      and_eq_zero_iff.mp ((BitVec.and_comm _ _).trans hcr3.high) 63 (by decide) (by decide)
    rw [hroot, noExec, BitVec.getLsbD_or, getLsbD_rootEntry _ _ (by decide), h63]
    rfl
  have hall := gather_eq x l ⟨true, true, false⟩
  rw [gather, hw, hu, hx] at hall
  rw [← hgather]
  exact Prod.ext (congrArg Perm.rw hall).symm
    (Prod.ext (congrArg Perm.us hall).symm (congrArg Perm.nx hall).symm)

/-- `get_pte_sub` with paging: the loop starts at the topmost table. -/
theorem getPteSub_on {mask cr3 : BitVec 64} {n levels : Nat} (hpg : d.pg = true)
    (hlevels : (pagingLevels d).1 = levels) (m : Pmap) (entries : Nat → BitVec 64) :
    getPteSub mask n mem m va cr3 d entries =
      (getPteLoop mask (pagingLevels d).2 levels n levels mem (openedAt m cr3 va levels)
        (Function.update entries levels
          (rootEntry levels cr3 ||| (pdeRwBit ||| pdeUsBit ||| pdeABit)))).map
        fun (err, mem, entries) => (err, mem, entries, levels) := by
  unfold getPteSub
  rw [hpg, Bool.not_true, if_neg Bool.false_ne_true]
  dsimp only
  rw [hlevels, ← openedAt, read_openedAt]

section

variable {cr0 cr3 cr4 efer : BitVec 64} {M : Nat} (hM : 32 ≤ M ∧ M ≤ 52)
  (hva : modeOf cr0 cr4 efer ≠ .ia32e → va &&& bits 32 63 = 0#64)
  (hcr3 : Cr3Covered (modeOf cr0 cr4 efer) cr3)
  (hcov : ∀ x ∈ visits (cpuOf cr0 cr4 efer M) va (modeOf cr0 cr4 efer).levels
    ((modeOf cr0 cr4 efer).rootOf cr3) mem, EntryCovered (cpuOf cr0 cr4 efer M) x.1 x.2)

include hM hva hcr3 hcov

/-- `cpu_mmu_get_pte` returns what a walk gives that looks at the rights of each entry. -/
theorem cpuMmuGetPte_returns (acc : Lib.X86.Access) (n : Nat) (m : Pmap) (entries : Nat → BitVec 64) :
    ∃ err mem' entries' levels,
      cpuMmuGetPte (getPteAddrMask M) (n + 1) mem m va cr0 cr3 cr4 efer acc.write acc.user acc.exec
          entries = some (err, mem', entries', levels) ∧
        ReturnsAs (translateEarly (cpuOf cr0 cr4 efer M) acc cr3 va mem) err mem' entries'
          levels := by
  have hmode : (cpuOf cr0 cr4 efer M).mode = modeOf cr0 cr4 efer := rfl
  change ∃ err mem' entries' levels, getPteSub (getPteAddrMask M) (n + 1) mem m va cr3
    (dataFor cr0 cr4 efer acc) entries = some (err, mem', entries', levels) ∧ _
  by_cases hpg : hasBit cr0 cr0PgBit = true
  · have hon : (cpuOf cr0 cr4 efer M).mode ≠ .off := by
      rw [hmode, modeOf, hpg, if_neg (by decide)]
      split_ifs <;> rintro ⟨⟩
    obtain ⟨hlevels, hd⟩ := dataOf_pagingLevels cr4 efer acc M hpg
    have h1 : 1 ≤ (modeOf cr0 cr4 efer).levels := by
      cases hm : modeOf cr0 cr4 efer <;> simp [Mode.levels]
      exact hon hm
    obtain ⟨err, entries', hloop, hres⟩ := getPteLoop_agrees hon hM hd hva n _ _
      ⟨true, true, false⟩ mem _ (Function.update entries (modeOf cr0 cr4 efer).levels
        (rootEntry (modeOf cr0 cr4 efer).levels cr3 ||| (pdeRwBit ||| pdeUsBit ||| pdeABit)))
      h1 (atTable_openedAt hon hcr3 m) (by simp [Perm.refuses]) hcov
    have htrans : translateEarly (cpuOf cr0 cr4 efer M) acc cr3 va mem =
        walkEarly (cpuOf cr0 cr4 efer M) acc va (modeOf cr0 cr4 efer).levels
          ((modeOf cr0 cr4 efer).rootOf cr3) ⟨true, true, false⟩ mem := if_neg hon
    rw [htrans]
    refine ⟨err, _, entries', (modeOf cr0 cr4 efer).levels, ?_, rfl, ?_, ?_⟩
    · exact (getPteSub_on hpg hlevels m entries).trans (congrArg _ hloop)
    · intro t ht
      have hres' := hres
      rw [hmode, ht] at hres'
      obtain ⟨herr, habove, hpage, hgather⟩ := hres'
      exact ⟨herr, hpage, entriesPerm_root hcr3 habove hgather⟩
    · intro f hf
      have hres' := hres
      rw [hmode, hf] at hres'
      exact hres'
  · have hoff : modeOf cr0 cr4 efer = .off := if_pos (Bool.eq_false_iff.mpr hpg)
    have hd : (dataFor cr0 cr4 efer acc).pg = false := Bool.eq_false_iff.mpr hpg
    obtain ⟨entries', hrun, hpage, hperm⟩ :=
      getPteSub_off hM (hva (by rw [hoff]; decide)) hd (n + 1) cr3 mem m entries
    have htrans : translateEarly (cpuOf cr0 cr4 efer M) acc cr3 va mem =
        (.ok ⟨va &&& bits 12 31, ⟨true, true, false⟩⟩, mem) := if_pos (hmode.trans hoff)
    rw [htrans]
    refine ⟨.success, mem, entries', 1, hrun, rfl, ?_, ?_⟩
    · rintro t ⟨⟩
      exact ⟨rfl, hpage, hperm⟩
    · rintro f ⟨⟩

/-- `cpu_mmu_get_pte` against the translation of a processor. It succeeds where the processor does;
where it reports a right that is missing, the processor may have found another fault further down. -/
theorem cpuMmuGetPte_walks (acc : Lib.X86.Access) (n : Nat) (m : Pmap) (entries : Nat → BitVec 64) :
    ∃ err mem' entries' levels,
      cpuMmuGetPte (getPteAddrMask M) (n + 1) mem m va cr0 cr3 cr4 efer acc.write acc.user acc.exec
          entries = some (err, mem', entries', levels) ∧
        ReturnsAs (translateEarly (cpuOf cr0 cr4 efer M) acc cr3 va mem) err mem' entries' levels ∧
        (err = .success ↔ ∃ t, (translate (cpuOf cr0 cr4 efer M) acc cr3 va mem).1 = .ok t) ∧
        (err.fault ≠ some .protection →
          ReturnsAs (translate (cpuOf cr0 cr4 efer M) acc cr3 va mem) err mem' entries' levels) ∧
        SetsOnly (modeOf cr0 cr4 efer) mem mem' := by
  obtain ⟨err, mem', entries', levels, hrun, hret⟩ :=
    cpuMmuGetPte_returns hM hva hcr3 hcov acc n m entries
  refine ⟨err, mem', entries', levels, hrun, hret, ?_, ?_, ?_⟩
  · rcases translateEarly_spec cr3 mem with hsame | ⟨hprot, f, hf⟩
    · rw [hsame] at hret
      constructor
      · intro herr
        cases hr : (translate (cpuOf cr0 cr4 efer M) acc cr3 va mem).1 with
        | ok t => exact ⟨t, rfl⟩
        | error f =>
          have hfault := hret.error f hr
          rw [herr] at hfault
          cases hfault
      · rintro ⟨t, ht⟩
        exact (hret.ok t ht).1
    · have hfault := hret.error _ hprot
      constructor
      · intro herr
        rw [herr] at hfault
        cases hfault
      · rintro ⟨t, ht⟩
        rw [hf] at ht
        cases ht
  · intro hne
    rcases translateEarly_spec cr3 mem with hsame | ⟨hprot, -⟩
    · exact hsame ▸ hret
    · exact absurd (hret.error _ hprot) hne
  · rw [hret.mem]
    exact translateEarly_setsOnly (c := cpuOf cr0 cr4 efer M) cr3 mem

end

/-! ### A right that is missing above a table that is missing -/

/-- A topmost entry that forbids user accesses, and no table below. -/
def supervisorOnly : TableMem := fun a => if a = 0 then 0x1003 else 0

def userRead : Lib.X86.Access where
  write := false
  user := true
  exec := false

/-- Four-level paging. -/
def longCr0 : BitVec 64 := cr0PgBit
def longCr4 : BitVec 64 := cr4PaeBit
def longEfer : BitVec 64 := msrIa32EferLmeBit

def freshPmap : Pmap where
  entry _ := 0
  entryaddr _ := 0
  curaddr := 0
  curlevel := 0
  readlevel := 0
  levels := 0
  type := .guest

theorem visits_supervisorOnly : visits (cpuOf longCr0 longCr4 longEfer 36) 0 4 0 supervisorOnly =
    [(4, 0x1003)] := by
  decide

theorem covered_supervisorOnly :
    ∀ x ∈ visits (cpuOf longCr0 longCr4 longEfer 36) 0 4 0 supervisorOnly,
      EntryCovered (cpuOf longCr0 longCr4 longEfer 36) x.1 x.2 := by
  intro x hx
  rw [visits_supervisorOnly, List.mem_singleton] at hx
  subst hx
  refine ⟨fun _ h => ?_, fun _ _ h => ?_, fun _ _ => ?_, fun _ => ?_⟩
  · exact absurd h (by decide)
  · exact absurd h (by decide)
  · decide
  · decide

theorem cpuMmuGetPte_walks_supervisorOnly :
    ∃ err mem' entries' levels,
      cpuMmuGetPte (getPteAddrMask 36) 1 supervisorOnly freshPmap 0 longCr0 0 longCr4 longEfer
          userRead.write userRead.user userRead.exec (fun _ => 0) =
            some (err, mem', entries', levels) ∧
        ReturnsAs (translateEarly (cpuOf longCr0 longCr4 longEfer 36) userRead 0 0 supervisorOnly)
          err mem' entries' levels ∧
        (err = .success ↔ ∃ t, (translate (cpuOf longCr0 longCr4 longEfer 36) userRead 0 0
          supervisorOnly).1 = .ok t) ∧
        (err.fault ≠ some .protection →
          ReturnsAs (translate (cpuOf longCr0 longCr4 longEfer 36) userRead 0 0 supervisorOnly)
            err mem' entries' levels) ∧
        SetsOnly (modeOf longCr0 longCr4 longEfer) supervisorOnly mem' :=
  cpuMmuGetPte_walks (by decide) (fun _ => by decide) ⟨by decide, fun _ _ => by decide⟩
    covered_supervisorOnly userRead 0 freshPmap fun _ => 0

/-- The processor finds that the page is not present; `cpu_mmu_get_pte` says that the access is not
allowed. -/
theorem refused_before_missing :
    (cpuMmuGetPte (getPteAddrMask 36) 1 supervisorOnly freshPmap 0 longCr0 0 longCr4 longEfer
      userRead.write userRead.user userRead.exec fun _ => 0).map (fun r => r.1) =
        some .pageNotAccessible ∧
      (translate (cpuOf longCr0 longCr4 longEfer 36) userRead 0 0 supervisorOnly).1 =
        .error .notPresent := by
  constructor <;> rfl

end OnDemandVirt.Vmm
