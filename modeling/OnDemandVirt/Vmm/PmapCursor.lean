import OnDemandVirt.Lib.Machine
import OnDemandVirt.Vmm.Pmap
import Mathlib.Tactic.IntervalCases

/-!
# The cursor follows the tables

Each operation of a pmap keeps its cached entries those of a walk from the root, under the
conditions that the operation needs for that.
-/

namespace OnDemandVirt.Vmm

/-! ### Entries and words -/

/-- Page tables of two, three or four levels, as a pmap walks them. -/
def pmapTables (levels : Nat) : Lib.Tables (BitVec 64) (BitVec 64) (BitVec 64) where
  stops l e := e &&& pdePBit == 0 || ((l == 1 || l == 2) && e &&& pdePsBit != 0)
  addr := entryAddrOf levels

/-- What `pmap_read` makes of the entry at which a walk ends. -/
def readValue (levels : Nat) (curaddr : BitVec 64) (curlevel : Nat) (end_ : Nat × BitVec 64) :
    BitVec 64 :=
  if end_.1 ≤ curlevel then end_.2
  else if end_.2 &&& pdePBit = 0 then 0
  else if end_.1 = 2 then
    if curlevel = 0 then handlePdePsBit levels curaddr (splitPdpe curaddr end_.2)
    else splitPdpe curaddr end_.2
  else handlePdePsBit levels curaddr end_.2

variable {levels l : Nat} {e x y : BitVec 64} {mem : TableMem} {m : Pmap}

theorem readValue_of_lt {curaddr : BitVec 64} {curlevel : Nat} (h : curlevel < l) :
    readValue levels curaddr curlevel (l, e) =
      if e &&& pdePBit = 0 then 0
      else if l = 2 then
        if curlevel = 0 then handlePdePsBit levels curaddr (splitPdpe curaddr e)
        else splitPdpe curaddr e
      else handlePdePsBit levels curaddr e :=
  if_neg (Nat.not_le.mpr h)

theorem stops_of_not_present (h : e &&& pdePBit = 0) : (pmapTables levels).stops l e = true := by
  simp [pmapTables, h]

theorem stops_eq_false_iff : (pmapTables levels).stops l e = false ↔
    e &&& pdePBit ≠ 0 ∧ ((l = 1 ∨ l = 2) → e &&& pdePsBit = 0) := by
  simp only [pmapTables, Bool.or_eq_false_iff, Bool.and_eq_false_iff, beq_eq_false_iff_ne, ne_eq,
    bne_eq_false_iff_eq]
  refine and_congr_right fun _ => ⟨fun h hl => ?_, fun h => ?_⟩
  · rcases h with h | h
    · rcases hl with rfl | rfl <;> simp at h
    · exact h
  · by_cases hl : l = 1 ∨ l = 2
    · exact Or.inr (h hl)
    · left
      rw [not_or] at hl
      simp [hl.1, hl.2]

/-- The size of an entry in bits. -/
def entryBits (levels : Nat) : Nat := if levels = 2 then 32 else 64

theorem rdEntry_eq (levels : Nat) : rdEntry levels = pmapRd (entryBits levels) := by
  funext mem phys
  unfold rdEntry entryBits
  split_ifs <;> rfl

theorem wrEntry_eq (levels : Nat) : wrEntry levels = pmapWr (entryBits levels) := by
  funext type mem phys old e
  unfold wrEntry entryBits
  split_ifs <;> rfl

/-- A write stores its entry, or it is an exchange that finds another one. -/
theorem pmapWr_cases (w : Nat) (type : PmapType) (mem : TableMem) (phys old e : BitVec 64) :
    pmapWr w type mem phys old e = (false, Function.update mem phys (wordOf w e), e) ∨
      pmapWr w type mem phys old e = (true, mem, pmapRd w mem phys) := by
  cases type with
  | vmm => exact Or.inl rfl
  | guest => exact Or.inl rfl
  | guestAtomic =>
    rw [pmapWr]
    split_ifs
    · exact Or.inl rfl
    · exact Or.inr rfl

theorem wordOf_64 (x : BitVec 64) : wordOf 64 x = x := by
  rw [wordOf, BitVec.setWidth_eq, BitVec.setWidth_eq]

theorem wordOf_32 (h : x.toNat < 2 ^ 32) : wordOf 32 x = x := by
  apply BitVec.eq_of_toNat_eq
  rw [wordOf, BitVec.toNat_setWidth, BitVec.toNat_setWidth]
  omega

/-- A value that fits into an entry is kept by it. -/
theorem wordOf_entryBits (h : levels = 2 → x.toNat < 2 ^ 32) : wordOf (entryBits levels) x = x := by
  unfold entryBits
  split_ifs with hl
  · exact wordOf_32 (h hl)
  · exact wordOf_64 x

theorem rdEntry_congr {mem' : TableMem} {a : BitVec 64} (h : mem' a = mem a) :
    rdEntry levels mem' a = rdEntry levels mem a := by
  rw [rdEntry_eq, pmapRd, pmapRd, h]

theorem writeEntry_fits {attrmask : BitVec 32} (h : e.toNat < 2 ^ 32) :
    (writeEntry m e attrmask).toNat < 2 ^ 32 := by
  rw [writeEntry, BitVec.toNat_or, BitVec.toNat_and]
  refine Nat.or_lt_two_pow (Nat.lt_of_le_of_lt Nat.and_le_left h) ?_
  rw [BitVec.toNat_setWidth]
  exact Nat.lt_of_le_of_lt (Nat.mod_le _ _) (BitVec.isLt _)

/-! ### Addresses that share entries -/

/-- Two addresses that agree under a mask agree on every field of bits in it. -/
theorem shift_and_congr {mask field : BitVec 64} {s : Nat} (h : x &&& mask = y &&& mask)
    (hfield : mask &&& (field <<< s) = field <<< s) (hback : (field <<< s) >>> s = field) :
    (x >>> s) &&& field = (y >>> s) &&& field := by
  rw [← hback, ← BitVec.ushiftRight_and_distrib, ← BitVec.ushiftRight_and_distrib, ← hfield,
    ← BitVec.and_assoc, ← BitVec.and_assoc, h]

/-- Bits of an address that index three levels of tables, and that the masks leave out: a linear
address has 32 bits there. -/
def highIndexBits : BitVec 64 := 0x7F00000000

/-- The entries from level `low` on serve both addresses when the masks say so. -/
theorem entryAddrOf_congr {low : Nat} (hlevels : 2 ≤ levels ∧ levels ≤ 4) (hlow : low ≤ l)
    (hl : l < levels) (hmask : x &&& seekMasks levels low = y &&& seekMasks levels low)
    (hhigh : levels = 3 → x &&& highIndexBits = y &&& highIndexBits) (e : BitVec 64) :
    entryAddrOf levels l e x = entryAddrOf levels l e y := by
  unfold entryAddrOf
  congr 1
  obtain ⟨h2, h4⟩ := hlevels
  obtain rfl | rfl | rfl : levels = 2 ∨ levels = 3 ∨ levels = 4 := by omega
  · rw [if_pos rfl, if_pos rfl]
    interval_cases l <;> interval_cases low <;>
      exact shift_and_congr hmask (by decide) (by decide)
  · rw [if_neg (by decide), if_neg (by decide)]
    have hboth : x &&& (seekMasks 3 low ||| highIndexBits) =
        y &&& (seekMasks 3 low ||| highIndexBits) := by
      rw [BitVec.and_or_distrib_left, BitVec.and_or_distrib_left, hmask, hhigh rfl]
    interval_cases l <;> interval_cases low <;>
      exact shift_and_congr hboth (by decide) (by decide)
  · rw [if_neg (by decide), if_neg (by decide)]
    interval_cases l <;> interval_cases low <;>
      exact shift_and_congr hmask (by decide) (by decide)

theorem seekLoop_spec (n readlevel : Nat) (hn : readlevel + n = levels) :
    readlevel ≤ seekLoop levels x y n readlevel ∧ seekLoop levels x y n readlevel ≤ levels ∧
      (seekLoop levels x y n readlevel < levels →
        x &&& seekMasks levels (seekLoop levels x y n readlevel) =
          y &&& seekMasks levels (seekLoop levels x y n readlevel)) := by
  induction n generalizing readlevel with
  | zero => exact ⟨Nat.le_refl _, Nat.le_of_eq hn, fun h => absurd h (Nat.not_lt.mpr (by
      rw [seekLoop]
      omega))⟩
  | succ n ih =>
    rw [seekLoop]
    split_ifs with heq
    · exact ⟨Nat.le_refl _, by omega, fun _ => heq⟩
    · obtain ⟨hle, hle', hmask⟩ := ih (readlevel + 1) (by omega)
      exact ⟨Nat.le_of_succ_le hle, hle', hmask⟩

/-! ### The invariant -/

/-- The cached entries are those of a walk from the root. -/
structure PmapInv (root : BitVec 64) (mem : TableMem) (m : Pmap) : Prop where
  levels : 2 ≤ m.levels ∧ m.levels ≤ 4
  curlevel : m.curlevel ≤ m.levels
  present : root &&& pdePBit ≠ 0
  coherent : (pmapTables m.levels).Coherent (rdEntry m.levels mem) m.curaddr root m.readlevel
    m.levels m.entry m.entryaddr

variable {root : BitVec 64}

/-- The cursor after reading the entry below the lowest cached one. -/
def Pmap.fetch (mem : TableMem) (m : Pmap) : Pmap :=
  let phys := entryAddrOf m.levels (m.readlevel - 1) (m.entry m.readlevel) m.curaddr
  { m with
    readlevel := m.readlevel - 1
    entryaddr := Function.update m.entryaddr (m.readlevel - 1) phys
    entry := Function.update m.entry (m.readlevel - 1) (rdEntry m.levels mem phys) }

theorem readLoop_fetch (n : Nat)
    (h : (pmapTables m.levels).stops m.readlevel (m.entry m.readlevel) = false) :
    readLoop mem (n + 1) m = readLoop mem n (m.fetch mem) := by
  obtain ⟨hp, hps⟩ := stops_eq_false_iff.1 h
  rw [readLoop]
  dsimp only
  rw [if_neg hp, if_neg fun h => h.2 (hps (Or.inr h.1)), if_neg fun h => h.2 (hps (Or.inl h.1))]
  rfl

theorem readLoop_stop (n : Nat)
    (h : (pmapTables m.levels).stops m.readlevel (m.entry m.readlevel) = true)
    (hcur : m.curlevel < m.readlevel) :
    readLoop mem (n + 1) m = (readValue m.levels m.curaddr m.curlevel
      (m.readlevel, m.entry m.readlevel), m) := by
  rw [readLoop, readValue_of_lt hcur]
  by_cases hp : m.entry m.readlevel &&& pdePBit = 0
  · rw [if_pos hp, if_pos hp]
  rw [if_neg hp, if_neg hp]
  have hps : (m.readlevel = 1 ∨ m.readlevel = 2) ∧ m.entry m.readlevel &&& pdePsBit ≠ 0 := by
    by_contra hno
    rw [not_and_not_right] at hno
    rw [stops_eq_false_iff.2 ⟨hp, hno⟩] at h
    cases h
  by_cases htwo : m.readlevel = 2
  · rw [if_pos ⟨htwo, hps.2⟩, if_pos htwo]
    split_ifs <;> rfl
  · have hone : m.readlevel = 1 := hps.1.resolve_right htwo
    rw [if_neg fun h => htwo h.1, if_pos ⟨hone, hps.2⟩, if_neg htwo]

/-- Reading from the lowest cached entry on: where the walk ends, what is cached then, and that
the entries cached before stay. -/
theorem readLoop_spec (n : Nat) (hn : m.readlevel = m.curlevel + n)
    (hc : (pmapTables m.levels).Coherent (rdEntry m.levels mem) m.curaddr root m.readlevel
      m.levels m.entry m.entryaddr) :
    ∃ low entry entryaddr,
      readLoop mem n m = (readValue m.levels m.curaddr m.curlevel (low, entry low),
        { m with readlevel := low, entry := entry, entryaddr := entryaddr }) ∧
      (pmapTables m.levels).find (rdEntry m.levels mem) m.curaddr m.curlevel m.readlevel
        (m.entry m.readlevel) = (low, entry low) ∧
      (pmapTables m.levels).Coherent (rdEntry m.levels mem) m.curaddr root low m.levels entry
        entryaddr ∧
      ∀ l, m.readlevel ≤ l → entry l = m.entry l ∧ entryaddr l = m.entryaddr l := by
  induction n generalizing m with
  | zero =>
    rw [Nat.add_zero] at hn
    refine ⟨m.readlevel, m.entry, m.entryaddr, ?_, ?_, hc, fun _ _ => ⟨rfl, rfl⟩⟩
    · rw [readLoop, readValue, if_pos (Nat.le_of_eq hn)]
      change (m.entry m.curlevel, m) = (m.entry m.readlevel, m)
      rw [hn]
    · exact Lib.Tables.find_of_le (Nat.le_of_eq hn) _
  | succ n ih =>
    obtain ⟨r, hr⟩ : ∃ r, m.readlevel = r + 1 := ⟨m.curlevel + n, hn⟩
    have hcur : m.curlevel ≤ r := by omega
    by_cases hstop : (pmapTables m.levels).stops m.readlevel (m.entry m.readlevel) = true
    · -- the walk ends here
      refine ⟨m.readlevel, m.entry, m.entryaddr, readLoop_stop n hstop (by omega), ?_, hc,
        fun _ _ => ⟨rfl, rfl⟩⟩
      rw [hr] at hstop ⊢
      exact Lib.Tables.find_of_stops hstop
    · rw [Bool.not_eq_true] at hstop
      rw [readLoop_fetch n hstop]
      simp only [Pmap.fetch, hr, Nat.add_sub_cancel]
      rw [hr] at hc hstop
      have hfetch := hc.fetch hstop (a := entryAddrOf m.levels r (m.entry (r + 1)) m.curaddr) rfl
      obtain ⟨low, entry, entryaddr, hread, hfind, hc', hkeep⟩ := ih (m := { m with
        readlevel := r
        entryaddr := Function.update m.entryaddr r
          (entryAddrOf m.levels r (m.entry (r + 1)) m.curaddr)
        entry := Function.update m.entry r (rdEntry m.levels mem
          (entryAddrOf m.levels r (m.entry (r + 1)) m.curaddr)) }) (by
            dsimp only
            omega) hfetch
      dsimp only at hread hfind hc' hkeep
      rw [Function.update_self] at hfind
      refine ⟨low, entry, entryaddr, hread, ?_, hc', fun l hl => ?_⟩
      · rw [Lib.Tables.find_succ hcur hstop]
        exact hfind
      · obtain ⟨h₁, h₂⟩ := hkeep l (Nat.le_of_succ_le hl)
        have hne : l ≠ r := by omega
        rw [Function.update_of_ne hne] at h₁ h₂
        exact ⟨h₁, h₂⟩

/-- `pmap_read`: its value is what a walk from the root finds. -/
theorem PmapInv.read (h : PmapInv root mem m) :
    (pmapRead mem m).1 = readValue m.levels m.curaddr m.curlevel
      ((pmapTables m.levels).find (rdEntry m.levels mem) m.curaddr m.curlevel m.levels root) ∧
    PmapInv root mem (pmapRead mem m).2 := by
  rcases Nat.lt_or_ge m.curlevel m.readlevel with hlt | hge
  · obtain ⟨n, hn⟩ := Nat.exists_eq_add_of_le (Nat.le_of_lt hlt)
    obtain ⟨low, entry, entryaddr, hread, hfind, hc, -⟩ := readLoop_spec n hn h.coherent
    rw [pmapRead, show m.readlevel - m.curlevel = n by omega, hread,
      ← h.coherent.find_eq (Nat.le_of_lt hlt), hfind]
    exact ⟨rfl, h.levels, h.curlevel, h.present, hc⟩
  · rw [pmapRead, Nat.sub_eq_zero_of_le hge, readLoop, h.coherent.find_cached hge h.curlevel,
      readValue, if_pos (Nat.le_refl _)]
    exact ⟨rfl, h⟩

/-- Reading changes what is cached only. -/
theorem readLoop_frame (n : Nat) (m : Pmap) :
    (readLoop mem n m).2.levels = m.levels ∧ (readLoop mem n m).2.type = m.type ∧
      (readLoop mem n m).2.curlevel = m.curlevel ∧
      (readLoop mem n m).2.curaddr = m.curaddr := by
  induction n generalizing m with
  | zero => exact ⟨rfl, rfl, rfl, rfl⟩
  | succ n ih =>
    rw [readLoop]
    dsimp only
    split_ifs
    on_goal 5 => exact ih _
    all_goals exact ⟨rfl, rfl, rfl, rfl⟩

theorem PmapInv.setlevel (h : PmapInv root mem m) {level : Nat} (hlevel : level ≤ m.levels + 1) :
    PmapInv root mem (pmapSetlevel m level) :=
  ⟨h.levels, Nat.sub_le_of_le_add hlevel, h.present, h.coherent⟩

theorem PmapInv.seek (h : PmapInv root mem m) {virtaddr : BitVec 64} {level : Nat}
    (hlevel : level ≤ m.levels + 1)
    (hhigh : m.levels = 3 → m.readlevel < 3 →
      m.curaddr &&& highIndexBits = virtaddr &&& highIndexBits) :
    PmapInv root mem (pmapSeek m virtaddr level) := by
  have hle := h.coherent.low_le
  obtain ⟨hup, htop, hmask⟩ := seekLoop_spec (x := m.curaddr) (y := virtaddr)
    (m.levels - m.readlevel) m.readlevel (Nat.add_sub_cancel' hle)
  refine ⟨h.levels, Nat.sub_le_of_le_add hlevel, h.present, ?_⟩
  refine (h.coherent.raise hup htop).congr_key fun l hl hl' e => ?_
  have hlt := Nat.lt_of_le_of_lt hl hl'
  exact entryAddrOf_congr h.levels hl hl' (hmask hlt)
    (fun h3 => hhigh h3 (by omega)) e

/-! ### Writing and clearing -/

/-- A write after which the other cached entries are still those of a walk: the entry fits into
its word, none of the others is in that word, and where entries below are cached the new entry
leads to the same table as the old one. -/
structure WritesApart (m : Pmap) (e : BitVec 64) (attrmask : BitVec 32) : Prop where
  fits : m.levels = 2 → e.toNat < 2 ^ 32
  apart : ∀ l, m.readlevel ≤ l → l < m.levels → l ≠ m.curlevel →
    m.entryaddr l ≠ m.entryaddr m.curlevel
  below : m.readlevel < m.curlevel →
    (pmapTables m.levels).stops m.curlevel (writeEntry m e attrmask) = false ∧
      writeEntry m e attrmask &&& tableMask m.levels m.curlevel =
        m.entry m.curlevel &&& tableMask m.levels m.curlevel

theorem WritesApart.wordOf {attrmask : BitVec 32} (h : WritesApart m e attrmask) :
    wordOf (entryBits m.levels) (writeEntry m e attrmask) = writeEntry m e attrmask :=
  wordOf_entryBits fun hl => writeEntry_fits (h.fits hl)

/-- A successful write of the entry of `curlevel`. -/
theorem PmapInv.write_entry (h : PmapInv root mem m) (hread : m.readlevel ≤ m.curlevel)
    (hcur : m.curlevel < m.levels) {attrmask : BitVec 32} (hw : WritesApart m e attrmask) :
    PmapInv root (Function.update mem (m.entryaddr m.curlevel)
      (wordOf (entryBits m.levels) (writeEntry m e attrmask)))
      { m with entry := Function.update m.entry m.curlevel (writeEntry m e attrmask) } := by
  refine ⟨h.levels, h.curlevel, h.present, h.coherent.write hread hcur ?_ ?_ ?_⟩
  · rw [rdEntry_eq, pmapRd, Function.update_self, hw.wordOf, hw.wordOf]
  · intro l hl hl' hne
    exact rdEntry_congr (Function.update_of_ne (hw.apart l hl hl' hne) _ _)
  · intro hlt
    obtain ⟨hgo, htable⟩ := hw.below hlt
    refine ⟨hgo, fun l hl => ?_⟩
    rw [← hl] at htable
    simp only [pmapTables, entryAddrOf]
    rw [← hl, htable]

/-- `pmap_write`. A failed exchange brings the entry that is there into the cache. -/
theorem PmapInv.write (h : PmapInv root mem m) {attrmask : BitVec 32}
    (hw : WritesApart m e attrmask) {fail : Bool} {mem' : TableMem} {m' : Pmap}
    (hwrite : pmapWrite mem m e attrmask = some (fail, mem', m')) :
    PmapInv root mem' m' ∧ m'.levels = m.levels := by
  unfold pmapWrite at hwrite
  by_cases hassert : m.readlevel ≤ m.curlevel ∧ m.curlevel < m.levels
  swap
  · rw [if_neg hassert] at hwrite
    cases hwrite
  obtain ⟨hread, hcur⟩ := hassert
  rw [if_pos ⟨hread, hcur⟩, wrEntry_eq] at hwrite
  rcases pmapWr_cases (entryBits m.levels) m.type mem (m.entryaddr m.curlevel)
    (m.entry m.curlevel) (writeEntry m e attrmask) with hwr | hwr
  · rw [hwr] at hwrite
    cases hwrite
    exact ⟨h.write_entry hread hcur hw, rfl⟩
  · have hentry := h.coherent.entry _ hread hcur
    rw [rdEntry_eq] at hentry
    rw [hwr, ← hentry] at hwrite
    cases hwrite
    rw [Function.update_eq_self]
    exact ⟨⟨h.levels, h.curlevel, h.present, h.coherent.raise hread h.curlevel⟩, rfl⟩

/-- Zeroing memory that no cached entry is in. -/
theorem PmapInv.zero (h : PmapInv root mem m) {phys : BitVec 64} {size : Nat}
    (hout : ∀ l, m.readlevel ≤ l → l < m.levels → ¬ (m.entryaddr l - phys).toNat < size) :
    PmapInv root (memZero mem phys size) m :=
  ⟨h.levels, h.curlevel, h.present, h.coherent.congr_read fun l hl hl' =>
    rdEntry_congr (if_neg (hout l hl hl'))⟩

/-- The table that `pmap_clear` clears has none of the entries that are cached above it. -/
def ClearsApart (m : Pmap) : Prop :=
  ∀ l, m.curlevel < l → l < m.levels →
    ¬ (m.entryaddr l - (m.entry (m.curlevel + 1) &&& ~~~0xFFF#64)).toNat < clearSize m

theorem PmapInv.clear (h : PmapInv root mem m) (hc : ClearsApart m) {mem' : TableMem} {m' : Pmap}
    (hclear : pmapClear mem m = some (mem', m')) :
    PmapInv root mem' m' ∧ m'.levels = m.levels := by
  unfold pmapClear at hclear
  split_ifs at hclear with hassert
  cases hclear
  obtain ⟨hread, -, -, -, hcur⟩ := hassert
  have hraised : PmapInv root mem { m with readlevel := m.curlevel + 1 } :=
    ⟨h.levels, h.curlevel, h.present, h.coherent.raise hread hcur⟩
  exact ⟨hraised.zero fun l hl hl' => hc l hl hl', rfl⟩

/-! ### Allocating tables -/

/-- Pages that `alloc_page` may return, one after the other. -/
structure AllocPages (levels : Nat) (pages : List (BitVec 64)) : Prop where
  nodup : pages.Nodup
  aligned : ∀ p ∈ pages, p &&& 0xFFF#64 = 0#64
  fits : ∀ p ∈ pages, p.toNat < 2 ^ 48 ∧ (levels = 2 → p.toNat < 2 ^ 32)

/-- No cached entry is in the page. -/
def UnusedBy (m : Pmap) (p : BitVec 64) : Prop :=
  ∀ l, m.readlevel ≤ l → l < m.levels → ¬ (m.entryaddr l - p).toNat < 4096

section

variable {p q a : BitVec 64}

theorem toNat_mod_of_aligned (hp : p &&& 0xFFF#64 = 0#64) : p.toNat % 4096 = 0 := by
  have h : p.toNat &&& (2 ^ 12 - 1) = 0 := congrArg BitVec.toNat hp
  rwa [Nat.and_two_pow_sub_one_eq_mod] at h

theorem not_in_both (hp : p &&& 0xFFF#64 = 0#64) (hq : q &&& 0xFFF#64 = 0#64) (hne : p ≠ q)
    (ha : (a - p).toNat < 4096) : ¬ (a - q).toNat < 4096 := by
  intro ha'
  have h₁ := toNat_mod_of_aligned hp
  have h₂ := toNat_mod_of_aligned hq
  rw [BitVec.toNat_sub] at ha ha'
  refine hne (BitVec.eq_of_toNat_eq ?_)
  have := p.isLt
  have := q.isLt
  have := a.isLt
  omega

theorem and_of_aligned (hp : p &&& 0xFFF#64 = 0#64) {k : BitVec 64} (hk : k &&& 0xFFF#64 = k) :
    p &&& k = 0#64 := by
  rw [← hk, BitVec.and_comm k, ← BitVec.and_assoc, hp]
  exact BitVec.zero_and

theorem or_in_page (hp : p &&& 0xFFF#64 = 0#64) {k : BitVec 64} (hk : k &&& 0xFFF#64 = k) :
    ((p ||| k) - p).toNat < 4096 := by
  have hlt : k.toNat < 4096 := by
    rw [← hk, BitVec.toNat_and]
    exact Nat.lt_of_le_of_lt Nat.and_le_right (by decide)
  rw [← BitVec.add_eq_or_of_and_eq_zero _ _ (and_of_aligned hp hk), BitVec.add_comm,
    BitVec.add_sub_cancel]
  exact hlt

/-- An entry that points to a page leads to a word of it. -/
theorem entryAddrOf_in_page (hp : p &&& 0xFFF#64 = 0#64) (he : e &&& tableMask levels (l + 1) = p)
    (x : BitVec 64) : (entryAddrOf levels l e x - p).toNat < 4096 := by
  unfold entryAddrOf
  rw [he]
  refine or_in_page hp ?_
  split_ifs
  · rw [BitVec.and_assoc]
    rfl
  · rw [BitVec.and_assoc]
    rfl

theorem and_page_of_aligned (hp : p &&& 0xFFF#64 = 0#64) : p &&& ~~~0xFFF#64 = p := by
  have h : p &&& (0xFFF#64 ||| ~~~0xFFF#64) = p := BitVec.and_allOnes
  rwa [BitVec.and_or_distrib_left, hp, BitVec.zero_or] at h

theorem and_tableMask_of_aligned (hp : p &&& 0xFFF#64 = 0#64) (hlt : p.toNat < 2 ^ 48)
    (hl : ¬ (levels = 3 ∧ l = 3)) : p &&& tableMask levels l = p := by
  have hlow : p &&& 0xFFFFFFFFFFFF#64 = p := by
    apply BitVec.eq_of_toNat_eq
    rw [BitVec.toNat_and]
    exact (Nat.and_two_pow_sub_one_eq_mod p.toNat 48).trans (Nat.mod_eq_of_lt hlt)
  have hmask : (0x0000FFFFFFFFF000 : BitVec 64) = 0xFFFFFFFFFFFF#64 &&& ~~~0xFFF#64 := by decide
  rw [tableMask, if_neg hl, hmask, ← BitVec.and_assoc, hlow, and_page_of_aligned hp]

/-- The bits under `k` of an entry made of a page and attributes `c`. -/
theorem linkEntry_and (hp : p &&& 0xFFF#64 = 0#64) (c : BitVec 64) {k : BitVec 64}
    (hk : k &&& 0xFFF#64 = k) : (p ||| c) &&& k = c &&& k := by
  rw [BitVec.and_or_distrib_right, and_of_aligned hp hk, BitVec.zero_or]

theorem linkEntry_and_tableMask (hp : p &&& 0xFFF#64 = 0#64) (hlt : p.toNat < 2 ^ 48)
    (hl : ¬ (levels = 3 ∧ l = 3)) {c : BitVec 64} (hc : c &&& 0xFFF#64 = c) :
    (p ||| c) &&& tableMask levels l = p := by
  have hattr : c &&& tableMask levels l = 0#64 := by
    rw [tableMask, if_neg hl, ← hc, BitVec.and_assoc]
    exact BitVec.and_zero
  rw [BitVec.and_or_distrib_right, and_tableMask_of_aligned hp hlt hl, hattr, BitVec.or_zero]

/-- The entry that `pmap_autoalloc` writes for a page: the page and attributes that say present. -/
theorem writeEntry_link (hp : p &&& 0xFFF#64 = 0#64) (m : Pmap) :
    ∃ c : BitVec 64, writeEntry m (p ||| pdePBit) 0x1 = p ||| c ∧ c &&& 0xFFF#64 = c ∧
      c &&& pdePBit ≠ 0 ∧ c &&& pdePsBit = 0 := by
  have hlink : (p ||| pdePBit) &&& (~~~0xFFF#64 ||| (0x1 : BitVec 32).setWidth 64) =
      p ||| pdePBit := by
    rw [BitVec.and_or_distrib_right, BitVec.and_or_distrib_left, and_page_of_aligned hp,
      and_of_aligned hp (by decide), BitVec.or_zero]
    rfl
  refine ⟨pdePBit ||| (attrdef m &&& ~~~(0x1 : BitVec 32)).setWidth 64, ?_, ?_⟩
  · rw [writeEntry, hlink, BitVec.or_assoc]
  · unfold attrdef
    split_ifs <;> decide

/-- An entry that is not present is in no word of another cached entry. -/
theorem PmapInv.apart_of_absent (h : PmapInv root mem m)
    (habs : m.entry m.readlevel &&& pdePBit = 0) {l : Nat} (hl : m.readlevel ≤ l)
    (hl' : l < m.levels) (hne : l ≠ m.readlevel) : m.entryaddr l ≠ m.entryaddr m.readlevel := by
  intro heq
  obtain ⟨r, rfl⟩ : ∃ r, l = r + 1 := ⟨l - 1, by omega⟩
  have hgo := h.coherent.goesOn r (by omega) (by omega)
  rw [h.coherent.entry _ hl hl', heq, ← h.coherent.entry _ (Nat.le_refl _) (by omega),
    stops_of_not_present habs] at hgo
  cases hgo

theorem PmapInv.lt_levels_of_absent (h : PmapInv root mem m)
    (habs : m.entry m.readlevel &&& pdePBit = 0) : m.readlevel < m.levels := by
  refine Nat.lt_of_le_of_ne h.coherent.low_le fun heq => h.present ?_
  rw [← h.coherent.root, ← heq]
  exact habs

/-- Reading one level down, to an entry that is absent. -/
theorem PmapInv.read_absent (h : PmapInv root mem m) {r : Nat} (hr : m.readlevel = r + 1)
    (hcur : m.curlevel ≤ r)
    (hgo : (pmapTables m.levels).stops (r + 1) (m.entry (r + 1)) = false)
    (hnew : rdEntry m.levels mem (entryAddrOf m.levels r (m.entry (r + 1)) m.curaddr) = 0) :
    ∃ entry entryaddr,
      (pmapRead mem m).2 =
        { m with readlevel := r, entry := entry, entryaddr := entryaddr } ∧
      PmapInv root mem { m with readlevel := r, entry := entry, entryaddr := entryaddr } ∧
      entry r = 0 ∧
      entryaddr r = entryAddrOf m.levels r (m.entry (r + 1)) m.curaddr ∧
      ∀ l, r < l → entryaddr l = m.entryaddr l := by
  obtain ⟨n, hn⟩ := Nat.exists_eq_add_of_le (Nat.le_trans hcur (by omega : r ≤ m.readlevel))
  obtain ⟨low, entry, entryaddr, hread, hfind, hc, hkeep⟩ := readLoop_spec n hn h.coherent
  have hend : (pmapTables m.levels).find (rdEntry m.levels mem) m.curaddr m.curlevel r 0 =
      (r, 0) := by
    rcases Nat.eq_or_lt_of_le hcur with heq | hlt
    · exact Lib.Tables.find_of_le (Nat.le_of_eq heq.symm) _
    · obtain ⟨r', rfl⟩ : ∃ r', r = r' + 1 := ⟨r - 1, by omega⟩
      exact Lib.Tables.find_of_stops (stops_of_not_present BitVec.zero_and)
  rw [hr, Lib.Tables.find_succ hcur hgo] at hfind
  have hfind' : (r, 0) = (low, entry low) := by
    rw [← hend, ← hnew]
    exact hfind
  obtain ⟨rfl, hzero⟩ := Prod.mk.inj hfind'
  have hlow := h.coherent.low_le
  rw [hr] at hkeep
  refine ⟨entry, entryaddr, ?_, ⟨h.levels, h.curlevel, h.present, hc⟩, hzero.symm, ?_,
    fun l hl => (hkeep l hl).2⟩
  · rw [pmapRead, show m.readlevel - m.curlevel = n by omega, hread]
  · rw [hc.addr r (Nat.le_refl _) (by omega), (hkeep (r + 1) (Nat.le_refl _)).1]
    rfl

/-- One turn of the loop: the lowest cached entry, which is absent, gets a table of its own, and
the next entry read is absent again. -/
theorem PmapInv.autoalloc_step (h : PmapInv root mem m) (htype : m.type = .vmm)
    (hcur : m.curlevel < m.readlevel) (habs : m.entry m.readlevel &&& pdePBit = 0)
    (hp : p &&& 0xFFF#64 = 0#64) (hfits : p.toNat < 2 ^ 48 ∧ (m.levels = 2 → p.toNat < 2 ^ 32))
    (hun : UnusedBy m p) :
    ∃ mem' m₁ r entry entryaddr,
      pmapWrite (memZero mem p 4096) { m with curlevel := m.readlevel } (p ||| pdePBit) 0x1 =
        some (false, mem', m₁) ∧
      (pmapRead mem' { m₁ with curlevel := m.curlevel }).2 =
        { m with readlevel := r, entry := entry, entryaddr := entryaddr } ∧
      PmapInv root mem' { m with readlevel := r, entry := entry, entryaddr := entryaddr } ∧
      m.readlevel = r + 1 ∧ entry r &&& pdePBit = 0 ∧
      (entryaddr r - p).toNat < 4096 ∧ ∀ l, r < l → entryaddr l = m.entryaddr l := by
  have hlt := h.lt_levels_of_absent habs
  obtain ⟨r, hr⟩ : ∃ r, m.readlevel = r + 1 := ⟨m.readlevel - 1, by omega⟩
  obtain ⟨c, hlink, hc, hpresent, hps⟩ :=
    writeEntry_link hp { m with curlevel := m.readlevel }
  -- the write
  have hzero : PmapInv root (memZero mem p 4096) { m with curlevel := m.readlevel } :=
    ⟨h.levels, h.coherent.low_le, h.present, (h.zero hun).coherent⟩
  have hw : WritesApart { m with curlevel := m.readlevel } (p ||| pdePBit) 0x1 := by
    refine ⟨fun h2 => ?_, fun l hl hl' hne => h.apart_of_absent habs hl hl' hne,
      fun hlt => absurd hlt (Nat.lt_irrefl _)⟩
    rw [BitVec.toNat_or]
    exact Nat.or_lt_two_pow (hfits.2 h2) (by decide)
  have hstored := hzero.write_entry (Nat.le_refl _) hlt hw
  have hword := hw.wordOf
  rw [hlink] at hstored hword
  dsimp only at hstored hword
  have hwrite : pmapWrite (memZero mem p 4096) { m with curlevel := m.readlevel }
      (p ||| pdePBit) 0x1 = some (false,
        Function.update (memZero mem p 4096) (m.entryaddr m.readlevel)
          (wordOf (entryBits m.levels) (p ||| c)),
        { m with curlevel := m.readlevel
                 entry := Function.update m.entry m.readlevel (p ||| c) }) := by
    rw [pmapWrite, if_pos ⟨Nat.le_refl _, hlt⟩, hlink, wrEntry_eq]
    dsimp only
    rw [htype]
    rfl
  -- the read goes one level down, into the new page
  have hgo : (pmapTables m.levels).stops (r + 1) (p ||| c) = false := by
    rw [stops_eq_false_iff, linkEntry_and hp c (by decide), linkEntry_and hp c (by decide)]
    exact ⟨hpresent, fun _ => hps⟩
  have hnotroot : ¬ (m.levels = 3 ∧ m.readlevel = 3) := by omega
  have hnext : ∀ x, (entryAddrOf m.levels r (p ||| c) x - p).toNat < 4096 := by
    refine entryAddrOf_in_page hp ?_
    rw [← hr]
    exact linkEntry_and_tableMask hp hfits.1 hnotroot hc
  generalize hmem' : Function.update (memZero mem p 4096) (m.entryaddr m.readlevel)
    (wordOf (entryBits m.levels) (p ||| c)) = mem' at *
  have hnew : ∀ x, rdEntry m.levels mem' (entryAddrOf m.levels r (p ||| c) x) = 0 := by
    intro x
    have hne : entryAddrOf m.levels r (p ||| c) x ≠ m.entryaddr m.readlevel := by
      intro heq
      have hin := hnext x
      rw [heq] at hin
      exact hun _ (Nat.le_refl _) hlt hin
    rw [rdEntry_eq, pmapRd, ← hmem', Function.update_of_ne hne, memZero, if_pos (hnext x)]
    exact wordOf_entryBits fun _ => by decide
  have hinv : PmapInv root mem'
      { m with entry := Function.update m.entry m.readlevel (p ||| c) } :=
    ⟨h.levels, h.curlevel, h.present, hstored.coherent⟩
  have hself : Function.update m.entry m.readlevel (p ||| c) (r + 1) = p ||| c := by
    rw [hr, Function.update_self]
  obtain ⟨entry, entryaddr, hread, hinv', hzero, haddr, hkeep⟩ :=
    hinv.read_absent hr (show m.curlevel ≤ r by omega) (by rwa [← hself] at hgo) (by
      dsimp only
      rw [hself]
      exact hnew _)
  dsimp only at haddr
  rw [hself] at haddr
  refine ⟨mem', _, r, entry, entryaddr, hwrite, hread, hinv', hr, ?_, ?_, hkeep⟩
  · rw [hzero]
    exact BitVec.zero_and
  · rw [haddr]
    exact hnext _

/-- The loop of `pmap_autoalloc` with pages that the cached entries are not in. -/
theorem PmapInv.autoallocLoop {pages : List (BitVec 64)} (h : PmapInv root mem m)
    (htype : m.type = .vmm) (hcur : m.curlevel < m.readlevel)
    (habs : m.entry m.readlevel &&& pdePBit = 0) (hpages : AllocPages m.levels pages)
    (hun : ∀ p ∈ pages, UnusedBy m p) {mem' : TableMem} {m' : Pmap}
    (halloc : autoallocLoop pages mem m = some (mem', m')) :
    PmapInv root mem' m' ∧ m'.levels = m.levels := by
  induction pages generalizing mem m with
  | nil => cases halloc
  | cons p pages ih =>
    have hmem : p ∈ p :: pages := List.mem_cons_self
    obtain ⟨mem₁, m₁, r, entry, entryaddr, hwrite, hread, hinv, hr, hzero, hin, hkeep⟩ :=
      h.autoalloc_step htype hcur habs (hpages.aligned p hmem) (hpages.fits p hmem) (hun p hmem)
    rw [Vmm.autoallocLoop] at halloc
    dsimp only at halloc
    rw [hwrite, Option.bind_some] at halloc
    dsimp only at halloc
    rw [hread] at halloc
    dsimp only at halloc
    by_cases hdone : r ≤ m.curlevel
    · rw [if_pos hdone] at halloc
      cases halloc
      exact ⟨hinv, rfl⟩
    rw [if_neg hdone, if_neg (not_not.mpr hzero)] at halloc
    obtain ⟨hnot, hnodup⟩ := List.nodup_cons.mp hpages.nodup
    have hun' : ∀ q ∈ pages,
        UnusedBy { m with readlevel := r, entry := entry, entryaddr := entryaddr } q := by
      intro q hq l hl hl'
      have hq' := List.mem_cons_of_mem p hq
      dsimp only at hl hl' ⊢
      rcases Nat.eq_or_lt_of_le hl with rfl | hlt
      · exact not_in_both (hpages.aligned p hmem) (hpages.aligned q hq')
          (fun heq => hnot (heq ▸ hq)) hin
      · rw [hkeep l hlt]
        exact hun q hq' l (by omega) hl'
    exact ih (m := { m with readlevel := r, entry := entry, entryaddr := entryaddr }) hinv htype
      (Nat.lt_of_not_le hdone) hzero
      ⟨hnodup, fun q hq => hpages.aligned q (List.mem_cons_of_mem p hq),
        fun q hq => hpages.fits q (List.mem_cons_of_mem p hq)⟩ hun' halloc

/-- `pmap_autoalloc` with pages that are in no table of the walk so far. -/
theorem PmapInv.autoalloc {pages : List (BitVec 64)} (h : PmapInv root mem m)
    (hpages : AllocPages m.levels pages) (hun : ∀ p ∈ pages, UnusedBy (pmapRead mem m).2 p)
    {mem' : TableMem} {m' : Pmap} (halloc : pmapAutoalloc mem m pages = some (mem', m')) :
    PmapInv root mem' m' ∧ m'.levels = m.levels := by
  unfold pmapAutoalloc at halloc
  split_ifs at halloc with htype hle habs
  · cases halloc
    exact ⟨h, rfl⟩
  · have hsame : (pmapRead mem m).2 = m := by
      obtain ⟨n, hn⟩ : ∃ n, m.readlevel - m.curlevel = n + 1 :=
        ⟨m.readlevel - m.curlevel - 1, by omega⟩
      rw [pmapRead, hn, readLoop, if_pos habs]
    rw [hsame] at hun
    exact h.autoallocLoop (not_not.mp htype) (Nat.lt_of_not_le hle) habs hpages hun halloc
  · obtain ⟨hlevels, htype', hcur, -⟩ := readLoop_frame (m.readlevel - m.curlevel) m
    obtain ⟨-, hinv⟩ := h.read
    rw [← pmapRead] at hlevels htype' hcur
    rw [← hlevels] at hpages ⊢
    rw [not_not.mp htype] at htype'
    generalize (pmapRead mem m).2 = m₁ at *
    dsimp only at halloc
    split_ifs at halloc with hle' habs'
    · cases halloc
      exact ⟨hinv, rfl⟩
    · exact hinv.autoallocLoop htype' (Nat.lt_of_not_le hle') (not_not.mp habs') hpages hun halloc

end

end OnDemandVirt.Vmm
