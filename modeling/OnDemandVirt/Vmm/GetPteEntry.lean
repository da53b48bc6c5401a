import OnDemandVirt.Lib.X86Walk
import OnDemandVirt.Vmm.GetPte
import OnDemandVirt.Vmm.PmapCursor

/-!
# One entry of the guest's walk

What `get_pte_sub` does with one entry against what a processor does with it: the same bits are
tested, and the pmap expands the entry of a large page to the page of the address.
-/

namespace OnDemandVirt.Vmm

open Lib.X86

/-! ### Bits of an entry -/

variable {e x va : BitVec 64}

theorem and_pdePBit : e &&& pdePBit ≠ 0 ↔ present e = true :=
  and_bit_ne_zero_iff (by decide) (by decide)
theorem and_pdeRwBit : e &&& pdeRwBit ≠ 0 ↔ writable e = true :=
  and_bit_ne_zero_iff (by decide) (by decide)
theorem and_pdeUsBit : e &&& pdeUsBit ≠ 0 ↔ user e = true :=
  and_bit_ne_zero_iff (by decide) (by decide)
theorem and_pdePsBit : e &&& pdePsBit ≠ 0 ↔ large e = true :=
  and_bit_ne_zero_iff (by decide) (by decide)
theorem and_pdeNxBit : e &&& pdeNxBit ≠ 0 ↔ noExec e = true :=
  and_bit_ne_zero_iff (by decide) (by decide)

theorem getLsbD_bit {i k : Nat} (hi : i < 64) : (bits k k).getLsbD i = decide (i = k) := by
  rw [getLsbD_bits, decide_eq_decide]
  omega

/-- Choosing bits from two words by a mask. -/
theorem getLsbD_mix (a b : BitVec 64) {mask : BitVec 64} {lo hi : Nat} (hmask : mask = bits lo hi)
    {i : Nat} (hi' : i < 64) :
    ((a &&& ~~~mask) ||| (b &&& mask)).getLsbD i =
      if lo ≤ i ∧ i ≤ hi then b.getLsbD i else a.getLsbD i := by
  subst hmask
  rw [BitVec.getLsbD_or, BitVec.getLsbD_and, BitVec.getLsbD_and, BitVec.getLsbD_not, getLsbD_bits]
  split_ifs with h
  · simp [h, hi']
  · simp [h, hi']

/-- The bits of a 2MiB entry made from a 1GiB one. -/
theorem getLsbD_splitPdpe (va e : BitVec 64) {i : Nat} (hi : i < 64) :
    (splitPdpe va e).getLsbD i = if 21 ≤ i ∧ i ≤ 29 then va.getLsbD i else e.getLsbD i :=
  getLsbD_mix e va (by decide) hi

/-- Where a PTE has its PAT bit, a PDE of a large page has the page size bit. -/
def movePat (e : BitVec 64) : BitVec 64 :=
  if (e &&& ~~~pdePsBit) &&& pde4mPatBit ≠ 0 then
    ((e &&& ~~~pdePsBit) ||| ptePatBit.setWidth 64) &&& ~~~pde4mPatBit
  else e &&& ~~~pdePsBit

theorem getLsbD_movePat (e : BitVec 64) {i : Nat} (hi : i < 64) :
    (movePat e).getLsbD i =
      if i = 7 then e.getLsbD 12 else if i = 12 then false else e.getLsbD i := by
  have hps : pdePsBit = bits 7 7 := by decide
  have hpat : ptePatBit.setWidth 64 = bits 7 7 := by decide
  have hpat4 : pde4mPatBit = bits 12 12 := by decide
  have hcond : (e &&& ~~~pdePsBit) &&& pde4mPatBit ≠ 0 ↔ e.getLsbD 12 = true := by
    rw [show (0 : BitVec 64) = 0#64 from rfl, and_bit_ne_zero_iff (by decide) hpat4,
      BitVec.getLsbD_and, BitVec.getLsbD_not, hps, getLsbD_bits]
    simp
  unfold movePat
  by_cases h12 : e.getLsbD 12 = true
  · rw [if_pos (hcond.mpr h12), hps, hpat, hpat4, BitVec.getLsbD_and, BitVec.getLsbD_or,
      BitVec.getLsbD_and, BitVec.getLsbD_not, BitVec.getLsbD_not, getLsbD_bit hi, getLsbD_bit hi,
      h12]
    split_ifs with h7 h12'
    · rw [h7]
      generalize e.getLsbD 7 = b
      cases b <;> rfl
    · rw [h12']
      generalize e.getLsbD 12 = b
      cases b <;> rfl
    · rw [decide_eq_true hi, decide_eq_false h7, decide_eq_false h12']
      generalize e.getLsbD i = b
      cases b <;> rfl
  · rw [if_neg fun h => h12 (hcond.mp h), hps, BitVec.getLsbD_and, BitVec.getLsbD_not,
      getLsbD_bit hi]
    rw [Bool.not_eq_true] at h12
    split_ifs with h7 h12'
    · rw [h7, h12]
      exact Bool.and_false _
    · rw [h12', h12]
      rfl
    · rw [decide_eq_true hi, decide_eq_false h7]
      exact Bool.and_true _

/-- The bits of a 4KiB entry made from a 2MiB one. -/
theorem getLsbD_handlePdePsBit {levels : Nat} (hlevels : levels ≠ 2) (va e : BitVec 64) {i : Nat}
    (hi : i < 64) :
    (handlePdePsBit levels va e).getLsbD i =
      if 12 ≤ i ∧ i ≤ 20 then va.getLsbD i else if i = 7 then e.getLsbD 12 else e.getLsbD i := by
  have hmix : handlePdePsBit levels va e =
      (movePat e &&& ~~~0x1FF000#64) ||| (va &&& 0x1FF000#64) := if_neg hlevels
  rw [hmix, getLsbD_mix _ _ (show 0x1FF000#64 = bits 12 20 by decide) hi, getLsbD_movePat e hi]
  split_ifs <;> first | rfl | omega

/-- The bits of a 4KiB entry made from a 4MiB one: bits 20 to 13 are moved up. -/
theorem getLsbD_handlePdePsBit_two (va e : BitVec 64) {i : Nat} (hi : i < 64) :
    (handlePdePsBit 2 va e).getLsbD i =
      if 12 ≤ i ∧ i ≤ 21 then va.getLsbD i
      else if i = 7 then e.getLsbD 12
      else e.getLsbD i || (decide (32 ≤ i ∧ i ≤ 39) && e.getLsbD (i - 19)) := by
  have hmix : handlePdePsBit 2 va e =
      ((movePat e ||| (((movePat e &&& 0x1FE000#64) >>> (13 : Nat)) <<< (32 : Nat))) &&&
        ~~~0x3FF000#64) ||| (va &&& 0x3FF000#64) := rfl
  have hmask : (0x1FE000#64 : BitVec 64) = bits 13 20 := by decide
  rw [hmix, getLsbD_mix _ _ (show 0x3FF000#64 = bits 12 21 by decide) hi, BitVec.getLsbD_or,
    BitVec.getLsbD_shiftLeft, BitVec.getLsbD_ushiftRight, BitVec.getLsbD_and, hmask, getLsbD_bits,
    getLsbD_movePat e hi]
  split_ifs with h₁ h₂ h₃
  · rfl
  · subst h₂
    simp
  · omega
  · congr 1
    by_cases h32 : 32 ≤ i
    · have h19 : 13 + (i - 32) = i - 19 := by omega
      rw [h19, getLsbD_movePat e (by omega), if_neg (by omega), if_neg (by omega)]
      have hlt : ¬ i < 32 := by omega
      simp only [hi, hlt, decide_true, decide_false, Bool.not_false, Bool.true_and]
      rw [Bool.and_comm]
      congr 1
      rw [decide_eq_decide]
      omega
    · simp [h32]

/-! ### Reserved bits -/

/-- The data of `get_pte_sub` for a processor's mode and an access. -/
structure DataOf (c : Cpu) (acc : Lib.X86.Access) (d : GetPteData) : Prop where
  wp : d.wp = c.wp
  nxe : d.nxe = c.nxe
  write : d.write = acc.write
  user : d.user = acc.user
  exec : d.exec = acc.exec
  pse : d.pse = decide (c.mode ≠ .bits32 false)
  pae : d.pae = decide (c.mode = .pae ∨ c.mode = .ia32e)

/-- Entries that the code reads as a processor does: a 4MB page only where `CR4.PSE` allows one
and below the end of the memory that 36 bits and the processor address, bit 8 clear where the
table of reserved bits has it, and tables below 2 ^ 48. -/
structure EntryCovered (c : Cpu) (level : Nat) (e : BitVec 64) : Prop where
  pse : c.mode = .bits32 false → level = 2 → large e = false
  pse36 : ∀ pse, c.mode = .bits32 pse → level = 2 → large e = true →
    e &&& (bits (min c.maxphyaddr 36) 39 >>> 19) = 0#64
  bit8 : c.mode = .ia32e → level = 4 ∨ level = 3 ∧ large e = false → e.getLsbD 8 = false
  table : c.mode.leaf level e = false → e &&& bits 48 51 = 0#64

theorem getPteAddrMask_eq {n : Nat} (h : 32 ≤ n) (h' : n ≤ 52) :
    getPteAddrMask n = bits 12 (n - 1) := by
  interval_cases n <;> decide

/-- What the mask of address bits changes in a row of the table. -/
def addrFlip (n : Nat) : BitVec 64 := bits 12 (n - 1) ^^^ pteAddrMask64

theorem and_xor_of_and_eq_zero {f : BitVec 64} (h : e &&& f = 0#64) (m : BitVec 64) :
    e &&& (m ^^^ f) = e &&& m := by
  apply eq_of_bits
  intro i hi
  rw [BitVec.getLsbD_and, BitVec.getLsbD_and, BitVec.getLsbD_xor]
  cases he : e.getLsbD i with
  | false => rfl
  | true => rw [and_eq_zero_iff.mp h i hi he, Bool.xor_false]

section

variable {n : Nat} (h : 32 ≤ n) (h' : n ≤ 52) (nxe : Bool)

include h h'

theorem addrFlip_bits : addrFlip n = bits (min n 36) (max n 36 - 1) := by
  interval_cases n <;> decide

theorem row_pae_pdpte :
    reservedBitTable nxe 1 3 ^^^ addrFlip n = bits 1 2 ||| bits 5 8 ||| bits n 63 := by
  cases nxe <;> interval_cases n <;> decide

theorem row_pae_large :
    reservedBitTable nxe 1 0 ^^^ addrFlip n = bits n 62 ||| nxReserved nxe ||| bits 13 20 := by
  cases nxe <;> interval_cases n <;> decide

theorem row_pae {l : Nat} (hl : l = 1 ∨ l = 2) :
    reservedBitTable nxe 1 l ^^^ addrFlip n = bits n 62 ||| nxReserved nxe := by
  rcases hl with rfl | rfl <;> cases nxe <;> interval_cases n <;> decide

theorem row_pml4e : reservedBitTable nxe 2 4 ^^^ addrFlip n =
    (bits n 51 ||| nxReserved nxe ||| bits 7 7) ||| bits 8 8 := by
  cases nxe <;> interval_cases n <;> decide

theorem row_pdpe : reservedBitTable nxe 2 3 ^^^ addrFlip n =
    (bits n 51 ||| nxReserved nxe) ||| bits 8 8 := by
  cases nxe <;> interval_cases n <;> decide

theorem row_pdpe_large :
    reservedBitTable nxe 2 5 ^^^ addrFlip n = bits n 51 ||| nxReserved nxe ||| bits 13 29 := by
  cases nxe <;> interval_cases n <;> decide

theorem row_pde_large :
    reservedBitTable nxe 2 0 ^^^ addrFlip n = bits n 51 ||| nxReserved nxe ||| bits 13 20 := by
  cases nxe <;> interval_cases n <;> decide

theorem row_pde {l : Nat} (hl : l = 1 ∨ l = 2) :
    reservedBitTable nxe 2 l ^^^ addrFlip n = bits n 51 ||| nxReserved nxe := by
  rcases hl with rfl | rfl <;> cases nxe <;> interval_cases n <;> decide

omit nxe in
theorem and_addrFlip (hword : e &&& bits 0 31 = e) : e &&& addrFlip n = 0#64 := by
  refine and_eq_zero_iff.mpr fun i hi he => ?_
  rw [← hword, BitVec.getLsbD_and, Bool.and_eq_true, getLsbD_bits, decide_eq_true_eq] at he
  rw [addrFlip_bits h h', getLsbD_bits, decide_eq_false_iff_not]
  omega

/-- The assertion of `test_pmap_entry_reserved_bit` holds in every row that a level has. -/
theorem row_ne_ones {k l : Nat} (hl : k = 0 ∧ l ≤ 2 ∨ k = 1 ∧ l ≤ 3 ∨ k = 2 ∧ l ≤ 5) :
    reservedBitTable nxe k l ^^^ addrFlip n ≠ 0xFFFFFFFFFFFFFFFF := by
  rcases hl with ⟨rfl, hl⟩ | ⟨rfl, hl⟩ | ⟨rfl, hl⟩ <;> interval_cases l <;> cases nxe <;>
    interval_cases n <;> decide

end

variable {c : Cpu} {acc : Lib.X86.Access} {d : GetPteData}

theorem reservedLevel_small {level levels : Nat} (h : large e = false) :
    reservedLevel e level levels = level := by
  have hps : ¬ e &&& pdePsBit ≠ 0 := by
    rw [and_pdePsBit, h]
    exact Bool.false_ne_true
  unfold reservedLevel
  dsimp only
  rw [if_neg fun h => hps h.2.2, if_neg fun h => hps h.2]

theorem reservedLevel_large {level levels : Nat} (h : large e = true) :
    reservedLevel e level levels =
      if level = 2 then 0 else if level = 3 ∧ levels = 4 then 5 else level := by
  have hps : (e &&& pdePsBit ≠ 0) = True := eq_true (and_pdePsBit.2 h)
  simp only [reservedLevel, hps, and_true]
  by_cases h2 : level = 2
  · rw [if_pos h2, if_pos h2, if_neg fun h => absurd h.1 (by decide)]
  · rw [if_neg h2, if_neg h2]

section

variable (hM : 32 ≤ c.maxphyaddr ∧ c.maxphyaddr ≤ 52) (hd : DataOf c acc d)

include hM hd

/-- The test of an entry in a row of the table. -/
theorem testReserved_of_row {level levels l : Nat} (hpse : c.mode ≠ .bits32 false)
    (hrow : reservedLevel e level levels = l)
    (hl : levels - 2 = 0 ∧ l ≤ 2 ∨ levels - 2 = 1 ∧ l ≤ 3 ∨ levels - 2 = 2 ∧ l ≤ 5) :
    testPmapEntryReservedBit (getPteAddrMask c.maxphyaddr) e level levels d =
      some (e &&& (reservedBitTable c.nxe (levels - 2) l ^^^ addrFlip c.maxphyaddr) != 0) := by
  unfold testPmapEntryReservedBit
  dsimp only
  rw [hd.pse, decide_eq_true hpse, Bool.not_true, Bool.and_false, if_neg Bool.false_ne_true,
    getPteAddrMask_eq hM.1 hM.2, ← addrFlip, hrow, hd.nxe,
    if_neg (row_ne_ones hM.1 hM.2 c.nxe hl)]

theorem testReserved_pae (hmode : c.mode = .pae) {level : Nat} (h1 : 1 ≤ level) (hl : level ≤ 3) :
    testPmapEntryReservedBit (getPteAddrMask c.maxphyaddr) e level 3 d =
      some (e &&& c.reserved level e != 0) := by
  have htest : ∀ l, reservedLevel e level 3 = l → l ≤ 3 → ∀ mask,
      reservedBitTable c.nxe 1 l ^^^ addrFlip c.maxphyaddr = mask →
      testPmapEntryReservedBit (getPteAddrMask c.maxphyaddr) e level 3 d =
        some (e &&& mask != 0) := by
    rintro l hrow hl mask rfl
    exact testReserved_of_row hM hd (by rw [hmode]; nofun) hrow (Or.inr (Or.inl ⟨rfl, hl⟩))
  simp only [Cpu.reserved, hmode]
  by_cases h3 : level = 3
  · subst h3
    have hrow : reservedLevel e 3 3 = 3 := by
      cases hps : large e with
      | false => exact reservedLevel_small hps
      | true => exact reservedLevel_large hps
    rw [if_pos rfl]
    exact htest 3 hrow (Nat.le_refl _) _ (row_pae_pdpte hM.1 hM.2 c.nxe)
  rw [if_neg h3]
  by_cases hps : level = 2 ∧ large e = true
  · obtain ⟨rfl, hps⟩ := hps
    rw [if_pos ⟨rfl, hps⟩]
    exact htest 0 (reservedLevel_large hps) (by decide) _ (row_pae_large hM.1 hM.2 c.nxe)
  · have hrow : reservedLevel e level 3 = level := by
      cases hlarge : large e with
      | false => exact reservedLevel_small hlarge
      | true =>
        rw [reservedLevel_large hlarge, if_neg fun h => hps ⟨h, hlarge⟩, if_neg fun h => h3 h.1]
    rw [if_neg hps, BitVec.or_zero]
    exact htest level hrow hl _ (row_pae hM.1 hM.2 c.nxe (by omega))

theorem testReserved_ia32e (hmode : c.mode = .ia32e) {level : Nat} (h1 : 1 ≤ level)
    (hl : level ≤ 4) (hcov : EntryCovered c level e) :
    testPmapEntryReservedBit (getPteAddrMask c.maxphyaddr) e level 4 d =
      some (e &&& c.reserved level e != 0) := by
  have htest : ∀ l, reservedLevel e level 4 = l → l ≤ 5 → ∀ mask,
      reservedBitTable c.nxe 2 l ^^^ addrFlip c.maxphyaddr = mask →
      testPmapEntryReservedBit (getPteAddrMask c.maxphyaddr) e level 4 d =
        some (e &&& mask != 0) := by
    rintro l hrow hl mask rfl
    exact testReserved_of_row hM hd (by rw [hmode]; nofun) hrow (Or.inr (Or.inr ⟨rfl, hl⟩))
  -- bit 8 of the table's row is one that the entry does not have
  have hbit8 : e.getLsbD 8 = false → ∀ mask, e &&& (mask ||| bits 8 8) = e &&& mask := by
    intro h mask
    rw [BitVec.and_or_distrib_left]
    have hzero : e &&& bits 8 8 = 0#64 := by
      rw [← not_not (a := e &&& bits 8 8 = 0#64), ← ne_eq,
        and_bit_ne_zero_iff (by decide : 8 < 64) rfl, h]
      exact Bool.false_ne_true
    rw [hzero, BitVec.or_zero]
  simp only [Cpu.reserved, hmode]
  obtain rfl | rfl | rfl | rfl : level = 4 ∨ level = 3 ∨ level = 2 ∨ level = 1 := by omega
  · have hrow : reservedLevel e 4 4 = 4 := by
      cases hps : large e with
      | false => exact reservedLevel_small hps
      | true => exact reservedLevel_large hps
    rw [if_pos rfl, ← hbit8 (hcov.bit8 hmode (Or.inl rfl))]
    exact htest 4 hrow (by decide) _ (row_pml4e hM.1 hM.2 c.nxe)
  · rw [if_neg (by decide)]
    cases hps : large e with
    | false =>
      rw [if_neg (by decide), if_neg (by decide), BitVec.or_zero,
        ← hbit8 (hcov.bit8 hmode (Or.inr ⟨rfl, hps⟩))]
      exact htest 3 (reservedLevel_small hps) (by decide) _ (row_pdpe hM.1 hM.2 c.nxe)
    | true =>
      rw [if_pos ⟨rfl, rfl⟩]
      exact htest 5 (reservedLevel_large hps) (by decide) _ (row_pdpe_large hM.1 hM.2 c.nxe)
  · rw [if_neg (by decide), if_neg fun h => absurd h.1 (by decide)]
    cases hps : large e with
    | false =>
      rw [if_neg (by decide), BitVec.or_zero]
      exact htest 2 (reservedLevel_small hps) (by decide) _ (row_pde hM.1 hM.2 c.nxe (Or.inr rfl))
    | true =>
      rw [if_pos ⟨rfl, rfl⟩]
      exact htest 0 (reservedLevel_large hps) (by decide) _ (row_pde_large hM.1 hM.2 c.nxe)
  · have hrow : reservedLevel e 1 4 = 1 := by
      cases hps : large e with
      | false => exact reservedLevel_small hps
      | true => exact reservedLevel_large hps
    rw [if_neg (by decide), if_neg fun h => absurd h.1 (by decide),
      if_neg fun h => absurd h.1 (by decide), BitVec.or_zero]
    exact htest 1 hrow (by decide) _ (row_pde hM.1 hM.2 c.nxe (Or.inl rfl))

/-- In an entry of 32 bits only bit 21 of a 4MB page is tested. -/
theorem testReserved_bits32 {pse : Bool} (hmode : c.mode = .bits32 pse) {level : Nat}
    (h1 : 1 ≤ level) (hl : level ≤ 2) (hcov : EntryCovered c level e)
    (hword : e &&& bits 0 31 = e) :
    testPmapEntryReservedBit (getPteAddrMask c.maxphyaddr) e level 2 d =
      some (e &&& c.reserved level e != 0) := by
  cases pse with
  | false =>
    have hpae : d.pae = false := by
      rw [hd.pae, hmode]
      rfl
    have hpse : d.pse = false := by
      rw [hd.pse, hmode]
      rfl
    have hres : c.reserved level e = 0#64 := by
      simp [Cpu.reserved, hmode]
    unfold testPmapEntryReservedBit
    rw [hpae, hpse, hres, BitVec.and_zero]
    rfl
  | true =>
    have htest : ∀ l, reservedLevel e level 2 = l → l ≤ 2 →
        testPmapEntryReservedBit (getPteAddrMask c.maxphyaddr) e level 2 d =
          some (e &&& reservedBitTable c.nxe 0 l != 0) := by
      intro l hrow hl
      rw [testReserved_of_row hM hd (by rw [hmode]; nofun) hrow (Or.inl ⟨rfl, hl⟩),
        and_xor_of_and_eq_zero (and_addrFlip hM.1 hM.2 hword)]
    simp only [Cpu.reserved, hmode]
    by_cases hps : level = 2 ∧ large e = true
    · obtain ⟨rfl, hps⟩ := hps
      have htable : reservedBitTable c.nxe 0 0 = bits 21 21 := by cases c.nxe <;> decide
      have hhigh : e &&& (bits (min c.maxphyaddr 40) 39 >>> 19) = 0#64 := by
        have h36 := and_eq_zero_iff.mp (hcov.pse36 true hmode rfl hps)
        refine and_eq_zero_iff.mpr fun i hi he => ?_
        have hi36 := h36 i hi he
        rw [BitVec.getLsbD_ushiftRight, getLsbD_bits, decide_eq_false_iff_not] at hi36 ⊢
        omega
      rw [if_pos ⟨rfl, trivial, hps⟩, htest 0 (reservedLevel_large hps) (by decide), htable,
        BitVec.and_or_distrib_left, hhigh, BitVec.or_zero]
    · have hrow : reservedLevel e level 2 = level := by
        cases hlarge : large e with
        | false => exact reservedLevel_small hlarge
        | true =>
          rw [reservedLevel_large hlarge, if_neg fun h => hps ⟨h, hlarge⟩,
            if_neg fun h => absurd h.2 (by decide)]
      have htable : reservedBitTable c.nxe 0 level = 0#64 := by
        obtain rfl | rfl : level = 1 ∨ level = 2 := by omega
        · cases c.nxe <;> rfl
        · cases c.nxe <;> rfl
      rw [if_neg fun h => hps ⟨h.1, h.2.2⟩, htest level hrow hl, htable]

end

/-- `test_pmap_entry_reserved_bit` finds the bits that a processor finds. -/
theorem testReserved_eq (hM : 32 ≤ c.maxphyaddr ∧ c.maxphyaddr ≤ 52) (hd : DataOf c acc d)
    (hmode : c.mode ≠ .off) {level : Nat} (h1 : 1 ≤ level) (hl : level ≤ c.mode.levels)
    (hcov : EntryCovered c level e) (hword : c.mode.word e = e) :
    testPmapEntryReservedBit (getPteAddrMask c.maxphyaddr) e level c.mode.levels d =
      some (e &&& c.reserved level e != 0) := by
  cases hm : c.mode with
  | off => exact absurd hm hmode
  | bits32 pse =>
    rw [hm] at hl hword
    exact testReserved_bits32 hM hd hm h1 hl hcov hword
  | pae =>
    rw [hm] at hl
    exact testReserved_pae hM hd hm h1 hl
  | ia32e =>
    rw [hm] at hl
    exact testReserved_ia32e hM hd hm h1 hl hcov

/-! ### Where an entry is -/

theorem wordOf_32_eq (x : BitVec 64) : wordOf 32 x = x &&& bits 0 31 := by
  apply eq_of_bits
  intro i hi
  rw [wordOf, BitVec.getLsbD_setWidth, BitVec.getLsbD_setWidth, BitVec.getLsbD_and, getLsbD_bits,
    decide_eq_true hi, Bool.true_and, Bool.and_comm]
  congr 1
  rw [decide_eq_decide]
  omega

theorem entryBits_word {mode : Mode} (hmode : mode ≠ .off) (y : BitVec 64) :
    wordOf (entryBits mode.levels) y = mode.word y := by
  cases mode with
  | off => exact absurd rfl hmode
  | bits32 pse => exact wordOf_32_eq y
  | pae => exact wordOf_64 y
  | ia32e => exact wordOf_64 y

theorem rdEntry_word {mode : Mode} (hmode : mode ≠ .off) (mem : TableMem) (a : BitVec 64) :
    rdEntry mode.levels mem a = mode.word (mem a) := by
  rw [rdEntry_eq]
  exact entryBits_word hmode (mem a)

/-- The part of an address below the entries of a level. -/
def offsetMask (mode : Mode) (level : Nat) : BitVec 64 :=
  if mode = .pae ∧ level = 3 then bits 0 4 else bits 0 11

/-- The index of an entry of `w` bits, times its size. -/
theorem shift_and_index (va : BitVec 64) (s k hi : Nat) :
    (va >>> s) &&& bits k (k + hi) = ((va >>> (s + k)) &&& bits 0 hi) <<< k := by
  apply eq_of_bits
  intro i h
  rw [BitVec.getLsbD_and, BitVec.getLsbD_ushiftRight, getLsbD_bits, BitVec.getLsbD_shiftLeft,
    BitVec.getLsbD_and, BitVec.getLsbD_ushiftRight, getLsbD_bits, decide_eq_true h, Bool.true_and]
  rcases Nat.lt_or_ge i k with hlt | hge
  · rw [decide_eq_true hlt, decide_eq_false fun h => absurd h.1 (Nat.not_le.mpr hlt)]
    exact Bool.and_false _
  · rw [decide_eq_false (Nat.not_lt.mpr hge), show s + k + (i - k) = s + i by omega]
    simp only [Bool.not_false, Bool.true_and]
    congr 1
    rw [decide_eq_decide]
    omega

theorem offset_pae {level : Nat} (h : level ≠ 3) :
    Mode.pae.offset level va = ((va >>> (3 + 9 * level)) &&& bits 0 8) <<< 3 := by
  unfold Mode.offset
  split
  · contradiction
  · contradiction
  · rfl

theorem offset_eq {mode : Mode} (hmode : mode ≠ .off) {level : Nat} (h1 : 1 ≤ level)
    (hva : mode ≠ .ia32e → va &&& bits 32 63 = 0#64) :
    (if mode.levels = 2 then (va >>> (10 + 10 * (level - 1))) &&& 0xFFC
      else (va >>> (9 + 9 * (level - 1))) &&& 0xFF8) = mode.offset level va := by
  obtain ⟨l, rfl⟩ : ∃ l, level = l + 1 := ⟨level - 1, by omega⟩
  have hlong : (va >>> (9 + 9 * l)) &&& (0xFF8 : BitVec 64) =
      ((va >>> (3 + 9 * (l + 1))) &&& bits 0 8) <<< 3 := by
    rw [show (0xFF8 : BitVec 64) = bits 3 (3 + 8) by decide, shift_and_index]
    congr 3
    omega
  cases mode with
  | off => exact absurd rfl hmode
  | bits32 pse =>
    have hlevels : (Mode.bits32 pse).levels = 2 := rfl
    rw [if_pos hlevels, Nat.add_sub_cancel, show (0xFFC : BitVec 64) = bits 2 (2 + 9) by decide,
      shift_and_index]
    congr 3
    omega
  | ia32e => exact hlong
  | pae =>
    by_cases h3 : l = 2
    · subst h3
      refine hlong.trans ?_
      change _ = ((va >>> 30) &&& bits 0 1) <<< 3
      congr 1
      refine eq_of_bits fun i hi => ?_
      have hhigh := and_eq_zero_iff.mp (hva nofun)
      rw [BitVec.getLsbD_and, BitVec.getLsbD_and, BitVec.getLsbD_ushiftRight, getLsbD_bits,
        getLsbD_bits]
      cases hbit : va.getLsbD (30 + i) with
      | false => rfl
      | true =>
        rcases Nat.lt_or_ge (30 + i) 32 with hlt | hge
        · rw [Bool.true_and, Bool.true_and, decide_eq_decide]
          omega
        · rcases Nat.lt_or_ge (30 + i) 64 with hlt' | hge'
          · have hno := hhigh _ hlt' hbit
            rw [getLsbD_bits, decide_eq_false_iff_not] at hno
            omega
          · rw [BitVec.getLsbD_of_ge _ _ hge'] at hbit
            cases hbit
    · rw [offset_pae (by omega)]
      exact hlong

theorem index_and_mask (x : BitVec 64) (hi k : Nat) :
    ((x &&& bits 0 hi) <<< k) &&& bits 0 (k + hi) = (x &&& bits 0 hi) <<< k := by
  apply eq_of_bits
  intro i h
  rw [BitVec.getLsbD_and, BitVec.getLsbD_shiftLeft, BitVec.getLsbD_and, getLsbD_bits, getLsbD_bits]
  by_cases hin : k ≤ i ∧ i - k ≤ hi
  · rw [decide_eq_true (p := 0 ≤ i ∧ i ≤ k + hi ∧ i < 64) (by omega), Bool.and_true]
  · by_cases hk : i < k
    · rw [decide_eq_true hk]
      simp
    · rw [decide_eq_false (p := 0 ≤ i - k ∧ i - k ≤ hi ∧ i - k < 64) (by omega)]
      simp

theorem offset_and_offsetMask (mode : Mode) (level : Nat) (va : BitVec 64) :
    mode.offset level va &&& offsetMask mode level = mode.offset level va := by
  have hlong : ∀ x : BitVec 64, ((x &&& bits 0 8) <<< 3) &&& bits 0 11 = (x &&& bits 0 8) <<< 3 :=
    fun x => index_and_mask x 8 3
  unfold offsetMask
  cases mode with
  | off =>
    rw [if_neg nofun]
    exact hlong _
  | ia32e =>
    rw [if_neg nofun]
    exact hlong _
  | bits32 pse =>
    rw [if_neg nofun]
    exact index_and_mask _ 9 2
  | pae =>
    by_cases h3 : level = 3
    · subst h3
      rw [if_pos ⟨rfl, rfl⟩]
      exact index_and_mask _ 1 3
    · rw [offset_pae h3, if_neg fun h => h3 h.2]
      exact hlong _

/-- The pmap finds an entry where the processor does. -/
theorem entryAddrOf_eq {mode : Mode} (hmode : mode ≠ .off) {level : Nat} (h1 : 1 ≤ level)
    (hva : mode ≠ .ia32e → va &&& bits 32 63 = 0#64) {u table : BitVec 64}
    (hu : u &&& tableMask mode.levels level = table)
    (halign : table &&& offsetMask mode level = 0#64) :
    entryAddrOf mode.levels (level - 1) u va = table + mode.offset level va := by
  have hzero : table &&& mode.offset level va = 0#64 := by
    rw [← offset_and_offsetMask, BitVec.and_comm (mode.offset level va), ← BitVec.and_assoc,
      halign, BitVec.zero_and]
  rw [entryAddrOf, Nat.sub_add_cancel h1, hu, offset_eq hmode h1 hva,
    BitVec.add_eq_or_of_and_eq_zero _ _ hzero]

/-! ### Rights -/

theorem entryRefuses_cases (d : GetPteData) (e : BitVec 64) :
    entryRefuses d e = none ∨ entryRefuses d e = some .pageNotAccessible ∨
      entryRefuses d e = some .pageNotExecutable := by
  unfold entryRefuses
  split_ifs <;> simp

/-- An entry refuses an access that the rights above it allow when the rights under it do. -/
theorem entryRefuses_eq_none_iff (hd : DataOf c acc d) {p : Perm} (hp : p.refuses c acc = false) :
    entryRefuses d e = none ↔
      Perm.refuses ⟨p.rw && writable e, p.us && user e, p.nx || noExec e⟩ c acc = false := by
  have hrw : e &&& pdeRwBit = 0 ↔ writable e = false := by
    rw [← not_iff_not, ← ne_eq, and_pdeRwBit, Bool.not_eq_false]
  have hus : e &&& pdeUsBit = 0 ↔ user e = false := by
    rw [← not_iff_not, ← ne_eq, and_pdeUsBit, Bool.not_eq_false]
  simp only [entryRefuses, hrw, hus, and_pdeNxBit, hd.wp, hd.nxe, hd.write, hd.user, hd.exec]
  obtain ⟨rw_, us, nx⟩ := p
  unfold Perm.refuses at *
  dsimp only at *
  generalize writable e = w, user e = u, noExec e = x, acc.write = aw, acc.user = au,
    acc.exec = ax, c.wp = wp, c.nxe = nxe at *
  clear hrw hus
  grind

end OnDemandVirt.Vmm
