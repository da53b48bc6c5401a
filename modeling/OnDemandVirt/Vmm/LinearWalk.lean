import OnDemandVirt.Vmm.LinearAccess
import OnDemandVirt.Vmm.WalkAgain

/-!
# Translations of linear addresses

`get_pte` over the guest's memory: what it changes there, that all addresses of a page have one
translation, and when a translation is found again.
-/

namespace OnDemandVirt.Vmm.Linear

variable {g : Vcpu} {linear : BitVec 64} {wr : Bool} {mem μ : TableMem} {pte : BitVec 64}

/-- What `cpu_mmu_get_pte` makes of the registers. -/
def Vcpu.data (g : Vcpu) (wr : Bool) : GetPteData where
  pg := hasBit g.cr0 cr0PgBit
  wp := hasBit g.cr0 cr0WpBit
  pse := hasBit g.cr4 cr4PseBit
  pae := hasBit g.cr4 cr4PaeBit
  lme := hasBit g.efer msrIa32EferLmeBit
  nxe := hasBit g.efer msrIa32EferNxeBit
  write := wr
  user := false
  exec := false

theorem pagingLevels_data (g : Vcpu) (wr : Bool) : (pagingLevels (g.data wr)).1 = g.levels := by
  unfold pagingLevels Vcpu.levels Vcpu.data
  dsimp only
  split_ifs <;> rfl

theorem walkData (g : Vcpu) (wr : Bool) :
    WalkData g.pteAddrMask (pagingLevels (g.data wr)).2 g.levels := by
  rw [← pagingLevels_data g wr]
  exact walkData_pagingLevels _ _

/-- The walk of `get_pte`. -/
def Vcpu.walk (g : Vcpu) (linear : BitVec 64) (wr : Bool) (mem : TableMem) :
    Option (TableMem × Except Vmmerr (BitVec 64)) :=
  walkBelow g.pteAddrMask (pagingLevels (g.data wr)).2 g.levels linear g.levels mem g.levels
    (rootEntry g.levels g.cr3) 0

/-- Without paging, the entry that is made. -/
def Vcpu.flat (g : Vcpu) (linear : BitVec 64) : BitVec 64 :=
  (linear &&& g.pteAddrMask) ||| pdePBit ||| pdeRwBit ||| pdeUsBit ||| pdeABit ||| pdeDBit

theorem getPte_off (hpg : hasBit g.cr0 cr0PgBit = false) :
    getPte g linear wr mem = (.ok (g.flat linear), mem) := by
  unfold getPte cpuMmuGetPte getPteSub
  rw [hpg, Bool.not_false, if_pos rfl]
  rfl

theorem getPte_on (hpg : hasBit g.cr0 cr0PgBit = true) :
    getPte g linear wr mem =
      match g.walk linear wr mem with
      | none => (.error .panic, mem)
      | some (μ, .ok pte) => (.ok pte, μ)
      | some (μ, .error err) => (.error (.err err), μ) := by
  have hsub : cpuMmuGetPte g.pteAddrMask (g.tries + 1) mem g.pmap linear g.cr0 g.cr3 g.cr4 g.efer wr
      false false g.entries = (getPteLoop g.pteAddrMask (pagingLevels (g.data wr)).2 g.levels
        (g.tries + 1) g.levels mem (openedAt g.pmap g.cr3 linear g.levels)
        (Function.update g.entries g.levels
          (rootEntry g.levels g.cr3 ||| (pdeRwBit ||| pdeUsBit ||| pdeABit)))).map
        fun q => (q.1, q.2.1, q.2.2, g.levels) :=
    getPteSub_on (d := g.data wr) hpg (pagingLevels_data g wr) _ _
  have htwo := (walkData g wr).two_le
  have hloop : LoopEnds _ (g.walk linear wr mem) :=
    (cursorAt_openedAt g.pmap g.cr3 linear g.levels).loop g.tries
      (Function.update g.entries g.levels
        (rootEntry g.levels g.cr3 ||| (pdeRwBit ||| pdeUsBit ||| pdeABit)))
      (fun k hk => ⟨by omega, fun _ => hk.symm⟩) (fun h => by omega)
  rw [getPte, hsub]
  rcases hwalk : g.walk linear wr mem with _ | ⟨μ, err | pte⟩ <;> rw [hwalk] at hloop
  · rw [hloop]
    rfl
  · obtain ⟨hne, entries, hcode⟩ := hloop
    rw [hcode]
    cases err <;> first | rfl | exact absurd rfl hne
  · obtain ⟨entries, hcode, rfl⟩ := hloop
    rw [hcode]
    rfl

theorem getPte_eq_ok_iff (hpg : hasBit g.cr0 cr0PgBit = true) :
    getPte g linear wr mem = (.ok pte, μ) ↔ g.walk linear wr mem = some (μ, .ok pte) := by
  rw [getPte_on hpg]
  rcases g.walk linear wr mem with _ | ⟨μ', err | pte'⟩ <;> grind

/-- A walk changes nothing but marks, and an entry of a large page where there are none. -/
theorem getPte_touched (g : Vcpu) (linear : BitVec 64) (wr : Bool) (mem : TableMem) :
    Words g.levels TouchedFrom mem (getPte g linear wr mem).2 := by
  cases hpg : hasBit g.cr0 cr0PgBit with
  | false =>
    rw [getPte_off hpg]
    exact fun _ => .refl _
  | true =>
    rw [getPte_on hpg]
    rcases hwalk : g.walk linear wr mem with _ | ⟨μ, err | pte⟩
    · exact fun _ => .refl _
    · exact walkBelow_touched (walkData g wr) hwalk
    · exact walkBelow_touched (walkData g wr) hwalk

theorem pteAddrMask_page (g : Vcpu) : ~~~0xFFF#64 &&& g.pteAddrMask = g.pteAddrMask := by
  unfold Vcpu.pteAddrMask getPteAddrMask
  dsimp only
  rw [BitVec.not_or, ← BitVec.and_assoc, BitVec.and_self]

/-- Addresses in one page have the same translation. -/
theorem getPte_samePage {x y : BitVec 64} (h : SamePage x y) (wr : Bool) :
    getPte g x wr = getPte g y wr := by
  funext mem
  cases hpg : hasBit g.cr0 cr0PgBit with
  | false => rw [getPte_off hpg, getPte_off hpg, Vcpu.flat, Vcpu.flat, h.and_eq (pteAddrMask_page g)]
  | true =>
    have hwalk : g.walk x wr mem = g.walk y wr mem :=
      walkBelow_samePage h (walkData g wr).le_four (Nat.le_refl _)
    rw [getPte_on hpg, getPte_on hpg, hwalk]

/-- In PAE paging, the entry that a walk starts with. -/
def Vcpu.pdpteAddr (g : Vcpu) (linear : BitVec 64) : BitVec 64 :=
  entryAddrOf 3 2 (rootEntry 3 g.cr3) linear

/-- The walk has not marked the PDPTE that it started with. -/
def PdpteKept (g : Vcpu) (linear : BitVec 64) (mem μ : TableMem) : Prop :=
  hasBit g.cr0 cr0PgBit = true → g.levels = 3 →
    rdEntry 3 μ (g.pdpteAddr linear) = rdEntry 3 mem (g.pdpteAddr linear)

theorem stops_root (g : Vcpu) : (pmapTables g.levels).stops g.levels (rootEntry g.levels g.cr3) =
    false := by
  have h0 : (rootEntry g.levels g.cr3).getLsbD 0 = true := by
    rw [getLsbD_rootEntry _ _ (by decide)]
    rfl
  rw [stops_eq_false_iff]
  refine ⟨and_pdePBit.mpr h0, fun hl => ?_⟩
  by_contra hne
  have h7 := and_pdePsBit.mp hne
  rw [Lib.X86.large, getLsbD_rootEntry _ _ (by decide)] at h7
  have h3 : g.levels ≠ 3 := by omega
  simp [h3] at h7

/-- The second translation of an address finds what the first one found, and marks nothing. -/
theorem getPte_again (h : getPte g linear wr mem = (.ok pte, μ)) (hkept : PdpteKept g linear mem μ) :
    ∃ pte', getPte g linear wr μ = (.ok pte', μ) ∧ ∀ a, g.phys pte' a = g.phys pte a := by
  cases hpg : hasBit g.cr0 cr0PgBit with
  | false =>
    rw [getPte_off hpg] at h
    cases h
    exact ⟨_, getPte_off hpg, fun _ => rfl⟩
  | true =>
    have hwalk := (getPte_eq_ok_iff hpg).mp h
    obtain ⟨pte', hagain, hpte⟩ := walkBelow_again (walkData g wr) hwalk (Nat.le_refl _)
      (fun k hk => ⟨by omega, fun _ => hk.symm⟩) (Nat.le_refl _) (.refl _) (fun _ => rfl) (.refl _)
      fun hl _ => by
        have hkept := hkept hpg hl
        rw [hl]
        exact hkept
    refine ⟨pte', (getPte_eq_ok_iff hpg).mpr hagain, fun a => ?_⟩
    rw [Vcpu.phys, Vcpu.phys, hpte.and_eq (walkData g wr).low.1 (walkData g wr).low.2]

/-- Where the first walk marked its own PDPTE, the second one is refused. -/
theorem getPte_refused (h : getPte g linear wr mem = (.ok pte, μ))
    (hkept : ¬ PdpteKept g linear mem μ) :
    getPte g linear wr μ = (.error (.err .pageBadReservedBit), μ) := by
  unfold PdpteKept at hkept
  push Not at hkept
  obtain ⟨hpg, hl, hne⟩ := hkept
  have hwalk := (getPte_eq_ok_iff hpg).mp h
  have hstop := stops_root g
  have w := walkData g wr
  unfold Vcpu.walk at hwalk
  rw [hl] at hwalk hstop w
  have hagain : g.walk linear wr μ = some (μ, .error .pageBadReservedBit) := by
    unfold Vcpu.walk
    rw [hl]
    exact walkBelow_pdpte w rfl hwalk hstop hne
  rw [getPte_on hpg, hagain]

end OnDemandVirt.Vmm.Linear
