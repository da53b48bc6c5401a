import OnDemandVirt.Lib.RadixTables
import Mathlib.Data.BitVec

/-!
# Tables of the DMA remapping units

The part of `iommu.c` that builds the tables: page tables of a domain, one page at a time, and the
root and context entries that lead a device's requests to a domain. Pages are named by their
numbers. `alloc_page` always has another page, and no two calls get the same one.
-/

namespace OnDemandVirt.Iommu

open Lib

/-- `PERM_DMA_NO` to `PERM_DMA_RW`. -/
inductive Perm
  | no
  | ro
  | wo
  | rw
  deriving DecidableEq

/-- `PERM_DMA_RO` is set in it. -/
def Perm.read : Perm → Bool
  | .ro | .rw => true
  | .no | .wo => false

/-- `PERM_DMA_WO` is set in it. -/
def Perm.write : Perm → Bool
  | .wo | .rw => true
  | .no | .ro => false

/-- `struct iopt_entry`. -/
structure IoptEntry where
  r : Bool
  w : Bool
  sp : Bool
  addr : Nat
  deriving DecidableEq

/-- `struct root_entry`. -/
structure RootEntry where
  p : Bool
  ctp : Nat

/-- `struct context_entry`. -/
structure ContextEntry where
  p : Bool
  fpd : Bool
  t : Nat
  asr : Nat
  aw : Nat
  did : Nat

def IoptEntry.zero : IoptEntry := ⟨false, false, false, 0⟩
def RootEntry.zero : RootEntry := ⟨false, 0⟩
def ContextEntry.zero : ContextEntry := ⟨false, false, 0, 0, 0, 0⟩

/-- `set_pte_addr`. -/
def setPteAddr (e : IoptEntry) (addr : Nat) : IoptEntry := { e with addr := addr }

/-- `set_pte_perm`. -/
def setPtePerm (e : IoptEntry) (perm : Perm) : IoptEntry :=
  { e with r := perm.read, w := perm.write }

/-- `IOPT_LEVEL_STRIDE`. -/
abbrev ioptLevelStride : Nat := 9

/-- The entries of a page table. -/
abbrev ioptEntries : Nat := 2 ^ ioptLevelStride

/-- `iopt_level_offset`, by the page number in `addr`. -/
def ioptLevelOffset (gfn level : Nat) : Nat :=
  gfn / 2 ^ ((level - 1) * ioptLevelStride) % ioptEntries

/-- Page tables, as trees that grow on demand. -/
def ioptFormat : Radix.Format IoptEntry where
  fanout := ioptEntries
  fanout_pos := by decide
  zero := .zero
  link e p := setPtePerm (setPteAddr e p) .rw
  child e := if e.addr = 0 then none else some e.addr
  child_zero := rfl
  child_link _ _ hp := if_neg hp

/-- The memory of the tables, `root_entry` of each unit and `pgd` of each domain. -/
structure Tables where
  iopt : Radix.Store IoptEntry
  roots : Nat → BitVec 8 → RootEntry
  contexts : Nat → BitVec 8 → ContextEntry
  rootEntry : Nat → Option Nat
  pgd : Nat → Option Nat

section

variable (σ : Radix.Supply)

/-- A page for a page table, filled with zeros. -/
def allocIopt (s : Radix.Store IoptEntry) : Nat × Radix.Store IoptEntry :=
  (σ.page s.next, s.alloc ioptFormat σ)

/-- The loop of `buildup_iopt` from level `n + 1` on: the page of the table of level 1. -/
def buildupLoop (gfn : Nat) : (n parent : Nat) → Radix.Store IoptEntry →
    Nat × Radix.Store IoptEntry
  | 0, parent, s => (parent, s)
  | n + 1, parent, s =>
    let offset := ioptLevelOffset gfn (n + 2)
    let pte := s.mem parent offset
    if pte.addr = 0 then
      let (page, s) := allocIopt σ s
      buildupLoop gfn n page (s.set parent offset (setPtePerm (setPteAddr pte page) .rw))
    else buildupLoop gfn n pte.addr s

/-- The domain's `pgd`, which is allocated where there is none. -/
def domainPgd (s : Tables) (dom : Nat) : Nat × Tables :=
  match s.pgd dom with
  | some page => (page, s)
  | none =>
    let (page, iopt) := allocIopt σ s.iopt
    (page, { s with iopt := iopt, pgd := Function.update s.pgd dom (some page) })

variable (agaw : Nat)

/-- `buildup_iopt`, by the page number in `addr`. -/
def buildupIopt (s : Tables) (dom gfn : Nat) : Nat × Tables :=
  let level := agaw + 2
  let (pgd, s) := domainPgd σ s dom
  let (page, iopt) := buildupLoop σ (gfn % 2 ^ (level * ioptLevelStride)) (agaw + 1) pgd s.iopt
  (page, { s with iopt := iopt })

/-- `dmar_map_page`. -/
def dmarMapPage (s : Tables) (dom gfn : Nat) (perm : Perm) : Tables :=
  let (page, s) := buildupIopt σ agaw s dom gfn
  let offset := gfn % ioptEntries
  let pte := s.iopt.mem page offset
  { s with iopt := s.iopt.set page offset (setPtePerm (setPteAddr pte gfn) perm) }

/-- `devid_to_context`: the page of the unit's context entries for a bus. -/
def devidToContext (s : Tables) (rootPage : Nat) (bus : BitVec 8) : Nat × Tables :=
  if (s.roots rootPage bus).p then ((s.roots rootPage bus).ctp, s)
  else
    let page := σ.page s.iopt.next
    (page, { s with
      iopt := { s.iopt with next := s.iopt.next + 1 }
      contexts := Function.update s.contexts page fun _ => .zero
      roots := Function.update s.roots rootPage
        (Function.update (s.roots rootPage) bus { p := true, ctp := page }) })

/-- `reg_context_entry`, `none` where the unit has no root entries. -/
def regContextEntry (s : Tables) (dom unit : Nat) (bus devfn : BitVec 8) : Option Tables :=
  (s.rootEntry unit).map fun rootPage =>
    let (page, s) := devidToContext σ s rootPage bus
    if (s.contexts page devfn).p then s
    else
      let (pgd, s) := domainPgd σ s dom
      { s with
        contexts := Function.update s.contexts page (Function.update (s.contexts page) devfn
          { p := true, fpd := false, t := 0, asr := pgd, aw := agaw % 8, did := dom % 2 ^ 16 }) }

/-- `gcmd_srtp` for a unit that has no root entries yet. -/
def gcmdSrtp (s : Tables) (unit : Nat) : Tables :=
  match s.rootEntry unit with
  | some _ => s
  | none =>
    let page := σ.page s.iopt.next
    { s with
      iopt := { s.iopt with next := s.iopt.next + 1 }
      roots := Function.update s.roots page fun _ => .zero
      rootEntry := Function.update s.rootEntry unit (some page) }

end

/-! ### The walk of a unit -/

/-- From a table of level `n + 1` on, with what the levels above grant: the page, and whether it
may be read and written. `none` is a fault. -/
def walkIopt (mem : Nat → Nat → IoptEntry) (f : Nat) :
    (n page : Nat) → (r w : Bool) → Option (Nat × Bool × Bool)
  | n, page, r, w =>
    let e := mem page (ioptLevelOffset f (n + 1))
    if !(r && e.r) && !(w && e.w) then none
    else
      match n with
      | 0 => some (e.addr, r && e.r, w && e.w)
      | n + 1 =>
        if e.sp then
          some (e.addr / ioptEntries ^ (n + 1) * ioptEntries ^ (n + 1) + f % ioptEntries ^ (n + 1),
            r && e.r, w && e.w)
        else walkIopt mem f n e.addr (r && e.r) (w && e.w)

/-- What a request of a device to the frame `f` is translated to by its unit. -/
def vtdWalk (s : Tables) (unit : Nat) (bus devfn : BitVec 8) (f : Nat) :
    Option (Nat × Bool × Bool) :=
  (s.rootEntry unit).bind fun rootPage =>
    let root := s.roots rootPage bus
    if !root.p then none
    else
      let context := s.contexts root.ctp devfn
      -- only pages of the width of the context entry, by the tables it points to
      if !context.p || context.t ≠ 0 || ioptEntries ^ (context.aw + 2) ≤ f then none
      else walkIopt s.iopt.mem f (context.aw + 1) context.asr true true

/-! ### The trees of the domains -/

variable {σ : Radix.Supply} {agaw dom gfn f n page unit : Nat} {s : Tables} {perm : Perm}
  {tbl : Radix.Node Nat → Option Nat} {leaf : Nat × Nat → IoptEntry}

theorem ioptLevelOffset_eq (gfn n : Nat) :
    ioptLevelOffset gfn (n + 1) = gfn / ioptFormat.fanout ^ n % ioptFormat.fanout := by
  rw [ioptLevelOffset, Nat.add_sub_cancel, Nat.mul_comm, Nat.pow_mul]
  rfl

/-- The last levels of a page number are the same in what is left of it within the width. -/
theorem mod_width (gfn agaw : Nat) :
    gfn % ioptEntries ^ (agaw + 2) % ioptEntries = gfn % ioptEntries := by
  refine Nat.mod_mod_of_dvd gfn ⟨ioptEntries ^ (agaw + 1), ?_⟩
  rw [Nat.pow_succ, Nat.mul_comm]

theorem pow_width (agaw : Nat) :
    2 ^ ((agaw + 2) * ioptLevelStride) = ioptEntries ^ (agaw + 2) := by
  rw [Nat.mul_comm, Nat.pow_mul]

theorem buildupLoop_eq (σ : Radix.Supply) (gfn n parent : Nat) (s : Radix.Store IoptEntry) :
    buildupLoop σ gfn n parent s = Radix.build ioptFormat σ gfn n parent s := by
  induction n generalizing parent s with
  | zero => rfl
  | succ n ih =>
    rw [buildupLoop, Radix.build, ioptLevelOffset_eq]
    dsimp only
    by_cases hzero : (s.mem parent (gfn / ioptFormat.fanout ^ (n + 1) % ioptFormat.fanout)).addr = 0
    · rw [if_pos hzero, show ioptFormat.child _ = none from if_pos hzero, ih]
      rfl
    · rw [if_neg hzero, show ioptFormat.child _ = some _ from if_neg hzero, ih]

/-- The page tables of the domains are trees below their `pgd`. -/
structure Tree (σ : Radix.Supply) (agaw : Nat) (tbl : Radix.Node Nat → Option Nat)
    (leaf : Nat × Nat → IoptEntry) (s : Tables) : Prop where
  shape : Radix.Shape ioptFormat σ (agaw + 2) tbl leaf s.iopt
  pgd : ∀ dom, tbl (dom, agaw + 2, 0) = s.pgd dom

/-- The entry that `dmar_map_page` leaves for a frame. -/
def mapped (e : IoptEntry) (gfn : Nat) (perm : Perm) : IoptEntry :=
  setPtePerm (setPteAddr e gfn) perm

/-- What an entry of level 1 lets through. -/
def IoptEntry.grants (e : IoptEntry) : Option (Nat × Bool × Bool) :=
  if !e.r && !e.w then none else some (e.addr, e.r, e.w)

/-- The frame `f` itself, with the permission `perm`. -/
def granted (perm : Perm) (f : Nat) : Option (Nat × Bool × Bool) :=
  if perm = .no then none else some (f, perm.read, perm.write)

theorem grants_mapped (e : IoptEntry) (gfn : Nat) (perm : Perm) :
    (mapped e gfn perm).grants = granted perm gfn := by
  cases perm <;> rfl

@[simp] theorem grants_zero : IoptEntry.zero.grants = none := rfl

theorem Tree.domainPgd (h : Tree σ agaw tbl leaf s) (dom : Nat) :
    ∃ tbl', Tree σ agaw tbl' leaf (domainPgd σ s dom).2 ∧
      (domainPgd σ s dom).2.pgd dom = some (domainPgd σ s dom).1 := by
  rw [Iommu.domainPgd]
  cases hpgd : s.pgd dom with
  | some page => exact ⟨tbl, h, hpgd⟩
  | none =>
    rw [← h.pgd dom] at hpgd
    refine ⟨Function.update tbl (dom, agaw + 2, 0) (some (σ.page s.iopt.next)),
      ⟨h.shape.addRoot (by omega) hpgd, fun dom' => ?_⟩, Function.update_self _ _ _⟩
    dsimp only
    by_cases hdom : dom' = dom
    · rw [hdom, Function.update_self, Function.update_self]
      rfl
    · rw [Function.update_of_ne hdom, ← h.pgd dom', Function.update_of_ne]
      simp only [ne_eq, Prod.mk.injEq]
      omega

/-- One page more in the tree of its domain. -/
theorem Tree.map (h : Tree σ agaw tbl leaf s) (dom gfn : Nat) (perm : Perm) :
    ∃ tbl', Tree σ agaw tbl'
      (Function.update leaf (dom, gfn % ioptEntries ^ (agaw + 2))
        (mapped (leaf (dom, gfn % ioptEntries ^ (agaw + 2))) gfn perm))
      (dmarMapPage σ agaw s dom gfn perm) := by
  obtain ⟨tbl', htree, hpgd⟩ := h.domainPgd dom
  rw [← htree.pgd dom] at hpgd
  rw [dmarMapPage, buildupIopt]
  dsimp only
  rw [buildupLoop_eq, pow_width, ← mod_width gfn agaw]
  generalize hkey : gfn % ioptEntries ^ (agaw + 2) = key
  have hlt : key < ioptEntries ^ (agaw + 2) := by
    rw [← hkey]
    exact Nat.mod_lt _ (Nat.pow_pos (by decide))
  have hroot : key / ioptFormat.fanout ^ (agaw + 1 + 1) = 0 := Nat.div_eq_of_lt hlt
  rw [← hroot] at hpgd
  obtain ⟨tbl'', hshape, hroots, hleaf⟩ := htree.shape.build hpgd (Nat.le_refl _)
  have hpte := hshape.leaves hleaf (key % ioptEntries) (Nat.mod_lt _ (by decide))
  rw [show ioptFormat.fanout * (key / ioptFormat.fanout) + key % ioptEntries = key
    from Nat.div_add_mod _ _] at hpte
  rw [hpte]
  refine ⟨tbl'', hshape.setLeaf hleaf _, fun dom' => ?_⟩
  rw [hroots]
  exact htree.pgd dom'

@[simp] theorem dmarMapPage_pgd (s : Tables) (dom gfn : Nat) (perm : Perm) :
    (dmarMapPage σ agaw s dom gfn perm).pgd = (Iommu.domainPgd σ s dom).2.pgd := rfl

@[simp] theorem domainPgd_rootEntry (s : Tables) (dom : Nat) :
    (domainPgd σ s dom).2.rootEntry = s.rootEntry := by
  rw [domainPgd]
  cases s.pgd dom <;> rfl

@[simp] theorem dmarMapPage_rootEntry (s : Tables) (dom gfn : Nat) (perm : Perm) :
    (dmarMapPage σ agaw s dom gfn perm).rootEntry = s.rootEntry :=
  domainPgd_rootEntry s dom

theorem domainPgd_ne_none (s : Tables) (dom : Nat) : (domainPgd σ s dom).2.pgd dom ≠ none := by
  rw [domainPgd]
  cases hpgd : s.pgd dom with
  | some page =>
    dsimp only
    rw [hpgd]
    exact Option.some_ne_none page
  | none =>
    dsimp only
    rw [Function.update_self]
    exact Option.some_ne_none _

theorem domainPgd_keeps {dom' : Nat} (h : s.pgd dom' ≠ none) (dom : Nat) :
    (domainPgd σ s dom).2.pgd dom' ≠ none := by
  by_cases hdom : dom' = dom
  · rw [hdom]
    exact domainPgd_ne_none s dom
  · rw [domainPgd]
    cases hpgd : s.pgd dom with
    | some page => exact h
    | none =>
      dsimp only
      rwa [Function.update_of_ne hdom]

/-! ### What the walk finds -/

theorem walkIopt_eq (h : Radix.Shape ioptFormat σ (agaw + 2) tbl leaf s.iopt)
    (hp : tbl (dom, n + 1, f / ioptEntries ^ (n + 1)) = some page) (hn : n + 1 ≤ agaw + 2) :
    walkIopt s.iopt.mem f n page true true = (leaf (dom, f)).grants := by
  have hlt (n : Nat) : f / ioptFormat.fanout ^ n % ioptFormat.fanout < ioptFormat.fanout :=
    Nat.mod_lt _ ioptFormat.fanout_pos
  induction n generalizing page with
  | zero =>
    rw [Nat.pow_one] at hp
    have hpte : s.iopt.mem page (ioptLevelOffset f 1) = leaf (dom, f) := by
      rw [ioptLevelOffset_eq, h.leaves hp _ (hlt 0), Nat.pow_zero, Nat.div_one]
      exact congrArg (fun f => leaf (dom, f)) (Nat.div_add_mod _ _)
    rw [walkIopt, hpte, IoptEntry.grants, Bool.true_and, Bool.true_and]
  | succ n ih =>
    have hpte : s.iopt.mem page (ioptLevelOffset f (n + 2)) =
        ioptFormat.entry (tbl (dom, n + 1, f / ioptEntries ^ (n + 1))) := by
      rw [ioptLevelOffset_eq, h.inner hp _ (hlt (n + 1))]
      refine congrArg (fun k => ioptFormat.entry (tbl (dom, n + 1, k))) ?_
      rw [Nat.pow_succ, ← Nat.div_div_eq_div_mul]
      exact Nat.div_add_mod _ _
    rw [walkIopt, hpte]
    cases hchild : tbl (dom, n + 1, f / ioptEntries ^ (n + 1)) with
    | none =>
      -- what is missing on the way down is missing because nothing is below
      have hleaf : leaf (dom, f) = IoptEntry.zero := by
        by_contra hne
        exact h.ne_none_of_leaf hne (by omega) hchild
      rw [hleaf]
      rfl
    | some page' => exact ih hchild (by omega)

end OnDemandVirt.Iommu
