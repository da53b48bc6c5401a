import OnDemandVirt.Iommu.Setup
import OnDemandVirt.Iommu.Contexts

/-!
# The translation that is set up

Frames are mapped in ascending order, so that an entry of a table stays as the last frame left it
whose number has its digits (`lastBelow`). What a device reaches is given by its own registrations
(`translation`), whatever is registered for others, and `setup_spec` says when there is a setup.
-/

namespace OnDemandVirt.Iommu

open Lib

/-- The last number below `n` that leaves the remainder `x`. -/
def lastBelow (M x : Nat) : Nat → Option Nat
  | 0 => none
  | n + 1 => if n % M = x then some n else lastBelow M x n

theorem lastBelow_eq_some {M x y n : Nat} (hy : y % M = x) (hlt : y < n)
    (hlast : ∀ z, y < z → z < n → z % M ≠ x) : lastBelow M x n = some y := by
  induction n with
  | zero => omega
  | succ n ih =>
    rw [lastBelow]
    by_cases hn : y = n
    · rw [if_pos (by rw [← hn, hy]), hn]
    · rw [if_neg (hlast n (by omega) (Nat.lt_succ_self n))]
      exact ih (by omega) fun z hz hzn => hlast z hz (by omega)

theorem lastBelow_spec {M x y n : Nat} (h : lastBelow M x n = some y) :
    y % M = x ∧ y < n ∧ ∀ z, y < z → z < n → z % M ≠ x := by
  induction n with
  | zero => cases h
  | succ n ih =>
    rw [lastBelow] at h
    by_cases hn : n % M = x
    · rw [if_pos hn] at h
      cases h
      exact ⟨hn, Nat.lt_succ_self _, fun z hz hzn => by omega⟩
    · rw [if_neg hn] at h
      obtain ⟨hy, hlt, hlast⟩ := ih h
      refine ⟨hy, Nat.lt_succ_of_lt hlt, fun z hz hzn => ?_⟩
      by_cases hzn' : z = n
      · rwa [hzn']
      · exact hlast z hz (by omega)

/-- What the entry for `x` lets through after the frames below `n` were mapped. -/
def through (perm : Nat → Perm) (M n x : Nat) : Option (Nat × Bool × Bool) :=
  (lastBelow M x n).bind fun y => granted (perm y) y

variable {σ : Radix.Supply} {agaw dom n : Nat} {s : Tables} {perm : Nat → Perm}
  {tbl : Radix.Node Nat → Option Nat} {leaf : Nat × Nat → IoptEntry}

/-- The frames of a domain without entries are mapped. -/
theorem mapFrames_tree (h : Tree σ agaw tbl leaf s) (hzero : ∀ x, leaf (dom, x) = .zero)
    (perm : Nat → Perm) (n : Nat) :
    ∃ tbl' leaf', Tree σ agaw tbl' leaf' (mapFrames σ agaw dom perm n s) ∧
      (∀ dom' ≠ dom, ∀ x, leaf' (dom', x) = leaf (dom', x)) ∧
      ∀ x, (leaf' (dom, x)).grants = through perm (ioptEntries ^ (agaw + 2)) n x := by
  induction n with
  | zero => exact ⟨tbl, leaf, h, fun _ _ _ => rfl, fun x => by rw [hzero]; rfl⟩
  | succ n ih =>
    obtain ⟨tbl₁, leaf₁, htree, hother, hown⟩ := ih
    obtain ⟨tbl', htree'⟩ := htree.map dom n (perm n)
    refine ⟨tbl', _, htree', fun dom' hdom x => ?_, fun x => ?_⟩
    · rw [Function.update_of_ne fun heq => hdom (Prod.mk.inj heq).1]
      exact hother dom' hdom x
    · rw [through, lastBelow]
      by_cases hx : n % ioptEntries ^ (agaw + 2) = x
      · rw [hx, Function.update_self, grants_mapped, if_pos rfl]
        rfl
      · rw [Function.update_of_ne fun heq => hx (Prod.mk.inj heq).2.symm, if_neg hx]
        exact hown x

theorem mapFrames_rootEntry (s : Tables) (dom : Nat) (perm : Nat → Perm) (n : Nat) :
    (mapFrames σ agaw dom perm n s).rootEntry = s.rootEntry := by
  induction n with
  | zero => rfl
  | succ n ih => rw [mapFrames, dmarMapPage_rootEntry, ih]

theorem mapFrames_keeps {dom' : Nat} (h : s.pgd dom' ≠ none) (dom : Nat) (perm : Nat → Perm)
    (n : Nat) : (mapFrames σ agaw dom perm n s).pgd dom' ≠ none := by
  induction n with
  | zero => exact h
  | succ n ih =>
    rw [mapFrames, dmarMapPage_pgd]
    exact domainPgd_keeps ih dom

theorem mapFrames_pgd (s : Tables) (dom : Nat) (perm : Nat → Perm) (hn : 0 < n) :
    (mapFrames σ agaw dom perm n s).pgd dom ≠ none := by
  cases n with
  | zero => cases hn
  | succ n =>
    rw [mapFrames, dmarMapPage_pgd]
    exact domainPgd_ne_none _ dom

/-- The domains up to `n` are mapped, and no other has an entry. -/
structure Mapped (σ : Radix.Supply) (agaw : Nat) (perms : Nat → Nat → Perm) (n : Nat) (s : Tables) :
    Prop where
  tree : ∃ tbl leaf, Tree σ agaw tbl leaf s ∧ (∀ dom > n, ∀ x, leaf (dom, x) = .zero) ∧
    ∀ dom ≤ n, ∀ x,
      (leaf (dom, x)).grants = through (perms dom) (ioptEntries ^ (agaw + 2)) lowFrames x
  pgd : ∀ dom ≤ n, s.pgd dom ≠ none
  rootEntry : ∀ u, s.rootEntry u = none

namespace Mapped

variable {perms : Nat → Nat → Perm}

theorem zero (h : perms 0 = perm) :
    Mapped σ agaw perms 0 (mapFrames σ agaw 0 perm lowFrames .empty) where
  tree := by
    have hempty : Tree σ agaw (fun _ => none) (fun _ => .zero) Tables.empty :=
      ⟨⟨nofun, nofun, nofun, nofun, fun hne => absurd rfl hne, fun hne => absurd rfl hne,
        fun hne => absurd rfl hne, fun hne => absurd rfl hne⟩, fun _ => rfl⟩
    obtain ⟨tbl, leaf, htree, hother, hown⟩ :=
      mapFrames_tree hempty (fun x => rfl) perm lowFrames
    refine ⟨tbl, leaf, htree, fun dom hdom => hother dom (by omega), fun dom hdom x => ?_⟩
    obtain rfl : dom = 0 := by omega
    rw [h]
    exact hown x
  pgd dom hdom := by
    obtain rfl : dom = 0 := by omega
    exact mapFrames_pgd _ _ _ (Nat.two_pow_pos 20)
  rootEntry u := by
    rw [mapFrames_rootEntry]
    rfl

theorem succ (h : Mapped σ agaw perms n s) (hperm : perms (n + 1) = perm) :
    Mapped σ agaw perms (n + 1) (mapFrames σ agaw (n + 1) perm lowFrames s) where
  tree := by
    obtain ⟨tbl, leaf, htree, hbehind, hmapped⟩ := h.tree
    obtain ⟨tbl', leaf', htree', hother, hown⟩ :=
      mapFrames_tree htree (hbehind (n + 1) (Nat.lt_succ_self n)) perm lowFrames
    refine ⟨tbl', leaf', htree', fun dom hdom x => ?_, fun dom hdom x => ?_⟩
    · rw [hother dom (by omega)]
      exact hbehind dom (by omega) x
    · by_cases hlast : dom = n + 1
      · rw [hlast, hperm]
        exact hown x
      · rw [hother dom hlast]
        exact hmapped dom (by omega) x
  pgd dom hdom := by
    by_cases hlast : dom = n + 1
    · rw [hlast]
      exact mapFrames_pgd _ _ _ (Nat.two_pow_pos 20)
    · exact mapFrames_keeps (h.pgd dom (by omega)) _ _ _
  rootEntry u := by
    rw [mapFrames_rootEntry]
    exact h.rootEntry u

/-- The walk in the tables of a domain. -/
theorem walk (h : Mapped σ agaw perms n s) (hdom : dom ≤ n) {page f : Nat}
    (hpgd : s.pgd dom = some page) (hf : f < ioptEntries ^ (agaw + 2)) :
    walkIopt s.iopt.mem f (agaw + 1) page true true =
      through (perms dom) (ioptEntries ^ (agaw + 2)) lowFrames f := by
  obtain ⟨tbl, leaf, htree, -, hmapped⟩ := h.tree
  rw [← hmapped dom hdom]
  refine walkIopt_eq htree.shape ?_ (Nat.le_refl _)
  rw [Nat.div_eq_of_lt hf, htree.pgd, hpgd]

end Mapped

/-! ### Context entries for the devices -/

theorem matchedLoop_lt {a : PciAddress} {i u : Nat} {all : Option Nat} {drhds : List AcpiDrhdU}
    (h : matchedLoop a i all drhds = some u) (hall : ∀ v, all = some v → v < i) :
    u < i + drhds.length := by
  induction drhds generalizing i all with
  | nil => exact hall u h
  | cons drhd drhds ih =>
    rw [matchedLoop] at h
    rw [List.length_cons, Nat.add_comm drhds.length, ← Nat.add_assoc]
    by_cases hinclude : drhd.includePciAll = true
    · rw [if_pos hinclude] at h
      refine ih h fun v hv => ?_
      cases hv
      exact Nat.lt_succ_self i
    · rw [if_neg hinclude] at h
      by_cases hmem : (a.busNo, a.devfn) ∈ drhd.devices
      · rw [if_pos hmem] at h
        cases h
        omega
      · rw [if_neg hmem] at h
        exact ih h fun v hv => Nat.lt_succ_of_lt (hall v hv)

variable {drhds : List AcpiDrhdU} {own : PciAddress → Option Nat} {a : PciAddress} {unit : Nat}

/-- The context entry of a device in a domain, or in none. -/
def ownEntry (agaw : Nat) (s : Tables) : Option Nat → ContextEntry
  | none => .zero
  | some dom => domainEntry agaw dom ((s.pgd dom).getD 0)

/-- The units have root entries, and the devices are in the domains that `own` gives. -/
structure Found (σ : Radix.Supply) (agaw : Nat) (drhds : List AcpiDrhdU)
    (own : PciAddress → Option Nat) (s : Tables) : Prop where
  placed : Placed σ s
  roots : ∀ u < drhds.length, s.rootEntry u ≠ none
  found : ∀ a u, matchedDrhdU drhds a = some u →
    contextOf s u a.busNo a.devfn = ownEntry agaw s (own a)

/-- What no context entry changes. -/
def SameTrees (s s' : Tables) : Prop := s'.pgd = s.pgd ∧ s'.iopt.mem = s.iopt.mem

theorem initIommu_found (h : ∀ u, s.rootEntry u = none) (agaw : Nat) (drhds : List AcpiDrhdU) :
    Found σ agaw drhds (fun _ => none) (initIommu σ drhds s) ∧
      SameTrees s (initIommu σ drhds s) := by
  have hrun (n : Nat) : Placed σ ((List.range n).foldl (gcmdSrtp σ) s) ∧
      (∀ u < n, ((List.range n).foldl (gcmdSrtp σ) s).rootEntry u ≠ none) ∧
      (∀ u b d, contextOf ((List.range n).foldl (gcmdSrtp σ) s) u b d = .zero) ∧
      SameTrees s ((List.range n).foldl (gcmdSrtp σ) s) := by
    induction n with
    | zero =>
      refine ⟨.of_none h, fun u hu => absurd hu (Nat.not_lt_zero u), fun u b d => ?_, rfl, rfl⟩
      refine contextOf_of_none ?_ d
      rw [List.range_zero, List.foldl_nil, contextPage, h u]
      rfl
    | succ n ih =>
      obtain ⟨hplaced, hroots, hzero, hpgd, hmem⟩ := ih
      obtain ⟨hpgd', hmem'⟩ :=
        Placed.gcmdSrtp_keeps (σ := σ) ((List.range n).foldl (gcmdSrtp σ) s) n
      rw [List.range_succ, List.foldl_append, List.foldl_cons, List.foldl_nil]
      refine ⟨hplaced.gcmdSrtp n, fun u hu => Placed.gcmdSrtp_rootEntry ?_, fun u b d => ?_,
        hpgd'.trans hpgd, hmem'.trans hmem⟩
      · by_cases hlast : u = n
        · exact .inl hlast
        · exact .inr (hroots u (by omega))
      · rw [hplaced.gcmdSrtp_contextOf]
        exact hzero u b d
  obtain ⟨hplaced, hroots, hzero, hsame⟩ := hrun drhds.length
  exact ⟨⟨hplaced, hroots, fun a u _ => hzero u a.busNo a.devfn⟩, hsame⟩

namespace Found

theorem regMatched (h : Found σ agaw drhds own s) (hunit : matchedDrhdU drhds a = some unit)
    (hpgd : s.pgd dom ≠ none) :
    ∃ s', regMatched σ agaw drhds s dom a = some s' ∧ SameTrees s s' ∧
      Found σ agaw drhds (fun a' => if a' = a ∧ own a = none then some dom else own a') s' := by
  obtain ⟨page, hpage⟩ := Option.ne_none_iff_exists'.mp hpgd
  have hroot := h.roots unit (by simpa using matchedLoop_lt hunit nofun)
  obtain ⟨s', hreg, hplaced, hroots, hpgds, hmem, hfound⟩ :=
    h.placed.regContextEntry agaw hroot hpage a.busNo a.devfn
  refine ⟨s', ?_, ⟨hpgds, hmem⟩, hplaced, fun u hu => ?_, fun a' u' hu' => ?_⟩
  · rw [Iommu.regMatched, hunit]
    exact hreg
  · rw [hroots]
    exact h.roots u hu
  · have hown : ownEntry agaw s' = ownEntry agaw s := by
      funext o
      cases o with
      | none => rfl
      | some dom => rw [ownEntry, ownEntry, hpgds]
    -- an entry is filled exactly where the device has a domain
    have hfilled : (contextOf s unit a.busNo a.devfn).p = false ↔ own a = none := by
      rw [h.found a unit hunit]
      cases own a with
      | none => exact ⟨fun _ => rfl, fun _ => rfl⟩
      | some dom => exact ⟨nofun, nofun⟩
    rw [hfound, hown]
    simp only [hfilled]
    by_cases haddr : a' = a
    · subst haddr
      obtain rfl := Option.some.inj (hunit.symm.trans hu')
      by_cases hnone : own a' = none
      · rw [if_pos ⟨⟨rfl, rfl, rfl⟩, hnone⟩, if_pos ⟨rfl, hnone⟩, ownEntry, hpage]
        rfl
      · rw [if_neg fun hall => hnone hall.2, if_neg fun hall => hnone hall.2]
        exact h.found a' unit hunit
    · have hne : ¬(u' = unit ∧ a'.busNo = a.busNo ∧ a'.devfn = a.devfn) :=
        fun hall => haddr (PciAddress.ext_devfn hall.2.1 hall.2.2)
      rw [if_neg fun hall => hne hall.1, if_neg fun hall => haddr hall.1]
      exact h.found a' u' hu'

/-- Devices that are in no domain get into domain 0, if nothing is registered for them. -/
theorem setupBitvisorDevs (h : Found σ agaw drhds own s) (rem : List RemapInf)
    (hpgd : s.pgd 0 ≠ none) {devices : List PciAddress}
    (hmatched : ∀ a ∈ devices, searchRemap rem a = 0 → matchedDrhdU drhds a ≠ none) :
    ∃ s', setupBitvisorDevs σ agaw drhds rem devices s = some s' ∧ SameTrees s s' ∧
      Found σ agaw drhds
        (fun a => if own a = none ∧ a ∈ devices ∧ searchRemap rem a = 0 then some 0 else own a)
        s' := by
  induction devices generalizing own s with
  | nil => exact ⟨s, rfl, ⟨rfl, rfl⟩, by simpa using h⟩
  | cons a devices ih =>
    have htail := fun a' ha' => hmatched a' (List.mem_cons_of_mem a ha')
    rw [Iommu.setupBitvisorDevs, List.foldlM_cons]
    by_cases hsearch : searchRemap rem a = 0
    · obtain ⟨unit, hunit⟩ :=
        Option.ne_none_iff_exists'.mp (hmatched a List.mem_cons_self hsearch)
      obtain ⟨s₁, hreg, hsame₁, hfound₁⟩ := h.regMatched hunit hpgd
      have hpgd₁ : s₁.pgd 0 ≠ none := by rwa [hsame₁.1]
      obtain ⟨s', hrun, hsame, hfound⟩ := ih hfound₁ hpgd₁ htail
      rw [if_pos hsearch, hreg]
      refine ⟨s', hrun, ⟨hsame.1.trans hsame₁.1, hsame.2.trans hsame₁.2⟩, ?_⟩
      convert hfound using 2 with a'
      simp only [List.mem_cons]
      by_cases haddr : a' = a
      · subst haddr
        cases own a' <;> simp [hsearch]
      · simp [haddr]
    · obtain ⟨s', hrun, hsame, hfound⟩ := ih h hpgd htail
      rw [if_neg hsearch]
      refine ⟨s', hrun, hsame, ?_⟩
      convert hfound using 2 with a'
      simp only [List.mem_cons]
      by_cases haddr : a' = a
      · subst haddr
        simp [hsearch]
      · simp [haddr]

/-- The devices of the domains up to `n` get into them. -/
theorem setupDoms {calls : List Remap} {cnt : Nat} {g : PciAddress → Nat}
    (h : Found σ agaw drhds own s) (hnum : Numbering calls cnt g)
    (hall : ∀ c ∈ calls, g c.addr ≠ 0) (hmatched : ∀ c ∈ calls, matchedDrhdU drhds c.addr ≠ none)
    (hn : n ≤ cnt) (hpgd : ∀ dom ≤ n, s.pgd dom ≠ none) :
    ∃ s', setupDoms σ agaw drhds (calls.map (entry g)) n s = some s' ∧ SameTrees s s' ∧
      Found σ agaw drhds
        (fun a => if own a = none ∧ (∃ c ∈ calls, c.addr = a) ∧ g a ≤ n then some (g a) else own a)
        s' := by
  induction n with
  | zero =>
    refine ⟨s, rfl, ⟨rfl, rfl⟩, ?_⟩
    convert h using 2 with a
    rw [if_neg]
    rintro ⟨-, ⟨c, hc, rfl⟩, hle⟩
    exact hall c hc (Nat.le_zero.mp hle)
  | succ n ih =>
    obtain ⟨s₁, hrun₁, hsame₁, hfound₁⟩ :=
      ih (by omega) fun dom hdom => hpgd dom (Nat.le_succ_of_le hdom)
    obtain ⟨c, hc, hdom, hfind⟩ : ∃ c ∈ calls, g c.addr = n + 1 ∧
        (calls.map (entry g)).find? (fun r => r.dom = n + 1) = some (entry g c) := by
      cases hfind : (calls.map (entry g)).find? (fun r => r.dom = n + 1) with
      | none =>
        obtain ⟨c, hc, hdom⟩ := hnum.used (n + 1) (Nat.le_add_left 1 n) hn
        refine absurd ?_ (List.find?_eq_none.mp hfind (entry g c) (List.mem_map_of_mem hc))
        rw [decide_eq_true_eq]
        exact hdom
      | some r =>
        obtain ⟨c, hc, rfl⟩ := List.mem_map.mp (List.mem_of_find?_eq_some hfind)
        have hsome := List.find?_some hfind
        exact ⟨c, hc, of_decide_eq_true hsome, rfl⟩
    obtain ⟨unit, hunit⟩ := Option.ne_none_iff_exists'.mp (hmatched c hc)
    have hpgd₁ : s₁.pgd (n + 1) ≠ none := by
      rw [hsame₁.1]
      exact hpgd (n + 1) (Nat.le_refl _)
    obtain ⟨s', hreg, hsame, hfound⟩ := hfound₁.regMatched hunit hpgd₁
    refine ⟨s', ?_, ⟨hsame.1.trans hsame₁.1, hsame.2.trans hsame₁.2⟩, ?_⟩
    · rw [Iommu.setupDoms, hrun₁, Option.bind_some, hfind]
      exact hreg
    · convert hfound using 2 with a
      by_cases haddr : a = c.addr
      · subst haddr
        have hnot : ¬n + 1 ≤ n := Nat.not_succ_le_self n
        have hreg : ∃ c' ∈ calls, c'.addr = c.addr := ⟨c, hc, rfl⟩
        cases own c.addr <;> simp [hdom, hnot, hreg]
      · have hle : (∃ c' ∈ calls, c'.addr = a) ∧ g a ≤ n + 1 ↔
            (∃ c' ∈ calls, c'.addr = a) ∧ g a ≤ n := by
          refine and_congr_right fun ⟨c', hc', hreg⟩ => ⟨fun hle => ?_, Nat.le_succ_of_le⟩
          subst hreg
          have hne : g c'.addr ≠ n + 1 := fun heq =>
            haddr (hnum.inj c' hc' c hc (hall c' hc') (heq.trans hdom.symm))
          omega
        simp only [hle, haddr, false_and, if_false]

end Found

/-! ### The whole setup -/

/-- The permission of each domain. -/
def Platform.perms (m : Platform) (rem : List RemapInf) : Nat → Nat → Perm
  | 0 => m.passPerm
  | dom + 1 => domPerm rem (dom + 1)

theorem mapDoms_eq_some {perms : Nat → Nat → Perm} {rem : List RemapInf}
    (h : Mapped σ agaw perms 0 s) (hperms : ∀ dom, perms (dom + 1) = domPerm rem (dom + 1))
    (hn : n < maxIoDom) :
    ∃ s', mapDoms σ agaw rem n s = some s' ∧ Mapped σ agaw perms n s' := by
  induction n with
  | zero => exact ⟨s, rfl, h⟩
  | succ n ih =>
    obtain ⟨s₁, hrun, hmapped⟩ := ih (by omega)
    refine ⟨_, ?_, hmapped.succ (hperms n)⟩
    rw [mapDoms, hrun, Option.bind_some, if_pos hn]

theorem mapDoms_lt {rem : List RemapInf} {s' : Tables} (h : mapDoms σ agaw rem n s = some s') :
    n < maxIoDom := by
  cases n with
  | zero => decide
  | succ n =>
    obtain ⟨s₁, -, hlast⟩ := Option.bind_eq_some_iff.mp h
    by_contra hlt
    rw [if_neg hlt] at hlast
    cases hlast

theorem setupBitvisorDevs_matched {rem : List RemapInf} {devices : List PciAddress} {s' : Tables}
    (h : setupBitvisorDevs σ agaw drhds rem devices s = some s') :
    ∀ a ∈ devices, searchRemap rem a = 0 → matchedDrhdU drhds a ≠ none := by
  induction devices generalizing s with
  | nil => exact nofun
  | cons a devices ih =>
    rw [setupBitvisorDevs, List.foldlM_cons] at h
    obtain ⟨s₁, hfirst, hrest⟩ := Option.bind_eq_some_iff.mp h
    refine List.forall_mem_cons.mpr ⟨fun hsearch hnone => ?_, ih hrest⟩
    rw [if_pos hsearch, regMatched, hnone] at hfirst
    cases hfirst

theorem setupDoms_matched {rem : List RemapInf} {s' : Tables}
    (h : setupDoms σ agaw drhds rem n s = some s') {dom : Nat} (hdom : 1 ≤ dom ∧ dom ≤ n) :
    ∃ r ∈ rem, r.dom = dom ∧ matchedDrhdU drhds r.addr ≠ none := by
  induction n generalizing s' with
  | zero => omega
  | succ n ih =>
    obtain ⟨s₁, hrun, hlast⟩ := Option.bind_eq_some_iff.mp h
    obtain ⟨r, hfind, hreg⟩ := Option.bind_eq_some_iff.mp hlast
    by_cases heq : dom = n + 1
    · subst heq
      have hsome := List.find?_some hfind
      refine ⟨r, List.mem_of_find?_eq_some hfind, of_decide_eq_true hsome, fun hnone => ?_⟩
      rw [regMatched, hnone] at hreg
      cases hreg
    · exact ih hrun (by omega)

/-- A driver has registered frames for the device. -/
def Platform.Registered (m : Platform) (a : PciAddress) : Prop := ∃ c ∈ m.calls, c.addr = a

instance (m : Platform) (a : PciAddress) : Decidable (m.Registered a) :=
  inferInstanceAs (Decidable (∃ c ∈ m.calls, c.addr = a))

instance (c : Remap) (f : Nat) : Decidable (c.Names f) :=
  inferInstanceAs (Decidable (_ ∧ _))

/-- The permission of the last registration of the device that names the frame. -/
def rights (calls : List Remap) (a : PciAddress) (f : Nat) : Perm :=
  calls.foldl (fun perm c => if c.addr = a ∧ c.Names f then c.perm else perm) .no

theorem domPerm_eq {calls : List Remap} {cnt : Nat} {g : PciAddress → Nat}
    (hnum : Numbering calls cnt g) (hall : ∀ c ∈ calls, g c.addr ≠ 0) {c : Remap} (hc : c ∈ calls)
    {f : Nat} (hf : f < lowFrames) :
    domPerm (calls.map (entry g)) (g c.addr) f = rights calls c.addr f := by
  rw [domPerm, List.foldl_map, rights]
  refine List.foldl_ext _ _ _ fun perm c' hc' => if_congr (and_congr ?_ ?_) rfl rfl
  · exact ⟨fun hdom => hnum.inj c' hc' c hc (hall c' hc') hdom, fun haddr => congrArg g haddr⟩
  · exact covers_iff rfl rfl hf

/-- What a device reaches, with tables of `agaw + 2` levels. -/
def Platform.translation (m : Platform) (agaw : Nat) (a : PciAddress) (f : Nat) :
    Option (Nat × Bool × Bool) :=
  if f < ioptEntries ^ (agaw + 2) then
    if m.Registered a then through (rights m.calls a) (ioptEntries ^ (agaw + 2)) lowFrames f
    else if a ∈ m.devices then through m.passPerm (ioptEntries ^ (agaw + 2)) lowFrames f
    else none
  else none

theorem through_congr {perm perm' : Nat → Perm} {M x : Nat} (h : ∀ f < n, perm f = perm' f) :
    through perm M n x = through perm' M n x := by
  rw [through, through]
  cases hlast : lastBelow M x n with
  | none => rfl
  | some y => rw [Option.bind_some, Option.bind_some, h y (lastBelow_spec hlast).2.1]

/-- The walk of a device follows its context entry into the tables of its domain. -/
theorem vtdWalk_ownEntry {o : Option Nat} {bus devfn : BitVec 8} {f : Nat} (hagaw : agaw < 8)
    (h : contextOf s unit bus devfn = ownEntry agaw s o) :
    vtdWalk s unit bus devfn f = o.bind fun dom =>
      if f < ioptEntries ^ (agaw + 2) then
        walkIopt s.iopt.mem f (agaw + 1) ((s.pgd dom).getD 0) true true
      else none := by
  rw [vtdWalk_eq, h]
  cases o with
  | none => rfl
  | some dom =>
    rw [ownEntry, domainEntry, Option.bind_some, Nat.mod_eq_of_lt hagaw]
    by_cases hf : f < ioptEntries ^ (agaw + 2)
    · rw [if_pos hf, if_neg]
      simpa using hf
    · rw [if_neg hf, if_pos]
      simpa using Nat.le_of_not_lt hf

namespace Platform

variable {m : Platform}

/-- With few enough devices, each with its unit, the setup goes through. -/
theorem setup_eq_some (hagaw : agaw < 8)
    (hdevices : (m.calls.map Remap.addr).dedup.length < maxIoDom)
    (hmatched : ∀ a, a ∈ m.devices ∨ m.Registered a → matchedDrhdU m.drhds a ≠ none) :
    ∃ s, m.setup σ agaw (m.calls.map (entry fun _ => 0)) = some s ∧
      ∀ a, matchedDrhdU m.drhds a ≠ none → ∀ f, m.walk s a f = m.translation agaw a f := by
  obtain ⟨n, g, hndom, hrem, hnum, hall⟩ := remapPreconf_spec m.calls
  have hn : n < maxIoDom := by
    rw [← hnum.card hall]
    exact hdevices
  rw [setup]
  generalize remapPreconf (m.calls.map (entry fun _ => 0)) = r at *
  obtain ⟨ndom, rem⟩ := r
  dsimp only at *
  subst hrem
  rw [hndom]
  have hzero : Mapped σ agaw (m.perms (m.calls.map (entry g))) 0
      (mapFrames σ agaw 0 m.passPerm lowFrames .empty) := .zero rfl
  obtain ⟨s₁, hmaps, hmapped⟩ := mapDoms_eq_some hzero (fun _ => rfl) hn
  obtain ⟨hfound₁, hsame₁⟩ := initIommu_found (σ := σ) hmapped.rootEntry agaw m.drhds
  have hpgd₁ : ∀ dom ≤ n, (initIommu σ m.drhds s₁).pgd dom ≠ none := by
    rw [hsame₁.1]
    exact hmapped.pgd
  obtain ⟨s₂, hdevs, hsame₂, hfound₂⟩ :=
    hfound₁.setupBitvisorDevs (m.calls.map (entry g)) (hpgd₁ 0 (Nat.zero_le n))
      (fun a ha _ => hmatched a (.inl ha))
  obtain ⟨s, hdoms, hsame, hfound⟩ :=
    hfound₂.setupDoms hnum hall (fun c hc => hmatched c.addr (.inr ⟨c, hc, rfl⟩)) (Nat.le_refl n)
      (by rw [hsame₂.1]; exact hpgd₁)
  have hpgd : s.pgd = s₁.pgd := hsame.1.trans (hsame₂.1.trans hsame₁.1)
  have hmem : s.iopt.mem = s₁.iopt.mem := hsame.2.trans (hsame₂.2.trans hsame₁.2)
  refine ⟨s, ?_, fun a ha f => ?_⟩
  · rw [hmaps, Option.bind_some, hdevs, Option.bind_some]
    exact hdoms
  obtain ⟨unit, hunit⟩ := Option.ne_none_iff_exists'.mp ha
  have hdom {dom : Nat} (hdom : dom ≤ n) (hf : f < ioptEntries ^ (agaw + 2)) :
      walkIopt s.iopt.mem f (agaw + 1) ((s.pgd dom).getD 0) true true =
        through (m.perms (m.calls.map (entry g)) dom) (ioptEntries ^ (agaw + 2)) lowFrames f := by
    obtain ⟨page, hpage⟩ := Option.ne_none_iff_exists'.mp (hmapped.pgd dom hdom)
    rw [hmem, hpgd, hpage]
    exact hmapped.walk hdom hpage hf
  have hctx := hfound.found a unit hunit
  rw [searchRemap_map] at hctx
  rw [walk, hunit, Option.bind_some, vtdWalk_ownEntry hagaw hctx, translation]
  by_cases hreg : m.Registered a
  · obtain ⟨c, hc, rfl⟩ := id hreg
    have hne := hall c hc
    have hle := hnum.le c hc
    have hsome : ∃ c' ∈ m.calls, c'.addr = c.addr := hreg
    simp only [hsome, hne, hle, if_true, and_false, if_false, and_self, Option.bind_some, hreg]
    by_cases hf : f < ioptEntries ^ (agaw + 2)
    · rw [if_pos hf, if_pos hf, hdom hle hf]
      refine through_congr fun f hf => ?_
      obtain ⟨dom, hsucc⟩ := Nat.exists_eq_succ_of_ne_zero hne
      rw [← domPerm_eq hnum hall hc hf, hsucc]
      rfl
    · rw [if_neg hf, if_neg hf]
  · have hnone : ¬∃ c ∈ m.calls, c.addr = a := hreg
    simp only [hnone, if_false, and_true, true_and, false_and, and_false, hreg]
    by_cases hdev : a ∈ m.devices
    · rw [if_pos hdev, Option.bind_some, if_pos hdev]
      by_cases hf : f < ioptEntries ^ (agaw + 2)
      · rw [if_pos hf, if_pos hf, hdom (Nat.zero_le n) hf]
        rfl
      · rw [if_neg hf, if_neg hf]
    · rw [if_neg hdev, if_neg hdev, ite_self]
      rfl

/-- A setup that goes through has found a unit for every device. -/
theorem setup_matched {s : Tables}
    (h : m.setup σ agaw (m.calls.map (entry fun _ => 0)) = some s) :
    (m.calls.map Remap.addr).dedup.length < maxIoDom ∧
      ∀ a, a ∈ m.devices ∨ m.Registered a → matchedDrhdU m.drhds a ≠ none := by
  obtain ⟨n, g, hndom, hrem, hnum, hall⟩ := remapPreconf_spec m.calls
  rw [setup] at h
  generalize remapPreconf (m.calls.map (entry fun _ => 0)) = r at *
  obtain ⟨ndom, rem⟩ := r
  dsimp only at *
  subst hrem
  rw [hndom] at h
  obtain ⟨s₁, hmaps, hrest⟩ := Option.bind_eq_some_iff.mp h
  obtain ⟨s₂, hdevs, hdoms⟩ := Option.bind_eq_some_iff.mp hrest
  have hregistered : ∀ a, m.Registered a → matchedDrhdU m.drhds a ≠ none := by
    rintro a ⟨c, hc, rfl⟩
    obtain ⟨r, hr, hdom, hmatched⟩ :=
      setupDoms_matched hdoms ⟨Nat.one_le_iff_ne_zero.mpr (hall c hc), hnum.le c hc⟩
    obtain ⟨c', hc', rfl⟩ := List.mem_map.mp hr
    rwa [← hnum.inj c' hc' c hc (hall c' hc') hdom]
  refine ⟨by rw [hnum.card hall]; exact mapDoms_lt hmaps, fun a ha => ?_⟩
  by_cases hreg : m.Registered a
  · exact hregistered a hreg
  · refine setupBitvisorDevs_matched hdevs a (ha.resolve_right hreg) ?_
    rw [searchRemap_map]
    exact if_neg hreg

/-- What `iommu_setup` needs to get through, with tables of `agaw + 2` levels. -/
structure Accepted (m : Platform) (agaw : Nat) : Prop where
  calls : m.calls.length ≤ 256
  drhds : m.drhds ≠ []
  width : iodomInit m.drhds = some agaw
  domains : (m.calls.map Remap.addr).dedup.length < maxIoDom
  matched : ∀ a, a ∈ m.devices ∨ m.Registered a → matchedDrhdU m.drhds a ≠ none

/-- No width needs more than five levels. -/
theorem gawToAgaw_lt : ∀ g < 64, (gawToAgaw ((g + 1 : Nat) : Int) - 12).tdiv 9 - 2 < 4 := by
  decide

theorem iodomInit_lt {drhds : List AcpiDrhdU} (h : iodomInit drhds = some agaw) : agaw < 8 := by
  rw [iodomInit] at h
  split at h
  case h_1 =>
    cases h
    decide
  case h_2 drhd _ =>
    have hlt : (drhd.cap >>> 16 &&& 0x3f).toNat < 64 := by
      rw [BitVec.toNat_and]
      exact Nat.lt_of_le_of_lt Nat.and_le_right (by decide)
    have hwidth := gawToAgaw_lt _ hlt
    rw [← capMgaw] at hwidth
    dsimp only at h
    split at h
    · cases h
      omega
    · cases h

/-- The setup goes through exactly where it has what it needs, and every device with a unit is
translated by its own registrations. -/
theorem iommuSetup_eq_some (h : m.Accepted agaw) :
    ∃ s, m.iommuSetup σ = some s ∧
      ∀ a, matchedDrhdU m.drhds a ≠ none → ∀ f, m.walk s a f = m.translation agaw a f := by
  obtain ⟨s, hrun, hwalk⟩ := setup_eq_some (σ := σ) (iodomInit_lt h.width) h.domains h.matched
  refine ⟨s, ?_, hwalk⟩
  rw [iommuSetup, addRemap_foldlM, if_pos (.inl (by simpa using h.calls)), List.nil_append,
    Option.bind_some, if_neg h.drhds, h.width]
  exact hrun

theorem accepted_of_iommuSetup {s : Tables} (h : m.iommuSetup σ = some s) :
    ∃ agaw, m.Accepted agaw := by
  rw [iommuSetup, addRemap_foldlM, List.nil_append] at h
  by_cases hcalls : m.calls.length ≤ 256
  · rw [if_pos (.inl (by simpa using hcalls)), Option.bind_some] at h
    by_cases hdrhds : m.drhds = []
    · rw [if_pos hdrhds] at h
      cases h
    · rw [if_neg hdrhds] at h
      obtain ⟨agaw, hwidth, hsetup⟩ := Option.bind_eq_some_iff.mp h
      obtain ⟨hdomains, hmatched⟩ := setup_matched hsetup
      exact ⟨agaw, hcalls, hdrhds, hwidth, hdomains, hmatched⟩
  · rw [if_neg] at h
    · cases h
    · rintro (hle | hnil)
      · exact hcalls (by simpa using hle)
      · exact hcalls (by simp [hnil])

theorem Accepted.walk_eq {s : Tables} (h : m.Accepted agaw) (hrun : m.iommuSetup σ = some s)
    (a : PciAddress) (ha : matchedDrhdU m.drhds a ≠ none) (f : Nat) :
    m.walk s a f = m.translation agaw a f := by
  obtain ⟨s', hrun', hwalk⟩ := iommuSetup_eq_some (σ := σ) h
  obtain rfl := Option.some.inj (hrun.symm.trans hrun')
  exact hwalk a ha f

end Platform

end OnDemandVirt.Iommu
