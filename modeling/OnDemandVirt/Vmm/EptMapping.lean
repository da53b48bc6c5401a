import OnDemandVirt.Vmm.EptCursor

/-!
# What the mapping operations achieve

Every operation on the extended page tables keeps `EptInv`, and after a mapping operation a fresh
walk of the address ends at the entry that the operation was to write. A mapping of a page stays
until all mappings are dropped: the ranges that are always mapped only come again to the same
value.
-/

namespace OnDemandVirt.Vmm

open Lib.Paging

/-! ### The value of a page's entry -/

section

variable (env : EptEnv) {x y : BitVec 64}

theorem physInVmm_page (h : x.toNat / 4096 = y.toNat / 4096) :
    physInVmm env x = physInVmm env y := by
  have hstart : 4096 ∣ env.vmmStartPhys.toNat := by
    have hmod := congrArg BitVec.toNat env.vmm_page
    rw [BitVec.toNat_and] at hmod
    exact Nat.dvd_of_mod_eq_zero ((Nat.and_two_pow_sub_one_eq_mod _ 12).symm.trans hmod)
  have hend : 4096 ∣ (env.vmmStartPhys + vmmsizeAll).toNat := by
    have hsize : vmmsizeAll.toNat = 0x8000000 := rfl
    rw [BitVec.toNat_add, hsize]
    omega
  refine decide_eq_decide.mpr ?_
  rw [← BitVec.not_lt, ← BitVec.not_lt, lt_iff_of_page h hstart, lt_iff_of_page h hend]

theorem pageValue_page (h : x.toNat / 4096 = y.toNat / 4096) :
    pageValue env x = pageValue env y := by
  have hpage : x &&& ~~~pagesizeMask = y &&& ~~~pagesizeMask := by
    apply BitVec.eq_of_toNat_eq
    rw [and_not_pagesizeMask, and_not_pagesizeMask, h]
  unfold pageValue gp2hp hattr
  rw [physInVmm_page env h, getMtrrType_page env.cache h]
  cases physInVmm env y
  · simp only [Bool.false_eq_true, if_false, hpage]
  · rfl

end

/-- The entry that `vt_ept_map_2mpage` writes. -/
def largeValue (env : EptEnv) (gphys : BitVec 64) : BitVec 64 :=
  (gphys &&& ~~~pagesize2mMask) ||| (hattr env (gphys &&& ~~~pagesize2mMask) ||| 0x80)

theorem isTable_largeValue (env : EptEnv) (g : BitVec 64) : isTable (largeValue env g) = false := by
  have hlarge : large (largeValue env g) = true := by
    unfold large largeValue
    rw [BitVec.getLsbD_or, BitVec.getLsbD_or]
    have hbit : (0x80 : BitVec 64).getLsbD 7 = true := by decide
    rw [hbit, Bool.or_true, Bool.or_true]
  rw [isTable, hlarge, Bool.not_true, Bool.and_false]

/-- A fresh walk of the address ends at the entry of its page, with the value of `value`. -/
def Maps (P : EptPages) (s : VtEpt) (level : Nat) (value gphys : BitVec 64) : Prop :=
  ∃ p, EndsAt s.mem P.ncr3tbl gphys.toNat level p ∧ s.mem p = value

/-- Mappings of pages stay, unless all are dropped. -/
def KeepsMaps (P : EptPages) (env : EptEnv) (s s' : VtEpt) : Prop :=
  s'.cleared = true ∨ (s'.cleared = s.cleared ∧ ∀ g : BitVec 64, g.toNat < 2 ^ 48 →
    Maps P s 0 (pageValue env g) g → Maps P s' 0 (pageValue env g) g)

section

variable {P : EptPages} {env : EptEnv} {s s' s'' : VtEpt}

theorem KeepsMaps.refl (s : VtEpt) : KeepsMaps P env s s := Or.inr ⟨rfl, fun _ _ => id⟩

theorem KeepsMaps.trans (h : KeepsMaps P env s s') (h' : KeepsMaps P env s' s'') :
    KeepsMaps P env s s'' := by
  rcases h' with hcleared | ⟨heq, hmaps'⟩
  · exact Or.inl hcleared
  · rcases h with hcleared | ⟨heq', hmaps⟩
    · exact Or.inl (heq.trans hcleared)
    · exact Or.inr ⟨heq.trans heq', fun g hg hm => hmaps' g hg (hmaps g hg hm)⟩

theorem KeepsWalks.keepsMaps (h : KeepsWalks P s s') : KeepsMaps P env s s' := by
  rcases h with hcleared | ⟨heq, hgrow, hleaf⟩
  · exact Or.inl hcleared
  · refine Or.inr ⟨heq, ?_⟩
    rintro g - ⟨p, ⟨hle, hat, -⟩, hval⟩
    exact ⟨p, ⟨hle, hgrow _ _ _ (Nat.le_refl 3) hat, Or.inl rfl⟩, (hleaf _ _ hat).trans hval⟩

/-- Moving the cursor keeps what holds between two operations. -/
theorem curMove_inv (env : EptEnv) (hs : EptInv P s) (g : BitVec 64) :
    EptInv P (curMove P s g) ∧ Exact P (curMove P s g) ∧ (curMove P s g).gphys = g ∧
      KeepsMaps P env s (curMove P s g) := by
  obtain ⟨hmem, hcnt, hcleared, hg, hexact⟩ := curMove_spec hs g
  refine ⟨⟨?_, Nat.le_succ_of_le hexact.2.1, hexact.1⟩, hexact, hg, Or.inr ⟨hcleared, ?_⟩⟩
  · rw [hmem, hcnt]
    exact hs.tables
  · rintro g' - ⟨p, hat, hval⟩
    refine ⟨p, ?_, ?_⟩
    · rw [hmem]
      exact hat
    · rw [hmem]
      exact hval

/-- Writing an entry that the walk visits last. -/
theorem writeEntry_spec {lvl : Nat → Nat} {g v : BitVec 64} {level p : Nat} (hs : EptInv P s)
    (ht : EptTables P s.mem s.cnt lvl) (hv : Visits P s.mem s.cnt lvl g level p)
    (hval : level = 0 ∨ isTable v = false) :
    EptInv P { s with mem := Function.update s.mem p v } ∧
      (∀ va d, d ≤ 3 → entryAt (Function.update s.mem p v) P.ncr3tbl va d =
        entryAt s.mem P.ncr3tbl va d) ∧
      Maps P { s with mem := Function.update s.mem p v } level v g := by
  obtain ⟨t, hin, htl, hp⟩ := ht.located (Nat.sub_le 3 level) hv.at_entry
  rw [Nat.sub_sub_self hv.level_le] at htl hp
  have hwalk : ∀ va d, d ≤ 3 → entryAt (Function.update s.mem p v) P.ncr3tbl va d =
      entryAt s.mem P.ncr3tbl va d := by
    intro va d hd
    rw [hp]
    refine ht.entryAt_write hin (index_lt _ _) ?_ hd
    rw [htl, ← hp]
    rcases hval with hzero | hv'
    · exact Or.inl hzero
    · exact hv.off.imp id fun hoff => ⟨hv', hoff⟩
  refine ⟨⟨⟨lvl, ?_⟩, hs.level_le, fun l hl hl3 => ?_⟩, hwalk, p, ⟨hv.level_le, ?_, ?_⟩, ?_⟩
  · rw [hp]
    exact ht.write hin (index_lt _ _) (htl ▸ hval)
  · exact (hwalk _ _ (Nat.sub_le 3 l)).trans (hs.coherent l hl hl3)
  · exact (hwalk _ _ (Nat.sub_le 3 level)).trans hv.at_entry
  · refine hval.imp id fun hv' => ?_
    dsimp only
    rw [Function.update_self]
    exact hv'
  · exact Function.update_self _ _ _

theorem vtEptMapPageSub_spec (hs : EptInv P s) {write : Bool} {g : BitVec 64}
    (h : vtEptMapPageSub P env s write g = some s') :
    EptInv P s' ∧ Maps P s' 0 (pageValue env g) g ∧ (g.toNat < 2 ^ 48 → KeepsMaps P env s s') := by
  obtain ⟨hs₁, hexact, hg, hkeep₁⟩ := curMove_inv env hs g
  obtain ⟨s₂, p, lvl, hfill, hs₂, hkeep₂, hg₂, ht, hv⟩ := curFill_spec 0 hs₁ hexact (Nat.zero_le _)
  rw [hg] at hfill hv
  unfold vtEptMapPageSub at h
  dsimp only at h
  rw [hfill] at h
  dsimp only at h
  split_ifs at h
  cases h
  obtain ⟨hs₃, hwalk, hmaps⟩ := writeEntry_spec (v := pageValue env g) hs₂ ht hv (Or.inl rfl)
  refine ⟨hs₃, hmaps, fun hlt => (hkeep₁.trans hkeep₂.keepsMaps).trans (Or.inr ⟨rfl, ?_⟩)⟩
  rintro g' hlt' ⟨q, ⟨hle, hat, -⟩, hval⟩
  refine ⟨q, ⟨hle, (hwalk _ _ (Nat.le_refl 3)).trans hat, Or.inl rfl⟩, ?_⟩
  dsimp only
  by_cases hqp : q = p
  · -- the entry is that of the same page, and gets the same value
    rw [hqp, Function.update_self]
    exact pageValue_page env (ht.page_eq hlt hlt' hv.at_entry (hqp ▸ hat))
  · rw [Function.update_of_ne hqp]
    exact hval

theorem vtEptMap2mpage_spec (hs : EptInv P s) {g : BitVec 64} {large : Bool}
    (h : vtEptMap2mpage P env s g = (large, s')) :
    EptInv P s' ∧ (large = false → Maps P s' 1 (largeValue env g) g) ∧ KeepsMaps P env s s' := by
  obtain ⟨hs₁, hexact, hg, hkeep₁⟩ := curMove_inv env hs g
  unfold vtEptMap2mpage at h
  dsimp only at h
  by_cases hlevel : (curMove P s g).level = 0
  · rw [if_pos hlevel] at h
    cases h
    exact ⟨hs₁, fun h => Bool.noConfusion h, hkeep₁⟩
  rw [if_neg hlevel] at h
  cases hhp : gp2hp2m env (g &&& ~~~pagesize2mMask) with
  | none =>
    rw [hhp] at h
    cases h
    exact ⟨hs₁, fun h => Bool.noConfusion h, hkeep₁⟩
  | some hphys =>
    rw [hhp] at h
    dsimp only at h
    by_cases hequal : (!mtrrTypeEqual (g &&& ~~~pagesize2mMask) env.cache pagesize2mMask) = true
    · rw [if_pos hequal] at h
      cases h
      exact ⟨hs₁, fun h => Bool.noConfusion h, hkeep₁⟩
    rw [if_neg hequal] at h
    obtain ⟨s₂, p, lvl, hfill, hs₂, hkeep₂, hg₂, ht, hv⟩ := curFill_spec 1 hs₁ hexact
      (Nat.pos_of_ne_zero hlevel)
    rw [hg] at hfill hv
    rw [hfill] at h
    cases h
    have hphysEq : hphys = g &&& ~~~pagesize2mMask := by
      unfold gp2hp2m at hhp
      split_ifs at hhp
      exact (Option.some.inj hhp).symm
    rw [hphysEq]
    obtain ⟨hs₃, hwalk, hmaps⟩ := writeEntry_spec (v := largeValue env g) hs₂ ht hv
      (Or.inr (isTable_largeValue env g))
    refine ⟨hs₃, fun _ => hmaps, (hkeep₁.trans hkeep₂.keepsMaps).trans (Or.inr ⟨rfl, ?_⟩)⟩
    rintro g' - ⟨q, ⟨hle, hat, -⟩, hval⟩
    refine ⟨q, ⟨hle, (hwalk _ _ (Nat.le_refl 3)).trans hat, Or.inl rfl⟩, ?_⟩
    -- entries of large pages and of pages are in tables of different levels
    have hqp : q ≠ p := by
      rintro rfl
      obtain ⟨t, hin, htl, hq⟩ := ht.located (by decide) hv.at_entry
      obtain ⟨t', hin', htl', hq'⟩ := ht.located (Nat.le_refl 3) hat
      obtain ⟨rfl, -⟩ := EptPages.slot_inj (hin.mono ht.cnt_le) (hin'.mono ht.cnt_le)
        (index_lt _ _) (index_lt _ _) (hq.symm.trans hq')
      omega
    dsimp only
    rw [Function.update_of_ne hqp]
    exact hval

/-! ### The ranges that are always mapped -/

theorem forceMapPage_spec (hs : EptInv P s) {base size : BitVec 64} (hbase : base.toNat < 2 ^ 48)
    (h : forceMapPage P env s base = some (size, s')) : EptInv P s' ∧ KeepsMaps P env s s' := by
  unfold forceMapPage at h
  dsimp only at h
  split_ifs at h
  · obtain ⟨s₁, hsub, heq⟩ := Option.map_eq_some_iff.mp h
    cases heq
    obtain ⟨hs₁, -, hkeep⟩ := vtEptMapPageSub_spec hs hsub
    exact ⟨hs₁, hkeep hbase⟩
  · cases h
    exact ⟨hs, KeepsMaps.refl s⟩

theorem forceMapStep_spec (hs : EptInv P s) {base size : BitVec 64} (hbase : base.toNat < 2 ^ 48)
    (h : forceMapStep P env s base = some (size, s')) : EptInv P s' ∧ KeepsMaps P env s s' := by
  obtain ⟨hs₁, -, -, hkeep₁⟩ := curMove_inv env hs base
  unfold forceMapStep vtEptLevel at h
  dsimp only at h
  split_ifs at h
  · cases hlarge : vtEptMap2mpage P env (curMove P s base) base with
    | mk large s₂ =>
      obtain ⟨hs₂, -, hkeep₂⟩ := vtEptMap2mpage_spec hs₁ hlarge
      rw [hlarge] at h
      cases large with
      | false =>
        cases h
        exact ⟨hs₂, hkeep₁.trans hkeep₂⟩
      | true =>
        obtain ⟨hs₃, hkeep₃⟩ := forceMapPage_spec hs₂ hbase h
        exact ⟨hs₃, (hkeep₁.trans hkeep₂).trans hkeep₃⟩
  · obtain ⟨hs₂, hkeep₂⟩ := forceMapPage_spec hs₁ hbase h
    exact ⟨hs₂, hkeep₁.trans hkeep₂⟩

theorem forceMapLoop_spec (fuel : Nat) {base len : BitVec 64} (hs : EptInv P s)
    (hle : base.toNat + len.toNat ≤ 2 ^ 48) (h : forceMapLoop P env fuel base len s = some s') :
    EptInv P s' ∧ KeepsMaps P env s s' := by
  induction fuel generalizing base len s with
  | zero =>
    rw [forceMapLoop] at h
    split_ifs at h
    cases h
    exact ⟨hs, KeepsMaps.refl _⟩
  | succ fuel ih =>
    rw [forceMapLoop] at h
    split_ifs at h with hzero
    · cases h
      exact ⟨hs, KeepsMaps.refl _⟩
    obtain ⟨⟨size, s₁⟩, hstep, hrest⟩ := Option.bind_eq_some_iff.mp h
    have hpos : 0 < len.toNat := Nat.pos_of_ne_zero fun hz => hzero (BitVec.eq_of_toNat_eq hz)
    obtain ⟨hs₁, hkeep₁⟩ := forceMapStep_spec hs (by omega) hstep
    have hsize : (if len < size then len else size).toNat ≤ len.toNat := by
      split_ifs with hlt
      · exact Nat.le_refl _
      · exact BitVec.le_def.mp (BitVec.not_lt.mp hlt)
    dsimp only at hrest
    generalize (if len < size then len else size) = n at hsize hrest
    have hbase : (base + n).toNat = base.toNat + n.toNat := by
      rw [BitVec.toNat_add]
      exact Nat.mod_eq_of_lt (by omega)
    have hlen : (len - n).toNat = len.toNat - n.toNat := BitVec.toNat_sub_of_le hsize
    obtain ⟨hs₂, hkeep₂⟩ := ih hs₁ (by omega) hrest
    exact ⟨hs₂, hkeep₁.trans hkeep₂⟩

theorem forceMap_spec (hs : EptInv P s) {r : BitVec 64 × BitVec 64}
    (hr : r.1.toNat + r.2.toNat ≤ 2 ^ 48) (h : forceMap P env s r = some s') :
    EptInv P s' ∧ KeepsMaps P env s s' := by
  obtain ⟨base, len⟩ := r
  unfold forceMap at h
  dsimp only at h hr
  refine forceMapLoop_spec _ hs ?_ h
  have hoff : (base &&& pagesizeMask).toNat = base.toNat % 4096 := by
    rw [BitVec.toNat_and]
    exact Nat.and_two_pow_sub_one_eq_mod base.toNat 12
  rw [and_not_pagesizeMask, BitVec.toNat_add, hoff, Nat.mod_eq_of_lt (by omega)]
  omega

/-- The ranges that are always mapped keep all mappings, and leave nothing dropped. -/
theorem vtEptMapPageClearCleared_spec (hs : EptInv P s)
    (h : vtEptMapPageClearCleared P env s = some s') :
    EptInv P s' ∧ s'.cleared = false ∧ ∀ g : BitVec 64, g.toNat < 2 ^ 48 →
      Maps P s 0 (pageValue env g) g → Maps P s' 0 (pageValue env g) g := by
  unfold vtEptMapPageClearCleared at h
  obtain ⟨s₁, hmaps, hend⟩ := Option.bind_eq_some_iff.mp h
  have hrange : ∀ r ∈ forceMaps env, r.1.toNat + r.2.toNat ≤ 2 ^ 48 := by
    intro r hr
    obtain ⟨u, hu, rfl⟩ := List.mem_map.mp (List.takeWhile_subset _ hr)
    exact env.uefi_le u hu
  have hfold : ∀ l : List (BitVec 64 × BitVec 64), (∀ r ∈ l, r.1.toNat + r.2.toNat ≤ 2 ^ 48) →
      ∀ {t t'}, EptInv P t → l.foldlM (forceMap P env) t = some t' →
        EptInv P t' ∧ KeepsMaps P env t t' := by
    intro l
    induction l with
    | nil =>
      rintro - t t' ht ⟨⟩
      exact ⟨ht, KeepsMaps.refl t⟩
    | cons r l ih =>
      intro hl t t' ht hrun
      rw [List.foldlM_cons] at hrun
      obtain ⟨t₁, hone, hrest⟩ := Option.bind_eq_some_iff.mp hrun
      obtain ⟨ht₁, hkeep₁⟩ := forceMap_spec ht (hl r List.mem_cons_self) hone
      obtain ⟨ht₂, hkeep₂⟩ := ih (fun r hr => hl r (List.mem_cons_of_mem _ hr)) ht₁ hrest
      exact ⟨ht₂, hkeep₁.trans hkeep₂⟩
  have hs₀ : EptInv P { s with cleared := false } := ⟨hs.tables, hs.level_le, hs.coherent⟩
  obtain ⟨hs₁, hkeep⟩ := hfold _ hrange hs₀ hmaps
  split_ifs at hend with hcleared
  cases hend
  refine ⟨hs₁, Bool.eq_false_iff.mpr hcleared, fun g hg hm => ?_⟩
  exact (hkeep.resolve_left hcleared).2 g hg hm

/-- After a violation has been handled, a fresh walk of the address ends at its page. -/
theorem vtEptMapPage_spec (hs : EptInv P s) {write : Bool} {g : BitVec 64}
    (h : vtEptMapPage P env s write g = some s') :
    EptInv P s' ∧ (g.toNat < 2 ^ 48 → Maps P s' 0 (pageValue env g) g) := by
  unfold vtEptMapPage at h
  obtain ⟨s₁, hfirst, h⟩ := Option.bind_eq_some_iff.mp h
  obtain ⟨s₂, hsub, hlast⟩ := Option.bind_eq_some_iff.mp h
  have hs₁ : EptInv P s₁ := by
    split_ifs at hfirst
    · exact (vtEptMapPageClearCleared_spec hs hfirst).1
    · cases hfirst
      exact hs
  obtain ⟨hs₂, hmaps, -⟩ := vtEptMapPageSub_spec hs₁ hsub
  split_ifs at hlast
  · obtain ⟨hs₃, -, hkeep⟩ := vtEptMapPageClearCleared_spec hs₂ hlast
    exact ⟨hs₃, fun hg => hkeep g hg hmaps⟩
  · cases hlast
    exact ⟨hs₂, fun _ => hmaps⟩

/-! ### Dropping mappings -/

theorem vtEptClearAll_inv (P : EptPages) (s : VtEpt) : EptInv P (vtEptClearAll P s) :=
  ⟨⟨fun _ => 0, resetTables_tables P s 4 _⟩, Nat.le_refl 4, fun l hl hl3 => by
    have : 4 ≤ l := hl
    omega⟩

/-- The pages of the pool are addresses of the processor, and none of them is in the range. -/
def NoPoolPage (P : EptPages) (mask start last : BitVec 64) : Prop :=
  ∀ i < numOfEptbl, P.link i &&& mask = BitVec.ofNat 64 (P.tbl i) ∧
    ¬ (start.toNat ≤ P.tbl i + 4095 ∧ P.tbl i ≤ last.toNat)

theorem mapsRange_link {mask start last : BitVec 64} (h : NoPoolPage P mask start last) {i : Nat}
    (hi : i < numOfEptbl) : mapsRange mask start last (P.link i) = false := by
  obtain ⟨hmask, hout⟩ := h i hi
  have hlt := P.tbl_lt i
  have hend : (BitVec.ofNat 64 (P.tbl i) ||| 0xFFF).toNat = P.tbl i + 4095 := by
    rw [BitVec.toNat_or, BitVec.toNat_ofNat, Nat.mod_eq_of_lt (by omega)]
    exact page_or (P.tbl_page i) (by decide)
  unfold mapsRange
  rw [P.present_link, P.large_link, hmask]
  simp only [Bool.not_true, Bool.false_eq_true, if_false, decide_eq_false_iff_not]
  rw [BitVec.le_def, BitVec.le_def, hend, BitVec.toNat_ofNat, Nat.mod_eq_of_lt (by omega)]
  exact hout

/-- Clearing the mappings of a range without pages of the pool leaves the tables as they are. -/
theorem vtEptExternMapsearch_inv (hs : EptInv P s) {mask start last : BitVec 64}
    (hrange : NoPoolPage P mask start last) (current : Bool) :
    EptInv P (vtEptExternMapsearch P mask current start last s).2 := by
  unfold vtEptExternMapsearch
  dsimp only
  split_ifs
  · exact hs
  obtain ⟨lvl, ht⟩ := hs.tables
  generalize ((List.range s.cnt).flatMap fun i => (List.range entries).map fun j =>
    P.tbl i + 8 * j) = all
  generalize hm : (fun a => if a ∈ all ∧ mapsRange mask start last (s.mem a) = true then 0
    else s.mem a) = m'
  have hval : ∀ a, m' a = s.mem a ∨
      (m' a = 0 ∧ mapsRange mask start last (s.mem a) = true) := by
    intro a
    rw [← hm]
    dsimp only
    split_ifs with h
    · exact Or.inr ⟨rfl, h.2⟩
    · exact Or.inl rfl
  -- an entry that points to a table stays
  have htable : ∀ t k, InUse s.cnt t → 0 < tableLevel lvl t → k < entries →
      (isTable (m' (P.page t + 8 * k)) = true ∨ isTable (s.mem (P.page t + 8 * k)) = true) →
        m' (P.page t + 8 * k) = s.mem (P.page t + 8 * k) := by
    intro t k hin hpos hk h
    rcases hval (P.page t + 8 * k) with heq | ⟨hzero, hfound⟩
    · exact heq
    · rw [hzero] at h
      have hold := h.resolve_left (by decide)
      obtain ⟨j, hj, hlink, -⟩ := ht.link t k hin hpos hk hold
      rw [hlink, mapsRange_link hrange (Nat.lt_of_lt_of_le hj ht.cnt_le)] at hfound
      exact absurd hfound Bool.false_ne_true
  refine ⟨⟨lvl, ht.cnt_le, ht.lvl_lt, fun t k hin hpos hk h => ?_, ?_⟩, hs.level_le,
    fun l hl hl3 => ?_⟩
  · have heq := htable t k hin hpos hk (Or.inl h)
    dsimp only at h ⊢
    rw [heq] at h ⊢
    exact ht.link t k hin hpos hk h
  · intro t k t' k' j hin hin' hpos hpos' hk hk' hj h h'
    dsimp only at h h'
    have heq := htable t k hin hpos hk (Or.inl (by rw [h, P.isTable_link]))
    have heq' := htable t' k' hin' hpos' hk' (Or.inl (by rw [h', P.isTable_link]))
    exact ht.unique t k t' k' j hin hin' hpos hpos' hk hk' hj (heq.symm.trans h) (heq'.symm.trans h')
  · refine Eq.trans (entryAt_congr fun e he p hp => ?_) (hs.coherent l hl hl3)
    obtain ⟨t, hin, htl, rfl⟩ := ht.located (by omega) hp
    by_cases h : isTable (s.mem (P.page t + 8 * index s.gphys.toNat (3 - e))) = true
    · exact Or.inl (htable t _ hin (by omega) (index_lt _ _) (Or.inr h))
    · refine Or.inr ⟨Bool.eq_false_iff.mpr h, ?_⟩
      by_contra h'
      rw [Bool.not_eq_false] at h'
      exact h (by
        rw [← htable t _ hin (by omega) (index_lt _ _) (Or.inl h')]
        exact h')

end

end OnDemandVirt.Vmm
