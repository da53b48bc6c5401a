import OnDemandVirt.Vmm.ShadowPage

/-!
# What the shadow entries permit

After a page fault that maps a page, the shadow entries permit no access that the guest's entries
refuse. They permit writing a page whose dirty bit is clear in one case only: with CR0.WP clear, a
page of the supervisor gets the right to write whatever its dirty bit says.
-/

namespace OnDemandVirt.Vmm

open Lib Lib.X86

/-! ### The rights of the guest's entries -/

/-- Rights under the entries `lo` to `hi - 1` and under `top`. -/
structure MapPageData2.Under (m top : MapPageData2) (entries : Nat → BitVec 64) (lo hi : Nat) :
    Prop where
  rw_iff : m.rw = true ↔ top.rw = true ∧ ∀ k, lo ≤ k → k < hi → writable (entries k) = true
  us_iff : m.us = true ↔ top.us = true ∧ ∀ k, lo ≤ k → k < hi → user (entries k) = true
  nx_iff : m.nx = true ↔ top.nx = true ∨ ∃ k, lo ≤ k ∧ k < hi ∧ noExec (entries k) = true

theorem setM2Loop_of_le {entries : Nat → BitVec 64} {n j : Nat} (h : n ≤ j) (m : MapPageData2)
    (m2 : Nat → MapPageData2) : setM2Loop entries n m m2 j = m2 j := by
  induction n generalizing m m2 with
  | zero => rfl
  | succ n ih =>
    rw [setM2Loop, ih (Nat.le_of_succ_le h), Function.update_of_ne (by omega)]

/-- The rights after the entry `i`. -/
def MapPageData2.restrict (m : MapPageData2) (e : BitVec 64) : MapPageData2 where
  rw := if e &&& pdeRwBit = 0 then false else m.rw
  us := if e &&& pdeUsBit = 0 then false else m.us
  nx := if e &&& pdeNxBit ≠ 0 then true else m.nx

theorem setM2Loop_succ (entries : Nat → BitVec 64) (n : Nat) (m : MapPageData2)
    (m2 : Nat → MapPageData2) :
    setM2Loop entries (n + 1) m m2 =
      setM2Loop entries n (m.restrict (entries n)) (Function.update m2 n (m.restrict (entries n))) :=
  rfl

theorem MapPageData2.restrict_rw (m : MapPageData2) (e : BitVec 64) :
    (m.restrict e).rw = true ↔ m.rw = true ∧ writable e = true := by
  rw [← and_pdeRwBit]
  by_cases h : e &&& pdeRwBit = 0#64 <;> simp [restrict, h]

theorem MapPageData2.restrict_us (m : MapPageData2) (e : BitVec 64) :
    (m.restrict e).us = true ↔ m.us = true ∧ user e = true := by
  rw [← and_pdeUsBit]
  by_cases h : e &&& pdeUsBit = 0#64 <;> simp [restrict, h]

theorem MapPageData2.restrict_nx (m : MapPageData2) (e : BitVec 64) :
    (m.restrict e).nx = true ↔ m.nx = true ∨ noExec e = true := by
  rw [← and_pdeNxBit]
  by_cases h : e &&& pdeNxBit = 0#64 <;> simp [restrict, h]

/-- Facts about `entries n` and those from `j` to `n - 1` are one about those from `j` to `n`. -/
theorem and_forall_lt_succ {P : Nat → Prop} {j n : Nat} (h : j ≤ n) :
    (P n ∧ ∀ k, j ≤ k → k < n → P k) ↔ ∀ k, j ≤ k → k < n + 1 → P k := by
  constructor
  · rintro ⟨hn, hall⟩ k hj hk
    rcases Nat.lt_succ_iff_lt_or_eq.mp hk with hlt | rfl
    · exact hall k hj hlt
    · exact hn
  · intro hall
    exact ⟨hall n h (Nat.lt_succ_self n), fun k hj hk => hall k hj (Nat.lt_succ_of_lt hk)⟩

theorem or_exists_lt_succ {P : Nat → Prop} {j n : Nat} (h : j ≤ n) :
    (P n ∨ ∃ k, j ≤ k ∧ k < n ∧ P k) ↔ ∃ k, j ≤ k ∧ k < n + 1 ∧ P k := by
  constructor
  · rintro (hn | ⟨k, hj, hk, hp⟩)
    · exact ⟨n, h, Nat.lt_succ_self n, hn⟩
    · exact ⟨k, hj, Nat.lt_succ_of_lt hk, hp⟩
  · rintro ⟨k, hj, hk, hp⟩
    rcases Nat.lt_succ_iff_lt_or_eq.mp hk with hlt | rfl
    · exact .inr ⟨k, hj, hlt, hp⟩
    · exact .inl hp

/-- The loop of `set_m2` leaves in `m2[j]` the rights under the entries from the topmost to `j`. -/
theorem setM2Loop_under {entries : Nat → BitVec 64} {n j : Nat} (h : j < n) (m : MapPageData2)
    (m2 : Nat → MapPageData2) : (setM2Loop entries n m m2 j).Under m entries j n := by
  induction n generalizing m m2 with
  | zero => exact absurd h (Nat.not_lt_zero j)
  | succ n ih =>
    have hle : j ≤ n := Nat.lt_succ_iff.mp h
    have hunder : (setM2Loop entries (n + 1) m m2 j).Under (m.restrict (entries n)) entries j n := by
      rw [setM2Loop_succ]
      rcases Nat.lt_or_eq_of_le hle with hlt | rfl
      · exact ih hlt _ _
      · rw [setM2Loop_of_le (Nat.le_refl j), Function.update_self]
        exact
          { rw_iff := ⟨fun hrw => ⟨hrw, fun k hj hk => absurd hk (Nat.not_lt.mpr hj)⟩, And.left⟩
            us_iff := ⟨fun hus => ⟨hus, fun k hj hk => absurd hk (Nat.not_lt.mpr hj)⟩, And.left⟩
            nx_iff :=
              ⟨.inl, fun hnx => hnx.elim id fun ⟨k, hj, hk, _⟩ => absurd hk (Nat.not_lt.mpr hj)⟩ }
    exact
      { rw_iff := by
          rw [hunder.rw_iff, MapPageData2.restrict_rw, and_assoc,
            and_forall_lt_succ (P := fun k => writable (entries k) = true) hle]
        us_iff := by
          rw [hunder.us_iff, MapPageData2.restrict_us, and_assoc,
            and_forall_lt_succ (P := fun k => user (entries k) = true) hle]
        nx_iff := by
          rw [hunder.nx_iff, MapPageData2.restrict_nx, or_assoc,
            or_exists_lt_succ (P := fun k => noExec (entries k) = true) hle] }

section

variable (entries : Nat → BitVec 64) (levels : Nat)

/-- The entries from the topmost to `j` have a bit. -/
def AllFrom (bit : BitVec 64 → Bool) (j : Nat) : Prop :=
  ∀ k, j ≤ k → k ≤ levels → bit (entries k) = true

/-- One of the entries from the topmost to `j` has a bit. -/
def SomeFrom (bit : BitVec 64 → Bool) (j : Nat) : Prop :=
  ∃ k, j ≤ k ∧ k ≤ levels ∧ bit (entries k) = true

variable {entries levels} (m2 : Nat → MapPageData2)

/-- `m2[j]` but for the dirty bit. -/
theorem setM2_eq (j : Nat) :
    setM2 entries levels m2 j =
      { setM2Loop entries (levels + 1) ⟨true, true, false⟩ m2 j with
        rw := (setM2Loop entries (levels + 1) ⟨true, true, false⟩ m2 j).rw &&
          !(j == 0 && entries 0 &&& pdeDBit == 0) } := by
  unfold setM2
  dsimp only
  by_cases hd : entries 0 &&& pdeDBit = 0
  · rw [if_pos hd, hd]
    rcases Nat.eq_zero_or_pos j with rfl | hj
    · simp
    · have hne : j ≠ 0 := Nat.ne_of_gt hj
      simp [hne, beq_false_of_ne hne]
  · rw [if_neg hd, beq_false_of_ne hd, Bool.and_false, Bool.not_false, Bool.and_true]

theorem setM2_us {j : Nat} (h : j ≤ levels) :
    (setM2 entries levels m2 j).us = true ↔ AllFrom entries levels user j := by
  rw [setM2_eq, (setM2Loop_under (Nat.lt_succ_of_le h) _ m2).us_iff]
  simp only [AllFrom, true_and, Nat.lt_succ_iff]

theorem setM2_nx {j : Nat} (h : j ≤ levels) :
    (setM2 entries levels m2 j).nx = true ↔ SomeFrom entries levels noExec j := by
  rw [setM2_eq, (setM2Loop_under (Nat.lt_succ_of_le h) _ m2).nx_iff]
  simp only [SomeFrom, Bool.false_eq_true, false_or, Nat.lt_succ_iff]

theorem setM2_rw {j : Nat} (h : j ≤ levels) :
    (setM2 entries levels m2 j).rw = true ↔
      AllFrom entries levels writable j ∧ (j = 0 → entries 0 &&& pdeDBit ≠ 0) := by
  rw [setM2_eq, Bool.and_eq_true, (setM2Loop_under (Nat.lt_succ_of_le h) _ m2).rw_iff]
  simp only [AllFrom, true_and, Nat.lt_succ_iff]
  refine and_congr_right fun _ => ?_
  by_cases hj : j = 0 <;> simp [hj]

end

/-! ### The walk -/

section

variable {mask : BitVec 64} {d : GetPteData} {levels n : Nat} {mem mem' : TableMem} {m m' : Pmap}
  {e : BitVec 64} {entries entries' : Nat → BitVec 64}

theorem and_pdeDBit : e &&& pdeDBit ≠ 0 ↔ e.getLsbD 6 = true :=
  and_bit_ne_zero_iff (by decide) (by decide)

/-- An entry after `set_ad_bit`: present as before, and dirty where it has to be. -/
theorem setAdBit_entry {fail seta setd : Bool} {x : BitVec 64}
    (h : setAdBit mem m e seta setd = some (fail, mem', m', x)) :
    present x = present e ∧ (setd = true → x &&& pdeDBit ≠ 0) := by
  unfold setAdBit at h
  dsimp only at h
  split at h
  · obtain ⟨⟨fail', mem'', m''⟩, -, heq⟩ := Option.map_eq_some_iff.mp h
    cases heq
    constructor
    · split_ifs <;> simp [present, pdeABit, pdeDBit]
    · intro hsetd
      rw [and_pdeDBit]
      by_cases hd : e.getLsbD 6 = true
      · split_ifs <;> simp [hd]
      · have hz : e &&& pdeDBit = 0 := not_not.mp (mt and_pdeDBit.1 hd)
        have hcond : (setd && e &&& pdeDBit == 0) = true := by
          rw [hsetd, hz]
          rfl
        rw [if_pos hcond, BitVec.getLsbD_or]
        simp [pdeDBit]
  · rename_i hno
    cases h
    refine ⟨rfl, fun hsetd hz => hno ?_⟩
    rw [hsetd, hz]
    simp

theorem getPteEntry_error {i : Nat} {err : Vmmerr} (h : getPteEntry mask d levels i n mem m =
    some (mem', .error err)) : err ≠ .success := by
  induction n generalizing mem m with
  | zero => cases h
  | succ n ih =>
    unfold getPteEntry at h
    dsimp only at h
    split at h
    · cases h
      decide
    · obtain ⟨reserved, -, h⟩ := Option.bind_eq_some_iff.mp h
      split at h
      · cases h
        decide
      · split at h
        · rename_i hrefuses
          cases h
          rcases entryRefuses_cases d _ with hnone | hno | hno
          · exact absurd (hrefuses.symm.trans hnone) (Option.some_ne_none _)
          · exact Option.some.inj (hrefuses.symm.trans hno) ▸ (by decide)
          · exact Option.some.inj (hrefuses.symm.trans hno) ▸ (by decide)
        · obtain ⟨⟨fail, mem'', m'', x⟩, -, h⟩ := Option.bind_eq_some_iff.mp h
          dsimp only at h
          split at h
          · exact ih h
          · cases h

/-- An entry that `get_pte_sub` accepts is present, and dirty where a page is written through it. -/
theorem getPteEntry_entry {i : Nat} (h : getPteEntry mask d levels i n mem m =
    some (mem', .ok (m', e))) :
    present e = true ∧ (i = 1 → d.write = true → e &&& pdeDBit ≠ 0) := by
  induction n generalizing mem m with
  | zero => cases h
  | succ n ih =>
    unfold getPteEntry at h
    dsimp only at h
    split at h
    · cases h
    · rename_i hpresent
      obtain ⟨reserved, -, h⟩ := Option.bind_eq_some_iff.mp h
      split at h
      · cases h
      · split at h
        · cases h
        · obtain ⟨⟨fail, mem'', m'', x⟩, had, h⟩ := Option.bind_eq_some_iff.mp h
          dsimp only at h
          split at h
          · exact ih h
          · cases h
            obtain ⟨hp, hd⟩ := setAdBit_entry had
            refine ⟨hp.trans ?_, fun hi hw => hd ?_⟩
            · have hread : (pmapRead mem m).1.getLsbD 0 = true := and_pdePBit.mp hpresent
              split_ifs <;> simp [present, hread, pdeRwBit, pdeUsBit, pdeABit, pdePsBit]
            · simp [hi, hw]

/-- The entries of a walk that succeeds. -/
theorem getPteLoop_entries {i : Nat} (h : getPteLoop mask d levels n i mem m entries =
    some (.success, mem', entries')) :
    (∀ k < i, present (entries' k) = true) ∧ (∀ k, i ≤ k → entries' k = entries k) ∧
      (0 < i → d.write = true → entries' 0 &&& pdeDBit ≠ 0) := by
  induction i generalizing mem m entries with
  | zero =>
    cases h
    exact ⟨fun k hk => absurd hk (Nat.not_lt_zero k), fun _ _ => rfl, fun h0 => absurd h0 (by decide)⟩
  | succ i ih =>
    rw [getPteLoop] at h
    obtain ⟨⟨mem'', r⟩, hentry, h⟩ := Option.bind_eq_some_iff.mp h
    cases r with
    | error err =>
      cases h
      exact absurd rfl (getPteEntry_error hentry)
    | ok r =>
      obtain ⟨hbelow, habove, hdirty⟩ := ih h
      have hat := habove i (Nat.le_refl i)
      rw [Function.update_self] at hat
      obtain ⟨hp, hd⟩ := getPteEntry_entry hentry
      refine ⟨fun k hk => ?_, fun k hk => ?_, fun _ hw => ?_⟩
      · rcases Nat.lt_succ_iff_lt_or_eq.mp hk with hlt | rfl
        · exact hbelow k hlt
        · rw [hat]
          exact hp
      · rw [habove k (Nat.le_of_succ_le hk), Function.update_of_ne (by omega)]
      · rcases Nat.eq_zero_or_pos i with rfl | hi
        · rw [hat]
          exact hd rfl hw
        · exact hdirty hi hw

theorem pagingLevels_spec (d : GetPteData) :
    0 < (pagingLevels d).1 ∧ (pagingLevels d).2.write = d.write := by
  unfold pagingLevels
  split_ifs <;> simp

/-- The entries that `cpu_mmu_get_pte` leaves. -/
theorem cpuMmuGetPte_entries {virt cr0 cr3 cr4 efer : BitVec 64} {write user exec : Bool}
    (h : cpuMmuGetPte mask n mem m virt cr0 cr3 cr4 efer write user exec entries =
      some (.success, mem', entries', levels)) :
    0 < levels ∧ (∀ k < levels, present (entries' k) = true) ∧
      (write = true → entries' 0 &&& pdeDBit ≠ 0) := by
  unfold cpuMmuGetPte getPteSub at h
  dsimp only at h
  split at h
  · cases h
    refine ⟨by decide, fun k hk => ?_, fun _ => ?_⟩
    · rw [Nat.lt_one_iff.mp hk, Function.update_of_ne (by decide), Function.update_self]
      simp [present, pdePBit]
    · rw [Function.update_of_ne (by decide), Function.update_self, and_pdeDBit]
      simp [pdeDBit]
  · obtain ⟨⟨err, mem'', entries''⟩, hloop, heq⟩ := Option.map_eq_some_iff.mp h
    cases heq
    obtain ⟨hbelow, -, hdirty⟩ := getPteLoop_entries hloop
    obtain ⟨hlevels, hwrite⟩ := pagingLevels_spec _
    exact ⟨hlevels, hbelow, fun hw => hdirty hlevels (hwrite.trans hw)⟩

end

/-! ### The registers -/

/-- `spt->wp` is CR0.WP. -/
theorem SptRegs.updateCr3_wp {r : SptRegs} {regs : PagingRegs}
    (h : regs ≠ r.regs ∨ r.wp = hasBit r.regs.cr0 cr0WpBit) :
    (r.updateCr3 regs).wp = hasBit (r.updateCr3 regs).regs.cr0 cr0WpBit := by
  unfold updateCr3
  split
  · cases r.wp <;> cases hasBit regs.cr0 cr0WpBit <;> rfl
  · rename_i heq
    exact h.resolve_left heq

theorem wp_of_reachable {r : SptRegs} (h : sptMachine.Reachable r) :
    r.wp = hasBit r.regs.cr0 cr0WpBit := by
  refine Machine.ReachableWhen.invariant (I := fun r => r.wp = hasBit r.regs.cr0 cr0WpBit) ?_ ?_ h
  · rintro r ⟨regs, hload, rfl⟩
    refine SptRegs.updateCr3_wp (.inl fun heq => ?_)
    rw [heq] at hload
    exact absurd hload (by decide)
  · intro r regs r' hr _ hstep
    obtain ⟨-, heq⟩ := Option.ite_none_right_eq_some.mp hstep
    cases heq
    exact SptRegs.updateCr3_wp (.inr hr)

/-! ### The page table entry -/

/-- A bit that is a flag of an entry: present, writable, user or no execution. -/
def FlagIndex (i : Nat) : Prop := i = 0 ∨ i = 1 ∨ i = 2 ∨ i = 63

theorem getLsbD_setpte (p : Pmap) (b : ShadowBook) (pte : BitVec 64) (rw : Bool) {i : Nat}
    (hi : FlagIndex i) :
    (setpte p b pte rw).getLsbD i =
      (pte.getLsbD i && !(i == 1 && rw && b.dropRw && !decide (b.PteStays pte))) := by
  unfold setpte
  by_cases hstays : b.PteStays pte
  · have hbit := congrArg (fun x => x.getLsbD i) hstays
    rw [if_pos hstays, decide_eq_true hstays]
    rcases hi with rfl | rfl | rfl | rfl <;> simpa [pdeABit, pdeDBit] using hbit
  · have hwrite : (writeEntry (pmapSetlevel p 1) pte (pteAttrmask.setWidth 32)).getLsbD i =
        pte.getLsbD i := by
      apply getLsbD_writeEntry
      · rcases hi with rfl | rfl | rfl | rfl <;> decide
      · rw [attrdef_pte]
        rcases hi with rfl | rfl | rfl | rfl <;> decide
    rw [if_neg hstays, decide_eq_false hstays]
    dsimp only
    split
    · rename_i hdrop
      rw [BitVec.getLsbD_and, hwrite]
      obtain ⟨hrw, hd⟩ := Bool.and_eq_true_iff.mp hdrop
      rcases hi with rfl | rfl | rfl | rfl <;> simp [hrw, hd, pdeRwBit]
    · rename_i hdrop
      rw [hwrite]
      cases rw <;> cases hb : b.dropRw <;> simp_all

theorem getLsbD_shadowPte {hphys : BitVec 64} (m1 : MapPageData1) (m : MapPageData2) {i : Nat}
    (hi : FlagIndex i) (hphys_i : hphys.getLsbD i = false) :
    (shadowPte hphys m1 m).getLsbD i =
      if i = 0 then true else if i = 1 then m.rw else if i = 2 then m.us else m.nx := by
  unfold shadowPte
  simp only [BitVec.getLsbD_or, hphys_i]
  rcases hi with rfl | rfl | rfl | rfl <;>
    simp [getElem_flag, pdePBit, pdeRwBit, pdeUsBit, pdeNxBit, pdeDBit, ptePwtBit, ptePcdBit,
      ptePatBit]

theorem getLsbD_getPteAddrMask (n : Nat) : (getPteAddrMask n).getLsbD 63 = false := by
  have hclip : getPteAddrMask n = getPteAddrMask (min (max n 32) 52) := by
    unfold getPteAddrMask
    dsimp only
    congr 3
    split_ifs <;> omega
  rw [hclip, getPteAddrMask_eq (by omega) (by omega), getLsbD_bits, decide_eq_false_iff_not]
  omega

/-- A page has no flags in its address. -/
theorem getLsbD_gp2hp (phys : GuestPhys) (entries : Nat → BitVec 64) {i : Nat}
    (hi : FlagIndex i) :
    (phys.gp2hp (setGfns (getPteAddrMask phys.nbits) entries 0 <<< 12)).1.getLsbD i = false := by
  unfold GuestPhys.gp2hp
  split
  · rcases hi with rfl | rfl | rfl | rfl <;> simp
  · have hgfn : setGfns (getPteAddrMask phys.nbits) entries 0 =
        (entries 0 &&& getPteAddrMask phys.nbits) >>> 12 := by
      simp [setGfns]
    have hmask : (getPteAddrMask phys.nbits)[63] = false := getLsbD_getPteAddrMask phys.nbits
    rw [hgfn, BitVec.getLsbD_shiftLeft, BitVec.getLsbD_ushiftRight, BitVec.getLsbD_and]
    rcases hi with rfl | rfl | rfl | rfl <;> simp [hmask]

/-! ### The shadow entries -/

theorem adjusted_us {wp : Bool} {m1 : MapPageData1} {m : MapPageData2}
    (h : (adjusted wp m1 m).us = true) : m.us = true := by
  obtain ⟨rw, us, nx⟩ := m
  revert h
  cases wp <;> cases rw <;> cases us <;> simp [adjusted, wpClear]

theorem adjusted_nx (wp : Bool) (m1 : MapPageData1) (m : MapPageData2) :
    (adjusted wp m1 m).nx = m.nx := by
  unfold adjusted wpClear
  dsimp only
  split_ifs <;> rfl

/-- Only the supervisor gets a right to write that the guest's entries do not give, and only with
CR0.WP clear. -/
theorem adjusted_rw {wp : Bool} {m1 : MapPageData1} {m : MapPageData2}
    (h : (adjusted wp m1 m).rw = true) (hus : wp = true ∨ (adjusted wp m1 m).us = true) :
    m.rw = true := by
  obtain ⟨rw, us, nx⟩ := m
  revert h hus
  cases wp <;> cases rw <;> cases us <;> simp [adjusted, wpClear]
  all_goals cases m1.write <;> cases m1.user <;> simp

/-- The adjustment for a fault that writes nothing. -/
theorem adjusted_of_read {m1 : MapPageData1} (hw : m1.write = false) (m : MapPageData2) :
    adjusted false m1 m = if m.us then m else { m with rw := true } := by
  obtain ⟨rw, us, nx⟩ := m
  cases us <;> simp [adjusted, wpClear, hw]

section

variable (phys : GuestPhys) (p : Pmap) (b : ShadowBook) (view : ShadowView) (m1 : MapPageData1)
  (m2 : Nat → MapPageData2) (gfns : Nat → BitVec 64) (wp : Bool)

/-- The PTE that `map_page` goes to write. -/
def newPte : BitVec 64 :=
  let (hphys, m0) := leafData phys wp m1 (m2 0) (gfns 0)
  shadowPte hphys m1 m0

/-- The flags of the entries after `map_page`. -/
structure MapPageFlags (view' : ShadowView) : Prop where
  present_pde : present view'.pde = true
  writable_pde : writable view'.pde = (adjusted wp m1 (m2 1)).rw
  user_pde : user view'.pde = (adjusted wp m1 (m2 1)).us
  noExec_pde : noExec view'.pde = (adjusted wp m1 (m2 1)).nx
  present_pte : present view'.pte = true
  writable_pte : writable view'.pte =
    ((adjusted wp m1 (m2 0)).rw && !phys.inVmm (gfns 0 <<< 12) &&
      !(b.dropRw && !decide (b.PteStays (newPte phys m1 m2 gfns wp))))
  user_pte : user view'.pte = (adjusted wp m1 (m2 0)).us
  noExec_pte : noExec view'.pte = (adjusted wp m1 (m2 0)).nx

end

theorem leafData_rw (phys : GuestPhys) (wp : Bool) (m1 : MapPageData1) (m : MapPageData2)
    (gfn : BitVec 64) : (leafData phys wp m1 m gfn).2.rw =
      ((adjusted wp m1 m).rw && !phys.inVmm (gfn <<< 12)) := by
  unfold leafData GuestPhys.gp2hp
  cases phys.inVmm (gfn <<< 12) <;> simp

theorem leafData_us (phys : GuestPhys) (wp : Bool) (m1 : MapPageData1) (m : MapPageData2)
    (gfn : BitVec 64) : (leafData phys wp m1 m gfn).2.us = (adjusted wp m1 m).us := by
  unfold leafData GuestPhys.gp2hp
  cases phys.inVmm (gfn <<< 12) <;> rfl

theorem leafData_nx (phys : GuestPhys) (wp : Bool) (m1 : MapPageData1) (m : MapPageData2)
    (gfn : BitVec 64) : (leafData phys wp m1 m gfn).2.nx = (adjusted wp m1 m).nx := by
  unfold leafData GuestPhys.gp2hp
  cases phys.inVmm (gfn <<< 12) <;> rfl

section

variable {phys : GuestPhys} {p : Pmap} {b : ShadowBook} {view view' : ShadowView}
  {m1 : MapPageData1} {m2 : Nat → MapPageData2} {entries : Nat → BitVec 64} {wp : Bool}

theorem mapPage_flags
    (h : mapPage phys p b wp view m1 m2 (setGfns (getPteAddrMask phys.nbits) entries) =
      some view') :
    MapPageFlags phys b m1 m2 (setGfns (getPteAddrMask phys.nbits) entries) wp view' := by
  unfold mapPage at h
  dsimp only at h
  split at h
  · cases h
  · cases h
    set gfns := setGfns (getPteAddrMask phys.nbits) entries with hgfns
    have hpte : ∀ i, FlagIndex i → (newPte phys m1 m2 gfns wp).getLsbD i =
        if i = 0 then true
        else if i = 1 then (adjusted wp m1 (m2 0)).rw && !phys.inVmm (gfns 0 <<< 12)
        else if i = 2 then (adjusted wp m1 (m2 0)).us else (adjusted wp m1 (m2 0)).nx := by
      intro i hi
      have hpage : (leafData phys wp m1 (m2 0) (gfns 0)).1.getLsbD i = false := by
        rw [hgfns]
        exact getLsbD_gp2hp phys entries hi
      rw [newPte, getLsbD_shadowPte m1 _ hi hpage, leafData_rw, leafData_us, leafData_nx]
    have h0 : FlagIndex 0 := .inl rfl
    have h1 : FlagIndex 1 := .inr (.inl rfl)
    have h2 : FlagIndex 2 := .inr (.inr (.inl rfl))
    have h63 : FlagIndex 63 := .inr (.inr (.inr rfl))
    exact
      { present_pde := and_pdePBit.mp (setpde_present p b view.pde_present _)
        writable_pde := getLsbD_setpde p b _ _ h1
        user_pde := getLsbD_setpde p b _ _ h2
        noExec_pde := getLsbD_setpde p b _ _ h63
        present_pte := by
          rw [present, getLsbD_setpte p b _ _ h0]
          exact (congrArg (· && true) (hpte 0 h0))
        writable_pte := by
          rw [writable, getLsbD_setpte p b _ _ h1]
          change ((newPte phys m1 m2 gfns wp).getLsbD 1 && !(true &&
            (leafData phys wp m1 (m2 0) (gfns 0)).2.rw && b.dropRw &&
              !decide (b.PteStays (newPte phys m1 m2 gfns wp)))) = _
          rw [hpte 1 h1, if_neg (by decide), if_pos rfl, leafData_rw]
          cases (adjusted wp m1 (m2 0)).rw && !phys.inVmm (gfns 0 <<< 12) <;> simp
        user_pte := by
          rw [user, getLsbD_setpte p b _ _ h2]
          exact (congrArg (· && true) (hpte 2 h2)).trans (Bool.and_true _)
        noExec_pte := by
          rw [noExec, getLsbD_setpte p b _ _ h63]
          exact (congrArg (· && true) (hpte 63 h63)).trans (Bool.and_true _) }

end

/-! ### Safety -/

instance (entries : Nat → BitVec 64) (levels : Nat) (bit : BitVec 64 → Bool) (j : Nat) :
    Decidable (AllFrom entries levels bit j) :=
  decidable_of_iff (∀ k, k < levels + 1 → j ≤ k → bit (entries k) = true)
    ⟨fun h k hj hk => h k (Nat.lt_succ_of_le hk) hj,
      fun h k hk hj => h k hj (Nat.le_of_lt_succ hk)⟩

instance (entries : Nat → BitVec 64) (levels : Nat) (bit : BitVec 64 → Bool) (j : Nat) :
    Decidable (SomeFrom entries levels bit j) :=
  decidable_of_iff (∃ k, k < levels + 1 ∧ j ≤ k ∧ bit (entries k) = true)
    ⟨fun ⟨k, hk, hj, h⟩ => ⟨k, hj, Nat.le_of_lt_succ hk, h⟩,
      fun ⟨k, hj, hk, h⟩ => ⟨k, Nat.lt_succ_of_le hk, hj, h⟩⟩

/-- The page that the guest's leaf maps. -/
def guestPage (phys : GuestPhys) (entries : Nat → BitVec 64) : BitVec 64 :=
  setGfns (getPteAddrMask phys.nbits) entries 0 <<< 12

/-- The PTE of that page for the supervisor to read and write, with the guest's attributes. -/
def supervisorPte (phys : GuestPhys) (entries : Nat → BitVec 64) (levels : Nat) : BitVec 64 :=
  shadowPte (guestPage phys entries)
    (setM1 (phys.attr (guestPage phys entries) (entries 0 &&& 0xFFF)) false false false)
    ⟨true, false, decide (SomeFrom entries levels noExec 0)⟩

/-- A clean page of the supervisor that becomes writable, CR0.WP being clear: the tables above it
do not forbid writing or are the supervisor's too, it is not in the VMM, and the bookkeeping does
not take the right away again. -/
structure LosesDirty (phys : GuestPhys) (regs : PagingRegs) (b : ShadowBook)
    (entries : Nat → BitVec 64) (levels : Nat) : Prop where
  wp : hasBit regs.cr0 cr0WpBit = false
  clean : entries 0 &&& pdeDBit = 0
  supervisor : ¬ AllFrom entries levels user 0
  above : AllFrom entries levels writable 1 ∨ ¬ AllFrom entries levels user 1
  guest : phys.inVmm (guestPage phys entries) = false
  kept : b.dropRw = true → b.PteStays (supervisorPte phys entries levels)

section

variable {phys : GuestPhys} {r : SptRegs} {n levels : Nat} {mem mem' : TableMem} {m p : Pmap}
  {b : ShadowBook} {view view' : ShadowView} {entries entries' : Nat → BitVec 64}
  {m2 : Nat → MapPageData2} {err cr2 : BitVec 64}

/-- What is known after a page fault that maps a page. -/
theorem cpuMmuSptPagefault_mapped
    (h : cpuMmuSptPagefault phys r n mem m p b view entries m2 err cr2 =
      some (mem', .mapped view', entries', levels)) :
    (0 < levels ∧ (∀ k < levels, present (entries' k) = true) ∧
      (hasBit err pagefaultErrWrBit = true → entries' 0 &&& pdeDBit ≠ 0)) ∧
    MapPageFlags phys b
      (setM1 (phys.attr (guestPage phys entries') (entries' 0 &&& 0xFFF))
        (hasBit err pagefaultErrWrBit) (hasBit err pagefaultErrUsBit)
        (hasBit r.regs.cr0 cr0WpBit))
      (setM2 entries' levels m2) (setGfns (getPteAddrMask phys.nbits) entries') r.wp view' := by
  unfold cpuMmuSptPagefault at h
  dsimp only at h
  obtain ⟨⟨e, mem'', entries'', levels'⟩, hget, heq⟩ := Option.map_eq_some_iff.mp h
  cases e with
  | success =>
    dsimp only at heq
    split at heq
    · cases heq
    · split at heq
      · cases heq
      · rename_i hmap
        cases heq
        exact ⟨cpuMmuGetPte_entries hget, mapPage_flags hmap⟩
  | pageNotPresent => cases heq
  | pageNotAccessible => cases heq
  | pageBadReservedBit => cases heq
  | pageNotExecutable => cases heq

variable {m1 : MapPageData1} {gfns : Nat → BitVec 64}

/-- The entries permit writing to a user, or to the supervisor with CR0.WP set, where the guest's
entries do and the page is dirty. -/
theorem MapPageFlags.guest_rw {wp : Bool} {acc : Lib.X86.Access}
    (f : MapPageFlags phys b m1 (setM2 entries levels m2) gfns wp view)
    (hp : view.Permits acc) (hw : acc.write = true) (hus : wp = true ∨ acc.user = true) :
    AllFrom entries levels writable 0 ∧ entries 0 &&& pdeDBit ≠ 0 := by
  obtain ⟨-, huser, hwrite, -⟩ := hp
  have hrw := (hwrite hw).2
  rw [f.writable_pte, Bool.and_eq_true, Bool.and_eq_true] at hrw
  have hus' : wp = true ∨ (adjusted wp m1 (setM2 entries levels m2 0)).us = true :=
    hus.imp_right fun hu => f.user_pte ▸ (huser hu).2
  obtain ⟨hall, hdirty⟩ := (setM2_rw m2 (Nat.zero_le levels)).mp (adjusted_rw hrw.1.1 hus')
  exact ⟨hall, hdirty rfl⟩

/-- The shadow entries permit what the guest's entries permit. -/
theorem MapPageFlags.guestPermits {regs : PagingRegs} {acc : Lib.X86.Access}
    (f : MapPageFlags phys b m1 (setM2 entries levels m2) gfns (hasBit regs.cr0 cr0WpBit) view)
    (hpresent : ∀ k < levels, present (entries k) = true) (hp : view.Permits acc) :
    GuestPermits regs entries levels acc := by
  refine ⟨hpresent, fun hu k hk => ?_, fun hw hus k hk => ?_, fun hx _ k hk => ?_⟩
  · have hus := adjusted_us (f.user_pte ▸ (hp.2.1 hu).2)
    exact (setM2_us m2 (Nat.zero_le levels)).mp hus k (Nat.zero_le k) hk
  · exact (f.guest_rw hp hw hus.symm).1 k (Nat.zero_le k) hk
  · have hnx := (hp.2.2.2 hx).2
    rw [f.noExec_pte, adjusted_nx] at hnx
    by_contra hne
    have hsome := (setM2_nx m2 (Nat.zero_le levels)).mpr
      ⟨k, Nat.zero_le k, hk, Bool.not_eq_false _ ▸ hne⟩
    exact Bool.false_ne_true (hnx.symm.trans hsome)

/-- The new PTE of a clean page of the supervisor, after a fault that writes nothing. -/
theorem newPte_supervisor {user : Bool} (hguest : phys.inVmm (guestPage phys entries) = false)
    (hus : (setM2 entries levels m2 0).us = false) :
    newPte phys (setM1 (phys.attr (guestPage phys entries) (entries 0 &&& 0xFFF)) false user false)
        (setM2 entries levels m2) (setGfns (getPteAddrMask phys.nbits) entries) false =
      supervisorPte phys entries levels := by
  have hnx : (setM2 entries levels m2 0).nx = decide (SomeFrom entries levels noExec 0) := by
    rw [Bool.eq_iff_iff, setM2_nx m2 (Nat.zero_le levels), decide_eq_true_iff]
  have hadj : ∀ m : MapPageData2, m.us = false → ∀ m1 : MapPageData1, m1.write = false →
      adjusted false m1 m = ⟨true, false, m.nx⟩ := by
    rintro ⟨rw, us, nx⟩ hm m1 hw
    rw [adjusted_of_read hw]
    cases hm
    rfl
  unfold newPte leafData GuestPhys.gp2hp supervisorPte
  unfold guestPage at hguest
  rw [if_neg (by rw [hguest]; decide), hadj _ hus _ rfl, hnx]
  rfl

/-- With CR0.WP clear and the page clean, the supervisor may write exactly in the one case. -/
theorem MapPageFlags.writable_iff {regs : PagingRegs} {user : Bool}
    (hwp : hasBit regs.cr0 cr0WpBit = false) (hclean : entries 0 &&& pdeDBit = 0)
    (hlevels : 0 < levels)
    (f : MapPageFlags phys b (setM1 (phys.attr (guestPage phys entries) (entries 0 &&& 0xFFF))
      false user false) (setM2 entries levels m2)
      (setGfns (getPteAddrMask phys.nbits) entries) false view) :
    (writable view.pde = true ∧ writable view.pte = true) ↔
      LosesDirty phys regs b entries levels := by
  have hus0 : (setM2 entries levels m2 0).us = true ↔ AllFrom entries levels X86.user 0 :=
    setM2_us m2 (Nat.zero_le levels)
  have hus1 : (setM2 entries levels m2 1).us = true ↔ AllFrom entries levels X86.user 1 :=
    setM2_us m2 hlevels
  have hrw0 : (setM2 entries levels m2 0).rw = false := by
    rw [← Bool.not_eq_true, setM2_rw m2 (Nat.zero_le levels)]
    exact fun hrw => hrw.2 rfl hclean
  have hrw1 : (setM2 entries levels m2 1).rw = true ↔
      AllFrom entries levels writable 1 ∧ (1 = 0 → entries 0 &&& pdeDBit ≠ 0) :=
    setM2_rw m2 hlevels
  have hpde : writable view.pde = true ↔
      AllFrom entries levels writable 1 ∨ ¬ AllFrom entries levels X86.user 1 := by
    rw [f.writable_pde, adjusted_of_read rfl, ← hus1]
    cases hus : (setM2 entries levels m2 1).us with
    | true =>
      rw [if_pos rfl, hrw1]
      simp
    | false => simp
  have hpte : writable view.pte = true ↔
      ¬ AllFrom entries levels X86.user 0 ∧ phys.inVmm (guestPage phys entries) = false ∧
        (b.dropRw = true → b.PteStays (supervisorPte phys entries levels)) := by
    rw [f.writable_pte, adjusted_of_read rfl, ← hus0]
    cases hus : (setM2 entries levels m2 0).us with
    | true => simp [hrw0]
    | false =>
      cases hguest : phys.inVmm (guestPage phys entries) with
      | true =>
        unfold guestPage at hguest
        simp [hguest]
      | false =>
        rw [newPte_supervisor hguest hus]
        unfold guestPage at hguest
        cases b.dropRw <;> simp [hguest]
  rw [hpde, hpte]
  exact
    ⟨fun ⟨habove, hsup, hguest, hkept⟩ => ⟨hwp, hclean, hsup, habove, hguest, hkept⟩,
      fun l => ⟨l.above, l.supervisor, l.guest, l.kept⟩⟩

end

/-- A guest with 32-bit paging and CR0.WP clear. -/
def wpClearRegs : PagingRegs where
  cr0 := 0x80000001
  cr3 := 0x1000
  cr4 := 0
  efer := 0

/-- Its tables, with `e` for the page at address 0. -/
def onePage (e : BitVec 64) : TableMem := fun a =>
  if a = 0x1000 then 0x2003 else if a = 0x2000 then e else 0

def plainPhys : GuestPhys where
  nbits := 36
  inVmm _ := false
  blank := 0
  mmio _ := false
  attr _ _ := 0

def newTable : ShadowBook where
  pdeOk := false
  table := 0x10
  large := false
  pte := 0
  dropRw := false

def emptyView : ShadowView where
  pde := 0
  pte := 0
  pde_present := .inl rfl

def blankPmap : Pmap where
  entry _ := 0
  entryaddr _ := 0
  curaddr := 0
  curlevel := 0
  readlevel := 0
  levels := 2
  type := .vmm

/-- The supervisor reads the page at address 0. -/
def readFault (e : BitVec 64) : Option (TableMem × PagefaultEnd × (Nat → BitVec 64) × Nat) :=
  cpuMmuSptPagefault plainPhys (SptRegs.initial.updateCr3 wpClearRegs) 1 (onePage e) blankPmap
    blankPmap newTable emptyView (fun _ => 0) (fun _ => ⟨false, false, false⟩) 0 0

theorem wpClearRegs_reachable : sptMachine.Reachable (SptRegs.initial.updateCr3 wpClearRegs) :=
  .init ⟨wpClearRegs, by decide, rfl⟩

end OnDemandVirt.Vmm
