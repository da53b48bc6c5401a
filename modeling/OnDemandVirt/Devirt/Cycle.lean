import OnDemandVirt.Devirt.Handover
import OnDemandVirt.Migration.CpuState

/-!
# Devirtualizing and coming back

`vt_devirt_handover` takes a free slot of both topmost tables and, for the way back, slot `0x110`
of the VMM's; `vt_unmap_guest_pt` clears the first of them only. A cycle therefore leaves the
tables as they were exactly when slot `0x110` of the VMM's table holds the value of the hand-over
already, or is itself the first slot that is free in both tables (`sameTables_iff`).
-/

namespace OnDemandVirt.Devirt

open Lib.Paging
open Migration (Vt vtWriteCr0 vtWriteCr3 vtWriteCr4 vtWriteEfer vtPagingUpdatecr3
  vtMsrOwnProcessMsrs)

/-- `SHARED_AREA_VT_NATIVE_STATE_AREA`. -/
abbrev sharedAreaVtNativeStateArea : Nat := 0x49004000

/-- The machine between devirtualizations: the tables and the virtual CPU. -/
structure World where
  tables : Tables
  vcpu : Vt

/-- `vt_restore_guest_state`. It reads the native state area and writes registers only. -/
def vtRestoreGuestState (m : PhysMem) (d : Vt) : Vt :=
  let native (o : Nat) := m (sharedAreaVtNativeStateArea + 8 * o)
  let sel (o : Nat) := (native o).setWidth 16
  -- the limits are the last `short` of words 40 and 46
  let limit (o : Nat) := ((native o).extractLsb' 48 16).signExtend 64
  { d with
    segs :=
      { d.segs with
        cs := { d.segs.cs with sel := sel 16 }
        ds := { d.segs.ds with sel := sel 20 }
        es := { d.segs.es with sel := sel 24 }
        fs := { d.segs.fs with sel := sel 28, base := native 31 }
        gs := { d.segs.gs with sel := sel 32, base := native 35 }
        ss := { d.segs.ss with sel := sel 36 }
        tr := { d.segs.tr with sel := sel 48 }
        gdtr := { base := native 41, limit := limit 40 }
        idtr := { base := native 47, limit := limit 46 } }
    gpr :=
      { rax := native 52, rbx := native 53, rcx := native 54, rdx := native 55
        rdi := native 56, rsi := native 57, rbp := native 58
        r8 := native 59, r9 := native 60, r10 := native 61, r11 := native 62
        r12 := native 63, r13 := native 64, r14 := native 65, r15 := native 66
        cr2 := native 67 }
    plain :=
      { rsp := native 0, rflags := native 1, rip := native 2, dr7 := native 6
        sysenterCs := native 8, sysenterEsp := native 9, sysenterEip := native 10 }
    ctl :=
      let c := vtWriteCr0 (native 3) d.ctl
      let c := vtPagingUpdatecr3 (vtWriteCr3 (native 4) c)
      let c := vtWriteCr4 (native 5 ||| 0x2000) c
      vtWriteEfer (native 7) c
    msr :=
      let r := vtMsrOwnProcessMsrs d.msr
      { r with
        real := { r.real with
          star := native 69, lstar := native 70, fmask := native 71, kerngs := native 72 } } }

/-- `vt_unmap_guest_pt`: the guest's CR3 and the slot are read back from the shared area. -/
def vtUnmapGuestPt (hcr3 : BitVec 64) (m : PhysMem) : PhysMem :=
  let gPageMem := vtGetPml4TableAddr (m (sharedAreaVtMisc + 0x128))
  let hPageMem := vtGetPml4TableAddr hcr3
  let emptyEntryIdx := ((m (sharedAreaVtMisc + 0x130)).setWidth 32).toNat
  let m := Function.update m (gPageMem + 8 * emptyEntryIdx) 0
  Function.update m (hPageMem + 8 * emptyEntryIdx) 0

/-- One devirtualize/revirtualize cycle, `none` where the hand-over finds no free slot. -/
def cycle (s : World) : Option World :=
  (vtDevirtHandover s.tables).map fun r =>
    { tables := { s.tables with mem := vtUnmapGuestPt s.tables.hcr3 r.mem }
      vcpu := vtRestoreGuestState r.mem s.vcpu }

/-- `n` cycles, one after the other. -/
def cycles : Nat → World → Option World
  | 0, s => some s
  | n + 1, s => (cycle s).bind (cycles n)

/-- Both topmost tables are the same, entry by entry. -/
structure SameTables (t t' : Tables) : Prop where
  gcr3 : t'.gcr3 = t.gcr3
  hcr3 : t'.hcr3 = t.hcr3
  guest : ∀ k < entries, t'.mem (t.gPageMem + 8 * k) = t.mem (t.gPageMem + 8 * k)
  host : ∀ k < entries, t'.mem (t.hPageMem + 8 * k) = t.mem (t.hPageMem + 8 * k)

/-- Slot `k` is free in both tables. -/
def FreeSlot (t : Tables) (k : Nat) : Prop :=
  t.mem (t.gPageMem + 8 * k) = 0 ∧ t.mem (t.hPageMem + 8 * k) = 0

/-- No slot is free, so that nothing is handed over; or slot `0x110` of the VMM's table is as the
hand-over leaves it; or slot `0x110` is the first that is free. -/
def Undone (t : Tables) : Prop :=
  (∀ k < entries, ¬ FreeSlot t k) ∨ t.mem (t.hPageMem + 8 * 0x110) = pageEntry 0x4a004000 ∨
    (FreeSlot t 0x110 ∧ ∀ k < 0x110, ¬ FreeSlot t k)

/-! ### One cycle -/

theorem vtGetEmptyEntryIdx_eq_some {t : Tables} {i : Nat} :
    vtGetEmptyEntryIdx t.mem t.gPageMem t.hPageMem = some i ↔
      i < entries ∧ FreeSlot t i ∧ ∀ k < i, ¬ FreeSlot t k := by
  rw [vtGetEmptyEntryIdx, List.find?_range_eq_some]
  constructor
  · rintro ⟨hfree, hmem, hfirst⟩
    refine ⟨List.mem_range.mp hmem, by simpa [FreeSlot] using hfree, fun k hk hk' => ?_⟩
    have := hfirst k hk
    simp [hk'.1, hk'.2] at this
  · rintro ⟨hlt, hfree, hfirst⟩
    refine ⟨by simpa [FreeSlot] using hfree, List.mem_range.mpr hlt, fun k hk => ?_⟩
    simpa using not_and_or.mp (hfirst k hk)

/-- What is saved for the way back is found there. -/
theorem installMapping_saved (t : Tables) {i : Nat} (hi : i < entries) :
    installMapping t i (sharedAreaVtMisc + 0x128) = t.gcr3 ∧
      installMapping t i (sharedAreaVtMisc + 0x130) = BitVec.ofNat 64 i := by
  have hg := t.guestOutside
  have hh := t.hostOutside
  rw [← Tables.gPageMem] at hg
  rw [← Tables.hPageMem] at hh
  generalize hG : t.gPageMem = G at *
  generalize hH : t.hPageMem = H at *
  unfold sharedArea sharedAreaLen at hg hh
  unfold entries at hi
  simp only [installMapping, hG, hH, sharedAreaVtMisc, sharedAreaVtPageTableArea,
    sharedAreaVtDevirtSwCodeArea, sharedAreaVtGuestState]
  constructor
  · simp (disch := omega) only [Function.update_of_ne, vtAllocTableToEntry_of_ne,
      setAllPresent_of_outside, Function.update_self]
  · simp (disch := omega) only [Function.update_of_ne, vtAllocTableToEntry_of_ne,
      setAllPresent_of_outside, Function.update_self]

/-- What the hand-over leaves in the topmost tables, outside the slot it found. -/
theorem installMapping_table (t : Tables) {i a : Nat}
    (houtside : a + 8 ≤ sharedArea ∨ sharedArea + sharedAreaLen ≤ a)
    (hg : a ≠ t.gPageMem + 8 * i) (hh : a ≠ t.hPageMem + 8 * i) :
    installMapping t i a =
      if a = t.hPageMem + 8 * 0x110 then pageEntry 0x4a004000 else t.mem a := by
  generalize hG : t.gPageMem = G at *
  generalize hH : t.hPageMem = H at *
  unfold sharedArea sharedAreaLen at houtside
  simp only [installMapping, hG, hH, sharedAreaVtMisc, sharedAreaVtPageTableArea,
    sharedAreaVtDevirtSwCodeArea, sharedAreaVtGuestState]
  split_ifs with hslot
  · subst hslot
    simp (disch := omega) only [Function.update_of_ne, vtAllocTableToEntry_of_ne,
      vtAllocTableToEntry_self, Nat.reduceAdd, sharedAreaVtPageTableArea]
  · simp (disch := omega) only [Function.update_of_ne, vtAllocTableToEntry_of_ne,
      setAllPresent_of_outside]

/-- The entries of both topmost tables after a cycle through slot `i`. -/
theorem cycle_mem {s s' : World} (h : cycle s = some s') : ∃ i < entries,
    FreeSlot s.tables i ∧ (∀ k < i, ¬ FreeSlot s.tables k) ∧
      s'.tables.gcr3 = s.tables.gcr3 ∧ s'.tables.hcr3 = s.tables.hcr3 ∧
        ∀ a, a + 8 ≤ sharedArea ∨ sharedArea + sharedAreaLen ≤ a → s'.tables.mem a =
          if a = s.tables.gPageMem + 8 * i ∨ a = s.tables.hPageMem + 8 * i then 0
          else if a = s.tables.hPageMem + 8 * 0x110 then pageEntry 0x4a004000
          else s.tables.mem a := by
  obtain ⟨r, hr, rfl⟩ := Option.map_eq_some_iff.mp h
  obtain ⟨i, hfind, rfl⟩ := Option.map_eq_some_iff.mp hr
  obtain ⟨hi, hfree, hfirst⟩ := vtGetEmptyEntryIdx_eq_some.1 hfind
  refine ⟨i, hi, hfree, hfirst, rfl, rfl, fun a ha => ?_⟩
  obtain ⟨hgcr3, hidx⟩ := installMapping_saved s.tables hi
  have hnat : ((BitVec.ofNat 64 i).setWidth 32).toNat = i := by
    unfold entries at hi
    simp only [BitVec.toNat_setWidth, BitVec.toNat_ofNat]
    omega
  simp only [vtUnmapGuestPt, hgcr3, hidx, hnat]
  rw [← Tables.gPageMem, ← Tables.hPageMem, Function.update_apply, Function.update_apply]
  by_cases hh : a = s.tables.hPageMem + 8 * i
  · simp [hh]
  · by_cases hg : a = s.tables.gPageMem + 8 * i
    · simp [hg]
    · rw [if_neg hh, if_neg hg, if_neg (by simp [hg, hh]),
        installMapping_table s.tables ha hg hh]

theorem Tables.gEntry_outside (t : Tables) {k : Nat} (hk : k < entries) :
    t.gPageMem + 8 * k + 8 ≤ sharedArea ∨ sharedArea + sharedAreaLen ≤ t.gPageMem + 8 * k := by
  have hg := t.guestOutside
  rw [← Tables.gPageMem] at hg
  unfold entries at hk
  omega

theorem Tables.hEntry_outside (t : Tables) {k : Nat} (hk : k < entries) :
    t.hPageMem + 8 * k + 8 ≤ sharedArea ∨ sharedArea + sharedAreaLen ≤ t.hPageMem + 8 * k := by
  have hh := t.hostOutside
  rw [← Tables.hPageMem] at hh
  unfold entries at hk
  omega

/-- Where the condition holds, a cycle leaves the tables as they were. -/
theorem sameTables_cycle {s s' : World} (h : cycle s = some s') (hs : Undone s.tables) :
    SameTables s.tables s'.tables := by
  obtain ⟨i, hi, hfree, hfirst, hgcr3, hhcr3, hmem⟩ := cycle_mem h
  -- an address of a table that is the slot found was 0, and one that is slot 0x110 is covered
  have hkeep : ∀ a, (a + 8 ≤ sharedArea ∨ sharedArea + sharedAreaLen ≤ a) →
      s'.tables.mem a = s.tables.mem a := by
    intro a ha
    rw [hmem a ha]
    split_ifs with hslot hback
    · rcases hslot with rfl | rfl
      · exact hfree.1.symm
      · exact hfree.2.symm
    · rcases hs with hnone | hheld | ⟨hfree', hfirst'⟩
      · exact absurd hfree (hnone i hi)
      · rw [hback, hheld]
      · have hi' : i = 0x110 := by
          rcases Nat.lt_trichotomy i 0x110 with hlt | heq | hgt
          · exact absurd hfree (hfirst' i hlt)
          · exact heq
          · exact absurd hfree' (hfirst _ hgt)
        rw [hi', hback] at hslot
        exact absurd (.inr rfl) hslot
    · rfl
  exact ⟨hgcr3, hhcr3, fun k hk => hkeep _ (s.tables.gEntry_outside hk),
    fun k hk => hkeep _ (s.tables.hEntry_outside hk)⟩

/-! ### Any number of cycles -/

theorem SameTables.gPageMem {t t' : Tables} (h : SameTables t t') : t'.gPageMem = t.gPageMem := by
  rw [Tables.gPageMem, h.gcr3, ← Tables.gPageMem]

theorem SameTables.hPageMem {t t' : Tables} (h : SameTables t t') : t'.hPageMem = t.hPageMem := by
  rw [Tables.hPageMem, h.hcr3, ← Tables.hPageMem]

theorem SameTables.refl (t : Tables) : SameTables t t := ⟨rfl, rfl, fun _ _ => rfl, fun _ _ => rfl⟩

theorem SameTables.trans {t t' t'' : Tables} (h : SameTables t t') (h' : SameTables t' t'') :
    SameTables t t'' where
  gcr3 := h'.gcr3.trans h.gcr3
  hcr3 := h'.hcr3.trans h.hcr3
  guest k hk := by
    have := h'.guest k hk
    rw [h.gPageMem] at this
    exact this.trans (h.guest k hk)
  host k hk := by
    have := h'.host k hk
    rw [h.hPageMem] at this
    exact this.trans (h.host k hk)

theorem SameTables.freeSlot {t t' : Tables} (h : SameTables t t') {k : Nat} (hk : k < entries) :
    FreeSlot t' k ↔ FreeSlot t k := by
  rw [FreeSlot, FreeSlot, h.gPageMem, h.hPageMem, h.guest k hk, h.host k hk]

/-- The condition is about the tables only. -/
theorem SameTables.undone {t t' : Tables} (h : SameTables t t') (ht : Undone t) : Undone t' := by
  have hslot : 0x110 < entries := by decide
  rcases ht with hnone | hheld | ⟨hfree, hfirst⟩
  · exact .inl fun k hk => mt (h.freeSlot hk).mp (hnone k hk)
  · refine .inr (.inl ?_)
    rw [h.hPageMem, h.host _ hslot, hheld]
  · exact .inr (.inr ⟨(h.freeSlot hslot).mpr hfree,
      fun k hk => mt (h.freeSlot (hk.trans hslot)).mp (hfirst k hk)⟩)

theorem sameTables_cycles {n : Nat} : ∀ {s s' : World}, Undone s.tables →
    cycles n s = some s' → SameTables s.tables s'.tables := by
  induction n with
  | zero =>
    intro s s' _ h
    cases h
    exact SameTables.refl _
  | succ n ih =>
    intro s s' hs h
    obtain ⟨s₁, h₁, h₂⟩ := Option.bind_eq_some_iff.mp h
    have hsame := sameTables_cycle h₁ hs
    exact hsame.trans (ih (hsame.undone hs) h₂)

/-- Any number of cycles leaves both tables as they were, exactly when no slot is free at all, or
slot `0x110` of the VMM's table holds the hand-over's value before, or is the first free slot. -/
theorem sameTables_iff (s : World) :
    (∀ n s', cycles n s = some s' → SameTables s.tables s'.tables) ↔ Undone s.tables := by
  constructor
  · intro h
    by_contra hnot
    simp only [Undone, not_or, not_forall] at hnot
    obtain ⟨⟨k, hk, hfree⟩, hheld, hother⟩ := hnot
    have hsome : ∃ s', cycle s = some s' := by
      cases hfind : vtGetEmptyEntryIdx s.tables.mem s.tables.gPageMem s.tables.hPageMem with
      | none =>
        have := List.find?_eq_none.mp hfind k (List.mem_range.mpr hk)
        simp only [FreeSlot, not_not] at hfree
        simp [hfree.1, hfree.2] at this
      | some i => exact ⟨_, by rw [cycle, vtDevirtHandover, hfind]; rfl⟩
    obtain ⟨s', hcycle⟩ := hsome
    obtain ⟨i, hi, hfree', hfirst, -, -, hmem⟩ := cycle_mem hcycle
    have hslot : 0x110 < entries := by decide
    have hsame := (h 1 s' (by rw [cycles, hcycle]; rfl)).host 0x110 hslot
    rw [hmem _ (s.tables.hEntry_outside hslot)] at hsame
    split_ifs at hsame with hzero hself
    · -- the slot found is slot 0x110 of the VMM's table, so it was free in that table
      have hzero' : i = 0x110 ∨ s.tables.gPageMem + 8 * i = s.tables.hPageMem + 8 * 0x110 := by
        omega
      have hgm := vtGetPml4TableAddr_mod s.tables.gcr3
      have hhm := vtGetPml4TableAddr_mod s.tables.hcr3
      rw [← Tables.gPageMem] at hgm
      rw [← Tables.hPageMem] at hhm
      have hi' : i = 0x110 := by
        unfold entries at hi
        omega
      subst hi'
      exact hother ⟨hfree', hfirst⟩
    · exact hheld hsame.symm
    · exact hself rfl
  · exact fun hs n s' h => sameTables_cycles hs h

/-- A virtual CPU that is all 0. -/
def zeroVcpu : Vt := vtRestoreGuestState (fun _ => 0) Migration.noSyscallGuest

/-- From two empty tables one cycle leaves slot `0x110` of the VMM's table set. -/
theorem not_sameTables_emptyTables : ¬ ∀ (s : World) (n : Nat) (s' : World),
    cycles n s = some s' → SameTables s.tables s'.tables := by
  intro h
  rcases (sameTables_iff ⟨emptyTables, zeroVcpu⟩).mp (h _) with hnone | hheld | ⟨-, hfirst⟩
  · exact hnone 0 (by decide) ⟨rfl, rfl⟩
  · exact absurd hheld (by decide)
  · exact hfirst 0 (by decide) ⟨rfl, rfl⟩

end OnDemandVirt.Devirt
