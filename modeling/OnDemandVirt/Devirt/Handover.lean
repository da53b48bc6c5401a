import Mathlib.Data.List.Basic
import OnDemandVirt.Lib.Paging

/-!
# Handing the machine over to the guest

`vt_devirt_handover` looks for a slot that is free in the guest's and in the VMM's topmost page
table, points both slots at one chain of tables that ends in the page of the switch code, and
jumps to the first address of the slot. The address is `i << 39` without sign extension, so the
jump reaches the page exactly when the slot found is in the lower half (`handsOver_iff`).
-/

namespace OnDemandVirt.Devirt

open Lib.Paging

/-! ### Constants -/

/-- `SHARED_AREA`. -/
abbrev sharedArea : Nat := 0x48000000

/-- `SHARED_AREA_LEN`. -/
abbrev sharedAreaLen : Nat := 0x8000000

/-- `SHARED_AREA_VT_GUEST_STATE`. -/
abbrev sharedAreaVtGuestState : Nat := 0x48000000

/-- `SHARED_AREA_VT_MISC`. -/
abbrev sharedAreaVtMisc : Nat := 0x49000a00

/-- `SHARED_AREA_VT_DEVIRT_SW_CODE_AREA`: the page of the switch code. -/
abbrev sharedAreaVtDevirtSwCodeArea : Nat := 0x49000000

/-- `SHARED_AREA_VT_PAGE_TABLE_AREA`. -/
abbrev sharedAreaVtPageTableArea : Nat := 0x4a000000

/-- `PTE_P_BIT`. -/
abbrev ptePBit : BitVec 64 := 1#64

/-- `PTE_RW_BIT`. -/
abbrev pteRwBit : BitVec 64 := 2#64

/-! ### The code -/

/-- `vt_get_pml4_table_addr`. -/
def vtGetPml4TableAddr (cr3 : BitVec 64) : Nat := (cr3.toNat >>> 12) <<< 12

/-- Physical memory and the two values of CR3 when the hand-over starts. The shared area is
reserved: neither topmost table lies in it. -/
structure Tables where
  mem : PhysMem
  gcr3 : BitVec 64
  hcr3 : BitVec 64
  gcr3_lt : gcr3.toNat < 2 ^ 52
  hcr3_lt : hcr3.toNat < 2 ^ 52
  guestOutside : vtGetPml4TableAddr gcr3 + 0x1000 ≤ sharedArea ∨
    sharedArea + sharedAreaLen ≤ vtGetPml4TableAddr gcr3
  hostOutside : vtGetPml4TableAddr hcr3 + 0x1000 ≤ sharedArea ∨
    sharedArea + sharedAreaLen ≤ vtGetPml4TableAddr hcr3

/-- `g_page_mem`. -/
def Tables.gPageMem (t : Tables) : Nat := vtGetPml4TableAddr t.gcr3

/-- `h_page_mem`. -/
def Tables.hPageMem (t : Tables) : Nat := vtGetPml4TableAddr t.hcr3

/-- `vt_get_empty_entry_idx`, `none` for -1. -/
def vtGetEmptyEntryIdx (m : PhysMem) (g h : Nat) : Option Nat :=
  (List.range 512).find? fun i => m (g + 8 * i) == 0 && m (h + 8 * i) == 0

/-- `vt_alloc_table_to_entry`. -/
def vtAllocTableToEntry (pageTableEntry allocAddress : Nat) (m : PhysMem) : PhysMem :=
  Function.update m pageTableEntry
    (BitVec.ofNat 64 (allocAddress + sharedAreaVtPageTableArea) ||| ptePBit ||| pteRwBit)

/-- The loop that sets all the entries of a table to be present. -/
def setAllPresent (table : Nat) (m : PhysMem) : PhysMem :=
  (List.range 512).foldl (fun m k => Function.update m (table + 8 * k) ptePBit) m

/-- The entry of a page: `page | PTE_P_BIT | PTE_RW_BIT`. -/
def pageEntry (page : Nat) : BitVec 64 := BitVec.ofNat 64 page ||| ptePBit ||| pteRwBit

/-- What `vt_devirt_handover` leaves behind when it jumps: memory and the address it jumps to. -/
structure Handover where
  mem : PhysMem
  switchCodeVaddr : Nat

/-- The writes of `vt_devirt_handover` to memory with the free entry `i`, in order. The copy of
the switch code into its page is left out; no table lies there. -/
def installMapping (t : Tables) (i : Nat) : PhysMem :=
  let m := Function.update t.mem (sharedAreaVtMisc + 0x128) t.gcr3
  let m := Function.update m (sharedAreaVtMisc + 0x130) (BitVec.ofNat 64 i)
  let m := vtAllocTableToEntry (t.gPageMem + 8 * i) 0x0 m
  let m := setAllPresent sharedAreaVtPageTableArea m
  let m := vtAllocTableToEntry sharedAreaVtPageTableArea 0x1000 m
  let m := setAllPresent (sharedAreaVtPageTableArea + 0x1000) m
  let m := vtAllocTableToEntry (sharedAreaVtPageTableArea + 0x1000) 0x2000 m
  let m := vtAllocTableToEntry (t.hPageMem + 8 * i) 0x0 m
  let m := setAllPresent (sharedAreaVtPageTableArea + 0x2000) m
  let m := Function.update m (sharedAreaVtPageTableArea + 0x2000)
    (pageEntry sharedAreaVtDevirtSwCodeArea)
  let m := Function.update m (sharedAreaVtPageTableArea + 0x2000 + 8)
    (pageEntry sharedAreaVtGuestState)
  -- the mapping of 0xffff884049000000 for the way back
  let m := vtAllocTableToEntry (t.hPageMem + 8 * 0x110) 0x4000 m
  let m := vtAllocTableToEntry (sharedAreaVtPageTableArea + 0x4000 + 8 * 0x101) 0x5000 m
  let m := vtAllocTableToEntry (sharedAreaVtPageTableArea + 0x5000 + 8 * 0x48) 0x6000 m
  Function.update m (sharedAreaVtPageTableArea + 0x6000) (pageEntry sharedAreaVtDevirtSwCodeArea)

/-- `vt_devirt_handover`, up to the jump. -/
def vtDevirtHandover (t : Tables) : Option Handover :=
  (vtGetEmptyEntryIdx t.mem t.gPageMem t.hPageMem).map fun i =>
    ⟨installMapping t i, i <<< 39 % 2 ^ 64⟩

/-- The jump is to a canonical address, and both sides' tables lead it to the switch code. -/
structure HandsOver (t : Tables) (r : Handover) : Prop where
  canonical : Canonical r.switchCodeVaddr
  guest : walk r.mem t.gcr3 r.switchCodeVaddr = some sharedAreaVtDevirtSwCodeArea
  host : walk r.mem t.hcr3 r.switchCodeVaddr = some sharedAreaVtDevirtSwCodeArea

/-! ### What the writes leave where -/

theorem setAllPresent_of_outside {table a : Nat} (m : PhysMem)
    (h : a < table ∨ table + 0x1000 ≤ a) : setAllPresent table m a = m a := by
  have keep : ∀ (l : List Nat) (m : PhysMem), (∀ k ∈ l, k < 512) →
      l.foldl (fun m k => Function.update m (table + 8 * k) ptePBit) m a = m a := by
    intro l
    induction l with
    | nil => exact fun _ _ => rfl
    | cons k l ih =>
      intro m hl
      have hk : k < 512 := hl k (by simp)
      rw [List.foldl_cons, ih _ fun k' hk' => hl k' (by simp [hk'])]
      exact Function.update_of_ne (by omega) _ _
  exact keep _ m fun k hk => List.mem_range.mp hk

theorem vtAllocTableToEntry_self (entry alloc : Nat) (m : PhysMem) :
    vtAllocTableToEntry entry alloc m entry = pageEntry (alloc + sharedAreaVtPageTableArea) :=
  Function.update_self _ _ _

theorem vtAllocTableToEntry_of_ne {entry alloc a : Nat} {m : PhysMem} (h : a ≠ entry) :
    vtAllocTableToEntry entry alloc m a = m a := Function.update_of_ne h _ _

/-- A topmost table is a whole page. -/
theorem vtGetPml4TableAddr_mod (cr3 : BitVec 64) : vtGetPml4TableAddr cr3 % 0x1000 = 0 := by
  rw [vtGetPml4TableAddr, Nat.shiftLeft_eq, Nat.shiftRight_eq_div_pow]
  omega

/-- The processor takes the same topmost table as the code. -/
theorem tableBase_cr3 {cr3 : BitVec 64} (h : cr3.toNat < 2 ^ 52) :
    tableBase cr3 = vtGetPml4TableAddr cr3 := by
  rw [tableBase, vtGetPml4TableAddr, Nat.mod_eq_of_lt h, Nat.shiftLeft_eq,
    Nat.shiftRight_eq_div_pow]

/-- The chain of tables from a free slot of the lower half to the switch code: none of the later
writes undoes an earlier one. -/
theorem installMapping_chain (t : Tables) {i : Nat} (hi : i < 256) :
    installMapping t i (t.gPageMem + 8 * i) = pageEntry 0x4a000000 ∧
      installMapping t i (t.hPageMem + 8 * i) = pageEntry 0x4a000000 ∧
      installMapping t i 0x4a000000 = pageEntry 0x4a001000 ∧
      installMapping t i 0x4a001000 = pageEntry 0x4a002000 ∧
      installMapping t i 0x4a002000 = pageEntry 0x49000000 := by
  have hg := t.guestOutside
  have hh := t.hostOutside
  have hgm := vtGetPml4TableAddr_mod t.gcr3
  have hhm := vtGetPml4TableAddr_mod t.hcr3
  rw [← Tables.gPageMem] at hg hgm
  rw [← Tables.hPageMem] at hh hhm
  generalize hG : t.gPageMem = G at *
  generalize hH : t.hPageMem = H at *
  unfold sharedArea sharedAreaLen at hg hh
  have hself := fun entry alloc m => vtAllocTableToEntry_self entry alloc m
  simp only [sharedAreaVtPageTableArea] at hself
  simp only [installMapping, hG, hH, sharedAreaVtMisc, sharedAreaVtPageTableArea,
    sharedAreaVtDevirtSwCodeArea, sharedAreaVtGuestState]
  refine ⟨?_, ?_, ?_, ?_, ?_⟩
  · by_cases hGH : G = H
    · subst hGH
      simp (disch := omega) only [Function.update_of_ne, vtAllocTableToEntry_of_ne,
        setAllPresent_of_outside, hself, Nat.reduceAdd]
    · simp (disch := omega) only [Function.update_of_ne, vtAllocTableToEntry_of_ne,
        setAllPresent_of_outside, hself, Nat.reduceAdd]
  · simp (disch := omega) only [Function.update_of_ne, vtAllocTableToEntry_of_ne,
      setAllPresent_of_outside, hself, Nat.reduceAdd]
  · simp (disch := omega) only [Function.update_of_ne, vtAllocTableToEntry_of_ne,
      setAllPresent_of_outside, hself, Nat.reduceAdd]
  · simp (disch := omega) only [Function.update_of_ne, vtAllocTableToEntry_of_ne,
      setAllPresent_of_outside, hself, Nat.reduceAdd]
  · simp (disch := omega) only [Function.update_of_ne, vtAllocTableToEntry_of_ne,
      Function.update_self]

/-! ### The jump -/

theorem shiftLeft_slot {i : Nat} (hi : i < entries) : i <<< 39 % 2 ^ 64 = i * 2 ^ 39 := by
  unfold entries at hi
  rw [Nat.shiftLeft_eq, Nat.mod_eq_of_lt (by norm_num; omega)]

/-- A topmost table with the chain of the hand-over in slot `i` leads to the switch code. -/
theorem walk_installMapping (t : Tables) {cr3 : BitVec 64} {i : Nat} (hi : i < 256)
    (hcr3 : cr3.toNat < 2 ^ 52)
    (hslot : installMapping t i (vtGetPml4TableAddr cr3 + 8 * i) = pageEntry 0x4a000000) :
    walk (installMapping t i) cr3 (i * 2 ^ 39) = some sharedAreaVtDevirtSwCodeArea := by
  obtain ⟨-, -, hpdp, hpd, hpt⟩ := installMapping_chain t hi
  have hpdpBase : tableBase (pageEntry 0x4a000000) = 0x4a000000 := by decide
  have hpdBase : tableBase (pageEntry 0x4a001000) = 0x4a001000 := by decide
  have hptBase : tableBase (pageEntry 0x4a002000) = 0x4a002000 := by decide
  rw [← hpdpBase] at hpdp
  rw [← hpdBase] at hpd
  rw [← hptBase] at hpt
  rw [← tableBase_cr3 hcr3] at hslot
  have hentries : ∀ e ∈ [pageEntry 0x4a000000, pageEntry 0x4a001000, pageEntry 0x4a002000,
      pageEntry 0x49000000], present e = true ∧ large e = false := by
    simp only [List.mem_cons, List.not_mem_nil, or_false]
    rintro e (rfl | rfl | rfl | rfl) <;> decide
  rw [walk_slot (by unfold entries; omega) hslot hpdp hpd hpt hentries]
  decide

/-- The hand-over through the free entry `i` works in the lower half only. -/
theorem handsOver_entry_iff (t : Tables) {i : Nat} (hi : i < entries) :
    HandsOver t ⟨installMapping t i, i <<< 39 % 2 ^ 64⟩ ↔ i < 256 := by
  rw [shiftLeft_slot hi]
  constructor
  · exact fun h => (canonical_slot_iff hi).mp h.canonical
  · intro hlow
    obtain ⟨hguest, hhost, -⟩ := installMapping_chain t hlow
    exact ⟨(canonical_slot_iff hi).mpr hlow, walk_installMapping t hlow t.gcr3_lt hguest,
      walk_installMapping t hlow t.hcr3_lt hhost⟩

/-- The hand-over works exactly when some entry of the lower half is free in both tables: the
search then finds one of them, and otherwise an entry of the upper half. -/
theorem handsOver_iff (t : Tables) (r : Handover) (h : vtDevirtHandover t = some r) :
    HandsOver t r ↔
      ∃ k < 256, t.mem (t.gPageMem + 8 * k) = 0 ∧ t.mem (t.hPageMem + 8 * k) = 0 := by
  obtain ⟨i, hfind, rfl⟩ := Option.map_eq_some_iff.mp h
  obtain ⟨hfree, hmem, hfirst⟩ := List.find?_range_eq_some.mp hfind
  rw [handsOver_entry_iff t (List.mem_range.mp hmem)]
  constructor
  · intro hlow
    exact ⟨i, hlow, by simpa using hfree⟩
  · rintro ⟨k, hk, hkfree⟩
    by_contra hhigh
    have := hfirst k (by omega)
    simp [hkfree] at this

/-- A guest that uses the whole lower half of its table, next to an empty table of the VMM. -/
def lowerHalfUsed : Tables where
  mem a := if a < 0x1800 then ptePBit else 0
  gcr3 := 0x1000
  hcr3 := 0x2000
  gcr3_lt := by decide
  hcr3_lt := by decide
  guestOutside := by decide
  hostOutside := by decide

/-- There the first free entry is the first one of the upper half. -/
theorem not_handsOver_lowerHalfUsed :
    ¬ ∀ t r, vtDevirtHandover t = some r → HandsOver t r := by
  intro h
  have hfind : vtDevirtHandover lowerHalfUsed =
      some ⟨installMapping lowerHalfUsed 256, 256 <<< 39 % 2 ^ 64⟩ := by
    have hidx : vtGetEmptyEntryIdx lowerHalfUsed.mem lowerHalfUsed.gPageMem
        lowerHalfUsed.hPageMem = some 256 := by
      set_option maxRecDepth 8000 in decide
    rw [vtDevirtHandover, hidx, Option.map_some]
  have hlow := (handsOver_entry_iff lowerHalfUsed (by decide)).mp (h _ _ hfind)
  exact absurd hlow (by decide)

/-- Two empty tables. -/
def emptyTables : Tables where
  mem _ := 0
  gcr3 := 0x1000
  hcr3 := 0x2000
  gcr3_lt := by decide
  hcr3_lt := by decide
  guestOutside := by decide
  hostOutside := by decide

theorem vtDevirtHandover_emptyTables :
    vtDevirtHandover emptyTables = some ⟨installMapping emptyTables 0, 0⟩ := by
  have hidx : vtGetEmptyEntryIdx emptyTables.mem emptyTables.gPageMem emptyTables.hPageMem =
      some 0 := by
    set_option maxRecDepth 8000 in decide
  rw [vtDevirtHandover, hidx, Option.map_some, Nat.zero_shiftLeft, Nat.zero_mod]

theorem handsOver_emptyTables : HandsOver emptyTables ⟨installMapping emptyTables 0, 0⟩ :=
  (handsOver_iff emptyTables _ vtDevirtHandover_emptyTables).mpr ⟨0, by decide, rfl, rfl⟩

end OnDemandVirt.Devirt
