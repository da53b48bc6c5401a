import OnDemandVirt.Migration.Message

/-!
# Do the tables of the two sides agree?

A fault that `vt_migration_range` accepts is requested from the client, which answers with the
unit that holds the address. Each side then picks one of its areas for that unit. The list behind
`vt_migration_range` was not updated together with the other ones, so the picked area holds the
unit for the units of `usable_mem_list_gran` and for no others (`agrees_iff`).
-/

namespace OnDemandVirt.Migration

/-- The two addresses lie in one 32KB unit. -/
def SameUnit (a b : Nat) : Prop := a / addrOffset = b / addrOffset

/-- What both sides need of a requested address. The client replies with the address of the
unit, so that is what the server passes to `set_mem_area_num`. -/
structure Agrees (gphys : Nat) : Prop where
  /-- The area of the server holds the unit. -/
  server : ∀ a, SameUnit a gphys →
    (areaAt usableMemList (setMemAreaNum (requestMask gphys))).Holds a
  /-- The area of the client holds the unit. -/
  client : ∀ a, SameUnit a gphys → (areaAt usableMemList (selectMemArea gphys).1).Holds a
  /-- The bit of the unit lies inside the bit array. -/
  bit : ∀ a, SameUnit a gphys → a >>> 21 < bitarrayWords
  /-- The client has the memory it is asked for. -/
  backing : ∀ a, SameUnit a gphys → ∃ area ∈ usableMemList, area.Holds a

/-! ### Areas and units -/

/-- An area holds a unit if it holds both ends of it. -/
theorem holds_unit_iff (area : MemArea) (g : Nat) :
    (∀ a, SameUnit a g → area.Holds a) ↔
      area.startAddr ≤ g / 0x8000 * 0x8000 ∧ g / 0x8000 * 0x8000 + 0x7fff ≤ area.endAddr := by
  constructor
  · intro h
    have hfirst := h (g / 0x8000 * 0x8000) (by unfold SameUnit addrOffset; omega)
    have hlast := h (g / 0x8000 * 0x8000 + 0x7fff) (by unfold SameUnit addrOffset; omega)
    exact ⟨hfirst.1, hlast.2⟩
  · rintro ⟨hs, he⟩ a ha
    unfold SameUnit addrOffset at ha
    exact ⟨by omega, by omega⟩

/-- The ends of the area that the comparisons on an address pick. -/
theorem areaAt_memAreaNum (addr : Nat) : areaAt usableMemList (memAreaNum addr) =
    if 0x100000000 ≤ addr then ⟨0x100000000, 0x4767fffff, by decide⟩
    else if addr ≤ 0x9c6f9 then ⟨0x0, 0x9c6f9, by decide⟩
    else if addr ≤ 0x3fffffff then ⟨0x100000, 0x3fffffff, by decide⟩
    else if addr ≤ 0x7e7fffff then ⟨0x60000000, 0x7e7fffff, by decide⟩
    else if addr ≤ 0x86b9bfff then ⟨0x86b47000, 0x86b9bfff, by decide⟩
    else if addr ≤ 0x86fd4fff then ⟨0x86fbf000, 0x86fd4fff, by decide⟩
    else ⟨0x87fcd000, 0x87ffffff, by decide⟩ := by
  rw [memAreaNum_eq]
  split_ifs <;> rfl

theorem holds_gran_iff (g : Nat) : (∃ area ∈ usableMemListGran, area.Holds g) ↔
    g ≤ 0x97fff ∨ (0x100000 ≤ g ∧ g ≤ 0x3fffffff) ∨ (0x60000000 ≤ g ∧ g ≤ 0x7e7fffff) ∨
      (0x86b48000 ≤ g ∧ g ≤ 0x86b97fff) ∨ (0x86fc0000 ≤ g ∧ g ≤ 0x86fcffff) ∨
      (0x87fd0000 ≤ g ∧ g ≤ 0x87ffffff) ∨ (0x100000000 ≤ g ∧ g ≤ 0x4767fffff) := by
  simp [usableMemListGran, MemArea.Holds]

/-- The unit of an address lies in the area picked for the unit's start, and that area is the one
picked for the address, exactly for the units of `usable_mem_list_gran`. -/
theorem picked_holds_iff {g : Nat} (hg : vtMigrationRange g = true) :
    (∀ a, SameUnit a g → (areaAt usableMemList (memAreaNum (requestMask g))).Holds a) ↔
      ∃ area ∈ usableMemListGran, area.Holds g := by
  have hmask := requestMask_eq g (by have := vtMigrationRange_lt hg; omega)
  rw [vtMigrationRange_iff] at hg
  rw [holds_unit_iff, holds_gran_iff, hmask, areaAt_memAreaNum]
  split_ifs <;> simp only [] <;> omega

/-- In `usable_mem_list_gran` the unmasked address picks the area that the masked one picks. -/
theorem memAreaNum_requestMask {g : Nat} (hg : ∃ area ∈ usableMemListGran, area.Holds g) :
    memAreaNum g = memAreaNum (requestMask g) := by
  rw [holds_gran_iff] at hg
  rw [requestMask_eq g (by omega), memAreaNum_eq, memAreaNum_eq]
  split_ifs <;> omega

/-! ### The agreement -/

/-- The two sides agree on a requested address exactly when its unit is one of
`usable_mem_list_gran`. -/
theorem agrees_iff (gphys : Nat) (h : vtMigrationRange gphys = true) :
    Agrees gphys ↔ ∃ area ∈ usableMemListGran, area.Holds gphys := by
  constructor
  · exact fun hagrees => (picked_holds_iff h).mp hagrees.server
  · intro hgran
    have hpicked := (picked_holds_iff h).mpr hgran
    have hlt := vtMigrationRange_lt h
    refine ⟨hpicked, ?_, ?_, ?_⟩
    · show ∀ a, SameUnit a gphys → (areaAt usableMemList (memAreaNum gphys)).Holds a
      rw [memAreaNum_requestMask hgran]
      exact hpicked
    · intro a ha
      rw [holds_gran_iff] at hgran
      unfold SameUnit addrOffset at ha
      rw [Nat.shiftRight_eq_div_pow]
      unfold bitarrayWords
      omega
    · intro a ha
      have hlt7 : memAreaNum (requestMask gphys) < usableMemList.length := by
        rw [memAreaNum_eq]
        split_ifs <;> decide
      refine ⟨_, ?_, hpicked a ha⟩
      rw [areaAt, List.getElem?_eq_getElem hlt7]
      exact List.getElem_mem _

/-- The list of `vt_ept.c` still holds `0xe0000`, which the client does not have. -/
theorem not_agrees_ept_only : ¬ ∀ gphys, vtMigrationRange gphys = true → Agrees gphys := by
  intro h
  have hagrees := h 0xe0000 (by decide)
  obtain ⟨area, hmem, hholds⟩ := hagrees.backing 0xe0000 rfl
  revert area
  decide

theorem agrees_first_unit : Agrees 0x10 :=
  (agrees_iff 0x10 (by decide)).mpr ⟨_, List.mem_cons_self, by decide⟩

end OnDemandVirt.Migration
