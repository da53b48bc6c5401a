import OnDemandVirt.Vmm.WalkMarks

/-!
# A second walk

A walk in the memory that an earlier walk of the same address left goes the same way and changes
nothing, unless the first one marked its own PDPTE: bits that are marks elsewhere are reserved
there. Addresses in one page have the same walk.
-/

namespace OnDemandVirt.Vmm

open Lib.X86

variable {mask : BitVec 64} {d : GetPteData} {levels i r : Nat} {virt e : BitVec 64}
  {mem : TableMem}

theorem simplify3_or_adBits (d : GetPteData) (i : Nat) (x : BitVec 64) (setd : Bool) :
    simplify3 d i (x ||| adBits setd) = simplify3 d i x ||| adBits setd := by
  unfold simplify3
  split_ifs
  · rw [BitVec.and_or_distrib_right]
    congr 1
    cases setd <;> decide
  · rfl

/-- Below the topmost entries of PAE paging, where a table is does not depend on the marks. -/
theorem MarkedFrom.entryAddrOf {e f : BitVec 64} (h : MarkedFrom e f) (hi : i + 1 < levels)
    (virt : BitVec 64) : entryAddrOf levels i f virt = entryAddrOf levels i e virt := by
  have hmask : tableMask levels (i + 1) = 0x0000FFFFFFFFF000 := if_neg (by omega)
  unfold Vmm.entryAddrOf
  rw [hmask, h.and_eq (by decide) (by decide)]

section

variable {mem' μ : TableMem} {r' : Nat} {e' f x : BitVec 64} (w : WalkData mask d levels)

include w

/-- A level of a second walk, in the memory that the first one leaves. -/
theorem StepEnds.again (h : StepEnds mask d levels virt i mem r e mem' r' e' x) (hir : i < r)
    (hr : (pmapTables levels).stops r e = false → r = i + 1) (hle : r ≤ levels)
    (hμ : Words levels MarkedFrom mem' μ) (hf : MarkedFrom e f) (hroot : r = levels → f = e)
    (hpdpte : levels = 3 → i = 2 → rdEntry levels μ (entryAddrOf levels i e virt) =
      rdEntry levels mem (entryAddrOf levels i e virt)) :
    ∃ f' y, StepEnds mask d levels virt i μ r f μ r' f' y ∧ MarkedFrom e' f' ∧ MarkedFrom x y ∧
      (r' = levels → f' = e') := by
  have haddr (hri : r = i + 1) : entryAddrOf levels i f virt = entryAddrOf levels i e virt := by
    rcases Nat.lt_or_ge (i + 1) levels with hlt | hge
    · exact hf.entryAddrOf hlt virt
    · rw [hroot (by omega)]
  cases h with
  | large hstop hpass hset =>
    rcases Nat.lt_or_ge r levels with hlt | hge
    · obtain ⟨hpass', hx⟩ := hpass.marked w (hf.readValue levels virt i r) (by omega) (by omega)
      exact ⟨f, _, .large (hf.stops.trans hstop) hpass' (hx.or_eq hset), hf, hx, hroot⟩
    · obtain rfl := hroot (by omega)
      exact ⟨f, x, .large hstop hpass hset, hf, .refl _, fun _ => rfl⟩
  | keeps hstop hpass hset =>
    have hri := hr hstop
    have hstop' := hf.stops.trans hstop
    rw [← haddr hri] at hpass hpdpte ⊢
    by_cases htop : levels = 3 ∧ i + 1 = 3
    · have hsame := hpdpte htop.1 (by omega)
      rw [← hsame] at hpass ⊢
      exact ⟨_, x, .keeps hstop' hpass hset, .refl _, .refl _, fun h => absurd h (by omega)⟩
    · obtain ⟨hpass', hx⟩ := hpass.marked w (hμ _) (by omega) htop
      exact ⟨_, _, .keeps hstop' hpass' (hx.or_eq hset), hμ _, hx, fun h => absurd h (by omega)⟩
  | marks hstop hpass hset =>
    rename_i x₀ setd
    have hri := hr hstop
    have hstop' := hf.stops.trans hstop
    have hne := hpass.not_pdpte w hset
    have hfits := hpass.fits (wordOf_rdEntry _ _)
    have hagain := hpass.again w hne
    have hword := hμ (entryAddrOf levels i e virt)
    rw [rdEntry_update_self hfits] at hword
    obtain ⟨hpass', -⟩ :=
      hagain.marked w ((MarkedFrom.or_adBits x₀ setd).trans hword) (by omega) hne
    -- the entry is kept as it is in the memory then
    have hkept : simplify3 d (i + 1) (x₀ ||| adBits setd) = x₀ ||| adBits setd := by
      have hx₀ := hagain.kept
      rw [simplify2_of_ne hne] at hx₀
      rw [simplify3_or_adBits, ← hx₀]
    have hx : MarkedFrom (x₀ ||| adBits setd)
        (simplify3 d (i + 1) (rdEntry levels μ (entryAddrOf levels i e virt))) := by
      have := hword.simplify3 d (i + 1)
      rwa [hkept] at this
    have hself : x₀ ||| adBits setd ||| adBits setd = x₀ ||| adBits setd := by
      rw [BitVec.or_assoc, BitVec.or_self]
    rw [← haddr hri] at hpass' hword hx
    exact ⟨_, _, .keeps hstop' hpass' (hx.or_eq hself), hword, hx, fun h => absurd h (by omega)⟩

theorem walkBelow_again {last last' pte : BitVec 64}
    (h : walkBelow mask d levels virt i mem r e last = some (μ, .ok pte)) (hi : i ≤ levels)
    (hr : ∀ k, k + 1 = i → k < r ∧ ((pmapTables levels).stops r e = false → r = k + 1))
    (hle : r ≤ levels) (hf : MarkedFrom e f) (hroot : r = levels → f = e)
    (hlast : MarkedFrom last last')
    (hpdpte : levels = 3 → i = 3 → rdEntry levels μ (entryAddrOf levels 2 e virt) =
      rdEntry levels mem (entryAddrOf levels 2 e virt)) :
    ∃ pte', walkBelow mask d levels virt i μ r f last' = some (μ, .ok pte') ∧
      MarkedFrom pte pte' := by
  induction i generalizing mem r e f last last' with
  | zero =>
    cases h
    exact ⟨last', rfl, hlast⟩
  | succ i ih =>
    rw [walkBelow] at h
    obtain ⟨⟨mem₁, err | ⟨r₁, e₁, x⟩⟩, hstep, h⟩ := Option.bind_eq_some_iff.mp h
    · cases h
    obtain ⟨hir, hgo⟩ := hr i rfl
    have hrest : Words levels MarkedFrom mem₁ μ := by
      refine walkBelow_marked w h ?_
      rcases w.pse with hpse | ⟨-, htwo⟩
      · exact .inl hpse
      · exact .inr (by omega)
    obtain ⟨f₁, y, hagain, hf₁, hy, hroot₁⟩ :=
      (stepBelow_eq_ok_iff.mp hstep).again w hir hgo hle hrest hf hroot fun hl hi2 => by
        subst hi2
        exact hpdpte hl rfl
    have hnext := stepBelow_next hstep hir
    have hle₁ : r₁ ≤ levels := by
      cases stepBelow_eq_ok_iff.mp hstep with
      | large => exact hle
      | keeps => omega
      | marks => omega
    obtain ⟨pte', hwalk, hpte⟩ := ih h (by omega) hnext.2 hle₁ hf₁ hroot₁ hy (by omega)
    refine ⟨pte', ?_, hpte⟩
    rw [walkBelow, stepBelow_eq_ok_iff.mpr hagain, Option.bind_some]
    exact hwalk

/-- A walk that marks the topmost entry of its own, in PAE paging, is refused the next time. -/
theorem walkBelow_pdpte {last last' pte : BitVec 64} (hl : levels = 3)
    (h : walkBelow mask d levels virt 3 mem 3 e last = some (μ, .ok pte))
    (hstop : (pmapTables levels).stops 3 e = false)
    (hne : rdEntry levels μ (entryAddrOf levels 2 e virt) ≠
      rdEntry levels mem (entryAddrOf levels 2 e virt)) :
    walkBelow mask d levels virt 3 μ 3 e last' = some (μ, .error .pageBadReservedBit) := by
  have hmarked := walkBelow_marked w h (.inl (w.pse.resolve_right fun htwo => by omega))
    (entryAddrOf levels 2 e virt)
  rw [walkBelow] at h
  obtain ⟨⟨mem₁, err | ⟨r₁, e₁, x⟩⟩, hstep, h⟩ := Option.bind_eq_some_iff.mp h
  · cases h
  cases stepBelow_eq_ok_iff.mp hstep with
  | large hgo =>
    rw [hstop] at hgo
    cases hgo
  | marks _ hpass hset => exact absurd ⟨hl, rfl⟩ (hpass.not_pdpte w hset)
  | keeps _ hpass hset =>
    obtain ⟨g, h5, h6, -, hg⟩ := reserved_pdpte w hl (hpass.reserved ▸ Option.some_ne_none _)
    have hset : rdEntry levels μ (entryAddrOf levels 2 e virt) &&& g ≠ 0 := by
      intro hzero
      refine hne (eq_of_bits fun j hj => ?_)
      have hclear (k : Nat) (hk : g.getLsbD k = true) :
          (rdEntry levels μ (entryAddrOf levels 2 e virt)).getLsbD k = false := by
        by_contra hbit
        rw [Bool.not_eq_false] at hbit
        have hboth := BitVec.getLsbD_and
          (x := rdEntry levels μ (entryAddrOf levels 2 e virt)) (y := g) (i := k)
        rw [hzero, hbit, hk] at hboth
        simp at hboth
      by_cases hj5 : j = 5
      · subst hj5
        have hold := mt hmarked.accessed (Bool.eq_false_iff.mp (hclear 5 h5))
        rw [hclear 5 h5, Bool.eq_false_iff.mpr hold]
      by_cases hj6 : j = 6
      · subst hj6
        have hold := mt hmarked.dirty (Bool.eq_false_iff.mp (hclear 6 h6))
        rw [hclear 6 h6, Bool.eq_false_iff.mpr hold]
      exact hmarked.same j hj hj5 hj6
    have hpresent : ¬ rdEntry levels μ (entryAddrOf levels 2 e virt) &&& pdePBit = 0 := by
      rw [hmarked.and_eq (by decide) (by decide)]
      exact hpass.present
    have hcheck : checkEntry mask d levels 3 (rdEntry levels μ (entryAddrOf levels 2 e virt)) =
        some (.error .pageBadReservedBit) := by
      rw [checkEntry, if_neg hpresent, hg, Option.bind_some, if_pos (bne_iff_ne.mpr hset)]
    rw [walkBelow, stepBelow, hstop, if_neg Bool.false_ne_true]
    dsimp only
    rw [hcheck]
    rfl

end

/-! ### Addresses in one page -/

/-- Two addresses are in one page. -/
def SamePage (x y : BitVec 64) : Prop := x &&& ~~~0xFFF#64 = y &&& ~~~0xFFF#64

section

variable {x y : BitVec 64} (h : SamePage x y)

include h

theorem SamePage.and_eq {k : BitVec 64} (hk : ~~~0xFFF#64 &&& k = k) : x &&& k = y &&& k := by
  rw [← hk, ← BitVec.and_assoc, ← BitVec.and_assoc, h]

theorem SamePage.entryAddrOf (hl : levels ≤ 4) (hi : i < levels) (e : BitVec 64) :
    entryAddrOf levels i e x = entryAddrOf levels i e y := by
  unfold Vmm.entryAddrOf
  congr 1
  have hi4 : i < 4 := by omega
  split_ifs <;> interval_cases i <;> exact shift_and_congr h (by decide) (by decide)

theorem SamePage.readValue (levels i r : Nat) (e : BitVec 64) :
    readValue levels x i (r, e) = readValue levels y i (r, e) := by
  have hsplit (e : BitVec 64) : splitPdpe x e = splitPdpe y e := by
    rw [splitPdpe, splitPdpe, h.and_eq (by decide)]
  have hmake (e : BitVec 64) : handlePdePsBit levels x e = handlePdePsBit levels y e := by
    unfold handlePdePsBit
    dsimp only
    rw [h.and_eq (k := 0x3FF000) (by decide), h.and_eq (k := 0x1FF000) (by decide)]
  unfold Vmm.readValue
  simp only [hsplit, hmake]

theorem walkBelow_samePage (hl : levels ≤ 4) {last : BitVec 64} (hi : i ≤ levels) :
    walkBelow mask d levels x i mem r e last = walkBelow mask d levels y i mem r e last := by
  induction i generalizing mem r e last with
  | zero => rfl
  | succ i ih =>
    have hstep : stepBelow mask d levels x i mem r e = stepBelow mask d levels y i mem r e := by
      unfold stepBelow
      rw [h.entryAddrOf hl hi, h.readValue]
    rw [walkBelow, walkBelow, hstep]
    congr 1
    funext out
    rcases out with ⟨mem₁, err | ⟨r₁, e₁, z⟩⟩
    · rfl
    · exact ih (Nat.le_of_succ_le hi)

end

end OnDemandVirt.Vmm
