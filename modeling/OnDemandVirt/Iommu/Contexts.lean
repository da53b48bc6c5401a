import OnDemandVirt.Iommu.Tables

/-!
# Context entries

`contextOf` is the context entry that a unit finds for a device. Root entries come with
`gcmd_srtp`, which changes nothing that a unit finds, and `reg_context_entry` fills the entry of one
device, where it is not filled yet.
-/

namespace OnDemandVirt.Iommu

open Lib

variable {σ : Radix.Supply} {agaw dom unit pgd f : Nat} {bus devfn : BitVec 8} {s : Tables}

/-- The page of a unit's context entries for a bus. -/
def contextPage (s : Tables) (unit : Nat) (bus : BitVec 8) : Option Nat :=
  (s.rootEntry unit).bind fun rootPage =>
    if (s.roots rootPage bus).p then some (s.roots rootPage bus).ctp else none

/-- The context entry that a unit finds. -/
def contextOf (s : Tables) (unit : Nat) (bus devfn : BitVec 8) : ContextEntry :=
  match contextPage s unit bus with
  | some page => s.contexts page devfn
  | none => .zero

theorem contextOf_of_page {page : Nat} (h : contextPage s unit bus = some page) (devfn : BitVec 8) :
    contextOf s unit bus devfn = s.contexts page devfn := by
  rw [contextOf, h]

theorem contextOf_of_none (h : contextPage s unit bus = none) (devfn : BitVec 8) :
    contextOf s unit bus devfn = .zero := by
  rw [contextOf, h]

/-- The context entry of a device of a domain. -/
def domainEntry (agaw dom pgd : Nat) : ContextEntry where
  p := true
  fpd := false
  t := 0
  asr := pgd
  aw := agaw % 8
  did := dom % 2 ^ 16

/-- A unit walks the tables of the context entry that it finds. -/
theorem vtdWalk_eq (s : Tables) (unit : Nat) (bus devfn : BitVec 8) (f : Nat) :
    vtdWalk s unit bus devfn f =
      if !(contextOf s unit bus devfn).p || (contextOf s unit bus devfn).t ≠ 0 ||
          ioptEntries ^ ((contextOf s unit bus devfn).aw + 2) ≤ f then none
      else walkIopt s.iopt.mem f ((contextOf s unit bus devfn).aw + 1)
        (contextOf s unit bus devfn).asr true true := by
  rw [vtdWalk]
  cases hroot : s.rootEntry unit with
  | none =>
    have hc : contextOf s unit bus devfn = .zero := by
      rw [contextOf, contextPage, hroot]
      rfl
    rw [hc]
    rfl
  | some rootPage =>
    have hc : contextOf s unit bus devfn =
        if (s.roots rootPage bus).p then s.contexts (s.roots rootPage bus).ctp devfn
        else .zero := by
      rw [contextOf, contextPage, hroot, Option.bind_some]
      cases (s.roots rootPage bus).p <;> rfl
    by_cases hp : (s.roots rootPage bus).p = true
    · rw [if_pos hp] at hc
      rw [hc]
      simp only [Option.bind_some, hp, Bool.not_true, Bool.false_eq_true, if_false]
    · rw [if_neg hp] at hc
      rw [hc]
      simp only [Option.bind_some, hp, Bool.not_false, if_true]
      rfl

/-- Root entries and context entries are on pages of their own. -/
structure Placed (σ : Radix.Supply) (s : Tables) : Prop where
  root_used : ∀ {u p}, s.rootEntry u = some p → ∃ i < s.iopt.next, p = σ.page i
  root_inj : ∀ {u u' p}, s.rootEntry u = some p → s.rootEntry u' = some p → u = u'
  page_used : ∀ {u b p}, contextPage s u b = some p → ∃ i < s.iopt.next, p = σ.page i
  page_inj : ∀ {u u' b b' p}, contextPage s u b = some p → contextPage s u' b' = some p →
    u = u' ∧ b = b'

theorem used_ne {σ : Radix.Supply} {n p : Nat} (h : ∃ i < n, p = σ.page i) : p ≠ σ.page n := by
  obtain ⟨i, hi, rfl⟩ := h
  exact fun heq => Nat.ne_of_lt hi (σ.inj heq)

theorem used_succ {σ : Radix.Supply} {n p : Nat} (h : ∃ i < n, p = σ.page i) :
    ∃ i < n + 1, p = σ.page i := by
  obtain ⟨i, hi, rfl⟩ := h
  exact ⟨i, Nat.lt_succ_of_lt hi, rfl⟩

namespace Placed

/-- Before there are root entries. -/
theorem of_none (h : ∀ u, s.rootEntry u = none) : Placed σ s where
  root_used {u p} hu := by
    rw [h u] at hu
    cases hu
  root_inj {u u' p} hu := by
    rw [h u] at hu
    cases hu
  page_used {u b p} hu := by
    rw [contextPage, h u] at hu
    cases hu
  page_inj {u u' b b' p} hu := by
    rw [contextPage, h u] at hu
    cases hu

theorem gcmdSrtp_contextPage (h : Placed σ s) (unit u : Nat) (b : BitVec 8) :
    contextPage (gcmdSrtp σ s unit) u b = contextPage s u b := by
  rw [gcmdSrtp]
  cases hunit : s.rootEntry unit with
  | some p => rfl
  | none =>
    simp only [contextPage]
    by_cases hu : u = unit
    · rw [hu, Function.update_self, hunit, Option.bind_some, Function.update_self]
      rfl
    · rw [Function.update_of_ne hu]
      cases hroot : s.rootEntry u with
      | none => rfl
      | some p =>
        rw [Option.bind_some, Option.bind_some,
          Function.update_of_ne (used_ne (h.root_used hroot))]

theorem gcmdSrtp_contextOf (h : Placed σ s) (unit u : Nat) (b d : BitVec 8) :
    contextOf (gcmdSrtp σ s unit) u b d = contextOf s u b d := by
  have hcontexts : (gcmdSrtp σ s unit).contexts = s.contexts := by
    rw [gcmdSrtp]
    cases s.rootEntry unit <;> rfl
  rw [contextOf, contextOf, h.gcmdSrtp_contextPage, hcontexts]

theorem gcmdSrtp_keeps (s : Tables) (unit : Nat) :
    (gcmdSrtp σ s unit).pgd = s.pgd ∧ (gcmdSrtp σ s unit).iopt.mem = s.iopt.mem := by
  rw [gcmdSrtp]
  cases s.rootEntry unit <;> exact ⟨rfl, rfl⟩

theorem gcmdSrtp_rootEntry {s : Tables} {unit u : Nat} (h : u = unit ∨ s.rootEntry u ≠ none) :
    (gcmdSrtp σ s unit).rootEntry u ≠ none := by
  rw [gcmdSrtp]
  cases hunit : s.rootEntry unit with
  | some p =>
    obtain rfl | h := h
    · dsimp only
      rw [hunit]
      exact Option.some_ne_none p
    · exact h
  | none =>
    dsimp only
    by_cases hu : u = unit
    · rw [hu, Function.update_self]
      exact Option.some_ne_none _
    · rw [Function.update_of_ne hu]
      exact h.resolve_left hu

theorem gcmdSrtp (h : Placed σ s) (unit : Nat) : Placed σ (gcmdSrtp σ s unit) := by
  have hpage := h.gcmdSrtp_contextPage unit
  rw [Iommu.gcmdSrtp] at hpage ⊢
  cases hunit : s.rootEntry unit with
  | some p => exact h
  | none =>
    simp only [hunit] at hpage ⊢
    refine ⟨fun {u p} hu => ?_, fun {u u' p} hu hu' => ?_, fun {u b p} hu => ?_,
      fun {u u' b b' p} hu hu' => ?_⟩
    · dsimp only at hu
      by_cases heq : u = unit
      · rw [heq, Function.update_self] at hu
        exact ⟨_, Nat.lt_succ_self _, (Option.some.inj hu).symm⟩
      · rw [Function.update_of_ne heq] at hu
        exact used_succ (h.root_used hu)
    · dsimp only at hu hu'
      by_cases heq : u = unit <;> by_cases heq' : u' = unit
      · rw [heq, heq']
      · rw [heq, Function.update_self] at hu
        rw [Function.update_of_ne heq'] at hu'
        exact absurd (Option.some.inj hu).symm (used_ne (h.root_used hu'))
      · rw [heq', Function.update_self] at hu'
        rw [Function.update_of_ne heq] at hu
        exact absurd (Option.some.inj hu').symm (used_ne (h.root_used hu))
      · rw [Function.update_of_ne heq] at hu
        rw [Function.update_of_ne heq'] at hu'
        exact h.root_inj hu hu'
    · rw [hpage] at hu
      exact used_succ (h.page_used hu)
    · rw [hpage] at hu hu'
      exact h.page_inj hu hu'

/-- The context entries for a bus are there, and what the units find is as before. -/
theorem devidToContext (h : Placed σ s) {rootPage : Nat} (hroot : s.rootEntry unit = some rootPage)
    (bus : BitVec 8) :
    Placed σ (devidToContext σ s rootPage bus).2 ∧
      contextPage (devidToContext σ s rootPage bus).2 unit bus =
        some (devidToContext σ s rootPage bus).1 ∧
      ∀ u b d, contextOf (devidToContext σ s rootPage bus).2 u b d = contextOf s u b d := by
  rw [Iommu.devidToContext]
  by_cases hp : (s.roots rootPage bus).p = true
  · rw [if_pos hp]
    refine ⟨h, ?_, fun _ _ _ => rfl⟩
    rw [contextPage, hroot, Option.bind_some, if_pos hp]
  rw [if_neg hp]
  dsimp only
  generalize hs' : ({ s with
      iopt := { s.iopt with next := s.iopt.next + 1 }
      contexts := Function.update s.contexts (σ.page s.iopt.next) fun _ => .zero
      roots := Function.update s.roots rootPage (Function.update (s.roots rootPage) bus
        { p := true, ctp := σ.page s.iopt.next }) } : Tables) = s'
  have hself : contextPage s' unit bus = some (σ.page s.iopt.next) := by
    rw [contextPage, ← hs']
    dsimp only
    simp only [hroot, Option.bind_some, Function.update_self, if_true]
  have hother {u : Nat} {b : BitVec 8} (hne : ¬(u = unit ∧ b = bus)) :
      contextPage s' u b = contextPage s u b := by
    rw [contextPage, contextPage, ← hs']
    dsimp only
    cases hu : s.rootEntry u with
    | none => rfl
    | some p =>
      rw [Option.bind_some, Option.bind_some]
      by_cases hpage : p = rootPage
      · rw [hpage] at hu ⊢
        have hb : b ≠ bus := fun hb => hne ⟨h.root_inj hu hroot, hb⟩
        simp only [Function.update_self, Function.update_of_ne hb]
      · simp only [Function.update_of_ne hpage]
  have hnone : contextPage s unit bus = none := by
    rw [contextPage, hroot, Option.bind_some, if_neg hp]
  refine ⟨⟨fun {u p} hu => ?_, fun {u u' p} hu hu' => ?_, fun {u b p} hu => ?_,
    fun {u u' b b' p} hu hu' => ?_⟩, hself, fun u b d => ?_⟩
  · rw [← hs'] at hu ⊢
    exact used_succ (h.root_used hu)
  · rw [← hs'] at hu hu'
    exact h.root_inj hu hu'
  · rw [← hs']
    by_cases heq : u = unit ∧ b = bus
    · rw [heq.1, heq.2, hself] at hu
      exact ⟨_, Nat.lt_succ_self _, (Option.some.inj hu).symm⟩
    · rw [hother heq] at hu
      exact used_succ (h.page_used hu)
  · by_cases heq : u = unit ∧ b = bus <;> by_cases heq' : u' = unit ∧ b' = bus
    · rw [heq.1, heq.2, heq'.1, heq'.2]
      exact ⟨rfl, rfl⟩
    · rw [heq.1, heq.2, hself] at hu
      rw [hother heq'] at hu'
      exact absurd (Option.some.inj hu).symm (used_ne (h.page_used hu'))
    · rw [heq'.1, heq'.2, hself] at hu'
      rw [hother heq] at hu
      exact absurd (Option.some.inj hu').symm (used_ne (h.page_used hu))
    · rw [hother heq] at hu
      rw [hother heq'] at hu'
      exact h.page_inj hu hu'
  · rw [contextOf, contextOf]
    by_cases heq : u = unit ∧ b = bus
    · rw [heq.1, heq.2, hself, hnone, ← hs']
      dsimp only
      rw [Function.update_self]
    · rw [hother heq]
      cases hpage : contextPage s u b with
      | none => rfl
      | some page =>
        rw [← hs']
        dsimp only
        rw [Function.update_of_ne (used_ne (h.page_used hpage))]

/-- A context entry of one device is written. -/
theorem contextOf_set (h : Placed σ s) {page : Nat} (hpage : contextPage s unit bus = some page)
    (devfn : BitVec 8) (e : ContextEntry) (u : Nat) (b d : BitVec 8) :
    contextOf { s with
      contexts := Function.update s.contexts page (Function.update (s.contexts page) devfn e) }
      u b d = if u = unit ∧ b = bus ∧ d = devfn then e else contextOf s u b d := by
  generalize hs' : ({ s with
    contexts := Function.update s.contexts page (Function.update (s.contexts page) devfn e) } :
      Tables) = s'
  have hsame : contextPage s' u b = contextPage s u b := by
    rw [← hs']
    rfl
  cases hother : contextPage s u b with
  | none =>
    rw [contextOf_of_none (hsame.trans hother), contextOf_of_none hother, if_neg]
    rintro ⟨rfl, rfl, -⟩
    rw [hpage] at hother
    cases hother
  | some page' =>
    rw [contextOf_of_page (hsame.trans hother), contextOf_of_page hother, ← hs']
    dsimp only
    by_cases hpages : page' = page
    · subst hpages
      obtain ⟨rfl, rfl⟩ := h.page_inj hother hpage
      rw [Function.update_self]
      by_cases hd : d = devfn
      · rw [hd, Function.update_self, if_pos ⟨rfl, rfl, rfl⟩]
      · rw [Function.update_of_ne hd, if_neg fun hall => hd hall.2.2]
    · rw [Function.update_of_ne hpages, if_neg]
      rintro ⟨rfl, rfl, -⟩
      rw [hpage] at hother
      exact hpages (Option.some.inj hother).symm

theorem devidToContext_keeps (s : Tables) (rootPage : Nat) (bus : BitVec 8) :
    (Iommu.devidToContext σ s rootPage bus).2.rootEntry = s.rootEntry ∧
      (Iommu.devidToContext σ s rootPage bus).2.pgd = s.pgd ∧
      (Iommu.devidToContext σ s rootPage bus).2.iopt.mem = s.iopt.mem := by
  rw [Iommu.devidToContext]
  by_cases hp : (s.roots rootPage bus).p = true
  · rw [if_pos hp]
    exact ⟨rfl, rfl, rfl⟩
  · rw [if_neg hp]
    exact ⟨rfl, rfl, rfl⟩

/-- `reg_context_entry` fills the entry of one device with its domain, if it is not filled yet. -/
theorem regContextEntry (h : Placed σ s) (agaw : Nat) (hroot : s.rootEntry unit ≠ none)
    (hpgd : s.pgd dom = some pgd) (bus devfn : BitVec 8) :
    ∃ s', regContextEntry σ agaw s dom unit bus devfn = some s' ∧ Placed σ s' ∧
      s'.rootEntry = s.rootEntry ∧ s'.pgd = s.pgd ∧ s'.iopt.mem = s.iopt.mem ∧
      ∀ u b d, contextOf s' u b d =
        if (u = unit ∧ b = bus ∧ d = devfn) ∧ (contextOf s unit bus devfn).p = false then
          domainEntry agaw dom pgd
        else contextOf s u b d := by
  obtain ⟨rootPage, hrootPage⟩ := Option.ne_none_iff_exists'.mp hroot
  obtain ⟨hplaced, hpage, hsame⟩ := h.devidToContext hrootPage bus
  obtain ⟨hroots, hpgds, hmem⟩ := devidToContext_keeps (σ := σ) s rootPage bus
  rw [Iommu.regContextEntry, hrootPage, Option.map_some]
  generalize Iommu.devidToContext σ s rootPage bus = r at *
  obtain ⟨page, s₁⟩ := r
  dsimp only at *
  have hfind : contextOf s unit bus devfn = s₁.contexts page devfn := by
    rw [← hsame, contextOf, hpage]
  cases hp : (s₁.contexts page devfn).p with
  | true =>
    refine ⟨s₁, by rw [if_pos rfl], hplaced, hroots, hpgds, hmem, fun u b d => ?_⟩
    rw [hsame, hfind, hp, if_neg]
    simp
  | false =>
    rw [← hpgds] at hpgd
    have hset := hplaced.contextOf_set hpage devfn (domainEntry agaw dom pgd)
    rw [if_neg Bool.false_ne_true, domainPgd, hpgd]
    refine ⟨_, rfl, ⟨hplaced.root_used, hplaced.root_inj, hplaced.page_used, hplaced.page_inj⟩,
      hroots, hpgds, hmem, fun u b d => ?_⟩
    rw [hfind, hp, ← hsame]
    simp only [and_true]
    exact hset u b d

end Placed

end OnDemandVirt.Iommu
