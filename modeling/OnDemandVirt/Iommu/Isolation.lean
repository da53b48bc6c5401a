import OnDemandVirt.Iommu.Translation

/-!
# Isolation of devices

What the remapping units let a device reach after `iommu_setup` (`Isolates`), and the platforms on
which that is what it should be (`Isolable`).
-/

namespace OnDemandVirt.Iommu

open Lib

variable {σ : Radix.Supply} {agaw n : Nat} {s : Tables} {m : Platform} {a : PciAddress}

/-- A frame of the VMM. -/
def Platform.InVmm (m : Platform) (f : Nat) : Prop :=
  m.vmmStart.toNat ≤ f ∧ f < m.vmmStart.toNat + 2 ^ 15

instance (m : Platform) (f : Nat) : Decidable (m.InVmm f) := inferInstanceAs (Decidable (_ ∧ _))

/-- Devices reach what they should, and nothing else. -/
structure Platform.Isolates (σ : Radix.Supply) (m : Platform) (s : Tables) : Prop where
  passThrough : ∀ a ∈ m.devices, ¬m.Registered a → ∀ f < lowFrames,
    m.walk s a f = if m.InVmm f then none else some (f, true, true)
  named : ∀ c ∈ m.calls, ∀ f, c.Names f → m.walk s c.addr f = granted c.perm f
  unnamed : ∀ a, m.Registered a → ∀ f, (∀ c ∈ m.calls, c.addr = a → ¬c.Names f) →
    m.walk s a f = none
  independent : ∀ a calls s', calls.filter (·.addr = a) = m.calls.filter (·.addr = a) →
    { m with calls := calls }.iommuSetup σ = some s' → ∀ f, m.walk s' a f = m.walk s a f

/-- When devices are isolated: everything fits in its array, every device has a unit, the tables
have more than two levels if anything is reached, the VMM ends below 4GB if a device is passed
through, and the registrations of a device agree and name frames below 4GB. -/
structure Platform.Isolable (m : Platform) : Prop where
  calls : m.calls.length ≤ 256
  domains : (m.calls.map Remap.addr).dedup.length < maxIoDom
  drhds : m.drhds ≠ []
  matched : ∀ a, a ∈ m.devices ∨ m.Registered a → matchedDrhdU m.drhds a ≠ none
  width : ∃ agaw, iodomInit m.drhds = some agaw ∧ (0 < agaw ∨
    (∀ a ∈ m.devices, m.Registered a) ∧ ∀ c ∈ m.calls, c.perm ≠ .no → ∀ f, ¬c.Names f)
  vmm : (∀ a ∈ m.devices, m.Registered a) ∨ m.vmmStart.toNat + 2 ^ 15 < lowFrames
  agree : ∀ c ∈ m.calls, ∀ c' ∈ m.calls, c.addr = c'.addr → ∀ f, c.Names f → c'.Names f →
    c.perm = c'.perm
  below : ∀ c ∈ m.calls, c.perm ≠ .no → ∀ f, c.Names f → f < lowFrames

/-! ### What is granted -/

theorem granted_inj {perm perm' : Perm} {f : Nat} (h : granted perm f = granted perm' f) :
    perm = perm' := by
  cases perm <;> cases perm' <;> first | rfl | (simp [granted, Perm.read, Perm.write] at h)

theorem granted_ne_none {perm : Perm} {f : Nat} (h : perm ≠ .no) : granted perm f ≠ none := by
  rw [granted, if_neg h]
  exact Option.some_ne_none _

theorem granted_addr {perm : Perm} {f : Nat} {r : Nat × Bool × Bool}
    (h : granted perm f = some r) : r.1 = f := by
  rw [granted] at h
  split at h
  · cases h
  · cases h
    rfl

/-- What is let through for `x` is the last frame with the digits of `x`. -/
theorem through_addr {perm : Nat → Perm} {M x : Nat} {r : Nat × Bool × Bool}
    (h : through perm M n x = some r) :
    r.1 % M = x ∧ r.1 < n ∧ ∀ z, r.1 < z → z < n → z % M ≠ x := by
  obtain ⟨y, hlast, hgranted⟩ := Option.bind_eq_some_iff.mp h
  rw [granted_addr hgranted]
  exact lastBelow_spec hlast

theorem through_no {perm : Nat → Perm} {M x : Nat} (h : ∀ f < n, perm f = .no) :
    through perm M n x = none := by
  rw [through]
  cases hlast : lastBelow M x n with
  | none => rfl
  | some y =>
    rw [Option.bind_some, h y (lastBelow_spec hlast).2.1]
    rfl

theorem through_of_le {perm : Nat → Perm} {M x : Nat} (hM : n ≤ M) (hx : x < n) :
    through perm M n x = granted (perm x) x := by
  rw [through, lastBelow_eq_some (Nat.mod_eq_of_lt (by omega)) hx]
  · rfl
  · intro z hz hzn
    rw [Nat.mod_eq_of_lt (by omega)]
    omega

/-! ### Rights of a device -/

/-- The rights of a device are those of one of its registrations, if one names the frame. -/
theorem rights_spec (calls : List Remap) (a : PciAddress) (f : Nat) :
    (∃ c ∈ calls, c.addr = a ∧ c.Names f ∧ rights calls a f = c.perm) ∨
      (∀ c ∈ calls, c.addr = a → ¬c.Names f) ∧ rights calls a f = .no := by
  induction calls using List.reverseRecOn with
  | nil => exact .inr ⟨nofun, rfl⟩
  | append_singleton calls c ih =>
    rw [rights, List.foldl_append, List.foldl_cons, List.foldl_nil]
    by_cases hnames : c.addr = a ∧ c.Names f
    · rw [if_pos hnames]
      exact .inl ⟨c, by simp, hnames.1, hnames.2, rfl⟩
    · rw [if_neg hnames]
      obtain ⟨c', hc', haddr, hf, hrights⟩ | ⟨hnone, hrights⟩ := ih
      · exact .inl ⟨c', List.mem_append_left _ hc', haddr, hf, hrights⟩
      · refine .inr ⟨fun c' hc' haddr hf => ?_, hrights⟩
        obtain hc' | hc' := List.mem_append.mp hc'
        · exact hnone c' hc' haddr hf
        · obtain rfl := List.mem_singleton.mp hc'
          exact hnames ⟨haddr, hf⟩

theorem rights_filter (calls : List Remap) (a : PciAddress) (f : Nat) :
    rights calls a f =
      (calls.filter (·.addr = a)).foldl (fun perm c => if c.Names f then c.perm else perm) .no := by
  rw [rights, List.foldl_filter]
  refine List.foldl_ext _ _ _ fun perm c _ => ?_
  by_cases haddr : c.addr = a
  · simp [haddr]
  · simp [haddr]

theorem registered_iff (m : Platform) (a : PciAddress) :
    m.Registered a ↔ m.calls.filter (·.addr = a) ≠ [] := by
  rw [Platform.Registered, ne_eq, List.filter_eq_nil_iff]
  simp

/-- A device is translated by its own registrations only. -/
theorem translation_congr {calls : List Remap} (h : calls.filter (·.addr = a) =
      m.calls.filter (·.addr = a)) (agaw f : Nat) :
    { m with calls := calls }.translation agaw a f = m.translation agaw a f := by
  have hreg : { m with calls := calls }.Registered a ↔ m.Registered a := by
    rw [registered_iff, registered_iff, h]
  have hrights : rights calls a = rights m.calls a := by
    funext f
    rw [rights_filter, rights_filter, h]
  rw [Platform.translation, Platform.translation]
  simp only [hreg, hrights]
  rfl

/-- Whatever is registered for others, a device that is set up is translated the same. -/
theorem walk_congr {calls : List Remap} {s' : Tables}
    (h : calls.filter (·.addr = a) = m.calls.filter (·.addr = a))
    (hrun' : { m with calls := calls }.iommuSetup σ = some s') (hrun : m.iommuSetup σ = some s)
    (f : Nat) : m.walk s' a f = m.walk s a f := by
  obtain ⟨agaw, haccepted⟩ := Platform.accepted_of_iommuSetup hrun
  obtain ⟨agaw', haccepted'⟩ := Platform.accepted_of_iommuSetup hrun'
  obtain rfl := Option.some.inj (haccepted.width.symm.trans haccepted'.width)
  by_cases hunit : matchedDrhdU m.drhds a = none
  · rw [Platform.walk, Platform.walk, hunit]
    rfl
  · rw [haccepted.walk_eq hrun a hunit, ← translation_congr h]
    exact haccepted'.walk_eq hrun' a hunit f

/-! ### The frames below 4GB -/

theorem through_of_translation {f : Nat} {r : Nat × Bool × Bool}
    (h : m.translation agaw a f = some r) : f < ioptEntries ^ (agaw + 2) ∧
      ∃ perm, through perm (ioptEntries ^ (agaw + 2)) lowFrames f = some r := by
  rw [Platform.translation] at h
  by_cases hf : f < ioptEntries ^ (agaw + 2)
  · rw [if_pos hf] at h
    refine ⟨hf, ?_⟩
    split at h
    · exact ⟨_, h⟩
    · split at h
      · exact ⟨_, h⟩
      · cases h
  · rw [if_neg hf] at h
    cases h

theorem translation_lt {f : Nat} (h : m.translation agaw a f ≠ none) : f < lowFrames := by
  obtain ⟨r, hr⟩ := Option.ne_none_iff_exists'.mp h
  obtain ⟨-, perm, hthrough⟩ := through_of_translation hr
  obtain ⟨hmod, hlt, -⟩ := through_addr hthrough
  exact Nat.lt_of_le_of_lt (hmod ▸ Nat.mod_le _ _) hlt

/-- Three levels and more hold every frame below 4GB. -/
theorem lowFrames_le (hagaw : 0 < agaw) : lowFrames ≤ ioptEntries ^ (agaw + 2) := by
  have hpow : ioptEntries ^ 3 ≤ ioptEntries ^ (agaw + 2) :=
    Nat.pow_le_pow_right (by decide) (by omega)
  exact Nat.le_trans (by decide) hpow

theorem translation_registered (hagaw : 0 < agaw) (hreg : m.Registered a) {f : Nat}
    (hf : f < lowFrames) : m.translation agaw a f = granted (rights m.calls a f) f := by
  have hle := lowFrames_le hagaw
  rw [Platform.translation, if_pos (by omega), if_pos hreg, through_of_le hle hf]

theorem translation_passThrough (hagaw : 0 < agaw) (hreg : ¬m.Registered a) (ha : a ∈ m.devices)
    {f : Nat} (hf : f < lowFrames) :
    m.translation agaw a f = granted (m.passPerm f) f := by
  have hle := lowFrames_le hagaw
  rw [Platform.translation, if_pos (by omega), if_neg hreg, if_pos ha, through_of_le hle hf]

/-- With two levels, what is reached is another frame. -/
theorem translation_addr {f : Nat} {r : Nat × Bool × Bool} (h : m.translation 0 a f = some r) :
    r.1 ≠ f := by
  rintro rfl
  obtain ⟨hlt, perm, hthrough⟩ := through_of_translation h
  obtain ⟨hmod, -, hlast⟩ := through_addr hthrough
  refine hlast (r.1 + ioptEntries ^ 2) (Nat.lt_add_of_pos_right (by decide)) ?_
    (by rw [Nat.add_mod_right, hmod])
  exact Nat.lt_of_lt_of_le (Nat.add_lt_add_right hlt _) (by decide)

theorem passPerm_eq (m : Platform) {f : Nat} (hf : f < lowFrames) :
    m.passPerm f =
      if m.InVmm f ∧ m.vmmStart.toNat + 2 ^ 15 < lowFrames then .no else .rw := by
  have hvmm := m.vmmStart.isLt
  have hlow : lowFrames = 2 ^ 20 := rfl
  have hstart : m.vmmStartInf.toNat = m.vmmStart.toNat * 2 ^ 12 := by
    rw [Platform.vmmStartInf, BitVec.toNat_append, BitVec.toNat_ofNat, Nat.zero_mod, Nat.or_zero,
      Nat.shiftLeft_eq]
  have hstartFrame : (m.vmmStartInf >>> 12).toNat = m.vmmStart.toNat := by
    rw [BitVec.toNat_ushiftRight, hstart, Nat.shiftRight_eq_div_pow]
    omega
  have htermFrame : (m.vmmTermInf >>> 12).toNat = (m.vmmStart.toNat + 2 ^ 15) % 2 ^ 20 := by
    rw [BitVec.toNat_ushiftRight, Platform.vmmTermInf, BitVec.toNat_add, hstart,
      Nat.shiftRight_eq_div_pow]
    rw [show (128 * 1024 * 1024 : BitVec 32).toNat = 2 ^ 27 by decide]
    omega
  rw [Platform.passPerm, hstartFrame, htermFrame]
  refine if_congr ⟨fun h => ⟨⟨h.1, ?_⟩, ?_⟩, fun h => ⟨h.1.1, ?_⟩⟩ rfl rfl
  · omega
  · omega
  · have hend := h.1.2
    omega

/-! ### When devices are isolated -/

/-- The registrations of a device that name a frame agree with its rights. -/
theorem Platform.Isolable.rights_eq (h : m.Isolable) {c : Remap} (hc : c ∈ m.calls) {f : Nat}
    (hf : c.Names f) : rights m.calls c.addr f = c.perm := by
  obtain ⟨c', hc', haddr, hf', hrights⟩ | ⟨hnone, -⟩ := rights_spec m.calls c.addr f
  · rw [hrights]
    exact h.agree c' hc' c hc haddr f hf' hf
  · exact absurd hf (hnone c hc rfl)

/-- Without rights, or behind 4GB, a device with registrations reaches nothing. -/
theorem Platform.Isolable.translation_eq (h : m.Isolable)
    (hwidth : iodomInit m.drhds = some agaw) (hreg : m.Registered a) (f : Nat) :
    m.translation agaw a f = if f < lowFrames then granted (rights m.calls a f) f else none := by
  by_cases hf : f < lowFrames
  · rw [if_pos hf]
    obtain ⟨agaw', hwidth', hpos | ⟨-, hno⟩⟩ := h.width
    · obtain rfl := Option.some.inj (hwidth.symm.trans hwidth')
      exact translation_registered hpos hreg hf
    · have hrights (f : Nat) : rights m.calls a f = .no := by
        obtain ⟨c, hc, -, hnames, hrights⟩ | ⟨-, hrights⟩ := rights_spec m.calls a f
        · rw [hrights]
          by_contra hne
          exact hno c hc hne f hnames
        · exact hrights
      rw [Platform.translation, if_pos hreg, through_no fun f _ => hrights f, ite_self, hrights]
      rfl
  · rw [if_neg hf]
    by_contra hne
    exact hf (translation_lt hne)

theorem Platform.Isolable.isolates (h : m.Isolable) :
    ∃ s, m.iommuSetup σ = some s ∧ m.Isolates σ s := by
  obtain ⟨agaw, hwidth, hlevels⟩ := h.width
  obtain ⟨s, hrun, hwalk⟩ := Platform.iommuSetup_eq_some (σ := σ)
    ⟨h.calls, h.drhds, hwidth, h.domains, h.matched⟩
  refine ⟨s, hrun, ⟨fun a ha hreg f hf => ?_, fun c hc f hnames => ?_, fun a hreg f hnone => ?_,
    fun a calls s' hcalls hrun' f => ?_⟩⟩
  · rw [hwalk a (h.matched a (.inl ha))]
    have hvmm := h.vmm.resolve_left fun hall => hreg (hall a ha)
    have hpos := hlevels.resolve_right fun hall => hreg (hall.1 a ha)
    rw [translation_passThrough hpos hreg ha hf, passPerm_eq m hf]
    by_cases hin : m.InVmm f
    · rw [if_pos ⟨hin, hvmm⟩, if_pos hin]
      rfl
    · rw [if_neg fun hall => hin hall.1, if_neg hin]
      rfl
  · have hreg : m.Registered c.addr := ⟨c, hc, rfl⟩
    rw [hwalk c.addr (h.matched c.addr (.inr hreg)), h.translation_eq hwidth hreg,
      h.rights_eq hc hnames]
    by_cases hperm : c.perm = .no
    · rw [hperm, granted, if_pos rfl, ite_self]
    · rw [if_pos (h.below c hc hperm f hnames)]
  · rw [hwalk a (h.matched a (.inr hreg)), h.translation_eq hwidth hreg]
    obtain ⟨c, hc, haddr, hnames, -⟩ | ⟨-, hrights⟩ := rights_spec m.calls a f
    · exact absurd hnames (hnone c hc haddr)
    · rw [hrights, granted, if_pos rfl, ite_self]
  · exact walk_congr hcalls hrun' hrun f

/-- Devices are isolated only where nothing is in the way. -/
theorem Platform.Isolates.isolable (hrun : m.iommuSetup σ = some s) (h : m.Isolates σ s) :
    m.Isolable := by
  obtain ⟨agaw, haccepted⟩ := Platform.accepted_of_iommuSetup hrun
  have hwalk := haccepted.walk_eq hrun
  have hnamed (c : Remap) (hc : c ∈ m.calls) (f : Nat) (hnames : c.Names f) :
      m.translation agaw c.addr f = granted c.perm f := by
    rw [← h.named c hc f hnames, hwalk c.addr (haccepted.matched _ (.inr ⟨c, hc, rfl⟩))]
  have hpass (a : PciAddress) (ha : a ∈ m.devices) (hreg : ¬m.Registered a) (f : Nat)
      (hf : f < lowFrames) :
      m.translation agaw a f = if m.InVmm f then none else some (f, true, true) := by
    rw [← h.passThrough a ha hreg f hf, hwalk a (haccepted.matched a (.inl ha))]
  have hpos : 0 < agaw ∨
      (∀ a ∈ m.devices, m.Registered a) ∧ ∀ c ∈ m.calls, c.perm ≠ .no → ∀ f, ¬c.Names f := by
    refine (Nat.eq_zero_or_pos agaw).symm.imp_right fun hzero => ?_
    subst hzero
    refine ⟨fun a ha => ?_, fun c hc hperm f hnames => ?_⟩
    · by_contra hreg
      -- one of two frames is outside the VMM
      obtain ⟨f, hf, hout⟩ : ∃ f < lowFrames, ¬m.InVmm f := by
        by_cases hin : m.InVmm 0
        · refine ⟨2 ^ 15, by decide, fun hin' => ?_⟩
          have hstart := hin.1
          have hend := hin'.2
          omega
        · exact ⟨0, by decide, hin⟩
      have hsome := hpass a ha hreg f hf
      rw [if_neg hout] at hsome
      exact translation_addr hsome rfl
    · obtain ⟨r, hr⟩ := Option.ne_none_iff_exists'.mp (granted_ne_none (f := f) hperm)
      exact translation_addr ((hnamed c hc f hnames).trans hr) (granted_addr hr)
  refine ⟨haccepted.calls, haccepted.domains, haccepted.drhds, haccepted.matched,
    ⟨agaw, haccepted.width, hpos⟩, ?_, fun c hc c' hc' haddr f hnames hnames' => ?_,
    fun c hc hperm f hnames => ?_⟩
  · by_contra hnot
    obtain ⟨hdev, hend⟩ := not_or.mp hnot
    push Not at hdev
    obtain ⟨a, ha, hreg⟩ := hdev
    have hlevels := hpos.resolve_right fun hall => hreg (hall.1 a ha)
    have hstart := m.vmmStart.isLt
    have hin : m.InVmm m.vmmStart.toNat :=
      ⟨Nat.le_refl _, Nat.lt_add_of_pos_right (Nat.two_pow_pos 15)⟩
    have hnone := hpass a ha hreg m.vmmStart.toNat hstart
    rw [if_pos hin, translation_passThrough hlevels hreg ha hstart, passPerm_eq m hstart,
      if_neg fun hall => hend hall.2] at hnone
    exact granted_ne_none (by decide) hnone
  · have hsame := hnamed c hc f hnames
    rw [haddr, hnamed c' hc' f hnames'] at hsame
    exact (granted_inj hsame).symm
  · have hne : m.translation agaw c.addr f ≠ none := by
      rw [hnamed c hc f hnames]
      exact granted_ne_none hperm
    exact translation_lt hne

/-- Devices are isolated after `iommu_setup` exactly on the platforms that are `Isolable`. -/
theorem isolates_iff (σ : Radix.Supply) (m : Platform) :
    (∃ s, m.iommuSetup σ = some s ∧ m.Isolates σ s) ↔ m.Isolable :=
  ⟨fun ⟨_, hrun, h⟩ => h.isolable hrun, fun h => h.isolates⟩

/-- A unit with tables of two levels only, and one device that is passed through. -/
def twoLevels : Platform where
  drhds := [⟨[], true, 0x1d0100⟩]
  vmmStart := 0x70000
  devices := [⟨0, 2, 0⟩]
  calls := []

theorem not_isolates_twoLevels :
    ¬∀ (σ : Radix.Supply) (m : Platform), ∃ s, m.iommuSetup σ = some s ∧ m.Isolates σ s := by
  intro hall
  obtain ⟨s, hrun, h⟩ := hall ⟨Nat.succ, Nat.succ_injective, Nat.succ_ne_zero⟩ twoLevels
  obtain ⟨agaw, hwidth, hlevels⟩ := (h.isolable hrun).width
  have hzero : iodomInit twoLevels.drhds = some 0 := by decide
  obtain rfl := Option.some.inj (hzero.symm.trans hwidth)
  obtain hpos | ⟨hreg, -⟩ := hlevels
  · exact Nat.lt_irrefl 0 hpos
  · obtain ⟨c, hc, -⟩ := hreg ⟨0, 2, 0⟩ (by decide)
    cases hc

end OnDemandVirt.Iommu
