import OnDemandVirt.Iommu.Tables
import Mathlib.Data.Finset.Dedup
import Mathlib.Order.Interval.Finset.Nat

/-!
# Registrations and domains

`add_remap` keeps the frames that a driver registers for its device, and `remap_preconf` numbers the
devices: every registration of a device gets the domain of its first one (`Numbering`).
-/

namespace OnDemandVirt.Iommu

/-- `pci_config_address_t`, by what names a device. -/
structure PciAddress where
  busNo : BitVec 8
  deviceNo : BitVec 5
  funcNo : BitVec 3
  deriving DecidableEq

/-- The device and function number in one byte. -/
def PciAddress.devfn (a : PciAddress) : BitVec 8 := a.deviceNo ++ a.funcNo

theorem PciAddress.toNat_devfn (a : PciAddress) :
    a.devfn.toNat = 2 ^ 3 * a.deviceNo.toNat + a.funcNo.toNat := by
  rw [devfn, BitVec.toNat_append, ← Nat.shiftLeft_add_eq_or_of_lt a.funcNo.isLt,
    Nat.shiftLeft_eq, Nat.mul_comm]

theorem PciAddress.ext_devfn {a b : PciAddress} (hbus : a.busNo = b.busNo)
    (hdevfn : a.devfn = b.devfn) : a = b := by
  have heq := a.toNat_devfn
  rw [hdevfn, b.toNat_devfn] at heq
  have ha := a.funcNo.isLt
  have hb := b.funcNo.isLt
  obtain ⟨bus, dev, func⟩ := a
  obtain ⟨bus', dev', func'⟩ := b
  dsimp only at heq ha hb hbus
  obtain rfl : dev = dev' := BitVec.eq_of_toNat_eq (by omega)
  obtain rfl : func = func' := BitVec.eq_of_toNat_eq (by omega)
  rw [hbus]

/-- An `int` that numbers or counts page frames. -/
abbrev FrameInt := { i : BitVec 32 // i.msb = false }

/-- The arguments of `add_remap`. -/
structure Remap where
  addr : PciAddress
  phys : FrameInt
  numPages : FrameInt
  perm : Perm

/-- The frames that a driver registers. -/
def Remap.Names (c : Remap) (f : Nat) : Prop :=
  c.phys.1.toNat ≤ f ∧ f < c.phys.1.toNat + c.numPages.1.toNat

/-- `struct remap_inf`. -/
structure RemapInf where
  addr : PciAddress
  phys : BitVec 32
  numPages : BitVec 32
  perm : Perm
  dom : Nat

/-- The frame number `i` is within the registration, by its comparisons as `unsigned long`. -/
def RemapInf.covers (r : RemapInf) (i : Nat) : Bool :=
  r.phys.signExtend 64 ≤ BitVec.ofNat 64 i &&
    BitVec.ofNat 64 i < (r.phys + r.numPages).signExtend 64

/-- `add_remap`, `none` where `rem` is written behind its end. -/
def addRemap (rem : List RemapInf) (c : Remap) : Option (List RemapInf) :=
  if rem.length < 256 then some (rem ++ [⟨c.addr, c.phys.1, c.numPages.1, c.perm, 0⟩]) else none

/-- The inner loops of `remap_preconf`: the first registration without a domain and those of its
device behind it get the domain `cnt`. `none` where every registration has one. -/
def preconfPass (cnt : Nat) : List RemapInf → Option (List RemapInf)
  | [] => none
  | r :: rem =>
    if r.dom = 0 then
      some ({ r with dom := cnt } :: rem.map fun r' =>
        if r.addr.busNo = r'.addr.busNo ∧ r.addr.devfn = r'.addr.devfn then { r' with dom := cnt }
        else r')
    else (preconfPass cnt rem).map (r :: ·)

/-- Every pass leaves less registrations without a domain. -/
theorem preconfPass_lt {cnt : Nat} {rem rem' : List RemapInf}
    (h : preconfPass (cnt + 1) rem = some rem') :
    rem'.countP (·.dom = 0) < rem.countP (·.dom = 0) := by
  induction rem generalizing rem' with
  | nil => cases h
  | cons r rem ih =>
    rw [preconfPass] at h
    by_cases hdom : r.dom = 0
    · rw [if_pos hdom] at h
      cases h
      rw [List.countP_cons_of_neg (by simp), List.countP_cons_of_pos (by simpa using hdom),
        List.countP_map]
      refine Nat.lt_succ_of_le (List.countP_mono_left fun r' _ hr' => ?_)
      by_contra hne
      simp only [Function.comp_apply] at hr'
      split at hr'
      · simp at hr'
      · exact hne hr'
    · rw [if_neg hdom] at h
      obtain ⟨rem₁, hpass, rfl⟩ := Option.map_eq_some_iff.mp h
      rw [List.countP_cons_of_neg (by simpa using hdom),
        List.countP_cons_of_neg (by simpa using hdom)]
      exact ih hpass

/-- The loop of `remap_preconf`, with the domains below `cnt + 1` given. -/
def preconfLoop (cnt : Nat) (rem : List RemapInf) : Nat × List RemapInf :=
  match h : preconfPass (cnt + 1) rem with
  | none => (cnt + 1, rem)
  | some rem' => preconfLoop (cnt + 1) rem'
termination_by rem.countP (·.dom = 0)
decreasing_by exact preconfPass_lt h

/-- `remap_preconf`: the number of domains, and the registrations with theirs. -/
def remapPreconf (rem : List RemapInf) : Nat × List RemapInf :=
  if rem = [] then (0, rem) else preconfLoop 0 rem

/-- `search_remap`. -/
def searchRemap (rem : List RemapInf) (a : PciAddress) : Nat :=
  match rem.find? fun r =>
    r.addr.busNo = a.busNo ∧ r.addr.deviceNo = a.deviceNo ∧ r.addr.funcNo = a.funcNo with
  | some r => r.dom
  | none => 0

/-! ### What a registration covers -/

theorem covers_iff {r : RemapInf} {c : Remap} (hphys : r.phys = c.phys.1)
    (hnum : r.numPages = c.numPages.1) {i : Nat} (hi : i < 2 ^ 20) :
    r.covers i = true ↔ c.Names i := by
  have hp := c.phys.2
  have hn := c.numPages.2
  rw [BitVec.msb_eq_false_iff_two_mul_lt] at hp hn
  rw [RemapInf.covers, hphys, hnum, Remap.Names, Bool.and_eq_true, decide_eq_true_eq,
    decide_eq_true_eq, BitVec.le_def, BitVec.lt_def, BitVec.toNat_signExtend,
    BitVec.toNat_signExtend, c.phys.2, BitVec.toNat_setWidth, BitVec.toNat_setWidth,
    BitVec.toNat_ofNat, BitVec.toNat_add]
  generalize c.phys.1 = p at *
  generalize c.numPages.1 = n at *
  by_cases hwrap : p.toNat + n.toNat < 2 ^ 31
  · have hmsb : (p + n).msb = false := by
      rw [BitVec.msb_eq_false_iff_two_mul_lt, BitVec.toNat_add]
      omega
    rw [if_neg Bool.false_ne_true, hmsb, if_neg Bool.false_ne_true]
    omega
  · have hmsb : (p + n).msb = true := by
      rw [BitVec.msb_eq_true_iff_two_mul_ge, BitVec.toNat_add]
      omega
    rw [if_neg Bool.false_ne_true, hmsb, if_pos rfl]
    omega

/-! ### The numbers of the domains -/

variable {calls : List Remap} {cnt : Nat} {g : PciAddress → Nat}

/-- The registration of a call, in the domain that its device has. -/
def entry (g : PciAddress → Nat) (c : Remap) : RemapInf :=
  ⟨c.addr, c.phys.1, c.numPages.1, c.perm, g c.addr⟩

theorem entry_update (g : PciAddress → Nat) (a : PciAddress) (n : Nat) (c : Remap) :
    entry (Function.update g a n) c =
      if c.addr = a then { entry g c with dom := n } else entry g c := by
  rw [entry]
  by_cases haddr : c.addr = a
  · subst haddr
    rw [if_pos rfl, Function.update_self]
    rfl
  · rw [if_neg haddr, Function.update_of_ne haddr]
    rfl

/-- The domains up to `cnt` are given, each to one device. -/
structure Numbering (calls : List Remap) (cnt : Nat) (g : PciAddress → Nat) : Prop where
  le : ∀ c ∈ calls, g c.addr ≤ cnt
  inj : ∀ c ∈ calls, ∀ c' ∈ calls, g c.addr ≠ 0 → g c.addr = g c'.addr → c.addr = c'.addr
  used : ∀ n, 1 ≤ n → n ≤ cnt → ∃ c ∈ calls, g c.addr = n

theorem addRemap_foldlM {calls : List Remap} (rem : List RemapInf) :
    calls.foldlM addRemap rem =
      if rem.length + calls.length ≤ 256 ∨ calls = [] then
        some (rem ++ calls.map (entry fun _ => 0))
      else none := by
  induction calls generalizing rem with
  | nil => simp
  | cons c calls ih =>
    rw [List.foldlM_cons, addRemap]
    by_cases hlen : rem.length < 256
    · rw [if_pos hlen]
      refine (ih _).trans ?_
      rw [List.length_append, List.length_singleton, List.length_cons]
      by_cases hall : rem.length + (calls.length + 1) ≤ 256
      · rw [if_pos (.inl (by omega)), if_pos (.inl hall), List.append_assoc]
        rfl
      · rw [if_neg, if_neg]
        · rintro (hle | hnil)
          · exact hall hle
          · cases hnil
        · rintro (hle | rfl)
          · omega
          · simp at hall
            omega
    · rw [if_neg hlen, if_neg]
      · rfl
      · simp
        omega

theorem preconfPass_map (calls : List Remap) (cnt : Nat) (g : PciAddress → Nat) :
    (preconfPass (cnt + 1) (calls.map (entry g)) = none ∧ ∀ c ∈ calls, g c.addr ≠ 0) ∨
      ∃ c ∈ calls, g c.addr = 0 ∧ preconfPass (cnt + 1) (calls.map (entry g)) =
        some (calls.map (entry (Function.update g c.addr (cnt + 1)))) := by
  induction calls with
  | nil => exact .inl ⟨rfl, fun _ h => nomatch h⟩
  | cons c calls ih =>
    rw [List.map_cons, preconfPass]
    by_cases hdom : g c.addr = 0
    · refine .inr ⟨c, List.mem_cons_self, hdom, ?_⟩
      rw [if_pos (show (entry g c).dom = 0 from hdom), List.map_cons, List.map_map]
      refine congrArg some (congrArg₂ List.cons ?_ (List.map_congr_left fun c' _ => ?_))
      · rw [entry_update, if_pos rfl]
      · rw [Function.comp_apply, entry_update]
        refine if_congr ⟨fun hsame => ?_, fun haddr => ?_⟩ rfl rfl
        · exact PciAddress.ext_devfn hsame.1.symm hsame.2.symm
        · exact ⟨congrArg PciAddress.busNo haddr.symm, congrArg PciAddress.devfn haddr.symm⟩
    · rw [if_neg (show (entry g c).dom ≠ 0 from hdom)]
      obtain ⟨hnone, hall⟩ | ⟨c', hc', hdom', hsome⟩ := ih
      · rw [hnone]
        exact .inl ⟨rfl, List.forall_mem_cons.mpr ⟨hdom, hall⟩⟩
      · refine .inr ⟨c', List.mem_cons_of_mem c hc', hdom', ?_⟩
        rw [hsome, List.map_cons, Option.map_some]
        refine congrArg some (congrArg₂ List.cons ?_ rfl)
        rw [entry_update, if_neg]
        intro heq
        rw [heq] at hdom
        exact hdom hdom'

namespace Numbering

theorem zero (calls : List Remap) : Numbering calls 0 fun _ => 0 where
  le _ _ := Nat.le_refl _
  inj _ _ _ _ h := absurd rfl h
  used n h h' := absurd (Nat.le_trans h h') (by decide)

/-- The next domain, for a device that has none. -/
theorem succ (h : Numbering calls cnt g) {c : Remap} (hc : c ∈ calls) (hdom : g c.addr = 0) :
    Numbering calls (cnt + 1) (Function.update g c.addr (cnt + 1)) where
  le c' hc' := by
    by_cases haddr : c'.addr = c.addr
    · rw [haddr, Function.update_self]
    · rw [Function.update_of_ne haddr]
      exact Nat.le_succ_of_le (h.le c' hc')
  inj c₁ h₁ c₂ h₂ hne heq := by
    have hle₁ := h.le c₁ h₁
    have hle₂ := h.le c₂ h₂
    by_cases haddr₁ : c₁.addr = c.addr <;> by_cases haddr₂ : c₂.addr = c.addr
    · rw [haddr₁, haddr₂]
    · rw [haddr₁, Function.update_self, Function.update_of_ne haddr₂] at heq
      omega
    · rw [haddr₂, Function.update_self, Function.update_of_ne haddr₁] at heq
      omega
    · rw [Function.update_of_ne haddr₁] at hne
      rw [Function.update_of_ne haddr₁, Function.update_of_ne haddr₂] at heq
      exact h.inj c₁ h₁ c₂ h₂ hne heq
  used n hn hle := by
    by_cases hlast : n = cnt + 1
    · exact ⟨c, hc, by rw [Function.update_self, hlast]⟩
    · obtain ⟨c', hc', hg⟩ := h.used n hn (by omega)
      refine ⟨c', hc', ?_⟩
      rw [Function.update_of_ne, hg]
      intro haddr
      rw [haddr, hdom] at hg
      omega

/-- Where every device has a domain, there are as many domains as devices. -/
theorem card (h : Numbering calls cnt g) (hall : ∀ c ∈ calls, g c.addr ≠ 0) :
    (calls.map Remap.addr).dedup.length = cnt := by
  rw [← List.card_toFinset]
  have himage : (calls.map Remap.addr).toFinset.image g = Finset.Icc 1 cnt := by
    ext n
    simp only [Finset.mem_image, List.mem_toFinset, List.mem_map, Finset.mem_Icc]
    constructor
    · rintro ⟨a, ⟨c, hc, rfl⟩, rfl⟩
      exact ⟨Nat.one_le_iff_ne_zero.mpr (hall c hc), h.le c hc⟩
    · rintro ⟨hn, hle⟩
      obtain ⟨c, hc, hg⟩ := h.used n hn hle
      exact ⟨c.addr, ⟨c, hc, rfl⟩, hg⟩
  rw [← Finset.card_image_of_injOn (f := g), himage, Nat.card_Icc, Nat.add_sub_cancel]
  intro a ha b hb hab
  simp only [Finset.mem_coe, List.mem_toFinset, List.mem_map] at ha hb
  obtain ⟨c, hc, rfl⟩ := ha
  obtain ⟨c', hc', rfl⟩ := hb
  exact h.inj c hc c' hc' (hall c hc) hab

end Numbering

theorem preconfLoop_spec (h : Numbering calls cnt g) :
    ∃ n g', preconfLoop cnt (calls.map (entry g)) = (n + 1, calls.map (entry g')) ∧
      Numbering calls n g' ∧ ∀ c ∈ calls, g' c.addr ≠ 0 := by
  generalize hrem : calls.map (entry g) = rem
  induction cnt, rem using preconfLoop.induct generalizing g with
  | case1 cnt rem hnone =>
    subst hrem
    obtain ⟨-, hall⟩ | ⟨c, -, -, hsome⟩ := preconfPass_map calls cnt g
    · rw [preconfLoop, hnone]
      exact ⟨cnt, g, rfl, h, hall⟩
    · rw [hnone] at hsome
      cases hsome
  | case2 cnt rem rem' hsome ih =>
    subst hrem
    obtain ⟨hnone, -⟩ | ⟨c, hc, hdom, hmap⟩ := preconfPass_map calls cnt g
    · rw [hnone] at hsome
      cases hsome
    · rw [preconfLoop, hsome]
      exact ih (h.succ hc hdom) (Option.some.inj (hmap.symm.trans hsome))

/-- Every device gets a domain of its own. -/
theorem remapPreconf_spec (calls : List Remap) :
    ∃ n g, (remapPreconf (calls.map (entry fun _ => 0))).1 - 1 = n ∧
      (remapPreconf (calls.map (entry fun _ => 0))).2 = calls.map (entry g) ∧
      Numbering calls n g ∧ ∀ c ∈ calls, g c.addr ≠ 0 := by
  rw [remapPreconf]
  by_cases hnil : calls = []
  · rw [if_pos (List.map_eq_nil_iff.mpr hnil), hnil]
    exact ⟨0, fun _ => 0, rfl, rfl, .zero [], fun _ h => nomatch h⟩
  · rw [if_neg fun hmap => hnil (List.map_eq_nil_iff.mp hmap)]
    obtain ⟨n, g, hloop, hnum, hall⟩ := preconfLoop_spec (.zero calls)
    exact ⟨n, g, by rw [hloop, Nat.add_sub_cancel], by rw [hloop], hnum, hall⟩

theorem searchRemap_map (calls : List Remap) (g : PciAddress → Nat) (a : PciAddress) :
    searchRemap (calls.map (entry g)) a = if ∃ c ∈ calls, c.addr = a then g a else 0 := by
  rw [searchRemap]
  split
  case h_1 r hfind =>
    obtain ⟨c, hc, rfl⟩ := List.mem_map.mp (List.mem_of_find?_eq_some hfind)
    have hsame := List.find?_some hfind
    rw [decide_eq_true_eq] at hsame
    have haddr : c.addr = a := by
      obtain ⟨hbus, hdev, hfunc⟩ := hsame
      refine PciAddress.ext_devfn hbus ?_
      rw [PciAddress.devfn, PciAddress.devfn]
      exact congrArg₂ _ hdev hfunc
    rw [if_pos ⟨c, hc, haddr⟩, ← haddr]
    rfl
  case h_2 hfind =>
    rw [if_neg]
    rintro ⟨c, hc, rfl⟩
    exact List.find?_eq_none.mp hfind (entry g c) (List.mem_map_of_mem hc) (by simp [entry])

end OnDemandVirt.Iommu
