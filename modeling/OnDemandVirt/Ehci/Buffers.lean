import Mathlib.Data.List.Forall2
import OnDemandVirt.Lib.LowBits
import OnDemandVirt.Uhci.Buffers

/-!
# The shadow buffers of a qTD list

`make_buffer_list` makes an entry of each page that a qTD's data lies in, with the page offsets of
the pointers 1 to 4 cut off. `ehci_shadow_buffer` gives each entry a page of the VMM, and in a second
pass over the qTDs puts it in place of the pointer, which it compares whole with the entry. Both go
from pointer 0 on, whatever the current page of the qTD. So the assertion holds if the pointers that
are used have no page offset, and the controller reaches shadow pages only if it begins at pointer 0,
or if the data fill all five pages (`contains_qtds_iff`).
-/

namespace OnDemandVirt.Ehci

open Lib.LowBits
open Uhci (UsbBuffer)

/-- `struct ehci_qtd`. Of the buffer pointers, the words for controllers with 64-bit addresses, which
the driver does not support, are left out. -/
structure Qtd where
  token : BitVec 32
  buffer : Fin 5 → BitVec 32

/-- `is_active_qtd`; the status in the metadata is the low byte of the same token. -/
def isActiveQtd (qtd : Qtd) : Bool := qtd.token &&& 0x80 ≠ 0

/-- `ehci_qtd_len`. -/
def ehciQtdLen (qtd : Qtd) : Nat := ((qtd.token &&& 0x7fff0000) >>> 16).toNat

def ehciQtdPid (qtd : Qtd) : BitVec 8 := ((qtd.token &&& 0x300) >>> 8).setWidth 8

def pidEhci2usb (ehcipid : BitVec 8) : BitVec 8 :=
  if ehcipid = 0 then 0xe1 else if ehcipid = 1 then 0x69 else if ehcipid = 2 then 0x2d else ehcipid

/-- `register_buffer_page`: the entry, the offset behind it, and the bytes that remain. -/
def registerBufferPage (bufp sOff : Nat) (pid : BitVec 8) (offset remain : Nat) :
    UsbBuffer × Nat × Nat :=
  let len := min (4096 - sOff) remain
  (⟨pid, bufp, offset, len⟩, offset + len, remain - len)

/-- "look at following buffer pointers": the entries, and the offset behind them. -/
def followingPages (qtd : Qtd) (pid : BitVec 8) : List (Fin 5) → Nat → Nat → List UsbBuffer × Nat
  | [], offset, _ => ([], offset)
  | i :: is, offset, remain =>
    if 0 < remain then
      let r := registerBufferPage (qtd.buffer i &&& 0xfffff000).toNat 0 pid offset remain
      let rest := followingPages qtd pid is r.2.1 r.2.2
      (r.1 :: rest.1, rest.2)
    else ([], offset)

/-- The entries of one qTD. -/
def qtdBuffers (qtd : Qtd) (pid : BitVec 8) (offset : Nat) : List UsbBuffer × Nat :=
  let bufp := qtd.buffer 0
  let r := registerBufferPage bufp.toNat (bufp &&& 0xfff).toNat pid offset (ehciQtdLen qtd)
  let rest := followingPages qtd pid [1, 2, 3, 4] r.2.1 r.2.2
  (r.1 :: rest.1, rest.2)

/-- `make_buffer_list`. -/
def makeBufferList (lastPid : BitVec 8) (offset : Nat) : List Qtd → List UsbBuffer
  | [] => []
  | qtd :: qtds =>
    if isActiveQtd qtd = true ∧ ehciQtdLen qtd ≠ 0 then
      let pid := pidEhci2usb (ehciQtdPid qtd)
      let r := qtdBuffers qtd pid (if pid ≠ lastPid then 0 else offset)
      r.1 ++ makeBufferList pid r.2 qtds
    else makeBufferList lastPid offset qtds

/-- The entry of the shadow, at the offset of the guest's in a page of `alloc2`. The VMM's memory
lies below 4 GiB. -/
def shadowBuffer (page : BitVec 20) (gub : UsbBuffer) : UsbBuffer :=
  { gub with padr := page.toNat * 4096 + gub.padr % 4096 }

/-- "duplicate buffers". -/
def shadowBuffers (page : Nat → BitVec 20) : List UsbBuffer → List UsbBuffer
  | [] => []
  | gub :: gubs => shadowBuffer (page 0) gub :: shadowBuffers (fun i => page (i + 1)) gubs

/-- The pointers of a qTD that are replaced, and the entries behind those of the qTD. `none` is the
assertion that fails. -/
def fitPointers (qtd : Qtd) : List (Fin 5) → Nat → List (UsbBuffer × UsbBuffer) →
    Option (List (BitVec 32) × List (UsbBuffer × UsbBuffer))
  | [], _, ubs => some ([], ubs)
  | _ :: _, _, [] => none
  | i :: is, len, (gub, hub) :: ubs =>
    if gub.padr ≠ (qtd.buffer i).toNat then none
    else if len - gub.len = 0 then some ([BitVec.ofNat 32 hub.padr], ubs)
    else (fitPointers qtd is (len - gub.len) ubs).map fun r =>
      (BitVec.ofNat 32 hub.padr :: r.1, r.2)

def Qtd.withPointers (qtd : Qtd) (ptrs : List (BitVec 32)) : Qtd :=
  { qtd with buffer := fun i => (ptrs[i.val]?).getD (qtd.buffer i) }

/-- "fit buffer pointer in shadow TDs with the duplicated buffers". -/
def fitQtds : List Qtd → List (UsbBuffer × UsbBuffer) → Option (List Qtd)
  | [], [] => some []
  | [], _ :: _ => none
  | qtd :: qtds, ubs =>
    if isActiveQtd qtd = true ∧ ehciQtdLen qtd ≠ 0 then
      (fitPointers qtd [0, 1, 2, 3, 4] (ehciQtdLen qtd) ubs).bind fun r =>
        (fitQtds qtds r.2).map (qtd.withPointers r.1 :: ·)
    else (fitQtds qtds ubs).map (qtd :: ·)

def ehciShadowBuffer (gubs : List UsbBuffer) (page : Nat → BitVec 20) (qtds : List Qtd) :
    Option (List UsbBuffer × List Qtd) :=
  if gubs = [] then none
  else
    let hubs := shadowBuffers page gubs
    (fitQtds qtds (gubs.zip hubs)).map fun qtds => (hubs, qtds)

/-- The buffers of a shadowed queue: `make_buffer_list`, and `ehci_shadow_buffer` as its callers call
it, if there are buffers. -/
def shadowed (qtds : List Qtd) (page : Nat → BitVec 20) : Option (List UsbBuffer × List Qtd) :=
  let gubs := makeBufferList 0xff 0 qtds
  if gubs ≠ [] then ehciShadowBuffer gubs page qtds else some ([], qtds)

/-! ### What the controller reaches -/

/-- `C_Page`, the pointer the controller is at. -/
def cPage (qtd : Qtd) : Nat := ((qtd.token >>> 12) &&& 7).toNat

/-- The pages that the data of a qTD lie in, from its start offset on. -/
def pages (qtd : Qtd) : Nat := ((qtd.buffer 0).toNat % 4096 + ehciQtdLen qtd + 4095) / 4096

/-- The controller can access the page of a pointer. -/
def Accesses (qtd : Qtd) (i : Fin 5) : Prop :=
  isActiveQtd qtd = true ∧ ehciQtdLen qtd ≠ 0 ∧ cPage qtd ≤ i ∧ i < cPage qtd + pages qtd

/-- What the controller accesses for the shadow qTD is a page of the VMM, the shadow of the page that
the guest's pointer designates. -/
def Contained (ubs : List (UsbBuffer × UsbBuffer)) (page : Nat → BitVec 20) (guest qtd : Qtd) : Prop :=
  ∀ i, Accesses qtd i → ∃ gub hub k, (gub, hub) ∈ ubs ∧
    gub.padr / 4096 = (guest.buffer i).toNat / 4096 ∧ hub.padr / 4096 = (page k).toNat ∧
    (qtd.buffer i).toNat / 4096 = hub.padr / 4096

/-- Wherever `alloc2` finds the pages, no assertion fails and every shadow qTD is contained. -/
def Contains (qtds : List Qtd) : Prop :=
  ∀ page, ∃ hubs qtds', shadowed qtds page = some (hubs, qtds') ∧
    List.Forall₂ (Contained ((makeBufferList 0xff 0 qtds).zip hubs) page) qtds qtds'

/-- The pointers of a qTD behind the first that get an entry have no page offset. -/
def Aligned (qtd : Qtd) : Prop :=
  ∀ i : Fin 5, 1 ≤ i.val → i.val < pages qtd → (qtd.buffer i).toNat % 4096 = 0

instance (qtd : Qtd) : Decidable (Aligned qtd) :=
  inferInstanceAs (Decidable (∀ i : Fin 5, 1 ≤ i.val → i.val < pages qtd → _))

/-- The controller begins at pointer 0, or at no pointer; or the data reach the last one. -/
def FromFirst (qtd : Qtd) : Prop := cPage qtd = 0 ∨ 4 < cPage qtd ∨ 5 ≤ pages qtd

def Shadowable (qtds : List Qtd) : Prop :=
  ∀ qtd ∈ qtds, isActiveQtd qtd = true → ehciQtdLen qtd ≠ 0 → Aligned qtd ∧ FromFirst qtd

variable {qtd : Qtd} {qtds : List Qtd} {pid lastPid : BitVec 8} {is : List (Fin 5)}
  {offset remain : Nat} {page : Nat → BitVec 20} {gubs hubs : List UsbBuffer}
  {ubs : List (UsbBuffer × UsbBuffer)}

/-! ### The entries of one qTD -/

theorem toNat_masked (b : BitVec 32) : (b &&& 0xfffff000).toNat = b.toNat - b.toNat % 4096 := by
  rw [show (0xfffff000 : BitVec 32) = ~~~mask 32 12 by decide, toNat_clear (by decide)]
  rfl

theorem toNat_pageOffset (b : BitVec 32) : (b &&& 0xfff).toNat = b.toNat % 4096 :=
  toNat_low (n := 12) (by decide) b

theorem followingPages_succ (hr : 0 < remain) (i : Fin 5) :
    (followingPages qtd pid (i :: is) offset remain).1 =
      ⟨pid, (qtd.buffer i).toNat - (qtd.buffer i).toNat % 4096, offset, min 4096 remain⟩ ::
        (followingPages qtd pid is (offset + min 4096 remain) (remain - min 4096 remain)).1 := by
  rw [followingPages, if_pos hr, toNat_masked]
  rfl

theorem followingPages_zero : (followingPages qtd pid is offset 0).1 = [] := by
  cases is <;> rfl

theorem length_followingPages : (followingPages qtd pid is offset remain).1.length =
    min ((remain + 4095) / 4096) is.length := by
  induction is generalizing offset remain with
  | nil => simp [followingPages]
  | cons i is ih =>
    by_cases hr : 0 < remain
    · rw [followingPages_succ hr, List.length_cons, ih, List.length_cons]
      omega
    · rw [show remain = 0 by omega, followingPages_zero]
      simp

theorem followingPages_padr {k : Nat} {gub : UsbBuffer}
    (hk : (followingPages qtd pid is offset remain).1[k]? = some gub) :
    ∃ i, is[k]? = some i ∧ gub.padr / 4096 = (qtd.buffer i).toNat / 4096 := by
  induction is generalizing offset remain k with
  | nil => simp [followingPages] at hk
  | cons i is ih =>
    by_cases hr : 0 < remain
    · rw [followingPages_succ hr] at hk
      cases k with
      | zero =>
        rw [List.getElem?_cons_zero] at hk
        cases hk
        refine ⟨i, rfl, ?_⟩
        show ((qtd.buffer i).toNat - (qtd.buffer i).toNat % 4096) / 4096 = _
        omega
      | succ k => exact ih hk
    · rw [show remain = 0 by omega, followingPages_zero] at hk
      simp at hk

/-- The pointer of an entry of the shadow. -/
def pointer (hub : UsbBuffer) : BitVec 32 := BitVec.ofNat 32 hub.padr

/-- The second pass over the pages behind the first finds the entries of the first pass, and the
assertion holds if the pointers have no page offset. -/
theorem fitPointers_followingPages (hr : 0 < remain)
    (hlen : hubs.length = (followingPages qtd pid is offset remain).1.length) :
    fitPointers qtd is remain ((followingPages qtd pid is offset remain).1.zip hubs ++ ubs) =
      if ∀ i ∈ is.take hubs.length, (qtd.buffer i).toNat % 4096 = 0 then
        some (hubs.map pointer, ubs) else none := by
  induction is generalizing offset remain hubs with
  | nil =>
    have hnil : hubs = [] := List.length_eq_zero_iff.mp hlen
    rw [hnil]
    simp [followingPages, fitPointers]
  | cons i is ih =>
    rw [followingPages_succ hr] at hlen ⊢
    cases hubs with
    | nil => cases hlen
    | cons hub hubs =>
      rw [List.zip_cons_cons, List.cons_append, fitPointers]
      rw [List.length_cons, List.length_cons, Nat.add_right_cancel_iff] at hlen
      simp only [List.length_cons, List.take_succ_cons, List.forall_mem_cons, List.map_cons]
      by_cases ha : (qtd.buffer i).toNat % 4096 = 0
      · rw [if_neg (by omega)]
        by_cases hlast : remain - min 4096 remain = 0
        · rw [hlast, followingPages_zero] at hlen ⊢
          rw [if_pos rfl, List.length_eq_zero_iff.mp hlen, if_pos ⟨ha, by simp⟩]
          rfl
        · rw [if_neg hlast, ih (by omega) hlen]
          simp only [ha, true_and]
          split <;> rfl
      · rw [if_pos (by omega), if_neg fun h => ha h.1]

theorem length_qtdBuffers (hlen : ehciQtdLen qtd ≠ 0) :
    (qtdBuffers qtd pid offset).1.length = min (pages qtd) 5 := by
  simp only [qtdBuffers, registerBufferPage, List.length_cons, length_followingPages, List.length_nil,
    toNat_pageOffset, pages]
  omega

theorem mem_take_pointers : ∀ m ≤ 4, ∀ i : Fin 5,
    i ∈ ([1, 2, 3, 4] : List (Fin 5)).take m ↔ 1 ≤ i.val ∧ i.val < m + 1 := by
  decide

theorem qtdBuffers_fst : (qtdBuffers qtd pid offset).1 =
    ⟨pid, (qtd.buffer 0).toNat, offset, min (4096 - (qtd.buffer 0).toNat % 4096) (ehciQtdLen qtd)⟩ ::
      (followingPages qtd pid [1, 2, 3, 4]
        (offset + min (4096 - (qtd.buffer 0).toNat % 4096) (ehciQtdLen qtd))
        (ehciQtdLen qtd - min (4096 - (qtd.buffer 0).toNat % 4096) (ehciQtdLen qtd))).1 := by
  rw [← toNat_pageOffset]
  rfl

/-- The two passes over one qTD. -/
theorem fitPointers_qtdBuffers (hlen : ehciQtdLen qtd ≠ 0)
    (hhubs : hubs.length = (qtdBuffers qtd pid offset).1.length) :
    fitPointers qtd [0, 1, 2, 3, 4] (ehciQtdLen qtd) ((qtdBuffers qtd pid offset).1.zip hubs ++ ubs) =
      if Aligned qtd then some (hubs.map pointer, ubs) else none := by
  have hcount := hhubs.trans (length_qtdBuffers hlen)
  rw [qtdBuffers_fst] at hhubs ⊢
  cases hubs with
  | nil => cases hhubs
  | cons hub hubs =>
    rw [List.zip_cons_cons, List.cons_append, fitPointers, if_neg (by simp)]
    rw [List.length_cons] at hcount
    rw [List.length_cons, List.length_cons, Nat.add_right_cancel_iff] at hhubs
    have haligned : Aligned qtd ↔
        ∀ i ∈ ([1, 2, 3, 4] : List (Fin 5)).take hubs.length, (qtd.buffer i).toNat % 4096 = 0 := by
      refine forall_congr' fun i => ?_
      rw [mem_take_pointers _ (by omega), and_imp]
      have := i.isLt
      exact ⟨fun h h1 h2 => h h1 (by omega), fun h h1 h2 => h h1 (by omega)⟩
    by_cases hlast : ehciQtdLen qtd - min (4096 - (qtd.buffer 0).toNat % 4096) (ehciQtdLen qtd) = 0
    · rw [hlast, followingPages_zero] at hhubs ⊢
      have hnil := List.length_eq_zero_iff.mp hhubs
      rw [if_pos rfl, if_pos (haligned.mpr (by simp [hnil])), hnil]
      rfl
    · rw [if_neg hlast, fitPointers_followingPages (by omega) hhubs]
      simp only [haligned, List.map_cons]
      split <;> rfl

/-- The page of each entry is that of the pointer. -/
theorem qtdBuffers_padr {i : Fin 5} {gub : UsbBuffer}
    (hi : (qtdBuffers qtd pid offset).1[i.val]? = some gub) :
    gub.padr / 4096 = (qtd.buffer i).toNat / 4096 ∧ (i = 0 → gub.padr = (qtd.buffer 0).toNat) := by
  rw [qtdBuffers_fst] at hi
  rcases Fin.eq_zero_or_eq_succ i with rfl | ⟨k, rfl⟩
  · cases hi
    exact ⟨rfl, fun _ => rfl⟩
  · rw [Fin.val_succ, List.getElem?_cons_succ] at hi
    obtain ⟨j, hj, hpage⟩ := followingPages_padr hi
    have hsucc : ∀ (k : Fin 4) (j : Fin 5),
        ([1, 2, 3, 4] : List (Fin 5))[k.val]? = some j → j = k.succ := by decide
    exact ⟨hsucc k j hj ▸ hpage, fun h => absurd h (Fin.succ_ne_zero k)⟩

/-! ### The shadow qTDs -/

theorem length_shadowBuffers : (shadowBuffers page gubs).length = gubs.length := by
  induction gubs generalizing page with
  | nil => rfl
  | cons gub gubs ih => rw [shadowBuffers, List.length_cons, ih, List.length_cons]

theorem shadowBuffers_append (gubs' : List UsbBuffer) : shadowBuffers page (gubs ++ gubs') =
    shadowBuffers page gubs ++ shadowBuffers (fun i => page (i + gubs.length)) gubs' := by
  induction gubs generalizing page with
  | nil => rfl
  | cons gub gubs ih =>
    rw [List.cons_append, shadowBuffers, ih, shadowBuffers, List.cons_append]
    simp only [List.length_cons, Nat.add_assoc]

theorem getElem?_shadowBuffers (k : Nat) :
    (shadowBuffers page gubs)[k]? = (gubs[k]?).map (shadowBuffer (page k)) := by
  induction gubs generalizing page k with
  | nil => rfl
  | cons gub gubs ih =>
    cases k with
    | zero => rfl
    | succ k => exact ih k

theorem mem_zip_shadowBuffers {gub hub : UsbBuffer}
    (h : (gub, hub) ∈ gubs.zip (shadowBuffers page gubs)) : ∃ k, hub = shadowBuffer (page k) gub := by
  obtain ⟨k, hk⟩ := List.mem_iff_getElem?.mp h
  rw [List.getElem?_zip_eq_some, getElem?_shadowBuffers] at hk
  obtain ⟨hgub, hhub⟩ := hk
  rw [hgub] at hhub
  exact ⟨k, (Option.some.inj hhub).symm⟩

theorem shadowBuffer_page (p : BitVec 20) (gub : UsbBuffer) :
    (shadowBuffer p gub).padr / 4096 = p.toNat ∧
      (shadowBuffer p gub).padr % 4096 = gub.padr % 4096 ∧ (shadowBuffer p gub).padr < 2 ^ 32 := by
  have := p.isLt
  simp only [shadowBuffer]
  omega

/-- The shadow of a qTD with data: its entries in pages of the VMM in place of the pointers. -/
def fitted (qtd : Qtd) (pid : BitVec 8) (offset : Nat) (page : Nat → BitVec 20) : Qtd :=
  qtd.withPointers ((shadowBuffers page (qtdBuffers qtd pid offset).1).map pointer)

theorem fitted_of_lt (hlen : ehciQtdLen qtd ≠ 0) {i : Fin 5} (hi : i.val < pages qtd) :
    ∃ gub, (qtdBuffers qtd pid offset).1[i.val]? = some gub ∧
      ((fitted qtd pid offset page).buffer i).toNat = (shadowBuffer (page i) gub).padr := by
  have hlt : i.val < (qtdBuffers qtd pid offset).1.length := by
    rw [length_qtdBuffers hlen]
    omega
  refine ⟨_, List.getElem?_eq_getElem hlt, ?_⟩
  have hbuf : (fitted qtd pid offset page).buffer i =
      pointer (shadowBuffer (page i) (qtdBuffers qtd pid offset).1[i.val]) := by
    simp only [fitted, Qtd.withPointers, List.getElem?_map, getElem?_shadowBuffers,
      List.getElem?_eq_getElem hlt, Option.map_some, Option.getD_some]
  rw [hbuf, pointer, BitVec.toNat_ofNat, Nat.mod_eq_of_lt (shadowBuffer_page _ _).2.2]

theorem fitted_of_le (hlen : ehciQtdLen qtd ≠ 0) {i : Fin 5} (hi : pages qtd ≤ i.val) :
    (fitted qtd pid offset page).buffer i = qtd.buffer i := by
  simp only [fitted, Qtd.withPointers]
  rw [List.getElem?_eq_none, Option.getD_none]
  rw [List.length_map, length_shadowBuffers, length_qtdBuffers hlen]
  omega

theorem pages_pos (hlen : ehciQtdLen qtd ≠ 0) : 0 < pages qtd := by
  rw [pages]
  omega

/-- The controller goes over the shadow qTD as it would over the guest's. -/
theorem accesses_fitted (hlen : ehciQtdLen qtd ≠ 0) (i : Fin 5) :
    Accesses (fitted qtd pid offset page) i ↔ Accesses qtd i := by
  have hpages : pages (fitted qtd pid offset page) = pages qtd := by
    obtain ⟨gub, hgub, hbuf⟩ : ∃ gub, (qtdBuffers qtd pid offset).1[(0 : Fin 5).val]? = some gub ∧
        ((fitted qtd pid offset page).buffer 0).toNat = (shadowBuffer (page 0) gub).padr :=
      fitted_of_lt hlen (pages_pos hlen)
    have hoff : ((fitted qtd pid offset page).buffer 0).toNat % 4096 = (qtd.buffer 0).toNat % 4096 := by
      rw [hbuf, (shadowBuffer_page _ _).2.1, (qtdBuffers_padr hgub).2 rfl]
    rw [pages, hoff]
    rfl
  rw [Accesses, hpages]
  rfl

/-! ### All qTDs -/

/-- The shadow of a qTD, with its entries among the given ones. -/
def Fitted (ubs : List (UsbBuffer × UsbBuffer)) (qtd qtd' : Qtd) : Prop :=
  if isActiveQtd qtd = true ∧ ehciQtdLen qtd ≠ 0 then
    ∃ pid offset page, qtd' = fitted qtd pid offset page ∧
      ∀ x ∈ (qtdBuffers qtd pid offset).1.zip (shadowBuffers page (qtdBuffers qtd pid offset).1), x ∈ ubs
  else qtd' = qtd

theorem Fitted.mono {ubs' : List (UsbBuffer × UsbBuffer)} {qtd' : Qtd} (h : Fitted ubs qtd qtd')
    (hsub : ∀ x ∈ ubs, x ∈ ubs') : Fitted ubs' qtd qtd' := by
  by_cases hq : isActiveQtd qtd = true ∧ ehciQtdLen qtd ≠ 0
  · rw [Fitted, if_pos hq] at h ⊢
    obtain ⟨pid, offset, page, heq, hmem⟩ := h
    exact ⟨pid, offset, page, heq, fun x hx => hsub x (hmem x hx)⟩
  · rw [Fitted, if_neg hq] at h ⊢
    exact h

/-- The pointers that are used have no page offset. -/
def AllAligned (qtds : List Qtd) : Prop :=
  ∀ qtd ∈ qtds, isActiveQtd qtd = true ∧ ehciQtdLen qtd ≠ 0 → Aligned qtd

theorem makeBufferList_data (hq : isActiveQtd qtd = true ∧ ehciQtdLen qtd ≠ 0) :
    ∃ pid offset', makeBufferList lastPid offset (qtd :: qtds) = (qtdBuffers qtd pid offset').1 ++
      makeBufferList pid (qtdBuffers qtd pid offset').2 qtds :=
  ⟨_, _, if_pos hq⟩

theorem fitQtds_data (hq : isActiveQtd qtd = true ∧ ehciQtdLen qtd ≠ 0) :
    fitQtds (qtd :: qtds) ubs = (fitPointers qtd [0, 1, 2, 3, 4] (ehciQtdLen qtd) ubs).bind fun r =>
      (fitQtds qtds r.2).map (qtd.withPointers r.1 :: ·) := by
  rw [fitQtds, if_pos hq]

/-- The second pass over all qTDs. -/
theorem fitQtds_makeBufferList (qtds : List Qtd) (lastPid : BitVec 8) (offset : Nat)
    (page : Nat → BitVec 20) :
    (AllAligned qtds ∧ ∃ qtds', fitQtds qtds ((makeBufferList lastPid offset qtds).zip
        (shadowBuffers page (makeBufferList lastPid offset qtds))) = some qtds' ∧
      List.Forall₂ (Fitted ((makeBufferList lastPid offset qtds).zip
        (shadowBuffers page (makeBufferList lastPid offset qtds)))) qtds qtds') ∨
    (¬AllAligned qtds ∧ fitQtds qtds ((makeBufferList lastPid offset qtds).zip
        (shadowBuffers page (makeBufferList lastPid offset qtds))) = none) := by
  induction qtds generalizing lastPid offset page with
  | nil => exact .inl ⟨nofun, [], rfl, .nil⟩
  | cons qtd qtds ih =>
    by_cases hq : isActiveQtd qtd = true ∧ ehciQtdLen qtd ≠ 0
    · obtain ⟨pid, offset', hmake⟩ : ∃ pid offset', makeBufferList lastPid offset (qtd :: qtds) =
          (qtdBuffers qtd pid offset').1 ++ makeBufferList pid (qtdBuffers qtd pid offset').2 qtds :=
        makeBufferList_data hq
      rw [hmake, shadowBuffers_append, List.zip_append length_shadowBuffers.symm, fitQtds_data hq,
        fitPointers_qtdBuffers hq.2 length_shadowBuffers]
      by_cases hal : Aligned qtd
      · rw [if_pos hal]
        simp only [Option.bind_some]
        rcases ih pid (qtdBuffers qtd pid offset').2
          (fun i => page (i + (qtdBuffers qtd pid offset').1.length)) with
          ⟨hall, qtds', hfit, hrel⟩ | ⟨hnot, hfit⟩
        · refine .inl ⟨List.forall_mem_cons.mpr ⟨fun _ => hal, hall⟩, _, by rw [hfit]; rfl, .cons ?_ ?_⟩
          · rw [Fitted, if_pos hq]
            exact ⟨pid, offset', page, rfl, fun x hx => List.mem_append_left _ hx⟩
          · exact hrel.imp fun _ _ h => h.mono fun x hx => List.mem_append_right _ hx
        · refine .inr ⟨fun hall => hnot (List.forall_mem_cons.mp hall).2, by rw [hfit]; rfl⟩
      · exact .inr ⟨fun hall => hal (hall qtd List.mem_cons_self hq), by rw [if_neg hal]; rfl⟩
    · rw [makeBufferList, if_neg hq, fitQtds, if_neg hq]
      rcases ih lastPid offset page with ⟨hall, qtds', hfit, hrel⟩ | ⟨hnot, hfit⟩
      · refine .inl ⟨List.forall_mem_cons.mpr ⟨fun h => absurd h hq, hall⟩, _, by rw [hfit]; rfl,
          .cons ?_ hrel⟩
        rw [Fitted, if_neg hq]
      · exact .inr ⟨fun hall => hnot (List.forall_mem_cons.mp hall).2, by rw [hfit]; rfl⟩

/-- A queue without entries has no qTD with data. -/
theorem fitQtds_nil (h : makeBufferList lastPid offset qtds = []) : fitQtds qtds [] = some qtds := by
  induction qtds generalizing lastPid offset with
  | nil => rfl
  | cons qtd qtds ih =>
    by_cases hq : isActiveQtd qtd = true ∧ ehciQtdLen qtd ≠ 0
    · rw [makeBufferList, if_pos hq] at h
      simp [qtdBuffers] at h
    · rw [makeBufferList, if_neg hq] at h
      rw [fitQtds, if_neg hq, ih h]
      rfl

/-- Whether there are entries or not, the result is that of the second pass. -/
theorem shadowed_eq (qtds : List Qtd) (page : Nat → BitVec 20) :
    shadowed qtds page = (fitQtds qtds ((makeBufferList 0xff 0 qtds).zip
      (shadowBuffers page (makeBufferList 0xff 0 qtds)))).map fun qtds' =>
        (shadowBuffers page (makeBufferList 0xff 0 qtds), qtds') := by
  by_cases hnil : makeBufferList 0xff 0 qtds = []
  · rw [shadowed, hnil, if_neg (by simp), List.zip_nil_left, fitQtds_nil hnil]
    rfl
  · rw [shadowed, if_pos hnil, ehciShadowBuffer, if_neg hnil]

/-- The pages that the controller reaches are those of the entries exactly if it begins at the first
pointer, or reaches the last. -/
theorem contained_fitted {global : Nat → BitVec 20} (hq : isActiveQtd qtd = true ∧ ehciQtdLen qtd ≠ 0)
    (hfrom : FromFirst qtd) (hglobal : ∀ gub hub, (gub, hub) ∈ ubs → ∃ k, hub = shadowBuffer (global k) gub)
    (hmem : ∀ x ∈ (qtdBuffers qtd pid offset).1.zip (shadowBuffers page (qtdBuffers qtd pid offset).1),
      x ∈ ubs) : Contained ubs global qtd (fitted qtd pid offset page) := by
  intro i hi
  rw [accesses_fitted hq.2] at hi
  obtain ⟨-, -, hge, hlt⟩ := hi
  have hin : i.val < pages qtd := by
    have := i.isLt
    rcases hfrom with h | h | h <;> omega
  obtain ⟨gub, hgub, hbuf⟩ : ∃ gub, (qtdBuffers qtd pid offset).1[i.val]? = some gub ∧
      ((fitted qtd pid offset page).buffer i).toNat = (shadowBuffer (page i) gub).padr :=
    fitted_of_lt hq.2 hin
  have hpair : (gub, shadowBuffer (page i) gub) ∈ ubs := by
    apply hmem
    rw [List.mem_iff_getElem?]
    refine ⟨i, ?_⟩
    rw [List.getElem?_zip_eq_some, getElem?_shadowBuffers, hgub]
    exact ⟨rfl, rfl⟩
  obtain ⟨k, hk⟩ := hglobal _ _ hpair
  refine ⟨gub, _, k, hpair, (qtdBuffers_padr hgub).1, ?_, by rw [hbuf]⟩
  rw [hk, (shadowBuffer_page _ _).1]

/-! ### The result -/

theorem allAligned_of_shadowed {r : List UsbBuffer × List Qtd} (h : shadowed qtds page = some r) :
    AllAligned qtds ∧ r.1 = shadowBuffers page (makeBufferList 0xff 0 qtds) ∧
      List.Forall₂ (Fitted ((makeBufferList 0xff 0 qtds).zip r.1)) qtds r.2 := by
  rw [shadowed_eq] at h
  rcases fitQtds_makeBufferList qtds 0xff 0 page with ⟨hal, qtds', hfit, hrel⟩ | ⟨-, hfit⟩
  · rw [hfit] at h
    cases h
    exact ⟨hal, rfl, hrel⟩
  · rw [hfit] at h
    cases h

/-- A controller that begins behind the first pointer reaches a pointer that is the guest's. -/
theorem fromFirst_of_contains (h : Contains qtds) (hmem : qtd ∈ qtds)
    (hq : isActiveQtd qtd = true ∧ ehciQtdLen qtd ≠ 0) : FromFirst qtd := by
  by_contra hnot
  simp only [FromFirst, not_or] at hnot
  have hpos := pages_pos hq.2
  -- the last pointer that the controller reaches has no entry
  let i : Fin 5 := ⟨min (cPage qtd + pages qtd - 1) 4, by omega⟩
  let frame : BitVec 20 := (qtd.buffer i).extractLsb' 12 20
  obtain ⟨hubs, qtds', hrun, hcont⟩ := h fun _ => frame + 1
  obtain ⟨-, hhubs, hfit⟩ := allAligned_of_shadowed hrun
  obtain ⟨hlen, hcont⟩ := List.forall₂_iff_zip.mp hcont
  obtain ⟨k, hk⟩ := List.mem_iff_getElem?.mp hmem
  have hlt : k < qtds'.length := hlen ▸ (List.getElem?_eq_some_iff.mp hk).1
  have hzip : (qtd, qtds'[k]) ∈ qtds.zip qtds' :=
    List.mem_iff_getElem?.mpr ⟨k, List.getElem?_zip_eq_some.mpr ⟨hk, List.getElem?_eq_getElem hlt⟩⟩
  have hfitted := (List.forall₂_iff_zip.mp hfit).2 hzip
  rw [Fitted, if_pos hq] at hfitted
  obtain ⟨pid, offset, page, heq, -⟩ := hfitted
  have hcontained := hcont hzip
  rw [heq] at hcontained
  obtain ⟨gub, hub, k, -, -, hpage, hbuf⟩ := hcontained i
    ((accesses_fitted hq.2 i).mpr ⟨hq.1, hq.2, by simp only [i]; omega, by simp only [i]; omega⟩)
  rw [fitted_of_le hq.2 (by simp only [i]; omega), hpage] at hbuf
  have hframe : frame.toNat = (qtd.buffer i).toNat / 4096 := by
    have := (qtd.buffer i).isLt
    simp only [frame, BitVec.extractLsb'_toNat, Nat.shiftRight_eq_div_pow]
    omega
  rw [← hframe] at hbuf
  clear_value frame
  bv_omega

/-- The buffers of a qTD list are shadowed, with no assertion failing, exactly if in every active qTD
with data the pointers that are used have no page offset and the controller begins at the first or
reaches the last. -/
theorem contains_qtds_iff (qtds : List Qtd) : Contains qtds ↔ Shadowable qtds := by
  constructor
  · intro h qtd hmem hactive hlen
    obtain ⟨hubs, qtds', hrun, -⟩ := h fun _ => 0
    exact ⟨(allAligned_of_shadowed hrun).1 qtd hmem ⟨hactive, hlen⟩,
      fromFirst_of_contains h hmem ⟨hactive, hlen⟩⟩
  · intro h page
    rcases fitQtds_makeBufferList qtds 0xff 0 page with ⟨-, qtds', hfit, hrel⟩ | ⟨hnot, -⟩
    · refine ⟨_, qtds', by rw [shadowed_eq, hfit]; rfl, ?_⟩
      rw [List.forall₂_iff_zip] at hrel ⊢
      refine ⟨hrel.1, fun {qtd qtd'} hzip => ?_⟩
      have hfitted := hrel.2 hzip
      by_cases hq : isActiveQtd qtd = true ∧ ehciQtdLen qtd ≠ 0
      · rw [Fitted, if_pos hq] at hfitted
        obtain ⟨pid, offset, page', rfl, hmem⟩ := hfitted
        exact contained_fitted hq (h qtd (List.of_mem_zip hzip).1 hq.1 hq.2).2
          (fun _ _ => mem_zip_shadowBuffers) hmem
      · rw [Fitted, if_neg hq] at hfitted
        rw [hfitted]
        exact fun i hi => absurd ⟨hi.1, hi.2.1⟩ hq
    · exact absurd (fun qtd hmem hq => (h qtd hmem hq.1 hq.2).1) hnot

/-- An active qTD of one byte at the second of its pages: the controller goes to the guest's page. -/
theorem not_contains_secondPage : ¬∀ qtds, Contains qtds := by
  intro h
  have hfrom : FromFirst ⟨0x00011080, fun _ => 0x1000⟩ :=
    fromFirst_of_contains (h [_]) List.mem_cons_self (by decide)
  revert hfrom
  unfold FromFirst
  decide

end OnDemandVirt.Ehci
