import OnDemandVirt.Vmm.Pmap
import Mathlib.Data.List.Perm.Basic
import OnDemandVirt.Lib.LowBits
import OnDemandVirt.Lib.Machine

/-!
# Temporary mappings

`mapmem` of `mm.c` gives an address in the part of memory that is always mapped, or takes pages of a
window and maps them. The search for pages goes on where the last one ended, and begins again at the
start of the window once.
-/

namespace OnDemandVirt.Vmm

open Lib

/-- `MAPMEM_ADDR_START`. -/
def mapmemAddrStart : Nat := 0xF0000000

/-- `MAPMEM_ADDR_END`. -/
def mapmemAddrEnd : Nat := 0xFF000000

def mapmemHphysFlag : BitVec 32 := 0x1
def mapmemGphysFlag : BitVec 32 := 0x2
def mapmemWriteFlag : BitVec 32 := 0x4
def mapmemPwtFlag : BitVec 32 := 0x8
def mapmemPcdFlag : BitVec 32 := 0x10
def mapmemPatFlag : BitVec 32 := 0x80

/-- The entry that `pmap_write` makes of `e` in the last level of tables. -/
def leafEntry (e : BitVec 64) (attrmask : BitVec 32) : BitVec 64 :=
  (e &&& (~~~0xFFF#64 ||| attrmask.setWidth 64)) |||
    ((0x2#32 ||| 0x4 ||| 0x20 ||| 0x40) &&& ~~~attrmask).setWidth 64

theorem leafEntry_eq_writeEntry {m : Pmap} (hlevel : m.curlevel = 0) (e : BitVec 64)
    (attrmask : BitVec 32) : leafEntry e attrmask = writeEntry m e attrmask := by
  unfold leafEntry writeEntry attrdef
  rw [hlevel, if_neg (by omega), if_pos rfl]
  rfl

/-- The entries of pages, by the numbers of the pages, and `mapmem_lastvirt`. -/
structure Mapmem where
  pte : Nat → BitVec 64
  lastvirt : Nat

/-- `n` of `mapmem_alloc`, `mapmem_domap` and `unmapmem`. -/
def mapmemPages (offset len : BitVec 32) : Nat := ((offset + len + 0xFFF) >>> 12).toNat

/-- How the loop of `mapmem_alloc` that looks at pages ends. -/
inductive MapmemScan
  | found
  | used (i : Nat)
  | atEnd

/-- The loop of `mapmem_alloc` that looks at the pages from `v` on, from page `i` on. -/
def mapmemScan (pte : Nat → BitVec 64) (v : Nat) : (left i : Nat) → MapmemScan
  | 0, _ => .found
  | left + 1, i =>
    if mapmemAddrEnd ≤ v + i * 4096 then .atEnd
    else if pte ((v + i * 4096) / 4096) &&& 0x1 ≠ 0 then .used i
    else mapmemScan pte v left (i + 1)

theorem lt_of_mapmemScan {pte : Nat → BitVec 64} {v left i j : Nat}
    (h : mapmemScan pte v left i = .used j) : v + j * 4096 < mapmemAddrEnd := by
  induction left generalizing i with
  | zero => cases h
  | succ left ih =>
    rw [mapmemScan] at h
    split_ifs at h with hend hused
    · cases h
      exact Nat.lt_of_not_le hend
    · exact ih h

/-- The search of `mapmem_alloc` from `retry` on, `none` if the assertion on `loopcount` fails. -/
def mapmemSearch (pte : Nat → BitVec 64) (n v : Nat) (loopcount : Nat) : Option Nat :=
  match hscan : mapmemScan pte v n 0 with
  | .found => some v
  | .used i => mapmemSearch pte n (v + i * 4096 + 4096) loopcount
  | .atEnd => if loopcount = 0 then mapmemSearch pte n mapmemAddrStart 1 else none
termination_by (1 - loopcount, mapmemAddrEnd - v)
decreasing_by
  · have hlt := lt_of_mapmemScan hscan
    exact Prod.Lex.right _ (by omega)
  · exact Prod.Lex.left _ _ (by omega)

/-- A loop that changes the entries of `n` pages. -/
def changePages (f : Nat → BitVec 64 → BitVec 64) (page n : Nat) (pte : Nat → BitVec 64) :
    Nat → BitVec 64 :=
  (List.range n).foldl (fun pte i => Function.update pte (page + i) (f i (pte (page + i)))) pte

/-- `mapmem_alloc`. -/
def mapmemAlloc (s : Mapmem) (offset len : BitVec 32) : Option (Nat × Mapmem) :=
  let n := mapmemPages offset len
  (mapmemSearch s.pte n s.lastvirt 0).map fun v =>
    (v + offset.toNat,
      { pte := changePages (fun _ _ => leafEntry 0x1 0xFFF) (v / 4096) n s.pte
        lastvirt := v + n * 4096 })

/-- The bits of an entry that come from the flags. -/
def mapmemAttr (flags : BitVec 32) : BitVec 64 :=
  0x1 ||| (if flags &&& mapmemWriteFlag ≠ 0 then 0x2 else 0) |||
    (if flags &&& mapmemPwtFlag ≠ 0 then 0x8 else 0) |||
    (if flags &&& mapmemPcdFlag ≠ 0 then 0x10 else 0) |||
    (if flags &&& mapmemPatFlag ≠ 0 then 0x80 else 0)

/-- `gmm.gp2hp`: the host address, and whether the page is a fake ROM page. -/
abbrev Gp2hp := BitVec 64 → BitVec 64 × Bool

/-- The entry for a page in `mapmem_domap`, `none` where that gives up. -/
def domapEntry (gp2hp : Gp2hp) (flags : BitVec 32) (p : BitVec 64) : Option (BitVec 64) :=
  if flags &&& mapmemHphysFlag ≠ 0 then some (p ||| mapmemAttr flags)
  else if flags &&& mapmemGphysFlag ≠ 0 then
    let (pte, fakerom) := gp2hp p
    if fakerom ∧ flags &&& mapmemWriteFlag ≠ 0 then none
    else some ((pte &&& ~~~0xFFF) ||| mapmemAttr flags)
  else none

/-- The bits of entries that `mapmem_domap` sets or clears. -/
def domapMask : BitVec 32 := 0x1 ||| 0x2 ||| 0x4 ||| 0x8 ||| 0x10 ||| 0x80

/-- The loop of `mapmem_domap` from page `i` on: whether it gave up, and the entries; `none` where
its assertion fails. -/
def domapLoop (gp2hp : Gp2hp) (flags : BitVec 32) (p : BitVec 64) (page : Nat) :
    (left i : Nat) → (Nat → BitVec 64) → Option (Bool × (Nat → BitVec 64))
  | 0, _, pte => some (false, pte)
  | left + 1, i, pte =>
    match domapEntry gp2hp flags (p + BitVec.ofNat 64 (i * 4096)) with
    | none => some (true, pte)
    | some e =>
      if pte (page + i) &&& 0x1 = 0 then none
      else domapLoop gp2hp flags p page left (i + 1)
        (Function.update pte (page + i)
          (leafEntry e domapMask))

/-- `physaddr & PAGESIZE_MASK`. -/
def pageOffset (physaddr : BitVec 64) : BitVec 32 := (physaddr &&& 0xFFF).setWidth 32

/-- `mapmem_domap`. -/
def mapmemDomap (gp2hp : Gp2hp) (s : Mapmem) (virt : Nat) (flags : BitVec 32)
    (physaddr : BitVec 64) (len : BitVec 32) : Option (Bool × Mapmem) :=
  (domapLoop gp2hp flags (physaddr &&& ~~~0xFFF) (virt / 4096)
    (mapmemPages (pageOffset physaddr) len) 0 s.pte).map fun (fail, pte) =>
      (fail, { s with pte := pte })

/-- `unmapmem`. -/
def unmapmem (s : Mapmem) (virt : Nat) (len : BitVec 32) : Mapmem :=
  if virt < mapmemAddrStart ∨ mapmemAddrEnd ≤ virt then s
  else { s with
    pte := changePages (fun _ pte => if pte &&& 0x1 ≠ 0 then leafEntry 0 0 else pte) (virt / 4096)
      (mapmemPages (BitVec.ofNat 32 (virt % 4096)) len) s.pte }

/-- `hphys_len`, with and without pages of 1 GiB. -/
def hphysLen (page1gb : Bool) : BitVec 64 := if page1gb then 512 <<< 30 else 8 <<< 30

/-- `hphys_addr`: where the memory is always mapped with these flags. -/
def hphysAddr (page1gb : Bool) (flags : BitVec 32) : BitVec 64 :=
  let addr := 1 <<< 39
  let addr := if flags &&& mapmemPatFlag ≠ 0 then addr + hphysLen page1gb * 4 else addr
  let addr := if flags &&& mapmemPcdFlag ≠ 0 then addr + hphysLen page1gb * 2 else addr
  if flags &&& mapmemPwtFlag ≠ 0 then addr + hphysLen page1gb else addr

/-- `mapped_hphys_addr`, with 0 for `NULL`. -/
def mappedHphysAddr (page1gb : Bool) (hphys : BitVec 64) (len flags : BitVec 32) : BitVec 64 :=
  if hphysLen page1gb ≤ hphys then 0
  else if hphysLen page1gb ≤ hphys + len.setWidth 64 - 1 then 0
  else hphysAddr page1gb flags + hphys

/-- The loop of `mapped_gphys_addr` over the pages after the first: whether they follow it. -/
def gphysFollows (gp2hp : Gp2hp) (write : Bool) : (left : Nat) → (p1 hphys1 : BitVec 64) → Bool
  | 0, _, _ => true
  | left + 1, p1, hphys1 =>
    let (hphys, fakerom) := gp2hp (p1 + 0x1000)
    hphys1 + 0x1000 = hphys && !(fakerom && write) &&
      gphysFollows gp2hp write left (p1 + 0x1000) (hphys1 + 0x1000)

/-- `mapped_gphys_addr`, with 0 for `NULL`. -/
def mappedGphysAddr (page1gb : Bool) (gp2hp : Gp2hp) (gphys : BitVec 64) (len flags : BitVec 32) :
    BitVec 64 :=
  let write := flags &&& mapmemWriteFlag ≠ 0
  let (hphys, fakerom) := gp2hp gphys
  if fakerom ∧ write then 0
  else
    let p1 := gphys &&& ~~~0xFFF
    let p2 := (gphys + len.setWidth 64 - 1) &&& ~~~0xFFF
    if gphysFollows gp2hp write ((p2 - p1) >>> 12).toNat p1 (hphys &&& ~~~0xFFF) then
      mappedHphysAddr page1gb hphys len flags
    else 0

/-- `mapmem` from `skip` on. -/
def mapmemSkip (gp2hp : Gp2hp) (s : Mapmem) (flags : BitVec 32) (physaddr : BitVec 64)
    (len : BitVec 32) : Option (Nat × Mapmem) :=
  (mapmemAlloc s (pageOffset physaddr) len).bind fun (r, s) =>
    if r = 0 then some (0, s)
    else (mapmemDomap gp2hp s r flags physaddr len).map fun (fail, s) =>
      if fail then (0, unmapmem s r len) else (r, s)

/-- `mapmem`, with 0 for `NULL`; `none` where an assertion fails. -/
def mapmem (page1gb : Bool) (gp2hp : Gp2hp) (s : Mapmem) (flags : BitVec 32) (physaddr : BitVec 64)
    (len : BitVec 32) : Option (Nat × Mapmem) :=
  if flags &&& mapmemHphysFlag ≠ 0 then
    let r := mappedHphysAddr page1gb physaddr len flags
    if r = 0 then mapmemSkip gp2hp s flags physaddr len else some (r.toNat, s)
  else if flags &&& mapmemGphysFlag ≠ 0 then
    let r := mappedGphysAddr page1gb gp2hp physaddr len flags
    if r = 0 then mapmemSkip gp2hp s flags physaddr len else some (r.toNat, s)
  else some (0, s)

/-! ### Entries -/

theorem changePages_apply (f : Nat → BitVec 64 → BitVec 64) (page n : Nat) (pte : Nat → BitVec 64)
    (x : Nat) : changePages f page n pte x =
      if page ≤ x ∧ x < page + n then f (x - page) (pte x) else pte x := by
  induction n with
  | zero => rw [if_neg (by omega)]; rfl
  | succ n ih =>
    unfold changePages at ih ⊢
    rw [List.range_succ, List.foldl_append, List.foldl_cons, List.foldl_nil, Function.update_apply]
    by_cases hx : x = page + n
    · subst hx
      rw [if_pos rfl, if_pos (by omega), ih, if_neg (by omega), Nat.add_sub_cancel_left]
    · rw [if_neg hx, ih]
      by_cases hlt : page ≤ x ∧ x < page + n
      · rw [if_pos hlt, if_pos (by omega)]
      · rw [if_neg hlt, if_neg (by omega)]

/-- A page is mapped. -/
def Present (pte : BitVec 64) : Prop := pte &&& 0x1 ≠ 0

/-- The address of a page. -/
def PageAddr (t : BitVec 64) : Prop := t &&& ~~~0xFFF = t

theorem pageAddr_of_mod {t : BitVec 64} (h : t.toNat % 4096 = 0) : PageAddr t := by
  have hclear := LowBits.toNat_clear (show 12 ≤ 64 by decide) t
  refine BitVec.eq_of_toNat_eq (hclear.trans ?_)
  rw [show 2 ^ 12 = 4096 from rfl, h]
  rfl

theorem mod_of_clear (x : BitVec 64) : (x &&& ~~~0xFFF).toNat % 4096 = 0 := by
  have hclear : (x &&& ~~~0xFFF).toNat = x.toNat - x.toNat % 4096 :=
    LowBits.toNat_clear (show 12 ≤ 64 by decide) x
  omega

theorem pageAddr_clear (x : BitVec 64) : PageAddr (x &&& ~~~0xFFF) :=
  pageAddr_of_mod (mod_of_clear x)

theorem pageAddr_add (x : BitVec 64) (i : Nat) :
    PageAddr ((x &&& ~~~0xFFF) + BitVec.ofNat 64 (i * 4096)) := by
  have hmod := mod_of_clear x
  refine pageAddr_of_mod ?_
  rw [BitVec.toNat_add, BitVec.toNat_ofNat]
  omega

theorem and_or_distrib (x y z : BitVec 64) : (x ||| y) &&& z = (x &&& z) ||| (y &&& z) := by
  ext i hi
  simp [Bool.and_or_distrib_right]

theorem mapmemAttr_and (flags : BitVec 32) :
    mapmemAttr flags &&& 0x9F = mapmemAttr flags ∧ mapmemAttr flags &&& 0x1 = 0x1 := by
  unfold mapmemAttr
  split_ifs <;> decide

/-- What `mapmem_domap` writes. -/
def mappedEntry (t : BitVec 64) (flags : BitVec 32) : BitVec 64 := t ||| mapmemAttr flags ||| 0x60

theorem leafEntry_mapped {t : BitVec 64} (ht : PageAddr t) (flags : BitVec 32) :
    leafEntry (t ||| mapmemAttr flags) domapMask = mappedEntry t flags := by
  have hmask : ~~~0xFFF#64 ||| domapMask.setWidth 64 = ~~~0xFFF ||| 0x9F := by decide
  have haddr : t &&& (~~~0xFFF ||| 0x9F) = t := by
    rw [← ht, BitVec.and_assoc]
    rfl
  have hattr : mapmemAttr flags &&& (~~~0xFFF ||| 0x9F) = mapmemAttr flags := by
    rw [← (mapmemAttr_and flags).1, BitVec.and_assoc]
    rfl
  unfold leafEntry mappedEntry
  rw [hmask, and_or_distrib, haddr, hattr]
  rfl

theorem mappedEntry_and {t : BitVec 64} (ht : PageAddr t) (flags : BitVec 32) :
    mappedEntry t flags &&& ~~~0xFFF = t ∧
      mappedEntry t flags &&& 0xFFF = mapmemAttr flags ||| 0x60 ∧
        Present (mappedEntry t flags) := by
  obtain ⟨hattr, hone⟩ := mapmemAttr_and flags
  have hlow : t &&& 0xFFF = 0#64 := by
    rw [← ht, BitVec.and_assoc]
    exact BitVec.and_zero
  have hpresent : t &&& 0x1 = 0 := by
    rw [← ht, BitVec.and_assoc]
    exact BitVec.and_zero
  have hhigh : mapmemAttr flags &&& ~~~0xFFF = 0#64 := by
    rw [← hattr, BitVec.and_assoc]
    exact BitVec.and_zero
  have hall : mapmemAttr flags &&& 0xFFF = mapmemAttr flags := by
    rw [← hattr, BitVec.and_assoc]
    rfl
  unfold Present mappedEntry
  refine ⟨?_, ?_, ?_⟩
  · rw [and_or_distrib, and_or_distrib, show t &&& ~~~0xFFF = t from ht, hhigh, BitVec.or_zero]
    exact BitVec.or_zero
  · rw [and_or_distrib, and_or_distrib, hlow, hall, BitVec.zero_or]
    rfl
  · rw [and_or_distrib, and_or_distrib, hpresent, hone]
    decide

/-! ### The search -/

/-- Pages of the window that are all free. -/
structure FreeRun (pte : Nat → BitVec 64) (n v : Nat) : Prop where
  dvd : 4096 ∣ v
  start_le : mapmemAddrStart ≤ v
  le_end : v + n * 4096 ≤ mapmemAddrEnd
  free : ∀ i < n, ¬ Present (pte (v / 4096 + i))

section

variable {pte pte' : Nat → BitVec 64} {v w n left i j loopcount : Nat}

theorem div_add (hv : 4096 ∣ v) (i : Nat) : (v + i * 4096) / 4096 = v / 4096 + i := by
  rw [Nat.add_mul_div_right _ _ (by decide)]

theorem mapmemScan_spec (pte : Nat → BitVec 64) (hv : 4096 ∣ v) (left i : Nat) :
    match mapmemScan pte v left i with
    | .found => ∀ j, i ≤ j → j < i + left →
        v + j * 4096 < mapmemAddrEnd ∧ ¬ Present (pte (v / 4096 + j))
    | .used j => j < i + left ∧ v + j * 4096 < mapmemAddrEnd ∧ Present (pte (v / 4096 + j))
    | .atEnd => ∃ j < i + left, mapmemAddrEnd ≤ v + j * 4096 := by
  induction left generalizing i with
  | zero =>
    intro j hij hj
    omega
  | succ left ih =>
    rw [mapmemScan, div_add hv]
    by_cases hend : mapmemAddrEnd ≤ v + i * 4096
    · rw [if_pos hend]
      exact ⟨i, by omega, hend⟩
    · rw [if_neg hend]
      by_cases hused : pte (v / 4096 + i) &&& 0x1 ≠ 0
      · rw [if_pos hused]
        exact ⟨by omega, Nat.lt_of_not_le hend, hused⟩
      · rw [if_neg hused]
        have hrest := ih (i + 1)
        cases hscan : mapmemScan pte v left (i + 1) with
        | found =>
          rw [hscan] at hrest
          intro j hij hj
          rcases Nat.eq_or_lt_of_le hij with rfl | hlt
          · exact ⟨Nat.lt_of_not_le hend, hused⟩
          · exact hrest j hlt (by omega)
        | used j =>
          rw [hscan] at hrest
          exact ⟨by omega, hrest.2⟩
        | atEnd =>
          rw [hscan] at hrest
          obtain ⟨j, hj, hle⟩ := hrest
          exact ⟨j, by omega, hle⟩

/-- The search ends. It finds pages of the window that are free, unless there are not so many in a
row. -/
theorem mapmemSearch_spec (pte : Nat → BitVec 64) (n loopcount : Nat) (hv : 4096 ∣ v)
    (hstart : mapmemAddrStart ≤ v) (hend : v ≤ mapmemAddrEnd)
    (htried : loopcount ≠ 0 → ∀ w < v, ¬ FreeRun pte n w) :
    (∃ w, mapmemSearch pte n v loopcount = some w ∧ FreeRun pte n w) ∨
      mapmemSearch pte n v loopcount = none ∧ ∀ w, ¬ FreeRun pte n w := by
  have hdvd : 4096 ∣ mapmemAddrEnd := by decide
  fun_induction mapmemSearch pte n v loopcount with
  | case1 v loopcount hscan =>
    have hspec := mapmemScan_spec pte hv n 0
    rw [hscan] at hspec
    refine .inl ⟨v, rfl, hv, hstart, ?_, fun i hi => (hspec i (Nat.zero_le _) (by omega)).2⟩
    cases n with
    | zero => omega
    | succ n =>
      have := (hspec n (Nat.zero_le _) (by omega)).1
      omega
  | case2 v loopcount i hscan ih =>
    have hspec := mapmemScan_spec pte hv n 0
    rw [hscan] at hspec
    obtain ⟨hi, hlt, hused⟩ := hspec
    refine ih (by omega) (by omega) (by omega) fun hcount w hw hrun => ?_
    by_cases hwv : w < v
    · exact htried hcount w hwv hrun
    · -- the page in use is one of them
      have hdvdw := hrun.dvd
      refine hrun.free ((v + i * 4096 - w) / 4096) (by omega) ?_
      rw [show w / 4096 + (v + i * 4096 - w) / 4096 = v / 4096 + i by omega]
      exact hused
  | case3 v hscan ih =>
    exact ih (by decide) (Nat.le_refl _) (by decide)
      fun _ w hw hrun => absurd hrun.start_le (Nat.not_le.mpr hw)
  | case4 v loopcount hscan hone =>
    have hspec := mapmemScan_spec pte hv n 0
    rw [hscan] at hspec
    obtain ⟨j, hj, hle⟩ := hspec
    refine .inr ⟨rfl, fun w hrun => ?_⟩
    by_cases hwv : w < v
    · exact htried hone w hwv hrun
    · have hdvdw := hrun.dvd
      have := hrun.le_end
      omega

/-! ### Mapping pages -/

/-- The host page for page `i` of a request. -/
def targetPage (gp2hp : Gp2hp) (flags : BitVec 32) (physaddr : BitVec 64) (i : Nat) : BitVec 64 :=
  let p := (physaddr &&& ~~~0xFFF) + BitVec.ofNat 64 (i * 4096)
  if flags &&& mapmemHphysFlag ≠ 0 then p else (gp2hp p).1 &&& ~~~0xFFF

theorem pageAddr_targetPage (gp2hp : Gp2hp) (flags : BitVec 32) (physaddr : BitVec 64) (i : Nat) :
    PageAddr (targetPage gp2hp flags physaddr i) := by
  unfold targetPage
  dsimp only
  split_ifs
  · exact pageAddr_add physaddr i
  · exact pageAddr_clear _

theorem domapEntry_eq_some {gp2hp : Gp2hp} {flags : BitVec 32} {physaddr e : BitVec 64} {i : Nat}
    (h : domapEntry gp2hp flags ((physaddr &&& ~~~0xFFF) + BitVec.ofNat 64 (i * 4096)) = some e) :
    leafEntry e domapMask = mappedEntry (targetPage gp2hp flags physaddr i) flags := by
  have hpage := pageAddr_targetPage gp2hp flags physaddr i
  rw [← leafEntry_mapped hpage]
  unfold domapEntry at h
  unfold targetPage
  dsimp only
  by_cases hhphys : flags &&& mapmemHphysFlag ≠ 0
  · rw [if_pos hhphys] at h ⊢
    cases h
    rfl
  · rw [if_neg hhphys] at h ⊢
    by_cases hgphys : flags &&& mapmemGphysFlag ≠ 0
    · rw [if_pos hgphys] at h
      dsimp only at h
      split_ifs at h
      cases h
      rfl
    · rw [if_neg hgphys] at h
      cases h

/-- The pages of a request are mapped in turn, until there is one that is not. -/
theorem domapLoop_spec (gp2hp : Gp2hp) (flags : BitVec 32) (physaddr : BitVec 64) {page : Nat}
    (left i : Nat) (pte : Nat → BitVec 64)
    (hpresent : ∀ j, i ≤ j → j < i + left → Present (pte (page + j))) :
    ∃ fail pte', domapLoop gp2hp flags (physaddr &&& ~~~0xFFF) page left i pte = some (fail, pte') ∧
      (∀ x, ¬ (page + i ≤ x ∧ x < page + (i + left)) → pte' x = pte x) ∧
      (∀ j, i ≤ j → j < i + left → Present (pte' (page + j))) ∧
      (fail = false → ∀ j, i ≤ j → j < i + left →
        pte' (page + j) = mappedEntry (targetPage gp2hp flags physaddr j) flags) := by
  induction left generalizing i pte with
  | zero =>
    exact ⟨false, pte, rfl, fun _ _ => rfl, fun j hij hj => by omega, fun _ j hij hj => by omega⟩
  | succ left ih =>
    rw [domapLoop]
    cases hentry : domapEntry gp2hp flags
      ((physaddr &&& ~~~0xFFF) + BitVec.ofNat 64 (i * 4096)) with
    | none => exact ⟨true, pte, rfl, fun _ _ => rfl, hpresent, nofun⟩
    | some e =>
      have hleaf := domapEntry_eq_some hentry
      have hmapped := (mappedEntry_and (pageAddr_targetPage gp2hp flags physaddr i) flags).2.2
      dsimp only
      rw [if_neg (hpresent i (Nat.le_refl _) (by omega)), hleaf]
      obtain ⟨fail, pte', hloop, hframe, hpresent', hall⟩ := ih (i + 1)
        (Function.update pte (page + i) (mappedEntry (targetPage gp2hp flags physaddr i) flags))
        fun j hij hj => by
          rw [Function.update_of_ne (by omega)]
          exact hpresent j (by omega) (by omega)
      have hfirst : pte' (page + i) = mappedEntry (targetPage gp2hp flags physaddr i) flags := by
        rw [hframe _ (by omega), Function.update_self]
      refine ⟨fail, pte', hloop, fun x hx => ?_, fun j hij hj => ?_, fun hfail j hij hj => ?_⟩
      · rw [hframe x (by omega), Function.update_of_ne (by omega)]
      · rcases Nat.eq_or_lt_of_le hij with rfl | hlt
        · rw [hfirst]
          exact hmapped
        · exact hpresent' j hlt (by omega)
      · rcases Nat.eq_or_lt_of_le hij with rfl | hlt
        · exact hfirst
        · exact hall hfail j hlt (by omega)

theorem toNat_pageOffset (physaddr : BitVec 64) : (pageOffset physaddr).toNat < 4096 := by
  unfold pageOffset
  rw [BitVec.toNat_setWidth, BitVec.toNat_and]
  have hle := Nat.and_le_right (n := physaddr.toNat) (m := (0xFFF : BitVec 64).toNat)
  have hmask : (0xFFF : BitVec 64).toNat = 4095 := rfl
  omega

/-- `unmapmem` of an address in the window takes away the pages from the one of the address on. -/
theorem unmapmem_pte (s : Mapmem) {virt : Nat} {offset : BitVec 32} (len : BitVec 32)
    (hstart : mapmemAddrStart ≤ virt) (hoffset : virt % 4096 = offset.toNat)
    (hend : virt < mapmemAddrEnd ∨ mapmemPages offset len = 0) (x : Nat) :
    (unmapmem s virt len).pte x =
      if virt / 4096 ≤ x ∧ x < virt / 4096 + mapmemPages offset len then
        if s.pte x &&& 0x1 ≠ 0 then leafEntry 0 0 else s.pte x
      else s.pte x := by
  unfold unmapmem
  by_cases hout : virt < mapmemAddrStart ∨ mapmemAddrEnd ≤ virt
  · rw [if_pos hout, if_neg (by omega)]
  · rw [if_neg hout]
    dsimp only
    rw [changePages_apply, hoffset, BitVec.ofNat_toNat, BitVec.setWidth_eq]

theorem not_present_leafEntry_zero : ¬ Present (leafEntry 0 0) := by
  unfold Present
  decide

/-- `mapmem_lastvirt` is the address of a page of the window, or the end of it. -/
structure Mapmem.LastOk (s : Mapmem) : Prop where
  dvd : 4096 ∣ s.lastvirt
  start_le : mapmemAddrStart ≤ s.lastvirt
  le_end : s.lastvirt ≤ mapmemAddrEnd

theorem Mapmem.LastOk.unmap {s : Mapmem} (h : s.LastOk) (virt : Nat) (len : BitVec 32) :
    (unmapmem s virt len).LastOk := by
  unfold unmapmem
  split_ifs
  · exact h
  · exact ⟨h.dvd, h.start_le, h.le_end⟩

/-- What `mapmem` does in the window: it takes pages that are free, and maps them or gives them
back; or there are not so many free pages in a row. -/
theorem mapmemSkip_spec {s : Mapmem} (hlast : s.LastOk) (gp2hp : Gp2hp) (flags : BitVec 32)
    (physaddr : BitVec 64) (len : BitVec 32) :
    (∃ r s' w, mapmemSkip gp2hp s flags physaddr len = some (r, s') ∧ s'.LastOk ∧
      FreeRun s.pte (mapmemPages (pageOffset physaddr) len) w ∧
      (∀ x, ¬ (w / 4096 ≤ x ∧ x < w / 4096 + mapmemPages (pageOffset physaddr) len) →
        s'.pte x = s.pte x) ∧
      (r = 0 ∧ (∀ i < mapmemPages (pageOffset physaddr) len, ¬ Present (s'.pte (w / 4096 + i))) ∨
        r = w + (pageOffset physaddr).toNat ∧
          ∀ i < mapmemPages (pageOffset physaddr) len,
            s'.pte (w / 4096 + i) = mappedEntry (targetPage gp2hp flags physaddr i) flags)) ∨
    mapmemSkip gp2hp s flags physaddr len = none ∧
      ∀ w, ¬ FreeRun s.pte (mapmemPages (pageOffset physaddr) len) w := by
  have hoffset := toNat_pageOffset physaddr
  generalize hn : mapmemPages (pageOffset physaddr) len = n
  rcases mapmemSearch_spec s.pte n 0 hlast.dvd hlast.start_le hlast.le_end
    (fun h => absurd rfl h) with ⟨w, hsearch, hrun⟩ | ⟨hsearch, hno⟩
  · left
    have hdvd := hrun.dvd
    have hend := hrun.le_end
    have hstart := hrun.start_le
    have hpos : 0 < mapmemAddrStart := by decide
    have hpage : (w + (pageOffset physaddr).toNat) / 4096 = w / 4096 := by omega
    let pte := changePages (fun _ _ => leafEntry 0x1 0xFFF) (w / 4096) n s.pte
    have htaken : ∀ j, 0 ≤ j → j < 0 + n → Present (pte (w / 4096 + j)) := by
      intro j _ hj
      have hmarked : Present (leafEntry 0x1 0xFFF) := by
        unfold Present
        decide
      rw [show pte (w / 4096 + j) = _ from changePages_apply .., if_pos (by omega)]
      exact hmarked
    have hother : ∀ x, ¬ (w / 4096 ≤ x ∧ x < w / 4096 + n) → pte x = s.pte x := by
      intro x hx
      rw [show pte x = _ from changePages_apply .., if_neg hx]
    obtain ⟨fail, pte', hloop, hframe, hpresent, hall⟩ :=
      domapLoop_spec gp2hp flags physaddr n 0 pte htaken
    have hmapmem : mapmemSkip gp2hp s flags physaddr len = some (if fail then
        (0, unmapmem ⟨pte', w + n * 4096⟩ (w + (pageOffset physaddr).toNat) len)
        else (w + (pageOffset physaddr).toNat, ⟨pte', w + n * 4096⟩)) := by
      unfold mapmemSkip mapmemAlloc mapmemDomap
      dsimp only
      rw [hn, hsearch, Option.map_some, Option.bind_some]
      dsimp only
      rw [if_neg (by omega), hpage, hloop]
      rfl
    have hlast' : ∀ pte', (Mapmem.mk pte' (w + n * 4096)).LastOk :=
      fun _ => ⟨by dsimp only; omega, by dsimp only; omega, hend⟩
    rw [hmapmem]
    cases fail with
    | false =>
      refine ⟨_, _, w, rfl, hlast' _, hrun, fun x hx => ?_, .inr ⟨rfl, fun i hi => ?_⟩⟩
      · exact (hframe x (by omega)).trans (hother x hx)
      · exact hall rfl i (Nat.zero_le _) (by omega)
    | true =>
      have hunmap := unmapmem_pte ⟨pte', w + n * 4096⟩ len
        (show mapmemAddrStart ≤ w + (pageOffset physaddr).toNat by omega)
        (show (w + (pageOffset physaddr).toNat) % 4096 = (pageOffset physaddr).toNat by omega)
        (by omega)
      rw [hpage, hn] at hunmap
      refine ⟨_, _, w, rfl, (hlast' pte').unmap _ _, hrun, fun x hx => ?_,
        .inl ⟨rfl, fun i hi => ?_⟩⟩
      · rw [hunmap, if_neg hx]
        exact (hframe x (by omega)).trans (hother x hx)
      · have hthere : pte' (w / 4096 + i) &&& 0x1 ≠ 0 := hpresent i (Nat.zero_le _) (by omega)
        rw [hunmap, if_pos (by omega), if_pos hthere]
        exact not_present_leafEntry_zero
  · right
    refine ⟨?_, hno⟩
    unfold mapmemSkip mapmemAlloc
    dsimp only
    rw [hn, hsearch]
    rfl

end

/-! ### Addresses outside the window -/

theorem hphysAddr_bounds (page1gb : Bool) (flags : BitVec 32) :
    2 ^ 39 ≤ (hphysAddr page1gb flags).toNat ∧ (hphysAddr page1gb flags).toNat < 2 ^ 43 := by
  unfold hphysAddr
  dsimp only
  cases page1gb <;> split_ifs <;> decide

theorem le_mappedHphysAddr {page1gb : Bool} {hphys : BitVec 64} {len flags : BitVec 32}
    (h : mappedHphysAddr page1gb hphys len flags ≠ 0) :
    2 ^ 39 ≤ (mappedHphysAddr page1gb hphys len flags).toNat := by
  obtain ⟨hlo, hhi⟩ := hphysAddr_bounds page1gb flags
  have hlen : (hphysLen page1gb).toNat ≤ 2 ^ 39 := by
    cases page1gb <;> decide
  unfold mappedHphysAddr at h ⊢
  split_ifs at h ⊢ with hout hout'
  · exact absurd rfl h
  · exact absurd rfl h
  · have hlt := Nat.lt_of_not_le fun hle => hout (BitVec.le_def.mpr hle)
    rw [BitVec.toNat_add, Nat.mod_eq_of_lt (by omega)]
    omega

theorem le_mappedGphysAddr {page1gb : Bool} {gp2hp : Gp2hp} {gphys : BitVec 64}
    {len flags : BitVec 32} (h : mappedGphysAddr page1gb gp2hp gphys len flags ≠ 0) :
    2 ^ 39 ≤ (mappedGphysAddr page1gb gp2hp gphys len flags).toNat := by
  unfold mappedGphysAddr at h ⊢
  dsimp only at h ⊢
  split_ifs at h ⊢ with hrom hfollows
  · exact absurd rfl h
  · exact le_mappedHphysAddr h
  · exact absurd rfl h

/-- `mapmem` leaves the window alone, or does what it does from `skip` on. -/
theorem mapmem_cases (page1gb : Bool) (gp2hp : Gp2hp) (s : Mapmem) (flags : BitVec 32)
    (physaddr : BitVec 64) (len : BitVec 32) :
    (∃ r, mapmem page1gb gp2hp s flags physaddr len = some (r, s) ∧
      (r = 0 ∨ 2 ^ 39 ≤ r)) ∨
    mapmem page1gb gp2hp s flags physaddr len = mapmemSkip gp2hp s flags physaddr len := by
  unfold mapmem
  dsimp only
  split_ifs with hhphys hzero hgphys hzero
  · exact .inr rfl
  · exact .inl ⟨_, rfl, .inr (le_mappedHphysAddr hzero)⟩
  · exact .inr rfl
  · exact .inl ⟨_, rfl, .inr (le_mappedGphysAddr hzero)⟩
  · exact .inl ⟨0, rfl, .inl rfl⟩

/-! ### Runs -/

/-- What `mapmem` returned, and what it was asked for. -/
structure Mapping where
  virt : Nat
  flags : BitVec 32
  physaddr : BitVec 64
  len : BitVec 32
  gp2hp : Gp2hp

namespace Mapping

variable (m : Mapping)

/-- A mapping of the window, and not an address that is always mapped. -/
def Temporary : Prop := m.virt < 2 ^ 39

/-- The first page. -/
def page : Nat := m.virt / 4096

/-- The number of pages. -/
def count : Nat := mapmemPages (pageOffset m.physaddr) m.len

def HasPage (x : Nat) : Prop := m.page ≤ x ∧ x < m.page + m.count

/-- The host page that page `i` is for. -/
def target (i : Nat) : BitVec 64 := targetPage m.gp2hp m.flags m.physaddr i

/-- The length with what is ahead of it in the first page, rounded up, fits into a word. -/
def NoWrap : Prop := (pageOffset m.physaddr).toNat + m.len.toNat + 0xFFF < 2 ^ 32

end Mapping

structure MapmemRun where
  mem : Mapmem
  live : List Mapping

inductive MapmemEvent where
  | mapmem (gp2hp : Gp2hp) (flags : BitVec 32) (physaddr : BitVec 64) (len : BitVec 32)
  | unmapmem (k : Nat)

/-- Calls by callers who unmap what they mapped; no step where an assertion fails. -/
def mapmemMachine (page1gb : Bool) : Machine MapmemRun MapmemEvent where
  init s := s.mem.lastvirt = mapmemAddrStart ∧ s.live = [] ∧
    ∀ x, mapmemAddrStart / 4096 ≤ x → x < mapmemAddrEnd / 4096 → ¬ Present (s.mem.pte x)
  step s
    | .mapmem gp2hp flags physaddr len =>
      (mapmem page1gb gp2hp s.mem flags physaddr len).map fun (r, mem) =>
        ⟨mem, if r = 0 then s.live else ⟨r, flags, physaddr, len, gp2hp⟩ :: s.live⟩
    | .unmapmem k =>
      s.live[k]?.map fun m => ⟨unmapmem s.mem m.virt m.len, s.live.eraseIdx k⟩

/-- A mapping of the window has its pages there, which map what was asked for. -/
structure Mapping.Placed (m : Mapping) (pte : Nat → BitVec 64) : Prop where
  start_le : mapmemAddrStart ≤ m.page * 4096
  le_end : (m.page + m.count) * 4096 ≤ mapmemAddrEnd
  offset : m.virt % 4096 = (pageOffset m.physaddr).toNat
  entry : ∀ i < m.count, pte (m.page + i) = mappedEntry (m.target i) m.flags

/-- Mappings of the window have no page in common. -/
def Mapping.Apart (m m' : Mapping) : Prop :=
  m.Temporary → m'.Temporary → ∀ x, m.HasPage x → ¬ m'.HasPage x

structure MapmemInv (s : MapmemRun) : Prop where
  last : s.mem.LastOk
  placed : ∀ m ∈ s.live, m.Temporary → m.Placed s.mem.pte
  used : ∀ x, mapmemAddrStart / 4096 ≤ x → x < mapmemAddrEnd / 4096 → Present (s.mem.pte x) →
    ∃ m ∈ s.live, m.Temporary ∧ m.HasPage x
  apart : s.live.Pairwise Mapping.Apart

section

variable {mem mem' : Mapmem} {live : List Mapping} {m : Mapping}

theorem Mapping.Apart.symm {m m' : Mapping} (h : m.Apart m') : m'.Apart m :=
  fun hm' hm x hx' hx => h hm hm' x hx hx'

theorem MapmemInv.perm {live' : List Mapping} (h : MapmemInv ⟨mem, live⟩) (hp : live.Perm live') :
    MapmemInv ⟨mem, live'⟩ := by
  refine ⟨h.last, fun m hm => h.placed m (hp.mem_iff.mpr hm), fun x hlo hhi hx => ?_,
    (hp.pairwise_iff fun hm => hm.symm).1 h.apart⟩
  obtain ⟨m, hm, hrest⟩ := h.used x hlo hhi hx
  exact ⟨m, hp.mem_iff.mp hm, hrest⟩

theorem Mapping.Placed.congr {pte pte' : Nat → BitVec 64} (h : m.Placed pte)
    (heq : ∀ i < m.count, pte' (m.page + i) = pte (m.page + i)) : m.Placed pte' :=
  ⟨h.start_le, h.le_end, h.offset, fun i hi => (heq i hi).trans (h.entry i hi)⟩

/-- A mapping that is not of the window is nothing to it. -/
theorem MapmemInv.permanent (h : MapmemInv ⟨mem, live⟩) (hm : ¬ m.Temporary) :
    MapmemInv ⟨mem, m :: live⟩ := by
  refine ⟨h.last, fun m' hm' htemp => ?_, fun x hlo hhi hx => ?_,
    List.pairwise_cons.mpr ⟨fun m' _ htemp => absurd htemp hm, h.apart⟩⟩
  · rcases List.mem_cons.mp hm' with rfl | hm'
    · exact absurd htemp hm
    · exact h.placed m' hm' htemp
  · obtain ⟨m', hm', hrest⟩ := h.used x hlo hhi hx
    exact ⟨m', List.mem_cons_of_mem _ hm', hrest⟩

/-- The pages of mappings are not free. -/
theorem MapmemInv.not_free (h : MapmemInv ⟨mem, live⟩) {n w : Nat} (hrun : FreeRun mem.pte n w)
    {m : Mapping} (hm : m ∈ live) (htemp : m.Temporary) {i : Nat} (hi : i < m.count) :
    ¬ (w / 4096 ≤ m.page + i ∧ m.page + i < w / 4096 + n) := by
  rintro ⟨hlo, hhi⟩
  have hpresent := (mappedEntry_and (pageAddr_targetPage m.gp2hp m.flags m.physaddr i) m.flags).2.2
  refine hrun.free (m.page + i - w / 4096) (by omega) ?_
  rw [Nat.add_sub_cancel' hlo, (h.placed m hm htemp).entry i hi]
  exact hpresent

/-- Pages of the window that were free are given back, or become those of a new mapping. -/
theorem MapmemInv.taken (h : MapmemInv ⟨mem, live⟩) {n w : Nat} (hrun : FreeRun mem.pte n w)
    (hlast : mem'.LastOk)
    (hother : ∀ x, ¬ (w / 4096 ≤ x ∧ x < w / 4096 + n) → mem'.pte x = mem.pte x) :
    (∀ m ∈ live, m.Temporary → m.Placed mem'.pte) ∧
      ∀ x, mapmemAddrStart / 4096 ≤ x → x < mapmemAddrEnd / 4096 → Present (mem'.pte x) →
        (∃ m ∈ live, m.Temporary ∧ m.HasPage x) ∨
          w / 4096 ≤ x ∧ x < w / 4096 + n := by
  refine ⟨fun m hm htemp => (h.placed m hm htemp).congr fun i hi =>
    hother _ (h.not_free hrun hm htemp hi), fun x hlo hhi hx => ?_⟩
  by_cases hin : w / 4096 ≤ x ∧ x < w / 4096 + n
  · exact .inr hin
  · rw [hother x hin] at hx
    exact .inl (h.used x hlo hhi hx)

theorem MapmemInv.mapmem {page1gb : Bool} {gp2hp : Gp2hp} {flags : BitVec 32}
    {physaddr : BitVec 64} {len : BitVec 32} {r : Nat} (h : MapmemInv ⟨mem, live⟩)
    (hs : Vmm.mapmem page1gb gp2hp mem flags physaddr len = some (r, mem')) :
    MapmemInv ⟨mem', if r = 0 then live else ⟨r, flags, physaddr, len, gp2hp⟩ :: live⟩ := by
  rcases mapmem_cases page1gb gp2hp mem flags physaddr len with ⟨r', heq, hr'⟩ | heq
  · rw [heq] at hs
    cases hs
    by_cases hr : r = 0
    · rw [if_pos hr]
      exact h
    · rw [if_neg hr]
      exact h.permanent (Nat.not_lt.mpr (hr'.resolve_left hr))
  rw [heq] at hs
  rcases mapmemSkip_spec h.last gp2hp flags physaddr len with
    ⟨r', mem'', w, hskip, hlast, hrun, hother, hres⟩ | ⟨hskip, -⟩
  · rw [hskip] at hs
    cases hs
    obtain ⟨hplaced, hused⟩ := h.taken hrun hlast hother
    have hdvd := hrun.dvd
    have hstart := hrun.start_le
    have hend := hrun.le_end
    have hoffset := toNat_pageOffset physaddr
    rcases hres with ⟨rfl, hfree⟩ | ⟨rfl, hentry⟩
    · rw [if_pos rfl]
      refine ⟨hlast, hplaced, fun x hlo hhi hx => ?_, h.apart⟩
      rcases hused x hlo hhi hx with hmem | ⟨hwx, hxw⟩
      · exact hmem
      · refine absurd hx ?_
        have hnot := hfree (x - w / 4096) (by omega)
        rwa [Nat.add_sub_cancel' hwx] at hnot
    · have hpos : 0 < mapmemAddrStart := by decide
      rw [if_neg (by omega)]
      have hpage : (w + (pageOffset physaddr).toNat) / 4096 = w / 4096 := by omega
      refine ⟨hlast, fun m hm htemp => ?_, fun x hlo hhi hx => ?_,
        List.pairwise_cons.mpr ⟨fun m hm _ htemp x hx hx' => ?_, h.apart⟩⟩
      · rcases List.mem_cons.mp hm with rfl | hm
        · refine ⟨?_, ?_, ?_, fun i hi => ?_⟩
          · unfold Mapping.page
            dsimp only
            omega
          · unfold Mapping.page Mapping.count
            dsimp only
            omega
          · dsimp only
            omega
          · unfold Mapping.page
            dsimp only
            rw [hpage]
            exact hentry i hi
        · exact hplaced m hm htemp
      · rcases hused x hlo hhi hx with ⟨m, hm, hrest⟩ | hin
        · exact ⟨m, List.mem_cons_of_mem _ hm, hrest⟩
        · have hwindow : mapmemAddrEnd < 2 ^ 39 := by decide
          refine ⟨_, List.mem_cons_self, ?_, ?_⟩
          · unfold Mapping.Temporary
            dsimp only
            omega
          · unfold Mapping.HasPage Mapping.page
            dsimp only
            rw [hpage]
            exact hin
      · obtain ⟨hlo, hhi⟩ := hx'
        refine h.not_free hrun hm htemp (i := x - m.page) (by omega) ?_
        rw [Nat.add_sub_cancel' hlo]
        unfold Mapping.HasPage Mapping.page at hx
        dsimp only at hx
        rwa [hpage] at hx
  · rw [hskip] at hs
    cases hs

/-- `unmapmem` of a mapping of the window takes away its pages, and only them. -/
theorem MapmemInv.unmapmem_pte (h : MapmemInv ⟨mem, live⟩) (hm : m ∈ live) (htemp : m.Temporary)
    (x : Nat) : (unmapmem mem m.virt m.len).pte x =
      if m.page ≤ x ∧ x < m.page + m.count then leafEntry 0 0 else mem.pte x := by
  have hplaced := h.placed m hm htemp
  have hstart := hplaced.start_le
  have hend := hplaced.le_end
  unfold Mapping.page at hstart hend
  have hpte : (Vmm.unmapmem mem m.virt m.len).pte x =
      if m.page ≤ x ∧ x < m.page + m.count then
        if mem.pte x &&& 0x1 ≠ 0 then leafEntry 0 0 else mem.pte x
      else mem.pte x := by
    have hcount : m.count = mapmemPages (pageOffset m.physaddr) m.len := rfl
    exact Vmm.unmapmem_pte mem m.len (by omega) hplaced.offset (by omega) x
  rw [hpte]
  by_cases hin : m.page ≤ x ∧ x < m.page + m.count
  · have hentry := hplaced.entry (x - m.page) (by omega)
    rw [Nat.add_sub_cancel' hin.1] at hentry
    have hpresent := (mappedEntry_and (pageAddr_targetPage m.gp2hp m.flags m.physaddr (x - m.page))
      m.flags).2.2
    have hthere : mem.pte x &&& 0x1 ≠ 0 := by
      rw [hentry]
      exact hpresent
    rw [if_pos hin, if_pos hin, if_pos hthere]
  · rw [if_neg hin, if_neg hin]

theorem MapmemInv.unmapmem (h : MapmemInv ⟨mem, m :: live⟩) :
    MapmemInv ⟨Vmm.unmapmem mem m.virt m.len, live⟩ := by
  have hapart := List.pairwise_cons.mp h.apart
  by_cases htemp : m.Temporary
  · have hpte := h.unmapmem_pte List.mem_cons_self htemp
    refine ⟨h.last.unmap _ _, fun m' hm' htemp' => ?_, fun x hlo hhi hx => ?_, hapart.2⟩
    · refine (h.placed m' (List.mem_cons_of_mem _ hm') htemp').congr fun i hi => ?_
      rw [hpte, if_neg]
      exact fun hin => hapart.1 m' hm' htemp htemp' _ hin ⟨Nat.le_add_right _ _, by omega⟩
    · dsimp only at hx
      rw [hpte] at hx
      split_ifs at hx with hin
      · exact absurd hx not_present_leafEntry_zero
      · obtain ⟨m', hm', htemp', hin'⟩ := h.used x hlo hhi hx
        rcases List.mem_cons.mp hm' with rfl | hm'
        · exact absurd hin' hin
        · exact ⟨m', hm', htemp', hin'⟩
  · have hsame : Vmm.unmapmem mem m.virt m.len = mem := by
      have hge : mapmemAddrEnd ≤ m.virt := Nat.le_trans (by decide) (Nat.le_of_not_lt htemp)
      unfold Vmm.unmapmem
      rw [if_pos (Or.inr hge)]
    rw [hsame]
    refine ⟨h.last, fun m' hm' => h.placed m' (List.mem_cons_of_mem _ hm'), fun x hlo hhi hx => ?_,
      hapart.2⟩
    obtain ⟨m', hm', htemp', hin'⟩ := h.used x hlo hhi hx
    rcases List.mem_cons.mp hm' with rfl | hm'
    · exact absurd htemp' htemp
    · exact ⟨m', hm', htemp', hin'⟩

end

theorem mapmemInv_of_reachable {page1gb : Bool} {s : MapmemRun}
    (hs : (mapmemMachine page1gb).Reachable s) : MapmemInv s := by
  refine Machine.ReachableWhen.invariant (I := MapmemInv) ?_ ?_ hs
  · rintro ⟨mem, live⟩ ⟨hlast, hlive, hfree⟩
    cases hlive
    refine ⟨⟨?_, ?_, ?_⟩, fun m hm => absurd hm List.not_mem_nil,
      fun x hlo hhi hx => absurd hx (hfree x hlo hhi), List.Pairwise.nil⟩
    · rw [hlast]
      decide
    · rw [hlast]
    · rw [hlast]
      decide
  · rintro ⟨mem, live⟩ e s' h - hstep
    cases e with
    | mapmem gp2hp flags physaddr len =>
      obtain ⟨⟨r, mem'⟩, hr, rfl⟩ := Option.map_eq_some_iff.mp hstep
      exact h.mapmem hr
    | unmapmem k =>
      obtain ⟨m, hk, rfl⟩ := Option.map_eq_some_iff.mp hstep
      obtain ⟨hlt, rfl⟩ := List.getElem?_eq_some_iff.mp hk
      exact (h.perm (List.getElem_cons_eraseIdx_perm hlt).symm).unmapmem

theorem Mapping.NoWrap.count_eq {m : Mapping} (h : m.NoWrap) :
    m.count = ((pageOffset m.physaddr).toNat + m.len.toNat + 0xFFF) / 4096 := by
  unfold Mapping.NoWrap at h
  unfold Mapping.count mapmemPages
  rw [BitVec.toNat_ushiftRight, BitVec.toNat_add, BitVec.toNat_add, Nat.shiftRight_eq_div_pow]
  have hmask : (0xFFF : BitVec 32).toNat = 0xFFF := rfl
  rw [hmask]
  omega

/-- Bytes of a mapping are in its pages. -/
theorem Mapping.NoWrap.hasPage {m : Mapping} {pte : Nat → BitVec 64} (h : m.NoWrap)
    (hplaced : m.Placed pte) {a : Nat} (ha : a < m.len.toNat) : m.HasPage ((m.virt + a) / 4096) ∧
      (m.virt + a) / 4096 = m.page + ((pageOffset m.physaddr).toNat + a) / 4096 := by
  have hoffset := hplaced.offset
  unfold Mapping.HasPage Mapping.page
  rw [h.count_eq]
  omega

/-- Mappings of the window have their pages in the window, no two have one in common, and each page
maps what was asked for; the bytes of a mapping are in its pages unless its length wraps around.
`unmapmem` takes away the pages of its mapping. `mapmem` ends, with a panic only if the window has
not so many free pages in a row. -/
theorem mapmem_consistent {page1gb : Bool} {s : MapmemRun}
    (hs : (mapmemMachine page1gb).Reachable s) :
    (∀ m ∈ s.live, m.Temporary →
      mapmemAddrStart ≤ m.page * 4096 ∧ (m.page + m.count) * 4096 ≤ mapmemAddrEnd ∧
      m.virt = m.page * 4096 + (pageOffset m.physaddr).toNat ∧
      ∀ i < m.count, s.mem.pte (m.page + i) &&& ~~~0xFFF = m.target i ∧
        s.mem.pte (m.page + i) &&& 0xFFF = mapmemAttr m.flags ||| 0x60) ∧
    s.live.Pairwise (fun m m' => m.Temporary → m'.Temporary → ∀ x, m.HasPage x → ¬ m'.HasPage x) ∧
    (∀ m ∈ s.live, m.Temporary → m.NoWrap → ∀ a < m.len.toNat, m.HasPage ((m.virt + a) / 4096) ∧
      (m.virt + a) / 4096 = m.page + ((pageOffset m.physaddr).toNat + a) / 4096) ∧
    (∀ m ∈ s.live, m.Temporary → ∀ x, (unmapmem s.mem m.virt m.len).pte x =
      if m.page ≤ x ∧ x < m.page + m.count then leafEntry 0 0 else s.mem.pte x) ∧
    ¬ Present (leafEntry 0 0) ∧
    ∀ gp2hp flags physaddr len, mapmem page1gb gp2hp s.mem flags physaddr len = none →
      ∀ v, ¬ FreeRun s.mem.pte (mapmemPages (pageOffset physaddr) len) v := by
  have hinv := mapmemInv_of_reachable hs
  refine ⟨fun m hm htemp => ?_, hinv.apart, fun m hm htemp hwrap a ha =>
    hwrap.hasPage (hinv.placed m hm htemp) ha, fun m hm htemp x => hinv.unmapmem_pte hm htemp x,
    not_present_leafEntry_zero, fun gp2hp flags physaddr len hnone v => ?_⟩
  · have hplaced := hinv.placed m hm htemp
    have hoffset := hplaced.offset
    refine ⟨hplaced.start_le, hplaced.le_end, ?_, fun i hi => ?_⟩
    · unfold Mapping.page
      omega
    · obtain ⟨haddr, hattr, -⟩ := mappedEntry_and
        (pageAddr_targetPage m.gp2hp m.flags m.physaddr i) m.flags
      rw [hplaced.entry i hi]
      exact ⟨haddr, hattr⟩
  · rcases mapmem_cases page1gb gp2hp s.mem flags physaddr len with ⟨r, heq, -⟩ | heq
    · rw [heq] at hnone
      cases hnone
    · rw [heq] at hnone
      rcases mapmemSkip_spec hinv.last gp2hp flags physaddr len with
        ⟨r, s', w, hskip, -⟩ | ⟨-, hno⟩
      · rw [hskip] at hnone
        cases hnone
      · exact hno v

/-- The window before any call. -/
def freshMapmem : MapmemRun := ⟨⟨fun _ => 0, mapmemAddrStart⟩, []⟩

theorem reachable_freshMapmem (page1gb : Bool) : (mapmemMachine page1gb).Reachable freshMapmem :=
  .init ⟨rfl, rfl, fun _ _ _ hx => hx BitVec.zero_and⟩

theorem mapmemSearch_of_found {pte : Nat → BitVec 64} {n v : Nat} (loopcount : Nat)
    (h : mapmemScan pte v n 0 = .found) : mapmemSearch pte n v loopcount = some v := by
  unfold mapmemSearch
  split
  · rfl
  · next hused => cases h.symm.trans hused
  · next hend => cases h.symm.trans hend

/-- A call that succeeds is a step. -/
theorem Mapping.reachable {page1gb : Bool} {mem mem' : Mapmem} {live : List Mapping}
    (hs : (mapmemMachine page1gb).Reachable ⟨mem, live⟩) (m : Mapping) (hm : m.virt ≠ 0)
    (h : Vmm.mapmem page1gb m.gp2hp mem m.flags m.physaddr m.len = some (m.virt, mem')) :
    (mapmemMachine page1gb).Reachable ⟨mem', m :: live⟩ := by
  refine hs.step (e := .mapmem m.gp2hp m.flags m.physaddr m.len) trivial ?_
  simp only [mapmemMachine, h, Option.map_some, if_neg hm]

/-- A page that is not always mapped. -/
def farMapping : Mapping := ⟨0xF0000123, mapmemHphysFlag, 0x200000000123, 1, fun p => (p, false)⟩

/-- A page that is always mapped. -/
def nearMapping : Mapping :=
  ⟨2 ^ 39 + 0x1000, mapmemHphysFlag, 0x1000, 16, fun p => (p, false)⟩

theorem mapmem_consistent_farMapping : ∃ (s : MapmemRun), s.live = [farMapping] ∧
    s.mem.pte 0xF0000 &&& ~~~0xFFF = 0x200000000000 := by
  have hsearch : mapmemSearch freshMapmem.mem.pte 1 mapmemAddrStart 0 = some mapmemAddrStart :=
    mapmemSearch_of_found 0 (by
      rw [mapmemScan, if_neg (by decide), if_neg (by simp [freshMapmem])]
      rfl)
  have haddr : mappedHphysAddr true farMapping.physaddr farMapping.len farMapping.flags = 0 := by
    decide
  obtain ⟨mem, hmapmem⟩ : ∃ mem, mapmem true farMapping.gp2hp freshMapmem.mem farMapping.flags
      farMapping.physaddr farMapping.len = some (farMapping.virt, mem) := by
    have hn : mapmemPages (pageOffset farMapping.physaddr) farMapping.len = 1 := by decide
    unfold mapmem
    rw [if_pos (by decide)]
    dsimp only
    rw [haddr, if_pos rfl, mapmemSkip, mapmemAlloc, hn,
      show freshMapmem.mem.lastvirt = mapmemAddrStart from rfl, hsearch]
    simp only [Option.map_some, Option.bind_some]
    rw [if_neg (by decide), mapmemDomap, hn, domapLoop,
      show domapEntry _ _ _ = some _ from rfl]
    dsimp only
    rw [if_neg (by simp [changePages]; decide)]
    exact ⟨_, rfl⟩
  have hs := farMapping.reachable (reachable_freshMapmem true) (by decide) hmapmem
  have hpages := (mapmem_consistent hs).1 farMapping (List.mem_singleton_self _)
    (by unfold Mapping.Temporary; decide)
  exact ⟨_, rfl, (hpages.2.2.2 0 (by decide)).1.trans (by decide)⟩

/-- Memory that is always mapped is not mapped once more. -/
theorem not_mapmem_disjoint : ¬ ∀ page1gb s, (mapmemMachine page1gb).Reachable s →
    (∀ m ∈ s.live, mapmemAddrStart ≤ m.virt ∧ m.virt < mapmemAddrEnd) ∧
      s.live.Pairwise fun m m' => ∀ x, m.HasPage x → ¬ m'.HasPage x := by
  intro hall
  have hmapmem : mapmem true nearMapping.gp2hp freshMapmem.mem nearMapping.flags
      nearMapping.physaddr nearMapping.len = some (nearMapping.virt, freshMapmem.mem) := by
    have haddr : mappedHphysAddr true nearMapping.physaddr nearMapping.len nearMapping.flags =
        BitVec.ofNat 64 (2 ^ 39 + 0x1000) := by decide
    unfold mapmem
    rw [if_pos (by decide)]
    dsimp only
    rw [haddr, if_neg (by decide)]
    rfl
  have hs₁ := nearMapping.reachable (reachable_freshMapmem true) (by decide) hmapmem
  have hs₂ := nearMapping.reachable hs₁ (by decide) hmapmem
  have hapart := List.pairwise_cons.mp (hall true _ hs₂).2
  have hpage : nearMapping.HasPage nearMapping.page := ⟨Nat.le_refl _, by decide⟩
  exact hapart.1 nearMapping (List.mem_singleton_self _) _ hpage hpage

end OnDemandVirt.Vmm
