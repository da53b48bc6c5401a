import OnDemandVirt.Vmm.EptMapping
import OnDemandVirt.Lib.Machine

/-!
# Runs of the extended page tables

Violations, mappings, searches for mappings and resets in any order: the cursor stays coherent, the
pool is never overrun and every page of it is linked once, and a mapping operation gives the address
its host page and attributes. A search may clear mappings of a range without pages of the pool only,
which is what `flush_tlb_entry` asks for.
-/

namespace OnDemandVirt.Vmm

open Lib.Paging

/-! ### What an entry says -/

/-- The host address of a page, its memory type and whether it may be written to; a page can always
be read and executed. -/
structure EntrySays (e : BitVec 64) (host : Nat) (type : BitVec 8) (writable isLarge : Bool) :
    Prop where
  host : tableBase e = host
  type : e.toNat / 8 % 8 = type.toNat
  read : present e = true
  write : e.getLsbD 1 = writable
  exec : e.getLsbD 2 = true
  large : large e = isLarge

/-- An entry made of the address of a page and attributes. -/
theorem entrySays_of_toNat {e : BitVec 64} {page : Nat} {type : BitVec 8} {writable isLarge : Bool}
    (hpage : 4096 ∣ page) (htype : type.toNat < 8)
    (he : e.toNat = page + (type.toNat * 8 + (if isLarge then 128 else 0) + 5 +
      if writable then 2 else 0)) :
    EntrySays e (page % 2 ^ 52) type writable isLarge := by
  obtain ⟨t, rfl⟩ := hpage
  have hbit : ∀ i, e.getLsbD i = decide (e.toNat / 2 ^ i % 2 = 1) := fun i => by
    rw [← BitVec.testBit_toNat, Nat.testBit_eq_decide_div_mod_eq]
  constructor
  · rw [tableBase, he]
    split_ifs <;> omega
  · rw [he]
    split_ifs <;> omega
  · rw [present, hbit, decide_eq_true_iff, he]
    split_ifs <;> omega
  · rw [hbit, he]
    cases writable <;> cases isLarge <;> simp <;> omega
  · rw [hbit, decide_eq_true_iff, he]
    split_ifs <;> omega
  · rw [large, hbit, he]
    cases writable <;> cases isLarge <;> simp <;> omega

section

variable (env : EptEnv) (g : BitVec 64)

theorem type_toNat_lt : (getMtrrType g env.cache false).toNat < 8 :=
  BitVec.lt_def.mp (env.type_lt g)

theorem hattr_toNat :
    (hattr env g).toNat = (getMtrrType g env.cache false).toNat * 8 + 5 + 2 ∧
      (hattr env g &&& ~~~0x2).toNat = (getMtrrType g env.cache false).toNat * 8 + 5 ∧
      (hattr env g ||| 0x80).toNat = (getMtrrType g env.cache false).toNat * 8 + 128 + 5 + 2 := by
  have hall : ∀ t : BitVec 8, t < 8 →
      ((t.setWidth 64 <<< 3) ||| 0x7 : BitVec 64).toNat = t.toNat * 8 + 5 + 2 ∧
      (((t.setWidth 64 <<< 3) ||| 0x7) &&& ~~~0x2 : BitVec 64).toNat = t.toNat * 8 + 5 ∧
      (((t.setWidth 64 <<< 3) ||| 0x7) ||| 0x80 : BitVec 64).toNat = t.toNat * 8 + 128 + 5 + 2 := by
    decide
  exact hall _ (env.type_lt g)

/-- The entry of a page: its host page, its memory type, and writable unless it is the VMM's. -/
theorem pageValue_says : EntrySays (pageValue env g) (tableBase (gp2hp env g).1)
    (getMtrrType g env.cache false) (!physInVmm env g) false := by
  obtain ⟨hall, hread, -⟩ := hattr_toNat env g
  have htype := type_toNat_lt env g
  have hbase : tableBase (gp2hp env g).1 = (gp2hp env g).1.toNat / 4096 * 4096 % 2 ^ 52 := by
    rw [tableBase]
    omega
  rw [hbase]
  refine entrySays_of_toNat (Nat.dvd_mul_left _ _) htype ?_
  unfold pageValue gp2hp
  cases hvmm : physInVmm env g
  · simp only [Bool.false_eq_true, if_false, Bool.not_false, if_true]
    rw [BitVec.toNat_or, and_not_pagesizeMask, hall, page_or (Nat.dvd_mul_left _ _) (by omega)]
  · simp only [Bool.false_eq_true, if_false, Bool.not_true, if_true]
    rw [BitVec.toNat_or, and_not_pagesizeMask, hread, page_or (Nat.dvd_mul_left _ _) (by omega)]

/-- The entry of a large page: its own address and the memory type of its beginning. -/
theorem largeValue_says (hg : g.toNat < 2 ^ 52) :
    EntrySays (largeValue env g) (g.toNat / 2 ^ 21 * 2 ^ 21)
      (getMtrrType (g &&& ~~~pagesize2mMask) env.cache false) true true := by
  obtain ⟨-, -, hlarge⟩ := hattr_toNat env (g &&& ~~~pagesize2mMask)
  have htype := type_toNat_lt env (g &&& ~~~pagesize2mMask)
  have hpage : 4096 ∣ g.toNat / 2 ^ 21 * 2 ^ 21 := by omega
  have hmod : g.toNat / 2 ^ 21 * 2 ^ 21 = g.toNat / 2 ^ 21 * 2 ^ 21 % 2 ^ 52 := by omega
  rw [hmod]
  refine entrySays_of_toNat hpage htype ?_
  rw [largeValue, BitVec.toNat_or, and_not_pagesize2mMask, hlarge, page_or hpage (by omega)]
  rfl

end

/-! ### Runs -/

/-- `vt_ept_init` of tables and a cursor that may hold anything. -/
def vtEptInit (P : EptPages) (s : VtEpt) : VtEpt :=
  { s with mem := zeroPage s.mem P.ncr3tbl, cleared := true, cnt := 0, level := 4 }

/-- What changes the tables. The environment may be another one at each event: guests set memory
types and handles are registered. -/
inductive EptEvent where
  | violation (env : EptEnv) (write : Bool) (gphys : BitVec 64)
  | mapPage (env : EptEnv) (write : Bool) (gphys : BitVec 64)
  | map2mpage (env : EptEnv) (gphys : BitVec 64)
  | externMapsearch (mask : BitVec 64) (current : Bool) (start last : BitVec 64)
  | clearAll

/-- The tables of one virtual CPU; no step where the VMM panics. -/
def eptMachine (P : EptPages) : Lib.Machine VtEpt EptEvent where
  init s := ∃ s₀, s = vtEptInit P s₀
  step s
    | .violation env write gphys => vtEptMapPage P env s write gphys
    | .mapPage env write gphys => vtEptMapPageSub P env s write gphys
    | .map2mpage env gphys => some (vtEptMap2mpage P env s gphys).2
    | .externMapsearch mask current start last =>
      some (vtEptExternMapsearch P mask current start last s).2
    | .clearAll => some (vtEptClearAll P s)

/-- No mapping of a page of the pool is searched for. -/
def EptEvent.Avoids (P : EptPages) : EptEvent → Prop
  | .externMapsearch mask _ start last => NoPoolPage P mask start last
  | _ => True

/-- Two entries that a walk visits and that lead to the same table are the same entry, and that
table is a page of the pool in use. -/
def LinkedOnce (P : EptPages) (s : VtEpt) : Prop :=
  ∀ va va' d d' a a', d < 3 → d' < 3 → entryAt s.mem P.ncr3tbl va d = some a →
    entryAt s.mem P.ncr3tbl va' d' = some a' → isTable (s.mem a) = true →
      isTable (s.mem a') = true →
        (∃ j < s.cnt, tableBase (s.mem a) = P.tbl j) ∧
          (tableBase (s.mem a) = tableBase (s.mem a') → a = a')

/-- A mapping of the page of an address has what it should have. -/
def PageMapped (P : EptPages) (env : EptEnv) (s : VtEpt) (g : BitVec 64) : Prop :=
  ∃ p, EndsAt s.mem P.ncr3tbl g.toNat 0 p ∧ EntrySays (s.mem p) (tableBase (gp2hp env g).1)
    (getMtrrType g env.cache false) (!physInVmm env g) false

/-- A mapping of the large page of an address has what it should have. -/
def LargePageMapped (P : EptPages) (env : EptEnv) (s : VtEpt) (g : BitVec 64) : Prop :=
  ∃ p, EndsAt s.mem P.ncr3tbl g.toNat 1 p ∧ EntrySays (s.mem p) (g.toNat / 2 ^ 21 * 2 ^ 21)
    (getMtrrType (g &&& ~~~pagesize2mMask) env.cache false) true true

section

variable {P : EptPages} {env : EptEnv} {s s' : VtEpt} {g : BitVec 64}

theorem Maps.pageMapped (h : Maps P s 0 (pageValue env g) g) : PageMapped P env s g := by
  obtain ⟨p, hends, hval⟩ := h
  exact ⟨p, hends, hval ▸ pageValue_says env g⟩

theorem Maps.largePageMapped (hg : g.toNat < 2 ^ 52) (h : Maps P s 1 (largeValue env g) g) :
    LargePageMapped P env s g := by
  obtain ⟨p, hends, hval⟩ := h
  exact ⟨p, hends, hval ▸ largeValue_says env g hg⟩

theorem EptInv.linkedOnce (hs : EptInv P s) : LinkedOnce P s := by
  obtain ⟨lvl, ht⟩ := hs.tables
  intro va va' d d' a a' hd hd' ha ha' htable htable'
  obtain ⟨t, hin, htl, rfl⟩ := ht.located (by omega) ha
  obtain ⟨t', hin', htl', rfl⟩ := ht.located (by omega) ha'
  obtain ⟨j, hj, hlink, -⟩ := ht.link t _ hin (by omega) (index_lt _ _) htable
  obtain ⟨j', hj', hlink', -⟩ := ht.link t' _ hin' (by omega) (index_lt _ _) htable'
  refine ⟨⟨j, hj, by rw [hlink, P.tableBase_link]⟩, fun heq => ?_⟩
  rw [hlink, hlink', P.tableBase_link, P.tableBase_link] at heq
  have hjj : j = j' := P.tbl_inj j (Nat.lt_of_lt_of_le hj ht.cnt_le) j'
    (Nat.lt_of_lt_of_le hj' ht.cnt_le) heq
  subst hjj
  obtain ⟨rfl, hkk⟩ := ht.unique t _ t' _ j hin hin' (by omega) (by omega) (index_lt _ _)
    (index_lt _ _) hj hlink hlink'
  rw [hkk]

theorem eptMachine_step (hs : EptInv P s) {e : EptEvent} (he : e.Avoids P)
    (hstep : (eptMachine P).step s e = some s') : EptInv P s' := by
  cases e with
  | violation env write gphys => exact (vtEptMapPage_spec hs hstep).1
  | mapPage env write gphys => exact (vtEptMapPageSub_spec hs hstep).1
  | map2mpage env gphys =>
    cases hstep
    exact (vtEptMap2mpage_spec hs rfl).1
  | externMapsearch mask current start last =>
    cases hstep
    exact vtEptExternMapsearch_inv hs he current
  | clearAll =>
    cases hstep
    exact vtEptClearAll_inv P s

theorem eptInv_of_reachable (hs : (eptMachine P).ReachableWhen (fun _ e => e.Avoids P) s) :
    EptInv P s := by
  refine Lib.Machine.ReachableWhen.invariant ?_ (fun t e t' ht he hstep =>
    eptMachine_step ht he hstep) hs
  rintro t ⟨s₀, rfl⟩
  exact vtEptClearAll_inv P s₀

/-- The cursor is coherent after every run, and moving it makes it exact; the pool is not overrun
and every page of it is linked once; mapping operations map what they should. -/
theorem eptCursor_of_reachable
    (hs : (eptMachine P).ReachableWhen (fun _ e => e.Avoids P) s) :
    Coherent P s ∧ s.cnt ≤ numOfEptbl ∧ LinkedOnce P s ∧
      (∀ g, Exact P (curMove P s g) ∧ (curMove P s g).gphys = g) ∧
      ∀ (env : EptEnv) (g : BitVec 64),
        (∀ write s', vtEptMapPageSub P env s write g = some s' → PageMapped P env s' g) ∧
        (g.toNat < 2 ^ 52 → ∀ s', vtEptMap2mpage P env s g = (false, s') →
          LargePageMapped P env s' g) ∧
        (g.toNat < 2 ^ 48 → ∀ write s', vtEptMapPage P env s write g = some s' →
          PageMapped P env s' g) := by
  have hinv := eptInv_of_reachable hs
  obtain ⟨lvl, ht⟩ := hinv.tables
  refine ⟨hinv.coherent, ht.cnt_le, hinv.linkedOnce, fun g => ?_, fun env g => ⟨?_, ?_, ?_⟩⟩
  · obtain ⟨-, -, -, hgphys, hexact⟩ := curMove_spec hinv g
    exact ⟨hexact, hgphys⟩
  · exact fun write s' h => (vtEptMapPageSub_spec hinv h).2.1.pageMapped
  · exact fun hg s' h => ((vtEptMap2mpage_spec hinv h).2.1 rfl).largePageMapped hg
  · exact fun hg write s' h => ((vtEptMapPage_spec hinv h).2 hg).pageMapped

end

/-- Tables in low memory. -/
def lowPages : EptPages where
  ncr3tbl := 0x1000
  tbl i := 0x2000 + 0x1000 * (i % numOfEptbl)
  root_page := by decide
  tbl_page i := ⟨2 + i % numOfEptbl, by omega⟩
  tbl_lt i := by
    have := Nat.mod_lt i (show 1024 > 0 by decide)
    change 0x2000 + 0x1000 * (i % 1024) < 2 ^ 52
    omega
  root_ne i _ := by omega
  tbl_inj i hi j hj h := by
    rw [Nat.mod_eq_of_lt hi, Nat.mod_eq_of_lt hj] at h
    omega

/-- A guest that has set no memory types, on a machine without MMIO. -/
def plainEnv : EptEnv where
  vmmStartPhys := 0x8000000
  physBlank := 0x8800000
  cache := CacheRegs.zero
  mmio := { heap := fun _ => ⟨0, 0, true, false⟩, next := 0, handle := [], mmio := fun _ => []
            unregisterFlag := false }
  uefiMmioSpace := []
  vmm_page := by decide
  type_lt _ := show (0 : BitVec 8) < 8 by decide
  uefi_le _ h := absurd h List.not_mem_nil

def emptyTables : VtEpt := vtEptInit lowPages ⟨fun _ => 0, 0, false, 0, 0, fun _ => 0⟩

/-- A violation is handled, and the next one maps another page. -/
theorem eptCursor_lowPages : ∃ s s', (eptMachine lowPages).step emptyTables
    (.violation plainEnv true 0x5123) = some s ∧ Coherent lowPages s ∧
      vtEptMapPage lowPages plainEnv s false 0x6000 = some s' ∧
        PageMapped lowPages plainEnv s' 0x6000 := by
  have hrun : ((eptMachine lowPages).run emptyTables
    [.violation plainEnv true 0x5123, .violation plainEnv false 0x6000]).isSome = true := by
    decide
  obtain ⟨s', hs'⟩ := Option.isSome_iff_exists.mp hrun
  obtain ⟨s, hs, hrest⟩ := Option.bind_eq_some_iff.mp hs'
  obtain ⟨t, ht, hst⟩ := Option.bind_eq_some_iff.mp hrest
  cases hst
  have hreach : (eptMachine lowPages).ReachableWhen (fun _ e => e.Avoids lowPages) s :=
    .step (.init ⟨_, rfl⟩) (show (EptEvent.violation plainEnv true 0x5123).Avoids lowPages from
      trivial) hs
  exact ⟨s, _, hs, (eptCursor_of_reachable hreach).1, ht,
    ((eptCursor_of_reachable hreach).2.2.2.2 plainEnv 0x6000).2.2 (by decide) false _ ht⟩

/-- After the first mapping the cursor is still at the topmost table. A search that clears an entry
leading to a table leaves a cursor that no walk follows, and the next mapping is lost. -/
theorem not_exact_violation :
    (∃ s, (eptMachine lowPages).run emptyTables [.violation plainEnv true 0x5123] = some s ∧
      ¬ Exact lowPages s) ∧
    ∃ s, (eptMachine lowPages).run emptyTables
      [.violation plainEnv true 0x5123, .violation plainEnv true 0x5123,
        .externMapsearch 0xFFFFFFFFFF000 true 0x3000 0x3FFF,
        .violation plainEnv true 0x5123] = some s ∧
      ¬ Coherent lowPages s ∧ ¬ PageMapped lowPages plainEnv s 0x5123 := by
  constructor
  · have hrun : ((eptMachine lowPages).run emptyTables [.violation plainEnv true 0x5123]).map
        (fun s => (s.level, isTable (s.mem (s.entry s.level)))) = some (3, true) := by
      decide
    obtain ⟨s, hs, hval⟩ := Option.map_eq_some_iff.mp hrun
    refine ⟨s, hs, fun hexact => ?_⟩
    rcases hexact.2.2.2 with hzero | hoff
    · exact absurd ((congrArg Prod.fst hval).symm.trans hzero) (by decide)
    · exact absurd ((congrArg Prod.snd hval).symm.trans hoff) (by decide)
  · have hrun : ((eptMachine lowPages).run emptyTables
        [.violation plainEnv true 0x5123, .violation plainEnv true 0x5123,
          .externMapsearch 0xFFFFFFFFFF000 true 0x3000 0x3FFF,
          .violation plainEnv true 0x5123]).map
        (fun s => (s.level, s.gphys, entryAt s.mem 0x1000 0x5123 3)) =
          some (0, 0x5123, none) := by
      set_option maxRecDepth 8000 in decide
    obtain ⟨s, hs, hval⟩ := Option.map_eq_some_iff.mp hrun
    have hlevel : s.level = 0 := congrArg Prod.fst hval
    have hgphys : s.gphys = 0x5123 := congrArg (fun x => x.2.1) hval
    have hend : entryAt s.mem 0x1000 0x5123 3 = none := congrArg (fun x => x.2.2) hval
    refine ⟨s, hs, fun hcoherent => ?_, ?_⟩
    · have hat := hcoherent 0 (Nat.le_of_eq hlevel) (by decide)
      rw [hgphys] at hat
      exact absurd (hend.symm.trans hat) (by simp)
    · rintro ⟨p, ⟨-, hat, -⟩, -⟩
      exact absurd (hend.symm.trans hat) (by simp)


/-! ### The ranges that are searched for -/

/-- The types that a guest can set are memory types, which is what `EptEnv.type_lt` asks for. -/
theorem getMtrrType_lt_of_reachable {pat mtrr syscfgExist : Bool} {mtrrcap : BitVec 64}
    {h : CacheRegs} {wrmsrFails : Nat → BitVec 64 → Bool} {d : CacheData}
    (hd : (guestCache (cacheInitPcpu pat mtrr syscfgExist mtrrcap h) wrmsrFails).Reachable d)
    (x : BitVec 64) (passMtrrfix : Bool) : getMtrrType x d.g passMtrrfix < 8 := by
  have haccepted := accepted_of_reachable pat mtrr syscfgExist mtrrcap h hd
  have hhost : ∀ i < 8, (cacheInitPcpu pat mtrr syscfgExist mtrrcap h).h.patData i < 8 := by
    cases pat with
    | false => exact fun _ _ => show (0 : BitVec 8) < 8 by decide
    | true =>
      have hall : ∀ wc, ∀ i < 8, hostPatData wc i < 8 := by decide
      exact hall _
  have hlt : ∀ t, isMtrrTypeOk (cacheInitPcpu pat mtrr syscfgExist mtrrcap h) t = true →
      t < 8 := by
    intro t ht
    obtain ⟨i, hi, heq⟩ := List.any_eq_true.mp (Bool.and_eq_true_iff.mp ht).1
    rw [← eq_of_beq heq]
    exact hhost i (List.mem_range.mp hi)
  exact getMtrrType_of_types (Q := (· < 8)) (fun i => ne_ucMinus (haccepted.range i))
    (fun i => hlt _ (haccepted.range i)) (fun i => hlt _ (haccepted.fix i))
    (hlt _ haccepted.defType) (by decide) (by decide) x passMtrrfix

/-- The loop of `flush_tlb_entry`: the ranges that mappings are searched for, `none` where `fuel` is
used up. -/
def flushTlbLoop (env : EptEnv) (gpend : BitVec 64) :
    (fuel : Nat) → (gp2 hp0 hp1 : BitVec 64) → Option (List (BitVec 64 × BitVec 64))
  | 0, gp2, hp0, hp1 => if gp2 ≤ gpend then none else some [(hp0, hp1)]
  | fuel + 1, gp2, hp0, hp1 =>
    if gp2 ≤ gpend then
      let hp2 := (gp2hp env gp2).1
      let gp3 := (gp2 ||| pagesizeMask) + 1
      if hp1 + 1 ≠ hp2 then
        (flushTlbLoop env gpend fuel gp3 hp2 (hp2 ||| pagesizeMask)).map ((hp0, hp1) :: ·)
      else flushTlbLoop env gpend fuel gp3 hp0 (hp2 ||| pagesizeMask)
    else some [(hp0, hp1)]

/-- `flush_tlb_entry`. -/
def flushTlbEntry (env : EptEnv) (fuel : Nat) (gpst gpend : BitVec 64) :
    Option (List (BitVec 64 × BitVec 64)) :=
  let hp0 := (gp2hp env gpst).1
  flushTlbLoop env gpend fuel ((gpst ||| pagesizeMask) + 1) hp0 (hp0 ||| pagesizeMask)

/-- The pool is VMM memory, and the blank page is none of its pages. -/
structure PoolInVmm (P : EptPages) (env : EptEnv) : Prop where
  inVmm : ∀ i < numOfEptbl, physInVmm env (BitVec.ofNat 64 (P.tbl i)) = true
  blank : ∀ i < numOfEptbl, env.physBlank.toNat / 4096 ≠ P.tbl i / 4096

/-- No page of the pool has an address from `start` to `last`. -/
def OutOfPool (P : EptPages) (start last : BitVec 64) : Prop :=
  ∀ i < numOfEptbl, ¬ (start.toNat ≤ P.tbl i + 4095 ∧ P.tbl i ≤ last.toNat)

section

variable {P : EptPages} {env : EptEnv}

theorem or_pagesizeMask (x : BitVec 64) : (x ||| pagesizeMask).toNat = x.toNat / 4096 * 4096 + 4095 := by
  have hdecomp : x ||| pagesizeMask = (x &&& ~~~pagesizeMask) ||| pagesizeMask := by
    apply BitVec.eq_of_getLsbD_eq
    intro i hi
    rw [BitVec.getLsbD_or, BitVec.getLsbD_or, BitVec.getLsbD_and, BitVec.getLsbD_not]
    cases x.getLsbD i <;> cases pagesizeMask.getLsbD i <;> simp [hi]
  rw [hdecomp, BitVec.toNat_or, and_not_pagesizeMask]
  exact page_or (Nat.dvd_mul_left _ _) (by decide)

/-- A host address that the guest sees is in no page of the pool. -/
theorem gp2hp_page_ne (hpool : PoolInVmm P env) (gp : BitVec 64) {i : Nat} (hi : i < numOfEptbl) :
    (gp2hp env gp).1.toNat / 4096 ≠ P.tbl i / 4096 := by
  unfold gp2hp
  split_ifs with hvmm
  · exact hpool.blank i hi
  · intro heq
    have hlt := P.tbl_lt i
    have hpage : gp.toNat / 4096 = (BitVec.ofNat 64 (P.tbl i)).toNat / 4096 := by
      rw [BitVec.toNat_ofNat, Nat.mod_eq_of_lt (by omega)]
      exact heq
    exact hvmm ((physInVmm_page env hpage).trans (hpool.inVmm i hi))

theorem outOfPool_page (hpool : PoolInVmm P env) (gp : BitVec 64) :
    OutOfPool P (gp2hp env gp).1 ((gp2hp env gp).1 ||| pagesizeMask) := by
  rintro i hi ⟨hfirst, hlast⟩
  have hne := gp2hp_page_ne hpool gp hi
  have hdvd := P.tbl_page i
  rw [or_pagesizeMask] at hlast
  omega

theorem flushTlbLoop_outOfPool (hpool : PoolInVmm P env) {gpend : BitVec 64} (fuel : Nat)
    {gp2 hp0 hp1 : BitVec 64} {ranges : List (BitVec 64 × BitVec 64)}
    (hout : OutOfPool P hp0 hp1) (h : flushTlbLoop env gpend fuel gp2 hp0 hp1 = some ranges) :
    ∀ r ∈ ranges, OutOfPool P r.1 r.2 := by
  have hone : ∀ {hp0 hp1 : BitVec 64}, OutOfPool P hp0 hp1 →
      ∀ r ∈ [(hp0, hp1)], OutOfPool P r.1 r.2 := by
    intro hp0 hp1 hout r hr
    rw [List.mem_singleton.mp hr]
    exact hout
  induction fuel generalizing gp2 hp0 hp1 ranges with
  | zero =>
    rw [flushTlbLoop] at h
    split_ifs at h
    cases h
    exact hone hout
  | succ fuel ih =>
    rw [flushTlbLoop] at h
    dsimp only at h
    split_ifs at h with hle hgap
    · obtain ⟨rest, hrest, rfl⟩ := Option.map_eq_some_iff.mp h
      intro r hr
      rcases List.mem_cons.mp hr with rfl | hr
      · exact hout
      · exact ih (outOfPool_page hpool gp2) hrest r hr
    · -- the page of `gp2` follows the range
      refine ih ?_ h
      rintro i hi ⟨hfirst, hlast⟩
      have hnext := congrArg BitVec.toNat (not_not.mp hgap)
      have hne := gp2hp_page_ne hpool gp2 hi
      have hdvd := P.tbl_page i
      have hlt := hp1.isLt
      rw [or_pagesizeMask] at hlast
      rw [BitVec.toNat_add] at hnext
      have hnot := hout i hi
      have hone : (1 : BitVec 64).toNat = 1 := rfl
      rw [hone] at hnext
      generalize (gp2hp env gp2).1.toNat = x at *
      by_cases hwrap : hp1.toNat + 1 < 2 ^ 64
      · rw [Nat.mod_eq_of_lt hwrap] at hnext
        omega
      · have hmax : hp1.toNat + 1 = 2 ^ 64 := by omega
        rw [hmax, Nat.mod_self] at hnext
        omega
    · cases h
      exact hone hout

/-- `flush_tlb_entry` searches for no mapping of a page of the pool. -/
theorem flushTlbEntry_avoids (hpool : PoolInVmm P env) {fuel : Nat} {gpst gpend mask : BitVec 64}
    (hmask : ∀ i < numOfEptbl, P.link i &&& mask = BitVec.ofNat 64 (P.tbl i))
    {ranges : List (BitVec 64 × BitVec 64)} (h : flushTlbEntry env fuel gpst gpend = some ranges) :
    ∀ r ∈ ranges, ∀ current, (EptEvent.externMapsearch mask current r.1 r.2).Avoids P := by
  intro r hr current i hi
  exact ⟨hmask i hi, flushTlbLoop_outOfPool hpool fuel (outOfPool_page hpool gpst) h r hr i hi⟩

end

end OnDemandVirt.Vmm
