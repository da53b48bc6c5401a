import OnDemandVirt.Vmm.LinearWalk

/-!
# Operands across pages

An access by linear address is a sequence of runs, each of them a walk and the bytes of the operand
in one page. Every run finds its own translation, in the memory that the runs before it leave.
-/

namespace OnDemandVirt.Vmm.Linear

open Lib Lib.Fallible

variable {g : Vcpu} {linear a pte : BitVec 64} {mem μ : TableMem} {n : Nat}
  {bs bs' : List (BitVec 8)}

/-! ### Bytes -/

@[simp] theorem length_bytesOf (n : Nat) {w : Nat} (x : BitVec w) : (bytesOf n x).length = n := by
  simp [bytesOf]

theorem bytesOf_ne_nil (hn : 0 < n) {w : Nat} (x : BitVec w) : bytesOf n x ≠ [] :=
  List.ne_nil_of_length_pos (by rwa [length_bytesOf])

theorem take_append_add {l l' : List (BitVec 8)} (hl : l.length = n) (k : Nat) :
    (l ++ l').take (n + k) = l ++ l'.take k := by
  rw [← hl, List.take_length_add_append]

/-- The bytes of a value are those of its halves. -/
theorem bytesOf_halves (n : Nat) (x : BitVec (8 * (2 * n))) :
    bytesOf (2 * n) x =
      bytesOf n (x.setWidth (8 * n)) ++ bytesOf n ((x >>> (8 * n)).setWidth (8 * n)) := by
  have hbyte (w : Nat) (y : BitVec w) (i j : Nat) (hj : j < 8) :
      (y.extractLsb' (8 * i) 8).getLsbD j = y.getLsbD (8 * i + j) := by
    simp [hj]
  have hrange : List.range (2 * n) = List.range n ++ (List.range n).map (n + ·) := by
    rw [Nat.two_mul, List.range_add]
  unfold bytesOf
  rw [hrange, List.map_append, List.map_map]
  congr 1 <;> refine List.map_congr_left fun i hi => BitVec.eq_of_getLsbD_eq fun j hj => ?_
  · have hlt : 8 * i + j < 8 * n := by
      have := List.mem_range.mp hi
      omega
    rw [hbyte _ _ _ _ hj, hbyte _ _ _ _ hj, BitVec.getLsbD_setWidth, decide_eq_true hlt,
      Bool.true_and]
  · have hlt : 8 * i + j < 8 * n := by
      have := List.mem_range.mp hi
      omega
    have hidx : 8 * (n + i) + j = 8 * n + (8 * i + j) := by omega
    rw [Function.comp_apply, hbyte _ _ _ _ hj, hbyte _ _ _ _ hj, BitVec.getLsbD_setWidth,
      decide_eq_true hlt, Bool.true_and, BitVec.getLsbD_ushiftRight, hidx]

/-! ### A byte of memory -/

section

variable {levels : Nat} {a' : BitVec 64}

theorem wordBytes_eq (levels : Nat) : wordBytes levels = 4 ∧ entryBits levels = 32 ∨
    wordBytes levels = 8 ∧ entryBits levels = 64 := by
  unfold wordBytes entryBits
  split_ifs
  · exact .inl ⟨rfl, rfl⟩
  · exact .inr ⟨rfl, rfl⟩

theorem bitAt_add_le (levels : Nat) (a : BitVec 64) : bitAt levels a + 8 ≤ entryBits levels := by
  unfold bitAt
  rcases wordBytes_eq levels with ⟨hw, he⟩ | ⟨hw, he⟩ <;> rw [hw, he] <;> omega

/-- The word with one of its bytes stored. -/
theorem rdEntry_storeByte (levels : Nat) (mem : TableMem) (a : BitVec 64) (b : BitVec 8) {j : Nat}
    (hj : j < 64) :
    (rdEntry levels (storeByte levels mem a b) (wordAddr levels a)).getLsbD j =
      if bitAt levels a ≤ j ∧ j < bitAt levels a + 8 then b.getLsbD (j - bitAt levels a)
      else (rdEntry levels mem (wordAddr levels a)).getLsbD j := by
  have hle := bitAt_add_le levels a
  have hlow : (rdEntry levels mem (wordAddr levels a)).getLsbD j =
      (decide (j < entryBits levels) && (rdEntry levels mem (wordAddr levels a)).getLsbD j) := by
    conv_lhs => rw [← wordOf_rdEntry, wordOf, BitVec.getLsbD_setWidth, BitVec.getLsbD_setWidth]
    simp [hj]
  rw [storeByte, rdEntry_eq, pmapRd, Function.update_self, wordOf, BitVec.getLsbD_setWidth,
    BitVec.getLsbD_setWidth, BitVec.getLsbD_or, BitVec.getLsbD_and, BitVec.getLsbD_not,
    BitVec.getLsbD_shiftLeft, BitVec.getLsbD_shiftLeft, BitVec.getLsbD_setWidth, ← rdEntry_eq]
  have hff : (0xFF#64).getLsbD (j - bitAt levels a) = decide (j - bitAt levels a < 8) := by
    rw [show 0xFF#64 = Lib.X86.bits 0 7 by decide, Lib.X86.getLsbD_bits, decide_eq_decide]
    omega
  rw [hff, decide_eq_true hj]
  by_cases hin : bitAt levels a ≤ j ∧ j < bitAt levels a + 8
  · have h1 : j < entryBits levels := by omega
    have h2 : ¬ j < bitAt levels a := by omega
    have h3 : j - bitAt levels a < 8 := by omega
    have h4 : j - bitAt levels a < 64 := by omega
    simp [hin, h1, h2, h3, h4]
  · rw [if_neg hin]
    rcases Nat.lt_or_ge j (bitAt levels a) with hlt | hge
    · simp only [hlt, decide_true, Bool.not_true, Bool.and_false, Bool.false_and, Bool.not_false,
        Bool.and_true, Bool.or_false, Bool.true_and]
      exact hlow.symm
    · have h3 : ¬ j - bitAt levels a < 8 := by omega
      have hb : b.getLsbD (j - bitAt levels a) = false := BitVec.getLsbD_of_ge _ _ (by omega)
      simp only [hb, h3, decide_false, Bool.and_false, Bool.not_false, Bool.and_true, Bool.or_false,
        Bool.true_and]
      exact hlow.symm

theorem bitAt_dvd (levels : Nat) (a : BitVec 64) : 8 ∣ bitAt levels a := Dvd.intro _ rfl

/-- An address is that of its word and the place in it. -/
theorem eq_of_word (hword : wordAddr levels a' = wordAddr levels a)
    (hbit : bitAt levels a' = bitAt levels a) : a' = a := by
  have hmod : a'.toNat % wordBytes levels = a.toNat % wordBytes levels := by
    unfold bitAt at hbit
    omega
  unfold wordAddr at hword
  rw [hmod] at hword
  have := congrArg (· + BitVec.ofNat 64 (a.toNat % wordBytes levels)) hword
  simpa using this

theorem getLsbD_byteAt (levels : Nat) (mem : TableMem) (a : BitVec 64) {j : Nat} (hj : j < 8) :
    (byteAt levels mem a).getLsbD j =
      (rdEntry levels mem (wordAddr levels a)).getLsbD (bitAt levels a + j) := by
  simp [byteAt, hj]

/-- Storing a byte changes this byte alone. -/
theorem byteAt_storeByte (levels : Nat) (mem : TableMem) (a a' : BitVec 64) (b : BitVec 8) :
    byteAt levels (storeByte levels mem a b) a' = if a' = a then b else byteAt levels mem a' := by
  apply BitVec.eq_of_getLsbD_eq
  intro j hj
  have hle := bitAt_add_le levels a'
  have h64 : entryBits levels ≤ 64 := by
    rcases wordBytes_eq levels with ⟨-, he⟩ | ⟨-, he⟩ <;> omega
  rw [getLsbD_byteAt _ _ _ hj]
  by_cases hword : wordAddr levels a' = wordAddr levels a
  · rw [hword, rdEntry_storeByte _ _ _ _ (by omega)]
    by_cases hbit : bitAt levels a' = bitAt levels a
    · obtain rfl := eq_of_word hword hbit
      rw [if_pos rfl, if_pos (by omega), Nat.add_sub_cancel_left]
    · have hdvd := bitAt_dvd levels a
      have hdvd' := bitAt_dvd levels a'
      rw [if_neg (by omega), if_neg fun h : a' = a => hbit (congrArg _ h), getLsbD_byteAt _ _ _ hj, hword]
  · have hne : a' ≠ a := fun h => hword (h ▸ rfl)
    rw [if_neg hne, getLsbD_byteAt _ _ _ hj, storeByte,
      rdEntry_congr (Function.update_of_ne hword _ _)]

end

/-! ### Runs of a write -/

/-- The runs of a write, in their order. -/
def writeRuns (g : Vcpu) : List (BitVec 64 × List (BitVec 8)) → Prog Unit
  | [] => pure ()
  | (a, bs) :: runs => do
    writeRun g a bs
    writeRuns g runs

theorem writeRuns_append (xs ys : List (BitVec 64 × List (BitVec 8))) :
    writeRuns g (xs ++ ys) = (do writeRuns g xs; writeRuns g ys) := by
  induction xs with
  | nil => rfl
  | cons run xs ih =>
    funext mem
    rw [List.cons_append, writeRuns, writeRuns, ih]
    rcases h : writeRun g run.1 run.2 mem with ⟨_ | _, μ⟩
    · rw [bind_error h, bind_error (bind_error h)]
    · rw [bind_ok h]
      rcases h' : writeRuns g xs μ with ⟨_ | _, μ'⟩
      · rw [bind_error h', bind_error]
        rw [bind_ok h, h']
      · rw [bind_ok h', bind_ok]
        rw [bind_ok h, h']

/-- The runs of `write_linearaddr_b`. -/
def runsB (linear : BitVec 64) (data : BitVec 8) : List (BitVec 64 × List (BitVec 8)) :=
  [(linear, bytesOf 1 data)]

/-- The runs of `writeAcross`. -/
def runsAcross (n : Nat) (first : BitVec 64)
    (half : BitVec 64 → BitVec (8 * n) → List (BitVec 64 × List (BitVec 8)))
    (linear : BitVec 64) (data : BitVec (8 * (2 * n))) : List (BitVec 64 × List (BitVec 8)) :=
  if first ≤ linear &&& 0xFFF then
    half linear (data.setWidth (8 * n)) ++
      half (linear + BitVec.ofNat 64 n) ((data >>> (8 * n)).setWidth (8 * n))
  else [(linear, bytesOf (2 * n) data)]

def runsW : BitVec 64 → BitVec 16 → List (BitVec 64 × List (BitVec 8)) := runsAcross 1 0xFFF runsB
def runsL : BitVec 64 → BitVec 32 → List (BitVec 64 × List (BitVec 8)) := runsAcross 2 0xFFD runsW
def runsQ : BitVec 64 → BitVec 64 → List (BitVec 64 × List (BitVec 8)) := runsAcross 4 0xFF9 runsL

theorem writeRuns_singleton (g : Vcpu) (linear : BitVec 64) (bs : List (BitVec 8)) :
    writeRuns g [(linear, bs)] = writeRun g linear bs := by
  funext mem
  rw [writeRuns]
  rcases h : writeRun g linear bs mem with ⟨_ | _, μ⟩
  · exact bind_error h
  · exact bind_ok h

theorem writeLinearaddrB_eq (linear : BitVec 64) (data : BitVec 8) :
    writeLinearaddrB g linear data = writeRuns g (runsB linear data) :=
  (writeRuns_singleton _ _ _).symm

theorem writeAcross_eq (n : Nat) {first : BitVec 64} {half : BitVec 64 → BitVec (8 * n) → Prog Unit}
    {runs : BitVec 64 → BitVec (8 * n) → List (BitVec 64 × List (BitVec 8))}
    (h : ∀ a x, half a x = writeRuns g (runs a x)) (linear : BitVec 64)
    (data : BitVec (8 * (2 * n))) :
    writeAcross g n first half linear data = writeRuns g (runsAcross n first runs linear data) := by
  rw [writeAcross, runsAcross]
  split_ifs
  · rw [h, h, writeRuns_append]
  · exact (writeRuns_singleton _ _ _).symm

theorem writeLinearaddrW_eq (linear : BitVec 64) (data : BitVec 16) :
    writeLinearaddrW g linear data = writeRuns g (runsW linear data) :=
  writeAcross_eq 1 writeLinearaddrB_eq linear data

theorem writeLinearaddrL_eq (linear : BitVec 64) (data : BitVec 32) :
    writeLinearaddrL g linear data = writeRuns g (runsL linear data) :=
  writeAcross_eq 2 writeLinearaddrW_eq linear data

theorem writeLinearaddrQ_eq (linear data : BitVec 64) :
    writeLinearaddrQ g linear data = writeRuns g (runsQ linear data) :=
  writeAcross_eq 4 writeLinearaddrL_eq linear data

/-! ### The probe -/

/-- Where the probe finds that the operand can be written, the write succeeds. -/
def ProbeSound (probe write : Prog Unit) (mem : TableMem) : Prop :=
  ∀ μ, probe mem = (.ok (), μ) → ∃ μ', write μ = (.ok (), μ')

/-- Each run is translated in the memory that the runs before it leave. -/
def Translates (g : Vcpu) : List (BitVec 64 × List (BitVec 8)) → TableMem → Prop
  | [], _ => True
  | (a, bs) :: runs, μ => ∃ pte μ', getPte g a true μ = (.ok pte, μ') ∧
      Translates g runs (storeBytes g.levels μ' (g.phys pte a) bs)

/-- The page of the first run is found again, and the later runs are translated. -/
def ProbeCovers (g : Vcpu) (linear : BitVec 64) (runs : List (BitVec 64 × List (BitVec 8)))
    (mem : TableMem) : Prop :=
  ∀ pte μ, getPte g linear true mem = (.ok pte, μ) → PdpteKept g linear mem μ ∧
    ∀ bs later, runs = (linear, bs) :: later →
      Translates g later (storeBytes g.levels μ (g.phys pte linear) bs)

theorem writeRun_ok {pte : BitVec 64} (h : getPte g a true mem = (.ok pte, μ)) :
    writeRun g a bs mem = (.ok (), storeBytes g.levels μ (g.phys pte a) bs) :=
  bind_ok h

theorem writeRun_error {e : Stop} (h : getPte g a true mem = (.error e, μ)) :
    writeRun g a bs mem = (.error e, μ) :=
  bind_error h

theorem translates_iff {runs : List (BitVec 64 × List (BitVec 8))} :
    Translates g runs mem ↔ ∃ μ, writeRuns g runs mem = (.ok (), μ) := by
  induction runs generalizing mem with
  | nil => exact ⟨fun _ => ⟨mem, rfl⟩, fun _ => trivial⟩
  | cons run runs ih =>
    obtain ⟨a, bs⟩ := run
    rw [Translates, writeRuns]
    constructor
    · rintro ⟨pte, μ, hpte, hrest⟩
      rw [bind_ok (writeRun_ok hpte)]
      exact ih.mp hrest
    · rintro ⟨μ, h⟩
      rcases hpte : getPte g a true mem with ⟨e | pte, μ'⟩
      · rw [bind_error (writeRun_error hpte)] at h
        cases h
      · rw [bind_ok (writeRun_ok hpte)] at h
        exact ⟨pte, μ', rfl, ih.mpr ⟨μ, h⟩⟩

theorem writeLinearaddrOkB_ok_iff :
    writeLinearaddrOkB g linear mem = (.ok (), μ) ↔
      ∃ pte, getPte g linear true mem = (.ok pte, μ) := by
  rcases hpte : getPte g linear true mem with ⟨e | pte, μ'⟩
  · rw [writeLinearaddrOkB, bind_error hpte]
    simp
  · rw [writeLinearaddrOkB, bind_ok hpte]
    change ((.ok (), μ') : Except Stop Unit × TableMem) = _ ↔ _
    simp

/-- The second half is never looked at. -/
theorem writeOkAcross_eq (end_ step : BitVec 64) (half : BitVec 64 → Prog Unit) :
    writeOkAcross end_ step half = half := by
  funext linear
  rw [writeOkAcross, if_pos]
  rw [BitVec.le_def, BitVec.toNat_and]
  exact Nat.and_le_right

theorem probeSound_runs {bs : List (BitVec 8)} {later : List (BitVec 64 × List (BitVec 8))}
    {runs : List (BitVec 64 × List (BitVec 8))} (hruns : runs = (linear, bs) :: later) :
    ProbeSound (writeLinearaddrOkB g linear) (writeRuns g runs) mem ↔
      ProbeCovers g linear runs mem := by
  subst hruns
  constructor
  · intro h pte μ hpte
    obtain ⟨μ', hwrite⟩ := h μ (writeLinearaddrOkB_ok_iff.2 ⟨pte, hpte⟩)
    by_cases hkept : PdpteKept g linear mem μ
    · refine ⟨hkept, fun bs' later' heq => ?_⟩
      cases heq
      obtain ⟨pte', hagain, hphys⟩ := getPte_again hpte hkept
      rw [writeRuns, bind_ok (writeRun_ok hagain), hphys] at hwrite
      exact translates_iff.2 ⟨μ', hwrite⟩
    · rw [writeRuns, bind_error (writeRun_error (getPte_refused hpte hkept))] at hwrite
      cases hwrite
  · intro h μ hprobe
    obtain ⟨pte, hpte⟩ := writeLinearaddrOkB_ok_iff.1 hprobe
    obtain ⟨hkept, hlater⟩ := h pte μ hpte
    obtain ⟨pte', hagain, hphys⟩ := getPte_again hpte hkept
    obtain ⟨μ', hrest⟩ := translates_iff.1 (hlater bs later rfl)
    refine ⟨μ', ?_⟩
    rw [writeRuns, bind_ok (writeRun_ok hagain), hphys]
    exact hrest

theorem runsAcross_head (n : Nat) {first : BitVec 64}
    {half : BitVec 64 → BitVec (8 * n) → List (BitVec 64 × List (BitVec 8))}
    (h : ∀ a x, ∃ bs later, half a x = (a, bs) :: later) (linear : BitVec 64)
    (data : BitVec (8 * (2 * n))) :
    ∃ bs later, runsAcross n first half linear data = (linear, bs) :: later := by
  rw [runsAcross]
  split_ifs
  · obtain ⟨bs, later, heq⟩ := h linear (data.setWidth (8 * n))
    rw [heq]
    exact ⟨bs, _, rfl⟩
  · exact ⟨_, _, rfl⟩

theorem runsW_head (linear : BitVec 64) (data : BitVec 16) :
    ∃ bs later, runsW linear data = (linear, bs) :: later :=
  runsAcross_head 1 (fun _ _ => ⟨_, _, rfl⟩) linear data

theorem runsL_head (linear : BitVec 64) (data : BitVec 32) :
    ∃ bs later, runsL linear data = (linear, bs) :: later :=
  runsAcross_head 2 runsW_head linear data

/-- The probe is right exactly where the first page is found again and the later runs of the
operand, which it does not look at, are translated. -/
theorem probeSound_iff (g : Vcpu) (linear : BitVec 64) (w : BitVec 16) (l : BitVec 32)
    (mem : TableMem) :
    (ProbeSound (writeLinearaddrOkW g linear) (writeLinearaddrW g linear w) mem ↔
        ProbeCovers g linear (runsW linear w) mem) ∧
      (ProbeSound (writeLinearaddrOkL g linear) (writeLinearaddrL g linear l) mem ↔
        ProbeCovers g linear (runsL linear l) mem) := by
  constructor
  · obtain ⟨bs, later, hruns⟩ := runsW_head linear w
    rw [writeLinearaddrOkW, writeOkAcross_eq, writeLinearaddrW_eq]
    exact probeSound_runs hruns
  · obtain ⟨bs, later, hruns⟩ := runsL_head linear l
    rw [writeLinearaddrOkL, writeOkAcross_eq, writeLinearaddrOkW, writeOkAcross_eq,
      writeLinearaddrL_eq]
    exact probeSound_runs hruns

/-- Two levels of tables: page 0 is at `0x5000`, page 1 is not present. -/
def onePage : TableMem := fun a => if a = 0x1000 then 0x2067 else if a = 0x2000 then 0x5067 else 0

def onePageVcpu : Vcpu where
  cr0 := cr0PgBit
  cr3 := 0x1000
  cr4 := 0
  efer := 0
  nbits := 36
  tries := 0
  pmap := freshPmap
  entries := fun _ => 0

/-- The last byte of a page can be written, the first one of the next page cannot. -/
theorem not_probeSound_onePage :
    ¬ ProbeSound (writeLinearaddrOkW onePageVcpu 0xFFF) (writeLinearaddrW onePageVcpu 0xFFF 0xBBAA)
      onePage := by
  intro h
  have hprobe : (writeLinearaddrOkW onePageVcpu 0xFFF onePage).1 = .ok () := rfl
  obtain ⟨μ', hwrite⟩ := h (writeLinearaddrOkW onePageVcpu 0xFFF onePage).2 (Prod.ext hprobe rfl)
  have hfails : (writeLinearaddrW onePageVcpu 0xFFF 0xBBAA
      (writeLinearaddrOkW onePageVcpu 0xFFF onePage).2).1 = .error (.err .pageNotPresent) := rfl
  rw [hwrite] at hfails
  cases hfails

/-! ### What a write stores -/

/-- The offset of an address in its page. -/
theorem toNat_offset (a : BitVec 64) : (a &&& 0xFFF).toNat = a.toNat % 4096 := by
  have hmask : (0xFFF : BitVec 64).toNat = 2 ^ 12 - 1 := rfl
  rw [BitVec.toNat_and, hmask, Nat.and_two_pow_sub_one_eq_mod]

theorem offset_lt (a : BitVec 64) : (a &&& 0xFFF).toNat < 0x1000 := by
  rw [toNat_offset]
  exact Nat.mod_lt _ (by decide)

/-- The bytes are stored where their linear addresses are translated to by `pte`. -/
def storeEach (g : Vcpu) (pte : BitVec 64) : BitVec 64 → List (BitVec 8) → TableMem → TableMem
  | _, [], mem => mem
  | a, b :: bs, mem => storeEach g pte (a + 1) bs (storeByte g.levels mem (g.phys pte a) b)

/-- All bytes are stored: those of a page by one translation, which is the one of each of them. -/
inductive Stores (g : Vcpu) : BitVec 64 → List (BitVec 8) → TableMem → TableMem → Prop
  | done (a : BitVec 64) (mem : TableMem) : Stores g a [] mem mem
  | run {a pte : BitVec 64} {bs rest : List (BitVec 8)} {mem μ mem' : TableMem} (hne : bs ≠ [])
      (hwalk : ∀ k < bs.length, getPte g (a + BitVec.ofNat 64 k) true mem = (.ok pte, μ))
      (h : Stores g (a + BitVec.ofNat 64 bs.length) rest (storeEach g pte a bs μ) mem') :
      Stores g a (bs ++ rest) mem mem'

theorem samePage_of_div {x y : BitVec 64} (h : x.toNat / 2 ^ 12 = y.toNat / 2 ^ 12) :
    SamePage x y := by
  apply BitVec.eq_of_getLsbD_eq
  intro j hj
  have hmask : ~~~0xFFF#64 = Lib.X86.bits 12 63 := by decide
  rw [hmask, BitVec.getLsbD_and, BitVec.getLsbD_and, Lib.X86.getLsbD_bits]
  by_cases h12 : 12 ≤ j
  · have hbit (z : BitVec 64) : z.getLsbD j = (z.toNat / 2 ^ 12).testBit (j - 12) := by
      rw [Nat.testBit_div_two_pow, Nat.sub_add_cancel h12, BitVec.getLsbD]
    rw [hbit, hbit, h]
  · simp [h12]

section

variable {k : Nat} (h : (a &&& 0xFFF).toNat + k < 0x1000)

include h

theorem toNat_add_in_page : (a + BitVec.ofNat 64 k).toNat = a.toNat + k := by
  rw [toNat_offset] at h
  rw [BitVec.toNat_add, BitVec.toNat_ofNat]
  omega

/-- Going on within a page. -/
theorem samePage_add : SamePage (a + BitVec.ofNat 64 k) a := by
  refine samePage_of_div ?_
  rw [toNat_add_in_page h]
  rw [toNat_offset] at h
  omega

theorem offset_add :
    (a + BitVec.ofNat 64 k) &&& 0xFFF = (a &&& 0xFFF) + BitVec.ofNat 64 k := by
  apply BitVec.eq_of_toNat_eq
  rw [toNat_offset, toNat_add_in_page h, BitVec.toNat_add, toNat_offset, BitVec.toNat_ofNat]
  rw [toNat_offset] at h
  omega

theorem phys_add : g.phys pte (a + BitVec.ofNat 64 k) = g.phys pte a + BitVec.ofNat 64 k := by
  have hclear (x : BitVec 64) (hx : x.toNat < 0x1000) : (pte &&& g.pteAddrMask) &&& x = 0#64 := by
    have hlow : x &&& ~~~0xFFF#64 = 0#64 &&& ~~~0xFFF#64 :=
      samePage_of_div (by
        rw [BitVec.toNat_zero]
        omega)
    have hmask : g.pteAddrMask &&& x = 0#64 := by
      rw [← pteAddrMask_page, BitVec.and_comm, ← BitVec.and_assoc, hlow, BitVec.zero_and,
        BitVec.zero_and]
    rw [BitVec.and_assoc, hmask, BitVec.and_zero]
  have hsum : ((a &&& 0xFFF) + BitVec.ofNat 64 k).toNat < 0x1000 := by
    rw [BitVec.toNat_add, BitVec.toNat_ofNat]
    omega
  rw [Vcpu.phys, Vcpu.phys, offset_add h, ← BitVec.add_eq_or_of_and_eq_zero _ _ (hclear _ hsum),
    ← BitVec.add_eq_or_of_and_eq_zero _ _ (hclear _ (offset_lt a)), BitVec.add_assoc]

end

theorem storeEach_eq (hpage : (a &&& 0xFFF).toNat + bs.length ≤ 0x1000) :
    storeEach g pte a bs mem = storeBytes g.levels mem (g.phys pte a) bs := by
  induction bs generalizing a mem with
  | nil => rfl
  | cons b bs ih =>
    rw [List.length_cons] at hpage
    rw [storeEach, storeBytes]
    cases bs with
    | nil => rfl
    | cons b' bs =>
      rw [List.length_cons] at hpage
      have hin : (a &&& 0xFFF).toNat + 1 < 0x1000 := by omega
      have hphys : g.phys pte (a + 1) = g.phys pte a + 1 := phys_add hin
      rw [← hphys]
      refine ih ?_
      have hoff : (a + 1) &&& 0xFFF = (a &&& 0xFFF) + 1 := offset_add hin
      rw [hoff, BitVec.toNat_add, List.length_cons]
      have : (1 : BitVec 64).toNat = 1 := rfl
      omega

theorem Stores.append {mem' : TableMem} (h : Stores g a bs mem μ)
    (h' : Stores g (a + BitVec.ofNat 64 bs.length) bs' μ mem') :
    Stores g a (bs ++ bs') mem mem' := by
  induction h with
  | done => simpa using h'
  | @run a pte bs rest mem μ mem₁ hne hwalk _ ih =>
    rw [List.append_assoc]
    refine .run hne hwalk (ih ?_)
    rwa [BitVec.add_assoc, ← BitVec.ofNat_add, ← List.length_append]

/-- An operand reaches over the end of its page. -/
def Crosses (a : BitVec 64) (n : Nat) : Prop := 0x1000 < (a &&& 0xFFF).toNat + n

/-- How a write of bytes ends: all of them are stored, or those below one whose address is not
translated. Within a page that is the first one. -/
inductive WriteEnds (g : Vcpu) (a : BitVec 64) (bs : List (BitVec 8)) (mem : TableMem) :
    Except Stop Unit × TableMem → Prop
  | done {mem' : TableMem} (h : Stores g a bs mem mem') : WriteEnds g a bs mem (.ok (), mem')
  | fails {k : Nat} {e : Stop} {μ mem' : TableMem} (hk : k < bs.length)
      (hpage : k = 0 ∨ Crosses a bs.length) (h : Stores g a (bs.take k) mem μ)
      (herr : getPte g (a + BitVec.ofNat 64 k) true μ = (.error e, mem')) :
      WriteEnds g a bs mem (.error e, mem')

/-- All addresses of a run have its translation. -/
theorem getPte_run {wr : Bool} (hpage : ¬ Crosses a n) {k : Nat} (hk : k < n) :
    getPte g (a + BitVec.ofNat 64 k) wr = getPte g a wr := by
  unfold Crosses at hpage
  exact getPte_samePage (samePage_add (by omega)) wr

theorem writeRun_ends (hne : bs ≠ []) (hpage : ¬ Crosses a bs.length) (mem : TableMem) :
    WriteEnds g a bs mem (writeRun g a bs mem) := by
  have hpos : 0 < bs.length := List.length_pos_iff.mpr hne
  rcases hpte : getPte g a true mem with ⟨e | pte, μ⟩
  · rw [writeRun_error hpte]
    refine .fails hpos (.inl rfl) (.done a mem) ?_
    rw [getPte_run hpage hpos, hpte]
  · have hrun : Stores g a (bs ++ []) mem (storeEach g pte a bs μ) :=
      .run hne (fun k hk => by rw [getPte_run hpage hk, hpte]) (.done _ _)
    rw [List.append_nil] at hrun
    rw [writeRun_ok hpte, ← storeEach_eq (by unfold Crosses at hpage; omega)]
    exact .done hrun

theorem writeAcross_ends (n : Nat) {first : BitVec 64}
    {half : BitVec 64 → BitVec (8 * n) → Prog Unit}
    (h : ∀ a x mem, WriteEnds g a (bytesOf n x) mem (half a x mem)) (hn : 0 < n)
    (hfirst : first.toNat + 2 * n = 0x1001) (linear : BitVec 64) (data : BitVec (8 * (2 * n)))
    (mem : TableMem) :
    WriteEnds g linear (bytesOf (2 * n) data) mem (writeAcross g n first half linear data mem) := by
  rw [writeAcross]
  split_ifs with hacross
  · have hcrosses : Crosses linear (2 * n) := by
      rw [BitVec.le_def] at hacross
      unfold Crosses
      omega
    rw [bytesOf_halves]
    have hlo := h linear (data.setWidth (8 * n)) mem
    rcases hlo' : half linear (data.setWidth (8 * n)) mem with ⟨e | _, μ⟩ <;> rw [hlo'] at hlo
    · cases hlo with
      | @fails k _ μ' _ hk _ hst herr =>
        rw [length_bytesOf] at hk
        rw [bind_error hlo']
        refine .fails (k := k) ?_ (.inr ?_) ?_ herr
        · rw [List.length_append, length_bytesOf, length_bytesOf]
          omega
        · rwa [List.length_append, length_bytesOf, length_bytesOf, ← Nat.two_mul]
        · rwa [List.take_append_of_le_length (by rw [length_bytesOf]; omega)]
    · cases hlo with
      | done hst =>
        rw [bind_ok hlo']
        have hhi := h (linear + BitVec.ofNat 64 n) ((data >>> (8 * n)).setWidth (8 * n)) μ
        rcases hhi' : half (linear + BitVec.ofNat 64 n) ((data >>> (8 * n)).setWidth (8 * n)) μ
          with ⟨e | _, μ'⟩ <;> rw [hhi'] at hhi
        · cases hhi with
          | @fails k _ μ'' _ hk _ hst' herr =>
            rw [length_bytesOf] at hk
            refine .fails (k := n + k) (μ := μ'') ?_ (.inr ?_) ?_ ?_
            · rw [List.length_append, length_bytesOf, length_bytesOf]
              omega
            · rwa [List.length_append, length_bytesOf, length_bytesOf, ← Nat.two_mul]
            · rw [take_append_add (length_bytesOf _ _)]
              refine hst.append ?_
              rwa [length_bytesOf]
            · rwa [BitVec.ofNat_add, ← BitVec.add_assoc]
        · cases hhi with
          | done hst' =>
            refine .done (hst.append ?_)
            rwa [length_bytesOf]
  · refine writeRun_ends (bytesOf_ne_nil (by omega) _) (fun hcrosses => hacross ?_) mem
    unfold Crosses at hcrosses
    rw [length_bytesOf] at hcrosses
    rw [BitVec.le_def]
    omega

theorem writeLinearaddrB_ends (linear : BitVec 64) (data : BitVec 8) (mem : TableMem) :
    WriteEnds g linear (bytesOf 1 data) mem (writeLinearaddrB g linear data mem) := by
  have := offset_lt linear
  refine writeRun_ends (bytesOf_ne_nil (by decide) data) (fun hcrosses => ?_) mem
  unfold Crosses at hcrosses
  rw [length_bytesOf] at hcrosses
  omega

theorem writeLinearaddrW_ends (linear : BitVec 64) (data : BitVec 16) (mem : TableMem) :
    WriteEnds g linear (bytesOf 2 data) mem (writeLinearaddrW g linear data mem) :=
  writeAcross_ends 1 writeLinearaddrB_ends (by decide) (by decide) linear data mem

theorem writeLinearaddrL_ends (linear : BitVec 64) (data : BitVec 32) (mem : TableMem) :
    WriteEnds g linear (bytesOf 4 data) mem (writeLinearaddrL g linear data mem) :=
  writeAcross_ends 2 writeLinearaddrW_ends (by decide) (by decide) linear data mem

theorem writeLinearaddrQ_ends (linear data : BitVec 64) (mem : TableMem) :
    WriteEnds g linear (bytesOf 8 data) mem (writeLinearaddrQ g linear data mem) :=
  writeAcross_ends 4 writeLinearaddrL_ends (by decide) (by decide) linear data mem

/-! ### What a read finds -/

/-- All bytes are found: those of a page by one translation, which is the one of each of them. -/
inductive Loads (g : Vcpu) : BitVec 64 → List (BitVec 8) → TableMem → TableMem → Prop
  | done (a : BitVec 64) (mem : TableMem) : Loads g a [] mem mem
  | run {a pte : BitVec 64} {bs rest : List (BitVec 8)} {mem μ mem' : TableMem} (hne : bs ≠ [])
      (hwalk : ∀ k < bs.length, getPte g (a + BitVec.ofNat 64 k) false mem = (.ok pte, μ))
      (hbytes : ∀ k, (hk : k < bs.length) →
        bs[k] = byteAt g.levels μ (g.phys pte (a + BitVec.ofNat 64 k)))
      (h : Loads g (a + BitVec.ofNat 64 bs.length) rest μ mem') : Loads g a (bs ++ rest) mem mem'

theorem Loads.append {mem' : TableMem} (h : Loads g a bs mem μ)
    (h' : Loads g (a + BitVec.ofNat 64 bs.length) bs' μ mem') : Loads g a (bs ++ bs') mem mem' := by
  induction h with
  | done => simpa using h'
  | @run a pte bs rest mem μ mem₁ hne hwalk hbytes _ ih =>
    rw [List.append_assoc]
    refine .run hne hwalk hbytes (ih ?_)
    rwa [BitVec.add_assoc, ← BitVec.ofNat_add, ← List.length_append]

/-- How a read of `n` bytes ends: all of them are at `data`, or an address is not translated. -/
inductive ReadEnds (g : Vcpu) (a : BitVec 64) (n : Nat) (mem : TableMem) :
    Except Stop (List (BitVec 8)) × TableMem → Prop
  | done {bs : List (BitVec 8)} {mem' : TableMem} (hlen : bs.length = n)
      (h : Loads g a bs mem mem') : ReadEnds g a n mem (.ok bs, mem')
  | fails {k : Nat} {e : Stop} {bs : List (BitVec 8)} {μ mem' : TableMem} (hk : k < n)
      (hpage : k = 0 ∨ Crosses a n) (hlen : bs.length = k) (h : Loads g a bs mem μ)
      (herr : getPte g (a + BitVec.ofNat 64 k) false μ = (.error e, mem')) :
      ReadEnds g a n mem (.error e, mem')

@[simp] theorem length_loadBytes (levels : Nat) (mem : TableMem) (a : BitVec 64) (n : Nat) :
    (loadBytes levels mem a n).length = n := by
  induction n generalizing a with
  | zero => rfl
  | succ n ih => rw [loadBytes, List.length_cons, ih]

theorem getElem_loadBytes (levels : Nat) (mem : TableMem) (a : BitVec 64) {n k : Nat}
    (hk : k < (loadBytes levels mem a n).length) :
    (loadBytes levels mem a n)[k] = byteAt levels mem (a + BitVec.ofNat 64 k) := by
  induction n generalizing a k with
  | zero => exact absurd hk (Nat.not_lt_zero k)
  | succ n ih =>
    cases k with
    | zero => simp [loadBytes]
    | succ k =>
      have hk' : k < (loadBytes levels mem (a + 1) n).length := by
        rw [length_loadBytes] at hk ⊢
        omega
      have haddr : a + BitVec.ofNat 64 (k + 1) = a + 1 + BitVec.ofNat 64 k := by
        rw [Nat.add_comm, BitVec.ofNat_add, BitVec.add_assoc]
        rfl
      rw [haddr, ← ih (a + 1) hk']
      rfl

theorem readRun_ends (hn : 0 < n) (hpage : ¬ Crosses a n) (mem : TableMem) :
    ReadEnds g a n mem (readRun g a n mem) := by
  rcases hpte : getPte g a false mem with ⟨e | pte, μ⟩
  · rw [readRun, bind_error hpte]
    refine .fails hn (.inl rfl) rfl (.done a mem) ?_
    rw [getPte_run hpage hn, hpte]
  · have hlen := length_loadBytes g.levels μ (g.phys pte a) n
    have hrun : Loads g a (loadBytes g.levels μ (g.phys pte a) n ++ []) mem μ := by
      refine @Loads.run g a pte _ [] mem μ μ (List.ne_nil_of_length_pos (by omega))
        (fun k hk => ?_) (fun k hk => ?_) (.done _ _)
      · rw [hlen] at hk
        rw [getPte_run hpage hk, hpte]
      · rw [hlen] at hk
        unfold Crosses at hpage
        rw [getElem_loadBytes, phys_add (by omega)]
    rw [List.append_nil] at hrun
    rw [readRun, bind_ok hpte]
    exact .done hlen hrun

theorem readAcross_ends (n : Nat) {first : BitVec 64} {half : BitVec 64 → Prog (List (BitVec 8))}
    (h : ∀ a mem, ReadEnds g a n mem (half a mem)) (hn : 0 < n)
    (hfirst : first.toNat + 2 * n = 0x1001) (linear : BitVec 64) (mem : TableMem) :
    ReadEnds g linear (2 * n) mem (readAcross g n first half linear mem) := by
  rw [readAcross]
  split_ifs with hacross
  · have hcrosses : Crosses linear (2 * n) := by
      rw [BitVec.le_def] at hacross
      unfold Crosses
      omega
    have hlo := h linear mem
    rcases hlo' : half linear mem with ⟨e | lo, μ⟩ <;> rw [hlo'] at hlo
    · cases hlo with
      | fails hk _ hlen hld herr =>
        rw [bind_error hlo']
        exact .fails (by omega) (.inr hcrosses) hlen hld herr
    · cases hlo with
      | done hlen hld =>
        rw [bind_ok hlo']
        have hhi := h (linear + BitVec.ofNat 64 n) μ
        rcases hhi' : half (linear + BitVec.ofNat 64 n) μ with ⟨e | hi, μ'⟩ <;> rw [hhi'] at hhi
        · cases hhi with
          | @fails k _ bs _ _ hk _ hlen' hld' herr =>
            rw [bind_error hhi']
            refine .fails (k := n + k) (by omega) (.inr hcrosses) ?_ (hld.append (hlen ▸ hld')) ?_
            · rw [List.length_append, hlen, hlen']
            · rwa [BitVec.ofNat_add, ← BitVec.add_assoc]
        · cases hhi with
          | done hlen' hld' =>
            rw [bind_ok hhi']
            refine .done ?_ (hld.append (hlen ▸ hld'))
            rw [List.length_append, hlen, hlen', Nat.two_mul]
  · refine readRun_ends (by omega) (fun hcrosses => hacross ?_) mem
    unfold Crosses at hcrosses
    rw [BitVec.le_def]
    omega

theorem readLinearaddrB_ends (linear : BitVec 64) (mem : TableMem) :
    ReadEnds g linear 1 mem (readLinearaddrB g linear mem) := by
  have := offset_lt linear
  refine readRun_ends (by decide) (fun hcrosses => ?_) mem
  unfold Crosses at hcrosses
  omega

theorem readLinearaddrW_ends (linear : BitVec 64) (mem : TableMem) :
    ReadEnds g linear 2 mem (readLinearaddrW g linear mem) :=
  readAcross_ends 1 readLinearaddrB_ends (by decide) (by decide) linear mem

theorem readLinearaddrL_ends (linear : BitVec 64) (mem : TableMem) :
    ReadEnds g linear 4 mem (readLinearaddrL g linear mem) :=
  readAcross_ends 2 readLinearaddrW_ends (by decide) (by decide) linear mem

theorem readLinearaddrQ_ends (linear : BitVec 64) (mem : TableMem) :
    ReadEnds g linear 8 mem (readLinearaddrQ g linear mem) :=
  readAcross_ends 4 readLinearaddrL_ends (by decide) (by decide) linear mem

/-- Accesses by linear address are those of their bytes. A write that fails leaves the bytes in
memory that lie before its failure, which are none where it does not reach into another page. The
walks leave their marks. -/
theorem linear_accesses (g : Vcpu) (linear : BitVec 64) (mem : TableMem) :
    (∀ data, WriteEnds g linear (bytesOf 2 data) mem (writeLinearaddrW g linear data mem)) ∧
      (∀ data, WriteEnds g linear (bytesOf 4 data) mem (writeLinearaddrL g linear data mem)) ∧
      (∀ data, WriteEnds g linear (bytesOf 8 data) mem (writeLinearaddrQ g linear data mem)) ∧
      ReadEnds g linear 2 mem (readLinearaddrW g linear mem) ∧
      ReadEnds g linear 4 mem (readLinearaddrL g linear mem) ∧
      ReadEnds g linear 8 mem (readLinearaddrQ g linear mem) ∧
      ∀ wr, Words g.levels TouchedFrom mem (getPte g linear wr mem).2 :=
  ⟨fun data => writeLinearaddrW_ends linear data mem,
    fun data => writeLinearaddrL_ends linear data mem,
    fun data => writeLinearaddrQ_ends linear data mem, readLinearaddrW_ends linear mem,
    readLinearaddrL_ends linear mem, readLinearaddrQ_ends linear mem,
    fun wr => getPte_touched g linear wr mem⟩

/-- A write that fails on its second page has stored its first byte. -/
theorem failing_write_stores :
    ¬ ∀ (g : Vcpu) (linear : BitVec 64) (data : BitVec 16) (mem mem' : TableMem) (e : Vmmerr),
      writeLinearaddrW g linear data mem = (.error (.err e), mem') → mem' = mem := by
  intro h
  have hfails : (writeLinearaddrW onePageVcpu 0xFFF 0xBBAA onePage).1 =
    .error (.err .pageNotPresent) := rfl
  have hsame := h onePageVcpu 0xFFF 0xBBAA onePage
    (writeLinearaddrW onePageVcpu 0xFFF 0xBBAA onePage).2 .pageNotPresent (Prod.ext hfails rfl)
  have hbyte : byteAt 2 (writeLinearaddrW onePageVcpu 0xFFF 0xBBAA onePage).2 0x5FFF = 0xAA := rfl
  rw [hsame] at hbyte
  exact absurd hbyte (by decide)

end OnDemandVirt.Vmm.Linear
