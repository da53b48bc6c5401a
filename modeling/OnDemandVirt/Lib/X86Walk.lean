import Mathlib.Data.Nat.Bitwise
import Mathlib.Logic.Function.Basic
import Mathlib.Tactic.SplitIfs

/-!
# Address translation of x86 processors

How a processor translates a linear address, by its paging mode: the entries it reads from the
topmost table down, when it faults, the page and the rights it finds, and the accessed and dirty
bits it sets on the way. Protection keys, SMEP and SMAP are left out.
-/

namespace OnDemandVirt.Lib.X86

/-- Paging off, 32-bit paging with `CR4.PSE` or without, PAE paging, and four-level paging. -/
inductive Mode
  | off
  | bits32 (pse : Bool)
  | pae
  | ia32e
  deriving DecidableEq

/-- What a translation depends on besides memory and CR3. -/
structure Cpu where
  mode : Mode
  wp : Bool
  nxe : Bool
  /-- The bits of a physical address. -/
  maxphyaddr : Nat

/-- The access that a translation is for. -/
structure Access where
  write : Bool
  user : Bool
  exec : Bool

/-- What the error code of a page fault says: no translation, a reserved bit, or a refusal. -/
inductive Fault
  | notPresent
  | reserved
  | protection
  deriving DecidableEq

/-- The rights that the entries of a walk leave: `nx` forbids execution. -/
structure Perm where
  rw : Bool
  us : Bool
  nx : Bool
  deriving DecidableEq

/-- A physical page and the rights to it. -/
structure Translation where
  page : BitVec 64
  perm : Perm
  deriving DecidableEq

/-- Physical memory by the addresses of the entries of tables. -/
abbrev Mem := BitVec 64 → BitVec 64

/-- Ones in the bits from `lo` to `hi`. -/
def bits (lo hi : Nat) : BitVec 64 := BitVec.ofNat 64 (2 ^ (hi + 1) - 2 ^ lo)

def present (e : BitVec 64) : Bool := e.getLsbD 0
def writable (e : BitVec 64) : Bool := e.getLsbD 1
def user (e : BitVec 64) : Bool := e.getLsbD 2
def large (e : BitVec 64) : Bool := e.getLsbD 7
def noExec (e : BitVec 64) : Bool := e.getLsbD 63

def accessedBit : BitVec 64 := bits 5 5
def dirtyBit : BitVec 64 := bits 6 6

/-- The levels of tables. -/
def Mode.levels : Mode → Nat
  | .off => 0
  | .bits32 _ => 2
  | .pae => 3
  | .ia32e => 4

/-- The part of a word that is an entry. -/
def Mode.word : Mode → BitVec 64 → BitVec 64
  | .bits32 _, x => x &&& bits 0 31
  | _, x => x

/-- The place of an address's entry in its table of a level, in bytes. -/
def Mode.offset : Mode → (level : Nat) → BitVec 64 → BitVec 64
  | .bits32 _, level, va => ((va >>> (2 + 10 * level)) &&& bits 0 9) <<< 2
  | .pae, 3, va => ((va >>> 30) &&& bits 0 1) <<< 3
  | _, level, va => ((va >>> (3 + 9 * level)) &&& bits 0 8) <<< 3

/-- Whether an entry of a level maps a page and not a table. -/
def Mode.leaf : Mode → (level : Nat) → BitVec 64 → Bool
  | _, 1, _ => true
  | .bits32 pse, 2, e => pse && large e
  | .pae, 2, e => large e
  | .ia32e, 2, e => large e
  | .ia32e, 3, e => large e
  | _, _, _ => false

/-- Bit 63 of an entry of 64 bits is reserved without `EFER.NXE`. -/
def nxReserved (nxe : Bool) : BitVec 64 := if nxe then 0#64 else bits 63 63

/-- The bits that have to be clear in an entry of a level. -/
def Cpu.reserved (c : Cpu) (level : Nat) (e : BitVec 64) : BitVec 64 :=
  match c.mode with
  | .off => 0#64
  | .bits32 pse =>
    -- bits 20 to 13 of a 4MB page are bits 39 to 32 of its address
    if level = 2 ∧ pse ∧ large e then bits 21 21 ||| (bits (min c.maxphyaddr 40) 39 >>> 19)
    else 0#64
  | .pae =>
    if level = 3 then bits 1 2 ||| bits 5 8 ||| bits c.maxphyaddr 63
    else bits c.maxphyaddr 62 ||| nxReserved c.nxe |||
      (if level = 2 ∧ large e then bits 13 20 else 0#64)
  | .ia32e =>
    bits c.maxphyaddr 51 ||| nxReserved c.nxe |||
      (if level = 4 then bits 7 7
      else if level = 3 ∧ large e then bits 13 29
      else if level = 2 ∧ large e then bits 13 20
      else 0#64)

/-- The table that an entry points to. -/
def tableOf (e : BitVec 64) : BitVec 64 := e &&& bits 12 51

/-- The topmost table. -/
def Mode.rootOf : Mode → BitVec 64 → BitVec 64
  | .ia32e, cr3 => cr3 &&& bits 12 51
  | .pae, cr3 => cr3 &&& bits 5 31
  | _, cr3 => cr3 &&& bits 12 31

/-- The 4KB page of an address in the page that a leaf maps. -/
def Mode.pageOf : Mode → (level : Nat) → BitVec 64 → BitVec 64 → BitVec 64
  | .bits32 _, 2, e, va => (e &&& bits 22 31) ||| ((e &&& bits 13 20) <<< 19) ||| (va &&& bits 12 21)
  | _, level, e, va => (e &&& bits (3 + 9 * level) 51) ||| (va &&& bits 12 (2 + 9 * level))

/-- The rights under one more entry. The topmost entries of PAE paging have none. -/
def Perm.under (p : Perm) (mode : Mode) (level : Nat) (e : BitVec 64) : Perm :=
  if mode = .pae ∧ level = 3 then p
  else ⟨p.rw && writable e, p.us && user e, p.nx || noExec e⟩

/-- Whether the rights refuse an access. -/
def Perm.refuses (p : Perm) (c : Cpu) (acc : Access) : Bool :=
  (acc.user && !p.us) || (acc.write && !p.rw && (c.wp || acc.user)) ||
    (acc.exec && p.nx && c.nxe)

/-- Setting bits of the entry `e` at an address, if they are not already set. -/
def setBits (mem : Mem) (a e b : BitVec 64) : Mem :=
  if e ||| b = e then mem else Function.update mem a (e ||| b)

/-- The bits that are set in an entry that is used: the topmost ones of PAE paging have none. -/
def Mode.used (mode : Mode) (level : Nat) : BitVec 64 :=
  if mode = .pae ∧ level = 3 then 0 else accessedBit

/-- The walk from the table of a level on, the rights above it being `p`. -/
def walk (c : Cpu) (acc : Access) (va : BitVec 64) :
    (level : Nat) → (table : BitVec 64) → Perm → Mem → Except Fault Translation × Mem
  | 0, _, _, mem => (.error .notPresent, mem)
  | level + 1, table, p, mem =>
    let a := table + c.mode.offset (level + 1) va
    let e := c.mode.word (mem a)
    if !present e then (.error .notPresent, mem)
    else if e &&& c.reserved (level + 1) e ≠ 0 then (.error .reserved, mem)
    else
      let p := p.under c.mode (level + 1) e
      if c.mode.leaf (level + 1) e then
        if p.refuses c acc then (.error .protection, mem)
        else (.ok ⟨c.mode.pageOf (level + 1) e va, p⟩,
          setBits mem a e (if acc.write then accessedBit ||| dirtyBit else accessedBit))
      else walk c acc va level (tableOf e) p (setBits mem a e (c.mode.used (level + 1)))

/-- The translation of a linear address, and memory after it. -/
def translate (c : Cpu) (acc : Access) (cr3 va : BitVec 64) (mem : Mem) :
    Except Fault Translation × Mem :=
  if c.mode = .off then (.ok ⟨va &&& bits 12 31, ⟨true, true, false⟩⟩, mem)
  else walk c acc va c.mode.levels (c.mode.rootOf cr3) ⟨true, true, false⟩ mem

/-! ### Bits -/

theorem getLsbD_bits (lo hi i : Nat) :
    (bits lo hi).getLsbD i = decide (lo ≤ i ∧ i ≤ hi ∧ i < 64) := by
  rw [bits, BitVec.getLsbD_ofNat]
  rcases Nat.lt_or_ge (hi + 1) lo with hlt | hge
  · rw [Nat.sub_eq_zero_of_le (Nat.pow_le_pow_right (by decide) (Nat.le_of_lt hlt)),
      Nat.zero_testBit, Bool.and_false, eq_comm, decide_eq_false_iff_not]
    omega
  · have hshift : 2 ^ (hi + 1) - 2 ^ lo = (2 ^ (hi + 1 - lo) - 1) <<< lo := by
      rw [Nat.shiftLeft_eq, Nat.sub_mul, ← Nat.pow_add, Nat.sub_add_cancel hge, Nat.one_mul]
    rw [hshift, Nat.testBit_shiftLeft, Nat.testBit_two_pow_sub_one, Bool.eq_iff_iff]
    simp only [Bool.and_eq_true, decide_eq_true_eq]
    omega

/-- Two words are the same when their bits are. -/
theorem eq_of_bits {x y : BitVec 64} (h : ∀ i < 64, x.getLsbD i = y.getLsbD i) : x = y :=
  BitVec.eq_of_getLsbD_eq h

theorem and_eq_zero_iff {x y : BitVec 64} :
    x &&& y = 0#64 ↔ ∀ i < 64, x.getLsbD i = true → y.getLsbD i = false := by
  constructor
  · intro h i hi hx
    have hbit := congrArg (fun z => z.getLsbD i) h
    simpa [hx] using hbit
  · intro h
    apply eq_of_bits
    intro i hi
    rw [BitVec.getLsbD_and, BitVec.getLsbD_zero, Bool.and_eq_false_iff]
    by_cases hx : x.getLsbD i = true
    · exact Or.inr (h i hi hx)
    · exact Or.inl (Bool.eq_false_iff.mpr hx)

/-- Testing a word with a mask of one bit. -/
theorem and_bit_ne_zero_iff {x mask : BitVec 64} {k : Nat} (hk : k < 64)
    (hmask : mask = bits k k) : x &&& mask ≠ 0#64 ↔ x.getLsbD k = true := by
  rw [ne_eq, and_eq_zero_iff, hmask]
  constructor
  · intro h
    by_contra hx
    refine h fun i hi hxi => ?_
    rw [getLsbD_bits, decide_eq_false_iff_not]
    rintro ⟨hki, hik, -⟩
    exact hx (Nat.le_antisymm hik hki ▸ hxi)
  · intro hx h
    have hbit := h k hk hx
    rw [getLsbD_bits, decide_eq_false_iff_not] at hbit
    exact hbit ⟨Nat.le_refl _, Nat.le_refl _, hk⟩

/-! ### What a translation leaves in memory -/

/-- The entries that a walk finds present, with their levels. -/
def visits (c : Cpu) (va : BitVec 64) :
    (level : Nat) → (table : BitVec 64) → Mem → List (Nat × BitVec 64)
  | 0, _, _ => []
  | level + 1, table, mem =>
    let a := table + c.mode.offset (level + 1) va
    let e := c.mode.word (mem a)
    if !present e then []
    else if e &&& c.reserved (level + 1) e ≠ 0 ∨ c.mode.leaf (level + 1) e then [(level + 1, e)]
    else (level + 1, e) ::
      visits c va level (tableOf e) (setBits mem a e (c.mode.used (level + 1)))

variable {c : Cpu} {acc : Access} {va table : BitVec 64} {mem mem' mem'' : Mem}

/-- From `mem` to `mem'` entries change by accessed and dirty bits that are set. -/
def SetsOnly (mode : Mode) (mem mem' : Mem) : Prop :=
  ∀ a, ∃ b, b &&& ~~~(accessedBit ||| dirtyBit) = 0#64 ∧
    mode.word (mem' a) = mode.word (mem a) ||| b

theorem SetsOnly.refl {mode : Mode} (mem : Mem) : SetsOnly mode mem mem :=
  fun _ => ⟨0, by decide, BitVec.or_zero.symm⟩

theorem SetsOnly.trans {mode : Mode} (h : SetsOnly mode mem mem') (h' : SetsOnly mode mem' mem'') :
    SetsOnly mode mem mem'' := by
  intro a
  obtain ⟨b, hb, hmem⟩ := h a
  obtain ⟨b', hb', hmem'⟩ := h' a
  refine ⟨b ||| b', ?_, ?_⟩
  · rw [BitVec.and_or_distrib_right, hb, hb']
    rfl
  · rw [hmem', hmem, BitVec.or_assoc]

theorem word_or (mode : Mode) (x y : BitVec 64) :
    mode.word (x ||| y) = mode.word x ||| mode.word y := by
  cases mode with
  | bits32 pse => exact BitVec.and_or_distrib_right
  | off => rfl
  | pae => rfl
  | ia32e => rfl

theorem word_word (mode : Mode) (x : BitVec 64) : mode.word (mode.word x) = mode.word x := by
  cases mode with
  | bits32 pse => exact BitVec.and_assoc _ _ _
  | off => rfl
  | pae => rfl
  | ia32e => rfl

theorem word_low (mode : Mode) {x : BitVec 64} (h : x &&& bits 0 31 = x) : mode.word x = x := by
  cases mode with
  | bits32 pse => exact h
  | off => rfl
  | pae => rfl
  | ia32e => rfl

theorem setsOnly_setBits {mode : Mode} {a e b : BitVec 64} (he : e = mode.word (mem a))
    (hb : b &&& ~~~(accessedBit ||| dirtyBit) = 0#64) (hword : mode.word b = b) :
    SetsOnly mode mem (setBits mem a e b) := by
  unfold setBits
  split_ifs
  · exact .refl mem
  · intro a'
    by_cases ha : a' = a
    · subst ha
      refine ⟨b, hb, ?_⟩
      rw [Function.update_self, word_or, hword, he, word_word]
    · refine ⟨0, by decide, ?_⟩
      rw [Function.update_of_ne ha]
      exact BitVec.or_zero.symm

/-! ### A walk that looks at the rights of each entry -/

/-- As `walk`, but the walk ends at the first entry that takes away a right that is needed. -/
def walkEarly (c : Cpu) (acc : Access) (va : BitVec 64) :
    (level : Nat) → (table : BitVec 64) → Perm → Mem → Except Fault Translation × Mem
  | 0, _, _, mem => (.error .notPresent, mem)
  | level + 1, table, p, mem =>
    let a := table + c.mode.offset (level + 1) va
    let e := c.mode.word (mem a)
    if !present e then (.error .notPresent, mem)
    else if e &&& c.reserved (level + 1) e ≠ 0 then (.error .reserved, mem)
    else
      let p := p.under c.mode (level + 1) e
      if p.refuses c acc then (.error .protection, mem)
      else if c.mode.leaf (level + 1) e then
        (.ok ⟨c.mode.pageOf (level + 1) e va, p⟩,
          setBits mem a e (if acc.write then accessedBit ||| dirtyBit else accessedBit))
      else walkEarly c acc va level (tableOf e) p (setBits mem a e (c.mode.used (level + 1)))

/-- The translation that a walk gives which looks at the rights of each entry. -/
def translateEarly (c : Cpu) (acc : Access) (cr3 va : BitVec 64) (mem : Mem) :
    Except Fault Translation × Mem :=
  if c.mode = .off then (.ok ⟨va &&& bits 12 31, ⟨true, true, false⟩⟩, mem)
  else walkEarly c acc va c.mode.levels (c.mode.rootOf cr3) ⟨true, true, false⟩ mem

/-- A right that is taken away is not given back. -/
theorem Perm.refuses_under {p : Perm} (h : p.refuses c acc = true) (level : Nat) (e : BitVec 64) :
    (p.under c.mode level e).refuses c acc = true := by
  unfold Perm.under
  split_ifs
  · exact h
  · obtain ⟨rw_, us, nx⟩ := p
    unfold Perm.refuses at *
    dsimp only at *
    generalize writable e = w, user e = u, noExec e = x, acc.write = aw, acc.user = au,
      acc.exec = ax, c.wp = wp, c.nxe = nxe at *
    grind

/-- Without the rights no walk succeeds. -/
theorem walk_of_refuses (level : Nat) (table : BitVec 64) {p : Perm} (mem : Mem)
    (h : p.refuses c acc = true) : ∃ f, (walk c acc va level table p mem).1 = .error f := by
  induction level generalizing table p mem with
  | zero => exact ⟨.notPresent, rfl⟩
  | succ level ih =>
    have hunder := Perm.refuses_under h (level + 1)
      (c.mode.word (mem (table + c.mode.offset (level + 1) va)))
    rw [walk]
    dsimp only
    split_ifs
    · exact ⟨_, rfl⟩
    · exact ⟨_, rfl⟩
    · exact ⟨_, rfl⟩
    · exact ih _ _ hunder

theorem walkEarly_spec (level : Nat) (table : BitVec 64) (p : Perm) (mem : Mem) :
    walkEarly c acc va level table p mem = walk c acc va level table p mem ∨
      (walkEarly c acc va level table p mem).1 = .error .protection ∧
        ∃ f, (walk c acc va level table p mem).1 = .error f := by
  induction level generalizing table p mem with
  | zero => exact .inl rfl
  | succ level ih =>
    rw [walk, walkEarly]
    dsimp only
    generalize c.mode.word (mem (table + c.mode.offset (level + 1) va)) = e
    by_cases hp : (!present e) = true
    · exact .inl (by rw [if_pos hp, if_pos hp])
    · rw [if_neg hp, if_neg hp]
      by_cases hres : e &&& c.reserved (level + 1) e ≠ 0
      · exact .inl (by rw [if_pos hres, if_pos hres])
      · rw [if_neg hres, if_neg hres]
        by_cases href : (p.under c.mode (level + 1) e).refuses c acc = true
        · refine .inr ⟨by rw [if_pos href], ?_⟩
          split_ifs
          · exact ⟨_, rfl⟩
          · exact walk_of_refuses _ _ _ href
        · rw [if_neg href]
          by_cases hleaf : c.mode.leaf (level + 1) e = true
          · exact .inl (by rw [if_pos hleaf, if_pos hleaf, if_neg href])
          · rw [if_neg hleaf, if_neg hleaf]
            exact ih _ _ _

/-- Looking at the rights early changes only which fault is found. -/
theorem translateEarly_spec (cr3 : BitVec 64) (mem : Mem) :
    translateEarly c acc cr3 va mem = translate c acc cr3 va mem ∨
      (translateEarly c acc cr3 va mem).1 = .error .protection ∧
        ∃ f, (translate c acc cr3 va mem).1 = .error f := by
  unfold translateEarly translate
  split_ifs
  · exact .inl rfl
  · exact walkEarly_spec _ _ _ _

/-- A walk changes tables by setting accessed and dirty bits only. -/
theorem walkEarly_setsOnly (level : Nat) (table : BitVec 64) (p : Perm) (mem : Mem) :
    SetsOnly c.mode mem (walkEarly c acc va level table p mem).2 := by
  induction level generalizing table p mem with
  | zero => exact .refl mem
  | succ level ih =>
    rw [walkEarly]
    dsimp only
    split_ifs
    · exact .refl mem
    · exact .refl mem
    · exact .refl mem
    · exact setsOnly_setBits rfl (by decide) (word_low _ (by decide))
    · exact setsOnly_setBits rfl (by decide) (word_low _ (by decide))
    · refine .trans (setsOnly_setBits rfl ?_ (word_low _ ?_)) (ih _ _ _)
      · unfold Mode.used
        split_ifs <;> decide
      · unfold Mode.used
        split_ifs <;> decide

theorem translateEarly_setsOnly (cr3 : BitVec 64) (mem : Mem) :
    SetsOnly c.mode mem (translateEarly c acc cr3 va mem).2 := by
  unfold translateEarly
  split_ifs
  · exact .refl mem
  · exact walkEarly_setsOnly _ _ _ _

end OnDemandVirt.Lib.X86
