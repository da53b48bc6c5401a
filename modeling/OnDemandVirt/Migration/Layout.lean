import Mathlib.Data.Nat.Bitwise
import Mathlib.Tactic.NormNum
import OnDemandVirt.Lib.BitWords

/-!
# The memory layout both sides of a migration agree on

The machine being migrated (the client) and the one it is migrated to (the server) each hold the
list of usable memory areas, the client also the parts of them that are whole 32KB migration
units and the margins that are not, and the server's EPT code a fourth list, which decides which
faults are answered by the client. Both sides record the units they have sent or received in a
bit array indexed by guest-physical address.
-/

namespace OnDemandVirt.Migration

open Lib

/-! ### Constants -/

/-- `SEND_SIZE` and `SIZE_SENDBUF_DATA`: the memory bytes of one message. -/
abbrev sizeSendbufData : Nat := 1024

/-- `SIZE_OF_SENDBUF`: a message with its 24 bytes of metadata. -/
abbrev sizeOfSendbuf : Nat := 1048

/-- `BATCH_SIZE`: messages in a migration unit. -/
abbrev batchSize : Nat := 32

/-- `ADDR_OFFSET`, `1 << MIG_UNIT`: bytes in a migration unit. -/
abbrev addrOffset : Nat := 0x8000

/-- `BITARRAY`: words in the bit array, `(1 << (34 - MIG_UNIT - 6)) + 1024`. -/
abbrev bitarrayWords : Nat := 9216

/-- The address that ends the enumeration of units. -/
abbrev endOfMemory : Nat := 0xffffffffffffffff

/-! ### The tables -/

/-- `struct mem_area`: an inclusive address range. -/
structure MemArea where
  startAddr : Nat
  endAddr : Nat
  le : startAddr ≤ endAddr := by decide

/-- The area holds the address. -/
def MemArea.Holds (a : MemArea) (addr : Nat) : Prop := a.startAddr ≤ addr ∧ addr ≤ a.endAddr

instance (a : MemArea) (addr : Nat) : Decidable (a.Holds addr) :=
  inferInstanceAs (Decidable (_ ∧ _))

/-- `usable_mem_list`, the same in `echo-client.c` and in `echo-server.c`. -/
def usableMemList : List MemArea :=
  [⟨0x0, 0x9c6f9, by decide⟩, ⟨0x100000, 0x3fffffff, by decide⟩,
    ⟨0x60000000, 0x7e7fffff, by decide⟩, ⟨0x86b47000, 0x86b9bfff, by decide⟩,
    ⟨0x86fbf000, 0x86fd4fff, by decide⟩, ⟨0x87fcd000, 0x87ffffff, by decide⟩,
    ⟨0x100000000, 0x4767fffff, by decide⟩]

/-- `usable_mem_list_gran`: the whole units of `usable_mem_list`. -/
def usableMemListGran : List MemArea :=
  [⟨0x0, 0x97fff, by decide⟩, ⟨0x100000, 0x3fffffff, by decide⟩,
    ⟨0x60000000, 0x7e7fffff, by decide⟩, ⟨0x86b48000, 0x86b97fff, by decide⟩,
    ⟨0x86fc0000, 0x86fcffff, by decide⟩, ⟨0x87fd0000, 0x87ffffff, by decide⟩,
    ⟨0x100000000, 0x4767fffff, by decide⟩]

/-- `margin_list`: the rest of `usable_mem_list`, the last entry being smaller than 1KB. -/
def marginList : List MemArea :=
  [⟨0x98000, 0x9c3ff, by decide⟩, ⟨0x86b47000, 0x86b47fff, by decide⟩,
    ⟨0x86b98000, 0x86b9bfff, by decide⟩, ⟨0x86fbf000, 0x86fbffff, by decide⟩,
    ⟨0x86fd0000, 0x86fd4fff, by decide⟩, ⟨0x87fcd000, 0x87fcffff, by decide⟩,
    ⟨0x9c400, 0x9c6f9, by decide⟩]

/-- `usable_mem_list` of `vt_ept.c`. -/
def eptUsableMemList : List MemArea :=
  [⟨0x0, 0x9ffff, by decide⟩, ⟨0xe0000, 0x3fffffff, by decide⟩,
    ⟨0x60000000, 0x7e7fffff, by decide⟩, ⟨0x86b35000, 0x879bffff, by decide⟩,
    ⟨0x87fcd000, 0x87ffffff, by decide⟩, ⟨0xff000000, 0xffffffff, by decide⟩,
    ⟨0x100000000, 0x4767fffff, by decide⟩]

/-- The area `i` of a list. -/
def areaAt (l : List MemArea) (i : Nat) : MemArea := (l[i]?).getD ⟨0, 0, le_rfl⟩

/-- `usable_mem_list[i].start_addr`. -/
def areaStart (i : Nat) : Nat := (areaAt usableMemList i).startAddr

/-- `usable_mem_list[i].end_addr`. -/
def areaEnd (i : Nat) : Nat := (areaAt usableMemList i).endAddr

/-- `usable_mem_list_gran[i].start_addr`. -/
def granStart (i : Nat) : Nat := (areaAt usableMemListGran i).startAddr

/-- `usable_mem_list_gran[i].end_addr`. -/
def granEnd (i : Nat) : Nat := (areaAt usableMemListGran i).endAddr

/-! ### Units and the bit array -/

/-- `addr & REQUEST_MASK`: the start of the unit that holds the address. -/
def requestMask (addr : Nat) : Nat := addr &&& 0xffffffffffff8000

/-- `get_bitarray`. -/
def getBitarray (bits : Nat → BitVec 64) (gphys : Nat) : Bool :=
  BitWords.test bits (gphys >>> 21) ((gphys >>> 15) &&& 0x3f)

/-- `set_bitarray`, whose word index is an `unsigned int`. -/
def setBitarray (bits : Nat → BitVec 64) (gphys : Nat) : Nat → BitVec 64 :=
  BitWords.set bits ((gphys >>> 21) % 2 ^ 32) ((gphys >>> 15) &&& 0x3f)

/-! ### The functions over the tables -/

/-- `vt_migration_range`: the faults the server sends to the client. -/
def vtMigrationRange (gphys : Nat) : Bool :=
  eptUsableMemList.any fun a => decide (a.Holds gphys)

/-- The comparisons of `set_mem_area_num` and `select_mem_area`: the last area from its start on,
otherwise the first of the areas 0 to 4 that does not end below the address, otherwise 5. -/
def memAreaNum (addr : Nat) : Nat :=
  if areaStart 6 ≤ addr then 6
  else if addr ≤ areaEnd 0 then 0
  else if addr ≤ areaEnd 1 then 1
  else if addr ≤ areaEnd 2 then 2
  else if addr ≤ areaEnd 3 then 3
  else if addr ≤ areaEnd 4 then 4
  else 5

/-- `set_mem_area_num` of the server, on the address of a received message. -/
def setMemAreaNum (recvedAddr : Nat) : Nat := memAreaNum recvedAddr

/-- `select_mem_area` of the client, on the requested address: the area, the start of the
requested unit and its offset in the area, `requested_addr - usable_mem_list[..].start_addr` as
a `u64`. -/
def selectMemArea (requestedAddr : Nat) : Nat × Nat × Nat :=
  let num := memAreaNum requestedAddr
  let addr := requestMask requestedAddr
  (num, addr, (addr + 2 ^ 64 - areaStart num) % 2 ^ 64)

/-- `get_next_addr`: the next unit of `usable_mem_list_gran`. -/
def getNextAddr (startAddr : Nat) : Nat :=
  let startAddr := startAddr + addrOffset
  if startAddr = granEnd 0 + 1 then granStart 1
  else if startAddr = granEnd 1 + 1 then granStart 2
  else if startAddr = granEnd 2 + 1 then granStart 3
  else if startAddr = granEnd 3 + 1 then granStart 4
  else if startAddr = granEnd 4 + 1 then granStart 5
  else if startAddr = granEnd 5 + 1 then granStart 6
  else if startAddr = granEnd 6 + 1 then endOfMemory
  else startAddr

/-! ### Lemmas -/

theorem memAreaNum_eq (addr : Nat) : memAreaNum addr =
    if 0x100000000 ≤ addr then 6
    else if addr ≤ 0x9c6f9 then 0
    else if addr ≤ 0x3fffffff then 1
    else if addr ≤ 0x7e7fffff then 2
    else if addr ≤ 0x86b9bfff then 3
    else if addr ≤ 0x86fd4fff then 4
    else 5 := rfl

theorem getNextAddr_eq (a : Nat) : getNextAddr a =
    if a + 0x8000 = 0x98000 then 0x100000
    else if a + 0x8000 = 0x40000000 then 0x60000000
    else if a + 0x8000 = 0x7e800000 then 0x86b48000
    else if a + 0x8000 = 0x86b98000 then 0x86fc0000
    else if a + 0x8000 = 0x86fd0000 then 0x87fd0000
    else if a + 0x8000 = 0x88000000 then 0x100000000
    else if a + 0x8000 = 0x476800000 then endOfMemory
    else a + 0x8000 := rfl

theorem requestMask_eq (addr : Nat) (h : addr < 2 ^ 64) : requestMask addr = addr / 0x8000 * 0x8000 := by
  apply Nat.eq_of_testBit_eq
  intro i
  rw [requestMask, Nat.testBit_and, show (0xffffffffffff8000 : Nat) = 2 ^ 64 - (0x7fff + 1) by norm_num,
    Nat.testBit_two_pow_sub_succ (by norm_num), show (0x8000 : Nat) = 2 ^ 15 by norm_num,
    show (0x7fff : Nat) = 2 ^ 15 - 1 by norm_num, Nat.testBit_two_pow_sub_one,
    Nat.testBit_mul_two_pow, Nat.testBit_div_two_pow]
  by_cases hi : 15 ≤ i
  · by_cases h64 : i < 64
    · simp [hi, h64, show ¬ i < 15 by omega, show i - 15 + 15 = i by omega]
    · have : addr.testBit i = false :=
        Nat.testBit_lt_two_pow (lt_of_lt_of_le h (Nat.pow_le_pow_right (by norm_num) (by omega)))
      simp [this, hi, show i - 15 + 15 = i by omega]
  · simp [hi, show i < 15 by omega]

theorem bit_index (gphys : Nat) : (gphys >>> 15) &&& 0x3f = gphys / 0x8000 % 64 := by
  rw [Nat.shiftRight_eq_div_pow, show (0x3f : Nat) = 2 ^ 6 - 1 by norm_num,
    Nat.and_two_pow_sub_one_eq_mod]

theorem word_index (gphys : Nat) : gphys >>> 21 = gphys / 0x8000 / 64 := by
  rw [Nat.shiftRight_eq_div_pow, Nat.div_div_eq_div_mul]

theorem getBitarray_zero (gphys : Nat) : getBitarray (fun _ => 0) gphys = false := by
  rw [getBitarray, bit_index]
  exact BitWords.test_zero _ _ (Nat.mod_lt _ (by norm_num))

/-- Setting the bit of one unit leaves the bits of the others as they are. -/
theorem getBitarray_set (bits : Nat → BitVec 64) (a b : Nat) (ha : a < 2 ^ 53) :
    getBitarray (setBitarray bits a) b =
      (decide (b / 0x8000 = a / 0x8000) || getBitarray bits b) := by
  have hmod : a / 0x8000 / 64 % 2 ^ 32 = a / 0x8000 / 64 := Nat.mod_eq_of_lt (by omega)
  rw [getBitarray, getBitarray, setBitarray, word_index, word_index, bit_index, bit_index, hmod,
    BitWords.test_set _ _ _ _ _ (Nat.mod_lt _ (by norm_num)) (Nat.mod_lt _ (by norm_num))]
  congr 1
  rw [decide_eq_decide]
  omega

theorem getBitarray_set_mono {bits : Nat → BitVec 64} {b : Nat} (a : Nat)
    (h : getBitarray bits b = true) : getBitarray (setBitarray bits a) b = true := by
  rw [getBitarray, bit_index] at h ⊢
  rw [setBitarray, bit_index,
    BitWords.test_set _ _ _ _ _ (Nat.mod_lt _ (by norm_num)) (Nat.mod_lt _ (by norm_num)), h,
    Bool.or_true]

/-- The bit of a unit is the bit of each of its addresses. -/
theorem getBitarray_unit (bits : Nat → BitVec 64) {a b : Nat} (h : a / 0x8000 = b / 0x8000) :
    getBitarray bits a = getBitarray bits b := by
  rw [getBitarray, getBitarray, word_index, word_index, bit_index, bit_index, h]

theorem vtMigrationRange_iff (g : Nat) : vtMigrationRange g = true ↔
    g ≤ 0x9ffff ∨ (0xe0000 ≤ g ∧ g ≤ 0x3fffffff) ∨ (0x60000000 ≤ g ∧ g ≤ 0x7e7fffff) ∨
      (0x86b35000 ≤ g ∧ g ≤ 0x879bffff) ∨ (0x87fcd000 ≤ g ∧ g ≤ 0x87ffffff) ∨
      (0xff000000 ≤ g ∧ g ≤ 0xffffffff) ∨ (0x100000000 ≤ g ∧ g ≤ 0x4767fffff) := by
  simp only [vtMigrationRange, eptUsableMemList, List.any_cons, List.any_nil, Bool.or_eq_true,
    decide_eq_true_eq, Bool.false_eq_true, or_false]
  simp only [MemArea.Holds, Nat.zero_le, true_and]

theorem vtMigrationRange_lt {g : Nat} (h : vtMigrationRange g = true) : g < 2 ^ 35 := by
  rw [vtMigrationRange_iff] at h
  omega

end OnDemandVirt.Migration
