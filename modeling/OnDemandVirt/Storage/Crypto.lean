import OnDemandVirt.Lib.Memory
import Mathlib.Logic.Function.Iterate
import Mathlib.Tactic.IntervalCases

/-!
# The ciphers of the storage handler

A cipher (`Crypto`) has two sector functions, each with what it does in memory and the function of
the sector's bytes that it computes (`SectorFn`). The two that are registered are `none`, which
copies, and `aes-xts`: the tweak is the encrypted sector number and is doubled in GF(2^128) from
one 16-byte block to the next. AES itself (`Aes`) is not part of the program and is a parameter.
-/

namespace OnDemandVirt.Storage

open Lib

/-- `lba_t`. -/
abbrev Lba := BitVec 64

/-- `STORAGE_READ` and `STORAGE_WRITE`. -/
inductive Rw
  | read
  | write
  deriving DecidableEq

/-- `AES_BLK_BYTES`. -/
abbrev aesBlkBytes : Nat := 16

/-- A sector function of a cipher: what it does in memory (`none` where an assertion fails) and
the function of bytes that this comes to, in place or from one block to another. -/
structure SectorFn (κ : Type) where
  run : κ → (dst src : Nat) → Lba → Nat → ByteMem → Option ByteMem
  bytes : κ → Lba → List (BitVec 8) → List (BitVec 8)
  length_bytes : ∀ k lba bs, aesBlkBytes ∣ bs.length → (bytes k lba bs).length = bs.length
  run_eq : ∀ k dst src lba n m, aesBlkBytes ∣ n → CopySafe dst src n →
    run k dst src lba n m = some (m.write dst (bytes k lba (m.read src n)))

/-- `struct crypto`. -/
structure Crypto : Type 1 where
  name : String
  /-- What `keyctx` points to. -/
  Keyctx : Type
  setkey : List (BitVec 8) → Nat → Keyctx
  encrypt : SectorFn Keyctx
  decrypt : SectorFn Keyctx

namespace Crypto

variable (crypto : Crypto)

/-- `(access->rw == STORAGE_READ) ? crypto->decrypt : crypto->encrypt`. -/
def crypt : Rw → SectorFn crypto.Keyctx
  | .read => crypto.decrypt
  | .write => crypto.encrypt

/-- Decrypting takes back what encrypting does, for a key context that `setkey` made. -/
def Inverts : Prop :=
  ∀ key bits lba bs, aesBlkBytes ∣ bs.length →
    crypto.decrypt.bytes (crypto.setkey key bits) lba
      (crypto.encrypt.bytes (crypto.setkey key bits) lba bs) = bs

end Crypto

/-! ### The cipher `none` -/

/-- `crypto_none_crypt`. -/
def cryptoNoneCrypt (dst src n : Nat) (m : ByteMem) : ByteMem :=
  if dst ≠ src then m.copy dst src n else m

/-- `crypto_none_encrypt` and `crypto_none_decrypt`. -/
def cryptoNoneFn : SectorFn Unit where
  run _ dst src _ n m := some (cryptoNoneCrypt dst src n m)
  bytes _ _ bs := bs
  length_bytes _ _ _ _ := rfl
  run_eq _ dst src _ n m _ _ := by
    rw [cryptoNoneCrypt]
    split
    · rfl
    · next h => rw [not_not.mp h, ByteMem.write_read_self]

/-- `crypto_none_crypto`. -/
def cryptoNone : Crypto where
  name := "none"
  Keyctx := Unit
  setkey _ _ := ()
  encrypt := cryptoNoneFn
  decrypt := cryptoNoneFn

theorem cryptoNone_inverts : cryptoNone.Inverts := fun _ _ _ _ _ => rfl

/-! ### Blocks of 16 bytes -/

/-- The little-endian quadword of eight bytes. -/
def qword (b0 b1 b2 b3 b4 b5 b6 b7 : BitVec 8) : BitVec 64 :=
  b7 ++ b6 ++ b5 ++ b4 ++ b3 ++ b2 ++ b1 ++ b0

/-- A byte of a quadword. -/
def qbyte (q : BitVec 64) (i : Nat) : BitVec 8 := q.extractLsb' (8 * i) 8

theorem qbyte_qword (b0 b1 b2 b3 b4 b5 b6 b7 : BitVec 8) : ∀ i < 8,
    qbyte (qword b0 b1 b2 b3 b4 b5 b6 b7) i = [b0, b1, b2, b3, b4, b5, b6, b7].getD i 0 := by
  intro i hi
  apply BitVec.eq_of_getLsbD_eq
  intro j hj
  interval_cases i <;>
    simp (disch := omega) only [qbyte, qword, BitVec.getLsbD_extractLsb', BitVec.getLsbD_append,
      hj, decide_true, Bool.true_and, if_pos, if_neg, List.getD_cons_zero,
      List.getD_cons_succ] <;>
    exact congrArg _ (by omega)

theorem qword_qbyte (q : BitVec 64) :
    qword (qbyte q 0) (qbyte q 1) (qbyte q 2) (qbyte q 3) (qbyte q 4) (qbyte q 5) (qbyte q 6)
      (qbyte q 7) = q := by
  apply BitVec.eq_of_getLsbD_eq
  intro j hj
  have hbyte : j < 8 ∨ (8 ≤ j ∧ j < 16) ∨ (16 ≤ j ∧ j < 24) ∨ (24 ≤ j ∧ j < 32) ∨
      (32 ≤ j ∧ j < 40) ∨ (40 ≤ j ∧ j < 48) ∨ (48 ≤ j ∧ j < 56) ∨ 56 ≤ j := by omega
  rcases hbyte with h | h | h | h | h | h | h | h <;>
    simp (disch := omega) only [qword, qbyte, BitVec.getLsbD_append, BitVec.getLsbD_extractLsb',
      if_pos, if_neg, decide_eq_true, Bool.true_and] <;>
    exact congrArg _ (by omega)

/-- A block, by its two quadwords. -/
structure Block where
  q0 : BitVec 64
  q1 : BitVec 64
  deriving DecidableEq

namespace Block

/-- The block that 16 bytes hold. -/
def ofBytes : List (BitVec 8) → Block
  | b0 :: b1 :: b2 :: b3 :: b4 :: b5 :: b6 :: b7 ::
      c0 :: c1 :: c2 :: c3 :: c4 :: c5 :: c6 :: c7 :: _ =>
    ⟨qword b0 b1 b2 b3 b4 b5 b6 b7, qword c0 c1 c2 c3 c4 c5 c6 c7⟩
  | _ => ⟨0, 0⟩

/-- The bytes of a block. -/
def toBytes (b : Block) : List (BitVec 8) :=
  [qbyte b.q0 0, qbyte b.q0 1, qbyte b.q0 2, qbyte b.q0 3, qbyte b.q0 4, qbyte b.q0 5,
    qbyte b.q0 6, qbyte b.q0 7, qbyte b.q1 0, qbyte b.q1 1, qbyte b.q1 2, qbyte b.q1 3,
    qbyte b.q1 4, qbyte b.q1 5, qbyte b.q1 6, qbyte b.q1 7]

@[simp] theorem length_toBytes (b : Block) : b.toBytes.length = aesBlkBytes := rfl

@[simp] theorem ofBytes_toBytes (b : Block) : ofBytes b.toBytes = b := by
  rw [toBytes, ofBytes, qword_qbyte, qword_qbyte]

theorem toBytes_ofBytes {bs : List (BitVec 8)} (h : bs.length = aesBlkBytes) :
    (ofBytes bs).toBytes = bs := by
  match bs, h with
  | [b0, b1, b2, b3, b4, b5, b6, b7, c0, c1, c2, c3, c4, c5, c6, c7], _ =>
    simp only [ofBytes, toBytes]
    simp (disch := omega) only [qbyte_qword, List.getD_cons_zero, List.getD_cons_succ]

end Block

/-- A block of memory, through a pointer to it. -/
def load128 (m : ByteMem) (a : Nat) : Block := .ofBytes (m.read a aesBlkBytes)

def store128 (m : ByteMem) (a : Nat) (b : Block) : ByteMem := m.write a b.toBytes

@[simp] theorem load128_store128 (m : ByteMem) (a : Nat) (b : Block) :
    load128 (store128 m a b) a = b := by
  rw [load128, store128, ← b.length_toBytes, ByteMem.read_write_self, Block.ofBytes_toBytes]

@[simp] theorem store128_store128 (m : ByteMem) (a : Nat) (b c : Block) :
    store128 (store128 m a b) a c = store128 m a c :=
  ByteMem.write_write_self _ _ _ _ rfl

/-! ### The cipher `aes-xts` -/

/-- The AES library: key schedules and the two block functions. -/
structure Aes where
  EncKey : Type
  DecKey : Type
  /-- `AES_ENC_SETKEY`. -/
  setEncKey : List (BitVec 8) → Nat → EncKey
  /-- `AES_DEC_SETKEY`. -/
  setDecKey : List (BitVec 8) → Nat → DecKey
  /-- `AES_ENC_FUNC`. -/
  encrypt : EncKey → Block → Block
  /-- `AES_DEC_FUNC`. -/
  decrypt : DecKey → Block → Block

/-- `xor128`. -/
def xor128 (s1 s2 : Block) : Block := ⟨s1.q0 ^^^ s2.q0, s1.q1 ^^^ s2.q1⟩

/-- `movzx128`. -/
def movzx128 (src : BitVec 64) : Block := ⟨src, 0⟩

/-- `shl128`, with the carry that it returns. -/
def shl128 (s : Block) : Block × Bool :=
  let c0 : BitVec 64 := if s.q0 &&& (1#64 <<< 63) ≠ 0 then 1 else 0
  let c1 := decide (s.q1 &&& (1#64 <<< 63) ≠ 0)
  (⟨s.q0 <<< 1, s.q1 <<< 1 ||| c0⟩, c1)

/-- `gf_mul128`. The first byte of a block is the low byte of its first quadword. -/
def gfMul128 (src : Block) : Block :=
  let (dst, carry) := shl128 src
  if carry then { dst with q0 := dst.q0 ^^^ 0x87 } else dst

@[simp] theorem xor128_xor128_cancel (a t : Block) : xor128 (xor128 a t) t = a := by
  simp [xor128, BitVec.xor_assoc]

/-- One pass of the loop of `aes_xts_crypt`: three operations on the block at `dst`. -/
def aesXtsBlock (crypt : Block → Block) (tweak : Block) (dst src : Nat) (m : ByteMem) : ByteMem :=
  let m := store128 m dst (xor128 (load128 m src) tweak)
  let m := store128 m dst (crypt (load128 m dst))
  store128 m dst (xor128 (load128 m dst) tweak)

/-- The loop of `aes_xts_crypt`, for the blocks that are left. -/
def aesXtsLoop (crypt : Block → Block) : Nat → (tweak : Block) → (dst src : Nat) → ByteMem → ByteMem
  | 0, _, _, _, m => m
  | i + 1, tweak, dst, src, m =>
    aesXtsLoop crypt i (gfMul128 tweak) (dst + aesBlkBytes) (src + aesBlkBytes)
      (aesXtsBlock crypt tweak dst src m)

/-- `aes_xts_crypt`, for the tweak function of the tweak key. -/
def aesXtsCrypt (crypt tweak : Block → Block) (dst src : Nat) (lba : Lba) (sectorSize : Nat)
    (m : ByteMem) : Option ByteMem :=
  if sectorSize % aesBlkBytes = 0 then
    some (aesXtsLoop crypt (sectorSize / aesBlkBytes) (tweak (movzx128 lba)) dst src m)
  else none

/-- The bytes of a block under the tweak `p` doublings after `t`. -/
def xtsBytes (crypt : Block → Block) (t : Block) (p : Nat) (bs : List (BitVec 8)) :
    List (BitVec 8) :=
  (xor128 (crypt (xor128 (.ofBytes bs) (gfMul128^[p] t))) (gfMul128^[p] t)).toBytes

theorem keepsChunks_xtsBytes (crypt : Block → Block) (t : Block) :
    KeepsChunks aesBlkBytes (xtsBytes crypt t) := fun _ _ _ => rfl

theorem aesXtsLoop_eq_eachChunk (crypt : Block → Block) (t : Block) (n p dst src : Nat)
    (m : ByteMem) : aesXtsLoop crypt n (gfMul128^[p] t) dst src m =
      eachChunk aesBlkBytes (xtsBytes crypt t) p n dst src m := by
  induction n generalizing p dst src m with
  | zero => rfl
  | succ n ih =>
    have hpass : aesXtsBlock crypt (gfMul128^[p] t) dst src m =
        m.write dst (xtsBytes crypt t p (m.read src aesBlkBytes)) := by
      simp only [aesXtsBlock, load128_store128, store128_store128]
      rfl
    rw [aesXtsLoop, eachChunk, hpass, ← Function.iterate_succ_apply' gfMul128, ih]

/-- A sector of `aes_xts_crypt` as a function of its bytes. -/
def aesXtsBytes (crypt tweak : Block → Block) (lba : Lba) (bs : List (BitVec 8)) :
    List (BitVec 8) :=
  mapChunks aesBlkBytes (xtsBytes crypt (tweak (movzx128 lba))) 0 (bs.length / aesBlkBytes) bs

theorem length_aesXtsBytes (crypt tweak : Block → Block) (lba : Lba) {bs : List (BitVec 8)}
    (h : aesBlkBytes ∣ bs.length) : (aesXtsBytes crypt tweak lba bs).length = bs.length := by
  have hlen : bs.length = bs.length / aesBlkBytes * aesBlkBytes := (Nat.div_mul_cancel h).symm
  rw [aesXtsBytes, length_mapChunks (keepsChunks_xtsBytes _ _) hlen, ← hlen]

theorem aesXtsCrypt_eq (crypt tweak : Block → Block) (dst src : Nat) (lba : Lba) (n : Nat)
    (m : ByteMem) (hn : aesBlkBytes ∣ n) (hsafe : CopySafe dst src n) :
    aesXtsCrypt crypt tweak dst src lba n m =
      some (m.write dst (aesXtsBytes crypt tweak lba (m.read src n))) := by
  have hdiv : n / aesBlkBytes * aesBlkBytes = n := Nat.div_mul_cancel hn
  rw [aesXtsCrypt, if_pos (Nat.mod_eq_zero_of_dvd hn), aesXtsBytes, ByteMem.length_read]
  conv_rhs => rw [← hdiv]
  rw [← hdiv] at hsafe
  have hloop := aesXtsLoop_eq_eachChunk crypt (tweak (movzx128 lba)) (n / aesBlkBytes) 0 dst src m
  rw [Function.iterate_zero, id_eq] at hloop
  rw [hloop, eachChunk_eq_write (keepsChunks_xtsBytes _ _) m hsafe,
    Nat.mul_div_cancel _ (by decide : 0 < aesBlkBytes)]

/-- The sector function of a key context. -/
def aesXtsFn {κ : Type} (crypt tweak : κ → Block → Block) : SectorFn κ where
  run k dst src lba n m := aesXtsCrypt (crypt k) (tweak k) dst src lba n m
  bytes k lba bs := aesXtsBytes (crypt k) (tweak k) lba bs
  length_bytes _ _ _ h := length_aesXtsBytes _ _ _ h
  run_eq _ dst src lba n m hn hsafe := aesXtsCrypt_eq _ _ dst src lba n m hn hsafe

/-- Two sector functions with one tweak take each other back where their block functions do. -/
theorem aesXtsBytes_cancel {enc dec tweak : Block → Block} (h : ∀ b, dec (enc b) = b) (lba : Lba)
    {bs : List (BitVec 8)} (hlen : aesBlkBytes ∣ bs.length) :
    aesXtsBytes dec tweak lba (aesXtsBytes enc tweak lba bs) = bs := by
  have hblocks : bs.length = bs.length / aesBlkBytes * aesBlkBytes := (Nat.div_mul_cancel hlen).symm
  rw [aesXtsBytes, length_aesXtsBytes _ _ _ hlen, aesXtsBytes]
  refine mapChunks_mapChunks_cancel (keepsChunks_xtsBytes _ _) (fun p cs hcs => ?_) hblocks
  rw [xtsBytes, xtsBytes, Block.ofBytes_toBytes, xor128_xor128_cancel, h, xor128_xor128_cancel,
    Block.toBytes_ofBytes hcs]

namespace Aes

variable (aes : Aes)

/-- `struct aes_xts_keyctx`. -/
structure XtsKeyctx where
  encryptTweakKey : aes.EncKey
  encryptKey : aes.EncKey
  decryptTweakKey : aes.EncKey
  decryptKey : aes.DecKey

/-- `aes_xts_setkey`. -/
def xtsSetkey (key : List (BitVec 8)) (bits : Nat) : aes.XtsKeyctx :=
  let keybit := bits / 2
  let keylen := keybit / 8
  { encryptTweakKey := aes.setEncKey (key.drop keylen) keybit
    encryptKey := aes.setEncKey key keybit
    decryptTweakKey := aes.setEncKey (key.drop keylen) keybit
    decryptKey := aes.setDecKey key keybit }

/-- `aes_xts_crypto`. -/
def xtsCrypto : Crypto where
  name := "aes-xts"
  Keyctx := aes.XtsKeyctx
  setkey := aes.xtsSetkey
  encrypt := aesXtsFn (fun k => aes.encrypt k.encryptKey) (fun k => aes.encrypt k.encryptTweakKey)
  decrypt := aesXtsFn (fun k => aes.decrypt k.decryptKey) (fun k => aes.encrypt k.decryptTweakKey)

/-- AES decryption takes back AES encryption under the same key. -/
def Inverts : Prop :=
  ∀ key bits b, aes.decrypt (aes.setDecKey key bits) (aes.encrypt (aes.setEncKey key bits) b) = b

variable {aes}

theorem Inverts.xtsCrypto (h : aes.Inverts) : aes.xtsCrypto.Inverts := fun key bits lba _ hlen =>
  aesXtsBytes_cancel (fun b => h key (bits / 2) b) lba hlen

variable (aes) in
/-- `crypto_list` after `crypto_init`. -/
def cryptoList : List Crypto := [cryptoNone, aes.xtsCrypto]

theorem Inverts.cryptoList (h : aes.Inverts) : ∀ crypto ∈ aes.cryptoList, crypto.Inverts := by
  intro crypto hmem
  rcases List.mem_pair.mp hmem with rfl | rfl
  · exact cryptoNone_inverts
  · exact h.xtsCrypto

end Aes

/-- `crypto_find`. -/
def cryptoFind (cryptoList : List Crypto) (name : String) : Option Crypto :=
  cryptoList.find? fun crypto => crypto.name == name

end OnDemandVirt.Storage
