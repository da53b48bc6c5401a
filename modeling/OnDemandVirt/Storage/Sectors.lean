import OnDemandVirt.Storage.Crypto

/-!
# `storage_handle_sectors`

One forward pass over the key table: up to the low end of an entry the sectors are copied, up to
its high end they go through the entry's cipher, in chunks of at most 65535 sectors, and what is
left after the last entry is copied. The pass comes to one function for each sector
(`sectorBytes`), which looks at the first entry of the table that starts above the sector or does
not end below it (`governing`): `storageHandleSectors_eq`.
-/

namespace OnDemandVirt.Storage

open Lib

/-- `lba_low` and `lba_high` of `struct storage_keys`. -/
structure LbaRange where
  lbaLow : Lba
  lbaHigh : Lba
  deriving DecidableEq

/-- `struct storage_keys`. -/
structure StorageKeys where
  range : LbaRange
  crypto : Crypto
  keyctx : crypto.Keyctx

/-- `struct storage_access`. -/
structure StorageAccess where
  lba : Lba
  count : Nat
  sectorSize : Nat
  rw : Rw

/-- A request as the callers make them: the sector size is a number of cipher blocks (which
`aes_xts_crypt` asserts) and an `int`, and the bytes of the request can be counted in the 32 bits
that a caller has for the length of its buffer. -/
structure StorageAccess.Sized (access : StorageAccess) : Prop where
  blocks : aesBlkBytes ∣ access.sectorSize
  int : access.sectorSize < 2 ^ 31
  fits : access.count * access.sectorSize < 2 ^ 32

/-! ### The key table -/

/-- What the configuration says of one entry of the table, as far as it is used here. -/
structure StorageKeysConf where
  lbaLow : Lba
  lbaHigh : Lba
  cryptoName : String
  keyindex : Nat
  keybits : Nat
  deriving DecidableEq

/-- `storage_set_keys`, for the entries `selects` that match the device (`storage_match_guid`,
`storage_match_busid` and `storage_match_extend`); `none` is the panic on an unknown cipher. -/
def storageSetKeys (cryptoList : List Crypto) (keys : Nat → List (BitVec 8))
    (selects : StorageKeysConf → Bool) : List StorageKeysConf → Option (List StorageKeys)
  | [] => some []
  | conf :: confs =>
    if !selects conf then storageSetKeys cryptoList keys selects confs
    else do
      let crypto ← cryptoFind cryptoList conf.cryptoName
      let rest ← storageSetKeys cryptoList keys selects confs
      some (⟨⟨conf.lbaLow, conf.lbaHigh⟩, crypto,
        crypto.setkey (keys conf.keyindex) conf.keybits⟩ :: rest)

/-! ### The pass -/

/-- The variables `lba`, `src` and `dst`, and the memory. -/
structure Cursor where
  lba : Lba
  src : Nat
  dst : Nat
  mem : ByteMem

/-- "If lba < low then memcpy", with `count`. -/
def copyBelow (low : Lba) (sectorSize : Nat) (count : Nat) (c : Cursor) : Nat × Cursor :=
  if h : 0 < count ∧ c.lba < low then
    let subCount2 := (low - c.lba).toNat
    let subCount := min count (if subCount2 > 65535 then 65535 else subCount2)
    let size := subCount * sectorSize % 2 ^ 32
    copyBelow low sectorSize (count - subCount)
      { lba := c.lba + BitVec.ofNat 64 subCount
        src := c.src + size
        dst := c.dst + size
        mem := if c.dst ≠ c.src then c.mem.copy c.dst c.src size else c.mem }
  else (count, c)
termination_by count
decreasing_by
  have : 0 < (low - c.lba).toNat := by bv_omega
  split <;> omega

/-- `while (sub_count-- > 0)`. -/
def cryptSectors (crypt : Nat → Nat → Lba → ByteMem → Option ByteMem) (sectorSize : Nat) :
    Nat → Cursor → Option Cursor
  | 0, c => some c
  | subCount + 1, c => do
    let mem ← crypt c.dst c.src c.lba c.mem
    cryptSectors crypt sectorSize subCount
      { lba := c.lba + 1, src := c.src + sectorSize, dst := c.dst + sectorSize, mem := mem }

/-- "If low <= lba <= high then crypt", with `count`. -/
def cryptUpTo (high : Lba) (crypt : Nat → Nat → Lba → ByteMem → Option ByteMem)
    (sectorSize : Nat) (count : Nat) (c : Cursor) : Option (Nat × Cursor) :=
  if 0 < count ∧ c.lba ≤ high then
    let subCount2 := (high - c.lba).toNat
    let subCount := min count (if subCount2 ≥ 65535 then 65535 else subCount2 + 1)
    (cryptSectors crypt sectorSize subCount c).bind
      (cryptUpTo high crypt sectorSize (count - subCount))
  else some (count, c)
termination_by count
decreasing_by
  split <;> omega

/-- The loop over the entries of the table. -/
def handleKeys (access : StorageAccess) :
    List StorageKeys → (count : Nat) → Cursor → Option (Nat × Cursor)
  | [], count, c => some (count, c)
  | key :: keys, count, c =>
    if 0 < count then
      let (count, c) := copyBelow key.range.lbaLow access.sectorSize count c
      let crypt dst src lba mem :=
        (key.crypto.crypt access.rw).run key.keyctx dst src lba access.sectorSize mem
      (cryptUpTo key.range.lbaHigh crypt access.sectorSize count c).bind fun (count, c) =>
        handleKeys access keys count c
    else some (count, c)

/-- `storage_handle_sectors`. -/
def storageHandleSectors (keys : List StorageKeys) (access : StorageAccess) (src dst : Nat)
    (mem : ByteMem) : Option ByteMem :=
  (handleKeys access keys access.count ⟨access.lba, src, dst, mem⟩).map fun (count, c) =>
    if 0 < count ∧ c.dst ≠ c.src then
      c.mem.copy c.dst c.src (count * access.sectorSize % 2 ^ 32)
    else c.mem

/-! ### What the pass does to one sector -/

/-- The pass leaves the entry only with the end of the request or above its high end; an entry
that goes up to the last 64-bit address is never left. -/
def LbaRange.Holds (r : LbaRange) (p : Nat) : Prop :=
  p < r.lbaLow.toNat ∨ p ≤ r.lbaHigh.toNat ∨ r.lbaHigh = BitVec.allOnes 64

instance (r : LbaRange) (p : Nat) : Decidable (r.Holds p) :=
  inferInstanceAs (Decidable (_ ∨ _ ∨ _))

/-- The entry at which the pass comes to the sector `p` (counted on from the request's first
address without wrapping): the first that starts above it or does not end below it. -/
def governing (keys : List StorageKeys) (p : Nat) : Option StorageKeys :=
  keys.find? fun key => key.range.Holds p

/-- What becomes of the bytes of the sector `p`. -/
def sectorBytes (keys : List StorageKeys) (rw : Rw) (p : Nat) (bs : List (BitVec 8)) :
    List (BitVec 8) :=
  match governing keys p with
  | some key =>
    if key.range.lbaLow.toNat ≤ p then
      (key.crypto.crypt rw).bytes key.keyctx (BitVec.ofNat 64 p) bs
    else bs
  | none => bs

theorem keepsChunks_sectorBytes (keys : List StorageKeys) {w : Nat} (hw : aesBlkBytes ∣ w)
    (rw' : Rw) : KeepsChunks w (sectorBytes keys rw') := by
  intro p bs hbs
  rw [sectorBytes]
  split
  · split
    · rw [(_ : SectorFn _).length_bytes _ _ _ (hbs ▸ hw), hbs]
    · exact hbs
  · exact hbs

/-- The cursor `n` sectors on, the sectors from `p` on treated with `F`. -/
def Cursor.after (c : Cursor) (w : Nat) (F : Nat → List (BitVec 8) → List (BitVec 8))
    (p n : Nat) : Cursor where
  lba := BitVec.ofNat 64 (p + n)
  src := c.src + n * w
  dst := c.dst + n * w
  mem := eachChunk w F p n c.dst c.src c.mem

variable {w : Nat} {F G : Nat → List (BitVec 8) → List (BitVec 8)} {c : Cursor} {p n k : Nat}

theorem Cursor.after_zero (hp : c.lba = BitVec.ofNat 64 p) : c.after w F p 0 = c := by
  obtain ⟨lba, src, dst, mem⟩ := c
  simp only at hp
  simp [Cursor.after, eachChunk, hp]

theorem Cursor.after_add : (c.after w F p n).after w F (p + n) k = c.after w F p (n + k) := by
  simp only [Cursor.after, eachChunk_add, Nat.add_mul, Nat.add_assoc]

theorem Cursor.after_congr (h : ∀ q, p ≤ q → q < p + n → F q = G q) :
    c.after w F p n = c.after w G p n := by
  simp only [Cursor.after, eachChunk_congr h]

/-! ### The two loops of an entry -/

theorem toNat_ofNat_of_lt (hp : p < 2 ^ 64) : (BitVec.ofNat 64 p).toNat = p :=
  Nat.mod_eq_of_lt hp

/-- Copying some sectors, the `size` of which fits its 32 bits. -/
theorem copied_eq_after (hp : c.lba = BitVec.ofNat 64 p) (hfits : n * w < 2 ^ 32)
    (hsafe : CopySafe c.dst c.src (n * w)) :
    ({ lba := c.lba + BitVec.ofNat 64 n
       src := c.src + n * w % 2 ^ 32
       dst := c.dst + n * w % 2 ^ 32
       mem := if c.dst ≠ c.src then c.mem.copy c.dst c.src (n * w % 2 ^ 32) else c.mem } : Cursor)
      = c.after w (fun _ bs => bs) p n := by
  have hmem : (if c.dst ≠ c.src then c.mem.copy c.dst c.src (n * w) else c.mem) =
      eachChunk w (fun _ bs => bs) p n c.dst c.src c.mem := by
    rw [← copy_eq_eachChunk c.mem hsafe]
    split
    · rfl
    · next h => rw [not_not.mp h, ByteMem.copy, ByteMem.write_read_self]
  rw [Nat.mod_eq_of_lt hfits, hmem, Cursor.after, hp, BitVec.ofNat_add]

theorem copyBelow_eq (low : Lba) {count : Nat} (hp : c.lba = BitVec.ofNat 64 p) (hlt : p < 2 ^ 64)
    (hfits : count * w < 2 ^ 32) (hsafe : CopySafe c.dst c.src (count * w))
    (hn : n = min count (low.toNat - p)) :
    copyBelow low w count c = (count - n, c.after w (fun _ bs => bs) p n) := by
  induction count using Nat.strong_induction_on generalizing c p n with
  | _ count ih =>
    have hlba : c.lba.toNat = p := by rw [hp, toNat_ofNat_of_lt hlt]
    have hlow := low.isLt
    rw [copyBelow]
    split
    · next h =>
      have hdiff : (low - c.lba).toNat = low.toNat - p := by bv_omega
      have hpos : 0 < low.toNat - p := by bv_omega
      simp only [hdiff]
      generalize hk : min count (if low.toNat - p > 65535 then 65535 else low.toNat - p) = k
      have hkpos : 0 < k ∧ k ≤ count ∧ k ≤ low.toNat - p := by split at hk <;> omega
      have hsplit : count * w = k * w + (count - k) * w := by
        rw [← Nat.add_mul, Nat.add_sub_cancel' hkpos.2.1]
      rw [hsplit] at hsafe
      rw [copied_eq_after hp (by omega) hsafe.head,
        ih (count - k) (by omega) rfl (by omega) (by omega) hsafe.tail (n := n - k) (by omega),
        Cursor.after_add, show k + (n - k) = n by omega,
        show count - k - (n - k) = count - n by omega]
    · next h =>
      have hzero : n = 0 := by bv_omega
      rw [hzero, Cursor.after_zero hp, Nat.sub_zero]

variable {crypt : Nat → Nat → Lba → ByteMem → Option ByteMem}
  {f : Lba → List (BitVec 8) → List (BitVec 8)}

theorem cryptSectors_eq
    (hcrypt : ∀ dst src lba m, CopySafe dst src w →
      crypt dst src lba m = some (m.write dst (f lba (m.read src w))))
    (hp : c.lba = BitVec.ofNat 64 p) (hsafe : CopySafe c.dst c.src (n * w)) :
    cryptSectors crypt w n c = some (c.after w (fun q => f (BitVec.ofNat 64 q)) p n) := by
  induction n generalizing c p with
  | zero => rw [cryptSectors, Cursor.after_zero hp]
  | succ n ih =>
    rw [Nat.succ_mul, Nat.add_comm] at hsafe
    have hnext : c.lba + 1 = BitVec.ofNat 64 (p + 1) := by rw [hp, BitVec.ofNat_add]; rfl
    rw [cryptSectors, hcrypt _ _ _ _ hsafe.head, Option.bind_eq_bind, Option.bind_some,
      ih hnext hsafe.tail]
    simp only [Cursor.after, eachChunk, hp, Nat.succ_mul, Nat.add_assoc, Nat.add_comm 1 n,
      Nat.add_comm w]

theorem cryptUpTo_eq (high : Lba)
    (hcrypt : ∀ dst src lba m, CopySafe dst src w →
      crypt dst src lba m = some (m.write dst (f lba (m.read src w))))
    {count : Nat} (hp : c.lba = BitVec.ofNat 64 p) (hlt : high = BitVec.allOnes 64 ∨ p < 2 ^ 64)
    (hsafe : CopySafe c.dst c.src (count * w))
    (hn : n = if high = BitVec.allOnes 64 then count else min count (high.toNat + 1 - p)) :
    cryptUpTo high crypt w count c =
      some (count - n, c.after w (fun q => f (BitVec.ofNat 64 q)) p n) := by
  induction count using Nat.strong_induction_on generalizing c p n with
  | _ count ih =>
    have hlba : c.lba.toNat = p % 2 ^ 64 := by rw [hp, BitVec.toNat_ofNat]
    have hones : high = BitVec.allOnes 64 → high.toNat = 2 ^ 64 - 1 := fun h => by rw [h]; rfl
    have hhigh := high.isLt
    have hne : high ≠ BitVec.allOnes 64 → high.toNat ≠ 2 ^ 64 - 1 := fun h he =>
      h (BitVec.eq_of_toNat_eq (by rw [he]; rfl))
    rw [cryptUpTo]
    split
    · next h =>
      obtain ⟨hcount, hle⟩ := h
      rw [BitVec.le_def] at hle
      have hdiff : (high - c.lba).toNat = high.toNat - c.lba.toNat := by bv_omega
      simp only [hdiff]
      generalize hk : min count (if high.toNat - c.lba.toNat ≥ 65535 then 65535
        else high.toNat - c.lba.toNat + 1) = k
      have hkpos : 0 < k ∧ k ≤ count ∧ k ≤ high.toNat - c.lba.toNat + 1 := by split at hk <;> omega
      have hsplit : count * w = k * w + (count - k) * w := by
        rw [← Nat.add_mul, Nat.add_sub_cancel' hkpos.2.1]
      rw [hsplit] at hsafe
      have hkn : k ≤ n ∧ (n - k = if high = BitVec.allOnes 64 then count - k
          else min (count - k) (high.toNat + 1 - (p + k))) := by
        by_cases hall : high = BitVec.allOnes 64
        · rw [if_pos hall] at hn ⊢
          omega
        · rw [if_neg hall] at hn ⊢
          have := hlt.resolve_left hall
          omega
      have hlt' : high = BitVec.allOnes 64 ∨ p + k < 2 ^ 64 := by
        by_cases hall : high = BitVec.allOnes 64
        · exact .inl hall
        · have := hlt.resolve_left hall
          have := hne hall
          omega
      rw [cryptSectors_eq hcrypt hp hsafe.head, Option.bind_some,
        ih (count - k) (by omega) rfl hlt' hsafe.tail hkn.2, Cursor.after_add,
        show k + (n - k) = n by omega, show count - k - (n - k) = count - n by omega]
    · next h =>
      have hzero : n = 0 := by
        by_cases hall : high = BitVec.allOnes 64
        · rw [if_pos hall] at hn
          have := hones hall
          rw [BitVec.le_def] at h
          omega
        · rw [if_neg hall] at hn
          have := hlt.resolve_left hall
          rw [BitVec.le_def] at h
          omega
      rw [hzero, Cursor.after_zero hp, Nat.sub_zero]

/-! ### The pass over the table -/

theorem sectorBytes_cons_below {key : StorageKeys} {keys : List StorageKeys} {rw' : Rw} {q : Nat}
    (h : q < key.range.lbaLow.toNat) : sectorBytes (key :: keys) rw' q = fun bs => bs := by
  funext bs
  have hg : governing (key :: keys) q = some key := List.find?_cons_of_pos (by simp [LbaRange.Holds, h])
  simp only [sectorBytes, hg, if_neg (Nat.not_le.mpr h)]

theorem sectorBytes_cons_inside {key : StorageKeys} {keys : List StorageKeys} {rw' : Rw} {q : Nat}
    (hlow : key.range.lbaLow.toNat ≤ q)
    (hhigh : q ≤ key.range.lbaHigh.toNat ∨ key.range.lbaHigh = BitVec.allOnes 64) :
    sectorBytes (key :: keys) rw' q =
      (key.crypto.crypt rw').bytes key.keyctx (BitVec.ofNat 64 q) := by
  funext bs
  have hg : governing (key :: keys) q = some key :=
    List.find?_cons_of_pos (decide_eq_true (.inr hhigh))
  simp only [sectorBytes, hg, if_pos hlow]

theorem sectorBytes_cons_above {key : StorageKeys} {keys : List StorageKeys} {rw' : Rw} {q : Nat}
    (h : ¬key.range.Holds q) : sectorBytes (key :: keys) rw' q = sectorBytes keys rw' q := by
  funext bs
  have hg : governing (key :: keys) q = governing keys q := List.find?_cons_of_neg (by simpa using h)
  simp only [sectorBytes, hg]

theorem handleKeys_eq {access : StorageAccess} (hsized : access.Sized) (keys : List StorageKeys)
    {count : Nat}
    (hp : c.lba = BitVec.ofNat 64 p) (hlt : 0 < count → p < 2 ^ 64)
    (hfits : count * access.sectorSize < 2 ^ 32)
    (hsafe : CopySafe c.dst c.src (count * access.sectorSize)) :
    ∃ n ≤ count, handleKeys access keys count c = some (count - n,
        c.after access.sectorSize (sectorBytes keys access.rw) p n) ∧
      ∀ q, p + n ≤ q → q < p + count → sectorBytes keys access.rw q = fun bs => bs := by
  induction keys generalizing count c p with
  | nil => exact ⟨0, Nat.zero_le _, by rw [handleKeys, Cursor.after_zero hp, Nat.sub_zero],
      fun q _ _ => rfl⟩
  | cons key keys ih =>
    rw [handleKeys]
    split
    case isFalse h => exact ⟨0, Nat.zero_le _, by rw [Cursor.after_zero hp, Nat.sub_zero],
      fun q _ _ => by omega⟩
    case isTrue hcount =>
    specialize hlt hcount
    -- the sectors below the entry, those of the entry, and those that the next entries get
    obtain ⟨n1, hn1⟩ : ∃ n1, n1 = min count (key.range.lbaLow.toNat - p) := ⟨_, rfl⟩
    obtain ⟨n2, hn2⟩ : ∃ n2, n2 = if key.range.lbaHigh = BitVec.allOnes 64 then count - n1
      else min (count - n1) (key.range.lbaHigh.toNat + 1 - (p + n1)) := ⟨_, rfl⟩
    have hlow := key.range.lbaLow.isLt
    have hhigh := key.range.lbaHigh.isLt
    have hle : n1 ≤ count ∧ n2 ≤ count - n1 := by
      refine ⟨by omega, ?_⟩
      split at hn2 <;> omega
    have hsafe1 := hsafe
    rw [show count * access.sectorSize = n1 * access.sectorSize + (count - n1) * access.sectorSize by
      rw [← Nat.add_mul, Nat.add_sub_cancel' hle.1]] at hsafe1
    have hsafe2 := hsafe1.tail
    rw [show (count - n1) * access.sectorSize = n2 * access.sectorSize + (count - n1 - n2) * access.sectorSize by
      rw [← Nat.add_mul, Nat.add_sub_cancel' hle.2]] at hsafe2
    have hbelow := copyBelow_eq key.range.lbaLow hp hlt hfits hsafe hn1
    have hcrypt : ∀ dst src lba m, CopySafe dst src access.sectorSize →
        (key.crypto.crypt access.rw).run key.keyctx dst src lba access.sectorSize m =
          some (m.write dst ((key.crypto.crypt access.rw).bytes key.keyctx lba (m.read src access.sectorSize))) :=
      fun dst src lba m hs => (key.crypto.crypt access.rw).run_eq _ _ _ _ _ _ hsized.blocks hs
    have hup := cryptUpTo_eq (n := n2) key.range.lbaHigh hcrypt
      (c := c.after access.sectorSize (fun _ bs => bs) p n1) (p := p + n1) rfl (.inr (by omega)) hsafe1.tail hn2
    have hones : key.range.lbaHigh ≠ BitVec.allOnes 64 → key.range.lbaHigh.toNat ≠ 2 ^ 64 - 1 :=
      fun h he => h (BitVec.eq_of_toNat_eq (by rw [he]; rfl))
    -- sectors are left only above the high end
    have hpast : n2 < count - n1 → key.range.lbaHigh ≠ BitVec.allOnes 64 ∧
        key.range.lbaHigh.toNat < p + n1 + n2 ∧ key.range.lbaLow.toNat ≤ p + n1 ∧
        p + n1 + n2 < 2 ^ 64 := by
      intro hleft
      split at hn2
      · omega
      · next h =>
        have := hones h
        exact ⟨h, by omega, by omega, by omega⟩
    obtain ⟨n3, hle3, hrest, hid⟩ := @ih ((c.after access.sectorSize (fun _ bs => bs) p n1).after
        access.sectorSize
        (fun q => (key.crypto.crypt access.rw).bytes key.keyctx (BitVec.ofNat 64 q)) (p + n1) n2)
      (p + n1 + n2) (count - n1 - n2)
      rfl (fun h => (hpast (by omega)).2.2.2)
      (lt_of_le_of_lt (Nat.mul_le_mul_right _ (by omega)) hfits) hsafe2.tail
    have habove : ∀ q, p + n1 + n2 ≤ q → q < p + count →
        sectorBytes (key :: keys) access.rw q = sectorBytes keys access.rw q := by
      intro q hq hq'
      obtain ⟨hne, hhi, hlo, -⟩ := hpast (by omega)
      refine sectorBytes_cons_above ?_
      rintro (h | h | h)
      · omega
      · omega
      · exact hne h
    refine ⟨n1 + n2 + n3, by omega, ?_, fun q hq hq' => ?_⟩
    · have h1 : c.after access.sectorSize (fun _ bs => bs) p n1 =
          c.after access.sectorSize (sectorBytes (key :: keys) access.rw) p n1 :=
        Cursor.after_congr fun q _ hq => (sectorBytes_cons_below (by omega)).symm
      have h2 : ∀ d : Cursor, d.after access.sectorSize
            (fun q => (key.crypto.crypt access.rw).bytes key.keyctx (BitVec.ofNat 64 q)) (p + n1) n2 =
          d.after access.sectorSize (sectorBytes (key :: keys) access.rw) (p + n1) n2 := by
        refine fun d => Cursor.after_congr fun q hq hq' => (sectorBytes_cons_inside ?_ ?_).symm
        · omega
        · split at hn2
          · next h => exact .inr h
          · exact .inl (by omega)
      have h3 : ∀ d : Cursor, d.after access.sectorSize (sectorBytes keys access.rw) (p + n1 + n2) n3 =
          d.after access.sectorSize (sectorBytes (key :: keys) access.rw) (p + n1 + n2) n3 :=
        fun d => Cursor.after_congr fun q hq hq' => (habove q hq (by omega)).symm
      simp only [hbelow, hup, Option.bind_some, hrest]
      rw [h3, h2, h1, Nat.add_assoc p, Cursor.after_add, Cursor.after_add, Nat.sub_sub, Nat.sub_sub,
        Nat.add_assoc]
    · rw [habove q (by omega) hq', hid q (by omega) (by omega)]

/-- The pass is one function for each sector, a sector at a time. -/
theorem storageHandleSectors_eq (keys : List StorageKeys) {access : StorageAccess}
    (hsized : access.Sized) (src dst : Nat) (mem : ByteMem) (hsafe : CopySafe dst src (access.count * access.sectorSize)) :
    storageHandleSectors keys access src dst mem =
      some (eachChunk access.sectorSize (sectorBytes keys access.rw) access.lba.toNat access.count
        dst src mem) := by
  obtain ⟨n, hn, heq, hid⟩ := handleKeys_eq hsized keys (c := ⟨access.lba, src, dst, mem⟩)
    (p := access.lba.toNat) (by simp) (fun _ => access.lba.isLt) hsized.fits hsafe
  obtain ⟨r, hr⟩ := Nat.exists_eq_add_of_le hn
  rw [hr, Nat.add_mul] at hsafe
  have hfits := hsized.fits
  rw [hr, Nat.add_mul] at hfits
  have hrest : ∀ m : ByteMem,
      (if 0 < r ∧ dst + n * access.sectorSize ≠ src + n * access.sectorSize then
        m.copy (dst + n * access.sectorSize) (src + n * access.sectorSize)
          (r * access.sectorSize % 2 ^ 32) else m) =
      eachChunk access.sectorSize (sectorBytes keys access.rw) (access.lba.toNat + n) r
        (dst + n * access.sectorSize) (src + n * access.sectorSize) m := by
    intro m
    rw [eachChunk_congr (G := fun _ bs => bs) fun q hq hq' => hid q hq (by omega),
      ← copy_eq_eachChunk m hsafe.tail, Nat.mod_eq_of_lt (by omega)]
    split
    · rfl
    · next h =>
      rcases Nat.eq_zero_or_pos r with rfl | hpos
      · simp [ByteMem.copy]
      · rw [show dst + n * access.sectorSize = src + n * access.sectorSize by omega,
          ByteMem.copy, ByteMem.write_read_self]
  rw [storageHandleSectors, heq, Option.map_some]
  simp only [Cursor.after, hr, Nat.add_sub_cancel_left]
  rw [hrest, ← eachChunk_add]

/-- What is written, as a function of the bytes that are read. -/
theorem storageHandleSectors_eq_write (keys : List StorageKeys) {access : StorageAccess}
    (hsized : access.Sized) (src dst : Nat) (mem : ByteMem)
    (hsafe : CopySafe dst src (access.count * access.sectorSize)) :
    storageHandleSectors keys access src dst mem =
      some (mem.write dst (mapChunks access.sectorSize (sectorBytes keys access.rw)
        access.lba.toNat access.count (mem.read src (access.count * access.sectorSize)))) := by
  rw [storageHandleSectors_eq keys hsized src dst mem hsafe,
    eachChunk_eq_write (keepsChunks_sectorBytes keys hsized.blocks _) mem hsafe]

/-- The sector `k` of the request after the pass. -/
theorem read_sector (keys : List StorageKeys) {access : StorageAccess} (hsized : access.Sized)
    {src dst : Nat} {mem mem' : ByteMem} (hsafe : CopySafe dst src (access.count * access.sectorSize))
    (h : storageHandleSectors keys access src dst mem = some mem') {k : Nat}
    (hk : k < access.count) :
    mem'.read (dst + k * access.sectorSize) access.sectorSize =
      sectorBytes keys access.rw (access.lba.toNat + k)
        (mem.read (src + k * access.sectorSize) access.sectorSize) := by
  have hkeeps := keepsChunks_sectorBytes keys hsized.blocks access.rw
  have hpart : k * access.sectorSize + access.sectorSize ≤ access.count * access.sectorSize := by
    rw [← Nat.succ_mul]
    exact Nat.mul_le_mul_right _ hk
  have hlen : (mapChunks access.sectorSize (sectorBytes keys access.rw) access.lba.toNat
      access.count (mem.read src (access.count * access.sectorSize))).length =
        access.count * access.sectorSize := length_mapChunks hkeeps (ByteMem.length_read _ _ _)
  rw [storageHandleSectors_eq_write keys hsized src dst mem hsafe] at h
  cases h
  rw [ByteMem.read_write_part _ _ _ _ (hlen.symm ▸ hpart),
    chunk_mapChunks hkeeps (ByteMem.length_read _ _ _) hk, ByteMem.drop_take_read _ _ _ _ hpart]

/-! ### In place -/

theorem copyBelow_inPlace (low : Lba) (count : Nat) (hc : c.dst = c.src) :
    (copyBelow low w count c).2.dst = (copyBelow low w count c).2.src := by
  induction count using Nat.strong_induction_on generalizing c with
  | _ count ih =>
    rw [copyBelow]
    split
    · next h =>
      have hpos : 0 < (low - c.lba).toNat := by bv_omega
      refine ih _ ?_ (congrArg (· + _) hc)
      split <;> omega
    · exact hc

theorem cryptSectors_inPlace
    (hcrypt : ∀ a lba m, ∃ m', crypt a a lba m = some m') (n : Nat) (hc : c.dst = c.src) :
    ∃ c', cryptSectors crypt w n c = some c' ∧ c'.dst = c'.src := by
  induction n generalizing c with
  | zero => exact ⟨c, rfl, hc⟩
  | succ n ih =>
    obtain ⟨m, hm⟩ := hcrypt c.src c.lba c.mem
    rw [cryptSectors, hc, hm]
    exact ih rfl

theorem cryptUpTo_inPlace (high : Lba)
    (hcrypt : ∀ a lba m, ∃ m', crypt a a lba m = some m') (count : Nat) (hc : c.dst = c.src) :
    ∃ n c', cryptUpTo high crypt w count c = some (n, c') ∧ c'.dst = c'.src := by
  induction count using Nat.strong_induction_on generalizing c with
  | _ count ih =>
    rw [cryptUpTo]
    split
    · obtain ⟨c1, h1, hc1⟩ := cryptSectors_inPlace (w := w) hcrypt
        (min count (if (high - c.lba).toNat ≥ 65535 then 65535 else (high - c.lba).toNat + 1)) hc
      simp only [h1, Option.bind_some]
      refine ih _ ?_ hc1
      split <;> omega
    · exact ⟨count, c, rfl, hc⟩

theorem handleKeys_inPlace {access : StorageAccess} (hblocks : aesBlkBytes ∣ access.sectorSize)
    (keys : List StorageKeys) (count : Nat) (hc : c.dst = c.src) :
    ∃ n c', handleKeys access keys count c = some (n, c') := by
  induction keys generalizing count c with
  | nil => exact ⟨count, c, rfl⟩
  | cons key keys ih =>
    rw [handleKeys]
    split
    · let crypt dst src lba mem :=
        (key.crypto.crypt access.rw).run key.keyctx dst src lba access.sectorSize mem
      have hcrypt : ∀ a lba m, ∃ m', crypt a a lba m = some m' :=
        fun a lba m => ⟨_, (key.crypto.crypt access.rw).run_eq _ _ _ _ _ _ hblocks (.inl rfl)⟩
      have hbelow := copyBelow_inPlace (w := access.sectorSize) key.range.lbaLow count hc
      obtain ⟨n1, c1, h1, hc1⟩ := cryptUpTo_inPlace (w := access.sectorSize) key.range.lbaHigh
        hcrypt (copyBelow key.range.lbaLow access.sectorSize count c).1 hbelow
      obtain ⟨n2, c2, h2⟩ := ih n1 hc1
      exact ⟨n2, c2, Option.bind_eq_some_iff.mpr ⟨_, h1, h2⟩⟩
    · exact ⟨count, c, rfl⟩

/-- A request on one buffer, of any length, meets no assertion. -/
theorem storageHandleSectors_inPlace (keys : List StorageKeys) {access : StorageAccess}
    (hblocks : aesBlkBytes ∣ access.sectorSize) (a : Nat) (mem : ByteMem) :
    ∃ mem', storageHandleSectors keys access a a mem = some mem' := by
  obtain ⟨n, c, h⟩ := handleKeys_inPlace hblocks keys access.count
    (c := ⟨access.lba, a, a, mem⟩) rfl
  exact ⟨_, by rw [storageHandleSectors, h, Option.map_some]⟩

end OnDemandVirt.Storage
