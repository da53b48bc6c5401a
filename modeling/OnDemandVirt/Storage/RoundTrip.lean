import OnDemandVirt.Storage.NoPlaintext

/-!
# Reading back and splitting requests

For the tables that `storage_set_keys` builds, reading with `storage_handle_sectors` what it wrote
gives the bytes back, and a request may be handled in two parts, as long as it does not run past
the last 64-bit sector number (`roundTrips_and_splits`).
-/

namespace OnDemandVirt.Storage

open Lib

namespace StorageAccess

variable (access : StorageAccess)

/-- The bytes of the request. -/
abbrev bytes : Nat := access.count * access.sectorSize

/-- The same sectors, to be read or to be written. -/
def withRw (rw : Rw) : StorageAccess := { access with rw := rw }

/-- The `n` sectors of the request from its sector `k` on. -/
def part (k n : Nat) : StorageAccess where
  lba := access.lba + BitVec.ofNat 64 k
  count := n
  sectorSize := access.sectorSize
  rw := access.rw

variable {access}

theorem Sized.withRw (h : access.Sized) (rw : Rw) : (access.withRw rw).Sized :=
  ⟨h.blocks, h.int, h.fits⟩

theorem Sized.part (h : access.Sized) (k : Nat) {n : Nat} (hn : n ≤ access.count) :
    (access.part k n).Sized :=
  ⟨h.blocks, h.int, lt_of_le_of_lt (Nat.mul_le_mul_right _ hn) h.fits⟩

end StorageAccess

/-- Reading what was written gives the bytes back, wherever the two calls have their blocks. -/
def RoundTrips (keys : List StorageKeys) (access : StorageAccess) : Prop :=
  ∀ src dst back mem, CopySafe dst src access.bytes → CopySafe back dst access.bytes →
    ∃ mem' mem'', storageHandleSectors keys (access.withRw .write) src dst mem = some mem' ∧
      storageHandleSectors keys (access.withRw .read) dst back mem' = some mem'' ∧
      mem''.read back access.bytes = mem.read src access.bytes

/-- One call does what two calls for the two parts of the request do. -/
def Splits (keys : List StorageKeys) (access : StorageAccess) : Prop :=
  ∀ k n, k + n = access.count → ∀ src dst mem, CopySafe dst src access.bytes →
    storageHandleSectors keys access src dst mem =
      (storageHandleSectors keys (access.part 0 k) src dst mem).bind fun mem =>
        storageHandleSectors keys (access.part k n) (src + k * access.sectorSize)
          (dst + k * access.sectorSize) mem

/-! ### Tables that are built -/

theorem cryptoFind_mem {cryptoList : List Crypto} {name : String} {crypto : Crypto}
    (h : cryptoFind cryptoList name = some crypto) : crypto ∈ cryptoList :=
  List.mem_of_find?_eq_some h

/-- An entry of a table that is built has a registered cipher and a key context made for it. -/
theorem storageSetKeys_mem {cryptoList : List Crypto} {cfgKeys : Nat → List (BitVec 8)}
    {selects : StorageKeysConf → Bool} {confs : List StorageKeysConf} {keys : List StorageKeys}
    (h : storageSetKeys cryptoList cfgKeys selects confs = some keys) :
    ∀ key ∈ keys, key.crypto ∈ cryptoList ∧ ∃ k bits, key.keyctx = key.crypto.setkey k bits := by
  induction confs generalizing keys with
  | nil =>
    cases h
    simp
  | cons conf confs ih =>
    rw [storageSetKeys] at h
    split at h
    · exact ih h
    · obtain ⟨crypto, hfind, h⟩ := Option.bind_eq_some_iff.mp h
      obtain ⟨rest, hrest, h⟩ := Option.bind_eq_some_iff.mp h
      cases h
      intro key hmem
      rcases List.mem_cons.mp hmem with rfl | hmem
      · exact ⟨cryptoFind_mem hfind, _, _, rfl⟩
      · exact ih hrest key hmem

/-- Every entry takes back what it encrypts. -/
def Invertible (keys : List StorageKeys) : Prop :=
  ∀ key ∈ keys, ∀ lba bs, aesBlkBytes ∣ bs.length →
    key.crypto.decrypt.bytes key.keyctx lba (key.crypto.encrypt.bytes key.keyctx lba bs) = bs

theorem invertible_of_built {cryptoList : List Crypto} (hlist : ∀ c ∈ cryptoList, c.Inverts)
    {cfgKeys : Nat → List (BitVec 8)} {selects : StorageKeysConf → Bool}
    {confs : List StorageKeysConf} {keys : List StorageKeys}
    (h : storageSetKeys cryptoList cfgKeys selects confs = some keys) : Invertible keys := by
  intro key hmem lba bs hbs
  obtain ⟨hcrypto, k, bits, hctx⟩ := storageSetKeys_mem h key hmem
  rw [hctx]
  exact hlist _ hcrypto k bits lba bs hbs

/-! ### Reading back -/

theorem sectorBytes_cancel {keys : List StorageKeys} (h : Invertible keys) (p : Nat)
    {bs : List (BitVec 8)} (hbs : aesBlkBytes ∣ bs.length) :
    sectorBytes keys .read p (sectorBytes keys .write p bs) = bs := by
  rw [sectorBytes, sectorBytes]
  cases hg : governing keys p with
  | none => rfl
  | some key =>
    simp only
    split
    · exact h key (List.mem_of_find?_eq_some hg) _ _ hbs
    · rfl

theorem roundTrips {keys : List StorageKeys} (h : Invertible keys) {access : StorageAccess}
    (hsized : access.Sized) : RoundTrips keys access := by
  intro src dst back mem hsafe hback
  refine ⟨_, _, storageHandleSectors_eq_write keys (hsized.withRw .write) src dst mem hsafe,
    storageHandleSectors_eq_write keys (hsized.withRw .read) dst back _ hback, ?_⟩
  have hwrite := keepsChunks_sectorBytes keys hsized.blocks .write
  have hread := keepsChunks_sectorBytes keys hsized.blocks .read
  have hsrc : (mem.read src access.bytes).length = access.count * access.sectorSize :=
    ByteMem.length_read _ _ _
  have hstored : (mapChunks access.sectorSize (sectorBytes keys .write) access.lba.toNat
      access.count (mem.read src access.bytes)).length = access.count * access.sectorSize :=
    length_mapChunks hwrite hsrc
  simp only [StorageAccess.withRw]
  have hback : (mapChunks access.sectorSize (sectorBytes keys .read) access.lba.toNat
      access.count (mapChunks access.sectorSize (sectorBytes keys .write) access.lba.toNat
        access.count (mem.read src access.bytes))).length = access.bytes :=
    length_mapChunks hread hstored
  rw [ByteMem.read_write_all _ _ _ _ hstored, ByteMem.read_write_all _ _ _ _ hback]
  exact mapChunks_mapChunks_cancel hwrite
    (fun p bs hbs => sectorBytes_cancel h p (hbs ▸ hsized.blocks)) hsrc

/-! ### Splitting -/

theorem splits (keys : List StorageKeys) {access : StorageAccess} (hsized : access.Sized)
    (hend : access.lba.toNat + access.count ≤ 2 ^ 64) : Splits keys access := by
  intro k n h src dst mem hsafe
  rw [StorageAccess.bytes, ← h, Nat.add_mul] at hsafe
  have hfirst : (access.part 0 k).lba.toNat = access.lba.toNat := by
    simp [StorageAccess.part]
  rw [storageHandleSectors_eq keys hsized src dst mem (by rw [← h, Nat.add_mul]; exact hsafe),
    storageHandleSectors_eq keys (hsized.part 0 (n := k) (by omega)) src dst mem hsafe.head,
    Option.bind_some, storageHandleSectors_eq keys (hsized.part k (n := n) (by omega)) _ _ _ hsafe.tail,
    hfirst]
  simp only [StorageAccess.part, ← h, eachChunk_add]
  rcases Nat.eq_zero_or_pos n with rfl | hn
  · rfl
  · have hlba : (access.lba + BitVec.ofNat 64 k).toNat = access.lba.toNat + k := by
      rw [add_ofNat_eq, toNat_ofNat_of_lt (by omega)]
    rw [hlba]

/-- Every table that is built reads back what it writes, and handles a request in parts, as long
as the request does not run past the last sector number. -/
theorem roundTrips_and_splits {aes : Aes} (haes : aes.Inverts) {cfgKeys : Nat → List (BitVec 8)}
    {selects : StorageKeysConf → Bool} {confs : List StorageKeysConf} {keys : List StorageKeys}
    (h : storageSetKeys aes.cryptoList cfgKeys selects confs = some keys) {access : StorageAccess}
    (hsized : access.Sized) : RoundTrips keys access ∧
      (access.lba.toNat + access.count ≤ 2 ^ 64 → Splits keys access) :=
  ⟨roundTrips (invertible_of_built haes.cryptoList h) hsized, splits keys hsized⟩

/-! ### At the last sector number -/

/-- A request for two sectors. -/
def twoSectors (lba : Lba) : StorageAccess where
  lba := lba
  count := 2
  sectorSize := 512
  rw := .write

theorem twoSectors_sized (lba : Lba) : (twoSectors lba).Sized where
  blocks := (by decide : 16 ∣ 512)
  int := (by decide : 512 < 2 ^ 31)
  fits := (by decide : 2 * 512 < 2 ^ 32)

theorem roundTrips_and_splits_twoSectors :
    ∃ keys, storageSetKeys complementAes.cryptoList (fun _ => []) (fun _ => true) unorderedConf =
      some keys ∧ RoundTrips keys (twoSectors 7) ∧ Splits keys (twoSectors 7) := by
  obtain ⟨keys, hkeys⟩ : ∃ keys, storageSetKeys complementAes.cryptoList (fun _ => [])
    (fun _ => true) unorderedConf = some keys := ⟨_, rfl⟩
  obtain ⟨hround, hsplit⟩ := roundTrips_and_splits complementAes_inverts hkeys (twoSectors_sized 7)
  exact ⟨keys, hkeys, hround, hsplit (by decide)⟩

/-- An entry for the last sector number alone. -/
def lastSectorConf : List StorageKeysConf :=
  [⟨BitVec.allOnes 64, BitVec.allOnes 64, "aes-xts", 0, 256⟩]

/-- The table that it gives. -/
def lastSectorKeys : List StorageKeys :=
  [⟨⟨BitVec.allOnes 64, BitVec.allOnes 64⟩, complementAes.xtsCrypto, ⟨(), (), (), ()⟩⟩]

/-- A request for the last sector and the one that the sum wraps to is encrypted as a whole; the
second part of it alone is not. -/
theorem last_sector_splits_differently :
    storageSetKeys complementAes.cryptoList (fun _ => []) (fun _ => true) lastSectorConf =
      some lastSectorKeys ∧ ¬Splits lastSectorKeys (twoSectors (BitVec.allOnes 64)) := by
  refine ⟨rfl, fun h => ?_⟩
  let access := twoSectors (BitVec.allOnes 64)
  let zeros : ByteMem := fun _ => 0
  have hsized : access.Sized := twoSectors_sized _
  -- the second sector after the one call
  have hwhole := storageHandleSectors_eq_write lastSectorKeys hsized 0 0 zeros (.inl rfl)
  have hcipher : sectorBytes lastSectorKeys .write ((BitVec.allOnes 64).toNat + 1) =
      aesXtsBytes (complementAes.encrypt ()) (complementAes.encrypt ()) 0 :=
    sectorBytes_cons_inside (Nat.le_succ _) (.inr rfl)
  have hone := (read_sector lastSectorKeys hsized (.inl rfl) hwhole (k := 1) (by decide)).trans
    (congrFun hcipher _)
  -- and after the two
  have hcopy : sectorBytes lastSectorKeys .write ((access.part 1 1).lba.toNat + 0) =
      fun bs => bs := sectorBytes_cons_below (by decide)
  have hsecond : ∀ m m', storageHandleSectors lastSectorKeys (access.part 1 1) 512 512
      m = some m' → m'.read 512 512 = m.read 512 512 := fun m m' hrun =>
    (read_sector lastSectorKeys (hsized.part 1 (by decide)) (.inl rfl) hrun (k := 0) (by decide)).trans (congrFun hcopy _)
  have hfirst : ∀ m m', storageHandleSectors lastSectorKeys (access.part 0 1) 0 0
      m = some m' → m'.read 512 512 = m.read 512 512 := by
    intro m m' hrun
    rw [storageHandleSectors_eq_write _ (hsized.part 0 (by decide)) _ _ _ (.inl rfl)] at hrun
    cases hrun
    refine ByteMem.read_write_of_disjoint _ _ _ _ _ (.inr ?_)
    have hblocks := (hsized.part 0 (n := 1) (by decide)).blocks
    rw [length_mapChunks (keepsChunks_sectorBytes lastSectorKeys hblocks _)
      (ByteMem.length_read _ _ _)]
    decide
  have hsplit := h 1 1 rfl 0 0 zeros (.inl rfl)
  rw [hwhole] at hsplit
  obtain ⟨m1, hrun1, hrun2⟩ := Option.bind_eq_some_iff.mp hsplit.symm
  have htwo := (hsecond m1 _ hrun2).trans (hfirst zeros m1 hrun1)
  refine complementAes_bytes_ne 0 ?_ ?_ (hone.symm.trans htwo)
  · rw [ByteMem.length_read]
    decide
  · rw [ByteMem.length_read]
    decide

end OnDemandVirt.Storage
