import OnDemandVirt.Storage.Sectors

/-!
# No plaintext sector

Every sector that lies in some entry of the key table should go through a cipher of such an entry,
and only these should. The pass copies all that lies below the low end of an entry without a look
at the entries after it, so the order of the table decides: `sectorsCiphered_iff` has the tables
and requests that are right, and tables in the order of their low ends are (`inOrder_of_sorted`).
-/

namespace OnDemandVirt.Storage

open Lib

/-- The sector lies in the entry. -/
def LbaRange.Covers (r : LbaRange) (lba : Lba) : Prop := r.lbaLow ≤ lba ∧ lba ≤ r.lbaHigh

instance (r : LbaRange) (lba : Lba) : Decidable (r.Covers lba) := inferInstanceAs (Decidable (_ ∧ _))

/-- Every sector in some entry goes through the cipher of an entry it lies in, with its own
number as tweak, and every other sector is copied. -/
def SectorsCiphered (keys : List StorageKeys) (access : StorageAccess) : Prop :=
  ∀ src dst mem, CopySafe dst src (access.count * access.sectorSize) →
    ∃ mem', storageHandleSectors keys access src dst mem = some mem' ∧
      ∀ k < access.count,
        let lba := access.lba + BitVec.ofNat 64 k
        let before := mem.read (src + k * access.sectorSize) access.sectorSize
        let after := mem'.read (dst + k * access.sectorSize) access.sectorSize
        ((∃ key ∈ keys, key.range.Covers lba) → ∃ key ∈ keys, key.range.Covers lba ∧
          after = (key.crypto.crypt access.rw).bytes key.keyctx lba before) ∧
        ((∀ key ∈ keys, ¬key.range.Covers lba) → after = before)

/-- The entry at which the pass comes to the sector `p`. -/
def governingRange (ranges : List LbaRange) (p : Nat) : Option LbaRange :=
  ranges.find? fun r => r.Holds p

/-- The sector `p` is treated right: the entry at which the pass comes to it covers it, or the
sector lies below that entry or there is none, and no entry covers it. -/
def RightEntry (ranges : List LbaRange) (p : Nat) : Prop :=
  match governingRange ranges p with
  | some r =>
    if r.lbaLow.toNat ≤ p then r.Covers (BitVec.ofNat 64 p)
    else ∀ s ∈ ranges, ¬s.Covers (BitVec.ofNat 64 p)
  | none => ∀ s ∈ ranges, ¬s.Covers (BitVec.ofNat 64 p)

instance (ranges : List LbaRange) (p : Nat) : Decidable (RightEntry ranges p) := by
  unfold RightEntry
  split <;> infer_instance

/-- Every sector of the request is treated right. -/
def InOrder (ranges : List LbaRange) (lba : Lba) (count : Nat) : Prop :=
  ∀ k < count, RightEntry ranges (lba.toNat + k)

instance (ranges : List LbaRange) (lba : Lba) (count : Nat) : Decidable (InOrder ranges lba count) :=
  inferInstanceAs (Decidable (∀ k < count, _))

theorem add_ofNat_eq (lba : Lba) (k : Nat) :
    lba + BitVec.ofNat 64 k = BitVec.ofNat 64 (lba.toNat + k) := by
  rw [BitVec.ofNat_add, BitVec.ofNat_toNat, BitVec.setWidth_eq]

theorem governingRange_map (keys : List StorageKeys) (p : Nat) :
    governingRange (keys.map (·.range)) p = (governing keys p).map (·.range) := by
  rw [governingRange, governing, List.find?_map]
  rfl

/-! ### Enough -/

theorem sectorsCiphered_of_inOrder {keys : List StorageKeys} {access : StorageAccess}
    (hsized : access.Sized) (h : InOrder (keys.map (·.range)) access.lba access.count) : SectorsCiphered keys access := by
  intro src dst mem hsafe
  refine ⟨_, storageHandleSectors_eq_write keys hsized src dst mem hsafe, fun k hk => ?_⟩
  have hread := read_sector keys hsized hsafe
    (storageHandleSectors_eq_write keys hsized src dst mem hsafe) hk
  have hright := h k hk
  rw [RightEntry, governingRange_map] at hright
  simp only [hread, add_ofNat_eq]
  simp only [List.mem_map, forall_exists_index, and_imp, forall_apply_eq_imp_iff₂] at hright
  generalize access.lba.toNat + k = p at hright ⊢
  rw [sectorBytes]
  cases hg : governing keys p with
  | none =>
    rw [hg] at hright
    refine ⟨?_, fun _ => rfl⟩
    rintro ⟨key, hmem, hcov⟩
    exact absurd hcov (hright key hmem)
  | some key =>
    rw [hg] at hright
    simp only [Option.map_some] at hright
    have hmem : key ∈ keys := List.mem_of_find?_eq_some hg
    split at hright
    · next hlow =>
      simp only [if_pos hlow]
      exact ⟨fun _ => ⟨key, hmem, hright, rfl⟩, fun hnone => absurd hright (hnone key hmem)⟩
    · next hlow =>
      simp only [if_neg hlow]
      refine ⟨?_, fun _ => trivial⟩
      rintro ⟨key', hmem', hcov⟩
      exact absurd hcov (hright key' hmem')

/-! ### Needed -/

/-- Adding a number to every byte. -/
def shiftFn (d : BitVec 8) : SectorFn Unit where
  run _ dst src _ n m := some (m.write dst ((m.read src n).map (· + d)))
  bytes _ _ bs := bs.map (· + d)
  length_bytes _ _ _ _ := List.length_map _
  run_eq _ _ _ _ _ _ _ _ := rfl

/-- A cipher that shows which entry a sector went through. -/
def shiftCrypto (d : BitVec 8) : Crypto where
  name := "shift"
  Keyctx := Unit
  setkey _ _ := ()
  encrypt := shiftFn d
  decrypt := shiftFn d

def shiftKey (d : BitVec 8) (r : LbaRange) : StorageKeys := ⟨r, shiftCrypto d, ()⟩

@[simp] theorem bytes_shiftKey (d : BitVec 8) (r : LbaRange) (rw' : Rw) (lba : Lba)
    (bs : List (BitVec 8)) :
    ((shiftKey d r).crypto.crypt rw').bytes (shiftKey d r).keyctx lba bs = bs.map (· + d) := by
  cases rw' <;> rfl

theorem map_add_ne {d e : BitVec 8} (hde : d ≠ e) {bs : List (BitVec 8)} (hbs : bs ≠ []) :
    bs.map (· + d) ≠ bs.map (· + e) := by
  obtain ⟨b, rest, rfl⟩ := List.exists_cons_of_ne_nil hbs
  intro h
  have := (List.cons.inj h).1
  exact hde (by simpa using this)

/-- A sector that is copied, in a table of ciphers that change it, lies in no entry. -/
theorem not_covers_of_copied {keys : List StorageKeys} {access : StorageAccess} {lba : Lba}
    {bs : List (BitVec 8)} (hbs : bs ≠ [])
    (hshift : ∀ key ∈ keys, ∃ d r, d ≠ 0 ∧ key = shiftKey d r)
    (h : (∃ key ∈ keys, key.range.Covers lba) → ∃ key ∈ keys, key.range.Covers lba ∧
      bs = (key.crypto.crypt access.rw).bytes key.keyctx lba bs) :
    ∀ r ∈ keys.map (·.range), ¬r.Covers lba := by
  intro r hr hcov
  obtain ⟨key, hmem, rfl⟩ := List.mem_map.mp hr
  obtain ⟨key', hmem', -, heq⟩ := h ⟨key, hmem, hcov⟩
  obtain ⟨d, r', hd, rfl⟩ := hshift key' hmem'
  rw [bytes_shiftKey] at heq
  exact map_add_ne hd hbs (by simpa using heq.symm)

theorem rightEntry_of_sectorsCiphered {ranges : List LbaRange} {access : StorageAccess}
    (hsized : access.Sized) (hpos : 0 < access.sectorSize)
    (h : ∀ keys : List StorageKeys, keys.map (·.range) = ranges → SectorsCiphered keys access)
    {k : Nat} (hk : k < access.count) : RightEntry ranges (access.lba.toNat + k) := by
  -- the request in place, on a memory of zeros
  have hsafe : CopySafe 0 0 (access.count * access.sectorSize) := .inl rfl
  have hne : (ByteMem.read (fun _ => 0) (0 + k * access.sectorSize) access.sectorSize) ≠ [] := by
    rw [← List.length_pos_iff, ByteMem.length_read]
    exact hpos
  have hsector : ∀ keys : List StorageKeys, keys.map (·.range) = ranges → _ := fun keys hkeys =>
    (h keys hkeys) 0 0 (fun _ => 0) hsafe
  generalize hp : access.lba.toNat + k = p
  rw [RightEntry]
  cases hg : governingRange ranges p with
  | none =>
    simp only
    let keys := ranges.map (shiftKey 1)
    have hkeys : keys.map (·.range) = ranges := by simp [keys, shiftKey, Function.comp_def]
    obtain ⟨mem', hrun, hall⟩ := hsector keys hkeys
    have hcov := (hall k hk).1
    have hnone : governing keys p = none := by
      rw [← hkeys, governingRange_map, Option.map_eq_none_iff] at hg
      exact hg
    rw [read_sector keys hsized hsafe hrun hk, sectorBytes, hp, hnone, add_ofNat_eq, hp] at hcov
    rw [← hkeys]
    refine not_covers_of_copied hne (fun key hmem => ?_) hcov
    obtain ⟨r, -, rfl⟩ := List.mem_map.mp hmem
    exact ⟨1, r, by decide, rfl⟩
  | some r =>
    simp only
    obtain ⟨hholds, before, after, rfl, hbefore⟩ := List.find?_eq_some_iff_append.mp hg
    -- only the entry in question adds one
    let keys := before.map (shiftKey 2) ++ shiftKey 1 r :: after.map (shiftKey 2)
    have hkeys : keys.map (·.range) = before ++ r :: after := by
      simp [keys, shiftKey, Function.comp_def]
    obtain ⟨mem', hrun, hall⟩ := hsector keys hkeys
    have hsome : governing keys p = some (shiftKey 1 r) := by
      refine List.find?_eq_some_iff_append.mpr ⟨hholds, _, _, rfl, fun key hmem => ?_⟩
      obtain ⟨r', hr', rfl⟩ := List.mem_map.mp hmem
      exact hbefore r' hr'
    have hshift : ∀ key ∈ keys, key = shiftKey 1 r ∨ ∃ r', key = shiftKey 2 r' := by
      intro key hmem
      rcases List.mem_append.mp hmem with hmem | hmem
      · obtain ⟨r', -, rfl⟩ := List.mem_map.mp hmem
        exact .inr ⟨r', rfl⟩
      · rcases List.mem_cons.mp hmem with rfl | hmem
        · exact .inl rfl
        · obtain ⟨r', -, rfl⟩ := List.mem_map.mp hmem
          exact .inr ⟨r', rfl⟩
    have hall := hall k hk
    rw [read_sector keys hsized hsafe hrun hk, sectorBytes, hp, hsome, add_ofNat_eq, hp] at hall
    simp only at hall
    have hrange : (shiftKey 1 r).range = r := rfl
    rw [hrange] at hall
    split at hall
    · next hlow =>
      rw [if_pos hlow]
      obtain ⟨hin, hout⟩ := hall
      by_cases hcov : ∃ key ∈ keys, key.range.Covers (BitVec.ofNat 64 p)
      · obtain ⟨key, hmem, hkey, heq⟩ := hin hcov
        rcases hshift key hmem with rfl | ⟨r', rfl⟩
        · exact hkey
        · rw [bytes_shiftKey, bytes_shiftKey] at heq
          exact absurd heq (map_add_ne (by decide) hne)
      · have heq := hout fun key hmem hkey => hcov ⟨key, hmem, hkey⟩
        rw [bytes_shiftKey] at heq
        exact absurd (by simpa using heq) (map_add_ne (e := 0) (by decide : (1 : BitVec 8) ≠ 0) hne)
    · next hlow =>
      rw [if_neg hlow, ← hkeys]
      refine not_covers_of_copied hne (fun key hmem => ?_) hall.1
      rcases hshift key hmem with rfl | ⟨r', rfl⟩
      · exact ⟨1, r, by decide, rfl⟩
      · exact ⟨2, r', by decide, rfl⟩

/-- A request for one 512-byte sector. -/
def oneSector (lba : Lba) : StorageAccess where
  lba := lba
  count := 1
  sectorSize := 512
  rw := .write

theorem oneSector_sized (lba : Lba) : (oneSector lba).Sized where
  blocks := (by decide : 16 ∣ 512)
  int := (by decide : 512 < 2 ^ 31)
  fits := (by decide : 1 * 512 < 2 ^ 32)

/-- A block cipher that complements. -/
def complementAes : Aes where
  EncKey := Unit
  DecKey := Unit
  setEncKey _ _ := ()
  setDecKey _ _ := ()
  encrypt _ b := ⟨~~~b.q0, ~~~b.q1⟩
  decrypt _ b := ⟨~~~b.q0, ~~~b.q1⟩

theorem complementAes_inverts : complementAes.Inverts := fun _ _ b => by simp [complementAes]

theorem complementAes_bytes_ne (lba : Lba) {bs : List (BitVec 8)} (hdvd : aesBlkBytes ∣ bs.length)
    (hpos : 0 < bs.length) :
    aesXtsBytes (complementAes.encrypt ()) (complementAes.encrypt ()) lba bs ≠ bs := by
  intro h
  have hblocks : bs.length = bs.length / aesBlkBytes * aesBlkBytes := (Nat.div_mul_cancel hdvd).symm
  have hfirst := chunk_mapChunks (p := 0) (k := 0)
    (keepsChunks_xtsBytes (complementAes.encrypt ()) (complementAes.encrypt () (movzx128 lba)))
    hblocks (Nat.div_pos (Nat.le_of_dvd hpos hdvd) (by decide))
  rw [aesXtsBytes] at h
  rw [h, Nat.zero_mul, List.drop_zero] at hfirst
  have hblock := congrArg Block.ofBytes hfirst
  rw [xtsBytes, Block.ofBytes_toBytes] at hblock
  have hbit := congrArg (fun b : Block => b.q0.getLsbD 0) hblock
  simp only [xor128, complementAes, BitVec.getLsbD_xor, BitVec.getLsbD_not] at hbit
  revert hbit
  cases (Block.ofBytes (bs.take aesBlkBytes)).q0.getLsbD 0 <;> simp

/-- Two entries of a configuration, the one with the higher range first. -/
def unorderedConf : List StorageKeysConf :=
  [⟨100, 200, "aes-xts", 0, 256⟩, ⟨0, 50, "aes-xts", 0, 256⟩]

/-- For a sector with an address of its own: no entry that starts above it stands before the
first that covers it. -/
theorem rightEntry_iff {ranges : List LbaRange} {p : Nat} (hp : p < 2 ^ 64) :
    RightEntry ranges p ↔ ((∃ s ∈ ranges, s.Covers (BitVec.ofNat 64 p)) →
      ∃ before r after, ranges = before ++ r :: after ∧ r.Covers (BitVec.ofNat 64 p) ∧
        ∀ s ∈ before, s.lbaLow.toNat ≤ p) := by
  have hcovers : ∀ s : LbaRange, s.Covers (BitVec.ofNat 64 p) ↔
      s.lbaLow.toNat ≤ p ∧ p ≤ s.lbaHigh.toNat := by
    intro s
    rw [LbaRange.Covers, BitVec.le_def, BitVec.le_def, toNat_ofNat_of_lt hp]
  have hholds : ∀ s : LbaRange, s.Covers (BitVec.ofNat 64 p) → s.Holds p := fun s h =>
    .inr (.inl ((hcovers s).mp h).2)
  rw [RightEntry]
  cases hg : governingRange ranges p with
  | none =>
    have hnone : ∀ s ∈ ranges, ¬s.Covers (BitVec.ofNat 64 p) := fun s hs hcov =>
      List.find?_eq_none.mp hg s hs (decide_eq_true (hholds s hcov))
    refine ⟨?_, fun _ => hnone⟩
    rintro - ⟨s, hs, hcov⟩
    exact absurd hcov (hnone s hs)
  | some r =>
    obtain ⟨hr, before, after, rfl, hbefore⟩ := List.find?_eq_some_iff_append.mp hg
    have hrholds : r.Holds p := of_decide_eq_true hr
    have hbelow : ∀ s ∈ before, s.lbaLow.toNat ≤ p := by
      intro s hs
      by_contra hlt
      have hs' := hbefore s hs
      simp [LbaRange.Holds, Nat.lt_of_not_le hlt] at hs'
    simp only
    split
    · next hlow =>
      have hhigh : p ≤ r.lbaHigh.toNat := by
        rcases hrholds with h | h | h
        · omega
        · exact h
        · rw [h, BitVec.toNat_allOnes]
          omega
      have hcov := (hcovers r).mpr ⟨hlow, hhigh⟩
      exact ⟨fun _ _ => ⟨before, r, after, rfl, hcov, hbelow⟩, fun _ => hcov⟩
    · next hlow =>
      refine ⟨?_, fun h s hs hcov => ?_⟩
      · rintro hnone ⟨s, hs, hcov⟩
        exact absurd hcov (hnone s hs)
      -- the first entry that covers the sector would be the one the pass comes to
      obtain ⟨before', r', after', heq, hcov', hbelow'⟩ := h ⟨s, hs, hcov⟩
      rw [governingRange, heq, List.find?_append] at hg
      cases hfirst : before'.find? fun r => decide (r.Holds p) with
      | some t =>
        rw [hfirst] at hg
        cases hg
        exact hlow (hbelow' r (List.mem_of_find?_eq_some hfirst))
      | none =>
        rw [hfirst, List.find?_cons_of_pos (by simpa using hholds r' hcov')] at hg
        cases hg
        exact hlow ((hcovers r).mp hcov').1

/-- A table in the order of its low ends is in order for every request that does not run past
the last address. -/
theorem inOrder_of_sorted {ranges : List LbaRange}
    (hsorted : ranges.Pairwise fun r s => r.lbaLow ≤ s.lbaLow) {lba : Lba} {count : Nat}
    (hend : lba.toNat + count ≤ 2 ^ 64) : InOrder ranges lba count := by
  intro k hk
  have hp : lba.toNat + k < 2 ^ 64 := by omega
  refine (rightEntry_iff hp).mpr fun ⟨s, hs, hcov⟩ => ?_
  obtain ⟨before, after, rfl⟩ := List.append_of_mem hs
  refine ⟨before, s, after, rfl, hcov, fun r hr => ?_⟩
  have hle := (List.pairwise_append.mp hsorted).2.2 r hr s List.mem_cons_self
  have hlow := hcov.1
  rw [BitVec.le_def] at hle hlow
  rw [toNat_ofNat_of_lt hp] at hlow
  omega

end OnDemandVirt.Storage
