import Mathlib.Data.List.Basic
import Mathlib.Tactic.Common

/-!
# Byte memory and chunks of bytes

A memory of bytes with its block reads and writes, and programs that take a block in chunks of
`w` bytes, a chunk at a time, each with a function of its own (`eachChunk`). Where a program reads
and writes the same block, or two blocks that have no byte in common, it writes what the function
of the bytes gives (`eachChunk_eq_write`), so that two programs are compared as functions of lists
(`mapChunks`).
-/

namespace OnDemandVirt.Lib

/-- A memory, by byte address. -/
abbrev ByteMem := Nat → BitVec 8

namespace ByteMem

/-- The `n` bytes from `a`. -/
def read (m : ByteMem) (a n : Nat) : List (BitVec 8) := (List.range n).map fun i => m (a + i)

/-- The bytes written from `a` on. -/
def write (m : ByteMem) (a : Nat) (bs : List (BitVec 8)) : ByteMem :=
  fun x => if a ≤ x then (bs[x - a]?).getD (m x) else m x

/-- `memcpy`. -/
def copy (m : ByteMem) (dst src n : Nat) : ByteMem := m.write dst (m.read src n)

variable (m : ByteMem) (a b n k : Nat) (bs cs : List (BitVec 8))

@[simp] theorem length_read : (m.read a n).length = n := by simp [read]

@[simp] theorem read_zero : m.read a 0 = [] := rfl

theorem getElem?_read {i : Nat} (hi : i < n) : (m.read a n)[i]? = some (m (a + i)) := by
  simp [read, hi]

theorem read_add : m.read a (n + k) = m.read a n ++ m.read (a + n) k := by
  simp [read, List.range_add, Function.comp_def, Nat.add_assoc]

theorem read_congr {m' : ByteMem} (h : ∀ i < n, m (a + i) = m' (b + i)) :
    m.read a n = m'.read b n := by
  simpa [read] using h

/-- The bytes from `k` on of a block that has them. -/
theorem drop_take_read {l : Nat} (h : k + l ≤ n) :
    ((m.read a n).drop k).take l = m.read (a + k) l := by
  obtain ⟨r, rfl⟩ := Nat.exists_eq_add_of_le h
  rw [Nat.add_assoc, read_add, List.drop_left' (length_read _ _ _), read_add,
    List.take_left' (length_read _ _ _)]

theorem write_apply_lt {x : Nat} (h : x < a) : m.write a bs x = m x :=
  if_neg (by omega)

theorem write_apply_ge {x : Nat} (h : a + bs.length ≤ x) : m.write a bs x = m x := by
  rw [write, List.getElem?_eq_none (by omega)]
  simp

theorem write_apply_add {i : Nat} (h : i < bs.length) : m.write a bs (a + i) = bs[i] := by
  rw [write, if_pos (by omega), Nat.add_sub_cancel_left, List.getElem?_eq_getElem h]
  rfl

@[simp] theorem write_nil : m.write a [] = m := by
  funext x
  simp [write]

theorem write_append : m.write a (bs ++ cs) = (m.write a bs).write (a + bs.length) cs := by
  funext x
  rcases Nat.lt_or_ge x a with hlt | hge
  · rw [write_apply_lt _ _ _ hlt, write_apply_lt _ _ _ (by omega), write_apply_lt _ _ _ hlt]
  · obtain ⟨i, rfl⟩ := Nat.exists_eq_add_of_le hge
    rcases Nat.lt_or_ge i bs.length with hi | hi
    · rw [write_apply_lt _ (a + bs.length) _ (by omega), write_apply_add _ _ _ hi,
        write_apply_add _ _ _ (by simp; omega), List.getElem_append_left hi]
    · obtain ⟨j, rfl⟩ := Nat.exists_eq_add_of_le hi
      rcases Nat.lt_or_ge j cs.length with hj | hj
      · rw [← Nat.add_assoc a, write_apply_add _ _ _ hj, Nat.add_assoc a,
          write_apply_add _ _ _ (by simp; omega), List.getElem_append_right (by omega)]
        simp
      · rw [write_apply_ge _ _ _ (by simp; omega), write_apply_ge _ _ _ (by omega),
          write_apply_ge _ _ _ (by omega)]

/-- A block that has no byte in common with what is written. -/
theorem read_write_of_disjoint (h : a + n ≤ b ∨ b + bs.length ≤ a) :
    (m.write b bs).read a n = m.read a n := by
  refine read_congr _ _ _ _ fun i hi => ?_
  rcases h with h | h
  · exact write_apply_lt _ _ _ (by omega)
  · exact write_apply_ge _ _ _ (by omega)

theorem read_write_self : (m.write a bs).read a bs.length = bs := by
  refine List.ext_getElem (length_read _ _ _) fun i _ hi => ?_
  simp [read, write_apply_add _ _ _ hi]

theorem read_write_all (h : bs.length = n) : (m.write a bs).read a n = bs := by
  rw [← h, read_write_self]

/-- Part of what is written. -/
theorem read_write_part {l : Nat} (h : k + l ≤ bs.length) :
    (m.write a bs).read (a + k) l = (bs.drop k).take l := by
  rw [← drop_take_read (m.write a bs) a bs.length k h, read_write_self]

theorem write_read_self : m.write a (m.read a n) = m := by
  funext x
  rcases Nat.lt_or_ge x a with hlt | hge
  · exact write_apply_lt _ _ _ hlt
  · obtain ⟨i, rfl⟩ := Nat.exists_eq_add_of_le hge
    rcases Nat.lt_or_ge i n with hi | hi
    · rw [write_apply_add _ _ _ (by simpa using hi)]
      simp [read]
    · exact write_apply_ge _ _ _ (by simpa using hi)

theorem write_write_self (h : bs.length = cs.length) : (m.write a bs).write a cs = m.write a cs := by
  funext x
  rcases Nat.lt_or_ge x a with hlt | hge
  · rw [write_apply_lt _ _ _ hlt, write_apply_lt _ _ _ hlt, write_apply_lt _ _ _ hlt]
  · obtain ⟨i, rfl⟩ := Nat.exists_eq_add_of_le hge
    rcases Nat.lt_or_ge i cs.length with hi | hi
    · rw [write_apply_add _ _ _ hi, write_apply_add _ _ _ hi]
    · rw [write_apply_ge _ _ _ (by omega), write_apply_ge _ _ _ (by omega),
        write_apply_ge _ _ _ (by omega)]

end ByteMem

/-! ### Chunks -/

/-- The blocks are one block, or have no byte in common. -/
def CopySafe (dst src n : Nat) : Prop := dst = src ∨ dst + n ≤ src ∨ src + n ≤ dst

instance (dst src n : Nat) : Decidable (CopySafe dst src n) :=
  inferInstanceAs (Decidable (_ ∨ _))

theorem CopySafe.head {dst src n k : Nat} (h : CopySafe dst src (n + k)) : CopySafe dst src n := by
  rcases h with h | h | h
  · exact .inl h
  · exact .inr (.inl (by omega))
  · exact .inr (.inr (by omega))

theorem CopySafe.tail {dst src n k : Nat} (h : CopySafe dst src (n + k)) :
    CopySafe (dst + n) (src + n) k := by
  rcases h with h | h | h
  · exact .inl (by omega)
  · exact .inr (.inl (by omega))
  · exact .inr (.inr (by omega))

variable {w : Nat} {F G : Nat → List (BitVec 8) → List (BitVec 8)}

variable (w F) in
/-- The `n` chunks of a list, numbered from `p`, each through its function. -/
def mapChunks : Nat → Nat → List (BitVec 8) → List (BitVec 8)
  | _, 0, _ => []
  | p, n + 1, bs => F p (bs.take w) ++ mapChunks (p + 1) n (bs.drop w)

variable (w F) in
/-- The program: a chunk is read from `src` and written to `dst` before the next one is read. -/
def eachChunk : Nat → Nat → (dst src : Nat) → ByteMem → ByteMem
  | _, 0, _, _, m => m
  | p, n + 1, dst, src, m =>
    eachChunk (p + 1) n (dst + w) (src + w) (m.write dst (F p (m.read src w)))

theorem eachChunk_add (p n k dst src : Nat) (m : ByteMem) :
    eachChunk w F p (n + k) dst src m =
      eachChunk w F (p + n) k (dst + n * w) (src + n * w) (eachChunk w F p n dst src m) := by
  induction n generalizing p dst src m with
  | zero => simp [eachChunk]
  | succ n ih =>
    have hd : dst + w + n * w = dst + (n + 1) * w := by rw [Nat.succ_mul]; omega
    have hs : src + w + n * w = src + (n + 1) * w := by rw [Nat.succ_mul]; omega
    rw [Nat.add_right_comm, eachChunk, ih, eachChunk, hd, hs, Nat.add_assoc p, Nat.add_comm 1 n]

theorem eachChunk_congr {p n : Nat} (h : ∀ q, p ≤ q → q < p + n → F q = G q) (dst src : Nat)
    (m : ByteMem) : eachChunk w F p n dst src m = eachChunk w G p n dst src m := by
  induction n generalizing p dst src m with
  | zero => rfl
  | succ n ih =>
    rw [eachChunk, eachChunk, h p (Nat.le_refl p) (by omega),
      ih fun q hq hq' => h q (by omega) (by omega)]

/-- A function that gives a chunk for a chunk. -/
def KeepsChunks (w : Nat) (F : Nat → List (BitVec 8) → List (BitVec 8)) : Prop :=
  ∀ p bs, bs.length = w → (F p bs).length = w

theorem length_mapChunks (hF : KeepsChunks w F) {p n : Nat} {bs : List (BitVec 8)}
    (h : bs.length = n * w) : (mapChunks w F p n bs).length = n * w := by
  induction n generalizing p bs with
  | zero => simp [mapChunks]
  | succ n ih =>
    rw [Nat.succ_mul] at h ⊢
    rw [mapChunks, List.length_append, hF p _ (by simp; omega), ih (by simp; omega)]
    omega

/-- The chunk `k` of the result is the function of the chunk `k`. -/
theorem chunk_mapChunks (hF : KeepsChunks w F) {p n k : Nat} {bs : List (BitVec 8)}
    (h : bs.length = n * w) (hk : k < n) :
    ((mapChunks w F p n bs).drop (k * w)).take w = F (p + k) ((bs.drop (k * w)).take w) := by
  induction n generalizing p bs k with
  | zero => omega
  | succ n ih =>
    rw [Nat.succ_mul] at h
    have hlen : (F p (bs.take w)).length = w := hF p _ (by simp; omega)
    rw [mapChunks]
    cases k with
    | zero =>
      simp only [Nat.zero_mul, List.drop_zero, Nat.add_zero]
      exact List.take_left' hlen
    | succ k =>
      have hdrop : (F p (bs.take w) ++ mapChunks w F (p + 1) n (bs.drop w)).drop ((k + 1) * w) =
          (mapChunks w F (p + 1) n (bs.drop w)).drop (k * w) := by
        rw [Nat.succ_mul, Nat.add_comm, ← List.drop_drop, List.drop_left' hlen]
      rw [hdrop, ih (by simp; omega) (by omega), List.drop_drop, Nat.succ_mul, Nat.add_comm w,
        Nat.add_assoc p, Nat.add_comm 1 k]

/-- A function that every chunk of the result is taken back by. -/
theorem mapChunks_mapChunks_cancel (hF : KeepsChunks w F)
    (h : ∀ p bs, bs.length = w → G p (F p bs) = bs) {p n : Nat} {bs : List (BitVec 8)}
    (hlen : bs.length = n * w) : mapChunks w G p n (mapChunks w F p n bs) = bs := by
  induction n generalizing p bs with
  | zero => exact (List.eq_nil_of_length_eq_zero (by simpa using hlen)).symm
  | succ n ih =>
    rw [Nat.succ_mul] at hlen
    have htake : (bs.take w).length = w := by simp; omega
    have hchunk : (F p (bs.take w)).length = w := hF p _ htake
    rw [mapChunks, mapChunks, List.take_left' hchunk, List.drop_left' hchunk, h p _ htake,
      ih (by simp; omega), List.take_append_drop]

/-- The program writes what the function of the bytes gives. -/
theorem eachChunk_eq_write (hF : KeepsChunks w F) {p n dst src : Nat} (m : ByteMem)
    (hsafe : CopySafe dst src (n * w)) :
    eachChunk w F p n dst src m = m.write dst (mapChunks w F p n (m.read src (n * w))) := by
  induction n generalizing p dst src m with
  | zero => simp [eachChunk, mapChunks]
  | succ n ih =>
    rw [Nat.succ_mul] at hsafe ⊢
    have hlen : (F p (m.read src w)).length = w := hF p _ (ByteMem.length_read _ _ _)
    have hread : (m.write dst (F p (m.read src w))).read (src + w) (n * w) =
        m.read (src + w) (n * w) := by
      refine ByteMem.read_write_of_disjoint _ _ _ _ _ ?_
      rw [hlen]
      rcases hsafe with h | h | h <;> omega
    have hsplit : m.read src (n * w + w) = m.read src w ++ m.read (src + w) (n * w) := by
      rw [Nat.add_comm, ByteMem.read_add]
    rw [eachChunk, ih _ (Nat.add_comm _ w ▸ hsafe).tail, hread,
      mapChunks, hsplit, List.take_left' (ByteMem.length_read _ _ _),
      List.drop_left' (ByteMem.length_read _ _ _), ByteMem.write_append, hlen]

/-- Copying is the program that leaves every chunk as it is. -/
theorem mapChunks_id {p n : Nat} {bs : List (BitVec 8)} (h : bs.length = n * w) :
    mapChunks w (fun _ cs => cs) p n bs = bs := by
  induction n generalizing p bs with
  | zero => exact (List.eq_nil_of_length_eq_zero (by simpa using h)).symm
  | succ n ih =>
    rw [Nat.succ_mul] at h
    rw [mapChunks, ih (by simp; omega), List.take_append_drop]

theorem copy_eq_eachChunk {p n dst src : Nat} (m : ByteMem) (hsafe : CopySafe dst src (n * w)) :
    m.copy dst src (n * w) = eachChunk w (fun _ cs => cs) p n dst src m := by
  rw [eachChunk_eq_write (fun _ _ h => h) m hsafe, mapChunks_id (ByteMem.length_read _ _ _),
    ByteMem.copy]

end OnDemandVirt.Lib
