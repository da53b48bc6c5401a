import Mathlib.Data.List.Basic
import Mathlib.Tactic.Common

/-!
# Matching the buffers of a transfer

`usb_match_buffers` compares 8 bytes of the data of a transfer with each pattern of a hook. The data
of a PID lies in chunks. The function looks for a chunk that begins at or behind the offset of the
pattern, where it would need the one that begins at or before it, and counts the offset from the
beginning of that chunk. So it compares the bytes of the pattern's offset for a pattern at offset 0
whose 8 bytes lie in the first chunk, which is what all hooks of the drivers look for; with other
chunks it compares other bytes, or reads past the chunk (`matched_iff`).
-/

namespace OnDemandVirt.Usb

/-- `struct usb_hook_pattern`. -/
structure HookPattern where
  pid : BitVec 8
  offset : BitVec 32
  mask : BitVec 64
  pattern : BitVec 64

/-- An entry of the buffer list, with the bytes it designates. -/
structure Chunk where
  pid : BitVec 8
  offset : Nat
  bytes : List (BitVec 8)

def Chunk.len (be : Chunk) : Nat := be.bytes.length

/-- A byte of the mapping of a chunk; none where the address is outside of it. -/
def Chunk.byte (be : Chunk) (i : Int) : Option (BitVec 8) :=
  if 0 ≤ i then be.bytes[i.toNat]? else none

/-- A little-endian quadword. -/
def qword : List (BitVec 8) → BitVec 64
  | [] => 0
  | b :: bs => b.setWidth 64 ||| qword bs <<< 8

/-- The bytes at the given addresses, if all of them are inside. -/
def readAll (at' : Nat → Option (BitVec 8)) : List Nat → Option (List (BitVec 8))
  | [] => some []
  | i :: is => (at' i).bind fun b => (readAll at' is).map (b :: ·)

/-- "look for a buffer chunk": the chunk, and the chunks behind it. -/
def findChunk (data : HookPattern) : List Chunk → Option (Chunk × List Chunk)
  | [] => none
  | be :: bes =>
    if data.pid = be.pid ∧ data.offset.toNat ≤ be.offset then some (be, bes)
    else findChunk data bes

/-- "extract the target data". `none` is a read outside the chunks; `some none` is `return -1`. -/
def extractTarget (data : HookPattern) (be : Chunk) (next : List Chunk) :
    Option (Option (BitVec 64)) :=
  let len := be.offset + be.len - data.offset.toNat
  if len < 8 then
    (readAll (fun i => be.byte ((data.offset.toNat : Int) - be.offset + (i + 1))) (List.range len)).bind
      fun former =>
        match next with
        | [] => some none
        | be :: _ =>
          if be.pid ≠ data.pid then some none
          else (readAll (fun i => be.byte ((data.offset.toNat : Int) - be.offset + i))
            (List.range' len (8 - len))).map fun latter => some (qword (former ++ latter))
  else
    (readAll (fun i => be.byte (data.offset.toNat + i)) (List.range 8)).map fun bs =>
      some (qword bs)

/-- `usb_match_buffers`. -/
def usbMatchBuffers : List HookPattern → List Chunk → Option Int
  | [], _ => some 0
  | data :: rest, buffers =>
    match findChunk data buffers with
    | none => some (-1)
    | some (be, next) =>
      match extractTarget data be next with
      | none => none
      | some none => some (-1)
      | some (some target) =>
        if target &&& data.mask ≠ data.pattern then some (-1) else usbMatchBuffers rest buffers

/-! ### Chunks -/

/-- The chunks that `make_buffer_list` of the EHCI driver makes of buffers with these PIDs and bytes:
"reset the offset if different pid". -/
def assignOffsets (lastPid : BitVec 8) (offset : Nat) :
    List (BitVec 8 × List (BitVec 8)) → List Chunk
  | [] => []
  | (pid, bytes) :: rest =>
    let offset := if pid ≠ lastPid then 0 else offset
    ⟨pid, offset, bytes⟩ :: assignOffsets pid (offset + bytes.length) rest

/-- The data of a PID. -/
def dataOf (pid : BitVec 8) (cs : List Chunk) : List (BitVec 8) :=
  (cs.filter fun be => be.pid = pid).flatMap Chunk.bytes

/-- The 8 bytes from `w` on in the data of its PID, masked, equal the pattern. -/
def HookPattern.MatchesAt (data : HookPattern) (cs : List Chunk) (w : Nat) : Prop :=
  w + 8 ≤ (dataOf data.pid cs).length ∧
    qword (((dataOf data.pid cs).drop w).take 8) &&& data.mask = data.pattern

/-- The function reads inside the chunks only, and returns 0 exactly if every pattern matches. -/
def Matched (cs : List Chunk) (patterns : List HookPattern) : Prop :=
  ∃ r, usbMatchBuffers patterns cs = some r ∧
    (r = 0 ↔ ∀ data ∈ patterns, data.MatchesAt cs data.offset.toNat)

/-- No chunk of the PID begins at or behind the offset. -/
def HookPattern.Misses (data : HookPattern) (cs : List Chunk) : Prop :=
  ∀ c ∈ cs, ¬(data.pid = c.pid ∧ data.offset.toNat ≤ c.offset)

/-- The chunk is the first of the PID that begins at or behind the offset. -/
structure FirstBehind (data : HookPattern) (cs pre : List Chunk) (be : Chunk) (next : List Chunk) :
    Prop where
  split : cs = pre ++ be :: next
  before : data.Misses pre
  pid : data.pid = be.pid
  behind : data.offset.toNat ≤ be.offset

/-- Where in the data of its PID a pattern is compared: nowhere, if the pattern is rejected for
want of a chunk. -/
inductive Compares (data : HookPattern) (cs : List Chunk) : Option Nat → Prop
  | missing : data.Misses cs → Compares data cs none
  /-- The chunk has 8 bytes from the offset on, counted from its own beginning. -/
  | inside {pre be next} : FirstBehind data cs pre be next → data.offset.toNat + 8 ≤ be.len →
      Compares data cs (some ((dataOf data.pid pre).length + data.offset.toNat))
  /-- The chunk is empty and begins at the offset; the one behind it has 8 bytes from the offset
  on. -/
  | behind {pre be be' next} : FirstBehind data cs pre be (be' :: next) → be.len = 0 →
      be.offset = data.offset.toNat → be'.pid = data.pid → be'.offset ≤ data.offset.toNat →
      data.offset.toNat - be'.offset + 8 ≤ be'.len →
      Compares data cs (some ((dataOf data.pid pre).length + (data.offset.toNat - be'.offset)))
  /-- The chunk is empty and begins at the offset; there is none behind it, or one of another PID. -/
  | cut {pre be next} : FirstBehind data cs pre be next → be.len = 0 →
      be.offset = data.offset.toNat → (∀ be' ∈ next.head?, be'.pid ≠ data.pid) →
      Compares data cs none

/-- What is compared for a pattern matches it. -/
def HookPattern.Accepted (data : HookPattern) (cs : List Chunk) : Prop :=
  ∃ w, Compares data cs (some w) ∧ data.MatchesAt cs w

/-- The chunks let the function decide: every pattern it gets to is compared inside the chunks or
rejected for want of one, and the bytes that are compared match all patterns exactly if the bytes at
the offsets of the patterns do. -/
structure Decides (cs : List Chunk) (patterns : List HookPattern) : Prop where
  inside : ∀ pre data post, patterns = pre ++ data :: post → (∀ q ∈ pre, q.Accepted cs) →
    ∃ w, Compares data cs w
  verdict : (∀ data ∈ patterns, data.Accepted cs) ↔
    ∀ data ∈ patterns, data.MatchesAt cs data.offset.toNat

variable {data : HookPattern} {be be' : Chunk} {pre next cs : List Chunk}

/-! ### Reading -/

theorem readAll_eq_none {f : Nat → Option (BitVec 8)} {is : List Nat} {i : Nat} (hi : i ∈ is)
    (hf : f i = none) : readAll f is = none := by
  induction is with
  | nil => cases hi
  | cons j is ih =>
    rw [readAll]
    rcases List.mem_cons.mp hi with rfl | hi
    · rw [hf]
      rfl
    · rw [ih hi]
      cases f j <;> rfl

theorem readAll_range' {f : Nat → Option (BitVec 8)} {bytes : List (BitVec 8)} {a : Nat} (n : Nat)
    (start : Nat) (hf : ∀ i, start ≤ i → i < start + n → f i = bytes[a + (i - start)]?)
    (hfits : a + n ≤ bytes.length) :
    readAll f (List.range' start n) = some ((bytes.drop a).take n) := by
  induction n generalizing a start with
  | zero => simp [readAll]
  | succ n ih =>
    have hlt : a < bytes.length := by omega
    rw [List.range'_succ, readAll, hf start (Nat.le_refl _) (by omega), Nat.sub_self, Nat.add_zero,
      List.getElem?_eq_getElem hlt, Option.bind_some,
      ih (a := a + 1) (start + 1) (fun i h1 h2 => ?_) (by omega), Option.map_some,
      List.drop_eq_getElem_cons hlt, List.take_succ_cons]
    rw [hf i (by omega) (by omega)]
    congr 1
    omega

theorem byte_of_nonneg {i : Int} (h : 0 ≤ i) : be.byte i = be.bytes[i.toNat]? := if_pos h

theorem byte_len {i : Int} (h : (be.len : Int) ≤ i) : be.byte i = none := by
  rw [byte_of_nonneg (by omega), List.getElem?_eq_none]
  rw [Chunk.len] at h
  omega

/-! ### The data of a PID -/

theorem dataOf_append (pid : BitVec 8) (cs ds : List Chunk) :
    dataOf pid (cs ++ ds) = dataOf pid cs ++ dataOf pid ds := by
  rw [dataOf, List.filter_append, List.flatMap_append, dataOf, dataOf]

theorem dataOf_cons {pid : BitVec 8} (h : be.pid = pid) (cs : List Chunk) :
    dataOf pid (be :: cs) = be.bytes ++ dataOf pid cs := by
  rw [dataOf, List.filter_cons_of_pos (by simpa using h), List.flatMap_cons, dataOf]

/-- A part of a chunk is a part of the data. -/
theorem chunk_part (hsplit : cs = pre ++ be :: next) {a n : Nat} (hfits : a + n ≤ be.len) :
    (dataOf be.pid pre).length + a + n ≤ (dataOf be.pid cs).length ∧
      ((dataOf be.pid cs).drop ((dataOf be.pid pre).length + a)).take n =
        (be.bytes.drop a).take n := by
  rw [Chunk.len] at hfits
  have hdata : dataOf be.pid cs = dataOf be.pid pre ++ (be.bytes ++ dataOf be.pid next) := by
    rw [hsplit, dataOf_append, dataOf_cons rfl]
  rw [hdata]
  constructor
  · simp only [List.length_append]
    omega
  · rw [← List.drop_drop, List.drop_left' rfl, List.drop_append_of_le_length (by omega),
      List.take_append_of_le_length (by rw [List.length_drop]; omega)]

/-! ### Where the function looks -/

theorem findChunk_eq_none : findChunk data cs = none ↔ data.Misses cs := by
  induction cs with
  | nil => exact ⟨fun _ => nofun, fun _ => rfl⟩
  | cons c cs ih =>
    rw [findChunk]
    split
    next h => exact ⟨nofun, fun hall => absurd h (hall c List.mem_cons_self)⟩
    next h =>
      rw [ih, HookPattern.Misses, HookPattern.Misses, List.forall_mem_cons]
      exact ⟨fun hcs => ⟨h, hcs⟩, fun hcs => hcs.2⟩

theorem findChunk_eq_some :
    findChunk data cs = some (be, next) ↔ ∃ pre, FirstBehind data cs pre be next := by
  induction cs with
  | nil =>
    refine ⟨nofun, fun ⟨pre, h⟩ => ?_⟩
    have := h.split
    simp at this
  | cons c cs ih =>
    rw [findChunk]
    split
    next hc =>
      constructor
      · intro h
        cases h
        exact ⟨[], rfl, nofun, hc.1, hc.2⟩
      · rintro ⟨pre, h⟩
        cases pre with
        | nil =>
          cases h.split
          rfl
        | cons d pre =>
          obtain ⟨rfl, -⟩ := List.cons.inj h.split
          exact absurd hc (h.before c List.mem_cons_self)
    next hc =>
      rw [ih]
      constructor
      · rintro ⟨pre, h⟩
        exact ⟨c :: pre, by rw [h.split, List.cons_append], List.forall_mem_cons.mpr ⟨hc, h.before⟩,
          h.pid, h.behind⟩
      · rintro ⟨pre, h⟩
        cases pre with
        | nil =>
          cases h.split
          exact absurd ⟨h.pid, h.behind⟩ hc
        | cons d pre =>
          exact ⟨pre, (List.cons.inj h.split).2, fun c hc => h.before c (List.mem_cons_of_mem _ hc),
            h.pid, h.behind⟩

theorem FirstBehind.unique {pre₁ pre₂ next₁ next₂ : List Chunk} {be₁ be₂ : Chunk}
    (h₁ : FirstBehind data cs pre₁ be₁ next₁) (h₂ : FirstBehind data cs pre₂ be₂ next₂) :
    pre₁ = pre₂ ∧ be₁ = be₂ ∧ next₁ = next₂ := by
  have h := (findChunk_eq_some.2 ⟨_, h₁⟩).symm.trans (findChunk_eq_some.2 ⟨_, h₂⟩)
  obtain ⟨rfl, rfl⟩ : be₁ = be₂ ∧ next₁ = next₂ := by simpa using h
  exact ⟨List.append_cancel_right (h₁.split.symm.trans h₂.split), rfl, rfl⟩

theorem FirstBehind.not_misses (h : FirstBehind data cs pre be next) : ¬data.Misses cs :=
  fun hall => hall be (by simp [h.split]) ⟨h.pid, h.behind⟩

/-- A pattern is compared at one place. -/
theorem Compares.unique {w w' : Option Nat} (h : Compares data cs w) (h' : Compares data cs w') :
    w = w' := by
  cases h with
  | missing hm =>
    cases h' with
    | missing => rfl
    | inside hf => exact absurd hm hf.not_misses
    | behind hf => exact absurd hm hf.not_misses
    | cut => rfl
  | inside hf hlen =>
    cases h' with
    | missing hm => exact absurd hm hf.not_misses
    | inside hf' => rw [(hf.unique hf').1]
    | behind hf' hzero =>
      rw [(hf.unique hf').2.1] at hlen
      omega
    | cut hf' hzero =>
      rw [(hf.unique hf').2.1] at hlen
      omega
  | behind hf hzero hoff hpid hle hlen =>
    cases h' with
    | missing hm => exact absurd hm hf.not_misses
    | inside hf' hlen' =>
      rw [← (hf.unique hf').2.1] at hlen'
      omega
    | behind hf' =>
      obtain ⟨hpre, -, hnext⟩ := hf.unique hf'
      rw [hpre, (List.cons.inj hnext).1]
    | cut hf' _ _ hnext =>
      have := (hf.unique hf').2.2
      exact absurd hpid (hnext _ (by rw [← this]; rfl))
  | cut hf hzero hoff hnext =>
    cases h' with
    | missing => rfl
    | inside hf' hlen' =>
      rw [← (hf.unique hf').2.1] at hlen'
      omega
    | behind hf' _ _ hpid =>
      have := (hf.unique hf').2.2
      exact absurd hpid (hnext _ (by rw [this]; rfl))
    | cut => rfl

/-- Where the chunk found is not empty and ends inside the 8 bytes, nothing is decided. -/
theorem FirstBehind.not_compares (hf : FirstBehind data cs pre be next)
    (hshort : be.len < data.offset.toNat + 8)
    (hempty : be.len = 0 → be.offset = data.offset.toNat →
      ∃ be' ∈ next.head?, be'.pid = data.pid ∧
        ¬(be'.offset ≤ data.offset.toNat ∧ data.offset.toNat - be'.offset + 8 ≤ be'.len))
    (w : Option Nat) : ¬Compares data cs w := by
  intro hw
  cases hw with
  | missing hm => exact hf.not_misses hm
  | inside hf' hlen' =>
    rw [← (hf.unique hf').2.1] at hlen'
    omega
  | behind hf' h0 hoff _ hle hlen' =>
    obtain ⟨-, hbe, hnext⟩ := hf.unique hf'
    rw [← hbe] at h0 hoff
    obtain ⟨c, hc, -, hnot⟩ := hempty h0 hoff
    rw [hnext] at hc
    cases hc
    exact hnot ⟨hle, hlen'⟩
  | cut hf' h0 hoff hnone =>
    obtain ⟨-, hbe, hnext⟩ := hf.unique hf'
    rw [← hbe] at h0 hoff
    obtain ⟨c, hc, hpid, -⟩ := hempty h0 hoff
    exact hnone c (hnext ▸ hc) hpid

/-- What the function extracts from the chunk it has found. -/
theorem extractTarget_cases (hf : FirstBehind data cs pre be next) :
    (extractTarget data be next = none ∧ ∀ w, ¬Compares data cs w) ∨
    (extractTarget data be next = some none ∧ Compares data cs none) ∨
    ∃ w, Compares data cs (some w) ∧ w + 8 ≤ (dataOf data.pid cs).length ∧
      extractTarget data be next = some (some (qword (((dataOf data.pid cs).drop w).take 8))) := by
  have hbehind := hf.behind
  rw [extractTarget]
  by_cases hlong : be.offset + be.len - data.offset.toNat < 8
  · rw [if_pos hlong]
    by_cases hzero : be.offset + be.len - data.offset.toNat = 0
    · -- an empty chunk: the loop over the former part does nothing
      have hempty : be.len = 0 := by omega
      have hoff : be.offset = data.offset.toNat := by omega
      rw [hzero]
      cases next with
      | nil => exact .inr (.inl ⟨rfl, .cut hf hempty hoff nofun⟩)
      | cons be' next =>
        by_cases hpid : be'.pid = data.pid
        · by_cases hin : be'.offset ≤ data.offset.toNat ∧
              data.offset.toNat - be'.offset + 8 ≤ be'.len
          · have hread : readAll (fun i => be'.byte ((data.offset.toNat : Int) - be'.offset + i))
                (List.range' 0 (8 - 0)) =
                  some ((be'.bytes.drop (data.offset.toNat - be'.offset)).take 8) := by
              refine readAll_range' 8 0 (fun i _ _ => ?_) hin.2
              rw [byte_of_nonneg (by omega)]
              congr 1
              omega
            have hsplit : cs = (pre ++ [be]) ++ be' :: next := by
              rw [hf.split, List.append_assoc]
              rfl
            obtain ⟨hw, hpart⟩ := chunk_part hsplit hin.2
            have hplace : dataOf data.pid (pre ++ [be]) = dataOf data.pid pre := by
              rw [dataOf_append, dataOf_cons hf.pid.symm, List.length_eq_zero_iff.mp hempty]
              simp [dataOf]
            rw [hpid, hplace] at hw hpart
            refine .inr (.inr ⟨_, .behind hf hempty hoff hpid hin.1 hin.2, hw, ?_⟩)
            simp only [List.range_zero, readAll, Option.bind_some, ne_eq, hpid, not_true_eq_false,
              if_false, hread, Option.map_some, List.nil_append, hpart]
          · refine .inl ⟨?_, hf.not_compares (by omega) fun _ _ => ⟨be', rfl, hpid, hin⟩⟩
            have hread : readAll (fun i => be'.byte ((data.offset.toNat : Int) - be'.offset + i))
                (List.range' 0 (8 - 0)) = none := by
              by_cases hle : be'.offset ≤ data.offset.toNat
              · exact readAll_eq_none (i := 7) (by decide) (byte_len (by omega))
              · exact readAll_eq_none (i := 0) (by decide) (if_neg (by omega))
            simp only [List.range_zero, readAll, Option.bind_some, ne_eq, hpid, not_true_eq_false,
              if_false, hread, Option.map_none]
        · refine .inr (.inl ⟨?_, .cut hf hempty hoff fun c hc => ?_⟩)
          · simp only [List.range_zero, readAll, Option.bind_some, ne_eq, hpid, not_false_eq_true,
              if_true]
          · cases hc
            exact hpid
    · -- a chunk that ends inside the 8 bytes: the byte behind it is read
      refine .inl ⟨?_, hf.not_compares (by omega) fun _ _ => by omega⟩
      rw [readAll_eq_none (i := be.offset + be.len - data.offset.toNat - 1)
        (by rw [List.mem_range]; omega) (byte_len (by omega))]
      rfl
  · rw [if_neg hlong]
    by_cases hinside : data.offset.toNat + 8 ≤ be.len
    · have hread : readAll (fun i => be.byte (data.offset.toNat + i)) (List.range 8) =
          some ((be.bytes.drop data.offset.toNat).take 8) := by
        rw [List.range_eq_range']
        refine readAll_range' 8 0 (fun i _ _ => ?_) hinside
        rw [byte_of_nonneg (by omega)]
        congr 1
      obtain ⟨hw, hpart⟩ := chunk_part hf.split hinside
      rw [← hf.pid] at hw hpart
      exact .inr (.inr ⟨_, .inside hf hinside, hw, by rw [hread, hpart]; rfl⟩)
    · refine .inl ⟨?_, hf.not_compares (by omega) fun _ _ => by omega⟩
      rw [readAll_eq_none (i := 7) (by decide) (byte_len (by omega))]
      rfl

/-- One pattern: it is not decided inside the chunks, it is rejected, or the rest decides. -/
theorem usbMatchBuffers_cons (cs : List Chunk) (data : HookPattern) (rest : List HookPattern) :
    (usbMatchBuffers (data :: rest) cs = none ∧ ¬data.Accepted cs ∧
      ∀ w, ¬Compares data cs w) ∨
    (usbMatchBuffers (data :: rest) cs = some (-1) ∧ ¬data.Accepted cs ∧
      ∃ w, Compares data cs w) ∨
    (usbMatchBuffers (data :: rest) cs = usbMatchBuffers rest cs ∧ data.Accepted cs ∧
      ∃ w, Compares data cs w) := by
  rw [usbMatchBuffers]
  cases hfind : findChunk data cs with
  | none =>
    have hmissing : Compares data cs none := .missing (findChunk_eq_none.1 hfind)
    exact .inr (.inl ⟨rfl, fun ⟨w, hw, _⟩ => Option.some_ne_none w (hw.unique hmissing), _, hmissing⟩)
  | some found =>
    obtain ⟨be, next⟩ := found
    obtain ⟨pre, hf⟩ := findChunk_eq_some.1 hfind
    rcases extractTarget_cases hf with h | h | ⟨w, hw, hfits, h⟩
    · refine .inl ⟨?_, fun ⟨w, hw, _⟩ => h.2 _ hw, h.2⟩
      simp only [h.1]
    · refine .inr (.inl ⟨?_, fun ⟨w, hw, _⟩ => Option.some_ne_none w (hw.unique h.2), _, h.2⟩)
      simp only [h.1]
    · by_cases hmatch : qword (((dataOf data.pid cs).drop w).take 8) &&& data.mask = data.pattern
      · refine .inr (.inr ⟨?_, ⟨w, hw, hfits, hmatch⟩, _, hw⟩)
        simp only [h, hmatch, ne_eq, not_true_eq_false, if_false]
      · refine .inr (.inl ⟨?_, fun ⟨w', hw', hm⟩ => ?_, _, hw⟩)
        · simp only [h, ne_eq, hmatch, not_false_eq_true, if_true]
        · cases hw'.unique hw
          exact hmatch hm.2

/-- The function reads inside the chunks if every pattern it gets to is decided there. -/
theorem usbMatchBuffers_isSome (cs : List Chunk) (patterns : List HookPattern) :
    (∃ r, usbMatchBuffers patterns cs = some r) ↔
      ∀ pre data post, patterns = pre ++ data :: post → (∀ q ∈ pre, q.Accepted cs) →
        ∃ w, Compares data cs w := by
  induction patterns with
  | nil =>
    refine ⟨fun _ pre data post hsplit => ?_, fun _ => ⟨0, rfl⟩⟩
    cases pre <;> cases hsplit
  | cons data rest ih =>
    rcases usbMatchBuffers_cons cs data rest with ⟨hrun, -, hnot⟩ | ⟨hrun, hrej, hw⟩ | ⟨hrun, hacc, hw⟩
    · refine ⟨fun ⟨r, hr⟩ => ?_, fun hall => ?_⟩
      · rw [hrun] at hr
        cases hr
      · obtain ⟨w, hw⟩ := hall [] data rest rfl nofun
        exact absurd hw (hnot w)
    · refine ⟨fun _ pre q post hsplit hpre => ?_, fun _ => ⟨-1, hrun⟩⟩
      cases pre with
      | nil =>
        obtain ⟨rfl, -⟩ := List.cons.inj hsplit
        exact hw
      | cons q' pre =>
        obtain ⟨rfl, -⟩ := List.cons.inj hsplit
        exact absurd (hpre data List.mem_cons_self) hrej
    · rw [hrun, ih]
      constructor
      · intro hall pre q post hsplit hpre
        cases pre with
        | nil =>
          obtain ⟨rfl, -⟩ := List.cons.inj hsplit
          exact hw
        | cons q' pre =>
          obtain ⟨-, htail⟩ := List.cons.inj hsplit
          exact hall pre q post htail fun c hc => hpre c (List.mem_cons_of_mem _ hc)
      · intro hall pre q post hsplit hpre
        exact hall (data :: pre) q post (by rw [hsplit, List.cons_append])
          (List.forall_mem_cons.mpr ⟨hacc, hpre⟩)

/-- It returns 0 exactly if what it compares matches. -/
theorem usbMatchBuffers_eq_zero {patterns : List HookPattern} {r : Int}
    (hrun : usbMatchBuffers patterns cs = some r) :
    r = 0 ↔ ∀ data ∈ patterns, data.Accepted cs := by
  induction patterns with
  | nil =>
    cases hrun
    exact ⟨fun _ => nofun, fun _ => rfl⟩
  | cons data rest ih =>
    rcases usbMatchBuffers_cons cs data rest with ⟨h, -, -⟩ | ⟨h, hrej, -⟩ | ⟨h, hacc, -⟩
    · rw [h] at hrun
      cases hrun
    · rw [h] at hrun
      cases hrun
      exact ⟨nofun, fun hall => absurd (hall data List.mem_cons_self) hrej⟩
    · rw [h] at hrun
      rw [ih hrun, List.forall_mem_cons]
      exact ⟨fun hall => ⟨hacc, hall⟩, fun hall => hall.2⟩

/-! ### The result -/

/-- The function decides the match exactly for the transfers whose chunks let it. -/
theorem matched_iff (cs : List Chunk) (patterns : List HookPattern) :
    Matched cs patterns ↔ Decides cs patterns := by
  constructor
  · rintro ⟨r, hrun, hzero⟩
    exact ⟨(usbMatchBuffers_isSome cs patterns).mp ⟨r, hrun⟩,
      (usbMatchBuffers_eq_zero hrun).symm.trans hzero⟩
  · intro h
    obtain ⟨r, hrun⟩ := (usbMatchBuffers_isSome cs patterns).mpr h.inside
    exact ⟨r, hrun, (usbMatchBuffers_eq_zero hrun).trans h.verdict⟩

/-- The hooks of the drivers: patterns at offset 0, where the first chunk of the PID has 8 bytes. -/
theorem decides_of_first {patterns : List HookPattern}
    (hfirst : ∀ data ∈ patterns, data.offset = 0 ∧ ∃ pre be next, cs = pre ++ be :: next ∧
      (∀ c ∈ pre, c.pid ≠ data.pid) ∧ be.pid = data.pid ∧ 8 ≤ be.len) : Decides cs patterns := by
  have hplace : ∀ data ∈ patterns, Compares data cs (some data.offset.toNat) := by
    intro data hdata
    obtain ⟨hoff, pre, be, next, hsplit, hpre, hpid, hlen⟩ := hfirst data hdata
    have hzero : data.offset.toNat = 0 := by rw [hoff]; rfl
    have hf : FirstBehind data cs pre be next :=
      ⟨hsplit, fun c hc h => hpre c hc h.1.symm, hpid.symm, by omega⟩
    have hnone : dataOf data.pid pre = [] := by
      rw [dataOf, List.filter_eq_nil_iff.mpr fun c hc => by simpa using hpre c hc, List.flatMap_nil]
    have hat := Compares.inside hf (by omega)
    rwa [hnone, List.length_nil, Nat.zero_add] at hat
  have haccepted : ∀ data ∈ patterns, data.Accepted cs ↔ data.MatchesAt cs data.offset.toNat := by
    refine fun data hdata => ⟨fun ⟨w, hw, hm⟩ => ?_, fun hm => ⟨_, hplace data hdata, hm⟩⟩
    cases hw.unique (hplace data hdata)
    exact hm
  exact ⟨fun pre data post hsplit _ => ⟨_, hplace data (by simp [hsplit])⟩,
    forall₂_congr haccepted⟩

/-- Eight bytes of a SETUP, of which the pattern wants 0 at its offset 0, in two buffers of four: the
byte behind the first chunk is read. -/
theorem not_matched_halves :
    ¬∀ buffers patterns, Matched (assignOffsets 0xff 0 buffers) patterns := by
  intro h
  obtain ⟨r, hrun, -⟩ := h [(0x2d, [0, 0, 0, 0]), (0x2d, [0, 0, 0, 0])] [⟨0x2d, 0, 0, 0⟩]
  rw [show usbMatchBuffers _ _ = none by decide] at hrun
  cases hrun

end OnDemandVirt.Usb
