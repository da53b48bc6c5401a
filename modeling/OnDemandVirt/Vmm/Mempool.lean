import OnDemandVirt.Lib.Segments
import OnDemandVirt.Vmm.Heap

/-!
# Memory pools

A pool of `mm.c` has blocks of pages, each with a list of segments that callers have and a list of
free ones. Blocks that become free are kept up to a number. `mempool_allocmem` takes the front of a
free segment, and does not make the segment shorter; `mempool_new` does not set `keep`.
-/

namespace OnDemandVirt.Vmm

open Lib Lib.Segment

/-- A search with `LIST1_FOREACH`: the first element, and what is ahead of it and behind it. -/
def foundAt {α : Type} (P : α → Bool) : List α → Option (List α × α × List α)
  | [] => none
  | x :: xs =>
    if P x then some ([], x, xs)
    else (foundAt P xs).map fun (ahead, y, behind) => (x :: ahead, y, behind)

/-- `struct mempool_block_list`. -/
structure MempoolBlock where
  p : Nat
  len : Nat
  alloc : List Segment
  free : List Segment

/-- `struct mempool`. -/
structure Mempool where
  block : List MempoolBlock
  numpages : BitVec 32
  numkeeps : Int
  keep : Int

/-- `while (PAGESIZE * npages < len) npages <<= 1`, `none` where it does not end. -/
def growPages (less : BitVec 32 → Bool) : (fuel : Nat) → (npages : BitVec 32) → Option (BitVec 32)
  | 0, _ => none
  | fuel + 1, npages =>
    if less (0x1000 * npages) then growPages less fuel (npages <<< 1) else some npages

/-- `mempool_new`, in memory in which `keep` is what it was. -/
def mempoolNew (blocksize : BitVec 32) (numkeeps keep : Int) : Option Mempool :=
  (growPages (·.slt blocksize) 33 1).map fun numpages => ⟨[], numpages, numkeeps, keep⟩

/-- A block that has room. -/
def MempoolBlock.fits (b : MempoolBlock) (len : Nat) : Bool := b.free.any fun q => len ≤ q.len

/-- The front of free segment `q` goes to the list of what callers have. -/
def MempoolBlock.take (b : MempoolBlock) (free : List Segment) (q : Segment) (free' : List Segment)
    (len : Nat) : MempoolBlock :=
  if q.len = len then { b with free := free ++ free', alloc := b.alloc ++ [q] }
  else { b with
    free := free ++ { q with off := q.off + len } :: free'
    alloc := b.alloc ++ [⟨q.off, len⟩] }

/-- From `found` on, for free segment `q` of block `b`. -/
def mempoolTake (mp : Mempool) (ahead behind : List MempoolBlock) (b : MempoolBlock)
    (free : List Segment) (q : Segment) (free' : List Segment) (len : Nat) : Nat × Mempool :=
  (b.p + q.off,
    { mp with
      keep := if q.len = b.len then mp.keep - 1 else mp.keep
      block := ahead ++ b.take free q free' len :: behind })

/-- `mempool_allocmem`, where `tmp` is what `alloc_pages` returns if it is called; `none` where that
panics or the loop does not end. -/
def mempoolAllocmem (mp : Mempool) (len : BitVec 32) (tmp : Nat) : Option (Nat × Mempool) :=
  if len = 0 then some (0, mp)
  else
    match foundAt (·.fits len.toNat) mp.block with
    | some (ahead, b, behind) =>
      (foundAt (fun q => len.toNat ≤ q.len) b.free).map fun (free, q, free') =>
        mempoolTake mp ahead behind b free q free' len.toNat
    | none =>
      (growPages (·.ult len) 33 mp.numpages).bind fun npages =>
        (pageOrder npages).map fun _ =>
          let plen := (0x1000 * npages).toNat
          mempoolTake { mp with keep := mp.keep + 1 } mp.block [] ⟨tmp, plen, [], [⟨0, plen⟩]⟩
            [] ⟨0, plen⟩ [] len.toNat

/-- The address is one of a block, whose length is an `int`. -/
def MempoolBlock.has (b : MempoolBlock) (v : Nat) : Bool :=
  b.p ≤ v && v < b.p + b.len && b.len < 2 ^ 31

/-- The loop that makes a free segment longer by `q`, which begins where it ends; `q` is last. -/
def mergeAhead (q : Segment) (free : List Segment) : List Segment × Segment × List Segment :=
  match foundAt (fun qq => qq.off + qq.len = q.off) free with
  | some (ahead, qq, behind) => (ahead, { qq with len := qq.len + q.len }, behind)
  | none => (free, q, [])

/-- The loop that makes `q` longer by the free segment that begins where it ends. -/
def mergeBehind (free : List Segment) (q : Segment) (free' : List Segment) : List Segment :=
  match foundAt (fun qq => q.off + q.len = qq.off) free with
  | some (ahead, qq, behind) => ahead ++ behind ++ { q with len := q.len + qq.len } :: free'
  | none =>
    match foundAt (fun qq => q.off + q.len = qq.off) free' with
    | some (ahead, qq, behind) => free ++ { q with len := q.len + qq.len } :: (ahead ++ behind)
    | none => free ++ q :: free'

/-- From `found` on: segment `q` goes from one list to the other. -/
def MempoolBlock.release (b : MempoolBlock) (alloc : List Segment) (q : Segment)
    (alloc' : List Segment) : MempoolBlock :=
  let (free, q, free') := mergeAhead q b.free
  { b with alloc := alloc ++ alloc', free := mergeBehind free q free' }

/-- The end of `mempool_freemem`: a block that is free is kept or given back, `none` where an
assertion fails. -/
def mempoolRetain (mp : Mempool) (ahead behind : List MempoolBlock) (b : MempoolBlock) :
    Option Mempool :=
  match b.free with
  | [] => some { mp with block := ahead ++ b :: behind }
  | q :: free =>
    if q.len ≠ b.len then some { mp with block := ahead ++ b :: behind }
    else if mp.keep < mp.numkeeps then
      some { mp with keep := mp.keep + 1, block := ahead ++ b :: behind }
    else if b.alloc = [] ∧ free = [] then some { mp with block := ahead ++ behind }
    else none

/-- `mempool_freemem`, `none` where it panics. -/
def mempoolFreemem (mp : Mempool) (virt : Nat) : Option Mempool :=
  (foundAt (·.has virt) mp.block).bind fun (ahead, b, behind) =>
    (foundAt (fun q => b.p + q.off = virt) b.alloc).bind fun (alloc, q, alloc') =>
      mempoolRetain mp ahead behind (b.release alloc q alloc')

/-! ### Searches -/

theorem foundAt_eq_some {α : Type} {P : α → Bool} {l ahead behind : List α} {x : α}
    (h : foundAt P l = some (ahead, x, behind)) : l = ahead ++ x :: behind ∧ P x = true := by
  induction l generalizing ahead with
  | nil => cases h
  | cons y l ih =>
    rw [foundAt] at h
    split_ifs at h with hy
    · cases h
      exact ⟨rfl, hy⟩
    · obtain ⟨⟨ahead', z, behind'⟩, hrec, heq⟩ := Option.map_eq_some_iff.mp h
      cases heq
      obtain ⟨rfl, hx⟩ := ih hrec
      exact ⟨rfl, hx⟩

theorem foundAt_eq_none {α : Type} {P : α → Bool} {l : List α} (h : foundAt P l = none) :
    ∀ x ∈ l, P x = false := by
  induction l with
  | nil => exact fun x hx => absurd hx List.not_mem_nil
  | cons y l ih =>
    rw [foundAt] at h
    split_ifs at h with hy
    rw [Option.map_eq_none_iff] at h
    intro x hx
    rcases List.mem_cons.mp hx with rfl | hx
    · simpa using hy
    · exact ih h x hx

theorem not_growPages {less : BitVec 32 → Bool} {fuel : Nat} {npages n : BitVec 32}
    (h : growPages less fuel npages = some n) : less (0x1000 * n) = false := by
  induction fuel generalizing npages with
  | zero => cases h
  | succ fuel ih =>
    rw [growPages] at h
    split_ifs at h with hless
    · exact ih h
    · cases h
      simpa using hless

/-! ### Blocks -/

/-- What a block of a pool is meant to be: its segments tile it, those that callers have and free
ones are disjoint, and no two free segments touch. -/
structure MempoolBlock.Ok (b : MempoolBlock) : Prop where
  tiles : Tiles (b.alloc ++ b.free) b.len
  disjoint : ∀ x ∈ b.alloc, ∀ y ∈ b.free, x.stop ≤ y.off ∨ y.stop ≤ x.off
  apart : ∀ x ∈ b.free, ∀ y ∈ b.free, x.stop ≠ y.off

section

variable {b : MempoolBlock} {alloc alloc' free free' : List Segment} {q : Segment} {n : Nat}

theorem MempoolBlock.Ok.of_tiles (h : Tiles (b.alloc ++ b.free) b.len)
    (happ : ∀ x ∈ b.free, ∀ y ∈ b.free, x.stop ≠ y.off) : b.Ok :=
  ⟨h, (List.pairwise_append.mp h.pairwise).2.2, happ⟩

theorem perm_append_middle {α : Type} (l ahead behind : List α) (x : α) :
    (l ++ (ahead ++ x :: behind)).Perm (x :: (l ++ (ahead ++ behind))) := by
  rw [← List.append_assoc, ← List.append_assoc]
  exact List.perm_middle

/-- The segment that was freed, with the free segment that it begins behind. -/
theorem mergeAhead_spec {l : List Segment} (h : Tiles (q :: (l ++ free)) n)
    (happ : ∀ x ∈ free, ∀ y ∈ free, x.stop ≠ y.off) :
    ∃ ahead q' behind, mergeAhead q free = (ahead, q', behind) ∧
      Tiles (q' :: (l ++ (ahead ++ behind))) n ∧ (∀ x ∈ ahead ++ behind, x ∈ free) ∧
        ∀ x ∈ ahead ++ behind, x.stop ≠ q'.off := by
  unfold mergeAhead
  cases hfound : foundAt (fun qq => decide (qq.off + qq.len = q.off)) free with
  | none =>
    refine ⟨free, q, [], rfl, by rwa [List.append_nil], by simp, fun x hx => ?_⟩
    have := foundAt_eq_none hfound x (by simpa using hx)
    simpa [Segment.stop] using this
  | some r =>
    obtain ⟨ahead, qq, behind⟩ := r
    obtain ⟨rfl, hqq⟩ := foundAt_eq_some hfound
    have hsub : ∀ x ∈ ahead ++ behind, x ∈ ahead ++ qq :: behind := by
      intro x hx
      rcases List.mem_append.mp hx with hx | hx
      · exact List.mem_append_left _ hx
      · exact List.mem_append_right _ (List.mem_cons_of_mem _ hx)
    refine ⟨ahead, _, behind, rfl, ?_, hsub, fun x hx =>
      happ x (hsub x hx) qq (List.mem_append_right _ List.mem_cons_self)⟩
    refine Tiles.merge (h.perm ?_) (by simpa [Segment.stop] using hqq)
    exact ((perm_append_middle l ahead behind qq).cons q).trans (List.Perm.swap ..)

/-- The segment that was freed, with the free segment that it ends ahead of. -/
theorem mergeBehind_spec {l : List Segment} (h : Tiles (q :: (l ++ (free ++ free'))) n)
    (happ : ∀ x ∈ free ++ free', ∀ y ∈ free ++ free', x.stop ≠ y.off)
    (hahead : ∀ x ∈ free ++ free', x.stop ≠ q.off) :
    Tiles (l ++ mergeBehind free q free') n ∧
      ∀ x ∈ mergeBehind free q free', ∀ y ∈ mergeBehind free q free', x.stop ≠ y.off := by
  -- a free segment that `q` ends ahead of, and the rest
  have hmerged : ∀ {qq : Segment} (rest : List Segment) {r : List Segment},
      (free ++ free').Perm (qq :: rest) → q.off + q.len = qq.off → r.Perm ({ q with len := q.len + qq.len } :: rest) →
        Tiles (l ++ r) n ∧ ∀ x ∈ r, ∀ y ∈ r, x.stop ≠ y.off := by
    intro qq rest r hfree hqq hr
    have hperm : (q :: (l ++ (free ++ free'))).Perm (q :: qq :: (l ++ rest)) :=
      ((hfree.append_left l).trans List.perm_middle).cons q
    have htiles := Tiles.merge (h.perm hperm) hqq
    have hpos := (htiles.bounds _ List.mem_cons_self).2
    refine ⟨htiles.perm ((List.perm_middle.symm).trans (hr.symm.append_left l)),
      fun x hx y hy => ?_⟩
    have hrest : ∀ x ∈ rest, x ∈ free ++ free' := fun x hx =>
      hfree.mem_iff.mpr (List.mem_cons_of_mem _ hx)
    have hqqmem : qq ∈ free ++ free' := hfree.mem_iff.mpr List.mem_cons_self
    have hstop : (Segment.mk q.off (q.len + qq.len)).stop = qq.stop := by
      unfold Segment.stop
      dsimp only
      omega
    rcases List.mem_cons.mp (hr.mem_iff.mp hx) with rfl | hx
    · rcases List.mem_cons.mp (hr.mem_iff.mp hy) with rfl | hy
      · unfold Segment.stop
        omega
      · rw [hstop]
        exact happ qq hqqmem y (hrest y hy)
    · rcases List.mem_cons.mp (hr.mem_iff.mp hy) with rfl | hy
      · exact hahead x (hrest x hx)
      · exact happ x (hrest x hx) y (hrest y hy)
  have hnone : (∀ x ∈ free ++ free', q.stop ≠ x.off) → Tiles (l ++ (free ++ q :: free')) n ∧
      ∀ x ∈ free ++ q :: free', ∀ y ∈ free ++ q :: free', x.stop ≠ y.off := by
    intro hbehind
    have hpos := (h.bounds q List.mem_cons_self).2
    have hperm : (free ++ q :: free').Perm (q :: (free ++ free')) := List.perm_middle
    refine ⟨h.perm ((List.perm_middle.symm).trans (hperm.symm.append_left l)),
      fun x hx y hy => ?_⟩
    rcases List.mem_cons.mp (hperm.mem_iff.mp hx) with rfl | hx'
    · rcases List.mem_cons.mp (hperm.mem_iff.mp hy) with rfl | hy'
      · unfold Segment.stop
        omega
      · exact hbehind y hy'
    · rcases List.mem_cons.mp (hperm.mem_iff.mp hy) with rfl | hy'
      · exact hahead x hx'
      · exact happ x hx' y hy'
  unfold mergeBehind
  cases hfound : foundAt (fun qq => decide (q.off + q.len = qq.off)) free with
  | some r =>
    obtain ⟨ahead, qq, behind⟩ := r
    obtain ⟨rfl, hqq⟩ := foundAt_eq_some hfound
    refine hmerged (ahead ++ behind ++ free') ?_ (by simpa using hqq) List.perm_middle
    rw [List.append_assoc, List.cons_append, List.append_assoc]
    exact List.perm_middle
  | none =>
    have hfree := foundAt_eq_none hfound
    cases hfound' : foundAt (fun qq => decide (q.off + q.len = qq.off)) free' with
    | some r =>
      obtain ⟨ahead, qq, behind⟩ := r
      obtain ⟨rfl, hqq⟩ := foundAt_eq_some hfound'
      exact hmerged (free ++ (ahead ++ behind))
        (perm_append_middle free ahead behind qq) (by simpa using hqq) List.perm_middle
    | none =>
      have hfree' := foundAt_eq_none hfound'
      refine hnone fun x hx => ?_
      rcases List.mem_append.mp hx with hx | hx
      · simpa [Segment.stop] using hfree x hx
      · simpa [Segment.stop] using hfree' x hx

/-- A segment that is freed leaves the block as it is meant to be, whatever is on either side. -/
theorem MempoolBlock.Ok.release (h : b.Ok) (halloc : b.alloc = alloc ++ q :: alloc') :
    (b.release alloc q alloc').Ok := by
  have htiles : Tiles (q :: ((alloc ++ alloc') ++ b.free)) b.len := by
    refine h.tiles.perm ?_
    rw [halloc, List.append_assoc, List.cons_append, List.append_assoc]
    exact List.perm_middle
  obtain ⟨ahead, q', behind, hmerge, htiles', hsub, hahead⟩ := mergeAhead_spec htiles h.apart
  obtain ⟨htiles'', happ⟩ := mergeBehind_spec htiles'
    (fun x hx y hy => h.apart x (hsub x hx) y (hsub y hy)) hahead
  unfold MempoolBlock.release
  rw [hmerge]
  exact .of_tiles htiles'' happ

/-- A free segment that is taken as a whole. -/
theorem MempoolBlock.Ok.take (h : b.Ok) (hfree : b.free = free ++ q :: free') :
    (b.take free q free' q.len).Ok := by
  unfold MempoolBlock.take
  rw [if_pos rfl]
  have hsub : ∀ x ∈ free ++ free', x ∈ b.free := by
    intro x hx
    rw [hfree]
    exact (List.perm_middle.mem_iff).mpr (List.mem_cons_of_mem _ hx)
  refine .of_tiles (h.tiles.perm ?_) fun x hx y hy => h.apart x (hsub x hx) y (hsub y hy)
  dsimp only
  rw [hfree, List.append_assoc]
  exact List.perm_middle.append_left _

/-- A free segment of which only the front is taken stays as long as it is. -/
theorem MempoolBlock.Ok.not_take (h : b.Ok) (hfree : b.free = free ++ q :: free') {len : Nat}
    (hlen : 0 < len) (hne : q.len ≠ len) : ¬ (b.take free q free' len).Ok := by
  intro hok
  have hsum := h.tiles.sum
  have hsum' := hok.tiles.sum
  unfold MempoolBlock.take at hsum'
  rw [if_neg hne] at hsum'
  rw [hfree] at hsum
  simp only [List.map_append, List.map_cons, List.map_nil, List.sum_append, List.sum_cons,
    List.sum_nil] at hsum hsum'
  omega

/-- A free segment is as long as its block where callers have nothing of the block. -/
theorem MempoolBlock.Ok.whole_iff (h : b.Ok) (hq : q ∈ b.free) :
    q.len = b.len ↔ b.alloc = [] := by
  constructor
  · intro hlen
    obtain ⟨free, free', hfree⟩ := List.append_of_mem hq
    have htiles : Tiles (q :: (b.alloc ++ (free ++ free'))) b.len := by
      refine h.tiles.perm ?_
      rw [hfree]
      exact perm_append_middle ..
    exact (List.append_eq_nil_iff.mp (htiles.eq_of_whole hlen).2).1
  · intro halloc
    have htiles := h.tiles
    rw [halloc, List.nil_append] at htiles
    have hbounds := htiles.bounds q hq
    have hsingle := htiles.eq_single (Nat.lt_of_lt_of_le hbounds.2
      (Nat.le_trans (Nat.le_add_left _ _) hbounds.1)) h.apart
    rw [hsingle, List.mem_singleton] at hq
    rw [hq]

end

/-! ### Pools -/

/-- How many blocks callers have nothing of. -/
def Mempool.kept (mp : Mempool) : Nat := mp.block.countP (·.alloc.isEmpty)

/-- What a pool is meant to be. -/
structure Mempool.Ok (mp : Mempool) : Prop where
  block : ∀ b ∈ mp.block, b.Ok
  kept : (mp.kept : Int) ≤ mp.numkeeps

inductive MempoolEvent where
  | allocmem (len : BitVec 32) (tmp : Nat)
  | freemem (virt : Nat)

/-- Calls for a pool, in memory in which `keep` was what it is. -/
def mempoolMachine (blocksize : BitVec 32) (numkeeps keep : Int) :
    Lib.Machine Mempool MempoolEvent where
  init s := mempoolNew blocksize numkeeps keep = some s
  step s
    | .allocmem len tmp => (mempoolAllocmem s len tmp).map (·.2)
    | .freemem virt => mempoolFreemem s virt

/-- The length of the free segment that `mempool_allocmem` takes the front of. -/
def Mempool.roomFor (mp : Mempool) (len : BitVec 32) : Option Nat :=
  match mp.block.find? (·.fits len.toNat) with
  | some b => (b.free.find? fun q => len.toNat ≤ q.len).map (·.len)
  | none => (growPages (·.ult len) 33 mp.numpages).map fun npages => (0x1000 * npages).toNat

/-- No free segment is split. -/
def MempoolEvent.NoSplit (mp : Mempool) : MempoolEvent → Prop
  | .allocmem len _ => len = 0 ∨ mp.roomFor len = some len.toNat
  | .freemem _ => True

/-- What holds of a pool, where `keep` was what it is when the pool was made. -/
structure MempoolInv (keep : Int) (mp : Mempool) : Prop where
  ok : mp.Ok
  keep : mp.keep = keep + mp.kept

section

variable {mp mp' : Mempool} {keep : Int} {ahead behind : List MempoolBlock} {b : MempoolBlock}
  {free free' : List Segment} {q : Segment} {len : Nat}

theorem countP_middle {α : Type} (P : α → Bool) (ahead behind : List α) (x : α) :
    (ahead ++ x :: behind).countP P = (ahead ++ behind).countP P + if P x then 1 else 0 := by
  rw [List.countP_append, List.countP_cons, List.countP_append]
  omega

theorem alloc_take (b : MempoolBlock) (free : List Segment) (q : Segment) (free' : List Segment)
    (len : Nat) : (b.take free q free' len).alloc.isEmpty = false := by
  unfold MempoolBlock.take
  split_ifs <;> simp

/-- A free segment of a block is taken as a whole. -/
theorem MempoolInv.take (mp : Mempool) (hblocks : ∀ x ∈ ahead ++ b :: behind, x.Ok)
    (hfree : b.free = free ++ q :: free')
    (hkept : ((ahead ++ behind).countP (·.alloc.isEmpty) : Int) ≤ mp.numkeeps)
    (hkeep : mp.keep = keep + (ahead ++ b :: behind).countP (·.alloc.isEmpty)) :
    MempoolInv keep (mempoolTake mp ahead behind b free q free' q.len).2 := by
  have hb : b.Ok := hblocks b (List.mem_append_right _ List.mem_cons_self)
  have hwhole := hb.whole_iff (q := q) (by
    rw [hfree]
    exact List.mem_append_right _ List.mem_cons_self)
  have hcount : (ahead ++ b.take free q free' q.len :: behind).countP (·.alloc.isEmpty) =
      (ahead ++ behind).countP (·.alloc.isEmpty) := by
    rw [countP_middle, alloc_take]
    rfl
  rw [countP_middle] at hkeep
  refine ⟨⟨fun x hx => ?_, ?_⟩, ?_⟩
  · rcases List.mem_append.mp hx with hx | hx
    · exact hblocks x (List.mem_append_left _ hx)
    · rcases List.mem_cons.mp hx with rfl | hx
      · exact hb.take hfree
      · exact hblocks x (List.mem_append_right _ (List.mem_cons_of_mem _ hx))
  · unfold Mempool.kept mempoolTake
    dsimp only
    rw [hcount]
    exact hkept
  · unfold Mempool.kept mempoolTake
    dsimp only
    rw [hcount]
    by_cases halloc : b.alloc = []
    · rw [if_pos (hwhole.mpr halloc), hkeep, if_pos (List.isEmpty_iff.mpr halloc)]
      omega
    · rw [if_neg fun h => halloc (hwhole.mp h), hkeep, if_neg fun h => halloc (List.isEmpty_iff.mp h)]
      omega

/-- Where a free segment is split, the block is not what it is meant to be. -/
theorem not_ok_mempoolTake (mp : Mempool) (ahead behind : List MempoolBlock) (hb : b.Ok)
    (hfree : b.free = free ++ q :: free') (hlen : 0 < len) (hne : q.len ≠ len) : ¬ (mempoolTake mp ahead behind b free q free' len).2.Ok :=
  fun hok => hb.not_take hfree hlen hne (hok.block _ (List.mem_append_right _ List.mem_cons_self))

theorem find?_of_foundAt {α : Type} (P : α → Bool) (l : List α) :
    l.find? P = (foundAt P l).map fun r => r.2.1 := by
  induction l with
  | nil => rfl
  | cons x l ih =>
    rw [List.find?_cons, foundAt]
    split_ifs with hx
    · rw [hx]
      rfl
    · rw [Bool.not_eq_true] at hx
      rw [hx, ih, Option.map_map]
      rfl

/-- A block of its own for what is asked for. -/
theorem ok_newBlock (tmp : Nat) {n : Nat} (hn : 0 < n) : (MempoolBlock.mk tmp n [] [⟨0, n⟩]).Ok := by
  refine .of_tiles (tiles_single hn) fun x hx y hy => ?_
  rw [List.mem_singleton] at hx hy
  rw [hx, hy]
  unfold Segment.stop
  dsimp only
  omega

theorem MempoolInv.takeNew (h : MempoolInv keep mp) (tmp : Nat) {n : Nat} (hn : 0 < n) :
    MempoolInv keep (mempoolTake { mp with keep := mp.keep + 1 } mp.block []
      ⟨tmp, n, [], [⟨0, n⟩]⟩ [] ⟨0, n⟩ [] n).2 := by
  have hfree : (MempoolBlock.mk tmp n [] [⟨0, n⟩]).free = [] ++ ⟨0, n⟩ :: [] := rfl
  refine MempoolInv.take { mp with keep := mp.keep + 1 } (fun x hx => ?_) hfree ?_ ?_
  · rcases List.mem_append.mp hx with hx | hx
    · exact h.ok.block x hx
    · rw [List.mem_singleton] at hx
      rw [hx]
      exact ok_newBlock tmp hn
  · rw [List.append_nil]
    exact h.ok.kept
  · rw [countP_middle, List.append_nil]
    have hkeep := h.keep
    unfold Mempool.kept at hkeep
    simp only [List.isEmpty_nil, if_true, hkeep]
    push_cast
    omega

/-- `mempool_allocmem` keeps a pool what it is meant to be exactly where it splits no segment. -/
theorem MempoolInv.allocmem (h : MempoolInv keep mp) {len : BitVec 32} {tmp r : Nat}
    (hs : mempoolAllocmem mp len tmp = some (r, mp')) :
    (MempoolEvent.NoSplit mp (.allocmem len tmp) → MempoolInv keep mp') ∧
      (mp'.Ok → MempoolEvent.NoSplit mp (.allocmem len tmp)) := by
  unfold mempoolAllocmem at hs
  unfold MempoolEvent.NoSplit Mempool.roomFor
  by_cases hzero : len = 0
  · rw [if_pos hzero] at hs
    cases hs
    exact ⟨fun _ => h, fun _ => .inl hzero⟩
  rw [if_neg hzero] at hs
  have hpos : 0 < len.toNat := by
    refine Nat.pos_of_ne_zero fun hz => hzero ?_
    exact BitVec.eq_of_toNat_eq hz
  dsimp only
  rw [find?_of_foundAt]
  cases hfound : foundAt (·.fits len.toNat) mp.block with
  | some r =>
    obtain ⟨ahead, b, behind⟩ := r
    rw [hfound] at hs
    obtain ⟨⟨free, q, free'⟩, hq, heq⟩ := Option.map_eq_some_iff.mp hs
    have htake : mempoolTake mp ahead behind b free q free' len.toNat = (r, mp') := heq
    obtain ⟨hblock, -⟩ := foundAt_eq_some hfound
    obtain ⟨hfree, -⟩ := foundAt_eq_some hq
    rw [Option.map_some]
    dsimp only
    rw [find?_of_foundAt, hq]
    dsimp only [Option.map_some]
    have hblocks := h.ok.block
    have hkept := h.ok.kept
    have hkeep := h.keep
    unfold Mempool.kept at hkept hkeep
    rw [hblock] at hblocks hkept hkeep
    rw [countP_middle] at hkept
    constructor
    · rintro (hz | hlen)
      · exact absurd hz hzero
      · have hlen : q.len = len.toNat := Option.some.inj hlen
        have hinv := MempoolInv.take mp hblocks hfree (by omega) hkeep
        rw [hlen, htake] at hinv
        exact hinv
    · intro hok
      by_contra hne
      refine not_ok_mempoolTake mp ahead behind
        (hblocks b (List.mem_append_right _ List.mem_cons_self)) hfree hpos (fun hlen => hne ?_)
        (by rw [htake]; exact hok)
      exact .inr (congrArg some hlen)
  | none =>
    rw [hfound] at hs
    obtain ⟨npages, hgrow, hs⟩ := Option.bind_eq_some_iff.mp hs
    obtain ⟨-, -, heq⟩ := Option.map_eq_some_iff.mp hs
    have htake : mempoolTake { mp with keep := mp.keep + 1 } mp.block []
      ⟨tmp, (0x1000 * npages).toNat, [], [⟨0, (0x1000 * npages).toNat⟩]⟩ []
        ⟨0, (0x1000 * npages).toNat⟩ [] len.toNat = (r, mp') := heq
    have hroom : len.toNat ≤ (0x1000 * npages).toNat := by
      have := not_growPages hgrow
      simpa [BitVec.ult] using this
    have hplen := Nat.lt_of_lt_of_le hpos hroom
    rw [Option.map_none]
    dsimp only
    rw [hgrow]
    dsimp only [Option.map_some]
    constructor
    · rintro (hz | hlen)
      · exact absurd hz hzero
      · have hlen : (0x1000 * npages).toNat = len.toNat := Option.some.inj hlen
        have hinv := h.takeNew tmp hplen
        rw [hlen] at hinv htake
        rw [htake] at hinv
        exact hinv
    · intro hok
      by_contra hne
      have hfree : (MempoolBlock.mk tmp (0x1000 * npages).toNat []
        [⟨0, (0x1000 * npages).toNat⟩]).free = [] ++ ⟨0, (0x1000 * npages).toNat⟩ :: [] := rfl
      refine not_ok_mempoolTake { mp with keep := mp.keep + 1 } mp.block [] (ok_newBlock tmp hplen)
        hfree hpos (fun hlen => hne ?_) (by rw [htake]; exact hok)
      exact .inr (congrArg some hlen)

/-- A block from which something was freed is kept or given back. -/
theorem MempoolInv.retain (hb : b.Ok) (hpos : 0 < b.len) (hrest : ∀ x ∈ ahead ++ behind, x.Ok)
    (hkept : ((ahead ++ behind).countP (·.alloc.isEmpty) : Int) ≤ mp.numkeeps)
    (hcount : mp.keep = keep + (ahead ++ behind).countP (·.alloc.isEmpty)) (hkeep : 0 ≤ keep)
    (hs : mempoolRetain mp ahead behind b = some mp') : MempoolInv keep mp' := by
  have hblocks : ∀ x ∈ ahead ++ b :: behind, x.Ok := by
    intro x hx
    rcases List.mem_cons.mp (List.perm_middle.mem_iff.mp hx) with rfl | hx
    · exact hb
    · exact hrest x hx
  have hused : b.alloc ≠ [] → MempoolInv keep { mp with block := ahead ++ b :: behind } := by
    intro hne
    have hcount' : (ahead ++ b :: behind).countP (·.alloc.isEmpty) =
        (ahead ++ behind).countP (·.alloc.isEmpty) := by
      rw [countP_middle, if_neg fun h => hne (List.isEmpty_iff.mp h), Nat.add_zero]
    refine ⟨⟨hblocks, ?_⟩, ?_⟩
    · unfold Mempool.kept
      dsimp only
      rw [hcount']
      exact hkept
    · unfold Mempool.kept
      dsimp only
      rw [hcount']
      exact hcount
  unfold mempoolRetain at hs
  cases hfree : b.free with
  | nil =>
    rw [hfree] at hs
    cases hs
    refine hused fun halloc => ?_
    have hsum := hb.tiles.sum
    rw [halloc, hfree] at hsum
    exact Nat.ne_of_lt hpos hsum
  | cons q free =>
    rw [hfree] at hs
    dsimp only at hs
    have hwhole := hb.whole_iff (q := q) (hfree ▸ List.mem_cons_self)
    split_ifs at hs with hne hroom hassert
    · cases hs
      exact hused fun halloc => hne (hwhole.mpr halloc)
    · cases hs
      have halloc := hwhole.mp (not_not.mp hne)
      have hcount' : (ahead ++ b :: behind).countP (·.alloc.isEmpty) =
          (ahead ++ behind).countP (·.alloc.isEmpty) + 1 := by
        rw [countP_middle, if_pos (List.isEmpty_iff.mpr halloc)]
      refine ⟨⟨hblocks, ?_⟩, ?_⟩
      · unfold Mempool.kept
        dsimp only
        rw [hcount']
        push_cast
        omega
      · unfold Mempool.kept
        dsimp only
        rw [hcount']
        push_cast
        omega
    · cases hs
      exact ⟨⟨hrest, hkept⟩, hcount⟩

/-- `mempool_freemem` keeps a pool what it is meant to be where `keep` counts from a number that is
not negative. -/
theorem MempoolInv.freemem (h : MempoolInv keep mp) (hkeep : 0 ≤ keep) {virt : Nat}
    (hs : mempoolFreemem mp virt = some mp') : MempoolInv keep mp' := by
  obtain ⟨⟨ahead, b, behind⟩, hfound, hs⟩ := Option.bind_eq_some_iff.mp hs
  obtain ⟨⟨alloc, q, alloc'⟩, hq, hs⟩ := Option.bind_eq_some_iff.mp hs
  obtain ⟨hblock, -⟩ := foundAt_eq_some hfound
  obtain ⟨halloc, -⟩ := foundAt_eq_some hq
  have hblocks := h.ok.block
  have hkept := h.ok.kept
  have hcount := h.keep
  unfold Mempool.kept at hkept hcount
  rw [hblock] at hblocks hkept hcount
  have hbused : b.alloc.isEmpty = false := by
    rw [halloc]
    simp
  rw [countP_middle, hbused] at hkept hcount
  have hok := (hblocks b (List.mem_append_right _ List.mem_cons_self)).release halloc
  have hrest : ∀ x ∈ ahead ++ behind, x.Ok := by
    intro x hx
    refine hblocks x ?_
    exact List.perm_middle.mem_iff.mpr (List.mem_cons_of_mem _ hx)
  have hpos : 0 < b.len := by
    have hbounds := (hblocks b (List.mem_append_right _ List.mem_cons_self)).tiles.bounds q (by
      rw [halloc]
      simp)
    exact Nat.lt_of_lt_of_le hbounds.2 (Nat.le_trans (Nat.le_add_left _ _) hbounds.1)
  exact MempoolInv.retain hok hpos hrest (by simpa using hkept) (by simpa using hcount) hkeep hs

/-- A step keeps a pool what it is meant to be exactly where it splits no segment. -/
theorem MempoolInv.step {blocksize : BitVec 32} {numkeeps : Int} (h : MempoolInv keep mp)
    (hkeep : 0 ≤ keep) {e : MempoolEvent}
    (hs : (mempoolMachine blocksize numkeeps keep).step mp e = some mp') :
    (e.NoSplit mp → MempoolInv keep mp') ∧ (mp'.Ok → e.NoSplit mp) := by
  cases e with
  | allocmem len tmp =>
    obtain ⟨⟨r, mp''⟩, hr, rfl⟩ := Option.map_eq_some_iff.mp hs
    exact h.allocmem hr
  | freemem virt => exact ⟨fun _ => h.freemem hkeep hs, fun _ => trivial⟩

end

section

variable {blocksize : BitVec 32} {numkeeps keep : Int} {s : Mempool}

theorem mempoolInv_of_reachable (hkeep : 0 ≤ keep) (hnumkeeps : 0 ≤ numkeeps)
    (hs : (mempoolMachine blocksize numkeeps keep).ReachableWhen (fun s e => e.NoSplit s) s) :
    MempoolInv keep s := by
  refine Lib.Machine.ReachableWhen.invariant (I := MempoolInv keep) ?_
    (fun _ _ _ h hc hstep => (h.step hkeep hstep).1 hc) hs
  intro s hinit
  obtain ⟨numpages, -, rfl⟩ := Option.map_eq_some_iff.mp hinit
  exact ⟨⟨fun b hb => absurd hb List.not_mem_nil, hnumkeeps⟩, (Int.add_zero keep).symm⟩

/-- A pool whose `keep` did not begin below zero is what it is meant to be in runs that split no free
segment, and no longer than that. -/
theorem mempool_ok (hkeep : 0 ≤ keep) (hnumkeeps : 0 ≤ numkeeps)
    (hs : (mempoolMachine blocksize numkeeps keep).ReachableWhen (fun s e => e.NoSplit s) s) :
    s.Ok ∧ ∀ e s', (mempoolMachine blocksize numkeeps keep).step s e = some s' →
      (s'.Ok ↔ e.NoSplit s) := by
  have hinv := mempoolInv_of_reachable hkeep hnumkeeps hs
  exact ⟨hinv.ok, fun e s' hstep => ⟨(hinv.step hkeep hstep).2,
    fun hc => ((hinv.step hkeep hstep).1 hc).ok⟩⟩

end

/-- A pool in memory that was clear, which keeps one block. -/
def freshPool : Mempool := ⟨[], 1, 1, 0⟩

/-- A page that was taken from a pool as a whole and freed again is kept. -/
theorem mempool_ok_wholePage : Mempool.Ok ⟨[⟨0x40000000, 4096, [], [⟨0, 4096⟩]⟩], 1, 1, 1⟩ := by
  have hinit : (mempoolMachine 0 1 0).init freshPool := rfl
  have hwhole : MempoolEvent.NoSplit freshPool (.allocmem 4096 0x40000000) := Or.inr rfl
  have halloc : (mempoolMachine 0 1 0).step freshPool (.allocmem 4096 0x40000000) =
      some ⟨[⟨0x40000000, 4096, [⟨0, 4096⟩], []⟩], 1, 1, 0⟩ := rfl
  have hfree : (mempoolMachine 0 1 0).step ⟨[⟨0x40000000, 4096, [⟨0, 4096⟩], []⟩], 1, 1, 0⟩
      (.freemem 0x40000000) = some ⟨[⟨0x40000000, 4096, [], [⟨0, 4096⟩]⟩], 1, 1, 1⟩ := rfl
  have hall : MempoolEvent.NoSplit ⟨[⟨0x40000000, 4096, [⟨0, 4096⟩], []⟩], 1, 1, 0⟩
      (.freemem 0x40000000) := trivial
  exact (mempool_ok (by decide) (by decide)
    (.step (.step (.init hinit) hwhole halloc) hall hfree)).1

/-- A free segment that is split reaches beyond its block, and a pool whose `keep` began below zero
keeps more blocks than it is told to. -/
theorem not_mempool_ok : (¬ ∀ s, (mempoolMachine 0 1 0).Reachable s → s.Ok) ∧
    ¬ ∀ s, (mempoolMachine 0 0 (-1)).Reachable s → s.Ok := by
  refine ⟨fun hall => ?_, fun hall => ?_⟩
  · have hinit : (mempoolMachine 0 1 0).init freshPool := rfl
    have hok := hall ⟨[⟨0x40000000, 4096, [⟨0, 16⟩], [⟨16, 4096⟩]⟩], 1, 1, 0⟩
      (.step (e := .allocmem 16 0x40000000) (.init hinit) trivial rfl)
    have hsum := (hok.block _ List.mem_cons_self).tiles.sum
    exact absurd hsum (by decide)
  · have hinit : (mempoolMachine 0 0 (-1)).init ⟨[], 1, 0, -1⟩ := rfl
    have halloc : (mempoolMachine 0 0 (-1)).step ⟨[], 1, 0, -1⟩ (.allocmem 4096 0x40000000) =
        some ⟨[⟨0x40000000, 4096, [⟨0, 4096⟩], []⟩], 1, 0, -1⟩ := rfl
    have hfree : (mempoolMachine 0 0 (-1)).step
        ⟨[⟨0x40000000, 4096, [⟨0, 4096⟩], []⟩], 1, 0, -1⟩ (.freemem 0x40000000) =
          some ⟨[⟨0x40000000, 4096, [], [⟨0, 4096⟩]⟩], 1, 0, 0⟩ := rfl
    have hok := hall _ (.step (.step (.init hinit) trivial halloc) trivial hfree)
    exact absurd hok.kept (by decide)

end OnDemandVirt.Vmm
