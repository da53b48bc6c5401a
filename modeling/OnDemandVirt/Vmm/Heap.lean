import OnDemandVirt.Vmm.PageRuns

/-!
# The heap of the VMM

`mm.c`: `alloc_pages` passes on blocks of pages, `alloc` cuts pages into small blocks of a few sizes
and goes to `alloc_pages` for the rest. A page that is cut begins with a header that says which of
its small blocks are in use. Lengths are 32-bit words, as in the source.
-/

namespace OnDemandVirt.Vmm

/-- `NUM_OF_ALLOCLIST`. -/
abbrev numOfAlloclist : Nat := 7

/-- `ALLOCLIST_SIZE`. -/
def alloclistSize (n : Nat) : Nat := (1 <<< n) * 16

/-- `ALLOCLIST_DATABIT`. -/
def alloclistDatabit (n : Nat) : Nat := 4096 / alloclistSize n

/-- `ALLOCLIST_DATASIZE`. -/
def alloclistDatasize (n : Nat) : Nat := (alloclistDatabit n + 7) / 8

/-- `ALLOCLIST_HEADERSIZE`, where `struct allocdata` takes 24 bytes. -/
def alloclistHeadersize (n : Nat) : Nat := 24 + alloclistDatasize n - 1

/-- `struct allocdata`. -/
structure Allocdata where
  n : BitVec 8
  data : Nat → BitVec 8

/-- The page allocator, `alloclist` and the headers of pages. -/
structure Heap where
  pages : PageAlloc
  alloclist : Nat → List Nat
  header : Nat → Allocdata

/-- The order of blocks that `alloc_pages` looks for: the first that is not too small. -/
def pageOrder (n : BitVec 32) : Option Nat :=
  let s := n * 0x1000
  (List.range numOfAllocsize).find? fun i => s.sle (BitVec.ofNat 32 (allocsize i))

/-- `alloc_pages`, `none` where it panics. -/
def allocPages (h : Heap) (n : BitVec 32) : Option (Nat × Heap) :=
  match pageOrder n with
  | none => none
  | some i =>
    (mmPageAlloc (numOfAllocsize - i) h.pages i).map fun (p, pages) =>
      (pageToVirt p, { h with pages := pages })

/-- The header of a page that is cut: the blocks it covers are in use. -/
def newAllocdata (n : Nat) : Allocdata where
  n := BitVec.ofNat 8 n
  data i := (List.range 8).foldl (fun b j =>
    if (i * 8 + j) * alloclistSize n < alloclistHeadersize n then b ||| 1#8 <<< j else b) 0

/-- `alloclist_new`. -/
def alloclistNew (h : Heap) (n : Nat) : Option (Nat × Heap) :=
  (allocPages h 1).map fun (tmp, h) =>
    let r := virtToPage tmp
    (r, { h with header := Function.update h.header r (newAllocdata n) })

/-- `alloclist_alloc` up to its assertions: the offset of a block and the header. -/
def alloclistAlloc (d : Allocdata) (n : Nat) : Option (Nat × Allocdata) :=
  match (List.range (alloclistDatasize n)).find? fun i => d.data i != 0xFF with
  | none => none
  | some i =>
    let j := ((List.range 8).find? fun j => !(d.data i).getLsbD j).getD 8
    if alloclistDatabit n ≤ i * 8 + j then none
    else some ((i * 8 + j) * alloclistSize n,
      { d with data := Function.update d.data i (d.data i ||| 1#8 <<< j) })

/-- The end of the loop of `alloc`, `none` where an assertion of `alloclist_alloc` fails. -/
def allocFrom (h : Heap) (i p : Nat) (ps : List Nat) (r : Nat × Allocdata) : Option (Nat × Heap) :=
  let (offset, d) := r
  if offset ≠ 0 ∧ offset < 4096 then
    some (pageToVirt p + offset,
      { h with
        header := Function.update h.header p d
        alloclist := Function.update h.alloclist i (p :: ps) })
  else none

/-- The loop of `alloc`, on what is left of the list. A page that is new has room. -/
def allocLoop (i : Nat) : (list : List Nat) → Heap → Option (Nat × Heap)
  | [], h =>
    (alloclistNew h i).bind fun (p, h) =>
      (alloclistAlloc (h.header p) i).bind fun r => allocFrom h i p [] r
  | p :: ps, h =>
    match alloclistAlloc (h.header p) i with
    | some r => allocFrom h i p ps r
    | none =>
      let d := h.header p
      let d := { d with n := d.n ||| 0x80 }
      allocLoop i ps { h with
        header := Function.update h.header p d
        alloclist := Function.update h.alloclist i ps }

/-- `alloc`. -/
def alloc (h : Heap) (len : BitVec 32) : Option (Nat × Heap) :=
  match (List.range numOfAlloclist).find? fun i => len ≤ BitVec.ofNat 32 (alloclistSize i) with
  | some i => allocLoop i (h.alloclist i) h
  | none => allocPages h ((len + 4095) / 4096)

/-- `alloclist_free`, `none` where its assertion fails. -/
def alloclistFree (d : Allocdata) (n offset : Nat) : Option Allocdata :=
  let bit := offset / alloclistSize n
  let i := bit / 8
  let j := bit % 8
  if (d.data i).getLsbD j then
    some { d with data := Function.update d.data i (d.data i &&& ~~~(1#8 <<< j)) }
  else none

/-- `free`. -/
def heapFree (h : Heap) (virt : Nat) : Option Heap :=
  let offset := virt % 4096
  let p := virtToPage virt
  if offset = 0 then some { h with pages := mmPageFree h.pages p }
  else
    let d := h.header p
    let n := d.n &&& ~~~0x80
    let h := if d.n &&& 0x80 ≠ 0 then
        { h with
          header := Function.update h.header p { d with n := n }
          alloclist := Function.update h.alloclist n.toNat (p :: h.alloclist n.toNat) }
      else h
    (alloclistFree (h.header p) (h.header p).n.toNat offset).map fun d =>
      { h with header := Function.update h.header p d }

/-- `get_alloc_len`: the length of a block, its order or size class, and whether it is pages. -/
def getAllocLen (h : Heap) (virt : Nat) : BitVec 32 × Nat × Bool :=
  let p := virtToPage virt
  if virt % 4096 = 0 then
    let n := (h.pages.page p).allocsize
    (BitVec.ofNat 32 (allocsize n), n, true)
  else
    let n := ((h.header p).n &&& ~~~0x80).toNat
    (BitVec.ofNat 32 (alloclistSize n), n, false)

/-- The largest length that a shrinking `realloc` moves a block for. -/
def smaller (n : Nat) (pagemode : Bool) : BitVec 32 :=
  BitVec.ofNat 32 <|
    if pagemode then if 0 < n then allocsize (n - 1) else alloclistSize (numOfAlloclist - 1)
    else if 0 < n then alloclistSize (n - 1) else alloclistSize 0

/-- A block of another length for the contents of `virt`. -/
def moveBlock (h : Heap) (virt : Nat) (len : BitVec 32) : Option (Nat × Heap) :=
  (alloc h len).bind fun (p, h) => (heapFree h virt).map fun h => (p, h)

/-- `realloc`, with 0 for `NULL`. -/
def realloc (h : Heap) (virt : Nat) (len : BitVec 32) : Option (Nat × Heap) :=
  if virt = 0 ∧ len = 0 then some (0, h)
  else if virt = 0 then alloc h len
  else if len = 0 then (heapFree h virt).map fun h => (0, h)
  else
    let (oldlen, n, pagemode) := getAllocLen h virt
    if oldlen = len then some (virt, h)
    else if oldlen < len then moveBlock h virt len
    else if smaller n pagemode < len then some (virt, h)
    else moveBlock h virt len

end OnDemandVirt.Vmm
