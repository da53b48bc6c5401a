import OnDemandVirt.Vmm.PmapCursor

/-!
# Runs of one pmap

A pmap is opened on some tables and then used by any sequence of its operations. As long as no
step changes memory or moves to an address in a way that the cursor cannot see, reading gives what
a pmap opened afresh reads.
-/

namespace OnDemandVirt.Vmm

/-- How a pmap is opened. -/
structure PmapOpen where
  cr3 : BitVec 64
  levels : Nat
  type : PmapType
  levels_mem : 2 ≤ levels ∧ levels ≤ 4

/-- `pmap_open_vmm` or `pmap_open_guest`, on a `pmap_t` with any contents. -/
def PmapOpen.run (o : PmapOpen) (m : Pmap) : Pmap :=
  match o.type with
  | .vmm => pmapOpenVmm m o.cr3 o.levels
  | .guest => pmapOpenGuest m o.cr3 o.levels false
  | .guestAtomic => pmapOpenGuest m o.cr3 o.levels true

/-- The entry that points to the topmost table. -/
def PmapOpen.root (o : PmapOpen) : BitVec 64 :=
  if o.type = .vmm then (o.cr3 &&& ~~~0xFFF#64) ||| pdePBit
  else if o.levels = 3 then (o.cr3 &&& (~~~0x1F#64 ||| 0x8 ||| 0x10)) ||| pdePBit
  else (o.cr3 &&& (~~~0xFFF#64 ||| 0x8 ||| 0x10)) ||| pdePBit

/-- An operation on a pmap. -/
inductive PmapEvent
  | seek (virtaddr : BitVec 64) (level : Nat)
  | setlevel (level : Nat)
  | read
  | write (e : BitVec 64) (attrmask : BitVec 32)
  | clear
  | autoalloc (pages : List (BitVec 64))

/-- A pmap and the memory of its tables. -/
structure PmapState where
  mem : TableMem
  pmap : Pmap

/-- Every sequence of operations on one pmap. A level is one of the tables or, for the root, one
more; a failed assertion ends the run. -/
def pmapMachine (o : PmapOpen) : Lib.Machine PmapState PmapEvent where
  init s := ∃ m, s.pmap = o.run m
  step s
    | .seek virtaddr level =>
      if 1 ≤ level ∧ level ≤ s.pmap.levels + 1 then
        some { s with pmap := pmapSeek s.pmap virtaddr level }
      else none
    | .setlevel level =>
      if 1 ≤ level ∧ level ≤ s.pmap.levels + 1 then
        some { s with pmap := pmapSetlevel s.pmap level }
      else none
    | .read => some { s with pmap := (pmapRead s.mem s.pmap).2 }
    | .write e attrmask =>
      (pmapWrite s.mem s.pmap e attrmask).map fun (_, mem, pmap) => ⟨mem, pmap⟩
    | .clear => (pmapClear s.mem s.pmap).map fun (mem, pmap) => ⟨mem, pmap⟩
    | .autoalloc pages => (pmapAutoalloc s.mem s.pmap pages).map fun (mem, pmap) => ⟨mem, pmap⟩

/-- The step does nothing behind the cursor's back. -/
def KeepsCursor (s : PmapState) : PmapEvent → Prop
  | .seek virtaddr _ => s.pmap.levels = 3 → s.pmap.readlevel < 3 →
      s.pmap.curaddr &&& highIndexBits = virtaddr &&& highIndexBits
  | .setlevel _ => True
  | .read => True
  | .write e attrmask => WritesApart s.pmap e attrmask
  | .clear => ClearsApart s.pmap
  | .autoalloc pages => AllocPages s.pmap.levels pages ∧
      ∀ p ∈ pages, UnusedBy (pmapRead s.mem s.pmap).2 p

/-- At every level, reading gives what a pmap opened afresh reads there for the same address. -/
def ReadsFresh (o : PmapOpen) (s : PmapState) : Prop :=
  ∀ m level, 1 ≤ level → level ≤ o.levels + 1 →
    (pmapRead s.mem (pmapSetlevel s.pmap level)).1 =
      (pmapRead s.mem (pmapSeek (o.run m) s.pmap.curaddr level)).1

variable {o : PmapOpen} {s : PmapState}

theorem or_pdePBit_present (x : BitVec 64) : (x ||| pdePBit) &&& pdePBit ≠ 0 := by
  intro h
  have h' := congrArg (fun y => y.getLsbD 0) h
  simp [pdePBit] at h'

/-- Opening a pmap: the root is cached, nothing else. -/
theorem PmapOpen.inv_run (o : PmapOpen) (m : Pmap) (mem : TableMem) :
    PmapInv o.root mem (o.run m) ∧ (o.run m).levels = o.levels ∧
      (o.run m).readlevel = o.levels := by
  obtain ⟨cr3, levels, type, hlevels⟩ := o
  have hpresent : (PmapOpen.mk cr3 levels type hlevels).root &&& pdePBit ≠ 0 := by
    unfold PmapOpen.root
    split_ifs <;> exact or_pdePBit_present _
  cases type <;>
    exact ⟨⟨hlevels, Nat.sub_le _ _, hpresent, .init (Function.update_self _ _ _)⟩, rfl, rfl⟩

/-- The cursor of a run that keeps it has the entries of a walk. -/
theorem pmapInv_of_reachable (h : (pmapMachine o).ReachableWhen KeepsCursor s) :
    PmapInv o.root s.mem s.pmap ∧ s.pmap.levels = o.levels := by
  refine h.invariant
    (I := fun s => PmapInv o.root s.mem s.pmap ∧ s.pmap.levels = o.levels) ?_
    fun s e s' ⟨hinv, hlevels⟩ hkeeps hstep => ?_
  · rintro ⟨mem, pmap⟩ ⟨m, rfl⟩
    obtain ⟨hinv, hlevels, -⟩ := o.inv_run m mem
    exact ⟨hinv, hlevels⟩
  · cases e with
    | seek virtaddr level =>
      simp only [pmapMachine] at hstep
      split_ifs at hstep with hlevel
      cases hstep
      exact ⟨hinv.seek hlevel.2 hkeeps, hlevels⟩
    | setlevel level =>
      simp only [pmapMachine] at hstep
      split_ifs at hstep with hlevel
      cases hstep
      exact ⟨hinv.setlevel hlevel.2, hlevels⟩
    | read =>
      cases hstep
      exact ⟨hinv.read.2, (readLoop_frame _ _).1.trans hlevels⟩
    | write e attrmask =>
      obtain ⟨⟨fail, mem, pmap⟩, hwrite, rfl⟩ := Option.map_eq_some_iff.mp hstep
      obtain ⟨hinv', hsame⟩ := hinv.write hkeeps hwrite
      exact ⟨hinv', hsame.trans hlevels⟩
    | clear =>
      obtain ⟨⟨mem, pmap⟩, hclear, rfl⟩ := Option.map_eq_some_iff.mp hstep
      obtain ⟨hinv', hsame⟩ := hinv.clear hkeeps hclear
      exact ⟨hinv', hsame.trans hlevels⟩
    | autoalloc pages =>
      obtain ⟨⟨mem, pmap⟩, halloc, rfl⟩ := Option.map_eq_some_iff.mp hstep
      obtain ⟨hinv', hsame⟩ := hinv.autoalloc hkeeps.1 hkeeps.2 halloc
      exact ⟨hinv', hsame.trans hlevels⟩

/-- In every state of a run whose steps keep the cursor, `pmap_read` at every level gives the
entry, expanded where it is of a large page, that a pmap opened afresh reads from the current
tables. -/
theorem readsFresh_of_reachable (h : (pmapMachine o).ReachableWhen KeepsCursor s) :
    ReadsFresh o s := by
  intro m level hlevel hle
  obtain ⟨hinv, hlevels⟩ := pmapInv_of_reachable h
  obtain ⟨hfresh, hlevels', hread⟩ := o.inv_run m s.mem
  have hseek : PmapInv o.root s.mem (pmapSeek (o.run m) s.pmap.curaddr level) :=
    hfresh.seek (by omega) fun h3 hlt => absurd hlt (by omega)
  rw [(hinv.setlevel (by omega)).read.1, hseek.read.1]
  have hsame : (pmapSetlevel s.pmap level).levels =
      (pmapSeek (o.run m) s.pmap.curaddr level).levels := hlevels.trans hlevels'.symm
  rw [hsame]
  rfl

/-! ### One step that the cursor does not keep up with -/

/-- A pmap of any contents. -/
def garbage : Pmap := ⟨fun _ => 0, fun _ => 0, 0, 0, 0, 0, .vmm⟩

/-- A pmap of the VMM on tables at `0x1000`. -/
def openAt (levels : Nat) (h : 2 ≤ levels ∧ levels ≤ 4) : PmapOpen := ⟨0x1000, levels, .vmm, h⟩

/-- What the cursor and a pmap opened afresh read at a level after a run. -/
def readsAfter (o : PmapOpen) (mem : TableMem) (es : List PmapEvent) (level : Nat) :
    Option (BitVec 64 × BitVec 64) :=
  ((pmapMachine o).run ⟨mem, o.run garbage⟩ es).map fun s =>
    ((pmapRead s.mem (pmapSetlevel s.pmap level)).1,
      (pmapRead s.mem (pmapSeek (o.run garbage) s.pmap.curaddr level)).1)

theorem not_readsFresh_of_run (mem : TableMem) (es : List PmapEvent) (level : Nat)
    (hlevel : 1 ≤ level ∧ level ≤ o.levels + 1) {x y : BitVec 64}
    (hrun : readsAfter o mem es level = some (x, y)) (hne : x ≠ y) :
    ∃ s, (pmapMachine o).Reachable s ∧ ¬ ReadsFresh o s := by
  obtain ⟨s, hs, hreads⟩ := Option.map_eq_some_iff.mp hrun
  have hopen : (pmapMachine o).Reachable ⟨mem, o.run garbage⟩ := .init ⟨garbage, rfl⟩
  refine ⟨s, hopen.run es hs, fun h => hne ?_⟩
  obtain ⟨hx, hy⟩ := Prod.mk.inj hreads
  rw [← hx, ← hy]
  exact h garbage level hlevel.1 hlevel.2

/-- Two levels: the tables at `0x1000` and `0x2000`, and another one at `0x3000`. -/
def twoTables : TableMem := fun a =>
  if a = 0x1000 then 0x2001 else if a = 0x2000 then 0x5001 else if a = 0x3000 then 0x6001 else 0

/-- A topmost table that is its own first table. -/
def selfTable : TableMem := fun a => if a = 0x1000 then 0x1001 else 0

/-- Tables of three levels, empty, after a seek. -/
def seeked : PmapState :=
  ⟨fun _ => 0, pmapSeek ((openAt 3 (by decide)).run garbage) 0x40201000 1⟩

theorem unusedBy_seeked {p : BitVec 64} (hp : ¬ (0x1008 - p).toNat < 4096) :
    UnusedBy (pmapRead seeked.mem seeked.pmap).2 p := by
  intro l hl hl'
  have hlow : (pmapRead seeked.mem seeked.pmap).2.readlevel = 2 := rfl
  have htop : (pmapRead seeked.mem seeked.pmap).2.levels = 3 := rfl
  obtain rfl : l = 2 := by omega
  exact hp

theorem reachable_seeked :
    (pmapMachine (openAt 3 (by decide))).ReachableWhen KeepsCursor seeked := by
  have hopen : (pmapMachine (openAt 3 (by decide))).ReachableWhen KeepsCursor
      ⟨fun _ => 0, (openAt 3 (by decide)).run garbage⟩ := .init ⟨garbage, rfl⟩
  have hkeeps : KeepsCursor ⟨fun _ => 0, (openAt 3 (by decide)).run garbage⟩
      (.seek 0x40201000 1) := by
    intro _ h
    exact absurd h (by decide)
  exact hopen.step hkeeps rfl

theorem keepsCursor_seeked : KeepsCursor seeked (.autoalloc [0x10000, 0x11000]) := by
  refine ⟨⟨by decide, by simp, by simp⟩, fun p hp => unusedBy_seeked ?_⟩
  have hall : ∀ p ∈ [(0x10000 : BitVec 64), 0x11000], ¬ (0x1008 - p).toNat < 4096 := by simp
  exact hall p hp

/-- Allocating the two missing tables for an address and reading it. -/
theorem readsFresh_autoalloc :
    ∃ s, (pmapMachine (openAt 3 (by decide))).step seeked (.autoalloc [0x10000, 0x11000]) =
      some s ∧ ReadsFresh (openAt 3 (by decide)) s := by
  have hsome : ((pmapMachine (openAt 3 (by decide))).step seeked
      (.autoalloc [0x10000, 0x11000])).isSome := by decide
  obtain ⟨s, hs⟩ := Option.isSome_iff_exists.mp hsome
  exact ⟨s, hs, readsFresh_of_reachable (reachable_seeked.step keepsCursor_seeked hs)⟩

/-- Runs after which the cursor does not read what is there. Tables that contain themselves are
written (1) or cleared (2) in a word that is also cached as an entry above; three levels of tables
are asked for addresses of more than 32 bits (3); an entry does not fit into its word (4); an
entry above cached ones is made to point to another table (5). -/
theorem not_readsFresh :
    (∃ s, (pmapMachine (openAt 2 (by decide))).Reachable s ∧
      ¬ ReadsFresh (openAt 2 (by decide)) s) ∧
    readsAfter (openAt 2 (by decide)) selfTable [.seek 0 1, .read, .write 0x5001 0x1] 2 =
      some (0x1001, 0x5067) ∧
    readsAfter (openAt 2 (by decide)) selfTable [.seek 0 1, .read, .clear] 2 = some (0x1001, 0) ∧
    readsAfter (openAt 3 (by decide)) twoTables [.seek 0 3, .read, .seek 0x100000000 3] 3 =
      some (0x2001, 0) ∧
    readsAfter (openAt 2 (by decide)) twoTables [.seek 0 1, .read, .write 0x100005001 0x1] 1 =
      some (0x100005067, 0x5067) ∧
    readsAfter (openAt 2 (by decide)) twoTables
      [.seek 0 1, .read, .setlevel 2, .write 0x3001 0x1] 1 = some (0x5001, 0x6001) := by
  refine ⟨?_, by decide, by decide, by decide, by decide, by decide⟩
  exact not_readsFresh_of_run selfTable [.seek 0 1, .read, .write 0x5001 0x1] 2 (by decide)
    (x := 0x1001) (y := 0x5067) (by decide) (by decide)

end OnDemandVirt.Vmm
