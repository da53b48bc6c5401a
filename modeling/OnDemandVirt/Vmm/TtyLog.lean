import OnDemandVirt.Lib.Memory
import OnDemandVirt.Lib.Ring

/-!
# The log and the panic memory

The log of `tty.c` is a ring of which the last 65536 characters are known. On a panic it is copied
to memory that survives a restart, as often as that has room for, and after the restart the first
copy that is intact is put ahead of what was logged since. The function that does so logs a line
itself.
-/

namespace OnDemandVirt.Vmm

open Lib Lib.Ring

/-- `sizeof logbuf.log`. -/
def logSize : Nat := 65536

/-- `sizeof logbuf`, which is a multiple of its alignment. -/
def logbufSize : Nat := 0x11000

/-- `sizeof *mem`. -/
def headerSize : Nat := 32

/-- `logbuf` and `logflag`. -/
structure TtyLog where
  logoffset : BitVec 32
  loglen : BitVec 32
  log : Nat → BitVec 8
  logflag : Bool

/-- `x % sizeof logbuf.log`. -/
def logIndex (x : BitVec 32) : Nat := x.toNat % logSize

/-- `tty_init_global`. -/
def ttyInitGlobal (log : Nat → BitVec 8) : TtyLog := ⟨0, 0, log, true⟩

/-- What `tty_putchar` does with the log. -/
def ttyPutchar (b : TtyLog) (c : BitVec 8) : TtyLog :=
  if b.logflag then
    let b := { b with log := Function.update b.log (logIndex (b.logoffset + b.loglen)) c }
    if b.loglen = BitVec.ofNat 32 logSize then
      { b with logoffset := BitVec.ofNat 32 (logIndex (b.logoffset + 1)) }
    else { b with loglen := b.loglen + 1 }
  else b

/-- What `ttylog_msghandler` gives a reader with a buffer that is large enough. -/
def TtyLog.contents (b : TtyLog) : List (BitVec 8) :=
  (List.range b.loglen.toNat).map fun i => b.log (logIndex (b.logoffset + BitVec.ofNat 32 i))

/-! ### The panic memory -/

/-- `key` of `struct ttylog_in_panicmem`: the inverted `PANICMEM_KEY_INVERT`, and ones. -/
def panicmemKey : List (BitVec 8) :=
  [0x62, 0x69, 0x74, 0x76, 0x69, 0x73, 0x6F, 0x72, 0x20, 0x70, 0x61, 0x6E, 0x69, 0x63, 0x20, 0x6C,
    0x6F, 0x67, 0x00].map (~~~ ·) ++ List.replicate 5 0xFF

/-- A 32-bit word in memory. -/
def loadU32 (m : ByteMem) (a : Nat) : Nat :=
  (m a).toNat + 256 * (m (a + 1)).toNat + 65536 * (m (a + 2)).toNat + 16777216 * (m (a + 3)).toNat

def bytesU32 (v : Nat) : List (BitVec 8) :=
  [BitVec.ofNat 8 v, BitVec.ofNat 8 (v / 256), BitVec.ofNat 8 (v / 65536),
    BitVec.ofNat 8 (v / 16777216)]

variable (crc32 : List (BitVec 8) → BitVec 32)

/-- `ttylog_copy_to_panicmem_one`, for `memlen` bytes at `mem`. -/
def ttylogCopyToPanicmemOne (b : TtyLog) (mem memlen : Nat) (m : ByteMem) : ByteMem :=
  let room := memlen - headerSize
  let copyoff := if b.loglen.toNat > room then b.loglen.toNat - room else 0
  let copylen := if b.loglen.toNat > room then room else b.loglen.toNat
  let m := m.write (mem + headerSize) ((List.range copylen).map fun i =>
    b.log (logIndex (b.logoffset + BitVec.ofNat 32 copyoff + BitVec.ofNat 32 i)))
  let m := m.write (mem + 28) (bytesU32 copylen)
  let m := m.write (mem + 24) (bytesU32 0)
  let m := m.write mem panicmemKey
  m.write (mem + 24) (bytesU32 (crc32 (m.read mem (headerSize + copylen))).toNat)

/-- `printf ("Old log found in RAM\\n")`. -/
def oldLogFound : List (BitVec 8) :=
  [0x4F, 0x6C, 0x64, 0x20, 0x6C, 0x6F, 0x67, 0x20, 0x66, 0x6F, 0x75, 0x6E, 0x64, 0x20, 0x69, 0x6E,
    0x20, 0x52, 0x41, 0x4D, 0x0A]

/-- The loop that puts the first `k` bytes at `buf` ahead of the log, from the last one on. -/
def putAhead (m : ByteMem) (buf : Nat) : Nat → TtyLog → TtyLog
  | 0, b => b
  | k + 1, b =>
    if b.loglen.toNat < logSize then
      let logoffset := b.logoffset - 1
      putAhead m buf k { b with
        logoffset := logoffset
        loglen := b.loglen + 1
        log := Function.update b.log (logIndex logoffset) (m (buf + k)) }
    else b

/-- The tests of `ttylog_copy_from_panicmem_one`. -/
def panicmemIntact (mem memlen : Nat) (m : ByteMem) : Bool :=
  let copylen := loadU32 m (mem + 28)
  copylen ≤ memlen - headerSize && m.read mem 24 = panicmemKey &&
    (let m' := m.write (mem + 24) (bytesU32 0)
    loadU32 m (mem + 24) = (crc32 (m'.read mem (headerSize + copylen))).toNat)

/-- The memory, the log, and `flag`. -/
structure Restore where
  mem : ByteMem
  log : TtyLog
  flag : Bool

/-- `ttylog_copy_from_panicmem_one`, for `memlen` bytes at `mem`. -/
def ttylogCopyFromPanicmemOne (mem memlen : Nat) (s : Restore) : Restore :=
  let clear := s.mem.write mem (List.replicate headerSize 0)
  if s.flag then { s with mem := clear }
  else if panicmemIntact crc32 mem memlen s.mem then
    { mem := clear
      log := putAhead s.mem (mem + headerSize) (loadU32 s.mem (mem + 28))
        (oldLogFound.foldl ttyPutchar s.log)
      flag := true }
  else { s with mem := clear }

/-- `ttylog_copy_panicmem`. -/
def ttylogCopyPanicmem {σ : Type} (copyOne : Nat → Nat → σ → σ) (mem memlen : Nat) (s : σ) : σ :=
  if memlen > logbufSize + headerSize then
    ttylogCopyPanicmem copyOne (mem + (logbufSize + headerSize))
      (memlen - (logbufSize + headerSize)) (copyOne mem memlen s)
  else s
termination_by memlen
decreasing_by
  unfold logbufSize headerSize at *
  omega

/-- `ttylog_copy_to_panicmem`. -/
def ttylogCopyToPanicmem (b : TtyLog) (mem memlen : Nat) (m : ByteMem) : ByteMem :=
  ttylogCopyPanicmem (ttylogCopyToPanicmemOne crc32 b) mem memlen m

/-- `ttylog_copy_from_panicmem`. -/
def ttylogCopyFromPanicmem (mem memlen : Nat) (m : ByteMem) (b : TtyLog) : Restore :=
  ttylogCopyPanicmem (ttylogCopyFromPanicmemOne crc32) mem memlen ⟨m, b, false⟩

/-- What `mm_get_panicmem` gives: `NUM_OF_PANICMEM_PAGES` pages. -/
def panicmemLen : Nat := 256 <<< 12

/-- The log after `cs` was written from the start of the VMM on. -/
def logged (log : Nat → BitVec 8) (cs : List (BitVec 8)) : TtyLog :=
  cs.foldl ttyPutchar (ttyInitGlobal log)

/-- The log after a panic with the log `old`, a restart on which `new` is logged, and the restore. -/
def restoredLog (old new : TtyLog) (mem : Nat) (m : ByteMem) : TtyLog :=
  (ttylogCopyFromPanicmem crc32 mem panicmemLen (ttylogCopyToPanicmem crc32 old mem panicmemLen m)
    new).log

/-! ### The ring -/

section Ring

variable {b : TtyLog}

theorem logIndex_add (x : BitVec 32) (i : Nat) :
    logIndex (x + BitVec.ofNat 32 i) = (x.toNat + i) % logSize := by
  unfold logIndex
  rw [BitVec.toNat_add, BitVec.toNat_ofNat, Nat.add_mod_mod,
    Nat.mod_mod_of_dvd _ (show logSize ∣ 2 ^ 32 by decide)]

theorem contents_eq (b : TtyLog) :
    b.contents = Ring.contents logSize b.log b.logoffset.toNat b.loglen.toNat :=
  List.map_congr_left fun i _ => congrArg b.log (logIndex_add b.logoffset i)

@[simp] theorem length_log (b : TtyLog) : b.contents.length = b.loglen.toNat := by
  rw [contents_eq, Ring.length_contents]

/-- A log with its flag set that has no more characters than there is room for. -/
structure TtyLog.Ok (b : TtyLog) : Prop where
  loglen_le : b.loglen.toNat ≤ logSize
  logflag : b.logflag = true

theorem ok_ttyInitGlobal (log : Nat → BitVec 8) : (ttyInitGlobal log).Ok :=
  ⟨Nat.zero_le _, rfl⟩

theorem toNat_loglen_succ {x : BitVec 32} (h : x.toNat < logSize) :
    (x + 1).toNat = x.toNat + 1 := by
  have hlt : x.toNat + 1 < 2 ^ 32 := Nat.lt_of_le_of_lt h (by decide)
  rw [BitVec.toNat_add]
  exact Nat.mod_eq_of_lt hlt

/-- A character more, and one less at the other end where there is no room. -/
theorem ttyPutchar_spec (h : b.Ok) (c : BitVec 8) :
    (ttyPutchar b c).Ok ∧ (ttyPutchar b c).contents = (b.contents ++ [c]).rtake logSize := by
  have hindex : logIndex (b.logoffset + b.loglen) =
      (b.logoffset.toNat + b.loglen.toNat) % logSize := by
    rw [← logIndex_add, BitVec.ofNat_toNat, BitVec.setWidth_eq]
  unfold ttyPutchar
  rw [if_pos h.logflag]
  dsimp only
  by_cases hfull : b.loglen = BitVec.ofNat 32 logSize
  · have hlen : b.loglen.toNat = logSize := by
      rw [hfull]
      rfl
    rw [if_pos hfull]
    refine ⟨⟨h.loglen_le, h.logflag⟩, ?_⟩
    have hsize : 0 < logSize := by decide
    rw [← tail_append_rtake c ((length_log b).trans hlen) hsize, contents_eq, contents_eq]
    dsimp only
    rw [hindex, hlen]
    refine contents_full c ?_ hsize
    rw [logIndex, BitVec.toNat_ofNat, BitVec.toNat_add,
      Nat.mod_mod_of_dvd _ (show logSize ∣ 2 ^ 32 by decide), Nat.mod_mod,
      Nat.mod_mod_of_dvd _ (show logSize ∣ 2 ^ 32 by decide)]
    rfl
  · have hlt : b.loglen.toNat < logSize := by
      refine Nat.lt_of_le_of_ne h.loglen_le fun heq => hfull ?_
      rw [← heq, BitVec.ofNat_toNat, BitVec.setWidth_eq]
    rw [if_neg hfull]
    refine ⟨⟨(toNat_loglen_succ hlt).trans_le hlt, h.logflag⟩, ?_⟩
    have hlen : (b.contents ++ [c]).length ≤ logSize := by
      rw [List.length_append, length_log]
      exact hlt
    rw [rtake_of_length_le hlen, contents_eq, contents_eq]
    dsimp only
    rw [toNat_loglen_succ hlt, hindex]
    exact contents_append c hlt

theorem foldl_ttyPutchar_spec (h : b.Ok) (cs : List (BitVec 8)) :
    (cs.foldl ttyPutchar b).Ok ∧
      (cs.foldl ttyPutchar b).contents = (b.contents ++ cs).rtake logSize := by
  induction cs generalizing b with
  | nil =>
    refine ⟨h, ?_⟩
    rw [List.append_nil, rtake_of_length_le ((length_log b).trans_le h.loglen_le)]
    rfl
  | cons c cs ih =>
    obtain ⟨hok, hc⟩ := ttyPutchar_spec h c
    obtain ⟨hok', hcs⟩ := ih hok
    refine ⟨hok', ?_⟩
    rw [List.foldl_cons, hcs, hc, rtake_rtake_append, List.append_assoc, List.singleton_append]

/-- As many bytes ahead of the log as there is room for. -/
theorem contents_putAhead (h : b.Ok) (m : ByteMem) (buf k : Nat) :
    (putAhead m buf k b).contents = (m.read buf k ++ b.contents).rtake logSize := by
  induction k generalizing b with
  | zero => exact (rtake_of_length_le ((length_log b).trans_le h.loglen_le)).symm
  | succ k ih =>
    rw [putAhead]
    dsimp only
    split
    case isTrue hlt =>
      have hprepend : (TtyLog.mk (b.logoffset - 1) (b.loglen + 1)
          (Function.update b.log (logIndex (b.logoffset - 1)) (m (buf + k))) b.logflag).contents =
            m (buf + k) :: b.contents := by
        rw [contents_eq, contents_eq]
        dsimp only
        rw [toNat_loglen_succ hlt]
        refine contents_prepend _ hlt ?_
        have hback := logIndex_add (b.logoffset - 1) 1
        rw [show b.logoffset - 1 + BitVec.ofNat 32 1 = b.logoffset from BitVec.sub_add_cancel ..]
          at hback
        exact hback.symm
      have hok : (TtyLog.mk (b.logoffset - 1) (b.loglen + 1)
          (Function.update b.log (logIndex (b.logoffset - 1)) (m (buf + k))) b.logflag).Ok :=
        ⟨(toNat_loglen_succ hlt).trans_le hlt, h.logflag⟩
      rw [ih hok, hprepend, ByteMem.read_add, List.append_assoc]
      rfl
    case isFalse hge =>
      have hlen : b.contents.length = logSize :=
        (length_log b).trans (Nat.le_antisymm h.loglen_le (Nat.not_lt.mp hge))
      rw [rtake_append, hlen, Nat.sub_self, List.rtake_zero, List.nil_append,
        rtake_of_length_le hlen.le]

end Ring

/-! ### A copy -/

theorem loadU32_of_read {m : ByteMem} {a v : Nat} (hv : v < 2 ^ 32)
    (h : m.read a 4 = bytesU32 v) : loadU32 m a = v := by
  have hbytes : m a = BitVec.ofNat 8 v ∧ m (a + 1) = BitVec.ofNat 8 (v / 256) ∧
      m (a + 2) = BitVec.ofNat 8 (v / 65536) ∧ m (a + 3) = BitVec.ofNat 8 (v / 16777216) := by
    simpa [ByteMem.read, bytesU32, List.range_succ] using h
  obtain ⟨h0, h1, h2, h3⟩ := hbytes
  unfold loadU32
  rw [h0, h1, h2, h3]
  simp only [BitVec.toNat_ofNat]
  omega

/-- A copy of `data` at `mem` that is intact. -/
structure Saved (mem : Nat) (data : List (BitVec 8)) (m : ByteMem) : Prop where
  key : m.read mem 24 = panicmemKey
  len : loadU32 m (mem + 28) = data.length
  crc : loadU32 m (mem + 24) =
    (crc32 ((m.write (mem + 24) (bytesU32 0)).read mem (headerSize + data.length))).toNat
  data : m.read (mem + headerSize) data.length = data

variable {crc32} {mem memlen : Nat} {data : List (BitVec 8)} {m m' : ByteMem} {b : TtyLog}

/-- Writing a block a second time undoes what was written there in between. -/
theorem write_write_of_read {m : ByteMem} {a : Nat} {bs cs : List (BitVec 8)}
    (h : m.read a bs.length = bs) (hlen : cs.length = bs.length) :
    (m.write a cs).write a bs = m := by
  rw [ByteMem.write_write_self _ _ _ _ hlen]
  nth_rewrite 1 [← h]
  exact ByteMem.write_read_self ..

/-- What `ttylog_copy_to_panicmem_one` writes. -/
theorem saved_writes (crc32 : List (BitVec 8) → BitVec 32) (mem : Nat)
    (hlen : data.length < 2 ^ 32) (m : ByteMem) :
    let m₁ := (((m.write (mem + headerSize) data).write (mem + 28) (bytesU32 data.length)).write
      (mem + 24) (bytesU32 0)).write mem panicmemKey
    Saved crc32 mem data (m₁.write (mem + 24)
      (bytesU32 (crc32 (m₁.read mem (headerSize + data.length))).toNat)) := by
  intro m₁
  have hkey : m₁.read mem 24 = panicmemKey := ByteMem.read_write_all _ _ _ _ rfl
  have hzero : m₁.read (mem + 24) 4 = bytesU32 0 := by
    rw [ByteMem.read_write_of_disjoint _ _ _ _ _ (.inr (Nat.le_refl (mem + 24)))]
    exact ByteMem.read_write_all _ _ _ _ rfl
  have hlen' : m₁.read (mem + 28) 4 = bytesU32 data.length := by
    rw [ByteMem.read_write_of_disjoint _ _ _ _ _ (.inr (show mem + 24 ≤ mem + 28 by omega)),
      ByteMem.read_write_of_disjoint _ _ _ _ _ (.inr (Nat.le_refl (mem + 28)))]
    exact ByteMem.read_write_all _ _ _ _ rfl
  have hdata : m₁.read (mem + headerSize) data.length = data := by
    rw [ByteMem.read_write_of_disjoint _ _ _ _ _
        (.inr (show mem + 24 ≤ mem + headerSize by unfold headerSize; omega)),
      ByteMem.read_write_of_disjoint _ _ _ _ _
        (.inr (show mem + 28 ≤ mem + headerSize by unfold headerSize; omega)),
      ByteMem.read_write_of_disjoint _ _ _ _ _ (.inr (Nat.le_refl (mem + headerSize)))]
    exact ByteMem.read_write_all _ _ _ _ rfl
  refine ⟨?_, ?_, ?_, ?_⟩
  · rw [ByteMem.read_write_of_disjoint _ _ _ _ _ (.inl (Nat.le_refl (mem + 24))), hkey]
  · refine loadU32_of_read hlen ?_
    rw [ByteMem.read_write_of_disjoint _ _ _ _ _ (.inr (Nat.le_refl (mem + 28))), hlen']
  · have hundo : ∀ v, (m₁.write (mem + 24) (bytesU32 v)).write (mem + 24) (bytesU32 0) = m₁ :=
      fun _ => write_write_of_read hzero rfl
    rw [hundo]
    exact loadU32_of_read (BitVec.isLt _) (ByteMem.read_write_all _ _ _ _ rfl)
  · rw [ByteMem.read_write_of_disjoint _ _ _ _ _
      (.inr (show mem + 28 ≤ mem + headerSize by unfold headerSize; omega)), hdata]

/-- Where there is room for the log, all of it is copied. -/
theorem saved_copyToPanicmemOne (crc32 : List (BitVec 8) → BitVec 32) (mem : Nat) (h : b.Ok)
    (hroom : logSize ≤ memlen - headerSize) (m : ByteMem) :
    Saved crc32 mem b.contents (ttylogCopyToPanicmemOne crc32 b mem memlen m) := by
  have hle : ¬ b.loglen.toNat > memlen - headerSize := by
    have := h.loglen_le
    omega
  have hdata : ((List.range b.loglen.toNat).map fun i =>
      b.log (logIndex (b.logoffset + BitVec.ofNat 32 0 + BitVec.ofNat 32 i))) = b.contents :=
    List.map_congr_left fun i _ => by rw [show b.logoffset + BitVec.ofNat 32 0 = b.logoffset from
      BitVec.add_zero _]
  have hlen : b.contents.length < 2 ^ 32 :=
    Nat.lt_of_le_of_lt ((length_log b).trans_le h.loglen_le) (by decide)
  have hsaved := saved_writes crc32 mem hlen m
  unfold ttylogCopyToPanicmemOne
  simp only [if_neg hle, hdata]
  rw [length_log] at hsaved
  exact hsaved

/-- A copy writes nothing ahead of it. -/
theorem copyToPanicmemOne_of_lt {x : Nat} (hx : x < mem) :
    ttylogCopyToPanicmemOne crc32 b mem memlen m x = m x := by
  unfold ttylogCopyToPanicmemOne
  rw [ByteMem.write_apply_lt _ _ _ (by omega), ByteMem.write_apply_lt _ _ _ hx,
    ByteMem.write_apply_lt _ _ _ (by omega), ByteMem.write_apply_lt _ _ _ (by omega),
    ByteMem.write_apply_lt _ _ _ (by omega)]

theorem Saved.congr (h : Saved crc32 mem data m)
    (heq : ∀ x < mem + headerSize + data.length, m' x = m x) : Saved crc32 mem data m' := by
  have hread : ∀ a n, a + n ≤ mem + headerSize + data.length → m'.read a n = m.read a n :=
    fun a n han => ByteMem.read_congr _ _ _ _ fun i hi => heq (a + i) (by omega)
  have hload : ∀ a, a + 4 ≤ mem + headerSize + data.length → loadU32 m' a = loadU32 m a := by
    intro a ha
    unfold loadU32
    rw [heq a (by omega), heq (a + 1) (by omega), heq (a + 2) (by omega), heq (a + 3) (by omega)]
  have hsum : (m'.write (mem + 24) (bytesU32 0)).read mem (headerSize + data.length) =
      (m.write (mem + 24) (bytesU32 0)).read mem (headerSize + data.length) := by
    refine ByteMem.read_congr _ _ _ _ fun i hi => ?_
    unfold ByteMem.write
    rw [heq (mem + i) (by omega)]
  have hsize : 24 < headerSize ∧ 28 + 4 ≤ headerSize := by decide
  refine ⟨?_, ?_, ?_, ?_⟩
  · rw [hread _ _ (by omega), h.key]
  · rw [hload _ (by omega), h.len]
  · rw [hload _ (by omega), hsum, h.crc]
  · rw [hread _ _ (Nat.le_refl _), h.data]

/-- An intact copy passes the tests. -/
theorem Saved.intact (h : Saved crc32 mem data m) (hroom : data.length ≤ memlen - headerSize) :
    panicmemIntact crc32 mem memlen m = true := by
  unfold panicmemIntact
  rw [h.len, h.crc, h.key]
  simp [hroom]

/-! ### All copies -/

/-- What holds of a state and is kept by every copy from `mem` on. -/
theorem copyPanicmem_of_kept {σ : Type} (copyOne : Nat → Nat → σ → σ) (P : σ → Prop) {lo : Nat}
    (hstep : ∀ mem memlen s, lo ≤ mem → P s → P (copyOne mem memlen s)) (mem memlen : Nat) (s : σ)
    (hmem : lo ≤ mem) (h : P s) : P (ttylogCopyPanicmem copyOne mem memlen s) := by
  fun_induction ttylogCopyPanicmem copyOne mem memlen s with
  | case1 mem memlen s _ ih => exact ih (Nat.le_add_right_of_le hmem) (hstep _ _ _ hmem h)
  | case2 => exact h

/-- The first copy is intact when all have been made. -/
theorem saved_copyToPanicmem (crc32 : List (BitVec 8) → BitVec 32) (mem : Nat) (h : b.Ok)
    (hmemlen : logbufSize + headerSize < memlen) (m : ByteMem) :
    Saved crc32 mem b.contents (ttylogCopyToPanicmem crc32 b mem memlen m) := by
  unfold ttylogCopyToPanicmem
  rw [ttylogCopyPanicmem, if_pos hmemlen]
  have hsize : logSize + headerSize ≤ logbufSize + headerSize := by decide
  have hfirst : Saved crc32 mem b.contents (ttylogCopyToPanicmemOne crc32 b mem memlen m) :=
    saved_copyToPanicmemOne crc32 mem h (by omega) m
  refine hfirst.congr fun x hx => ?_
  have hlen := (length_log b).trans_le h.loglen_le
  have hlt : x < mem + (logbufSize + headerSize) := by omega
  exact copyPanicmem_of_kept (ttylogCopyToPanicmemOne crc32 b)
    (fun m' => m' x = ttylogCopyToPanicmemOne crc32 b mem memlen m x)
    (fun mem' _ s hle hs => (copyToPanicmemOne_of_lt (hlt.trans_le hle)).trans hs)
    _ _ _ (Nat.le_refl _) rfl

/-- A first copy that is intact is put ahead of the log, and no other is. -/
theorem log_copyFromPanicmem (h : b.Ok) (hsaved : Saved crc32 mem data m)
    (hroom : data.length ≤ logSize) (hmemlen : logbufSize + headerSize < memlen) :
    (ttylogCopyFromPanicmem crc32 mem memlen m b).log.contents =
      (data ++ (b.contents ++ oldLogFound).rtake logSize).rtake logSize := by
  have hsize : logSize + headerSize ≤ logbufSize + headerSize := by decide
  have hintact : panicmemIntact crc32 mem memlen m = true := hsaved.intact (by omega)
  obtain ⟨hok, hfound⟩ := foldl_ttyPutchar_spec h oldLogFound
  let restored := putAhead m (mem + headerSize) (loadU32 m (mem + 28))
    (oldLogFound.foldl ttyPutchar b)
  have hstep : ∀ mem' memlen' (s : Restore), 0 ≤ mem' → s.flag = true ∧ s.log = restored →
      (ttylogCopyFromPanicmemOne crc32 mem' memlen' s).flag = true ∧
        (ttylogCopyFromPanicmemOne crc32 mem' memlen' s).log = restored := by
    intro mem' memlen' s _ hs
    unfold ttylogCopyFromPanicmemOne
    rw [if_pos hs.1]
    exact hs
  have hfirst : (ttylogCopyFromPanicmemOne crc32 mem memlen ⟨m, b, false⟩).flag = true ∧
      (ttylogCopyFromPanicmemOne crc32 mem memlen ⟨m, b, false⟩).log = restored := by
    unfold ttylogCopyFromPanicmemOne
    rw [if_neg Bool.false_ne_true, if_pos hintact]
    exact ⟨rfl, rfl⟩
  have hrest := copyPanicmem_of_kept (ttylogCopyFromPanicmemOne crc32)
    (fun s => s.flag = true ∧ s.log = restored) hstep (mem + (logbufSize + headerSize))
    (memlen - (logbufSize + headerSize)) _ (Nat.zero_le _) hfirst
  unfold ttylogCopyFromPanicmem
  rw [ttylogCopyPanicmem, if_pos hmemlen, hrest.2, contents_putAhead hok, hfound, hsaved.len,
    hsaved.data]

theorem contents_logged (log : Nat → BitVec 8) (cs : List (BitVec 8)) :
    (logged log cs).Ok ∧ (logged log cs).contents = cs.rtake logSize := by
  obtain ⟨hok, hcs⟩ := foldl_ttyPutchar_spec (ok_ttyInitGlobal log) cs
  have hnil : (ttyInitGlobal log).contents = [] := rfl
  rw [hnil, List.nil_append] at hcs
  exact ⟨hok, hcs⟩

/-- Unfolded under its binders: at arguments the kernel would run the copies instead. -/
theorem restoredLog_eq : restoredLog = fun crc32 old new mem m =>
    (ttylogCopyFromPanicmem crc32 mem panicmemLen
      (ttylogCopyToPanicmem crc32 old mem panicmemLen m) new).log := rfl

theorem contents_restoredLog (crc32 : List (BitVec 8) → BitVec 32) (log log' : Nat → BitVec 8)
    (old new : List (BitVec 8)) (mem : Nat) (m : ByteMem) :
    (restoredLog crc32 (logged log old) (logged log' new) mem m).contents =
      old.rtake (logSize - (new ++ oldLogFound).length) ++ (new ++ oldLogFound).rtake logSize := by
  obtain ⟨hold, hcold⟩ := contents_logged log old
  obtain ⟨hnew, hcnew⟩ := contents_logged log' new
  have hlong : logbufSize + headerSize < panicmemLen := by decide
  have hsaved := saved_copyToPanicmem crc32 mem hold hlong m
  rw [restoredLog_eq]
  beta_reduce
  rw [log_copyFromPanicmem hnew hsaved ((length_log _).trans_le hold.loglen_le) hlong, hcold, hcnew,
    rtake_rtake_append (l := new), rtake_rtake_append (l := old), rtake_rtake_append_right,
    rtake_append]

/-- The log is the end of what was logged. What a panic saves comes back ahead of what was logged
since, as much of its end as fits, where the restore logs a line last. -/
theorem log_restored (crc32 : List (BitVec 8) → BitVec 32) (log log' : Nat → BitVec 8)
    (old new : List (BitVec 8)) (mem : Nat) (m : ByteMem) :
    (logged log old).loglen.toNat = min logSize old.length ∧
      (logged log old).contents = old.rtake logSize ∧
      (restoredLog crc32 (logged log old) (logged log' new) mem m).contents =
        old.rtake (logSize - (new ++ oldLogFound).length) ++ (new ++ oldLogFound).rtake logSize := by
  obtain ⟨_, hcontents⟩ := contents_logged log old
  refine ⟨?_, hcontents, contents_restoredLog crc32 log log' old new mem m⟩
  rw [← length_log, hcontents, length_rtake]

/-- The restore logs a line itself. -/
theorem not_log_restored_only : ¬ ∀ (crc32 : List (BitVec 8) → BitVec 32)
    (log log' : Nat → BitVec 8) (old new : List (BitVec 8)) (mem : Nat) (m : ByteMem),
    (restoredLog crc32 (logged log old) (logged log' new) mem m).contents =
      old.rtake (logSize - new.length) ++ new.rtake logSize := by
  intro hall
  have hone := hall (fun _ => 0) (fun _ => 0) (fun _ => 0) [0x61] [0x62] 0 (fun _ => 0)
  rw [contents_restoredLog] at hone
  have hlen := congrArg List.length hone
  simp only [List.length_append, length_rtake] at hlen
  exact absurd hlen (by decide)

end OnDemandVirt.Vmm
