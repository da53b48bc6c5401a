import OnDemandVirt.Vmm.Mmio
import Mathlib.Data.List.Perm.Basic
import Mathlib.Data.List.Nodup

/-!
# Where the bytes of an access go

In every state that registering and unregistering reach, the handles in force are disjoint and each
bucket lists the handles it meets by address (`MmioWf`). An access then goes, byte by byte, to the
handle that covers the byte or to memory (`routed_of_reachable`), as long as it does not meet two
handles that want to be called without the lock.
-/

namespace OnDemandVirt.Vmm

/-! ### Buckets -/

theorem bucketOf_eq (a : BitVec 64) : bucketOf a = min (a.toNat / 2 ^ 28) 16 := by
  have ha := a.isLt
  unfold bucketOf
  split_ifs with hlow
  · rw [BitVec.le_def] at hlow
    rw [BitVec.toNat_ushiftRight, Nat.shiftRight_eq_div_pow]
    have : a.toNat ≤ 0xFFFFFFFF := hlow
    omega
  · rw [BitVec.le_def] at hlow
    have : ¬ a.toNat ≤ 0xFFFFFFFF := hlow
    omega

theorem bucketOf_mono {a b : BitVec 64} (h : a.toNat ≤ b.toNat) : bucketOf a ≤ bucketOf b := by
  rw [bucketOf_eq, bucketOf_eq]
  have := Nat.div_le_div_right (c := 2 ^ 28) h
  omega

/-- The bits within a bucket do not matter. -/
theorem bucketOf_congr {a b : BitVec 64} (h : a >>> 28 = b >>> 28) : bucketOf a = bucketOf b := by
  have hdiv := congrArg BitVec.toNat h
  rw [BitVec.toNat_ushiftRight, BitVec.toNat_ushiftRight, Nat.shiftRight_eq_div_pow,
    Nat.shiftRight_eq_div_pow] at hdiv
  rw [bucketOf_eq, bucketOf_eq, hdiv]

theorem mem_scanBuckets {gphys : BitVec 64} {len : BitVec 32} {i : Nat}
    (hlen : 0 < len.toNat) (hend : gphys.toNat + len.toNat ≤ 2 ^ 64) :
    i ∈ scanBuckets gphys len ↔
      bucketOf gphys ≤ i ∧ i ≤ bucketOf (gphys + len.setWidth 64 - 1) := by
  have hfirst : bucketOf (gphys &&& ~~~0x0FFFFFFF#64) = bucketOf gphys := by
    apply bucketOf_congr
    have hmask : (~~~0x0FFFFFFF#64) >>> 28 = BitVec.allOnes 64 >>> 28 := by decide
    rw [BitVec.ushiftRight_and_distrib, hmask, ← BitVec.ushiftRight_and_distrib,
      BitVec.and_allOnes]
  have hlast : ∀ x : BitVec 64, bucketOf (x ||| 0x0FFFFFFF#64) = bucketOf x := by
    intro x
    apply bucketOf_congr
    have hmask : 0x0FFFFFFF#64 >>> 28 = 0#64 := by decide
    rw [BitVec.ushiftRight_or_distrib, hmask, BitVec.or_zero]
  have hle : bucketOf gphys ≤ bucketOf (gphys + len.setWidth 64 - 1) := by
    apply bucketOf_mono
    rw [toNat_last hlen hend]
    omega
  unfold scanBuckets
  dsimp only
  rw [hfirst, hlast, List.mem_range'_1]
  omega

/-- A handle is in the list of every bucket from its first address to its last one. -/
theorem mem_scanBuckets_of_meets {h : MmioHandle} (hh : h.Sound) {lo : BitVec 64} {i hi : Nat}
    (hmeets : h.Meets lo.toNat hi) (hfirst : bucketOf h.gphys ≤ i) (hlo : i = bucketOf lo) :
    i ∈ scanBuckets h.gphys h.len := by
  rw [mem_scanBuckets hh.1 hh.2]
  refine ⟨hfirst, hlo ▸ bucketOf_mono ?_⟩
  rw [toNat_last hh.1 hh.2]
  have := hmeets.2
  omega

/-! ### Registered handles -/

/-- The handle is in force. -/
def MmioData.Registered (s : MmioData) (p : Nat) : Prop :=
  p ∈ s.handle ∧ (s.heap p).unregistered = false

/-- What registering and unregistering keep. -/
structure MmioWf (s : MmioData) : Prop where
  fresh : ∀ p ∈ s.handle, p < s.next
  nodup : s.handle.Nodup
  sound : ∀ p ∈ s.handle, (s.heap p).Sound
  disjoint : ∀ p q, s.Registered p → s.Registered q → p ≠ q → ∀ k,
    (s.heap p).Covers k → ¬ (s.heap q).Covers k
  bucket : ∀ i p, p ∈ s.mmio i ↔
    p ∈ s.handle ∧ i ∈ scanBuckets (s.heap p).gphys (s.heap p).len
  bucketNodup : ∀ i, (s.mmio i).Nodup
  sorted : ∀ i, (s.mmio i).Pairwise fun p q => (s.heap p).gphys ≤ (s.heap q).gphys

theorem mmioInit_wf : MmioWf mmioInit := by
  constructor <;> simp [mmioInit, MmioData.Registered]

/-! ### Adding a handle to a bucket -/

section

variable {heap : Nat → MmioHandle} {p : Nat} {l : List Nat}

theorem addHandle_perm : (addHandle heap p l).Perm (p :: l) := by
  unfold addHandle
  refine List.perm_middle.trans ?_
  rw [List.takeWhile_append_dropWhile]

theorem mem_addHandle {q : Nat} : q ∈ addHandle heap p l ↔ q = p ∨ q ∈ l := by
  rw [addHandle_perm.mem_iff, List.mem_cons]

/-- The list stays sorted. -/
theorem addHandle_sorted (hl : l.Pairwise fun p q => (heap p).gphys ≤ (heap q).gphys) :
    (addHandle heap p l).Pairwise fun p q => (heap p).gphys ≤ (heap q).gphys := by
  induction l with
  | nil => simp [addHandle]
  | cons d l ih =>
    obtain ⟨hd, hrest⟩ := List.pairwise_cons.mp hl
    by_cases hle : (heap d).gphys ≤ (heap p).gphys
    · have hadd : addHandle heap p (d :: l) = d :: addHandle heap p l := by
        simp [addHandle, hle]
      rw [hadd, List.pairwise_cons]
      refine ⟨fun q hq => ?_, ih hrest⟩
      rcases mem_addHandle.1 hq with rfl | hmem
      · exact hle
      · exact hd q hmem
    · have hadd : addHandle heap p (d :: l) = p :: d :: l := by
        simp [addHandle, hle]
      have hlt : (heap p).gphys ≤ (heap d).gphys := BitVec.le_of_lt (BitVec.not_le.mp hle)
      rw [hadd, List.pairwise_cons]
      refine ⟨fun q hq => ?_, hl⟩
      rcases List.mem_cons.mp hq with rfl | hmem
      · exact hlt
      · exact BitVec.le_trans hlt (hd q hmem)

end

/-! ### Registering and unregistering -/

section

variable {s : MmioData}

/-- Two handles without a common address. -/
theorem not_covers_of_not_meets {h : MmioHandle} {lo hi k : Nat} (hm : ¬ h.Meets lo hi)
    (hlo : lo ≤ k) (hhi : k < hi) : ¬ h.Covers k := fun hc =>
  hm ⟨Nat.lt_of_le_of_lt hc.1 hhi, Nat.lt_of_le_of_lt hlo hc.2⟩

/-- The new handle is added to all lists that it belongs to. -/
theorem mmioRegister_wf (hs : MmioWf s) {gphys : BitVec 64} {len : BitVec 32}
    (hlen : 0 < len.toNat) (hend : gphys.toNat + len.toNat ≤ 2 ^ 64) (unlocked flushFails : Bool) :
    MmioWf (mmioRegister gphys len unlocked flushFails s) := by
  unfold mmioRegister
  split_ifs with hmet _
  · exact hs
  · exact hs
  generalize hnew : ({ gphys := gphys, len := len, unregistered := false
                       unlockedHandler := unlocked } : MmioHandle) = h
  dsimp only
  have hold : ∀ q ∈ s.handle, Function.update s.heap s.next h q = s.heap q := fun q hq =>
    Function.update_of_ne (Nat.ne_of_lt (hs.fresh q hq)) _ _
  have hself : Function.update s.heap s.next h s.next = h := Function.update_self _ _ _
  have hnot : s.next ∉ s.handle := fun hmem => Nat.lt_irrefl _ (hs.fresh _ hmem)
  -- the range check found nothing in the way
  have hfree : ∀ q, s.Registered q → ∀ k, gphys.toNat ≤ k → k < gphys.toNat + len.toNat →
      ¬ (s.heap q).Covers k := by
    intro q hq k hlo hhi
    have hcheck : ¬ (rangecheck (s.heap q) gphys len).isSome = true := by
      intro hsome
      exact hmet (List.any_eq_true.mpr ⟨q, hq.1, hsome⟩)
    rw [rangecheck_isSome_iff _ (hs.sound q hq.1) hlen hend] at hcheck
    exact not_covers_of_not_meets (fun hm => hcheck ⟨hq.2, hm⟩) hlo hhi
  have hcovers : ∀ k, h.Covers k ↔ gphys.toNat ≤ k ∧ k < gphys.toNat + len.toNat := by
    intro k
    subst hnew
    rfl
  have hmem : ∀ i q, q ∈ scan gphys len (addHandle (Function.update s.heap s.next h)) s.next
      s.mmio i ↔ (q = s.next ∧ i ∈ scanBuckets gphys len) ∨ q ∈ s.mmio i := by
    intro i q
    unfold scan
    split_ifs with hi
    · rw [mem_addHandle]
      simp [hi]
    · simp [hi]
  constructor
  · intro q hq
    rcases List.mem_append.mp hq with hq | hq
    · exact Nat.lt_succ_of_lt (hs.fresh q hq)
    · rw [List.mem_singleton.mp hq]
      exact Nat.lt_succ_self _
  · exact List.nodup_append.mpr ⟨hs.nodup, List.nodup_singleton _, fun q hq r hr => by
      rw [List.mem_singleton.mp hr]
      exact fun heq => hnot (heq ▸ hq)⟩
  · intro q hq
    dsimp only
    rcases List.mem_append.mp hq with hq | hq
    · rw [hold q hq]
      exact hs.sound q hq
    · rw [List.mem_singleton.mp hq, hself]
      subst hnew
      exact ⟨hlen, hend⟩
  · rintro q r ⟨hq, hqr⟩ ⟨hr, hrr⟩ hne k hqk hrk
    dsimp only at hq hqr hr hrr hqk hrk
    rcases List.mem_append.mp hq with hq | hq
    · rw [hold q hq] at hqr hqk
      rcases List.mem_append.mp hr with hr | hr
      · rw [hold r hr] at hrr hrk
        exact hs.disjoint q r ⟨hq, hqr⟩ ⟨hr, hrr⟩ hne k hqk hrk
      · rw [List.mem_singleton.mp hr, hself] at hrk
        obtain ⟨hlo, hhi⟩ := (hcovers k).mp hrk
        exact hfree q ⟨hq, hqr⟩ k hlo hhi hqk
    · rw [List.mem_singleton.mp hq, hself] at hqk
      obtain ⟨hlo, hhi⟩ := (hcovers k).mp hqk
      rcases List.mem_append.mp hr with hr | hr
      · rw [hold r hr] at hrr hrk
        exact hfree r ⟨hr, hrr⟩ k hlo hhi hrk
      · rw [List.mem_singleton.mp hr, List.mem_singleton.mp hq] at hne
        exact hne rfl
  · intro i q
    dsimp only
    rw [hmem, hs.bucket, List.mem_append, List.mem_singleton]
    constructor
    · rintro (⟨rfl, hi⟩ | ⟨hq, hi⟩)
      · refine ⟨Or.inr rfl, ?_⟩
        rw [hself]
        subst hnew
        exact hi
      · refine ⟨Or.inl hq, ?_⟩
        rw [hold q hq]
        exact hi
    · rintro ⟨hq | rfl, hi⟩
      · rw [hold q hq] at hi
        exact Or.inr ⟨hq, hi⟩
      · rw [hself] at hi
        subst hnew
        exact Or.inl ⟨rfl, hi⟩
  · intro i
    dsimp only [scan]
    split_ifs
    · refine addHandle_perm.nodup_iff.mpr (List.nodup_cons.mpr ⟨fun hp => ?_, hs.bucketNodup i⟩)
      exact hnot ((hs.bucket i _).mp hp).1
    · exact hs.bucketNodup i
  · intro i
    have hsorted : (s.mmio i).Pairwise fun p q => (Function.update s.heap s.next h p).gphys ≤
        (Function.update s.heap s.next h q).gphys := by
      refine (hs.sorted i).imp_of_mem fun hq hr hle => ?_
      rw [hold _ ((hs.bucket i _).mp hq).1, hold _ ((hs.bucket i _).mp hr).1]
      exact hle
    dsimp only [scan]
    split_ifs
    · exact addHandle_sorted hsorted
    · exact hsorted

theorem mem_removeHandle (hs : MmioWf s) {p i q : Nat} :
    q ∈ (removeHandle s p).mmio i ↔ q ∈ s.mmio i ∧ q ≠ p := by
  unfold removeHandle scan
  dsimp only
  split_ifs with hi
  · rw [(hs.bucketNodup i).mem_erase_iff]
    exact And.comm
  · refine ⟨fun hq => ⟨hq, ?_⟩, And.left⟩
    rintro rfl
    exact hi ((hs.bucket i q).mp hq).2

/-- Removing a handle takes it out of all lists. -/
theorem removeHandle_wf (hs : MmioWf s) (p : Nat) : MmioWf (removeHandle s p) := by
  have hmem : ∀ q, q ∈ (removeHandle s p).handle ↔ q ∈ s.handle ∧ q ≠ p := fun q => by
    rw [removeHandle, hs.nodup.mem_erase_iff]
    exact And.comm
  have hheap : (removeHandle s p).heap = s.heap := rfl
  have hsub : ∀ i, ((removeHandle s p).mmio i).Sublist (s.mmio i) := by
    intro i
    dsimp only [removeHandle, scan]
    split_ifs
    · exact List.erase_sublist
    · exact List.Sublist.refl _
  constructor
  · exact fun q hq => hs.fresh q ((hmem q).mp hq).1
  · exact hs.nodup.sublist List.erase_sublist
  · exact fun q hq => hs.sound q ((hmem q).mp hq).1
  · exact fun q r hq hr => hs.disjoint q r ⟨((hmem q).mp hq.1).1, hq.2⟩ ⟨((hmem r).mp hr.1).1, hr.2⟩
  · intro i q
    rw [mem_removeHandle hs, hs.bucket, hmem, hheap]
    exact and_right_comm
  · exact fun i => (hs.bucketNodup i).sublist (hsub i)
  · exact fun i => (hs.sorted i).sublist (hsub i)

/-- Marking a handle moves nothing. -/
theorem markUnregistered_wf (hs : MmioWf s) (p : Nat) :
    MmioWf { s with
      heap := Function.update s.heap p { s.heap p with unregistered := true }
      unregisterFlag := true } := by
  generalize hheap : Function.update s.heap p { s.heap p with unregistered := true } = heap
  have hsame : ∀ q, (heap q).gphys = (s.heap q).gphys ∧ (heap q).len = (s.heap q).len := by
    intro q
    subst hheap
    by_cases hq : q = p
    · subst hq
      rw [Function.update_self]
      exact ⟨rfl, rfl⟩
    · rw [Function.update_of_ne hq]
      exact ⟨rfl, rfl⟩
  have hreg : ∀ q, (heap q).unregistered = false → (s.heap q).unregistered = false := by
    intro q
    subst hheap
    by_cases hq : q = p
    · subst hq
      rw [Function.update_self]
      exact fun h => Bool.noConfusion h
    · rw [Function.update_of_ne hq]
      exact id
  constructor
  · exact hs.fresh
  · exact hs.nodup
  · intro q hq
    have := hs.sound q hq
    unfold MmioHandle.Sound at *
    rw [(hsame q).1, (hsame q).2]
    exact this
  · intro q r hq hr hne k hqk hrk
    unfold MmioHandle.Covers at hqk hrk
    rw [(hsame q).1, (hsame q).2] at hqk
    rw [(hsame r).1, (hsame r).2] at hrk
    exact hs.disjoint q r ⟨hq.1, hreg q hq.2⟩ ⟨hr.1, hreg r hr.2⟩ hne k hqk hrk
  · intro i q
    dsimp only
    rw [(hsame q).1, (hsame q).2]
    exact hs.bucket i q
  · exact hs.bucketNodup
  · intro i
    refine (hs.sorted i).imp fun {q r} hle => ?_
    dsimp only
    rw [(hsame q).1, (hsame r).1]
    exact hle

theorem mmioUnlock_wf (hs : MmioWf s) : MmioWf (mmioUnlock s) := by
  unfold mmioUnlock
  split_ifs
  · have hs' : MmioWf { s with unregisterFlag := false } :=
      ⟨hs.fresh, hs.nodup, hs.sound, hs.disjoint, hs.bucket, hs.bucketNodup, hs.sorted⟩
    exact List.foldlRecOn _ _ hs' fun s hs p _ => removeHandle_wf hs p
  · exact hs

/-- What callers of `mmio_register` promise: a range that is not empty and does not wrap. -/
def Registers (e : MmioEvent) : Prop :=
  ∀ gphys len unlocked flushFails, e = .register gphys len unlocked flushFails →
    0 < len.toNat ∧ gphys.toNat + len.toNat ≤ 2 ^ 64

theorem mmioWf_of_reachable (h : mmioMachine.ReachableWhen (fun _ e => Registers e) s) :
    MmioWf s := by
  refine h.invariant ?_ ?_
  · rintro s rfl
    exact mmioInit_wf
  · rintro s (⟨gphys, len, unlocked, flushFails⟩ | ⟨p, locked⟩ | _) s' hs he hstep
    · cases hstep
      obtain ⟨hlen, hend⟩ := he gphys len unlocked flushFails rfl
      exact mmioRegister_wf hs hlen hend unlocked flushFails
    · change (if p ∈ s.handle then some (mmioUnregister p locked s) else none) = some s' at hstep
      split_ifs at hstep
      cases hstep
      unfold mmioUnregister
      split_ifs
      · exact markUnregistered_wf hs p
      · exact removeHandle_wf hs p
    · cases hstep
      exact mmioUnlock_wf hs

end

/-! ### Targets of an address -/

/-- The targets that the accesses hand the address to, in order. -/
def targetsAt (as : List Access) (k : Nat) : List Target :=
  (as.filter fun a => a.gphys ≤ k ∧ k < a.gphys + a.len).map (·.target)

@[simp] theorem targetsAt_nil (k : Nat) : targetsAt [] k = [] := rfl

@[simp] theorem targetsAt_append (as bs : List Access) (k : Nat) :
    targetsAt (as ++ bs) k = targetsAt as k ++ targetsAt bs k := by
  simp [targetsAt]

theorem targetsAt_singleton (a : Access) (k : Nat) :
    targetsAt [a] k = if a.gphys ≤ k ∧ k < a.gphys + a.len then [a.target] else [] := by
  unfold targetsAt
  split_ifs with hk
  · simp [hk]
  · simpa using hk

theorem targetsAt_eq_nil {as : List Access} {k : Nat}
    (h : ∀ a ∈ as, a.gphys ≤ k → a.gphys + a.len ≤ k) : targetsAt as k = [] := by
  unfold targetsAt
  rw [List.map_eq_nil_iff, List.filter_eq_nil_iff]
  intro a ha
  have := h a ha
  simpa using this

theorem targetsAt_mmioGphysAccess (gphys : BitVec 64) (off : Nat) (len : BitVec 32) (k : Nat) :
    targetsAt (mmioGphysAccess gphys off len) k =
      if gphys.toNat ≤ k ∧ k < gphys.toNat + len.toNat then [.memory] else [] := by
  unfold mmioGphysAccess
  by_cases hlen : len = 0
  · subst hlen
    rw [if_pos rfl, if_neg (by simp)]
    rfl
  · rw [if_neg hlen, targetsAt_singleton]

theorem targetsAt_callHandler (handled : Nat → BitVec 64 → BitVec 32 → Bool) (p : Nat)
    (gphys : BitVec 64) (off : Nat) (len : BitVec 32) (k : Nat) :
    targetsAt (callHandler handled p gphys off len) k =
      if gphys.toNat ≤ k ∧ k < gphys.toNat + len.toNat then
        .handler p :: if handled p gphys len then [] else [.memory]
      else [] := by
  unfold callHandler
  rw [← List.singleton_append, targetsAt_append, targetsAt_singleton]
  by_cases hk : gphys.toNat ≤ k ∧ k < gphys.toNat + len.toNat
  · rw [if_pos hk, if_pos hk]
    cases handled p gphys len
    · simp [targetsAt_mmioGphysAccess, hk]
    · rfl
  · rw [if_neg hk, if_neg hk]
    cases handled p gphys len
    · simp [targetsAt_mmioGphysAccess, hk]
    · rfl

/-- The accesses of a call and of memory stay within their range. -/
theorem mem_mmioGphysAccess {gphys : BitVec 64} {off : Nat} {len : BitVec 32} {a : Access}
    (h : a ∈ mmioGphysAccess gphys off len) :
    a.gphys = gphys.toNat ∧ a.off = off ∧ a.len = len.toNat := by
  unfold mmioGphysAccess at h
  split_ifs at h
  · cases h
  · rw [List.mem_singleton.mp h]
    exact ⟨rfl, rfl, rfl⟩

theorem mem_callHandler {handled : Nat → BitVec 64 → BitVec 32 → Bool} {p : Nat}
    {gphys : BitVec 64} {off : Nat} {len : BitVec 32} {a : Access}
    (h : a ∈ callHandler handled p gphys off len) :
    a.gphys = gphys.toNat ∧ a.off = off ∧ a.len = len.toNat := by
  unfold callHandler at h
  rcases List.mem_cons.mp h with rfl | h
  · exact ⟨rfl, rfl, rfl⟩
  · split_ifs at h
    · cases h
    · exact mem_mmioGphysAccess h

/-- The targets that an address of the access `[lo, hi)` should go to: the handle that covers it,
and memory where there is none or its handler does not handle the access. -/
def expectedTargets (m : MmioData) (handled : Nat → BitVec 64 → BitVec 32 → Bool)
    (lo hi k : Nat) : List Target :=
  match m.handle.find? fun p => !(m.heap p).unregistered &&
      decide ((m.heap p).gphys.toNat ≤ k ∧ k < (m.heap p).gphys.toNat + (m.heap p).len.toNat) with
  | none => [.memory]
  | some p =>
    let first := max lo (m.heap p).gphys.toNat
    let last := min hi ((m.heap p).gphys.toNat + (m.heap p).len.toNat)
    .handler p ::
      if handled p (BitVec.ofNat 64 first) (BitVec.ofNat 32 (last - first)) then [] else [.memory]

section

variable {m : MmioData} {handled : Nat → BitVec 64 → BitVec 32 → Bool} {lo hi k : Nat}

theorem expectedTargets_memory (h : ∀ p, m.Registered p → ¬ (m.heap p).Covers k) :
    expectedTargets m handled lo hi k = [.memory] := by
  have hnone : (m.handle.find? fun p => !(m.heap p).unregistered &&
      decide ((m.heap p).gphys.toNat ≤ k ∧
        k < (m.heap p).gphys.toNat + (m.heap p).len.toNat)) = none := by
    rw [List.find?_eq_none]
    intro p hp
    cases hu : (m.heap p).unregistered with
    | true => simp
    | false =>
      have := h p ⟨hp, hu⟩
      simpa [MmioHandle.Covers] using this
  rw [expectedTargets, hnone]

theorem expectedTargets_handler (hm : MmioWf m) {p : Nat} (hp : m.Registered p)
    (hk : (m.heap p).Covers k) (gphys : BitVec 64) (len : BitVec 32)
    (hfirst : gphys.toNat = max lo (m.heap p).gphys.toNat)
    (hlast : gphys.toNat + len.toNat =
      min hi ((m.heap p).gphys.toNat + (m.heap p).len.toNat)) :
    expectedTargets m handled lo hi k =
      .handler p :: if handled p gphys len then [] else [.memory] := by
  have hsome : (m.handle.find? fun p => !(m.heap p).unregistered &&
      decide ((m.heap p).gphys.toNat ≤ k ∧
        k < (m.heap p).gphys.toNat + (m.heap p).len.toNat)) = some p := by
    cases hfind : m.handle.find? fun p => !(m.heap p).unregistered &&
      decide ((m.heap p).gphys.toNat ≤ k ∧
        k < (m.heap p).gphys.toNat + (m.heap p).len.toNat) with
    | none =>
      have := List.find?_eq_none.mp hfind p hp.1
      simp only [hp.2, Bool.not_false, Bool.true_and, decide_eq_true_eq] at this
      exact absurd hk this
    | some q =>
      have hq := List.find?_some hfind
      have hmem := List.mem_of_find?_eq_some hfind
      simp only [Bool.and_eq_true, Bool.not_eq_true', decide_eq_true_eq] at hq
      by_contra hne
      have hne' : q ≠ p := fun h => hne (congrArg some h)
      exact hm.disjoint q p ⟨hmem, hq.1⟩ hp hne' k hq.2 hk
  have hgphys : BitVec.ofNat 64 (max lo (m.heap p).gphys.toNat) = gphys := by
    rw [← hfirst, BitVec.ofNat_toNat, BitVec.setWidth_eq]
  have hlen : min hi ((m.heap p).gphys.toNat + (m.heap p).len.toNat) -
      max lo (m.heap p).gphys.toNat = len.toNat := by omega
  rw [expectedTargets, hsome]
  dsimp only
  rw [hlen, hgphys, BitVec.ofNat_toNat, BitVec.setWidth_eq]

end

/-! ### One handle -/

/-- The arithmetic of one round: the gap before the handle and the part within it. -/
theorem piece_toNat {g a b : BitVec 64} (len : BitVec 32) (hga : g.toNat ≤ a.toNat)
    (hab : a.toNat ≤ b.toNat) (hb : b.toNat + 1 ≤ g.toNat + len.toNat)
    (hend : g.toNat + len.toNat < 2 ^ 64) :
    ((a - g).setWidth 32).toNat = a.toNat - g.toNat ∧
      g + ((a - g).setWidth 32).setWidth 64 = a ∧
      ((b - a + 1).setWidth 32).toNat = b.toNat + 1 - a.toNat ∧
      (a + ((b - a + 1).setWidth 32).setWidth 64).toNat = b.toNat + 1 ∧
      (len - (a - g).setWidth 32 - (b - a + 1).setWidth 32).toNat =
        g.toNat + len.toNat - (b.toNat + 1) := by
  have hlen := len.isLt
  have hgap : (a - g).toNat = a.toNat - g.toNat := BitVec.toNat_sub_of_le hga
  have hba : (b - a).toNat = b.toNat - a.toNat := BitVec.toNat_sub_of_le hab
  have htmp : ((a - g).setWidth 32).toNat = a.toNat - g.toNat := by
    rw [BitVec.toNat_setWidth, hgap]
    exact Nat.mod_eq_of_lt (by omega)
  have hpart : (b - a + 1).toNat = b.toNat + 1 - a.toNat := by
    have hone : (1 : BitVec 64).toNat = 1 := rfl
    rw [BitVec.toNat_add, hba, hone, Nat.mod_eq_of_lt (by omega)]
    omega
  have hlen2 : ((b - a + 1).setWidth 32).toNat = b.toNat + 1 - a.toNat := by
    rw [BitVec.toNat_setWidth, hpart]
    exact Nat.mod_eq_of_lt (by omega)
  have hback : g + ((a - g).setWidth 32).setWidth 64 = a := by
    apply BitVec.eq_of_toNat_eq
    rw [BitVec.toNat_add, BitVec.toNat_setWidth, htmp, Nat.mod_eq_of_lt (a := a.toNat - g.toNat)
      (by omega), Nat.mod_eq_of_lt (by omega)]
    omega
  refine ⟨htmp, hback, hlen2, ?_, ?_⟩
  · rw [BitVec.toNat_add, BitVec.toNat_setWidth, hlen2,
      Nat.mod_eq_of_lt (a := b.toNat + 1 - a.toNat) (by omega), Nat.mod_eq_of_lt (by omega)]
    omega
  · have hrest : (len - (a - g).setWidth 32).toNat = len.toNat - (a.toNat - g.toNat) := by
      rw [BitVec.toNat_sub_of_le, htmp]
      rw [BitVec.le_def, htmp]
      omega
    rw [BitVec.toNat_sub_of_le, hrest, hlen2]
    · omega
    · rw [BitVec.le_def, hlen2, hrest]
      omega

/-- The call that waits until the lock is released. -/
def pending (handled : Nat → BitVec 64 → BitVec 32 → Bool) (s : AccessState) : List Access :=
  match s.unlockedHandler with
  | none => []
  | some (p, gphys, off, len) => callHandler handled p gphys off len

/-- All that has been decided about the access `[lo, hi)` so far. -/
def decided (handled : Nat → BitVec 64 → BitVec 32 → Bool) (s : AccessState) : List Access :=
  s.accesses ++ pending handled s

/-- What holds of the access `[lo, hi)` between two handles. -/
structure AccessInv (m : MmioData) (handled : Nat → BitVec 64 → BitVec 32 → Bool) (lo hi : Nat)
    (s : AccessState) : Prop where
  left : s.gphysaddr.toNat + s.len.toNat = hi
  pos : s.gphysaddr.toNat = lo + s.q
  within : ∀ a ∈ decided handled s,
    lo ≤ a.gphys ∧ a.gphys + a.len ≤ s.gphysaddr.toNat ∧ a.gphys = lo + a.off
  done : ∀ k, lo ≤ k → k < s.gphysaddr.toNat →
    targetsAt (decided handled s) k = expectedTargets m handled lo hi k
  met : s.r = true → ∃ p, m.Registered p ∧ (m.heap p).Meets lo hi ∧
    s.gphysaddr.toNat = min hi ((m.heap p).gphys.toNat + (m.heap p).len.toNat)
  unmet : s.r = false → s.gphysaddr.toNat = lo ∧ decided handled s = []
  waiting : s.unlockedHandler.isSome = true → ∃ p, m.Registered p ∧
    (m.heap p).unlockedHandler = true ∧ (m.heap p).Meets lo hi ∧
    min hi ((m.heap p).gphys.toNat + (m.heap p).len.toNat) ≤ s.gphysaddr.toNat

/-- At most one handle that the access meets is called without the lock. -/
def OneUnlocked (m : MmioData) (lo hi : Nat) : Prop :=
  ∀ p q, m.Registered p → m.Registered q → (m.heap p).unlockedHandler = true →
    (m.heap q).unlockedHandler = true → (m.heap p).Meets lo hi → (m.heap q).Meets lo hi → p = q

section

variable {m : MmioData} {handled : Nat → BitVec 64 → BitVec 32 → Bool} {lo hi : Nat}
  {s : AccessState} {p : Nat}

/-- The addresses decided so far stay as they are, and a new one goes to the gap or the handle. -/
theorem targetsAt_decided (hs : AccessInv m handled lo hi s) {all : List Access} (new : List Access)
    (hnew : ∀ a ∈ new, s.gphysaddr.toNat ≤ a.gphys)
    (hdec : ∃ pre post, decided handled s = pre ++ post ∧ all = pre ++ new ++ post) (k : Nat) :
    targetsAt all k =
      if k < s.gphysaddr.toNat then targetsAt (decided handled s) k else targetsAt new k := by
  obtain ⟨pre, post, hpre, hpost⟩ := hdec
  split_ifs with hk
  · have hnone : targetsAt new k = [] := by
      refine targetsAt_eq_nil fun a ha hle => ?_
      have := hnew a ha
      omega
    rw [hpre, hpost, targetsAt_append, targetsAt_append, targetsAt_append, hnone, List.append_nil]
  · have hold : ∀ as, (∀ a ∈ as, a ∈ decided handled s) → targetsAt as k = [] := by
      intro as has
      refine targetsAt_eq_nil fun a ha _ => ?_
      have := (hs.within a (has a ha)).2.1
      omega
    rw [hpost, targetsAt_append, targetsAt_append, hold pre fun a ha => ?_, hold post fun a ha => ?_,
      List.nil_append, List.append_nil]
    · rw [hpre]
      exact List.mem_append_right _ ha
    · rw [hpre]
      exact List.mem_append_left _ ha

/-- A handle that is met behind the first address was not met before. -/
theorem AccessInv.first_eq (hm : MmioWf m) (hs : AccessInv m handled lo hi s)
    (hp : m.Registered p) (hmeets : (m.heap p).Meets s.gphysaddr.toNat hi)
    (hlen : 0 < s.len.toNat) :
    max s.gphysaddr.toNat (m.heap p).gphys.toNat = max lo (m.heap p).gphys.toNat := by
  have hleft := hs.left
  have hpos := hs.pos
  cases hr : s.r with
  | false => rw [(hs.unmet hr).1]
  | true =>
    obtain ⟨q, hq, -, hend⟩ := hs.met hr
    have hsound := (hm.sound q hq.1).1
    have hlt := hmeets.2
    have hne : p ≠ q := by
      rintro rfl
      omega
    -- otherwise both handles contain the address before
    have hdisjoint := hm.disjoint p q hp hq hne (s.gphysaddr.toNat - 1)
    unfold MmioHandle.Covers at hdisjoint
    by_contra hcontra
    exact hdisjoint ⟨by omega, by omega⟩ ⟨by omega, by omega⟩

/-- New accesses that decide the addresses up to the end of a handle. -/
theorem AccessInv.extend (hs : AccessInv m handled lo hi s) {s' : AccessState}
    (new : List Access) (hp : m.Registered p) (hmeets : (m.heap p).Meets lo hi)
    (hend : s'.gphysaddr.toNat = min hi ((m.heap p).gphys.toNat + (m.heap p).len.toNat))
    (hleft : s'.gphysaddr.toNat + s'.len.toNat = hi) (hpos : s'.gphysaddr.toNat = lo + s'.q)
    (hle : s.gphysaddr.toNat ≤ s'.gphysaddr.toNat)
    (hdec : ∃ pre post, decided handled s = pre ++ post ∧ decided handled s' = pre ++ new ++ post)
    (hnew : ∀ x ∈ new, s.gphysaddr.toNat ≤ x.gphys ∧ x.gphys + x.len ≤ s'.gphysaddr.toNat ∧
      x.gphys = lo + x.off)
    (htargets : ∀ k, s.gphysaddr.toNat ≤ k → k < s'.gphysaddr.toNat →
      targetsAt new k = expectedTargets m handled lo hi k) (hr : s'.r = true)
    (hwaiting : s'.unlockedHandler.isSome = true →
      (m.heap p).unlockedHandler = true ∨ s.unlockedHandler.isSome = true) :
    AccessInv m handled lo hi s' where
  left := hleft
  pos := hpos
  within := by
    obtain ⟨pre, post, hpre, hpost⟩ := hdec
    intro x hx
    rw [hpost, List.mem_append, List.mem_append, or_right_comm, ← List.mem_append, ← hpre] at hx
    rcases hx with hx | hx
    · obtain ⟨h₁, h₂, h₃⟩ := hs.within x hx
      exact ⟨h₁, Nat.le_trans h₂ hle, h₃⟩
    · obtain ⟨h₁, h₂, h₃⟩ := hnew x hx
      exact ⟨by omega, h₂, h₃⟩
  done := by
    intro k hlo hk
    rw [targetsAt_decided hs new (fun x hx => (hnew x hx).1) hdec]
    split_ifs with hold
    · exact hs.done k hlo hold
    · exact htargets k (Nat.le_of_not_lt hold) hk
  met := fun _ => ⟨p, hp, hmeets, hend⟩
  unmet := fun h => Bool.noConfusion (hr.symm.trans h)
  waiting := by
    intro h
    rcases hwaiting h with hu | hu
    · exact ⟨p, hp, hu, hmeets, Nat.le_of_eq hend.symm⟩
    · obtain ⟨q, hq, hqu, hqm, hqe⟩ := hs.waiting hu
      exact ⟨q, hq, hqu, hqm, Nat.le_trans hqe hle⟩

/-- A second unlocked handler would have been met before. -/
theorem AccessInv.not_panics (hs : AccessInv m handled lo hi s) (hone : OneUnlocked m lo hi)
    (hp : m.Registered p) (hmeets : (m.heap p).Meets s.gphysaddr.toNat hi)
    (hmeets' : (m.heap p).Meets lo hi) (hlen : 0 < s.len.toNat) :
    ¬ ((m.heap p).unlockedHandler && s.unlockedHandler.isSome) = true := by
  intro h
  obtain ⟨hu, hsome⟩ := Bool.and_eq_true_iff.mp h
  obtain ⟨q, hq, hqu, hqm, hqe⟩ := hs.waiting hsome
  obtain rfl := hone p q hp hq hu hqu hmeets' hqm
  obtain ⟨hlow, hhigh⟩ := hmeets
  have hleft := hs.left
  omega

/-- A gap and the part behind it lie one behind the other. -/
theorem within_part {g a b : BitVec 64} {x : Nat} {n n' : BitVec 32}
    (hn : n.toNat = a.toNat - g.toNat) (hn' : n'.toNat = b.toNat + 1 - a.toNat)
    (hga : g.toNat ≤ a.toNat) (hab : a.toNat ≤ b.toNat) (hpos : g.toNat = lo + x) :
    ∀ y ∈ mmioGphysAccess g x n ++ callHandler handled p a (x + n.toNat) n',
      g.toNat ≤ y.gphys ∧ y.gphys + y.len ≤ b.toNat + 1 ∧ y.gphys = lo + y.off := by
  intro y hy
  rcases List.mem_append.mp hy with hy | hy
  · obtain ⟨hgphys, hoff, hlen⟩ := mem_mmioGphysAccess hy
    omega
  · obtain ⟨hgphys, hoff, hlen⟩ := mem_callHandler hy
    omega

/-- A gap and the part behind it go where they should. -/
theorem targetsAt_part (hm : MmioWf m) (hp : m.Registered p) {g a b : BitVec 64} {x : Nat}
    {n n' : BitVec 32} (hn : n.toNat = a.toNat - g.toNat) (hn' : n'.toNat = b.toNat + 1 - a.toNat)
    (hgap : ∀ k, g.toNat ≤ k → k < (m.heap p).gphys.toNat →
      ∀ q, m.Registered q → ¬ (m.heap q).Covers k)
    (ha : a.toNat = max g.toNat (m.heap p).gphys.toNat)
    (hfirst : a.toNat = max lo (m.heap p).gphys.toNat)
    (hb : b.toNat + 1 = min hi ((m.heap p).gphys.toNat + (m.heap p).len.toNat)) {k : Nat}
    (hk : g.toNat ≤ k) (hk' : k < b.toNat + 1) :
    targetsAt (mmioGphysAccess g x n ++ callHandler handled p a (x + n.toNat) n') k =
      expectedTargets m handled lo hi k := by
  rw [targetsAt_append, targetsAt_mmioGphysAccess, targetsAt_callHandler, hn, hn']
  by_cases hin : a.toNat ≤ k
  · have hcovers : (m.heap p).Covers k := ⟨by omega, by omega⟩
    rw [if_neg (by omega), if_pos (by omega), expectedTargets_handler hm hp hcovers a n' hfirst
      (by omega)]
    rfl
  · rw [if_pos (by omega), if_neg (by omega), expectedTargets_memory (hgap k hk (by omega))]
    rfl

/-- Handing a part to a handle: the gap before it goes to memory, the part to its handler. -/
theorem accessHandle_spec (hm : MmioWf m) (hs : AccessInv m handled lo hi s) (hhi : hi < 2 ^ 64)
    (hlen : 0 < s.len.toNat) (hone : OneUnlocked m lo hi) (hp : m.Registered p)
    (hmeets : (m.heap p).Meets s.gphysaddr.toNat hi)
    (hgap : ∀ k, s.gphysaddr.toNat ≤ k → k < (m.heap p).gphys.toNat →
      ∀ q, m.Registered q → ¬ (m.heap q).Covers k) {a b : BitVec 64}
    (ha : a.toNat = max s.gphysaddr.toNat (m.heap p).gphys.toNat)
    (hb : b.toNat + 1 = min hi ((m.heap p).gphys.toNat + (m.heap p).len.toNat)) :
    ∃ s', accessHandle handled (m.heap p) p a ((b - a + 1).setWidth 32) s = some s' ∧
      AccessInv m handled lo hi s' ∧ s'.gphysaddr.toNat = b.toNat + 1 := by
  have hfirst := hs.first_eq hm hp hmeets hlen
  have hsound := (hm.sound p hp.1).1
  obtain ⟨hm₁, hm₂⟩ := hmeets
  have hleft := hs.left
  have hpos := hs.pos
  have hmeets' : (m.heap p).Meets lo hi := ⟨hm₁, by omega⟩
  obtain ⟨htmp, hback, hlen2, hnext, hrest⟩ := piece_toNat (g := s.gphysaddr) (a := a) (b := b)
    s.len (by omega) (by omega) (by omega) (by omega)
  have hnopanic := hs.not_panics hone hp ⟨hm₁, hm₂⟩ hmeets' hlen
  unfold accessHandle
  dsimp only
  rw [if_neg hnopanic, hback]
  refine ⟨_, rfl, ?_, hnext⟩
  generalize hgapAccess : mmioGphysAccess s.gphysaddr s.q ((a - s.gphysaddr).setWidth 32) = gap
  generalize hcall : callHandler handled p a (s.q + ((a - s.gphysaddr).setWidth 32).toNat)
    ((b - a + 1).setWidth 32) = call
  have hnew : ∀ x ∈ gap ++ call, s.gphysaddr.toNat ≤ x.gphys ∧ x.gphys + x.len ≤ b.toNat + 1 ∧
      x.gphys = lo + x.off := by
    rw [← hgapAccess, ← hcall]
    exact within_part htmp hlen2 (ha ▸ Nat.le_max_left _ _) (by omega) hpos
  have htargets : ∀ k, s.gphysaddr.toNat ≤ k → k < b.toNat + 1 →
      targetsAt (gap ++ call) k = expectedTargets m handled lo hi k := by
    intro k hk hk'
    rw [← hgapAccess, ← hcall]
    exact targetsAt_part hm hp htmp hlen2 hgap ha (ha.trans hfirst) hb hk hk'
  refine hs.extend (gap ++ call) hp hmeets' (hnext.trans hb) ?_ ?_ ?_ ?_ ?_ ?_ rfl ?_
  · rw [hnext, hrest]
    omega
  · dsimp only
    rw [hnext, htmp, hlen2]
    omega
  · rw [hnext]
    omega
  · -- the new accesses come before the call that waits, or are that call
    cases hu : (m.heap p).unlockedHandler with
    | false => exact ⟨s.accesses, pending handled s, rfl, by simp [decided, pending]⟩
    | true =>
      have hnone : s.unlockedHandler = none := by
        simpa [hu] using hnopanic
      refine ⟨s.accesses, [], by simp [decided, pending, hnone], ?_⟩
      rw [← hcall]
      simp only [decided, pending, if_true, List.append_assoc, List.append_nil]
  · rw [hnext]
    exact hnew
  · rw [hnext]
    exact htargets
  · intro hsome
    cases hu : (m.heap p).unlockedHandler with
    | false => exact Or.inr (by simpa [hu] using hsome)
    | true => exact Or.inl rfl

/-! ### The loops -/

theorem bucketOf_lt_imp {a b : BitVec 64} (h : bucketOf a < bucketOf b) : a.toNat < b.toNat := by
  by_contra hle
  exact absurd (bucketOf_mono (Nat.le_of_not_lt hle)) (Nat.not_le.mpr h)

/-- No handle is left for the rest of the access. -/
def Settled (m : MmioData) (hi : Nat) (s : AccessState) : Prop :=
  ∀ k, s.gphysaddr.toNat ≤ k → k < hi → ∀ q, m.Registered q → ¬ (m.heap q).Covers k

/-- The loop over a bucket's list. The handles that the rest of the access meets are in the rest of
the list or begin in a later bucket. -/
theorem accessBucket_spec (hm : MmioWf m) (hhi : hi < 2 ^ 64) (hone : OneUnlocked m lo hi)
    {i : Nat} {ps : List Nat}
    (hsorted : ps.Pairwise fun p q => (m.heap p).gphys ≤ (m.heap q).gphys)
    (hbucket : ∀ p ∈ ps, p ∈ m.handle ∧ bucketOf (m.heap p).gphys ≤ i)
    (hs : AccessInv m handled lo hi s) (hlen : 0 < s.len.toNat)
    (htodo : ∀ p, m.Registered p → (m.heap p).Meets s.gphysaddr.toNat hi →
      p ∈ ps ∨ i < bucketOf (m.heap p).gphys) :
    ∃ out s', accessBucket m.heap handled ps s = some (out, s') ∧ AccessInv m handled lo hi s' ∧
      (out = true → Settled m hi s') ∧
      (out = false → 0 < s'.len.toNat ∧ ∀ p, m.Registered p →
        (m.heap p).Meets s'.gphysaddr.toNat hi → i < bucketOf (m.heap p).gphys) := by
  induction ps generalizing s with
  | nil =>
    refine ⟨false, s, rfl, hs, fun h => Bool.noConfusion h, fun _ => ⟨hlen, fun p hp hm => ?_⟩⟩
    exact (htodo p hp hm).resolve_left List.not_mem_nil
  | cons p ps ih =>
    obtain ⟨hfirst, hrest⟩ := List.pairwise_cons.mp hsorted
    obtain ⟨hmem, hpi⟩ := hbucket p List.mem_cons_self
    have hbucket' : ∀ q ∈ ps, q ∈ m.handle ∧ bucketOf (m.heap q).gphys ≤ i := fun q hq =>
      hbucket q (List.mem_cons_of_mem _ hq)
    have hleft := hs.left
    have hend : (s.gphysaddr + s.len.setWidth 64).toNat = hi := by
      have hlt := s.len.isLt
      rw [BitVec.toNat_add, BitVec.toNat_setWidth, Nat.mod_eq_of_lt (a := s.len.toNat) (by omega),
        Nat.mod_eq_of_lt (by omega)]
      exact hleft
    -- handles that are still to come do not begin before this one
    have hbehind : ∀ q, m.Registered q → (m.heap q).Meets s.gphysaddr.toNat hi →
        (m.heap p).gphys.toNat ≤ (m.heap q).gphys.toNat := by
      intro q hq hqm
      rcases htodo q hq hqm with hin | hlater
      · rcases List.mem_cons.mp hin with rfl | hin
        · exact Nat.le_refl _
        · exact BitVec.le_def.mp (hfirst q hin)
      · exact Nat.le_of_lt (bucketOf_lt_imp (Nat.lt_of_le_of_lt hpi hlater))
    have hgap : ∀ k, s.gphysaddr.toNat ≤ k → k < hi → k < (m.heap p).gphys.toNat →
        ∀ q, m.Registered q → ¬ (m.heap q).Covers k := by
      intro k hk hkhi hkp q hq hqk
      have := hbehind q hq ⟨Nat.lt_of_le_of_lt hqk.1 hkhi, Nat.lt_of_le_of_lt hk hqk.2⟩
      exact absurd hqk.1 (by omega)
    rw [accessBucket]
    by_cases hout : s.gphysaddr + s.len.setWidth 64 ≤ (m.heap p).gphys
    · rw [if_pos hout]
      rw [BitVec.le_def, hend] at hout
      refine ⟨true, s, rfl, hs, fun _ k hk hkhi => ?_, fun h => Bool.noConfusion h⟩
      exact hgap k hk hkhi (Nat.lt_of_lt_of_le hkhi hout)
    rw [if_neg hout]
    have hcheck := rangecheck_isSome_iff s.gphysaddr (hm.sound p hmem) hlen (by omega)
    rw [hleft] at hcheck
    cases hr : rangecheck (m.heap p) s.gphysaddr s.len with
    | none =>
      -- the handle is not in force, or the access does not meet it
      refine ih hrest hbucket' hs hlen fun q hq hqm => ?_
      rcases htodo q hq hqm with hin | hlater
      · rcases List.mem_cons.mp hin with rfl | hin
        · rw [hr] at hcheck
          exact absurd (hcheck.mpr ⟨hq.2, hqm⟩) Bool.false_ne_true
        · exact Or.inl hin
      · exact Or.inr hlater
    | some c =>
      obtain ⟨a, b, f⟩ := c
      rw [hr] at hcheck
      obtain ⟨hreg, hmeets⟩ := hcheck.mp rfl
      obtain ⟨rfl, ha, hb⟩ := rangecheck_eq_some (hm.sound p hmem) hlen (by omega) hr
      rw [hleft] at hb
      obtain ⟨s', hstep, hs', hnext⟩ := accessHandle_spec hm hs hhi hlen hone ⟨hmem, hreg⟩ hmeets
        (fun k hk hkp => hgap k hk (Nat.lt_trans hkp hmeets.1) hkp) ha hb
      have hleft' := hs'.left
      dsimp only
      rw [if_neg (by decide), hstep]
      dsimp only
      by_cases hzero : s'.len = 0
      · rw [if_pos hzero]
        refine ⟨true, s', rfl, hs', fun _ k hk hkhi => ?_, fun h => Bool.noConfusion h⟩
        rw [hzero] at hleft'
        have hnone : (0 : BitVec 32).toNat = 0 := rfl
        omega
      · rw [if_neg hzero]
        have hpos : 0 < s'.len.toNat := by
          rcases Nat.eq_zero_or_pos s'.len.toNat with h | h
          · exact absurd (BitVec.eq_of_toNat_eq h) hzero
          · exact h
        refine ih hrest hbucket' hs' hpos fun q hq hqm => ?_
        have hqm' : (m.heap q).Meets s.gphysaddr.toNat hi :=
          ⟨hqm.1, by have := hqm.2; have := hmeets.2; omega⟩
        rcases htodo q hq hqm' with hin | hlater
        · rcases List.mem_cons.mp hin with rfl | hin
          · have := hqm.2
            omega
          · exact Or.inl hin
        · exact Or.inr hlater

/-- The loop over the buckets from `i` to the one of the last address. -/
theorem accessBuckets_spec (hm : MmioWf m) (hhi : hi < 2 ^ 64) (hone : OneUnlocked m lo hi)
    (last : BitVec 64) (hlast : last.toNat + 1 = hi) (n : Nat) {i : Nat}
    (hi' : i + n = bucketOf last) (hs : AccessInv m handled lo hi s) (hlen : 0 < s.len.toNat)
    (htodo : ∀ p, m.Registered p → (m.heap p).Meets s.gphysaddr.toNat hi →
      p ∈ m.mmio i ∨ i < bucketOf (m.heap p).gphys) :
    ∃ s', accessBuckets m handled (List.range' i (n + 1)) s = some s' ∧
      AccessInv m handled lo hi s' ∧ Settled m hi s' := by
  have hone_bucket : ∀ {i : Nat} {s : AccessState}, AccessInv m handled lo hi s →
      0 < s.len.toNat → (∀ p, m.Registered p → (m.heap p).Meets s.gphysaddr.toNat hi →
        p ∈ m.mmio i ∨ i < bucketOf (m.heap p).gphys) → _ :=
    fun {i s} hs hlen htodo => accessBucket_spec hm hhi hone (hm.sorted i) (fun p hp => by
      obtain ⟨hmem, hscan⟩ := (hm.bucket i p).mp hp
      exact ⟨hmem, ((mem_scanBuckets (hm.sound p hmem).1 (hm.sound p hmem).2).mp hscan).1⟩)
      hs hlen htodo
  induction n generalizing i s with
  | zero =>
    obtain ⟨out, s', hrun, hs', hout, hrest⟩ := hone_bucket hs hlen htodo
    have hlist : List.range' i (0 + 1) = [i] := rfl
    rw [hlist, accessBuckets, hrun]
    cases out with
    | true => exact ⟨s', rfl, hs', hout rfl⟩
    | false =>
      refine ⟨s', rfl, hs', fun k hk hkhi q hq hqk => ?_⟩
      have hlater := (hrest rfl).2 q hq
        ⟨Nat.lt_of_le_of_lt hqk.1 hkhi, Nat.lt_of_le_of_lt hk hqk.2⟩
      have hle : bucketOf (m.heap q).gphys ≤ bucketOf last := bucketOf_mono (by
        have := hqk.1
        omega)
      omega
  | succ n ih =>
    obtain ⟨out, s', hrun, hs', hout, hrest⟩ := hone_bucket hs hlen htodo
    rw [List.range'_succ, accessBuckets, hrun]
    cases out with
    | true => exact ⟨s', rfl, hs', hout rfl⟩
    | false =>
      obtain ⟨hlen', hlater⟩ := hrest rfl
      refine ih (by omega) hs' hlen' fun p hp hpm => ?_
      rcases Nat.eq_or_lt_of_le (hlater p hp hpm) with heq | hlt
      · have hsound := hm.sound p hp.1
        refine Or.inl ((hm.bucket (i + 1) p).mpr ⟨hp.1, (mem_scanBuckets hsound.1 hsound.2).mpr
          ⟨Nat.le_of_eq heq.symm, ?_⟩⟩)
        have hmono : bucketOf (m.heap p).gphys ≤
            bucketOf ((m.heap p).gphys + (m.heap p).len.setWidth 64 - 1) := bucketOf_mono (by
          rw [toNat_last hsound.1 hsound.2]
          have := hsound.1
          omega)
        omega
      · exact Or.inr hlt

end

/-- What the access does: it returns 1 exactly if it meets a handle, touches nothing if it meets
none, and else hands every byte to its handle or to memory, at its place in the buffer. -/
def Routed (m : MmioData) (handled : Nat → BitVec 64 → BitVec 32 → Bool) (gphys : BitVec 64)
    (len : BitVec 32) : Prop :=
  ∃ r accesses, mmioAccessMemory m handled gphys len = some (r, accesses) ∧
    (r = true ↔ ∃ p k, m.Registered p ∧ (m.heap p).Covers k ∧ gphys.toNat ≤ k ∧
      k < gphys.toNat + len.toNat) ∧
    (r = false → accesses = []) ∧
    (r = true → ∀ k, gphys.toNat ≤ k → k < gphys.toNat + len.toNat →
      targetsAt accesses k =
        expectedTargets m handled gphys.toNat (gphys.toNat + len.toNat) k) ∧
    ∀ a ∈ accesses, gphys.toNat ≤ a.gphys ∧ a.gphys + a.len ≤ gphys.toNat + len.toNat ∧
      a.gphys = gphys.toNat + a.off

/-- An access is routed as it should be in every state that registering and unregistering reach,
unless it meets two handles that are called without the lock. -/
theorem routed_of_reachable {m : MmioData}
    (hm : mmioMachine.ReachableWhen (fun _ e => Registers e) m)
    (handled : Nat → BitVec 64 → BitVec 32 → Bool) (gphys : BitVec 64) (len : BitVec 32)
    (hend : gphys.toNat + len.toNat < 2 ^ 64)
    (hone : OneUnlocked m gphys.toNat (gphys.toNat + len.toNat)) :
    Routed m handled gphys len := by
  have hwf := mmioWf_of_reachable hm
  unfold Routed mmioAccessMemory
  dsimp only
  by_cases hzero : len = 0
  · rw [if_pos hzero]
    refine ⟨false, [], rfl, iff_of_false Bool.false_ne_true ?_, fun _ => rfl,
      fun h => Bool.noConfusion h, fun a ha => absurd ha List.not_mem_nil⟩
    rintro ⟨p, k, -, -, hlo, hhi⟩
    rw [hzero] at hhi
    exact absurd hhi (Nat.not_lt.mpr hlo)
  rw [if_neg hzero]
  have hlen : 0 < len.toNat := by
    rcases Nat.eq_zero_or_pos len.toNat with h | h
    · exact absurd (BitVec.eq_of_toNat_eq h) hzero
    · exact h
  have hlast := toNat_last hlen (Nat.le_of_lt hend)
  have hbuckets : bucketOf gphys ≤ bucketOf (gphys + len.setWidth 64 - 1) := bucketOf_mono (by omega)
  obtain ⟨n, hn⟩ := Nat.exists_eq_add_of_le hbuckets
  have hrange : bucketOf (gphys + len.setWidth 64 - 1) + 1 - bucketOf gphys = n + 1 := by omega
  rw [hrange]
  have hinit : AccessInv m handled gphys.toNat (gphys.toNat + len.toNat)
      { gphysaddr := gphys, q := 0, len := len, r := false, unlockedHandler := none
        accesses := [] } :=
    ⟨rfl, rfl, fun a ha => absurd ha List.not_mem_nil, fun k hlo hk => absurd hk (Nat.not_lt.mpr hlo),
      fun h => Bool.noConfusion h, fun _ => ⟨rfl, rfl⟩, fun h => Bool.noConfusion h⟩
  obtain ⟨s, hrun, hs, hsettled⟩ := accessBuckets_spec hwf hend hone
    (gphys + len.setWidth 64 - 1) (by omega) n hn.symm hinit hlen fun p hp hpm => by
      rcases Nat.lt_or_ge (bucketOf gphys) (bucketOf (m.heap p).gphys) with hlt | hge
      · exact Or.inr hlt
      · exact Or.inl ((hwf.bucket _ p).mpr ⟨hp.1,
          mem_scanBuckets_of_meets (hwf.sound p hp.1) hpm hge rfl⟩)
  have hleft := hs.left
  have hpos := hs.pos
  rw [hrun]
  refine ⟨s.r, s.accesses ++ (if s.r then mmioGphysAccess s.gphysaddr s.q s.len else []) ++
    pending handled s, rfl, ⟨fun hr => ?_, ?_⟩, fun hr => ?_, fun hr k hlo hk => ?_, fun a ha => ?_⟩
  · obtain ⟨p, hp, hpm, -⟩ := hs.met hr
    have hsound := (hwf.sound p hp.1).1
    have hlow := hpm.1
    have hhigh := hpm.2
    exact ⟨p, max gphys.toNat (m.heap p).gphys.toNat, hp, ⟨by omega, by omega⟩, by omega, by omega⟩
  · rintro ⟨p, k, hp, hpk, hlo, hhi⟩
    by_contra hr
    have hstart := (hs.unmet (Bool.eq_false_iff.mpr hr)).1
    exact hsettled k (by omega) hhi p hp hpk
  · rw [if_neg (by rw [hr]; exact Bool.false_ne_true), List.append_nil]
    exact (hs.unmet hr).2
  · rw [if_pos hr, targetsAt_decided hs (mmioGphysAccess s.gphysaddr s.q s.len)
      (fun a ha => Nat.le_of_eq (mem_mmioGphysAccess ha).1.symm)
      ⟨s.accesses, pending handled s, rfl, rfl⟩]
    split_ifs with hold
    · exact hs.done k hlo hold
    · rw [targetsAt_mmioGphysAccess, if_pos (by omega),
        expectedTargets_memory (hsettled k (by omega) hk)]
  · rw [List.mem_append, List.mem_append, or_right_comm, ← List.mem_append] at ha
    rcases ha with ha | ha
    · obtain ⟨h₁, h₂, h₃⟩ := hs.within a ha
      omega
    · split_ifs at ha
      · obtain ⟨h₁, h₂, h₃⟩ := mem_mmioGphysAccess ha
        omega
      · cases ha

theorem registers_register {gphys : BitVec 64} {len : BitVec 32} {unlocked : Bool} (flushFails : Bool)
    (hlen : 0 < len.toNat) (hend : gphys.toNat + len.toNat ≤ 2 ^ 64) :
    Registers (.register gphys len unlocked flushFails) := by
  rintro _ _ _ _ ⟨⟩
  exact ⟨hlen, hend⟩

/-- One handle, at `0x1000`. -/
def oneHandle (unlocked : Bool) : MmioData := mmioRegister 0x1000 0x10 unlocked false mmioInit

theorem reachable_oneHandle (unlocked : Bool) :
    mmioMachine.ReachableWhen (fun _ e => Registers e) (oneHandle unlocked) :=
  .step (.init rfl) (registers_register false (by decide) (by decide)) rfl

/-- An access that begins before the handle and ends behind it. -/
theorem routed_oneHandle : Routed (oneHandle false) (fun _ _ _ => true) 0xFF8 0x20 := by
  refine routed_of_reachable (reachable_oneHandle false) _ 0xFF8 0x20 (by decide) ?_
  intro p q hp _ hu
  have hmem : p = 0 := by
    simpa [oneHandle, mmioRegister, mmioInit] using hp.1
  rw [hmem] at hu
  exact absurd hu (by decide)

/-- Two handles side by side, both called without the lock. -/
def twoUnlocked : MmioData := mmioRegister 0x1010 0x10 true false (oneHandle true)

/-- A handle at the very end of the address space. -/
def topHandle : MmioData := mmioRegister 0xFFFFFFFFFFFFFFF0 0x10 false false mmioInit

/-- An access to two handles without the lock panics, a handler that does not handle its part has
memory accessed as well, and an access up to the end of the address space is not routed at all. -/
theorem not_routed :
    (mmioMachine.ReachableWhen (fun _ e => Registers e) twoUnlocked ∧
      mmioAccessMemory twoUnlocked (fun _ _ _ => true) 0x1008 0x10 = none) ∧
    (mmioMachine.ReachableWhen (fun _ e => Registers e) (oneHandle false) ∧
      (mmioAccessMemory (oneHandle false) (fun _ _ _ => false) 0x1000 0x4).map
        (fun r => targetsAt r.2 0x1000) = some [.handler 0, .memory]) ∧
    (mmioMachine.ReachableWhen (fun _ e => Registers e) topHandle ∧
      mmioAccessMemory topHandle (fun _ _ _ => true) 0xFFFFFFFFFFFFFFF0 0x10 =
        some (false, [])) := by
  refine ⟨⟨?_, by decide⟩, ⟨reachable_oneHandle false, by decide⟩, ?_, by decide⟩
  · exact .step (reachable_oneHandle true)
      (registers_register false (by decide) (by decide)) rfl
  · exact .step (.init rfl) (registers_register false (by decide) (by decide)) rfl

end OnDemandVirt.Vmm
