import Mathlib.Data.List.Indexes
import Mathlib.Data.List.TakeWhile
import OnDemandVirt.Uhci.Buffers
import OnDemandVirt.Uhci.Duplicate

/-!
# When the shadow TDs keep to the shadow buffers

The list that `make_buffer_list` leaves is that of the runs of the guest's TDs
(`map_span_makeBufferList`). The search of `uhci_shadow_buffer` takes the first of them that holds
the first byte of a TD. So a shadow TD lies inside one shadow buffer, at the place of the same
bytes, exactly when that first run holds the last byte of the TD too (`contains_iff`): a TD with the
buffer pointer 0, one past the first such run, or one that begins in a buffer of another is left
with addresses that are the guest's or no one's.
-/

namespace OnDemandVirt.Uhci

variable {mem : TdMemory} {b b' : BitVec 32} {padr : Nat → Nat} {gubs : List UsbBuffer}

def UsbBuffer.span (ub : UsbBuffer) : Span := ⟨ub.padr, ub.len⟩

/-! ### The buffer list is the list of runs -/

theorem runs_cons (td : Td) (tds : List Td) (next : Nat)
    (hnext : BitVec.ofNat 32 next = td.buffer + BitVec.ofNat 32 (uhciTdMaxlen td)) :
    runs (td :: tds) = (td, uhciTdMaxlen td + (continueBuffer (getPidFromTd td) next tds).1) ::
      runs (continueBuffer (getPidFromTd td) next tds).2 := by
  induction tds generalizing td next with
  | nil => rfl
  | cons u us ih =>
    rw [runs, continueBuffer]
    by_cases hj : td.Joins u
    · have hgo : isActiveTd u = true ∧ getPidFromTd td = getPidFromTd u ∧
          u.buffer = BitVec.ofNat 32 next := ⟨hj.1, hj.2.1, hj.2.2.trans hnext.symm⟩
      rw [if_pos hgo, ih u (next + uhciTdMaxlen u)
        (by rw [BitVec.ofNat_add, ← hgo.2.2]), hj.2.1]
      simp only [if_pos hj]
    · have hgo : ¬(isActiveTd u = true ∧ getPidFromTd td = getPidFromTd u ∧
          u.buffer = BitVec.ofNat 32 next) :=
        fun h => hj ⟨h.1, h.2.1, h.2.2.trans hnext⟩
      rw [if_neg hgo, ih u (u.buffer.toNat + uhciTdMaxlen u)
        (by rw [BitVec.ofNat_add, BitVec.ofNat_toNat, BitVec.setWidth_eq])]
      simp only [if_neg hj, Nat.add_zero]

theorem map_span_makeBufferList (offset : Nat) (tds : List Td) :
    (makeBufferList offset tds).map UsbBuffer.span = spans tds := by
  induction offset, tds using makeBufferList.induct with
  | case1 offset => simp [makeBufferList, spans, runs]
  | case2 offset td tds hgo pid r ub ih =>
    simp only [dite_eq_ite] at ih
    rw [makeBufferList, if_pos hgo, List.map_cons, spans,
      runs_cons td tds (td.buffer.toNat + uhciTdMaxlen td)
        (by rw [BitVec.ofNat_add, BitVec.ofNat_toNat, BitVec.setWidth_eq]),
      List.takeWhile_cons_of_pos (by simpa using hgo)]
    exact congrArg (List.cons _) ih
  | case3 offset td tds hstop =>
    rw [makeBufferList, if_neg hstop, spans,
      runs_cons td tds (td.buffer.toNat + uhciTdMaxlen td)
        (by rw [BitVec.ofNat_add, BitVec.ofNat_toNat, BitVec.setWidth_eq]),
      List.takeWhile_cons_of_neg (by simpa using hstop)]
    rfl

theorem base_ne_zero {tds : List Td} {m : Nat} {s : Span} (h : (spans tds)[m]? = some s) :
    s.base ≠ 0 := by
  obtain ⟨run, hrun, rfl⟩ := List.mem_map.mp (List.mem_of_getElem? h)
  have hgo := List.mem_takeWhile_imp hrun
  simp only [decide_eq_true_eq] at hgo
  exact fun h0 => hgo.2 (BitVec.eq_of_toNat_eq h0)

/-! ### The search -/

theorem reaches_zero {s : Span} {ss : List Span} : Reaches (s :: ss) b 0 s :=
  ⟨rfl, fun _ h => absurd h (Nat.not_lt_zero _)⟩

theorem reaches_succ {s t : Span} {ss : List Span} {m : Nat} :
    Reaches (s :: ss) b (m + 1) t ↔ ¬s.Holds b ∧ Reaches ss b m t := by
  constructor
  · intro h
    refine ⟨h.before 0 (by omega) s rfl, ⟨by simpa using h.here, fun j hj t ht => ?_⟩⟩
    exact h.before (j + 1) (by omega) t (by simpa using ht)
  · rintro ⟨hs, h⟩
    refine ⟨by simpa using h.here, fun j hj t ht => ?_⟩
    cases j with
    | zero => exact (Option.some.inj ht) ▸ hs
    | succ j => exact h.before j (by omega) t (by simpa using ht)

/-- The first range that holds an address, if one does. -/
theorem exists_reaches {ss : List Span} {m : Nat} {s : Span} (h : ss[m]? = some s)
    (hs : s.Holds b) : ∃ k t, Reaches ss b k t ∧ t.Holds b := by
  induction ss generalizing m with
  | nil => simp at h
  | cons r ss ih =>
    by_cases hr : r.Holds b
    · exact ⟨0, r, reaches_zero, hr⟩
    · cases m with
      | zero => exact absurd hs ((Option.some.inj h) ▸ hr)
      | succ m =>
        obtain ⟨k, t, hk, ht⟩ := ih (by simpa using h)
        exact ⟨k + 1, t, reaches_succ.2 ⟨hr, hk⟩, ht⟩

theorem zip_shadowBuffers_cons (gub : UsbBuffer) (gubs : List UsbBuffer) (padr : Nat → Nat) :
    (gub :: gubs).zip (shadowBuffers (gub :: gubs) padr) = (gub, { gub with padr := padr 0 }) ::
      gubs.zip (shadowBuffers gubs fun i => padr (i + 1)) := by
  rw [shadowBuffers, List.mapIdx_cons]
  rfl

/-- No assertion fails exactly if the shadows of all buffers that the search passes are above. -/
theorem fitBuffer_ne_none_iff :
    fitBuffer b (gubs.zip (shadowBuffers gubs padr)) ≠ none ↔
      ∀ m s, Reaches (gubs.map UsbBuffer.span) b m s → s.base ≤ padr m := by
  induction gubs generalizing padr with
  | nil => exact ⟨fun _ m s h => by simpa using h.here, fun _ => nofun⟩
  | cons gub gubs ih =>
    rw [zip_shadowBuffers_cons, fitBuffer, List.map_cons]
    by_cases habove : padr 0 < gub.padr
    · rw [if_pos habove]
      exact ⟨fun h => absurd rfl h, fun h => absurd (h 0 _ reaches_zero) (Nat.not_le.mpr habove)⟩
    rw [if_neg habove]
    by_cases hholds : gub.padr ≤ b.toNat ∧ b.toNat < gub.padr + gub.len
    · rw [if_pos hholds]
      refine ⟨fun _ m s h => ?_, fun _ => nofun⟩
      cases m with
      | zero => exact (Option.some.inj h.here) ▸ Nat.not_lt.mp habove
      | succ m => exact absurd hholds (reaches_succ.1 h).1
    · rw [if_neg hholds, ih]
      refine ⟨fun h m s hm => ?_, fun h m s hm => h (m + 1) s (reaches_succ.2 ⟨hholds, hm⟩)⟩
      cases m with
      | zero => exact (Option.some.inj hm.here) ▸ Nat.not_lt.mp habove
      | succ m => exact h m s (reaches_succ.1 hm).2

theorem fitBuffer_of_holds {m : Nat} {s : Span}
    (hm : Reaches (gubs.map UsbBuffer.span) b m s) (hs : s.Holds b)
    (h : fitBuffer b (gubs.zip (shadowBuffers gubs padr)) = some b') :
    b' = b + BitVec.ofNat 32 (padr m - s.base) := by
  induction gubs generalizing padr m with
  | nil => simpa using hm.here
  | cons gub gubs ih =>
    rw [zip_shadowBuffers_cons, fitBuffer] at h
    split at h
    · cases h
    cases m with
    | zero =>
      obtain rfl : gub.span = s := Option.some.inj hm.here
      rw [if_pos (show gub.padr ≤ b.toNat ∧ b.toNat < gub.padr + gub.len from hs)] at h
      exact (Option.some.inj h).symm
    | succ m =>
      obtain ⟨hnot, hm⟩ := reaches_succ.1 hm
      rw [if_neg (show ¬(gub.padr ≤ b.toNat ∧ b.toNat < gub.padr + gub.len) from hnot)] at h
      exact @ih (fun i => padr (i + 1)) m hm h

theorem fitBuffer_of_none (hnone : ∀ (m : Nat) s, (gubs.map UsbBuffer.span)[m]? = some s → ¬s.Holds b)
    (h : fitBuffer b (gubs.zip (shadowBuffers gubs padr)) = some b') : b' = b := by
  induction gubs generalizing padr with
  | nil => exact (Option.some.inj h).symm
  | cons gub gubs ih =>
    rw [zip_shadowBuffers_cons, fitBuffer] at h
    split at h
    · cases h
    rw [if_neg (show ¬(gub.padr ≤ b.toNat ∧ b.toNat < gub.padr + gub.len) from
      hnone 0 gub.span rfl)] at h
    exact ih (fun m s hm => hnone (m + 1) s (by simpa using hm)) h

/-- The pointer of a TD in its shadow buffer. -/
theorem toNat_fitted {s : Span} {p : Nat} (hs : s.Holds b) (habove : s.base ≤ p)
    (hbelow : p + s.len ≤ 2 ^ 32) :
    (b + BitVec.ofNat 32 (p - s.base)).toNat = b.toNat - s.base + p := by
  obtain ⟨hlow, hhigh⟩ := hs
  rw [BitVec.toNat_add, BitVec.toNat_ofNat, Nat.mod_eq_of_lt (show p - s.base < 2 ^ 32 by omega),
    Nat.mod_eq_of_lt (by omega)]
  omega

theorem fitTds_eq_some {bs : List (UsbBuffer × UsbBuffer)} {tds tds' : List HostTd}
    (h : fitTds bs tds = some tds') :
    tds'.length = tds.length ∧ ∀ (i : Nat) td td', tds[i]? = some td → tds'[i]? = some td' →
      fitTd bs td = some td' := by
  induction tds generalizing tds' with
  | nil =>
    cases h
    exact ⟨rfl, fun i td td' h => by simp at h⟩
  | cons td tds ih =>
    rw [fitTds] at h
    obtain ⟨td', hfit, h⟩ := Option.bind_eq_some_iff.mp h
    obtain ⟨rest, hrest, rfl⟩ := Option.map_eq_some_iff.mp h
    obtain ⟨hlen, hall⟩ := ih hrest
    refine ⟨by rw [List.length_cons, hlen, List.length_cons], fun i u u' hu hu' => ?_⟩
    cases i with
    | zero => rw [← Option.some.inj hu, ← Option.some.inj hu', hfit]
    | succ i => exact hall i u u' (by simpa using hu) (by simpa using hu')

theorem exists_fitTds {bs : List (UsbBuffer × UsbBuffer)} {tds : List HostTd}
    (h : ∀ td ∈ tds, fitTd bs td ≠ none) : ∃ tds', fitTds bs tds = some tds' := by
  induction tds with
  | nil => exact ⟨[], rfl⟩
  | cons td tds ih =>
    obtain ⟨td', htd⟩ := Option.ne_none_iff_exists'.mp (h td List.mem_cons_self)
    obtain ⟨tds', htds⟩ := ih fun u hu => h u (List.mem_cons_of_mem _ hu)
    exact ⟨td' :: tds', by rw [fitTds, htd, htds]; rfl⟩


/-! ### The queue -/

/-- Whatever the chain is like, a host TD says what the guest's TD behind it says. -/
theorem duplicateTds_says {fuel : Nat} {w : BitVec 32} {g : List (BitVec 32)} {l : HostLink}
    {tds : List HostTd} (h : duplicateTds mem fuel w g = .done (l, tds)) :
    ∀ td ∈ tds, td.status = (mem td.gTdPhys).status ∧ td.token = (mem td.gTdPhys).token ∧
      td.buffer = (mem td.gTdPhys).buffer := by
  induction fuel generalizing w g l tds with
  | zero => cases h
  | succ fuel ih =>
    rcases duplicateTds_cases mem fuel w g with
      ⟨-, heq⟩ | ⟨-, ⟨-, heq⟩ | ⟨n, -, heq⟩ | ⟨-, heq⟩ | ⟨-, -, heq⟩⟩ <;> rw [heq] at h
    · cases h
      exact nofun
    · cases h
    · cases h
      exact fun td htd => List.mem_singleton.mp htd ▸ ⟨rfl, rfl, rfl⟩
    · cases h
      exact fun td htd => List.mem_singleton.mp htd ▸ ⟨rfl, rfl, rfl⟩
    · cases hrest : duplicateTds mem fuel (mem.next w) (g ++ [uhciLink w]) with
      | running => simp [hrest, Outcome.map] at h
      | failed => simp [hrest, Outcome.map] at h
      | done r =>
        simp only [hrest, Outcome.map, Outcome.done.injEq, Prod.mk.injEq] at h
        obtain ⟨-, rfl⟩ := h
        intro td htd
        rcases List.mem_cons.mp htd with rfl | htd
        · exact ⟨rfl, rfl, rfl⟩
        · exact ih hrest td htd

/-- A host TD and the guest's TD that it was made for. -/
structure HostTd.Says (td : HostTd) (guest : Td) : Prop where
  status : td.status = guest.status
  token : td.token = guest.token
  buffer : td.buffer = guest.buffer

theorem says_of_duplicateQcontext {fuel : Nat} {element : BitVec 32} {q : HostQueue}
    (h : duplicateQcontext mem fuel element = .done q) {i : Nat} {td : HostTd}
    (htd : q.tds[i]? = some td) :
    ∃ guest, (q.guestTds mem)[i]? = some guest ∧ td.Says guest := by
  rw [duplicateQcontext] at h
  split at h
  · cases h
  cases hres : duplicateTds mem fuel element [] with
  | running => simp [hres, Outcome.map] at h
  | failed => simp [hres, Outcome.map] at h
  | done r =>
    simp only [hres, Outcome.map, Outcome.done.injEq] at h
    subst h
    obtain ⟨hstatus, htoken, hbuffer⟩ := duplicateTds_says hres td (List.mem_of_getElem? htd)
    exact ⟨mem td.gTdPhys, by rw [HostQueue.guestTds, List.getElem?_map, htd]; rfl,
      hstatus, htoken, hbuffer⟩

/-- The host's TD for one of the guest's. -/
theorem exists_td_of_guest {fuel : Nat} {element : BitVec 32} {q : HostQueue}
    (h : duplicateQcontext mem fuel element = .done q) {i : Nat} {guest : Td}
    (hi : (q.guestTds mem)[i]? = some guest) : ∃ td, q.tds[i]? = some td ∧ td.Says guest := by
  have hmap := hi
  rw [HostQueue.guestTds, List.getElem?_map] at hmap
  obtain ⟨td, htd, -⟩ := Option.map_eq_some_iff.mp hmap
  obtain ⟨guest', hg', htold⟩ := says_of_duplicateQcontext h htd
  rw [hi] at hg'
  cases hg'
  exact ⟨td, htd, htold⟩

theorem fitTd_of_active {bs : List (UsbBuffer × UsbBuffer)} {td : HostTd} {guest : Td}
    (htold : td.Says guest) (hactive : isActiveTd guest = true) (hzero : guest.buffer ≠ 0) :
    fitTd bs td = (fitBuffer guest.buffer bs).map fun b => { td with buffer := b } := by
  have hgo : ¬(td.buffer = 0 ∨ isActive td.status = false) := by
    rw [htold.buffer, htold.status, not_or, Bool.not_eq_false]
    exact ⟨hzero, hactive⟩
  rw [fitTd, if_neg hgo, htold.buffer]

/-- The second pass changes the pointer only. -/
theorem says_of_fitTd {bs : List (UsbBuffer × UsbBuffer)} {td td' : HostTd} {guest : Td}
    (htold : td.Says guest) (h : fitTd bs td = some td') :
    td'.status = guest.status ∧ td'.token = guest.token := by
  rw [fitTd] at h
  split at h
  · cases h
    exact ⟨htold.status, htold.token⟩
  · obtain ⟨b, -, rfl⟩ := Option.map_eq_some_iff.mp h
    exact ⟨htold.status, htold.token⟩

/-- A TD that lies in no shadow buffer before the second pass does not lie in one by chance: its
range is that of one run only. -/
theorem inside_of_contained {guest : Td} {td td' : HostTd} {ss : List Span} (p : Placement ss)
    (hss : gubs.map UsbBuffer.span = ss) (hbase : ∀ (m : Nat) s, ss[m]? = some s → s.base ≠ 0)
    (htold : td.Says guest) (hfit : fitTd (gubs.zip (shadowBuffers gubs p.padr)) td = some td')
    (h : Contained gubs (shadowBuffers gubs p.padr) guest td')
    (hactive : isActiveTd guest = true) (hlen : tdLength guest.token ≠ 0) :
    ∃ m s, Reaches ss guest.buffer m s ∧ s.base ≤ guest.buffer.toNat ∧
      guest.buffer.toNat + tdLength guest.token ≤ s.base + s.len := by
  subst hss
  have hsame := says_of_fitTd htold hfit
  rw [Contained, hsame.1, hsame.2] at h
  obtain ⟨m, gub, hub, hgub, hhub, hlow, hhigh, hplace⟩ := h hactive hlen
  have hspan : (gubs.map UsbBuffer.span)[m]? = some gub.span := by
    rw [List.getElem?_map, hgub]
    rfl
  obtain rfl : { gub with padr := p.padr m } = hub := by
    simpa [shadowBuffers, List.getElem?_mapIdx, hgub] using hhub
  have hgub0 : gub.padr ≠ 0 := hbase m _ hspan
  simp only at hlow hhigh hplace
  have hpos : 0 < tdLength guest.token := Nat.pos_of_ne_zero hlen
  by_cases hzero : guest.buffer = 0
  · rw [fitTd, if_pos (.inl (htold.buffer.trans hzero))] at hfit
    cases hfit
    rw [htold.buffer, hzero] at hlow hplace
    simp at hlow hplace
    omega
  rw [fitTd_of_active htold hactive hzero] at hfit
  obtain ⟨b, hb, rfl⟩ := Option.map_eq_some_iff.mp hfit
  simp only at hlow hhigh hplace
  by_cases hheld : ∃ k s, Reaches (gubs.map UsbBuffer.span) guest.buffer k s ∧ s.Holds guest.buffer
  · obtain ⟨k, s, hk, hs⟩ := hheld
    have habove := fitBuffer_ne_none_iff.1 (by rw [hb]; exact nofun) k s hk
    have hval := toNat_fitted hs habove (p.below k s hk.here)
    rw [← fitBuffer_of_holds hk hs hb] at hval
    obtain ⟨hs1, hs2⟩ := hs
    refine ⟨k, s, hk, hs1, ?_⟩
    rcases eq_or_ne m k with rfl | hne
    · obtain rfl : gub.span = s := Option.some.inj (hspan.symm.trans hk.here)
      simp only [UsbBuffer.span] at hs1 hs2 hval ⊢
      omega
    · have := p.apart m k _ s hspan hk.here hne
      simp only [UsbBuffer.span] at this
      omega
  · have hsame := fitBuffer_of_none (fun k s hk hs => hheld (exists_reaches hk hs)) hb
    rw [hsame] at hlow hhigh hplace
    exact absurd (exists_reaches (b := guest.buffer) hspan
      ⟨by simp only [UsbBuffer.span]; omega, by simp only [UsbBuffer.span]; omega⟩) hheld

/-- A TD that fits is moved into its shadow buffer. -/
theorem contained_of_fits {guest : Td} {td td' : HostTd} {ss : List Span} (p : Placement ss)
    (hss : gubs.map UsbBuffer.span = ss) (hbase : ∀ (m : Nat) s, ss[m]? = some s → s.base ≠ 0)
    (htold : td.Says guest) (hfit : fitTd (gubs.zip (shadowBuffers gubs p.padr)) td = some td')
    (hfits : guest.Fits ss p.padr) : Contained gubs (shadowBuffers gubs p.padr) guest td' := by
  subst hss
  intro hactive hlen
  have hguest : isActiveTd guest = true ∧ tdLength guest.token ≠ 0 := by
    have hsame := says_of_fitTd htold hfit
    rw [hsame.1] at hactive
    rw [hsame.2] at hlen
    exact ⟨hactive, hlen⟩
  obtain ⟨m, s, hm, hlow, hhigh⟩ := hfits.inside hguest.1 hguest.2
  have hzero : guest.buffer ≠ 0 := by
    rintro h0
    rw [h0] at hlow
    exact hbase m s hm.here (Nat.le_zero.mp hlow)
  rw [fitTd_of_active htold hguest.1 hzero] at hfit
  obtain ⟨b, hb, rfl⟩ := Option.map_eq_some_iff.mp hfit
  have hs : s.Holds guest.buffer := ⟨hlow, by have := hguest.2; omega⟩
  have habove := hfits.above hguest.1 hzero m s hm
  have hval := toNat_fitted hs habove (p.below m s hm.here)
  rw [← fitBuffer_of_holds hm hs hb] at hval
  obtain ⟨gub, hgub, rfl⟩ : ∃ gub, gubs[m]? = some gub ∧ gub.span = s := by
    have := hm.here
    rw [List.getElem?_map] at this
    exact Option.map_eq_some_iff.mp this
  simp only [UsbBuffer.span] at hval hlow hhigh hs habove
  refine ⟨m, gub, { gub with padr := p.padr m }, hgub, ?_, ?_, ?_, ?_⟩
  · simp [shadowBuffers, List.getElem?_mapIdx, hgub]
  · simp only
    omega
  · simp only
    rw [htold.token]
    omega
  · simp only
    omega

/-- After the two passes every active shadow TD lies in a shadow buffer, at the place of the guest's
bytes, and no assertion fails, exactly if the guest's TDs fit their runs. -/
theorem contains_iff (mem : TdMemory) (fuel : Nat) (element : BitVec 32) (q : HostQueue)
    (h : duplicateQcontext mem fuel element = .done q) (p : Placement (spans (q.guestTds mem))) :
    q.Contains mem p.padr ↔ ∀ td ∈ q.guestTds mem, td.Fits (spans (q.guestTds mem)) p.padr := by
  have hss := map_span_makeBufferList 0 (q.guestTds mem)
  have hbase : ∀ (m : Nat) s, (spans (q.guestTds mem))[m]? = some s → s.base ≠ 0 :=
    fun m s => base_ne_zero
  have hlength : (q.guestTds mem).length = q.tds.length := by rw [HostQueue.guestTds, List.length_map]
  rw [HostQueue.Contains]
  simp only [HostQueue.shadowed]
  generalize hgubs : makeBufferList 0 (q.guestTds mem) = gubs at hss ⊢
  by_cases hnil : gubs = []
  · rw [if_neg (by simp [hnil])]
    rw [hnil] at hss
    have hnone : ∀ b m s, ¬Reaches (spans (q.guestTds mem)) b m s := fun b m s hm => by
      have := hm.here
      rw [← hss] at this
      cases this
    constructor
    · rintro ⟨hubs, tds, heq, hlen, hall⟩ guest hguest
      cases heq
      refine ⟨fun _ _ m s hm => absurd hm (hnone _ m s), fun hactive hlen => ?_⟩
      obtain ⟨i, hi⟩ := List.getElem?_of_mem hguest
      obtain ⟨td, htd, htold⟩ := exists_td_of_guest h hi
      obtain ⟨m, gub, hub, hgub, -⟩ := hall i guest td hi htd (by rw [htold.status]; exact hactive)
        (by rw [htold.token]; exact hlen)
      rw [hnil] at hgub
      cases hgub
    · intro hfits
      refine ⟨[], q.tds, rfl, rfl, fun i guest td hi htd hactive hlen => ?_⟩
      obtain ⟨guest', hg', htold⟩ := says_of_duplicateQcontext h htd
      rw [hi] at hg'
      cases hg'
      obtain ⟨m, s, hm, -⟩ := (hfits guest (List.mem_of_getElem? hi)).inside
        (by rw [isActiveTd, ← htold.status]; exact hactive) (by rw [← htold.token]; exact hlen)
      exact absurd hm (hnone _ m s)
  · rw [if_pos hnil, uhciShadowBuffer, if_neg hnil]
    constructor
    · rintro ⟨hubs, tds, heq, hlen, hall⟩ guest hguest
      obtain ⟨tds', htds, hpair⟩ := Option.map_eq_some_iff.mp heq
      obtain ⟨rfl, rfl⟩ : shadowBuffers gubs p.padr = hubs ∧ tds' = tds := by simpa using hpair
      obtain ⟨-, hfitted⟩ := fitTds_eq_some htds
      obtain ⟨i, hi⟩ := List.getElem?_of_mem hguest
      obtain ⟨td, htd, htold⟩ := exists_td_of_guest h hi
      obtain ⟨td', htd'⟩ : ∃ td', tds'[i]? = some td' := by
        have hlt := (List.getElem?_eq_some_iff.mp htd).1
        exact ⟨_, List.getElem?_eq_getElem (hlen.symm ▸ hlt)⟩
      have hfit := hfitted i td td' htd htd'
      refine ⟨fun hactive hzero => ?_, fun hactive hlen =>
        inside_of_contained p hss hbase htold hfit (hall i guest td' hi htd') hactive hlen⟩
      rw [fitTd_of_active htold hactive hzero] at hfit
      obtain ⟨b, hb, -⟩ := Option.map_eq_some_iff.mp hfit
      have habove := fitBuffer_ne_none_iff.1 (by rw [hb]; exact nofun)
      rwa [hss] at habove
    · intro hfits
      obtain ⟨tds', htds⟩ := @exists_fitTds (gubs.zip (shadowBuffers gubs p.padr)) q.tds fun td htd => by
        obtain ⟨i, hi⟩ := List.getElem?_of_mem htd
        obtain ⟨guest, hg, htold⟩ := says_of_duplicateQcontext h hi
        have habove := (hfits guest (List.mem_of_getElem? hg)).above
        by_cases hgo : td.buffer = 0 ∨ isActive td.status = false
        · rw [fitTd, if_pos hgo]
          exact nofun
        · rw [not_or, Bool.not_eq_false, htold.buffer, htold.status] at hgo
          obtain ⟨b, hb⟩ := Option.ne_none_iff_exists'.mp
            (fitBuffer_ne_none_iff.2 (by rw [hss]; exact habove hgo.2 hgo.1))
          rw [fitTd_of_active htold hgo.2 hgo.1, hb]
          exact nofun
      obtain ⟨hlen, hfitted⟩ := fitTds_eq_some htds
      refine ⟨shadowBuffers gubs p.padr, tds', by rw [htds]; rfl, hlen, fun i guest td' hi htd' => ?_⟩
      obtain ⟨td, htd, htold⟩ := exists_td_of_guest h hi
      exact contained_of_fits p hss hbase htold (hfitted i td td' htd htd')
        (hfits guest (List.mem_of_getElem? hi))

/-- One active TD of 8 bytes and the end of the chain. -/
def oneTd (buffer : BitVec 32) : TdMemory := fun _ => ⟨tdLinkTe, tdStatAc, 7 <<< 21, buffer⟩

def oneTdQueue (buffer : BitVec 32) : HostQueue :=
  ⟨.host 0 false, [⟨0x1000, .guest tdLinkTe, tdStatAc, 7 <<< 21, buffer⟩]⟩

/-- A shadow buffer at 16 MB for the 8 bytes at 8 KB. -/
def oneTdPlacement : Placement (spans ((oneTdQueue 0x2000).guestTds (oneTd 0x2000))) where
  padr := fun _ => 0x1000000
  below := by
    rw [show spans _ = [⟨0x2000, 8⟩] by decide]
    rintro (_ | i) s hs
    · cases hs
      decide
    · simp at hs
  apart := by
    rw [show spans _ = [⟨0x2000, 8⟩] by decide]
    rintro (_ | i) (_ | j) s t hs ht hne
    · exact absurd rfl hne
    · simp at ht
    · simp at hs
    · simp at hs

theorem contains_oneTd : (oneTdQueue 0x2000).Contains (oneTd 0x2000) oneTdPlacement.padr := by
  refine (contains_iff (oneTd 0x2000) 2 0x1000 (oneTdQueue 0x2000) (by decide)
    oneTdPlacement).mpr fun td htd => ?_
  obtain rfl : td = ⟨tdLinkTe, tdStatAc, 7 <<< 21, 0x2000⟩ := List.mem_singleton.mp htd
  have hspans : spans ((oneTdQueue 0x2000).guestTds (oneTd 0x2000)) = [⟨0x2000, 8⟩] := by decide
  refine ⟨fun _ _ m s hm => ?_, fun _ _ =>
    ⟨0, ⟨0x2000, 8⟩, by rw [hspans]; exact reaches_zero, by decide, by decide⟩⟩
  have hs := hm.here
  rw [hspans] at hs
  rcases m with _ | m
  · cases hs
    decide
  · simp at hs

/-- A TD whose buffer pointer is 0 is left to transfer to the guest's address 0. -/
theorem not_contains_zeroPointer : ¬∀ (mem : TdMemory) (fuel : Nat) (element : BitVec 32)
    (q : HostQueue), duplicateQcontext mem fuel element = .done q →
      ∀ p : Placement (spans (q.guestTds mem)), q.Contains mem p.padr := by
  intro h
  have hnil : spans ((oneTdQueue 0).guestTds (oneTd 0)) = [] := by decide
  obtain ⟨hubs, tds, heq, -, hall⟩ := h (oneTd 0) 2 0x1000 (oneTdQueue 0) (by decide)
    ⟨fun _ => 0, fun i s hs => by rw [hnil] at hs; simp at hs,
      fun i j s t hs => by rw [hnil] at hs; simp at hs⟩
  have hgubs : makeBufferList 0 ((oneTdQueue 0).guestTds (oneTd 0)) = [] := by
    rw [HostQueue.guestTds, oneTdQueue, List.map_singleton, makeBufferList, if_neg (by decide)]
  rw [HostQueue.shadowed, hgubs] at heq
  cases heq
  obtain ⟨m, gub, hub, hgub, -⟩ := hall 0 _ _ rfl rfl (by decide) (by decide)
  rw [hgubs] at hgub
  cases hgub

end OnDemandVirt.Uhci
