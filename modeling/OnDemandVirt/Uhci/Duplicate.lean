import OnDemandVirt.Uhci.Queue

/-!
# When a queue is copied faithfully

The walk of `duplicate_qcontext` passes the link words of the guest's chain one after another
(`word`). While the TDs it has met are all different (`walked`), a link back to one of them is
recognised exactly when its word is the masked address itself. So, where that holds of the first
link that closes a cycle, the walk ends with one image for each TD (`duplicateTds_terminates`,
`duplicateTds_spec`). Where it does not, the walk makes a second image of a TD, and a chain that
ends in the word 0 is left with that word, which the host controller takes for an address.
-/

namespace OnDemandVirt.Uhci

variable {mem : TdMemory} {element : BitVec 32} {k n : Nat}

theorem uhciLink_uhciLink (w : BitVec 32) : uhciLink (uhciLink w) = uhciLink w := by
  rw [uhciLink, uhciLink, BitVec.and_assoc, BitVec.and_self]

/-! ### The chain of the guest -/

/-- The link word that follows a link word. -/
def TdMemory.next (mem : TdMemory) (w : BitVec 32) : BitVec 32 := (mem.gettdbypaddr w).link

/-- The `k`-th link word of a queue. -/
def TdMemory.word (mem : TdMemory) (element : BitVec 32) (k : Nat) : BitVec 32 :=
  mem.next^[k] element

/-- The addresses of its first `k` TDs. -/
def TdMemory.walked (mem : TdMemory) (element : BitVec 32) (k : Nat) : List (BitVec 32) :=
  (List.range k).map fun i => uhciLink (mem.word element i)

/-- A link word leads to an active TD, from which the walk goes on. -/
structure TdMemory.Continues (mem : TdMemory) (w : BitVec 32) : Prop where
  leads : isTerminate w = false
  noQh : isQhLink (mem.next w) = false
  active : isActive (mem.gettdbypaddr w).status = true

/-- The `k`-th link word is reached past active TDs that are all different. -/
structure TdMemory.Reached (mem : TdMemory) (element : BitVec 32) (k : Nat) : Prop where
  continues : ∀ i < k, mem.Continues (mem.word element i)
  distinct : (mem.walked element k).Nodup

/-- A link word that can be told for what it is: it is not the word 0, and if it leads back to one
of the TDs met before, it is the address of that TD and nothing else. -/
def Recognised (w : BitVec 32) (met : List (BitVec 32)) : Prop :=
  w ≠ 0 ∧ (isTerminate w = false → uhciLink w ∈ met → uhciLink w = w)

/-- Every link word that is reached can be told for what it is. -/
def TdMemory.WellLinked (mem : TdMemory) (element : BitVec 32) : Prop :=
  ∀ k, mem.Reached element k → Recognised (mem.word element k) (mem.walked element k)

theorem word_succ (mem : TdMemory) (element : BitVec 32) (k : Nat) :
    mem.word element (k + 1) = mem.next (mem.word element k) :=
  Function.iterate_succ_apply' _ _ _

theorem walked_succ (mem : TdMemory) (element : BitVec 32) (k : Nat) :
    mem.walked element (k + 1) = mem.walked element k ++ [uhciLink (mem.word element k)] := by
  rw [TdMemory.walked, List.range_succ, List.map_append]
  rfl

@[simp] theorem length_walked (mem : TdMemory) (element : BitVec 32) (k : Nat) :
    (mem.walked element k).length = k := by
  simp [TdMemory.walked]

theorem mem_walked {a : BitVec 32} :
    a ∈ mem.walked element k ↔ ∃ i < k, uhciLink (mem.word element i) = a := by
  simp [TdMemory.walked]

theorem uhciLink_of_mem_walked {a : BitVec 32} (h : a ∈ mem.walked element k) : uhciLink a = a := by
  obtain ⟨i, -, rfl⟩ := mem_walked.1 h
  exact uhciLink_uhciLink _

theorem next_eq_of_uhciLink_eq {v w : BitVec 32} (h : uhciLink v = uhciLink w) :
    mem.next v = mem.next w := by
  rw [TdMemory.next, TdMemory.next, TdMemory.gettdbypaddr, TdMemory.gettdbypaddr, h]

theorem TdMemory.Reached.zero (mem : TdMemory) (element : BitVec 32) : mem.Reached element 0 :=
  ⟨fun _ h => absurd h (Nat.not_lt_zero _), List.nodup_nil⟩

theorem TdMemory.Reached.succ (h : mem.Reached element k)
    (hc : mem.Continues (mem.word element k))
    (hnew : uhciLink (mem.word element k) ∉ mem.walked element k) : mem.Reached element (k + 1) := by
  refine ⟨fun i hi => ?_, ?_⟩
  · rcases Nat.lt_succ_iff_lt_or_eq.mp hi with hlt | rfl
    · exact h.continues i hlt
    · exact hc
  · rw [walked_succ, List.nodup_append]
    refine ⟨h.distinct, List.nodup_singleton _, fun a ha b hb => ?_⟩
    rw [List.mem_singleton.mp hb]
    exact fun he => hnew (he ▸ ha)

/-- A word that is reached has been reached past each of the words before. -/
theorem TdMemory.Reached.of_le (h : mem.Reached element n) (hk : k ≤ n) : mem.Reached element k := by
  refine ⟨fun i hi => h.continues i (by omega), ?_⟩
  refine h.distinct.sublist ?_
  rw [TdMemory.walked, TdMemory.walked]
  exact ((List.range_sublist).mpr hk).map _

/-- Only so many TDs are different. -/
theorem TdMemory.Reached.le (h : mem.Reached element k) : k ≤ 2 ^ 32 := by
  have hnodup := h.distinct.map (f := BitVec.toFin) fun a b hab => BitVec.toFin_inj.mp hab
  have hcard := hnodup.length_le_card
  rw [List.length_map, length_walked, Fintype.card_fin] at hcard
  exact hcard

/-- The first word that leads back is where a word that is not recognised stands. -/
theorem isLinkLoop_of_reached (h : mem.Reached element (k + 1)) (hk : n ≤ k) :
    isLinkLoop (mem.word element n) (mem.walked element n) = none := by
  rw [isLinkLoop]
  split
  · rfl
  · rw [List.findIdx?_eq_none_iff]
    intro a ha
    refine beq_eq_false_iff_ne.mpr fun he => ?_
    have hsucc := (h.of_le (show n + 1 ≤ k + 1 by omega)).distinct
    rw [walked_succ, List.nodup_append] at hsucc
    exact hsucc.2.2 a ha _ (List.mem_singleton_self _) (by rw [← he, uhciLink_of_mem_walked ha])


/-! ### One pass of the walk -/

/-- What a pass can come to. -/
theorem duplicateTds_cases (mem : TdMemory) (fuel : Nat) (w : BitVec 32) (g : List (BitVec 32)) :
    (isTerminate w = true ∧ duplicateTds mem (fuel + 1) w g = .done (.guest w, [])) ∨
    isTerminate w = false ∧
      ((isQhLink (mem.next w) = true ∧ duplicateTds mem (fuel + 1) w g = .failed) ∨
      (∃ n, isLinkLoop (mem.next w) (g ++ [uhciLink w]) = some n ∧
        duplicateTds mem (fuel + 1) w g =
          .done (.host g.length (isDepth w), [mem.image w (.host n false)])) ∨
      (isActive (mem.gettdbypaddr w).status = false ∧
        duplicateTds mem (fuel + 1) w g =
          .done (.host g.length (isDepth w), [mem.image w (.guest tdLinkTe)])) ∨
      (mem.Continues w ∧ isLinkLoop (mem.next w) (g ++ [uhciLink w]) = none ∧
        duplicateTds mem (fuel + 1) w g =
          (duplicateTds mem fuel (mem.next w) (g ++ [uhciLink w])).map fun r =>
            (.host g.length (isDepth w), mem.image w r.1 :: r.2))) := by
  rw [duplicateTds]
  by_cases hterm : isTerminate w = true
  · exact .inl ⟨hterm, if_pos hterm⟩
  rw [Bool.not_eq_true] at hterm
  refine .inr ⟨hterm, ?_⟩
  rw [if_neg (by simp [hterm])]
  by_cases hqh : isQhLink (mem.next w) = true
  · exact .inl ⟨hqh, if_pos hqh⟩
  rw [Bool.not_eq_true] at hqh
  refine .inr ?_
  simp only [TdMemory.next] at hqh ⊢
  rw [if_neg (by simp [hqh])]
  cases hloop : isLinkLoop (mem.gettdbypaddr w).link (g ++ [uhciLink w]) with
  | some n => exact .inl ⟨n, rfl, rfl⟩
  | none =>
    by_cases hact : isActive (mem.gettdbypaddr w).status = true
    · exact .inr (.inr ⟨⟨hterm, hqh, hact⟩, rfl, if_pos hact⟩)
    · exact .inr (.inl ⟨by simpa using hact, if_neg hact⟩)

/-- The walk stands before the `k`-th link word, which has not been taken for a link back. -/
structure TdMemory.At (mem : TdMemory) (element : BitVec 32) (k : Nat) : Prop where
  reached : mem.Reached element k
  noLoop : isLinkLoop (mem.word element k) (mem.walked element k) = none

theorem TdMemory.At.zero (mem : TdMemory) (element : BitVec 32) : mem.At element 0 :=
  ⟨.zero mem element, by rw [isLinkLoop]; split <;> rfl⟩

/-- A link word that can be told for what it is leads to a TD not met before. -/
theorem TdMemory.At.new (h : mem.At element k)
    (hrec : Recognised (mem.word element k) (mem.walked element k))
    (hleads : isTerminate (mem.word element k) = false) :
    uhciLink (mem.word element k) ∉ mem.walked element k := by
  intro hmem
  have hloop := h.noLoop
  rw [isLinkLoop, if_neg hrec.1, List.findIdx?_eq_none_iff] at hloop
  have := hloop _ hmem
  rw [hrec.2 hleads hmem, beq_self_eq_true] at this
  cases this

theorem TdMemory.At.succ (h : mem.At element k) (hc : mem.Continues (mem.word element k))
    (hnew : uhciLink (mem.word element k) ∉ mem.walked element k)
    (hloop : isLinkLoop (mem.next (mem.word element k))
      (mem.walked element k ++ [uhciLink (mem.word element k)]) = none) : mem.At element (k + 1) :=
  ⟨h.reached.succ hc hnew, by rw [word_succ, walked_succ, hloop]⟩

/-! ### A chain that is copied -/

theorem duplicateTds_terminates (hwell : mem.WellLinked element) {fuel : Nat}
    (h : mem.At element k) (hfuel : 2 ^ 32 < k + fuel) :
    duplicateTds mem fuel (mem.word element k) (mem.walked element k) ≠ .running := by
  induction fuel generalizing k with
  | zero => exact absurd h.reached.le (by omega)
  | succ fuel ih =>
    rcases duplicateTds_cases mem fuel (mem.word element k) (mem.walked element k) with
      ⟨-, heq⟩ | ⟨hleads, ⟨-, heq⟩ | ⟨n, -, heq⟩ | ⟨-, heq⟩ | ⟨hc, hloop, heq⟩⟩
    · simp [heq]
    · simp [heq]
    · simp [heq]
    · simp [heq]
    · have hnext := ih (h.succ hc (h.new (hwell k h.reached) hleads) hloop) (by omega)
      rw [heq, ← word_succ, ← walked_succ]
      cases hrest : duplicateTds mem fuel (mem.word element (k + 1)) (mem.walked element (k + 1)) with
      | running => exact absurd hrest hnext
      | failed => exact nofun
      | done r => exact nofun

/-- A host link word stands for a guest link word: both end the queue, or the host's is the address
of the host TD made for the TD that the guest's leads to. -/
def Shows (met : List (BitVec 32)) (l : HostLink) (w : BitVec 32) : Prop :=
  (¬Leads w ∧ l = .guest w) ∨
    Leads w ∧ ∃ n, l = .host n (isDepth w) ∧ met[n]? = some (uhciLink w)

/-- A host TD says what the guest's TD says, and its link, if it is followed, stands for the
guest's. -/
structure HostTd.Images (td : HostTd) (mem : TdMemory) (met : List (BitVec 32)) : Prop where
  status : td.status = (mem td.gTdPhys).status
  token : td.token = (mem td.gTdPhys).token
  buffer : td.buffer = (mem td.gTdPhys).buffer
  link : isActive td.status = true → Shows met td.link (mem td.gTdPhys).link

theorem leads_of_not_terminate {w : BitVec 32} (hterm : isTerminate w = false)
    (hqh : isQhLink w = false) : Leads w := by
  rw [isTerminate] at hterm
  rw [isQhLink, decide_eq_false_iff_not, not_not] at hqh
  split at hterm
  · exact ⟨by simpa using hterm, hqh⟩
  · cases hterm

/-- The address of a TD, as it stands in a link word. -/
theorem leads_of_masked {w : BitVec 32} (h : uhciLink w = w) : Leads w ∧ isDepth w = false := by
  have hbits : ∀ m, linkMask &&& m = 0 → w &&& m = 0 := by
    intro m hm
    rw [← h, uhciLink, BitVec.and_assoc, hm]
    exact BitVec.and_zero
  exact ⟨⟨hbits _ (by decide), hbits _ (by decide)⟩, by simp [isDepth, hbits tdLinkVf (by decide)]⟩

theorem shows_of_isLinkLoop {met : List (BitVec 32)} {w : BitVec 32} {n : Nat}
    (hmet : ∀ a ∈ met, uhciLink a = a) (h : isLinkLoop w met = some n) :
    Shows met (.host n false) w := by
  rw [isLinkLoop] at h
  split at h
  · cases h
  · obtain ⟨hlt, heq, -⟩ := List.findIdx?_eq_some_iff_getElem.mp h
    have heq := beq_iff_eq.mp heq
    have hmask : uhciLink w = w := heq ▸ hmet _ (List.getElem_mem hlt)
    obtain ⟨hleads, hdepth⟩ := leads_of_masked hmask
    exact .inr ⟨hleads, n, by rw [hdepth], by rw [hmask, List.getElem?_eq_getElem hlt, heq]⟩

theorem image_images {w : BitVec 32} {link : HostLink} {met : List (BitVec 32)}
    (h : isActive (mem.gettdbypaddr w).status = true → Shows met link (mem.next w)) :
    (mem.image w link).Images mem met :=
  ⟨rfl, rfl, rfl, h⟩

/-- The walk of a chain whose links back are recognised makes one image for each TD. -/
theorem duplicateTds_spec (hwell : mem.WellLinked element) {fuel : Nat} {l : HostLink}
    {tds : List HostTd} (h : mem.At element k) (hqh : isQhLink (mem.word element k) = false)
    (hdone : duplicateTds mem fuel (mem.word element k) (mem.walked element k) = .done (l, tds)) :
    (mem.walked element k ++ tds.map HostTd.gTdPhys).Nodup ∧
      Shows (mem.walked element k ++ tds.map HostTd.gTdPhys) l (mem.word element k) ∧
      ∀ td ∈ tds, td.Images mem (mem.walked element k ++ tds.map HostTd.gTdPhys) := by
  induction fuel generalizing k l tds with
  | zero => cases hdone
  | succ fuel ih =>
    rcases duplicateTds_cases mem fuel (mem.word element k) (mem.walked element k) with
      ⟨hterm, heq⟩ | ⟨hterm, hcases⟩
    · -- the end of the chain
      rw [heq] at hdone
      cases hdone
      have hend : ¬Leads (mem.word element k) := by
        rw [isTerminate, if_pos (hwell k h.reached).1, decide_eq_true_eq] at hterm
        exact fun hl => hterm hl.1
      rw [List.map_nil, List.append_nil]
      exact ⟨h.reached.distinct, .inl ⟨hend, rfl⟩, nofun⟩
    -- the TD that the word leads to is a new one
    have hnew := h.new (hwell k h.reached) hterm
    have hleads := leads_of_not_terminate hterm hqh
    have hmet : (mem.walked element k ++ [uhciLink (mem.word element k)]).Nodup :=
      List.nodup_append.mpr ⟨h.reached.distinct, List.nodup_singleton _, fun a ha b hb he =>
        hnew (List.mem_singleton.mp hb ▸ he ▸ ha)⟩
    have hshows : ∀ rest, Shows (mem.walked element k ++ uhciLink (mem.word element k) :: rest)
        (.host (mem.walked element k).length (isDepth (mem.word element k))) (mem.word element k) :=
      fun rest => .inr ⟨hleads, _, rfl, by simp⟩
    have hmasked : ∀ a ∈ mem.walked element k ++ [uhciLink (mem.word element k)],
        uhciLink a = a := by
      rw [← walked_succ]
      exact fun a ha => uhciLink_of_mem_walked ha
    rcases hcases with ⟨-, heq⟩ | ⟨n, hloop, heq⟩ | ⟨hidle, heq⟩ | ⟨hc, hloop, heq⟩
    · rw [heq] at hdone
      cases hdone
    · rw [heq] at hdone
      cases hdone
      refine ⟨hmet, hshows [], fun td htd => ?_⟩
      rw [List.mem_singleton.mp htd]
      exact image_images fun _ => shows_of_isLinkLoop hmasked hloop
    · rw [heq] at hdone
      cases hdone
      refine ⟨hmet, hshows [], fun td htd => ?_⟩
      rw [List.mem_singleton.mp htd]
      exact image_images fun hact => absurd hact (by simp [hidle])
    · rw [heq, ← word_succ, ← walked_succ] at hdone
      cases hrest : duplicateTds mem fuel (mem.word element (k + 1)) (mem.walked element (k + 1)) with
      | running => simp [hrest, Outcome.map] at hdone
      | failed => simp [hrest, Outcome.map] at hdone
      | done r =>
        simp only [hrest, Outcome.map, Outcome.done.injEq, Prod.mk.injEq] at hdone
        obtain ⟨rfl, rfl⟩ := hdone
        obtain ⟨hnodup, hlink, himages⟩ := ih (h.succ hc hnew hloop)
          (by rw [word_succ]; exact hc.noQh) hrest
        rw [walked_succ, List.append_assoc, List.singleton_append] at hnodup hlink himages
        refine ⟨hnodup, hshows _, fun td htd => ?_⟩
        rcases List.mem_cons.mp htd with rfl | htd
        · exact image_images fun _ => by rw [← word_succ]; exact hlink
        · exact himages td htd

/-- The host controller keeps to the images, whichever link word it starts from. -/
theorem hostVisit_eq {tds : List HostTd} {met : List (BitVec 32)}
    (hmet : met = tds.map HostTd.gTdPhys) (hnodup : met.Nodup)
    (himages : ∀ td ∈ tds, td.Images mem met) {l : HostLink} {w : BitVec 32} (h : Shows met l w) :
    hostVisit mem tds n l = (guestVisit mem n w).map (Visit.map fun a => .host (met.idxOf a)) ∧
      ∀ v, guestVisit mem n w = some v → v.place ∈ met := by
  induction n generalizing l w with
  | zero =>
    rcases h with ⟨hend, rfl⟩ | ⟨hleads, i, rfl, hi⟩
    · rw [hostVisit, guestVisit, if_neg hend]
      exact ⟨rfl, nofun⟩
    · rw [hostVisit, guestVisit, if_pos hleads]
      obtain ⟨td, htd, haddr⟩ : ∃ td, tds[i]? = some td ∧ td.gTdPhys = uhciLink w := by
        simpa [hmet] using hi
      have him := himages td (List.mem_of_getElem? htd)
      have hidx : met.idxOf (uhciLink w) = i := by
        obtain ⟨hlt, hget⟩ := List.getElem?_eq_some_iff.mp hi
        rw [← hget]
        exact hnodup.idxOf_getElem i hlt
      refine ⟨?_, fun v hv => ?_⟩
      · simp [htd, Visit.map, TdMemory.visit, TdMemory.gettdbypaddr, hidx, him.status, him.token,
          him.buffer, haddr]
      · cases hv
        exact List.mem_of_getElem? hi
  | succ n ih =>
    rcases h with ⟨hend, rfl⟩ | ⟨hleads, i, rfl, hi⟩
    · rw [hostVisit, guestVisit, if_neg fun hl => hend hl.1]
      exact ⟨rfl, nofun⟩
    · obtain ⟨td, htd, haddr⟩ : ∃ td, tds[i]? = some td ∧ td.gTdPhys = uhciLink w := by
        simpa [hmet] using hi
      have him := himages td (List.mem_of_getElem? htd)
      have hstatus : td.status = (mem.gettdbypaddr w).status := by
        rw [him.status, haddr, TdMemory.gettdbypaddr]
      rw [hostVisit, guestVisit, htd, Option.bind_some, hstatus]
      by_cases hact : isActive (mem.gettdbypaddr w).status = true
      · rw [if_pos hact, if_pos ⟨hleads, hact⟩]
        have hlink := him.link (hstatus ▸ hact)
        rw [haddr] at hlink
        exact ih hlink
      · rw [if_neg hact, if_neg fun h => hact h.2]
        exact ⟨rfl, nofun⟩

/-! ### A chain that is not copied -/

theorem not_recognised_at (h : mem.Reached element k)
    (hnot : ¬Recognised (mem.word element k) (mem.walked element k)) {i : Nat} (hi : i ≤ k) :
    mem.At element i := by
  refine ⟨h.of_le hi, ?_⟩
  rcases Nat.lt_or_eq_of_le hi with hlt | rfl
  · obtain ⟨j, rfl⟩ : ∃ j, k = j + 1 := ⟨k - 1, by omega⟩
    exact isLinkLoop_of_reached h (by omega)
  · rw [isLinkLoop]
    split
    · rfl
    · next hzero =>
      rw [List.findIdx?_eq_none_iff]
      intro a ha
      refine beq_eq_false_iff_ne.mpr fun he => hnot ⟨hzero, fun _ _ => ?_⟩
      rw [← he, uhciLink_of_mem_walked ha]

/-- The word that leads to a TD gets the address of the image made for it. -/
theorem duplicateTds_head {fuel : Nat} {w : BitVec 32} {g : List (BitVec 32)} {l : HostLink}
    {tds : List HostTd} (hterm : isTerminate w = false)
    (hdone : duplicateTds mem fuel w g = .done (l, tds)) :
    l = .host g.length (isDepth w) ∧ ∃ link, tds[0]? = some (mem.image w link) := by
  cases fuel with
  | zero => cases hdone
  | succ fuel =>
    rcases duplicateTds_cases mem fuel w g with
      ⟨h, -⟩ | ⟨-, ⟨-, heq⟩ | ⟨i, -, heq⟩ | ⟨-, heq⟩ | ⟨-, -, heq⟩⟩
    · rw [hterm] at h
      cases h
    · rw [heq] at hdone
      cases hdone
    · rw [heq] at hdone
      cases hdone
      exact ⟨rfl, _, rfl⟩
    · rw [heq] at hdone
      cases hdone
      exact ⟨rfl, _, rfl⟩
    · rw [heq] at hdone
      cases hrest : duplicateTds mem fuel (mem.next w) (g ++ [uhciLink w]) with
      | running => simp [hrest, Outcome.map] at hdone
      | failed => simp [hrest, Outcome.map] at hdone
      | done r =>
        simp only [hrest, Outcome.map, Outcome.done.injEq, Prod.mk.injEq] at hdone
        obtain ⟨rfl, rfl⟩ := hdone
        exact ⟨rfl, _, rfl⟩

/-- One pass over a TD from which the walk goes on. -/
theorem duplicateTds_continue {fuel : Nat} (hc : mem.Continues (mem.word element k))
    (h : mem.At element (k + 1)) :
    duplicateTds mem (fuel + 1) (mem.word element k) (mem.walked element k) =
      (duplicateTds mem fuel (mem.word element (k + 1)) (mem.walked element (k + 1))).map fun r =>
        (.host k (isDepth (mem.word element k)), mem.image (mem.word element k) r.1 :: r.2) := by
  have hnoloop := h.noLoop
  rw [word_succ, walked_succ] at hnoloop
  rcases duplicateTds_cases mem fuel (mem.word element k) (mem.walked element k) with
    ⟨hterm, -⟩ | ⟨-, ⟨hqh, -⟩ | ⟨i, hloop, -⟩ | ⟨hidle, -⟩ | ⟨-, -, heq⟩⟩
  · rw [hc.leads] at hterm
    cases hterm
  · rw [hc.noQh] at hqh
    cases hqh
  · rw [hnoloop] at hloop
    cases hloop
  · rw [hc.active] at hidle
    cases hidle
  · rw [heq, length_walked, word_succ, walked_succ]

/-- The walk gets to a word that is reached, and what it makes of the words before is there. -/
theorem duplicateTds_reaches (hat : ∀ i ≤ k, mem.At element i) (d : Nat) {j fuel : Nat}
    (hj : j + d = k) :
    (duplicateTds mem fuel (mem.word element j) (mem.walked element j) = .failed →
      ∃ fuel', duplicateTds mem fuel' (mem.word element k) (mem.walked element k) = .failed) ∧
    ∀ l tds all, duplicateTds mem fuel (mem.word element j) (mem.walked element j) =
        .done (l, tds) → (∀ i, all[j + i]? = tds[i]?) →
      ∃ fuel' l' tds', duplicateTds mem fuel' (mem.word element k) (mem.walked element k) =
        .done (l', tds') ∧ (∀ i, all[k + i]? = tds'[i]?) ∧
          ∀ n, hostVisit mem all (d + n) l = hostVisit mem all n l' := by
  induction d generalizing j fuel with
  | zero =>
    obtain rfl : j = k := hj
    exact ⟨fun h => ⟨fuel, h⟩, fun l tds all h hall => ⟨fuel, l, tds, h, hall, fun n => by
      rw [Nat.zero_add]⟩⟩
  | succ d ih =>
    have hc := (hat k le_rfl).reached.continues j (by omega)
    cases fuel with
    | zero => exact ⟨fun h => (by cases h), fun l tds all h => (by cases h)⟩
    | succ fuel =>
      rw [duplicateTds_continue hc (hat (j + 1) (by omega))]
      obtain ⟨hfail, hdone⟩ := @ih (j + 1) fuel (by omega)
      cases hrest : duplicateTds mem fuel (mem.word element (j + 1)) (mem.walked element (j + 1)) with
      | running => exact ⟨fun h => (by cases h), fun l tds all h => (by cases h)⟩
      | failed => exact ⟨fun _ => hfail hrest, fun l tds all h => (by cases h)⟩
      | done r =>
        refine ⟨fun h => (by cases h), fun l tds all h hall => ?_⟩
        simp only [Outcome.map, Outcome.done.injEq, Prod.mk.injEq] at h
        obtain ⟨rfl, rfl⟩ := h
        obtain ⟨fuel', l', tds', heq, hall', hvisit⟩ := hdone r.1 r.2 all hrest fun i => by
          rw [Nat.add_assoc, Nat.add_comm 1 i, hall (i + 1), List.getElem?_cons_succ]
        refine ⟨fuel', l', tds', heq, hall', fun n => ?_⟩
        rw [Nat.add_right_comm, hostVisit, show all[j]? = _ from hall 0, List.getElem?_cons_zero,
          Option.bind_some]
        exact (if_pos hc.active).trans (hvisit n)

theorem leads_word (hqh : isQhLink element = false) (hc : ∀ i < k, mem.Continues (mem.word element i))
    (hterm : isTerminate (mem.word element k) = false) : Leads (mem.word element k) := by
  refine leads_of_not_terminate hterm ?_
  cases k with
  | zero => exact hqh
  | succ k =>
    rw [word_succ]
    exact (hc k (by omega)).noQh

/-- Past active TDs the host controller comes to the TD behind the next link word. -/
theorem guestVisit_word (hqh : isQhLink element = false)
    (hc : ∀ i < k, mem.Continues (mem.word element i))
    (hterm : isTerminate (mem.word element k) = false) :
    guestVisit mem k element = some (mem.visit (mem.word element k)) := by
  have hall : ∀ d j, j + d = k → guestVisit mem d (mem.word element j) =
      some (mem.visit (mem.word element k)) := by
    intro d
    induction d with
    | zero =>
      rintro j rfl
      exact if_pos (leads_word hqh hc hterm)
    | succ d ih =>
      intro j hj
      have hcj := hc j (by omega)
      rw [guestVisit, if_pos ⟨leads_word hqh (fun i hi => hc i (by omega)) hcj.leads, hcj.active⟩]
      have hnext := ih (j + 1) (by omega)
      rwa [word_succ] at hnext
  exact hall k 0 (Nat.zero_add k)

/-- A walk that only meets active TDs never fails. -/
theorem duplicateTds_ne_failed (hc : ∀ i, mem.Continues (mem.word element i)) (fuel k : Nat)
    (g : List (BitVec 32)) : duplicateTds mem fuel (mem.word element k) g ≠ .failed := by
  induction fuel generalizing k g with
  | zero => exact nofun
  | succ fuel ih =>
    rcases duplicateTds_cases mem fuel (mem.word element k) g with
      ⟨-, heq⟩ | ⟨-, ⟨hqh, -⟩ | ⟨i, -, heq⟩ | ⟨-, heq⟩ | ⟨-, -, heq⟩⟩
    · simp [heq]
    · rw [(hc k).noQh] at hqh
      cases hqh
    · simp [heq]
    · simp [heq]
    · rw [heq, ← word_succ]
      have hnext := ih (k + 1) (g ++ [uhciLink (mem.word element k)])
      cases hrest : duplicateTds mem fuel (mem.word element (k + 1))
          (g ++ [uhciLink (mem.word element k)]) with
      | running => exact nofun
      | failed => exact absurd hrest hnext
      | done r => exact nofun

/-- A chain of active TDs that closes a cycle never ends. -/
theorem continues_of_cycle {i : Nat} (hi : i < k)
    (hc : ∀ i < k, mem.Continues (mem.word element i))
    (hterm : isTerminate (mem.word element k) = false)
    (hback : uhciLink (mem.word element i) = uhciLink (mem.word element k)) (m : Nat) :
    mem.Continues (mem.word element m) := by
  have hnext : mem.next _ = mem.next _ := next_eq_of_uhciLink_eq hback
  have hperiod : ∀ m, mem.word element (k + 1 + m) = mem.word element (i + 1 + m) := by
    intro m
    induction m with
    | zero => rw [Nat.add_zero, Nat.add_zero, word_succ, word_succ, hnext]
    | succ m ih => rw [← Nat.add_assoc, ← Nat.add_assoc, word_succ, word_succ, ih]
  induction m using Nat.strong_induction_on with
  | _ m ih =>
    rcases Nat.lt_trichotomy m k with hlt | rfl | hgt
    · exact hc m hlt
    · have hci := hc i hi
      refine ⟨hterm, by rw [← hnext]; exact hci.noQh, ?_⟩
      have hact := hci.active
      rwa [TdMemory.gettdbypaddr, hback] at hact
    · obtain ⟨d, rfl⟩ : ∃ d, m = k + 1 + d := ⟨m - k - 1, by omega⟩
      rw [hperiod]
      exact ih _ (by omega)

/-- Where a link word is not recognised, no copy of the queue follows the guest's. -/
theorem not_follows_of_not_recognised (hqh : isQhLink element = false)
    (h : mem.Reached element k)
    (hnot : ¬Recognised (mem.word element k) (mem.walked element k)) : ¬Duplicated mem element := by
  have hat : ∀ i ≤ k, mem.At element i := fun i hi => not_recognised_at h hnot hi
  rintro ⟨fuel, hdup⟩
  rw [duplicateQcontext, if_neg (by simp [hqh])] at hdup
  obtain ⟨hfail, hdone⟩ := @duplicateTds_reaches mem element k hat k 0 fuel (Nat.zero_add k)
  change duplicateTds mem fuel element [] = _ → _ at hfail
  change ∀ l tds all, duplicateTds mem fuel element [] = _ → _ at hdone
  by_cases hzero : mem.word element k = 0
  · -- the word 0 is left in the host's queue
    have hend : ∀ fuel', duplicateTds mem fuel' (mem.word element k) (mem.walked element k) =
        .running ∨ duplicateTds mem fuel' (mem.word element k) (mem.walked element k) =
          .done (.guest 0, []) := by
      intro fuel'
      cases fuel' with
      | zero => exact .inl rfl
      | succ fuel' => rw [hzero]; exact .inr rfl
    cases hres : duplicateTds mem fuel element [] with
    | running => rcases hdup with hdup | ⟨q, hdup, -⟩ <;> simp [hres, Outcome.map] at hdup
    | failed =>
      obtain ⟨fuel', hf⟩ := hfail hres
      rcases hend fuel' with he | he <;> simp [he] at hf
    | done r =>
      rcases hdup with hdup | ⟨q, hdup, image, hvisit, -⟩
      · simp [hres, Outcome.map] at hdup
      simp only [hres, Outcome.map, Outcome.done.injEq] at hdup
      subst hdup
      obtain ⟨fuel', l', tds', hk, -, hsame⟩ := hdone r.1 r.2 r.2 hres fun i => by rw [Nat.zero_add]
      have hl : l' = .guest 0 := by
        rcases hend fuel' with he | he <;> simp [he] at hk
        exact hk.1.symm
      have hzeroth := hsame 0
      rw [hl, Nat.add_zero, show hostVisit mem r.2 k r.1 = _ from hvisit k] at hzeroth
      cases hv : guestVisit mem k element <;> simp [hv, hostVisit, guestVisit, Leads, Visit.map] at hzeroth
  · -- a second image of a TD is made
    have hrec : isTerminate (mem.word element k) = false ∧
        uhciLink (mem.word element k) ∈ mem.walked element k := by
      by_contra hne
      exact hnot ⟨hzero, fun hterm hmem => absurd ⟨hterm, hmem⟩ hne⟩
    obtain ⟨hterm, hmem⟩ := hrec
    obtain ⟨i, hi, hback⟩ := mem_walked.1 hmem
    have hall := continues_of_cycle hi h.continues hterm hback
    cases hres : duplicateTds mem fuel element [] with
    | running => rcases hdup with hdup | ⟨q, hdup, -⟩ <;> simp [hres, Outcome.map] at hdup
    | failed => exact duplicateTds_ne_failed hall fuel 0 [] hres
    | done r =>
      rcases hdup with hdup | ⟨q, hdup, image, hvisit, -⟩
      · simp [hres, Outcome.map] at hdup
      simp only [hres, Outcome.map, Outcome.done.injEq] at hdup
      subst hdup
      have hplace : ∀ j ≤ k, image (uhciLink (mem.word element j)) = j := by
        intro j hj
        obtain ⟨-, hdonej⟩ := @duplicateTds_reaches mem element j
          (fun m hm => hat m (by omega)) j 0 fuel (Nat.zero_add j)
        obtain ⟨fuel', l', tds', hk, hall', hsame⟩ :=
          hdonej r.1 r.2 r.2 hres fun i => by rw [Nat.zero_add]
        obtain ⟨rfl, link, hhead⟩ := duplicateTds_head (hall j).leads hk
        have hzeroth := hsame 0
        rw [Nat.add_zero, show hostVisit mem r.2 j r.1 = _ from hvisit j, guestVisit_word hqh (fun m _ => hall m) (hall j).leads, hostVisit,
          length_walked, show r.2[j]? = _ from (hall' 0).trans hhead] at hzeroth
        simp only [Option.map_some, Visit.map, TdMemory.visit, Option.some.injEq, Visit.mk.injEq,
          Place.host.injEq] at hzeroth
        exact hzeroth.1
      have hi' := hplace i hi.le
      rw [hback, hplace k le_rfl] at hi'
      omega

/-- The walk of `duplicate_qcontext` ends, and reports failure or leaves a queue on which the host
controller visits the images of what it would visit on the guest's, exactly if the element is a
link to a queue head (a failure) or every link word that is reached can be told for what it is. -/
theorem duplicated_iff (mem : TdMemory) (element : BitVec 32) :
    Duplicated mem element ↔ isQhLink element = true ∨ mem.WellLinked element := by
  by_cases hqh : isQhLink element = true
  · exact ⟨fun _ => .inl hqh, fun _ => ⟨0, .inl (if_pos hqh)⟩⟩
  rw [Bool.not_eq_true] at hqh
  refine ⟨fun h => .inr fun k hreached => ?_, fun h => ?_⟩
  · by_contra hnot
    exact not_follows_of_not_recognised hqh hreached hnot h
  · have hwell : mem.WellLinked element := by
      rcases h with h | h
      · rw [hqh] at h
        cases h
      · exact h
    refine ⟨2 ^ 32 + 1, ?_⟩
    rw [duplicateQcontext, if_neg (by simp [hqh])]
    have hend := duplicateTds_terminates hwell (.zero mem element)
      (show 2 ^ 32 < 0 + (2 ^ 32 + 1) by omega)
    change duplicateTds mem (2 ^ 32 + 1) element [] ≠ _ at hend
    generalize hfuel : 2 ^ 32 + 1 = fuel at hend ⊢
    cases hres : duplicateTds mem fuel element [] with
    | running => exact absurd hres hend
    | failed => exact .inl rfl
    | done r =>
      obtain ⟨hnodup, hlink, himages⟩ :=
        @duplicateTds_spec mem element 0 hwell fuel r.1 r.2 (.zero mem element) hqh hres
      change (r.2.map HostTd.gTdPhys).Nodup at hnodup
      change Shows (r.2.map HostTd.gTdPhys) r.1 element at hlink
      refine .inr ⟨_, rfl, fun a => (r.2.map HostTd.gTdPhys).idxOf a, fun n =>
        (hostVisit_eq rfl hnodup himages hlink).1, fun n v hv => ?_⟩
      have hmem := (hostVisit_eq rfl hnodup himages hlink).2 v hv
      rw [← List.getElem?_map]
      exact List.getElem?_idxOf hmem

/-- One active TD whose link is its own address with the VF flag. -/
def selfLoop : TdMemory := fun _ => ⟨0x1004, tdStatAc, 0, 0⟩

/-- The walk of a flagged cycle does not end. -/
theorem not_duplicated_selfLoop : ¬∀ (mem : TdMemory) (element : BitVec 32),
    Duplicated mem element := by
  intro h
  have hrun : ∀ fuel g, (∀ a ∈ g, a = 0x1000) →
      duplicateTds selfLoop fuel 0x1004 g = .running := by
    intro fuel
    induction fuel with
    | zero => exact fun _ _ => rfl
    | succ fuel ih =>
      intro g hg
      have hg' : ∀ a ∈ g ++ [uhciLink 0x1004], a = 0x1000 := by
        intro a ha
        rcases List.mem_append.mp ha with ha | ha
        · exact hg a ha
        · exact List.mem_singleton.mp ha
      have hmiss : isLinkLoop 0x1004 (g ++ [uhciLink 0x1004]) = none := by
        rw [isLinkLoop, if_neg (by decide), List.findIdx?_eq_none_iff]
        intro a ha
        rw [hg' a ha]
        decide
      have hnext := ih _ hg'
      rcases duplicateTds_cases selfLoop fuel 0x1004 g with
        ⟨hc, -⟩ | ⟨-, ⟨hc, -⟩ | ⟨n, hc, -⟩ | ⟨hc, -⟩ | ⟨-, -, heq⟩⟩
      · exact absurd hc (by decide)
      · exact absurd hc (by decide)
      · rw [show selfLoop.next 0x1004 = 0x1004 from rfl, hmiss] at hc
        cases hc
      · exact absurd hc (by decide)
      · rw [heq, show selfLoop.next 0x1004 = 0x1004 from rfl, hnext]
        rfl
  obtain ⟨fuel, hdup⟩ := h selfLoop 0x1004
  rw [duplicateQcontext, if_neg (by decide), hrun fuel [] nofun] at hdup
  rcases hdup with hdup | ⟨q, hdup, -⟩ <;> cases hdup

end OnDemandVirt.Uhci
