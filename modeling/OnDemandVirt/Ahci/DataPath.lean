import OnDemandVirt.Ahci.Registers

/-!
# What the guest sees of a command

As long as the controller stays in AHCI mode while a command runs, no read of `PxSACT` and `PxCI`
shows the command as done before its data is in the guest's buffers (`dataPath`). The invariant is
that of a slot with a command the guest has not seen both bits clear, and has seen none clear that is
set in the registers.
-/

namespace OnDemandVirt.Ahci

open Lib Storage Ata

/-- What the guest has seen of the slots that have a command. -/
def PortState.Hidden (s : PortState) : Prop :=
  ∀ i, s.port.shadowbit i = true →
    (s.seenSact i = true → s.hba.sact i = false) ∧ (s.seenCi i = true → s.hba.ci i = false) ∧
      ¬(s.seenSact i = true ∧ s.seenCi i = true)

def PortState.Ok (s : PortState) : Prop := s.port.Tracked s.issued ∧ s.Hidden

/-- A read shows nothing as done that the guest must not see yet. -/
def PortState.Shows (s : PortState) (shown : Shown) : Prop :=
  ∀ i, s.port.shadowbit i = true →
    (∀ v, shown.sact = some v → v i = false → s.hba.sact i = false ∧ s.seenCi i = false) ∧
    (∀ v, shown.ci = some v → v i = false → s.hba.ci i = false ∧ s.seenSact i = false) ∧
    (shown.sact = none ∨ shown.ci = none)

theorem PortState.shows_nothing (s : PortState) : s.Shows ⟨none, none⟩ :=
  fun _ _ => ⟨fun _ h => (by cases h), fun _ h => (by cases h), .inl rfl⟩

theorem PortState.Hidden.clear {s : PortState} (h : s.Hidden) (sact ci : SlotBits) :
    (s.clear sact ci).Hidden := by
  intro i hbit
  obtain ⟨hs, hc, hno⟩ := h i hbit
  refine ⟨fun hseen => ?_, fun hseen => ?_, hno⟩
  · simp only [PortState.clear, hs hseen, Bool.false_and]
  · simp only [PortState.clear, hc hseen, Bool.false_and]

theorem PortState.Hidden.setBits {s : PortState} (h : s.Hidden) (sact ci : SlotBits) :
    (s.setBits sact ci).Hidden := by
  intro i hbit
  obtain ⟨hs, hc, hno⟩ := h i hbit
  simp only [PortState.setBits, Bool.and_eq_true, Bool.not_eq_true', Bool.or_eq_false_iff]
  exact ⟨fun hseen => ⟨hs hseen.1, hseen.2⟩, fun hseen => ⟨hc hseen.1, hseen.2⟩,
    fun hseen => hno ⟨hseen.1.1, hseen.2.1⟩⟩

theorem PortState.Hidden.note {s : PortState} (h : s.Hidden) {shown : Shown} (hs : s.Shows shown) :
    (s.note shown).Hidden := by
  intro i hbit
  obtain ⟨hsact, hci, hno⟩ := h i hbit
  obtain ⟨hshowSact, hshowCi, hone⟩ := hs i hbit
  have hany : ∀ o : Option SlotBits, (o.any fun v => !v i) = true → ∃ v, o = some v ∧ v i = false := by
    intro o ho
    cases o with
    | none => cases ho
    | some v => exact ⟨v, rfl, by simpa using ho⟩
  simp only [PortState.note, Bool.or_eq_true]
  refine ⟨?_, ?_, ?_⟩
  · rintro (hseen | hnew)
    · exact hsact hseen
    · obtain ⟨v, hv, hvi⟩ := hany _ hnew
      exact (hshowSact v hv hvi).1
  · rintro (hseen | hnew)
    · exact hci hseen
    · obtain ⟨v, hv, hvi⟩ := hany _ hnew
      exact (hshowCi v hv hvi).1
  · rintro ⟨hseen | hnew, hseen' | hnew'⟩
    · exact hno ⟨hseen, hseen'⟩
    · obtain ⟨v, hv, hvi⟩ := hany _ hnew'
      exact absurd hseen (by rw [(hshowCi v hv hvi).2]; decide)
    · obtain ⟨v, hv, hvi⟩ := hany _ hnew
      exact absurd hseen' (by rw [(hshowSact v hv hvi).2]; decide)
    · obtain ⟨v, hv, -⟩ := hany _ hnew
      obtain ⟨v', hv', -⟩ := hany _ hnew'
      rcases hone with h0 | h0
      · rw [h0] at hv
        cases hv
      · rw [h0] at hv'
        cases hv'

namespace AhciData

variable {s : AhciData} {env : Env} {a : Access} {p q : Fin numOfAhciPorts}

/-- What holds between two events, unless the VMM has stopped. -/
structure Ok (s : AhciData) : Prop where
  ports : ∀ p, (s.ports p).Ok
  mode : ∀ p, s.Busy p → s.enabled = true ∧ s.notAhci = false

/-- Work on the slots of a port that starts nothing. -/
def Quiet (f : PortRun → PortRun) (run : PortRun) : Prop :=
  (f run).Tracked ∧ ((f run).stopped = none →
    ∀ i, (f run).port.shadowbit i = true → run.port.shadowbit i = true)

@[simp] theorem ports_setPort_self (f : PortState → PortState) :
    (s.setPort p f).ports p = f (s.ports p) := Function.update_self _ _ _

theorem ports_setPort_of_ne (hne : q ≠ p) (f : PortState → PortState) :
    (s.setPort p f).ports q = s.ports q := Function.update_of_ne hne _ _

@[simp] theorem stopped_setPort (f : PortState → PortState) :
    (s.setPort p f).stopped = s.stopped := rfl

/-- A change of one port that leaves its slots alone. -/
theorem Ok.setPort (h : s.Ok) {f : PortState → PortState} (hport : (f (s.ports p)).port = (s.ports p).port)
    (hok : (f (s.ports p)).Ok) : (s.setPort p f).Ok := by
  have hbusy : ∀ q, (s.setPort p f).Busy q → s.Busy q := by
    rintro q ⟨i, hi⟩
    rcases eq_or_ne q p with rfl | hne
    · rw [ports_setPort_self, hport] at hi
      exact ⟨i, hi⟩
    · rw [ports_setPort_of_ne hne] at hi
      exact ⟨i, hi⟩
  refine ⟨fun q => ?_, fun q hq => h.mode q (hbusy q hq)⟩
  rcases eq_or_ne q p with rfl | hne
  · rw [ports_setPort_self]
    exact hok
  · rw [ports_setPort_of_ne hne]
    exact h.ports q

/-- The run of a port as the VMM works on it. -/
def runOf (s : AhciData) (p : Fin numOfAhciPorts) : PortRun :=
  ⟨(s.ports p).port, s.mem, [], (s.ports p).issued, s.stopped⟩

theorem stopped_onPort (f : PortRun → PortRun) :
    (s.onPort p f).stopped = (f (s.runOf p)).stopped := rfl

theorem ports_onPort_self (f : PortRun → PortRun) :
    (s.onPort p f).ports p = { s.ports p with
      port := (f (s.runOf p)).port, issued := (f (s.runOf p)).issued } :=
  Function.update_self _ _ _

theorem ports_onPort_of_ne (hne : q ≠ p) (f : PortRun → PortRun) :
    (s.onPort p f).ports q = s.ports q := Function.update_of_ne hne _ _

theorem Ok.onPort (h : s.Ok) {f : PortRun → PortRun} (hf : Quiet f (s.runOf p))
    (hstop : (s.onPort p f).stopped = none) :
    (s.onPort p f).Ok ∧ ∀ q, (s.onPort p f).Busy q → s.Busy q := by
  obtain ⟨htracked, hrest⟩ := hf
  have hbits := hrest hstop
  have hbusy : ∀ q, (s.onPort p f).Busy q → s.Busy q := by
    rintro q ⟨i, hi⟩
    rcases eq_or_ne q p with rfl | hne
    · rw [ports_onPort_self] at hi
      exact ⟨i, hbits i hi⟩
    · rw [ports_onPort_of_ne hne] at hi
      exact ⟨i, hi⟩
  refine ⟨⟨fun q => ?_, fun q hq => h.mode q (hbusy q hq)⟩, hbusy⟩
  rcases eq_or_ne q p with rfl | hne
  · rw [ports_onPort_self]
    exact ⟨htracked hstop, fun i hi => (h.ports q).2 i (hbits i hi)⟩
  · rw [ports_onPort_of_ne hne]
    exact h.ports q

theorem Ok.runOf (h : s.Ok) : (s.runOf p).Tracked := fun _ => (h.ports p).1

theorem quiet_complete {run : PortRun} (hrun : run.Tracked)
    (again : Fin numOfCommandHeader → CompleteReading) (pxsact pxci : SlotBits) :
    Quiet (·.ahciCmdComplete again pxsact pxci) run := by
  refine ⟨PortRun.ahciCmdComplete_tracked hrun, fun hstop i hi => ?_⟩
  beta_reduce at hstop hi
  exact (PortRun.shadowbit_of_ahciCmdComplete hstop hi).1

theorem quiet_cancel {run : PortRun} (hrun : run.Tracked) : Quiet (·.ahciCmdCancel) run :=
  ⟨PortRun.ahciCmdCancel_tracked hrun, fun _ i hi => by cases hi⟩

theorem quiet_deviceWrite {run : PortRun} (hrun : run.Tracked) {i : Fin numOfCommandHeader}
    (hw : (run.port.slots i).hdr.w = false) (data : ByteMem) :
    Quiet (·.deviceWrite i data) run :=
  ⟨PortRun.deviceWrite_tracked hrun hw data, fun _ _ hi => hi⟩

/-! ### The loop over the ports -/

/-- What looking at a port leaves: less commands, of which each is still issued or active. -/
structure Looked (s s' : AhciData) (p : Fin numOfAhciPorts) : Prop where
  ok : s'.Ok
  busy : ∀ q, s'.Busy q → s.Busy q
  others : ∀ q, q ≠ p → s'.ports q = s.ports q
  bits : ∀ i, (s'.ports p).port.shadowbit i = true → (s.ports p).port.shadowbit i = true ∧
    ((s.ports p).hba.ci i = true ∨ (s.ports p).hba.sact i = true)
  sact : ∀ i, (s.ports p).hba.sact i = false → (s'.ports p).hba.sact i = false
  ci : ∀ i, (s.ports p).hba.ci i = false → (s'.ports p).hba.ci i = false
  seen : (s'.ports p).seenSact = (s.ports p).seenSact ∧ (s'.ports p).seenCi = (s.ports p).seenCi
  mode : s'.enabled = s.enabled ∧ s'.notAhci = s.notAhci

theorem Ok.looked (h : s.Ok) {f : PortRun → PortRun} (hf : Quiet f (s.runOf p))
    (hstop : (s.onPort p f).stopped = none)
    (hleft : ∀ i, (f (s.runOf p)).port.shadowbit i = true → (s.ports p).port.shadowbit i = true ∧
      ((s.ports p).hba.ci i = true ∨ (s.ports p).hba.sact i = true)) (sact ci : SlotBits) :
    Looked s ((s.onPort p f).setPort p (·.clear sact ci)) p := by
  obtain ⟨hok, hbusy⟩ := h.onPort hf hstop
  have hself : ((s.onPort p f).setPort p (·.clear sact ci)).ports p =
      ({ s.ports p with
        port := (f (s.runOf p)).port, issued := (f (s.runOf p)).issued } : PortState).clear sact ci := by
    rw [ports_setPort_self, ports_onPort_self]
  have hothers : ∀ q, q ≠ p → ((s.onPort p f).setPort p (·.clear sact ci)).ports q = s.ports q :=
    fun q hne => by rw [ports_setPort_of_ne hne, ports_onPort_of_ne hne]
  refine ⟨hok.setPort rfl ⟨(hok.ports p).1, (hok.ports p).2.clear _ _⟩, fun q hq => hbusy q ?_,
    hothers, fun i hi => ?_, fun i hi => ?_, fun i hi => ?_, ?_, ⟨rfl, rfl⟩⟩
  · obtain ⟨i, hi⟩ := hq
    rcases eq_or_ne q p with rfl | hne
    · rw [ports_setPort_self] at hi
      exact ⟨i, hi⟩
    · rw [ports_setPort_of_ne hne] at hi
      exact ⟨i, hi⟩
  · rw [hself] at hi
    exact hleft i hi
  · rw [hself]
    exact Bool.and_eq_false_imp.mpr fun hsact => absurd hi (by rw [hsact]; decide)
  · rw [hself]
    exact Bool.and_eq_false_imp.mpr fun hci => absurd hi (by rw [hci]; decide)
  · rw [hself]
    exact ⟨rfl, rfl⟩

theorem Ok.lookAt (h : s.Ok) (hstop : (s.lookAt env p).stopped = none) :
    Looked s (s.lookAt env p) p := by
  rw [AhciData.lookAt, stopped_setPort] at hstop
  refine h.looked (quiet_complete h.runOf _ _ _) hstop (fun i hi => ?_) _ _
  rw [stopped_onPort] at hstop
  exact PortRun.shadowbit_of_ahciCmdComplete hstop hi

/-- A port that has been looked at shows of its registers what they were before. -/
theorem Looked.shows {s' : AhciData} (h : s.Ok) (hl : Looked s s' p) :
    (s'.ports p).Shows ⟨some (s.ports p).hba.sact, none⟩ ∧
      (s'.ports p).Shows ⟨none, some (s.ports p).hba.ci⟩ := by
  constructor
  · intro i hi
    obtain ⟨hbit, hset⟩ := hl.bits i hi
    obtain ⟨-, hci, -⟩ := (h.ports p).2 i hbit
    refine ⟨fun v hv hvi => ?_, fun v hv => (by cases hv), .inr rfl⟩
    cases hv
    have hissued : (s.ports p).hba.ci i = true := by
      rcases hset with h0 | h0
      · exact h0
      · exact absurd h0 (by rw [hvi]; decide)
    refine ⟨hl.sact i hvi, ?_⟩
    rw [hl.seen.2]
    exact Bool.eq_false_iff.mpr fun hseen => absurd hissued (by rw [hci hseen]; decide)
  · intro i hi
    obtain ⟨hbit, hset⟩ := hl.bits i hi
    obtain ⟨hsact, -, -⟩ := (h.ports p).2 i hbit
    refine ⟨fun v hv => (by cases hv), fun v hv hvi => ?_, .inl rfl⟩
    cases hv
    have hactive : (s.ports p).hba.sact i = true := by
      rcases hset with h0 | h0
      · exact absurd h0 (by rw [hvi]; decide)
      · exact h0
    refine ⟨hl.ci i hvi, ?_⟩
    rw [hl.seen.1]
    exact Bool.eq_false_iff.mpr fun hseen => absurd hactive (by rw [hsact hseen]; decide)

/-- What was shown before may still be shown. -/
theorem Looked.keeps {s' : AhciData} (hl : Looked s s' p) {shown : Shown}
    (h : (s.ports q).Shows shown) : (s'.ports q).Shows shown := by
  rcases eq_or_ne q p with rfl | hne
  · intro i hi
    obtain ⟨hsact, hci, hone⟩ := h i (hl.bits i hi).1
    refine ⟨fun v hv hvi => ?_, fun v hv hvi => ?_, hone⟩
    · exact ⟨hl.sact i (hsact v hv hvi).1, hl.seen.2 ▸ (hsact v hv hvi).2⟩
    · exact ⟨hl.ci i (hci v hv hvi).1, hl.seen.1 ▸ (hci v hv hvi).2⟩
  · rw [hl.others q hne]
    exact h

theorem not_touches_of_ahciPortEq {off reg : Nat} (h : ahciPortEq off a.len reg = .ok false) :
    ¬a.Touches off reg := by
  rintro ⟨hlo, hhi⟩
  rw [ahciPortEq] at h
  split at h
  · split at h <;> cases h
  · split at h
    · split at h
      · omega
      · cases h
    · cases h

/-- The handler in its loop, after the ports `done`, from the state `s`: a port that a read is for
and that is not answered has no commands left, or the read is not one of the two registers. -/
structure Handling.Fine (s : AhciData) (a : Access) (done : List (Fin numOfAhciPorts))
    (h : Handling) : Prop where
  ok : h.ad.Ok
  busy : ∀ q, h.ad.Busy q → s.Busy q
  mode : h.ad.enabled = s.enabled ∧ h.ad.notAhci = s.notAhci
  shows : ∀ p, a.portNum = some p → (h.ad.ports p).Shows h.shown
  wr : a.wr = true → h.answered = false
  read : ∀ p ∈ done, a.portNum = some p → a.wr = false → h.answered = false →
    ¬h.ad.Busy p ∨ ¬a.Touches a.portOff pxSact ∧ ¬a.Touches a.portOff pxCi

theorem Handling.Fine.step {h : Handling} {done : List (Fin numOfAhciPorts)}
    (hfine : h.ad.stopped = none → h.Fine s a done)
    (hstop : (completePort env a h p).ad.stopped = none) :
    (completePort env a h p).Fine s a (p :: done) := by
  rw [completePort] at hstop ⊢
  split at hstop
  case isFalse hidle =>
    rw [if_neg hidle]
    have hf := hfine hstop
    refine { hf with read := fun q hq hport hwr hans => ?_ }
    rcases List.mem_cons.mp hq with rfl | hq
    · refine .inl fun hbusy => hidle ⟨?_, hbusy⟩
      rw [hstop]
      rfl
    · exact hf.read q hq hport hwr hans
  case isTrue hbusy =>
    rw [if_pos hbusy]
    have hf := hfine (Option.isNone_iff_eq_none.mp hbusy.1)
    generalize hlook : h.ad.lookAt env p = ad at hstop ⊢
    have hl : ad.stopped = none → Looked h.ad ad p := by
      subst hlook
      exact hf.ok.lookAt
    -- what was shown and read before stays, and for the port itself there is `hread`
    have hrest : ∀ (answered : Bool) (shown : Shown), ad.stopped = none →
        (∀ q, a.portNum = some q → (ad.ports q).Shows shown) → (a.wr = true → answered = false) →
        (answered = false → h.answered = false) →
        (a.portNum = some p → a.wr = false → answered = false →
          ¬a.Touches a.portOff pxSact ∧ ¬a.Touches a.portOff pxCi) →
        Handling.Fine s a (p :: done) ⟨ad, shown, answered⟩ := by
      intro answered shown hn hshows hwr hold hread
      have hl := hl hn
      refine ⟨hl.ok, fun q hq => hf.busy q (hl.busy q hq), ?_, hshows, hwr,
        fun q hq hport hwr' hans => ?_⟩
      · exact ⟨hl.mode.1.trans hf.mode.1, hl.mode.2.trans hf.mode.2⟩
      rcases List.mem_cons.mp hq with rfl | hq
      · exact .inr (hread hport hwr' hans)
      · rcases hf.read q hq hport hwr' (hold hans) with hfree | htouch
        · exact .inl fun hb => hfree (hl.busy q hb)
        · exact .inr htouch
    have hkeep : ad.stopped = none → ∀ q, a.portNum = some q → (ad.ports q).Shows h.shown :=
      fun hn q hq => (hl hn).keeps (hf.shows q hq)
    by_cases hread : ad.stopped.isNone = true ∧ a.wr = false ∧ a.portNum = some p
    case neg =>
      rw [if_neg hread] at hstop ⊢
      refine hrest _ _ hstop (hkeep hstop) hf.wr id fun hport hwr _ => absurd ⟨?_, hwr, hport⟩ hread
      rw [show ad.stopped = none from hstop]
      rfl
    case pos =>
      rw [if_pos hread] at hstop ⊢
      obtain ⟨hn, hwr, hport⟩ := hread
      have hn : ad.stopped = none := Option.isNone_iff_eq_none.mp hn
      have hnew := (hl hn).shows hf.ok
      have hwr' : ∀ {b : Bool}, a.wr = true → b = false := fun h0 => absurd h0 (by rw [hwr]; decide)
      have honly : ∀ {shown : Shown}, (ad.ports p).Shows shown →
          ∀ q, a.portNum = some q → (ad.ports q).Shows shown := by
        intro shown hs q hq
        rw [hport] at hq
        cases hq
        exact hs
      rcases hsact : ahciPortEq a.portOff a.len pxSact with f | eq
      · rw [hsact] at hstop
        exact absurd hstop (by simp [AhciData.stop])
      · cases eq with
        | true => exact hrest _ _ hn (honly hnew.1) hwr' (fun h0 => by cases h0) fun _ _ h0 => by cases h0
        | false =>
          rcases hci : ahciPortEq a.portOff a.len pxCi with f | eq
          · rw [hsact, hci] at hstop
            exact absurd hstop (by simp [AhciData.stop])
          · cases eq with
            | true =>
              exact hrest _ _ hn (honly hnew.2) hwr' (fun h0 => by cases h0) fun _ _ h0 => by cases h0
            | false =>
              exact hrest _ _ hn (hkeep hn) hf.wr id fun _ _ _ =>
                ⟨not_touches_of_ahciPortEq hsact, not_touches_of_ahciPortEq hci⟩

/-- The loop of `mmhandler2`. -/
theorem Handling.Fine.loop :
    ∀ (ps done : List (Fin numOfAhciPorts)) (g : Handling),
      (g.ad.stopped = none → g.Fine s a done) →
      (ps.foldl (completePort env a) g).ad.stopped = none →
      (ps.foldl (completePort env a) g).Fine s a (ps.reverse ++ done) := by
  intro ps
  induction ps with
  | nil => exact fun done g hg hstop => hg hstop
  | cons p ps ih =>
    intro done g hg hstop
    have := ih (p :: done) (completePort env a g p) (fun hn => Handling.Fine.step hg hn) hstop
    simpa using this

/-! ### The other parts of the handler -/

theorem Ok.readwrite (h : s.Ok) : (s.ahciReadwrite env a).1.Ok := by
  rw [ahciReadwrite]
  split
  · exact h
  · next p hport =>
    split
    · simp only
      have hset := h.setPort (p := p) (f := (·.setBits
        (fun i => decide (a.Touches a.portOff pxSact) && a.value i && env.taken i)
        fun i => decide (a.Touches a.portOff pxCi) && a.value i && env.taken i)) rfl
        ⟨(h.ports p).1, (h.ports p).2.setBits _ _⟩
      exact hset.setPort rfl (hset.ports p)
    · exact h

@[simp] theorem stopped_ahciReadwrite : (s.ahciReadwrite env a).1.stopped = s.stopped := by
  rw [ahciReadwrite]
  split
  · rfl
  · split <;> rfl

theorem port_ahciReadwrite :
    ((s.ahciReadwrite env a).1.ports q).port = (s.ports q).port ∧
      (s.ahciReadwrite env a).1.enabled = s.enabled := by
  rw [ahciReadwrite]
  split
  · exact ⟨rfl, rfl⟩
  · next p hport =>
    split
    · rcases eq_or_ne q p with rfl | hne
      · simp only [ports_setPort_self]
        exact ⟨rfl, rfl⟩
      · simp only [ports_setPort_of_ne hne]
        exact ⟨trivial, rfl⟩
    · exact ⟨rfl, rfl⟩

theorem ports_ahciProbe (wroteGhc ae : Bool) : (s.ahciProbe env wroteGhc ae).ports = s.ports := by
  rw [ahciProbe]
  split
  · rfl
  · split
    · rfl
    · split
      · split <;> rfl
      · split
        · rfl
        · split <;> rfl

/-- A read that is passed on shows only registers of a port without commands. -/
theorem readwrite_shows (hport : a.portNum = some p)
    (hread : a.wr = false →
      ¬s.Busy p ∨ ¬a.Touches a.portOff pxSact ∧ ¬a.Touches a.portOff pxCi) :
    ((s.ahciReadwrite env a).1.ports p).Shows (s.ahciReadwrite env a).2 := by
  simp only [ahciReadwrite, hport]
  cases hwr : a.wr with
  | true => exact PortState.shows_nothing _
  | false =>
    simp only [Bool.false_eq_true, if_false]
    rcases hread hwr with hfree | ⟨hsact, hci⟩
    · exact fun i hi => absurd ⟨i, hi⟩ hfree
    · simp only [hsact, hci, decide_false, Bool.false_eq_true, if_false]
      exact PortState.shows_nothing _

theorem Ok.probe (h : s.Ok) {wroteGhc ae : Bool}
    (hquiet : wroteGhc = true → ae = true ∨ ∀ p, ¬s.Busy p)
    (hoff : s.enabled = true → wroteGhc = true) : (s.ahciProbe env wroteGhc ae).Ok := by
  -- a change of the mode is allowed where no port has a command
  have hmode : (∀ p, ¬s.Busy p) → ∀ enabled notAhci,
      Ok { s with enabled := enabled, notAhci := notAhci } :=
    fun hfree enabled notAhci => ⟨h.ports, fun p hp => absurd hp (hfree p)⟩
  rw [ahciProbe]
  split
  · exact h
  · next hfast =>
    have hfree : ∀ p, ¬s.Busy p := by
      intro p hp
      have hen := (h.mode p hp).1
      rcases hquiet (hoff hen) with hae | hfree
      · exact hfast (by rw [hoff hen, hen, hae]; rfl)
      · exact hfree p hp
    split
    · exact hmode hfree _ _
    · split
      · split
        · exact hmode hfree _ _
        · exact h
      · split
        · exact h
        · split
          · exact hmode hfree _ _
          · exact hmode hfree _ _

/-- In AHCI mode. -/
structure Live (s : AhciData) : Prop extends s.Ok where
  enabled : s.enabled = true
  ahci : s.notAhci = false

theorem regCase_live {off len reg : Nat} {yes no : AhciData → AhciData}
    (h : s.stopped = none → s.Live)
    (hyes : ∀ t : AhciData, t.stopped = none → t.Live → (yes t).stopped = none → (yes t).Live)
    (hno : ∀ t : AhciData, t.stopped = none → t.Live → (no t).stopped = none → (no t).Live)
    (hstop : (regCase off len reg yes no s).stopped = none) :
    (regCase off len reg yes no s).Live := by
  rw [regCase] at hstop ⊢
  split at hstop
  · next hs =>
    rw [hstop] at hs
    cases hs
  · next hs =>
    have hn : s.stopped = none := by simpa using hs
    rw [if_neg hs]
    cases heq : ahciPortEq off len reg with
    | error f =>
      rw [heq] at hstop
      cases hstop
    | ok eq =>
      rw [heq] at hstop
      cases eq with
      | true => exact hyes s hn (h hn) hstop
      | false => exact hno s hn (h hn) hstop

theorem Live.writeCmd (h : s.Live) (hstop : (s.writeCmd p a).stopped = none) :
    (s.writeCmd p a).Live := by
  rw [AhciData.writeCmd] at hstop ⊢
  split at hstop
  · next hc =>
    rw [if_pos hc]
    exact ⟨(h.toOk.onPort (quiet_cancel h.toOk.runOf) hstop).1, h.enabled, h.ahci⟩
  · next hc =>
    rw [if_neg hc]
    exact h

/-- Starting commands of the slots `value`, of which the guest has seen nothing since. -/
theorem Live.started (h : s.Live) {f : PortRun → PortRun} {value : SlotBits}
    (hf : (f (s.runOf p)).Tracked)
    (hbits : ∀ i, (f (s.runOf p)).port.shadowbit i = true →
      (s.ports p).port.shadowbit i = true ∨ value i = true)
    (hstop : (s.onPort p f).stopped = none) :
    ((s.onPort p f).setPort p fun ps => { ps with
      seenSact i := ps.seenSact i && !value i
      seenCi i := ps.seenCi i && !value i }).Live := by
  refine ⟨⟨fun q => ?_, fun _ _ => ⟨h.enabled, h.ahci⟩⟩, h.enabled, h.ahci⟩
  rcases eq_or_ne q p with rfl | hne
  · rw [ports_setPort_self, ports_onPort_self]
    refine ⟨hf hstop, fun i hi => ?_⟩
    simp only [Bool.and_eq_true, Bool.not_eq_true']
    rcases hbits i hi with hold | hnew
    · obtain ⟨hsact, hci, hno⟩ := (h.ports q).2 i hold
      exact ⟨fun hs => hsact hs.1, fun hs => hci hs.1, fun hs => hno ⟨hs.1.1, hs.2.1⟩⟩
    · exact ⟨fun hs => absurd hs.2 (by rw [hnew]; decide),
        fun hs => absurd hs.2 (by rw [hnew]; decide), fun hs => absurd hs.1.2 (by rw [hnew]; decide)⟩
  · rw [ports_setPort_of_ne hne, ports_onPort_of_ne hne]
    exact h.ports q

theorem Live.writeCi (h : s.Live) (hstop : (s.writeCi env p a).stopped = none) :
    (s.writeCi env p a).Live := by
  rw [AhciData.writeCi, stopped_setPort] at hstop
  rw [AhciData.writeCi]
  refine h.started ?_ (fun i hi => ?_) hstop
  · exact PortRun.ahciCmdStart_tracked fun _ => (h.ports p).1
  · exact PortRun.shadowbit_of_ahciCmdStart hi

/-- The last part of a write. -/
theorem Live.writeRest (h : s.stopped = none → s.Live)
    (hghc : a.Touches a.offset globalGhc → a.value 31 = true ∨ ∀ p, ¬s.Busy p)
    (hstop : (s.writeRest env a).stopped = none) : (s.writeRest env a).Ok := by
  rw [AhciData.writeRest, regCase] at hstop ⊢
  split at hstop
  · next hs =>
    rw [hstop] at hs
    cases hs
  · next hs =>
    have hn : s.stopped = none := by simpa using hs
    have hlive := h hn
    rw [if_neg hs]
    cases heq : ahciPortEq a.offset a.len globalGhc with
    | error f =>
      rw [heq] at hstop
      cases hstop
    | ok eq =>
      cases eq with
      | true =>
        have htouch : a.Touches a.offset globalGhc := by
          rw [ahciPortEq] at heq
          split at heq
          · split at heq
            · next hoff hlen => exact ⟨by omega, by omega⟩
            · cases heq
          · split at heq
            · split at heq <;> cases heq
            · split at heq <;> cases heq
        exact hlive.toOk.probe (fun _ => hghc htouch) fun _ => rfl
      | false => exact hlive.toOk.readwrite

theorem le_offset_of_portNum (hport : a.portNum = some p) : 0x100 ≤ a.offset := by
  rw [Access.portNum] at hport
  split at hport
  · next h => omega
  · cases hport

theorem Live.handleWrite (h : s.Live)
    (hghc : a.Touches a.offset globalGhc → a.value 31 = true ∨ ∀ p, ¬s.Busy p)
    (hstop : (s.handleWrite env a).stopped = none) : (s.handleWrite env a).Ok := by
  rw [AhciData.handleWrite] at hstop ⊢
  cases hport : a.portNum with
  | none =>
    simp only [hport] at hstop
    exact Live.writeRest (fun _ => h) hghc hstop
  | some p =>
    simp only [hport] at hstop
    have hfar : ¬a.Touches a.offset globalGhc := fun ht =>
      absurd (le_offset_of_portNum hport) (by have hend : a.offset < 4 + 4 := ht.2; omega)
    have hid : ∀ t : AhciData, t.stopped = none → t.Live → (id t).stopped = none → (id t).Live :=
      fun t _ ht _ => ht
    -- the registers that are kept from the controller return at once
    have hkept : ∀ {reg : Nat} {no : AhciData → AhciData} {t : AhciData}, t.Live →
        ((no t).stopped = none → (no t).Ok) →
        (regCase a.portOff a.len reg id no t).stopped = none →
        (regCase a.portOff a.len reg id no t).Ok := by
      intro reg no t ht hno hstop
      rw [regCase] at hstop ⊢
      split at hstop
      · next hs =>
        rw [hstop] at hs
        cases hs
      · next hs =>
        rw [if_neg hs]
        cases heq : ahciPortEq a.portOff a.len reg with
        | error f =>
          rw [heq] at hstop
          cases hstop
        | ok eq =>
          rw [heq] at hstop
          cases eq with
          | true => exact ht.toOk
          | false => exact hno hstop
    refine hkept h (fun hstop => hkept h (fun hstop => ?_) hstop) hstop
    refine Live.writeRest (fun hn => ?_) (fun ht => absurd ht hfar) hstop
    refine regCase_live (fun hn => ?_) (fun t _ ht => ht.writeCi) hid hn
    refine regCase_live (fun hn => ?_) hid hid hn
    exact regCase_live (fun _ => h) (fun t _ ht => ht.writeCmd) hid hn

theorem Ok.handleRead (h : s.Ok)
    (hread : ∀ p, a.portNum = some p →
      ¬s.Busy p ∨ ¬a.Touches a.portOff pxSact ∧ ¬a.Touches a.portOff pxCi)
    (hstop : (s.handleRead env a).1.stopped = none) :
    (s.handleRead env a).1.Ok ∧
      ∀ p, a.portNum = some p → ((s.handleRead env a).1.ports p).Shows (s.handleRead env a).2 := by
  have hpass : (s.ahciReadwrite env a).1.Ok ∧ ∀ p, a.portNum = some p →
      ((s.ahciReadwrite env a).1.ports p).Shows (s.ahciReadwrite env a).2 :=
    ⟨h.readwrite, fun p hp => readwrite_shows hp fun _ => hread p hp⟩
  have hnothing : s.Ok ∧ ∀ p, a.portNum = some p → (s.ports p).Shows ⟨none, none⟩ :=
    ⟨h, fun p _ => (s.ports p).shows_nothing⟩
  rw [AhciData.handleRead] at hstop ⊢
  cases hport : a.portNum with
  | none =>
    rw [hport] at hpass
    exact hpass
  | some p =>
    simp only [hport] at hstop hpass hnothing ⊢
    cases hclb : ahciPortEq a.portOff a.len pxClb with
    | error f => rw [hclb] at hstop; cases hstop
    | ok eq =>
      cases eq with
      | true => exact hnothing
      | false =>
        cases hclbu : ahciPortEq a.portOff a.len pxClbu with
        | error f => rw [hclb, hclbu] at hstop; cases hstop
        | ok eq =>
          cases eq with
          | true => exact hnothing
          | false => exact hpass

/-- The handler keeps the invariant, and a read shows nothing that is not done. -/
theorem Ok.mmhandler2 (h : s.Ok)
    (hghc : a.wr = true → a.Touches a.offset globalGhc → a.value 31 = true ∨ ∀ p, ¬s.Busy p)
    (hstop : (s.mmhandler2 env a).1.stopped = none) :
    (s.mmhandler2 env a).1.Ok ∧
      ∀ p, a.portNum = some p → ((s.mmhandler2 env a).1.ports p).Shows (s.mmhandler2 env a).2 := by
  have hpass : (∀ p, ¬s.Busy p) → ∀ p, a.portNum = some p →
      ((s.ahciReadwrite env a).1.ports p).Shows (s.ahciReadwrite env a).2 :=
    fun hfree p hp => readwrite_shows hp fun _ => .inl (hfree p)
  rw [AhciData.mmhandler2] at hstop ⊢
  by_cases hnot : s.notAhci = true
  · rw [if_pos hnot]
    exact ⟨h.readwrite, hpass fun p hp => absurd (h.mode p hp).2 (by rw [hnot]; decide)⟩
  rw [if_neg hnot] at hstop ⊢
  by_cases hen : s.enabled = false
  · have hfree : ∀ p, ¬s.Busy p := fun p hp => absurd (h.mode p hp).1 (by rw [hen]; decide)
    rw [if_pos hen]
    have hok : (s.ahciReadwrite env a).1.Ok := h.readwrite
    have hshows := hpass hfree
    simp only
    split
    · rw [ports_ahciProbe]
      refine ⟨hok.probe (fun _ => .inr fun p hp => ?_) fun hon => ?_, hshows⟩
      · obtain ⟨i, hi⟩ := hp
        rw [port_ahciReadwrite.1] at hi
        exact hfree p ⟨i, hi⟩
      · rw [(port_ahciReadwrite (q := 0)).2, hen] at hon
        cases hon
    · exact ⟨hok, hshows⟩
  rw [if_neg hen] at hstop ⊢
  by_cases hrange : numOfAhciPorts ≤ a.offset / 0x80 - 2
  · rw [if_pos hrange] at hstop
    cases hstop
  rw [if_neg hrange] at hstop ⊢
  have hbegin : Handling.Fine s a [] ⟨s, ⟨none, none⟩, false⟩ :=
    ⟨h, fun _ hq => hq, ⟨rfl, rfl⟩, fun p _ => (s.ports p).shows_nothing, fun _ => rfl,
      fun _ hp => by cases hp⟩
  have hloop := @Handling.Fine.loop s env a (List.finRange numOfAhciPorts) [] _ fun _ => hbegin
  generalize (List.finRange numOfAhciPorts).foldl (completePort env a)
    ⟨s, ⟨none, none⟩, false⟩ = g at hstop hloop ⊢
  simp only at hstop ⊢
  by_cases hs : g.ad.stopped.isSome = true
  · rw [if_pos hs] at hstop
    rw [show g.ad.stopped = none from hstop] at hs
    cases hs
  rw [if_neg hs] at hstop ⊢
  have hfine := hloop (by simpa using hs)
  by_cases hans : g.answered = true
  · rw [if_pos hans]
    exact ⟨hfine.ok, hfine.shows⟩
  rw [if_neg hans] at hstop ⊢
  by_cases hlen : 0x80 < a.portOff + a.len
  · rw [if_pos hlen] at hstop
    cases hstop
  rw [if_neg hlen] at hstop ⊢
  by_cases hwr : a.wr = true
  · rw [if_pos hwr] at hstop ⊢
    have hlive : g.ad.Live := ⟨hfine.ok, hfine.mode.1.trans (by simpa using hen),
      hfine.mode.2.trans (by simpa using hnot)⟩
    refine ⟨hlive.handleWrite (fun ht => ?_) hstop, fun p _ => PortState.shows_nothing _⟩
    rcases hghc hwr ht with hae | hfree
    · exact .inl hae
    · exact .inr fun p hp => hfree p (hfine.busy p hp)
  · rw [if_neg hwr] at hstop ⊢
    refine hfine.ok.handleRead (fun p hp => ?_) hstop
    exact hfine.read p (by simp) hp (by simpa using hwr) (by simpa using hans)

theorem Ok.access (h : s.Ok)
    (hghc : a.wr = true → a.Touches a.offset globalGhc → a.value 31 = true ∨ ∀ p, ¬s.Busy p)
    (hstop : (s.access env a).stopped = none) : (s.access env a).Ok := by
  have hhandler := @mmhandler2 s env a h hghc
  rw [AhciData.access] at hstop ⊢
  generalize s.mmhandler2 env a = r at hhandler hstop ⊢
  obtain ⟨s', shown⟩ := r
  cases hport : a.portNum with
  | none =>
    simp only [hport] at hstop
    exact (hhandler hstop).1
  | some p =>
    simp only [hport] at hstop ⊢
    have hn : s'.stopped = none := by
      split at hstop
      · exact hstop
      · exact hstop
    obtain ⟨hok, hshows⟩ := hhandler hn
    rw [if_pos (by rw [hn]; rfl)]
    exact hok.setPort rfl ⟨(hok.ports p).1, (hok.ports p).2.note (hshows p hport)⟩

end AhciData

/-! ### Runs -/

/-- The guest does not take the controller out of AHCI mode while a command runs. -/
def StaysAhci (s : AhciData) : AhciEvent → Prop
  | .access a _ => a.wr = true → a.Touches a.offset globalGhc → a.value 31 = true ∨ ∀ p, ¬s.Busy p
  | _ => True

theorem ahciMachine_ok {s : AhciData} (h : ahciMachine.ReachableWhen StaysAhci s) :
    s.stopped = none → s.Ok := by
  refine h.invariant (I := fun s => s.stopped = none → s.Ok) ?_ ?_
  · rintro s ⟨-, hports⟩ -
    refine ⟨fun p => ⟨fun i => ?_, fun i hi => ?_⟩, fun p ⟨i, hi⟩ => ?_⟩
    · obtain ⟨hslot, hbit, hissued⟩ := hports p i
      rw [hslot, hissued]
      exact ⟨Slot.Sound.initial, hbit⟩
    · rw [(hports p i).2.1] at hi
      cases hi
    · rw [(hports p i).2.1] at hi
      cases hi
  · rintro s e s' hok hstays hstep hn
    simp only [ahciMachine] at hstep
    split at hstep
    · cases hstep
    next hs =>
    have hok : s.Ok := hok (by simpa using hs)
    cases e with
    | access a env =>
      cases hstep
      exact hok.access hstays hn
    | poll p again =>
      cases hstep
      exact (hok.onPort (AhciData.quiet_complete hok.runOf _ _ _) hn).1
    | device p sact ci =>
      cases hstep
      exact hok.setPort rfl ⟨(hok.ports p).1, (hok.ports p).2.clear _ _⟩
    | deviceData p i data =>
      simp only at hstep
      split at hstep
      · next hreads =>
        cases hstep
        exact (hok.onPort (AhciData.quiet_deviceWrite hok.runOf hreads.2 data) hn).1
      · cases hstep
    | guest mem =>
      cases hstep
      exact ⟨hok.ports, hok.mode⟩

/-- What the guest's memory holds after a completed read: the device's sectors, decrypted, are stored
into the scatter list, so that a buffer that no later one overlaps holds its piece of them. -/
def Issued.Filled (c : Issued) (done : Completed) : Prop :=
  let bytes := c.decrypted done.device (done.slot.dmabuf.getD [])
  done.result.mem = (buffers c.prdt).scatter bytes done.mem ∧
    ∀ pre prd post, c.prdt = pre ++ prd :: post →
      (∀ b ∈ buffers post, ScatterList.Apart prd.phys prd.len b) →
      done.result.mem.read prd.phys prd.len = (bytes.drop (totalLen pre)).take prd.len

theorem Tracks.filled {c : Issued} {done : Completed} (hs : done.slot.Sound)
    (ht : Tracks done.slot c) (hrw : c.IsRw) (hw : c.reading.hdr.w = false)
    (hprdtl : done.reading.prdtl = c.reading.hdr.prdtl)
    (hprdt : done.reading.prdt = c.reading.counted) (hfault : done.result.fault = none) :
    c.Filled done := by
  obtain ⟨hlen, hmem⟩ := completion_reads hs ht hrw hw hprdtl hprdt hfault
  refine ⟨hmem, fun pre prd post hsplit hpost => ?_⟩
  have hbuffers : buffers c.prdt = buffers pre ++ (prd.phys, prd.len) :: buffers post := by
    rw [hsplit, buffers, buffers, buffers, List.map_append, List.map_cons]
  rw [Completed.result, hmem, hbuffers]
  refine ScatterList.read_scatter _ _ hpost _ ?_ _
  rw [hlen, ← hbuffers]

/-- In a run in which the controller stays in AHCI mode, a read or write command that the guest
leaves alone: as long as it runs, the device is given the guest's buffers with the sector `k`
encrypted at the command's address plus `k`; once the guest has read both of its bits as clear it
does not run any more, so that it was completed, or cancelled by a write of `PxCMD`; and where it was
completed, the guest's buffers were filled with the device's sectors, decrypted in the same way. -/
theorem dataPath {s : AhciData} (h : ahciMachine.ReachableWhen StaysAhci s)
    (hgoes : s.stopped = none) {p : Fin numOfAhciPorts} {i : Fin numOfCommandHeader} {c : Issued}
    (hc : (s.ports p).issued i = some c) (hrw : c.IsRw) (hsteady : c.Steady) :
    (c.reading.hdr.w = true → c.outcome = .running →
      ((s.ports p).port.slots i).dmabuf.getD [] = c.encrypted) ∧
    ((s.ports p).seenSact i = true → (s.ports p).seenCi i = true →
      c.outcome = .cancelled ∨ ∃ done, c.outcome = .completed done) ∧
    (∀ done, c.outcome = .completed done → c.reading.hdr.w = false →
      done.reading.prdtl = c.reading.hdr.prdtl → done.reading.prdt = c.reading.counted →
      c.Filled done) := by
  obtain ⟨htracked, hhidden⟩ := (ahciMachine_ok h hgoes).ports p
  have hknows := (htracked i).2
  rw [hc] at hknows
  simp only [Port.Knows] at hknows
  refine ⟨fun hw hout => ?_, fun hsact hci => ?_, fun done hout hw hprdtl hprdt => ?_⟩
  · rw [hout] at hknows
    exact hknows.2.given hrw hsteady hw
  · cases hout : c.outcome with
    | running =>
      rw [hout] at hknows
      exact absurd ⟨hsact, hci⟩ (hhidden i hknows.1).2.2
    | cancelled => exact .inl rfl
    | completed done => exact .inr ⟨done, rfl⟩
  · rw [hout] at hknows
    obtain ⟨-, hfault, hs, ht⟩ := hknows
    exact ht.filled hs hrw hw hprdtl hprdt hfault

/-- A read of one sector. -/
def sectorReading : StartReading where
  hdr := ⟨false, false, 1⟩
  counted _ := ⟨0x1000, 0, 0x1FF, false⟩
  table :=
    { cfis := { Slot.initial.cfis with
        fisType := 0x27, command := 0xC8, devHead := 0x40, sectorCount := 1 }
      acmd _ := 0
      prdt _ := ⟨0x1000, 0, 0x1FF, false⟩ }
  fresh _ := 0
  stale := ⟨.command, .ready, .read, 0, 0, 0⟩

/-- The guest's memory stays as it is, and the mode is what is written. -/
def plainEnv : Env where
  again _ _ := ⟨1, sectorReading.counted⟩
  starts _ := sectorReading
  doneSact _ _ := false
  doneCi _ _ := false
  taken _ := true
  ae := false
  capable := true

def writeOf (offset : Nat) (value : SlotBits) : AhciEvent := .access ⟨offset, true, value, 4⟩ plainEnv

def readOf (offset : Nat) : AhciEvent := .access ⟨offset, false, fun _ => false, 4⟩ plainEnv

/-- The device is done with the first port. -/
def deviceDone : AhciEvent := .device 0 (fun _ => true) fun _ => true

/-- A controller in AHCI mode before its first command. -/
def AhciData.idle : AhciData where
  enabled := true
  notAhci := false
  ports _ := ⟨PortRun.fresh.port, ⟨fun _ => false, fun _ => false, true⟩, fun _ => none,
    fun _ => false, fun _ => false⟩
  mem _ := 0
  stopped := none

theorem idle_reachable {C : AhciData → AhciEvent → Prop} : ahciMachine.ReachableWhen C .idle :=
  .init ⟨rfl, fun _ _ => ⟨rfl, rfl, rfl⟩⟩

/-- An access that does not touch `GHC`. -/
theorem staysAhci_of_far {a : Access} {env : Env} (h : ¬a.Touches a.offset globalGhc)
    (s : AhciData) : StaysAhci s (.access a env) := fun _ ht => absurd ht h

set_option maxRecDepth 20000 in
theorem dataPath_read : ∃ s c done,
    ahciMachine.run .idle [writeOf 0x138 (· == 0), deviceDone, readOf 0x138, readOf 0x134] = some s ∧
      (s.ports 0).issued 0 = some c ∧ c.outcome = .completed done ∧ c.Filled done := by
  have hrun : ∃ s,
      ahciMachine.run .idle [writeOf 0x138 (· == 0), deviceDone, readOf 0x138, readOf 0x134] =
        some s ∧ s.stopped = none ∧ ∃ c done, (s.ports 0).issued 0 = some c ∧
          c.reading = sectorReading ∧ c.outcome = .completed done ∧
          done.reading = ⟨1, sectorReading.counted⟩ :=
    ⟨_, rfl, rfl, _, _, rfl, rfl, rfl, rfl⟩
  obtain ⟨s, hrun, hgoes, c, done, hc, hreading, hout, hagain⟩ := hrun
  have hstays : ∀ e ∈ [writeOf 0x138 (· == 0), deviceDone, readOf 0x138, readOf 0x134],
      ∀ t, StaysAhci t e := by
    intro e he t
    simp only [List.mem_cons, List.not_mem_nil, or_false] at he
    rcases he with rfl | rfl | rfl | rfl
    · exact staysAhci_of_far (by decide) t
    · trivial
    · exact staysAhci_of_far (by decide) t
    · exact staysAhci_of_far (by decide) t
  have hrw : c.IsRw := by
    rw [Issued.IsRw, hreading]
    exact ⟨rfl, by rw [CmdFis.IsRw]; decide⟩
  have hsteady : c.Steady := by
    rw [Issued.Steady, hreading]
    rfl
  refine ⟨s, c, done, hrun, hc, hout, ?_⟩
  refine (dataPath (idle_reachable.run _ hstays hrun) hgoes hc hrw hsteady).2.2 done hout ?_ ?_ ?_
  · rw [hreading]
    rfl
  · rw [hreading, hagain]
    rfl
  · rw [hreading, hagain]

set_option maxRecDepth 20000 in
/-- A guest that leaves AHCI mode while its read runs sees it done, and has no data. -/
theorem leaving_shows_done : ¬∀ s, ahciMachine.Reachable s → s.stopped = none →
    ∀ p i c, (s.ports p).issued i = some c → c.IsRw → c.Steady →
      (s.ports p).seenSact i = true → (s.ports p).seenCi i = true →
      c.outcome = .cancelled ∨ ∃ done, c.outcome = .completed done := by
  intro h
  have hrun : ∃ s, ahciMachine.run .idle [writeOf 0x138 (· == 0), writeOf 0x04 fun _ => false,
      deviceDone, readOf 0x138, readOf 0x134] = some s ∧ s.stopped = none ∧
        (s.ports 0).seenSact 0 = true ∧ (s.ports 0).seenCi 0 = true ∧
        ∃ c, (s.ports 0).issued 0 = some c ∧ c.reading = sectorReading ∧ c.outcome = .running :=
    ⟨_, rfl, rfl, rfl, rfl, _, rfl, rfl, rfl⟩
  obtain ⟨s, hrun, hgoes, hsact, hci, c, hc, hreading, hout⟩ := hrun
  have hrw : c.IsRw := by
    rw [Issued.IsRw, hreading]
    exact ⟨rfl, by rw [CmdFis.IsRw]; decide⟩
  have hsteady : c.Steady := by
    rw [Issued.Steady, hreading]
    rfl
  have hreach : ahciMachine.Reachable s := idle_reachable.run _ (fun _ _ _ => trivial) hrun
  rcases h s hreach hgoes 0 0 c hc hrw hsteady hsact hci with hout' | ⟨done, hout'⟩
  · rw [hout] at hout'
    cases hout'
  · rw [hout] at hout'
    cases hout'

end OnDemandVirt.Ahci
