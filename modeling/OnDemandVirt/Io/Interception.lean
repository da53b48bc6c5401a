import OnDemandVirt.Io.Dispatch

/-!
# Ports that stay intercepted

A port gets `core_iofunc` when a handler is registered for it or moved to it, and it loses it when
an access that no handler is for is passed through, together with the ports behind it that the
access reaches. In the runs that `KeepsHooks` describes, the ports of all enabled handlers have
`core_iofunc` in every state (`intercepted_of_keepsHooks`).
-/

namespace OnDemandVirt.Io

open Lib Vmm

variable {H : Type} {s s' : Handlers H}

/-! ### What is to be shown -/

structure Intercepted (s : Handlers H) : Prop where
  /-- The ports of enabled handlers have `core_iofunc`, and accesses leave the guest. -/
  hooked : ∀ port hd, s.covered port hd = true →
    s.ports.iofunc port = .coreIofunc ∧ s.ports.iobmp port = true
  /-- An access that starts at such a port is given to the first handler that is for it. -/
  reaches : ∀ c type port hd, s.fault = none → s.dispatch c = none → s.covered port hd = true →
    ∃ s' d, s.step (.access c type port) = some s' ∧ s'.dispatch c = some d ∧
      s.covered port d.hd = true ∧ d.hd ≤ hd ∧ ∀ k < d.hd, s.covered port k = false

/-- A call or an access that hides no handler. No handler is given no ports at port 0, whose last
port would be 0xFFFF. Where `core_iofunc` gets an access and no handler is for its port, none is
for the ports behind it that the access reaches. The calls for virtio are not among the calls
here. -/
def KeepsHooks (s : Handlers H) : IoEvent H → Prop
  | .register start num _ _ _ _ => start ≠ 0 ∨ num ≠ 0
  | .modify _ start num => start ≠ 0 ∨ num ≠ 0
  | .registerVirtio => False
  | .unregisterVirtio => False
  | .access _ type port => s.ports.exits type port = true ∧ s.ports.iofunc port = .coreIofunc →
      (∀ k, s.covered port k = false) →
        ∀ i < iotypeGetSize type, ∀ k, s.covered (port + BitVec.ofNat 16 i) k = false
  | _ => True

/-! ### Ports -/

theorem setIofuncs_of_mem {start port : Port} {func : IoFunc} {num : Nat} {p : Ports}
    (h : ∃ i < num, port = start + BitVec.ofNat 16 i) :
    (setIofuncs start func num p).iofunc port = func ∧
      (setIofuncs start func num p).iobmp port = decide (func ≠ .doIopassDefault) := by
  induction num with
  | zero =>
    obtain ⟨i, hi, -⟩ := h
    exact absurd hi (Nat.not_lt_zero i)
  | succ num ih =>
    simp only [setIofuncs, setIofunc]
    by_cases hport : port = start + BitVec.ofNat 16 num
    · rw [hport, Function.update_self, Function.update_self]
      exact ⟨rfl, rfl⟩
    · rw [Function.update_of_ne hport, Function.update_of_ne hport]
      obtain ⟨i, hi, rfl⟩ := h
      refine ih ⟨i, ?_, rfl⟩
      rcases Nat.eq_or_lt_of_le (Nat.le_of_lt_succ hi) with rfl | hlt
      · exact absurd rfl hport
      · exact hlt

theorem setIofuncs_of_notMem {start port : Port} {func : IoFunc} {num : Nat} {p : Ports}
    (h : ∀ i < num, port ≠ start + BitVec.ofNat 16 i) :
    (setIofuncs start func num p).iofunc port = p.iofunc port ∧
      (setIofuncs start func num p).iobmp port = p.iobmp port := by
  induction num with
  | zero => exact ⟨rfl, rfl⟩
  | succ num ih =>
    simp only [setIofuncs, setIofunc]
    have hport := h num (Nat.lt_succ_self num)
    rw [Function.update_of_ne hport, Function.update_of_ne hport]
    exact ih fun i hi => h i (Nat.lt_succ_of_lt hi)

/-- The range of an enabled handler has the ports that were set. -/
theorem mem_range {start port : Port} {num : Nat} (hnum : start ≠ 0 ∨ num ≠ 0)
    (henabled : start ≤ start + BitVec.ofNat 16 num - 1) (hlo : start ≤ port)
    (hhi : port ≤ start + BitVec.ofNat 16 num - 1) :
    ∃ i < num, port = start + BitVec.ofNat 16 i := by
  refine ⟨(port - start).toNat, ?_, ?_⟩
  · by_contra hge
    rw [Nat.not_lt] at hge
    have hsmall : num < 2 ^ 16 := lt_of_le_of_lt hge (port - start).isLt
    have hzero : start = 0 ↔ start.toNat = 0 := by
      constructor
      · rintro rfl
        rfl
      · exact fun h => BitVec.eq_of_toNat_eq h
    rw [ne_eq, hzero] at hnum
    rw [BitVec.le_def] at henabled hlo hhi
    rw [BitVec.toNat_sub_of_le (BitVec.le_def.mpr hlo)] at hge
    have hs := start.isLt
    have hend : (start + BitVec.ofNat 16 num - 1).toNat = (start.toNat + num + 65535) % 65536 := by
      rw [BitVec.toNat_sub, BitVec.toNat_add, BitVec.toNat_ofNat]
      show (65536 - 1 + (start.toNat + num % 65536) % 65536) % 65536 = _
      omega
    rw [hend] at henabled hhi
    omega
  · rw [BitVec.ofNat_toNat, BitVec.setWidth_eq]
    bv_omega

/-! ### The invariant -/

structure HookInv (s : Handlers H) : Prop where
  count : s.hdNum = Slots.count s.table
  hooked : ∀ port hd, s.covered port hd = true →
    s.ports.iofunc port = .coreIofunc ∧ s.ports.iobmp port = true
  /-- Descriptors are below `next`. -/
  fresh : ∀ k a, s.table k = some a → a < s.next

/-- What happens to dispatches and to the history does not matter. -/
theorem HookInv.congr (h : HookInv s) (hnum : s'.hdNum = s.hdNum) (htable : s'.table = s.table)
    (hdesc : s'.desc = s.desc) (hports : s'.ports = s.ports) (hnext : s'.next = s.next) :
    HookInv s' where
  count := by rw [hnum, htable]; exact h.count
  hooked port hd hcov := by
    rw [hports]
    refine h.hooked port hd ?_
    rwa [Handlers.covered, htable, hdesc] at hcov
  fresh := by rw [htable, hnext]; exact h.fresh

theorem Handlers.Init.hookInv (h : s.Init) : HookInv s where
  count := h.inv.count
  hooked port hd hcov := by
    rw [Handlers.covered, h.table] at hcov
    cases hcov
  fresh k a hk := by
    rw [h.table] at hk
    cases hk

/-- A handler that is set up hooks its range. -/
theorem hooked_setIofuncs {d : HandlerDescriptor H} {start port : Port} {num : Nat} {p : Ports}
    (hnum : start ≠ 0 ∨ num ≠ 0) (hstart : d.start = start)
    (hend : d.endPort = start + BitVec.ofNat 16 num - 1)
    (henabled : d.enabled = decide (start ≤ start + BitVec.ofNat 16 num - 1))
    (hcov : d.covers port = true) :
    (if d.enabled then setIofuncs start .coreIofunc num p else p).iofunc port = .coreIofunc ∧
      (if d.enabled then setIofuncs start .coreIofunc num p else p).iobmp port = true := by
  simp only [HandlerDescriptor.covers, Bool.and_eq_true, decide_eq_true_eq] at hcov
  obtain ⟨⟨hon, hlo⟩, hhi⟩ := hcov
  rw [hstart] at hlo
  rw [hend] at hhi
  rw [if_pos hon]
  rw [henabled, decide_eq_true_eq] at hon
  exact setIofuncs_of_mem (mem_range hnum hon hlo hhi)

/-- Hooking more ports unhooks none. -/
theorem hooked_mono {start port : Port} {num : Nat} {p : Ports} {b : Bool}
    (h : p.iofunc port = .coreIofunc ∧ p.iobmp port = true) :
    (if b then setIofuncs start .coreIofunc num p else p).iofunc port = .coreIofunc ∧
      (if b then setIofuncs start .coreIofunc num p else p).iobmp port = true := by
  split
  · by_cases hmem : ∃ i < num, port = start + BitVec.ofNat 16 i
    · exact setIofuncs_of_mem hmem
    · have hno : ∀ i < num, port ≠ start + BitVec.ofNat 16 i := fun i hi he => hmem ⟨i, hi, he⟩
      rw [(setIofuncs_of_notMem hno).1, (setIofuncs_of_notMem hno).2]
      exact h
  · exact h

theorem HookInv.register (h : HookInv s) {start : Port} {num : Nat} (handler : H) (high : Bool)
    (name : String) (oom : Bool) (hnum : start ≠ 0 ∨ num ≠ 0) :
    HookInv (s.coreIoRegisterHandler start num handler high name oom) := by
  unfold Handlers.coreIoRegisterHandler
  cases oom with
  | true => exact h.congr rfl rfl rfl rfl rfl
  | false =>
    simp only [Bool.false_eq_true, if_false]
    split
    next => exact h.congr rfl rfl rfl rfl rfl
    next hd hfree =>
      refine ⟨?_, fun port k hcov => ?_, fun k a hk => ?_⟩
      · show s.hdNum + 1 = ((Slots.count (Function.update s.table hd (some s.next)) : Nat) : Int)
        rw [Slots.count_fill (freeSlot_spec hfree), h.count]
        rfl
      · by_cases hk : k = hd
        · subst hk
          simp only [Handlers.covered, Function.update_self, Option.any_some] at hcov
          exact hooked_setIofuncs hnum rfl rfl rfl hcov
        · have hold : s.covered port k = true := by
            simp only [Handlers.covered, Function.update_of_ne hk] at hcov ⊢
            cases htable : s.table k with
            | none =>
              rw [htable] at hcov
              cases hcov
            | some a =>
              rw [htable] at hcov
              have hne : a ≠ s.next := Nat.ne_of_lt (h.fresh k a htable)
              simpa only [Option.any_some, Function.update_of_ne hne] using hcov
          exact hooked_mono (h.hooked port k hold)
      · by_cases hk' : k = hd
        · subst hk'
          simp only [Function.update_self, Option.some.injEq] at hk
          exact hk ▸ Nat.lt_succ_self _
        · simp only [Function.update_of_ne hk'] at hk
          exact Nat.lt_succ_of_lt (h.fresh k a hk)

theorem HookInv.modify (h : HookInv s) (hd : Int) {start : Port} {num : Nat}
    (hnum : start ≠ 0 ∨ num ≠ 0) : HookInv (s.coreIoModifyHandler hd start num) := by
  unfold Handlers.coreIoModifyHandler
  split
  next => exact h.congr rfl rfl rfl rfl rfl
  next k₀ a₀ hslot =>
    refine ⟨h.count, fun port k hcov => ?_, h.fresh⟩
    simp only [Handlers.covered] at hcov
    cases htable : s.table k with
    | none =>
      rw [htable] at hcov
      cases hcov
    | some a =>
      rw [htable] at hcov
      by_cases ha : a = a₀
      · subst ha
        simp only [Option.any_some, Function.update_self] at hcov
        exact hooked_setIofuncs hnum rfl rfl rfl hcov
      · simp only [Option.any_some, Function.update_of_ne ha] at hcov
        refine hooked_mono (h.hooked port k ?_)
        rw [Handlers.covered, htable]
        exact hcov

theorem HookInv.unregister (h : HookInv s) (hd : Int) :
    HookInv (s.coreIoUnregisterHandler hd) := by
  unfold Handlers.coreIoUnregisterHandler
  split
  next => exact h.congr rfl rfl rfl rfl rfl
  next k₀ a₀ hslot =>
    have hold : ∀ k a, Function.update s.table k₀ none k = some a → s.table k = some a :=
      fun k a hk => by
        by_cases hk₀ : k = k₀
        · rw [hk₀, Function.update_self] at hk
          cases hk
        · rwa [Function.update_of_ne hk₀] at hk
    refine ⟨?_, fun port k hcov => h.hooked port k ?_, fun k a hk => h.fresh k a (hold k a hk)⟩
    · have hcount := Slots.count_empty (slot_ok hslot)
      show s.hdNum - 1 = ((Slots.count (Function.update s.table k₀ none) : Nat) : Int)
      rw [h.count]
      omega
    · obtain ⟨a, ha, hcov⟩ := (Option.any_eq_true _ _).mp hcov
      rw [Handlers.covered, hold k a ha]
      exact hcov

/-! ### Accesses -/

theorem one_le_iotypeGetSize (type : IoType) : 1 ≤ iotypeGetSize type := by
  cases type <;> decide

/-- An access to a port that is hooked gets to `core_iofunc`. -/
theorem access_of_hooked {port : Port} (c : CpuId) (type : IoType)
    (h : s.ports.iofunc port = .coreIofunc ∧ s.ports.iobmp port = true) :
    s.access c type port = s.goOn c type port [] (s.covering port) (s.scan port 64 0) := by
  have hexits : s.ports.exits type port = true := by
    rw [Ports.exits, List.any_eq_true]
    refine ⟨0, List.mem_range.mpr (one_le_iotypeGetSize type), ?_⟩
    simpa using h.2
  rw [Handlers.access, if_pos ⟨hexits, h.1⟩]

theorem HookInv.access (h : HookInv s) {c : CpuId} {type : IoType} {port : Port}
    (hC : KeepsHooks s (.access c type port)) : HookInv (s.access c type port) := by
  unfold Handlers.access
  split
  next hcore =>
    have hfinds := scan_finds h.count port 64 0 (Nat.le_refl _) rfl
    cases hscan : s.scan port 64 0 with
    | outOfBounds => exact h.congr rfl rfl rfl rfl rfl
    | calls i hd => exact h.congr rfl rfl rfl rfl rfl
    | finished =>
      rw [hscan] at hfinds
      have hnone := hC hcore fun k => hfinds k (Nat.zero_le _)
      rw [Handlers.goOn, if_pos rfl]
      refine ⟨h.count, fun port' k hcov => ?_, h.fresh⟩
      have hcov : s.covered port' k = true := hcov
      -- a port that is passed through has no handler
      have hno : ∀ i < iotypeGetSize type, port' ≠ port + BitVec.ofNat 16 i := by
        rintro i hi rfl
        rw [hnone i hi k] at hcov
        cases hcov
      have hkept := h.hooked port' k hcov
      show (setIofuncs _ _ _ s.ports).iofunc port' = _ ∧ (setIofuncs _ _ _ s.ports).iobmp port' = _
      rw [(setIofuncs_of_notMem hno).1, (setIofuncs_of_notMem hno).2]
      exact hkept
  next => exact h

/-- After an answer no port is passed through. -/
theorem HookInv.answer (h : HookInv s) (c : CpuId) (d : Dispatch) (r : CoreIoRet) :
    HookInv (s.answer c d r) := by
  cases r with
  | next =>
    simp only [Handlers.answer]
    cases s.scan d.port (63 - d.hd) (d.i + 1) with
    | finished =>
      rw [Handlers.goOn, if_neg (by simp)]
      exact h.congr rfl rfl rfl rfl rfl
    | outOfBounds => exact h.congr rfl rfl rfl rfl rfl
    | calls => exact h.congr rfl rfl rfl rfl rfl
  | _ => exact h.congr rfl rfl rfl rfl rfl

theorem HookInv.intercepted (h : HookInv s) : Intercepted s where
  hooked := h.hooked
  reaches c type port hd hfault hidle hcov := by
    have hstep : s.step (.access c type port) = some (s.access c type port) := by
      rw [Handlers.step, if_neg (not_not_intro hfault), if_pos hidle]
    have hfinds := scan_finds h.count port 64 0 (Nat.le_refl _) rfl
    have haccess := access_of_hooked c type (h.hooked port hd hcov)
    cases hscan : s.scan port 64 0 with
    | outOfBounds =>
      rw [hscan] at hfinds
      exact hfinds.elim
    | finished =>
      rw [hscan] at hfinds
      rw [hfinds hd (Nat.zero_le _)] at hcov
      cases hcov
    | calls i k =>
      rw [hscan] at hfinds haccess
      obtain ⟨-, hk, hbefore⟩ := hfinds
      refine ⟨_, { port, i, hd := k, answers := [], kept := s.covering port }, hstep, ?_, hk, ?_,
        fun j hj => hbefore j (Nat.zero_le _) hj⟩
      · rw [haccess]
        exact Function.update_self ..
      · by_contra hlt
        rw [hbefore hd (Nat.zero_le _) (Fin.not_le.mp hlt)] at hcov
        cases hcov

/-! ### Runs -/

theorem HookInv.step {e : IoEvent H} (h : HookInv s) (hC : KeepsHooks s e)
    (hs : s.step e = some s') : HookInv s' := by
  unfold Handlers.step at hs
  split at hs
  · cases hs
  · cases e with
    | register start num handler high name oom =>
      cases hs
      exact (h.register handler high name oom hC).congr rfl rfl rfl rfl rfl
    | modify hd start num =>
      cases hs
      exact (h.modify hd hC).congr rfl rfl rfl rfl rfl
    | unregister hd =>
      cases hs
      exact (h.unregister hd).congr rfl rfl rfl rfl rfl
    | registerVirtio => exact hC.elim
    | unregisterVirtio => exact hC.elim
    | access c type port =>
      dsimp only at hs
      split at hs
      · cases hs
        exact h.access hC
      · cases hs
    | answer c r =>
      obtain ⟨d, -, rfl⟩ := Option.map_eq_some_iff.mp hs
      exact h.answer c d r

/-- In every run of such calls and accesses no enabled handler loses a port. -/
theorem intercepted_of_keepsHooks (s : Handlers H) (h : (ioMachine H).ReachableWhen KeepsHooks s) :
    Intercepted s :=
  (h.invariant (I := HookInv) (fun _ => Handlers.Init.hookInv) fun _ _ _ hs hC hstep =>
    hs.step hC hstep).intercepted

/-! ### Two runs -/

/-- A handler for two ports. -/
theorem intercepted_keyboard : ∃ s : Handlers Unit,
    (ioMachine Unit).step noHandlers (.register 0x60 2 () true "kbd" false) = some s ∧
      s.covered 0x61 0 = true ∧ Intercepted s :=
  ⟨_, rfl, by decide, intercepted_of_keepsHooks _
    (.step (e := .register 0x60 2 () true "kbd" false) (.init noHandlers_init)
      (by exact .inl (by decide)) rfl)⟩

/-- Handlers for ports 0x60 and 0x61; the first one is unregistered, and port 0x60 is read with 16
bits. -/
def hiddenHandler : List (IoEvent Unit) :=
  [.register 0x60 1 () false "a" false, .register 0x61 1 () false "b" false, .unregister 10,
    .access 0 .inw 0x60]

theorem not_intercepted_hiddenHandler : ¬ ∀ s : Handlers Unit,
    (ioMachine Unit).ReachableWhen (fun _ e => e ≠ .registerVirtio ∧ e ≠ .unregisterVirtio) s →
      Intercepted s := by
  intro hall
  obtain ⟨s, hrun, hfields⟩ := Option.map_eq_some_iff.mp
    (show ((ioMachine Unit).run noHandlers hiddenHandler).map
      (fun s => (s.covered 0x61 11, s.ports.iofunc 0x61)) = some (true, .doIopassDefault) by decide)
  have hs : (ioMachine Unit).ReachableWhen
      (fun _ e => e ≠ .registerVirtio ∧ e ≠ .unregisterVirtio) s := by
    refine (Machine.ReachableWhen.init noHandlers_init).run _ (fun e he t => ?_) hrun
    simp only [hiddenHandler, List.mem_cons, List.not_mem_nil, or_false] at he
    rcases he with rfl | rfl | rfl | rfl <;> exact ⟨nofun, nofun⟩
  rw [Prod.mk.injEq] at hfields
  have hhooked := ((hall s hs).hooked 0x61 11 hfields.1).1
  rw [hfields.2] at hhooked
  cases hhooked

end OnDemandVirt.Io
