import OnDemandVirt.Vmm.ProcessRuns

/-!
# The system calls of the processes

What the system calls do with their raw register arguments: which of them check an index before
they use it. An access outside of `msgdsc[]` stops the call as `Stop.outside`.
-/

namespace OnDemandVirt.Vmm

/-- How a system call can go wrong. -/
inductive Stop
  /-- It uses an entry of the table of `pid` that does not exist. -/
  | outside (pid : Pid) (desc : Int)
  | panic

/-- What a system call gives back. -/
inductive SysRet
  /-- The value in `%rax`. -/
  | value (n : Int)
  /-- What the process that is called returns. -/
  | ofCallee
  /-- It does not return: the process is left. -/
  | left

/-- The registers a system call looks at. -/
structure SyscallRegs where
  rbx : BitVec 64
  rsi : BitVec 64
  rdi : BitVec 64

/-- `struct msgbuf` of a process, as far as it is checked. -/
structure UserBuf where
  base : BitVec 64
  len : BitVec 32

/-- What the system calls find outside of their tables. -/
structure SyscallEnv where
  /-- The name at an address of the process, copied and cut off. -/
  name : BitVec 64 → String
  /-- The arguments of `sys_msgsendbuf` at an address: `bufcnt` and `buf`. -/
  args : BitVec 64 → BitVec 32 × BitVec 64
  buf : BitVec 64 → Nat → UserBuf
  /-- `_builtin_find`, and what `process_load` returns for the program. -/
  builtin : String → Option (BitVec 64)
  allocFails : Bool
  /-- `sys_setlimit` can map the stack. -/
  limitMaps : Bool
  call : Procs.CallEnv
  /-- What memory holds outside of a table. -/
  beyond : MsgTarget

/-- `is_range_valid`. -/
def isRangeValid (addr : BitVec 64) (len : BitVec 32) : Bool :=
  if 0x40000000#64 ≤ addr then false
  else if 0x40000000#64 ≤ addr + len.setWidth 64 then false
  else if 0x40000000#32 ≤ len then false
  else true

/-- `(int)si`. -/
def toCInt (a : BitVec 64) : Int := (a.setWidth 32).toInt

namespace Procs

variable (s : Procs) (env : SyscallEnv) (c : Tid) (k : Pid)

/-- What opening or registering returns. -/
def descRet (r : Option Desc) : SysRet := .value (r.elim (-1) fun i => (i : Nat))

/-- `sys_msgsetfunc`. -/
def sysMsgsetfunc (si di : BitVec 64) : Except Stop (Procs × SysRet) :=
  if (s.process k).setlimit then .ok (s, .value (-1))
  else if h : si < 32#64 then
    let i : Desc := ⟨si.toNat, by bv_omega⟩
    .ok (s.setFunc k i di, .value ((s.process k).msgdsc i).func.toInt)
  else .ok (s, .value 0)

/-- `sys_msgregister`. -/
def sysMsgregister (si di : BitVec 64) : Except Stop (Procs × SysRet) :=
  if !isRangeValid si 16 then .ok (s, .value (-1))
  else if (s.process k).setlimit then .ok (s, .value (-1))
  else
    let r := s.msgregister k (env.name si) di
    .ok (r.1, descRet r.2)

/-- `sys_msgopen`. -/
def sysMsgopen (si : BitVec 64) : Except Stop (Procs × SysRet) :=
  if !isRangeValid si 16 then .ok (s, .value (-1))
  else if (s.process k).setlimit then .ok (s, .value (-1))
  else
    match s.findName (env.name si) with
    | none => .ok (s, .value (-1))
    | some d =>
      let r := s.msgopen2 k d.target
      .ok (r.1, descRet r.2)

/-- `sys_msgclose`. -/
def sysMsgclose (si : BitVec 64) : Except Stop (Procs × SysRet) :=
  match s.msgclose k (toCInt si) with
  | none => .ok (s, .value (-1))
  | some s => .ok (s, .value 0)

/-- `_msgsendint` and `_msgsendbuf`: the entry is read without a check of its index. -/
def msgsend (desc : Int) : Except Stop (Procs × SysRet) :=
  match s.readDsc k desc env.beyond with
  | .sending true t =>
    match s.callMsgfunc1 c t env.call with
    | none => .error .panic
    | some s => .ok (s, .ofCallee)
  | _ => .error (.outside k desc)

/-- `sys_msgsendint`. -/
def sysMsgsendint (si : BitVec 64) : Except Stop (Procs × SysRet) := s.msgsend env c k (toCInt si)

/-- `sys_msgret`. -/
def sysMsgret : Except Stop (Procs × SysRet) := .ok (s, .left)

/-- `sys_msgsenddesc`. -/
def sysMsgsenddesc (si di : BitVec 64) : Except Stop (Procs × SysRet) :=
  if (s.process k).setlimit then .ok (s, .value (-1))
  else
    match s.msgsenddesc k (toCInt si) (toCInt di) with
    | none => .error .panic
    | some (s, r) => .ok (s, descRet r)

/-- `sys_newprocess`. -/
def sysNewprocess (si : BitVec 64) : Except Stop (Procs × SysRet) :=
  if (s.process k).setlimit then .ok (s, .value (-1))
  else
    match env.builtin (env.name si) with
    | none => .ok (s, .value (-1))
    | some rip =>
      match s.processNew env.allocFails rip with
      | none => .ok (s, .value (-1))
      | some (s, t) =>
        let r := s.msgopen2 k t
        .ok (r.1, descRet r.2)

/-- The checks of `sys_msgsendbuf`. -/
def acceptsBufs (di : BitVec 64) : Bool :=
  let bufcnt := (env.args di).1
  let buf := (env.args di).2
  isRangeValid di 16 && 0 ≤ bufcnt.toInt && isRangeValid buf (24 * bufcnt) && bufcnt.toInt ≤ 32 &&
    (List.range bufcnt.toNat).all fun i =>
      (env.buf buf i).len ≠ 0 && isRangeValid (env.buf buf i).base (env.buf buf i).len

/-- `sys_msgsendbuf`. -/
def sysMsgsendbuf (si di : BitVec 64) : Except Stop (Procs × SysRet) :=
  if acceptsBufs env di then s.msgsend env c k (toCInt si) else .ok (s, .value (-1))

/-- `sys_msgunregister`. -/
def sysMsgunregister (si : BitVec 64) : Except Stop (Procs × SysRet) :=
  match s.msgunregister k (toCInt si) with
  | none => .ok (s, .value (-1))
  | some u => .ok (u, .value (if s.msgDataUsed.length = u.msgDataUsed.length then -1 else 0))

/-- `sys_exitprocess`, and `process_kill`. -/
def sysExitprocess : Except Stop (Procs × SysRet) :=
  .ok (s.setProcess k { s.process k with exitflag := true }, .left)

/-- `sys_setlimit`. -/
def sysSetlimit : Except Stop (Procs × SysRet) :=
  if (s.process k).setlimit then .ok (s, .value (-1))
  else if !env.limitMaps then .ok (s, .value (-1))
  else .ok (s.setProcess k { s.process k with setlimit := true }, .value 0)

/-- `process_syscall`, on a thread `c` that runs process `k`. -/
def processSyscall (regs : SyscallRegs) : Except Stop (Procs × SysRet) :=
  match regs.rbx.toNat with
  | 1 => .ok (s, .value 0)
  | 3 => s.sysMsgsetfunc k regs.rsi regs.rdi
  | 4 => s.sysMsgregister env k regs.rsi regs.rdi
  | 5 => s.sysMsgopen env k regs.rsi
  | 6 => s.sysMsgclose k regs.rsi
  | 7 => s.sysMsgsendint env c k regs.rsi
  | 8 => s.sysMsgret
  | 9 => s.sysMsgsenddesc k regs.rsi regs.rdi
  | 10 => s.sysNewprocess env k regs.rsi
  | 11 => s.sysMsgsendbuf env c k regs.rsi regs.rdi
  | 12 => s.sysMsgunregister k regs.rsi
  | 13 => s.sysExitprocess k
  | 14 => s.sysSetlimit env k
  | _ => s.sysExitprocess k

/-! ### Index safety -/

/-- Process `k` has a descriptor for process `q`. -/
def Holds (q : Pid) : Prop :=
  ∃ i, ((s.process k).msgdsc i).pid = (q : Nat) ∧ (s.process q).valid = true ∧
    (s.process q).gen = ((s.process k).msgdsc i).gen

/-- No entry outside of a table is used, and of the processes that were there only `k` and those
it has a descriptor for see a change of their descriptors. -/
def IndexSafe : Except Stop (Procs × SysRet) → Prop
  | .error (.outside _ _) => False
  | .error .panic => True
  | .ok r => ∀ q, (s.process q).valid = true → q ≠ k → ¬ s.Holds k q →
    (r.1.process q).msgdsc = (s.process q).msgdsc

/-- The number that the call takes for an entry of the table without checking it. -/
def uncheckedDesc (regs : SyscallRegs) : Option Int :=
  if regs.rbx = 7 ∨ regs.rbx = 11 ∧ acceptsBufs env regs.rdi = true then some (toCInt regs.rsi)
  else none

/-- `sys_newprocess` finds a program and a slot for it, but cannot load the program. -/
def loadFails (regs : SyscallRegs) : Prop :=
  regs.rbx = 10 ∧ (s.process k).setlimit = false ∧ env.builtin (env.name regs.rsi) = some 0 ∧
    env.allocFails = false ∧ s.freeSlot ≠ none

/-- When a system call is index safe: the unchecked number is an index, and a load that fails
finds no function in entry 0 of the VMM, or the VMM is a process that `k` may change. -/
def SyscallOk (regs : SyscallRegs) : Prop :=
  (∀ d, uncheckedDesc env regs = some d → 0 ≤ d ∧ d < 32) ∧
    (s.loadFails env k regs → (s.process 0).valid = true → k ≠ 0 → ¬ s.Holds k 0 →
      ((s.process 0).msgdsc 0).func = 0)

end Procs

open Procs

variable {s s' : Procs} {env : SyscallEnv} {c : Tid} {k p q : Pid} {i : Desc} {t : MsgTarget}

/-! ### What the sections change -/

theorem setProcess_msgdsc {d : Process} (hd : d.msgdsc = (s.process p).msgdsc) :
    ((s.setProcess p d).process q).msgdsc = (s.process q).msgdsc := by
  rcases eq_or_ne q p with rfl | hq
  · rw [setProcess_self, hd]
  · rw [setProcess_of_ne hq]

theorem setDsc_msgdsc_of_ne {d : MsgDsc} (h : q ≠ p) :
    ((s.setDsc p i d).process q).msgdsc = (s.process q).msgdsc := by
  rw [setDsc, setProcess_of_ne h]

theorem setFunc_msgdsc_of_ne {func : BitVec 64} (h : q ≠ p) :
    ((s.setFunc p i func).process q).msgdsc = (s.process q).msgdsc :=
  setDsc_msgdsc_of_ne h

/-- Writing the function that is there already. -/
theorem setFunc_msgdsc_same {func : BitVec 64} (h : ((s.process p).msgdsc i).func = func) :
    ((s.setFunc p i func).process q).msgdsc = (s.process q).msgdsc := by
  refine setProcess_msgdsc ?_
  subst h
  exact Function.update_eq_self i _

theorem setTarget_msgdsc_of_ne (h : q ≠ p) :
    ((s.setTarget p i t).process q).msgdsc = (s.process q).msgdsc :=
  setDsc_msgdsc_of_ne h

theorem msgopen2_msgdsc_of_ne (h : q ≠ p) :
    ((s.msgopen2 p t).1.process q).msgdsc = (s.process q).msgdsc := by
  unfold msgopen2
  split
  · rfl
  · exact setTarget_msgdsc_of_ne h

theorem msgregister_msgdsc_of_ne {name : String} {func : BitVec 64} (h : q ≠ p) :
    ((s.msgregister p name func).1.process q).msgdsc = (s.process q).msgdsc := by
  unfold msgregister
  split
  · rfl
  · simp only
    split <;> rename_i hr
    · exact (setFunc_msgdsc_of_ne h).trans (setFunc_msgdsc_of_ne h)
    · unfold msgRegister at hr
      split at hr <;> cases hr
      exact setFunc_msgdsc_of_ne h

theorem cleanupIfDone_msgdsc :
    ((s.cleanupIfDone p).process q).msgdsc = (s.process q).msgdsc := by
  unfold cleanupIfDone
  split
  · rcases eq_or_ne q p with rfl | hq <;>
      simp [cleanup, msgUnregisterall, setProcess, *]
  · rfl

theorem callMsgfunc1_msgdsc {env : CallEnv} (h : s.callMsgfunc1 c t env = some s') :
    (s'.process q).msgdsc = (s.process q).msgdsc := by
  unfold callMsgfunc1 at h
  simp only at h
  split at h
  · cases h
    rfl
  · split at h
    · cases h
    · cases h
      rfl
    · split at h
      · cases h
        rfl
      · split at h
        · cases h
          rfl
        · split at h
          · cases h
            exact cleanupIfDone_msgdsc
          · cases h
            exact setProcess_msgdsc rfl

/-- `_msgsenddesc` changes a process that the sender has a descriptor for. -/
theorem msgsenddesc_msgdsc {todesc senddesc : Int} {r : Procs × Option Desc}
    (hr : s.msgsenddesc k todesc senddesc = some r) (h : ¬ s.Holds k q) :
    (r.1.process q).msgdsc = (s.process q).msgdsc := by
  unfold msgsenddesc at hr
  split at hr
  · rename_i sd td _ _
    simp only at hr
    split at hr
    · cases hr
    · rename_i topid hpid
      split at hr
      · cases hr
        rfl
      · rename_i hlive
        split at hr
        · cases hr
          rfl
        · cases hr
          refine setTarget_msgdsc_of_ne ?_
          rintro rfl
          rw [not_or] at hlive
          exact h ⟨td, index?_eq_some.1 hpid, by simpa using hlive.1, not_not.1 hlive.2⟩
  · cases hr
    rfl

/-- `process_new` changes the slot that it takes, and entry 0 of the VMM where it cannot load the
program. -/
theorem processNew_msgdsc {allocFails : Bool} {rip : BitVec 64} {r : Procs × MsgTarget}
    (hr : s.processNew allocFails rip = some r) (hv : (s.process q).valid = true)
    (h : rip = 0 → q = 0 → ((s.process 0).msgdsc 0).func = 0) :
    (r.1.process q).msgdsc = (s.process q).msgdsc := by
  unfold processNew at hr
  split at hr
  · cases hr
  · rename_i pid hslot
    have hq : q ≠ pid := by
      rintro rfl
      rw [(freeSlot_spec hslot).2] at hv
      cases hv
    split at hr
    · cases hr
    · simp only at hr
      split at hr <;> cases hr <;> rename_i hrip
      · rcases eq_or_ne q 0 with rfl | h0
        · have h0 : ∀ {d d' : Process} {n : Nat}, ((({ s.setProcess pid d with next := n } :
              Procs).setProcess pid d').process 0) = s.process 0 := by
            intro d d' n
            rw [setProcess_of_ne hq]
            exact setProcess_of_ne hq
          rw [setFunc_msgdsc_same]
          · rw [h0]
          · rw [h0, h hrip rfl, hrip]
        · rw [setFunc_msgdsc_of_ne h0, setProcess_of_ne hq]
          exact congrArg _ (setProcess_of_ne hq)
      · rw [setFunc_msgdsc_of_ne hq]
        exact congrArg _ (setProcess_of_ne hq)

/-- A load that fails clears the function of entry 0 of the VMM. -/
theorem processNew_kernel {r : Procs × MsgTarget} (hr : s.processNew false 0 = some r) :
    ((r.1.process 0).msgdsc 0).func = 0 := by
  unfold processNew at hr
  split at hr
  · cases hr
  · simp only [Bool.false_eq_true, if_false, if_true] at hr
    cases hr
    simp [setFunc, setDsc]

theorem processNew_isSome {allocFails : Bool} {rip : BitVec 64} (ha : allocFails = false)
    (hs : s.freeSlot ≠ none) : ∃ r, s.processNew allocFails rip = some r := by
  unfold processNew
  subst ha
  cases hslot : s.freeSlot with
  | none => exact absurd hslot hs
  | some pid =>
    simp only [Bool.false_eq_true, if_false]
    split <;> exact ⟨_, rfl⟩

/-! ### The calls -/

theorem msgsend_safe_iff {desc : Int} :
    s.IndexSafe k (s.msgsend env c k desc) ↔ 0 ≤ desc ∧ desc < 32 := by
  unfold msgsend readDsc
  cases hi : index? desc with
  | none =>
    refine iff_of_false id fun h => ?_
    rw [index?, dif_pos h] at hi
    cases hi
  | some i =>
    refine iff_of_true ?_ ?_
    · simp only
      split <;> rename_i hr
      · trivial
      · exact fun q _ _ _ => callMsgfunc1_msgdsc hr
    · rw [index?_eq_some] at hi
      omega

theorem sysNewprocess_safe_iff {si : BitVec 64} :
    s.IndexSafe k (s.sysNewprocess env k si) ↔
      ((s.process k).setlimit = false → env.builtin (env.name si) = some 0 →
        env.allocFails = false → s.freeSlot ≠ none → (s.process 0).valid = true → k ≠ 0 →
          ¬ s.Holds k 0 → ((s.process 0).msgdsc 0).func = 0) := by
  unfold sysNewprocess
  split
  · rename_i hl
    refine iff_of_true (fun _ _ _ _ => rfl) fun h => ?_
    rw [hl] at h
    cases h
  · rename_i hl
    split
    · rename_i hb
      refine iff_of_true (fun _ _ _ _ => rfl) fun _ h => ?_
      rw [hb] at h
      cases h
    · rename_i rip hb
      split
      · rename_i hn
        refine iff_of_true (fun _ _ _ _ => rfl) fun _ _ ha hs => ?_
        obtain ⟨r, hr⟩ : ∃ r, s.processNew _ rip = some r := processNew_isSome ha hs
        rw [hn] at hr
        cases hr
      · rename_i s' t hr
        constructor
        · intro hsafe _ hb' ha hs hv hk hh
          rw [hb] at hb'
          cases hb'
          rw [ha] at hr
          have := hsafe 0 hv hk.symm hh
          rw [msgopen2_msgdsc_of_ne hk.symm] at this
          rw [← this]
          exact processNew_kernel hr
        · intro h q hv hq hh
          rw [msgopen2_msgdsc_of_ne hq]
          refine processNew_msgdsc hr hv ?_
          rintro rfl rfl
          refine h (by simpa using hl) hb ?_ ?_ hv hq.symm hh
          · cases ha : env.allocFails with
            | false => rfl
            | true =>
              rw [ha] at hr
              unfold processNew at hr
              split at hr <;> cases hr
          · intro hs
            unfold processNew at hr
            rw [hs] at hr
            cases hr

/-- `rbx` is the number of a call that checks all that it uses. -/
theorem processSyscall_safe {regs : SyscallRegs} (h7 : regs.rbx ≠ 7) (h10 : regs.rbx ≠ 10)
    (h11 : regs.rbx ≠ 11) : s.IndexSafe k (s.processSyscall env c k regs) := by
  have hne : ∀ n : Nat, n < 32 → regs.rbx ≠ BitVec.ofNat 64 n → regs.rbx.toNat ≠ n :=
    fun n hn hne e => hne (by rw [← e, BitVec.ofNat_toNat, BitVec.setWidth_eq])
  unfold processSyscall
  split
  · exact fun _ _ _ _ => rfl
  · unfold sysMsgsetfunc
    split
    · exact fun _ _ _ _ => rfl
    · split
      · exact fun q _ hq _ => setFunc_msgdsc_of_ne hq
      · exact fun _ _ _ _ => rfl
  · unfold sysMsgregister
    split
    · exact fun _ _ _ _ => rfl
    · split
      · exact fun _ _ _ _ => rfl
      · exact fun q _ hq _ => msgregister_msgdsc_of_ne hq
  · unfold sysMsgopen
    split
    · exact fun _ _ _ _ => rfl
    · split
      · exact fun _ _ _ _ => rfl
      · split
        · exact fun _ _ _ _ => rfl
        · exact fun q _ hq _ => msgopen2_msgdsc_of_ne hq
  · unfold sysMsgclose
    split <;> rename_i hr
    · exact fun _ _ _ _ => rfl
    · obtain ⟨i, -, rfl⟩ := Option.map_eq_some_iff.1 hr
      exact fun q _ hq _ => setTarget_msgdsc_of_ne hq
  · rename_i hn
    exact absurd hn (hne 7 (by decide) h7)
  · exact fun _ _ _ _ => rfl
  · unfold sysMsgsenddesc
    split
    · exact fun _ _ _ _ => rfl
    · split <;> rename_i hr
      · trivial
      · exact fun q _ _ hh => msgsenddesc_msgdsc hr hh
  · rename_i hn
    exact absurd hn (hne 10 (by decide) h10)
  · rename_i hn
    exact absurd hn (hne 11 (by decide) h11)
  · unfold sysMsgunregister
    split <;> rename_i hr
    · exact fun _ _ _ _ => rfl
    · obtain ⟨i, -, rfl⟩ := Option.map_eq_some_iff.1 hr
      exact fun q _ hq _ => setFunc_msgdsc_of_ne (s := s) hq
  · exact fun q _ _ _ => setProcess_msgdsc rfl
  · unfold sysSetlimit
    split
    · exact fun _ _ _ _ => rfl
    · split
      · exact fun _ _ _ _ => rfl
      · exact fun q _ _ _ => setProcess_msgdsc rfl
  · exact fun q _ _ _ => setProcess_msgdsc rfl

/-- For every register contents: a system call is index safe exactly when it is `SyscallOk`. -/
theorem indexSafe_iff_syscallOk (s : Procs) (env : SyscallEnv) (c : Tid) (k : Pid)
    (regs : SyscallRegs) :
    s.IndexSafe k (s.processSyscall env c k regs) ↔ s.SyscallOk env k regs := by
  by_cases h7 : regs.rbx = 7
  · have hn : regs.rbx.toNat = 7 := by simp [h7]
    have hcall : s.processSyscall env c k regs = s.msgsend env c k (toCInt regs.rsi) := by
      simp only [processSyscall, hn, sysMsgsendint]
    rw [hcall, msgsend_safe_iff]
    simp [SyscallOk, uncheckedDesc, loadFails, h7]
  · by_cases h11 : regs.rbx = 11
    · have hn : regs.rbx.toNat = 11 := by simp [h11]
      have hcall : s.processSyscall env c k regs =
          s.sysMsgsendbuf env c k regs.rsi regs.rdi := by
        simp only [processSyscall, hn]
      rw [hcall, sysMsgsendbuf]
      by_cases ha : acceptsBufs env regs.rdi = true
      · rw [if_pos ha, msgsend_safe_iff]
        simp [SyscallOk, uncheckedDesc, loadFails, h11, ha]
      · rw [if_neg ha]
        refine iff_of_true (fun _ _ _ _ => rfl) ?_
        simp [SyscallOk, uncheckedDesc, loadFails, h11, ha]
    · by_cases h10 : regs.rbx = 10
      · have hn : regs.rbx.toNat = 10 := by simp [h10]
        have hcall : s.processSyscall env c k regs = s.sysNewprocess env k regs.rsi := by
          simp only [processSyscall, hn]
        rw [hcall, sysNewprocess_safe_iff]
        simp [SyscallOk, uncheckedDesc, loadFails, h10]
      · refine iff_of_true (processSyscall_safe h7 h10 h11)
          ⟨fun d hd => ?_, fun hl => absurd hl.1 h10⟩
        rw [uncheckedDesc, if_neg (not_or.2 ⟨h7, fun h => h11 h.1⟩)] at hd
        cases hd

/-- The VMM starts process 1 and calls it. -/
def callEvents : List (Tid × Pid × ProcEvent) :=
  [(0, 0, .new false 5), (0, 0, .open2), (0, 0, .read 0 clearDsc.toMsgTarget),
    (0, 0, .call ⟨true, true, true⟩)]

/-- Process 1, called by the VMM, sends to entry 32 of its table of 32 entries. -/
theorem not_indexSafe : ¬ ∀ (s : Procs) (env : SyscallEnv) (c : Tid) (k : Pid)
    (regs : SyscallRegs), procMachine.Reachable s → (s.calls c).head? = some (k, 1) →
      s.IndexSafe k (s.processSyscall env c k regs) := by
  intro h
  obtain ⟨s, hs, hcalls⟩ : ∃ s, procMachine.run processInitGlobal callEvents = some s ∧
      (s.calls 0).head? = some (1, 1) := ⟨_, rfl, rfl⟩
  have hr : procMachine.Reachable s :=
    Lib.Machine.Reachable.run (.init processInitGlobal_init) callEvents hs
  exact h s
    { name := fun _ => ""
      args := fun _ => (0, 0)
      buf := fun _ _ => ⟨0, 0⟩
      builtin := fun _ => none
      allocFails := false
      limitMaps := true
      call := ⟨true, true, true⟩
      beyond := clearDsc.toMsgTarget } 0 1 { rbx := 7, rsi := 32, rdi := 0 } hr hcalls

end OnDemandVirt.Vmm
