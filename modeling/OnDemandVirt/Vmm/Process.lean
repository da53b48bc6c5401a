import OnDemandVirt.Vmm.Thread
import Mathlib.Data.List.FinRange
import Mathlib.Algebra.BigOperators.Group.Finset.Basic

/-!
# Processes of the VMM and their message descriptors

`process.c` and `msg.c` at the granularity of `process_lock` and `msg_lock`. A descriptor is a
process slot, the generation of the slot when it was opened, and an entry of the other side's
table. Sending reads the descriptor in one section and checks it in another one, opening a name
looks it up in one section and takes an entry in another one; the thread remembers what it read.

Every process has a number of its own (`inst`), and what is opened remembers the process it was
opened on (`on`). No step looks at these numbers.
-/

namespace OnDemandVirt.Vmm

/-- An index into `process[NUM_OF_PID]`. -/
abbrev Pid := Fin 32

/-- An index into `msgdsc[NUM_OF_MSGDSC]`. -/
abbrev Desc := Fin 32

/-- What a descriptor refers to. -/
structure MsgTarget where
  pid : Int
  gen : BitVec 32
  dsc : Int
  /-- The process it was opened on. -/
  on : Option Nat

/-- `struct msgdsc_data`; a function is an address, `NULL` is 0. -/
structure MsgDsc extends MsgTarget where
  func : BitVec 64

/-- `struct process_data`, but for its memory. -/
structure Process where
  valid : Bool
  gen : BitVec 32
  running : Int
  msgdsc : Desc → MsgDsc
  exitflag : Bool
  setlimit : Bool
  inst : Nat

/-- `struct msg_data`. -/
structure MsgData where
  name : String
  target : MsgTarget

/-- What a thread has read under the lock and not used yet. -/
inductive Todo
  | none
  /-- To be opened for `frompid`. -/
  | opening (frompid : Pid) (t : MsgTarget)
  /-- To be sent to; `through` tells whether it was read from a descriptor. -/
  | sending (through : Bool) (t : MsgTarget)

/-- The static data of `process.c` and `msg.c`, and of every thread the processes that it runs
(the last one called first). -/
structure Procs where
  process : Pid → Process
  msgDataUsed : List MsgData
  calls : Tid → List (Pid × Nat)
  todo : Tid → Todo
  next : Nat

/-- An index that a signed number stands for. -/
def index? (i : Int) : Option (Fin 32) :=
  if h : 0 ≤ i ∧ i < 32 then some ⟨i.toNat, by omega⟩ else none

/-- What `clearmsgdsc` leaves in an entry. -/
def clearDsc : MsgDsc where
  pid := 0
  gen := 0
  dsc := 0
  on := none
  func := 0

/-- The test for a free entry. -/
def MsgDsc.isFree (d : MsgDsc) : Bool := d.pid = 0 && d.gen = 0

namespace Procs

variable (s : Procs)

/-! ### Updates -/

def setProcess (p : Pid) (d : Process) : Procs :=
  { s with process := Function.update s.process p d }

def setDsc (p : Pid) (i : Desc) (d : MsgDsc) : Procs :=
  s.setProcess p { s.process p with msgdsc := Function.update (s.process p).msgdsc i d }

def setTarget (p : Pid) (i : Desc) (t : MsgTarget) : Procs :=
  s.setDsc p i { (s.process p).msgdsc i with toMsgTarget := t }

def setFunc (p : Pid) (i : Desc) (func : BitVec 64) : Procs :=
  s.setDsc p i { (s.process p).msgdsc i with func := func }

def setTodo (c : Tid) (t : Todo) : Procs := { s with todo := Function.update s.todo c t }

def setCalls (c : Tid) (l : List (Pid × Nat)) : Procs :=
  { s with calls := Function.update s.calls c l }

variable {s} {c c' : Tid} {p q : Pid}

@[simp] theorem setProcess_self {d : Process} : (s.setProcess p d).process p = d :=
  Function.update_self ..

theorem setProcess_of_ne {d : Process} (h : q ≠ p) :
    (s.setProcess p d).process q = s.process q :=
  Function.update_of_ne h ..

@[simp] theorem setTodo_self {t : Todo} : (s.setTodo c t).todo c = t := Function.update_self ..

theorem setTodo_of_ne {t : Todo} (h : c' ≠ c) : (s.setTodo c t).todo c' = s.todo c' :=
  Function.update_of_ne h ..

@[simp] theorem setCalls_self {l : List (Pid × Nat)} : (s.setCalls c l).calls c = l :=
  Function.update_self ..

theorem setCalls_of_ne {l : List (Pid × Nat)} (h : c' ≠ c) :
    (s.setCalls c l).calls c' = s.calls c' :=
  Function.update_of_ne h ..

variable (s)

/-! ### Opening -/

/-- `_msgopen_2`: the entry it takes, `none` where there is none. -/
def msgopen2 (pid : Pid) (t : MsgTarget) : Procs × Option Desc :=
  match (List.finRange 32).find? fun i => ((s.process pid).msgdsc i).isFree with
  | none => (s, none)
  | some i => (s.setTarget pid i t, some i)

/-- The slot that `process_new` takes. -/
def freeSlot : Option Pid := (List.finRange 32).find? fun p => p ≠ 0 && !(s.process p).valid

/-- `process_new` up to its call of `_msgopen_2`: `rip` is what `process_load` returns, 0 where it
fails; `allocFails` that `mm_process_alloc` does. `none`: it returns -1. -/
def processNew (allocFails : Bool) (rip : BitVec 64) : Option (Procs × MsgTarget) :=
  match s.freeSlot with
  | none => none
  | some pid =>
    if allocFails then none
    else
      let gen := (s.process pid).gen + 1
      let d : Process :=
        { valid := true
          gen := gen
          running := 0
          msgdsc := fun _ => clearDsc
          exitflag := false
          setlimit := false
          inst := s.next }
      let s := { s.setProcess pid d with next := s.next + 1 }
      if rip = 0 then
        let s := s.setProcess pid { d with valid := false }
        some (s.setFunc 0 0 rip, { pid := 0, gen := gen, dsc := 0, on := none })
      else
        some (s.setFunc pid 0 rip,
          { pid := (pid : Nat), gen := gen, dsc := 0, on := some d.inst })

/-- `_findname`. -/
def findName (name : String) : Option MsgData := s.msgDataUsed.find? fun d => d.name = name

/-- `msg_register`. -/
def msgRegister (name : String) (t : MsgTarget) : Option Procs :=
  match s.findName name with
  | some _ => none
  | none => some { s with msgDataUsed := s.msgDataUsed ++ [{ name := name, target := t }] }

/-- `_msgregister`. -/
def msgregister (pid : Pid) (name : String) (func : BitVec 64) : Procs × Option Desc :=
  match (List.finRange 32).find? fun i => ((s.process pid).msgdsc i).func = 0 with
  | none => (s, none)
  | some i =>
    let s := s.setFunc pid i func
    match s.msgRegister name
        { pid := (pid : Nat)
          gen := (s.process pid).gen
          dsc := (i : Nat)
          on := some (s.process pid).inst } with
    | none => (s.setFunc pid i 0, none)
    | some s => (s, some i)

/-! ### Closing -/

/-- `_msgclose`. -/
def msgclose (pid : Pid) (desc : Int) : Option Procs :=
  (index? desc).map fun i =>
    s.setTarget pid i
      { pid := 0, gen := 0, dsc := ((s.process pid).msgdsc i).dsc, on := none }

/-- `msg_unregisterall`. -/
def msgUnregisterall (pid : Pid) : Procs :=
  { s with msgDataUsed := s.msgDataUsed.filter fun d => d.target.pid ≠ (pid : Nat) }

/-- `msg_unregister2`. -/
def msgUnregister2 (pid : Pid) (desc : Desc) : Procs :=
  { s with
    msgDataUsed := s.msgDataUsed.filter fun d =>
      ¬ (d.target.pid = (pid : Nat) ∧ d.target.dsc = (desc : Nat)) }

/-- `_msgunregister`. -/
def msgunregister (pid : Pid) (desc : Int) : Option Procs :=
  (index? desc).map fun i => (s.setFunc pid i 0).msgUnregister2 pid i

/-- `cleanup`. -/
def cleanup (pid : Pid) : Procs :=
  let s := s.setProcess pid { s.process pid with gen := (s.process pid).gen + 1 }
  let s := s.msgUnregisterall pid
  s.setProcess pid { s.process pid with valid := false }

/-- `if (process[pid].running == 0 && process[pid].exitflag) cleanup (pid, mm_phys);` -/
def cleanupIfDone (pid : Pid) : Procs :=
  if (s.process pid).running = 0 ∧ (s.process pid).exitflag = true then s.cleanup pid else s

/-! ### Sending -/

/-- The first section of `_msgsendint` and `_msgsendbuf`; neither checks `desc`, and outside of
the table it reads what memory holds there. -/
def readDsc (pid : Pid) (desc : Int) (beyond : MsgTarget) : Todo :=
  match index? desc with
  | some i => .sending true ((s.process pid).msgdsc i).toMsgTarget
  | none => .sending false beyond

/-- What the checks of `call_msgfunc1` say. -/
inductive Check
  /-- An `ASSERT` fails. -/
  | panics
  /-- It returns -1. -/
  | refused
  /-- The function of entry `desc` of process `pid` is called. -/
  | calls (pid : Pid) (desc : Desc)

def check (t : MsgTarget) : Check :=
  match index? t.pid with
  | none => .panics
  | some pid =>
    if (s.process pid).valid = false then .refused
    else
      match index? t.dsc with
      | none => .panics
      | some desc =>
        if (s.process pid).gen ≠ t.gen then .refused
        else if ((s.process pid).msgdsc desc).func = 0 then .refused
        else .calls pid desc

/-- What else decides whether `call_msgfunc1` gets to the call. -/
structure CallEnv where
  /-- There is room on the stack of the VMM. -/
  room : Bool
  /-- `bufcnt <= MAXNUM_OF_MSGBUF`. -/
  bufs : Bool
  /-- The buffers and the stack can be mapped. -/
  map : Bool

/-- `call_msgfunc1` up to the call, by thread `c`. The function of the VMM (pid 0) is called with
no lock held and with nothing to undo. -/
def callMsgfunc1 (c : Tid) (t : MsgTarget) (env : CallEnv) : Option Procs :=
  let s := s.setTodo c .none
  if !env.room then some s
  else
    match s.check t with
    | .panics => none
    | .refused => some s
    | .calls pid _ =>
      if pid = 0 then some s
      else if !env.bufs then some s
      else if !env.map then some (s.cleanupIfDone pid)
      else
        let s := s.setProcess pid { s.process pid with running := (s.process pid).running + 1 }
        some (s.setCalls c ((pid, (s.process pid).inst) :: s.calls c))

/-- The rest of `call_msgfunc0` and `call_msgfunc1`, when the process returns. -/
def callReturn (c : Tid) : Option Procs :=
  match s.calls c with
  | [] => none
  | (pid, _) :: rest =>
    let s := s.setProcess pid { s.process pid with running := (s.process pid).running - 1 }
    some ((s.setCalls c rest).cleanupIfDone pid)

/-- `_msgsenddesc`; `none` where the `ASSERT` fails. -/
def msgsenddesc (frompid : Pid) (todesc senddesc : Int) : Option (Procs × Option Desc) :=
  match index? senddesc, index? todesc with
  | some sd, some td =>
    let dst := ((s.process frompid).msgdsc td).toMsgTarget
    match index? dst.pid with
    | none => none
    | some topid =>
      if (s.process topid).valid = false ∨ (s.process topid).gen ≠ dst.gen then some (s, none)
      else
        match ((List.finRange 32).take 8).find? fun i =>
            ((s.process topid).msgdsc i).isFree with
        | none => some (s, none)
        | some i =>
          some (s.setTarget topid i ((s.process frompid).msgdsc sd).toMsgTarget, some i)
  | _, _ => some (s, none)

end Procs

/-! ### The machine -/

inductive ProcEvent
  /-- `process_new`. -/
  | new (allocFails : Bool) (rip : BitVec 64)
  /-- `msg_findname` in `_msgopen`. -/
  | findName (name : String)
  /-- `_msgopen_2`. -/
  | open2
  | register (name : String) (func : BitVec 64)
  | setFunc (desc : Desc) (func : BitVec 64)
  | close (desc : Int)
  | unregister (desc : Int)
  | sendDesc (todesc senddesc : Int)
  /-- `_msgsendint` or `_msgsendbuf` up to `call_msgfunc1`. -/
  | read (desc : Int) (beyond : MsgTarget)
  /-- `call_msgfunc1`. -/
  | call (env : Procs.CallEnv)
  /-- The process that the thread runs returns. -/
  | callReturn
  /-- `process[currentcpu->pid].exitflag = true;` in `sys_exitprocess` and `process_kill`. -/
  | exitflag
  /-- `sys_setlimit`. -/
  | setlimit

/-- Thread `c` acts for process `k`: for the one that it runs, or for the VMM. -/
def Procs.actsFor (s : Procs) (c : Tid) (k : Pid) : Bool :=
  k = 0 || (s.calls c).head?.any fun f => f.1 = k

/-- Thread `c` does `e` for process `k`. `none`: it cannot, or the code panics. -/
def Procs.step (s : Procs) : Tid × Pid × ProcEvent → Option Procs
  | (c, k, e) =>
    match s.todo c, e with
    | .opening frompid t, .open2 => some ((s.setTodo c .none).msgopen2 frompid t).1
    | .sending _ t, .call env => s.callMsgfunc1 c t env
    | .none, .callReturn => s.callReturn c
    | .none, .exitflag =>
      (s.calls c).head?.map fun f =>
        s.setProcess f.1 { s.process f.1 with exitflag := true }
    | .none, .setlimit =>
      (s.calls c).head?.map fun f =>
        s.setProcess f.1 { s.process f.1 with setlimit := true }
    | .none, e =>
      if s.actsFor c k then
        match e with
        | .new allocFails rip =>
          match s.processNew allocFails rip with
          | none => some s
          | some (s, t) => some (s.setTodo c (.opening k t))
        | .findName name =>
          match s.findName name with
          | none => some s
          | some d => some (s.setTodo c (.opening k d.target))
        | .register name func => some (s.msgregister k name func).1
        | .setFunc desc func => some (s.setFunc k desc func)
        | .close desc => some ((s.msgclose k desc).getD s)
        | .unregister desc => some ((s.msgunregister k desc).getD s)
        | .sendDesc todesc senddesc => (s.msgsenddesc k todesc senddesc).map Prod.fst
        | .read desc beyond => some (s.setTodo c (s.readDsc k desc beyond))
        | _ => none
      else none
    | _, _ => none

/-- `process_init_global`: process 0 is the VMM. -/
structure Procs.Init (s : Procs) : Prop where
  gen : ∀ p, (s.process p).gen = 1
  valid : ∀ p, (s.process p).valid = decide (p = 0)
  running : ∀ p, (s.process p).running = 0
  msgdsc : ∀ p i, (s.process p).msgdsc i = clearDsc
  names : s.msgDataUsed = []
  calls : ∀ c, s.calls c = []
  todo : ∀ c, s.todo c = .none
  inst : ∀ p, (s.process p).inst = 0
  next : s.next = 1

def procMachine : Lib.Machine Procs (Tid × Pid × ProcEvent) where
  init := Procs.Init
  step := Procs.step

end OnDemandVirt.Vmm
