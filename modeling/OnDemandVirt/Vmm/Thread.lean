import OnDemandVirt.Lib.Machine
import Mathlib.Data.List.Nodup
import Mathlib.Data.List.FinRange
import Mathlib.Logic.Function.Basic
import OnDemandVirt.Lib.Numerals

/-!
# The threads of the VMM

`thread.c` at the granularity of its lock: every section between `LOCK_LOCK (&thread_lock)` and
the matching unlock is one event. `schedule` hands the lock over to the thread it switches to, so
it is three events: the section itself, the change of stacks, and the unlock on the new stack.
`thread_wakeup` is two: it may put the thread on the run queue in a second section.
-/

namespace OnDemandVirt.Vmm

/-- `tid_t`: an index into `td[MAXNUM_OF_THREADS]`. -/
abbrev Tid := Fin 256

/-- `enum thread_state`. -/
inductive ThreadState
  | exit
  | run
  | willStop
  | stop
  deriving DecidableEq

/-- `struct thread_data`. Stacks are numbered; a context is a pointer into the stack it was pushed
on, and all that is kept of it is which stack that is. -/
structure ThreadData where
  context : Option Nat
  state : ThreadState
  /-- `none` is `CPUNUM_ANY`. -/
  cpunum : Option Nat
  boot : Bool
  stack : Option Nat
  pid : Nat
  syscallstack : Nat
  processSwitch : Nat

/-- Where a CPU is in the code of this file. -/
inductive Doing
  /-- Not started: `thread_init_pcpu` has not run. -/
  | off
  /-- Outside of the sections below. -/
  | idle
  /-- In `schedule`, before `thread_switch`: still on the stack of `old`. -/
  | switching (old new : Tid)
  /-- After `thread_switch`, before `switched`. -/
  | switched
  /-- In `thread_wakeup`, between its two sections. -/
  | waking (tid : Tid)
  deriving DecidableEq

/-- What the file uses of `struct pcpu`, and the stack that the stack pointer points into. -/
structure Pcpu where
  doing : Doing
  tid : Tid
  stackaddr : Option Nat
  sp : Option Nat
  pid : Nat
  syscallstack : Nat
  processSwitch : Nat

/-- The static data of `thread.c`, the CPUs, and which stacks are allocated. -/
structure Threads where
  td : Tid → ThreadData
  tdFree : List Tid
  tdRunnable : List Tid
  /-- The CPU that holds `thread_lock` beyond one event. -/
  threadLock : Option Nat
  oldStack : Option Nat
  allocated : Nat → Bool
  cpu : Nat → Pcpu

namespace Threads

variable (s : Threads) (c : Nat)

/-! ### Updates -/

def setTd (t : Tid) (d : ThreadData) : Threads := { s with td := Function.update s.td t d }

def setState (t : Tid) (st : ThreadState) : Threads := s.setTd t { s.td t with state := st }

def setCpu (p : Pcpu) : Threads := { s with cpu := Function.update s.cpu c p }

def setDoing (d : Doing) : Threads := s.setCpu c { s.cpu c with doing := d }

def setStack (k : Nat) (b : Bool) : Threads :=
  { s with allocated := Function.update s.allocated k b }

/-- `thread_data_init`. -/
def threadDataInit (t : Tid) (context stack : Option Nat) (cpunum : Option Nat) : Threads :=
  s.setTd t
    { context := context
      cpunum := cpunum
      boot := false
      stack := stack
      pid := 0
      syscallstack := 0
      processSwitch := 1
      state := .run }

/-- `thread_data_save_and_load`. -/
def threadDataSaveAndLoad (old new : Tid) : Threads :=
  let p := s.cpu c
  let s := s.setTd old
    { s.td old with
      stack := p.stackaddr
      pid := p.pid
      syscallstack := p.syscallstack
      processSwitch := p.processSwitch }
  s.setCpu c
    { p with
      stackaddr := (s.td new).stack
      pid := (s.td new).pid
      syscallstack := (s.td new).syscallstack
      processSwitch := (s.td new).processSwitch }

/-! ### The sections -/

/-- `thread_init_pcpu`, by a CPU that was started on the stack `k`. -/
def threadInitPcpu (k : Nat) : Option Threads :=
  match s.tdFree with
  | [] => none
  | t :: rest =>
    let s := ({ s with tdFree := rest }).threadDataInit t none none (some c)
    let s := s.setTd t { s.td t with boot := true }
    some ((s.setStack k true).setCpu c
      { s.cpu c with doing := .idle, tid := t, stackaddr := some k, sp := some k })

/-- `thread_new` with the stack that `alloc` gave. -/
def threadNew (k : Nat) : Option Threads :=
  match s.tdFree with
  | [] => none
  | t :: rest =>
    let s := ({ s with tdFree := rest }).threadDataInit t (some k) (some k) none
    some { s.setStack k true with tdRunnable := s.tdRunnable ++ [t] }

/-- `if (old_stack) { free (old_stack); old_stack = NULL; }` -/
def freeOldStack : Threads :=
  match s.oldStack with
  | none => s
  | some k => { s.setStack k false with oldStack := none }

/-- The thread that `schedule` looks for. -/
def mayRun (t : Tid) : Bool := (s.td t).cpunum = none || (s.td t).cpunum = some c

/-- The `switch` of `schedule` over the state of the thread that ran. -/
def putAway (old : Tid) : Option Threads :=
  match (s.td old).state with
  | .exit => some { s with oldStack := (s.td old).stack, tdFree := s.tdFree ++ [old] }
  | .run => some { s with tdRunnable := s.tdRunnable ++ [old] }
  | .willStop => some (s.setState old .stop)
  | .stop => none

/-- `schedule` up to `thread_switch`. -/
def schedule : Option Threads :=
  let s := s.freeOldStack
  match s.tdRunnable.find? (s.mayRun c) with
  | none => some s
  | some d =>
    let s := { s with tdRunnable := s.tdRunnable.erase d }
    let oldtid := (s.cpu c).tid
    let s := s.setCpu c { s.cpu c with tid := d }
    (putAway (s.threadDataSaveAndLoad c oldtid d) oldtid).map fun s =>
      { s.setDoing c (.switching oldtid d) with threadLock := some c }

/-- `thread_switch (&td[oldtid].context, d->context, 0)`. -/
def threadSwitch (old new : Tid) : Threads :=
  let context := (s.td new).context
  let s := s.setTd old { s.td old with context := (s.cpu c).sp }
  s.setCpu c { s.cpu c with sp := context, doing := .switched }

/-- `switched`. -/
def switched : Threads := { s.setDoing c .idle with threadLock := none }

/-- `thread_wakeup` up to its second section: what is done with the old state. -/
def threadWakeup (t : Tid) : Option Threads :=
  match (s.td t).state with
  | .run | .willStop => some (s.setState t .run)
  | .stop => some ((s.setState t .run).setDoing c (.waking t))
  | .exit => none

/-- The second section of `thread_wakeup`. -/
def wakeupAdd (t : Tid) : Threads :=
  { s.setDoing c .idle with tdRunnable := s.tdRunnable ++ [t] }

/-- `thread_will_stop`. -/
def threadWillStop : Option Threads :=
  match (s.td (s.cpu c).tid).state with
  | .run | .willStop => some (s.setState (s.cpu c).tid .willStop)
  | .stop | .exit => none

/-- `thread_exit` before it calls `schedule`. -/
def threadExit : Option Threads :=
  match (s.td (s.cpu c).tid).state with
  | .exit | .run | .willStop => some (s.setState (s.cpu c).tid .exit)
  | .stop => none

end Threads

/-! ### The machine -/

inductive ThreadEvent
  /-- `thread_init_pcpu` of a CPU whose stack is `k`. -/
  | initPcpu (c k : Nat)
  | schedule (c : Nat)
  | threadSwitch (c : Nat)
  | switched (c : Nat)
  /-- `thread_new` with the stack `k` that `alloc` returns. -/
  | new (c k : Nat)
  | wakeup (c : Nat) (t : Tid)
  | wakeupAdd (c : Nat)
  | willStop (c : Nat)
  | exit (c : Nat)

/-- `CPU c` does `e`. `none`: it cannot (another CPU holds the lock, it is in another section, the
stack is not free), or the code panics. -/
def Threads.step (s : Threads) : ThreadEvent → Option Threads
  | .initPcpu c k =>
    if s.threadLock = none ∧ (s.cpu c).doing = .off ∧ s.allocated k = false then
      s.threadInitPcpu c k
    else none
  | .schedule c =>
    if s.threadLock = none ∧ (s.cpu c).doing = .idle then s.schedule c else none
  | .threadSwitch c =>
    match (s.cpu c).doing with
    | .switching old new => some (s.threadSwitch c old new)
    | _ => none
  | .switched c => if (s.cpu c).doing = .switched then some (s.switched c) else none
  | .new c k =>
    if s.threadLock = none ∧ (s.cpu c).doing = .idle ∧ s.allocated k = false then s.threadNew k
    else none
  | .wakeup c t =>
    if s.threadLock = none ∧ (s.cpu c).doing = .idle then s.threadWakeup c t else none
  | .wakeupAdd c =>
    match (s.cpu c).doing with
    | .waking t => if s.threadLock = none then some (s.wakeupAdd c t) else none
    | _ => none
  | .willStop c =>
    if s.threadLock = none ∧ (s.cpu c).doing = .idle then s.threadWillStop c else none
  | .exit c =>
    if s.threadLock = none ∧ (s.cpu c).doing = .idle then s.threadExit c else none

/-- `thread_init_global`: all descriptors are free, no CPU has started. -/
structure Threads.Init (s : Threads) : Prop where
  state : ∀ t, (s.td t).state = .exit
  free : s.tdFree = List.finRange 256
  runnable : s.tdRunnable = []
  lock : s.threadLock = none
  oldStack : s.oldStack = none
  cpu : ∀ c, (s.cpu c).doing = .off

def threadMachine : Lib.Machine Threads ThreadEvent where
  init := Threads.Init
  step := Threads.step

end OnDemandVirt.Vmm
