import OnDemandVirt.Uhci.Queue

/-!
# The shadow buffers of a queue

`make_buffer_list` gathers the buffers of the guest's TDs, in one pass that ends at the first
buffer that begins with an inactive TD or with the buffer pointer 0. `uhci_shadow_buffer` allocates
a shadow for each of them, and in a second pass moves the buffer pointer of each shadow TD into the
shadow of the first buffer that holds it. A TD whose pointer no buffer holds keeps the guest's.
-/

namespace OnDemandVirt.Uhci

def tdTokenPidSetup : BitVec 8 := 0x2d

/-- `get_pid_from_td`. -/
def getPidFromTd (td : Td) : BitVec 8 := td.token.setWidth 8

def isActiveTd (td : Td) : Bool := isActive td.status

/-- `uhci_td_maxlen`. -/
def uhciTdMaxlen (td : Td) : Nat :=
  let len := td.token >>> 21
  if len = 0x7ff ∨ td.buffer = 0 then 0 else len.toNat + 1

/-- `struct usb_buffer_list`, without the mapping in the VMM. -/
structure UsbBuffer where
  pid : BitVec 8
  padr : Nat
  offset : Nat
  len : Nat
deriving DecidableEq

/-- The inner loop of `make_buffer_list` past its first TD: the length of the TDs that go on where
the buffer ends at `nextAddrPhys`, and the TDs behind them. -/
def continueBuffer (pid : BitVec 8) : Nat → List Td → Nat × List Td
  | _, [] => (0, [])
  | nextAddrPhys, td :: tds =>
    if isActiveTd td ∧ pid = getPidFromTd td ∧ td.buffer = BitVec.ofNat 32 nextAddrPhys then
      let r := continueBuffer pid (nextAddrPhys + uhciTdMaxlen td) tds
      (uhciTdMaxlen td + r.1, r.2)
    else (0, td :: tds)

theorem length_continueBuffer (pid : BitVec 8) (a : Nat) (tds : List Td) :
    (continueBuffer pid a tds).2.length ≤ tds.length := by
  induction tds generalizing a with
  | nil => exact Nat.le_refl _
  | cons td tds ih =>
    rw [continueBuffer]
    split
    · exact Nat.le_succ_of_le (ih _)
    · exact Nat.le_refl _

/-- `make_buffer_list`, from an offset on. -/
def makeBufferList (offset : Nat) : List Td → List UsbBuffer
  | [] => []
  | td :: tds =>
    if isActiveTd td ∧ td.buffer ≠ 0 then
      let pid := getPidFromTd td
      let r := continueBuffer pid (td.buffer.toNat + uhciTdMaxlen td) tds
      let ub : UsbBuffer := ⟨pid, td.buffer.toNat, offset, uhciTdMaxlen td + r.1⟩
      ub :: makeBufferList (if pid ≠ tdTokenPidSetup then offset + ub.len else 0) r.2
    else []
termination_by tds => tds.length
decreasing_by exact Nat.lt_succ_of_le (length_continueBuffer _ _ _)

/-- The search of `uhci_shadow_buffer` for the buffer that a pointer lies in, with the guest's and
the host's lists side by side. `none` is the assertion that fails. -/
def fitBuffer (buffer : BitVec 32) : List (UsbBuffer × UsbBuffer) → Option (BitVec 32)
  | [] => some buffer
  | (gub, hub) :: bs =>
    if hub.padr < gub.padr then none
    else if gub.padr ≤ buffer.toNat ∧ buffer.toNat < gub.padr + gub.len then
      some (buffer + BitVec.ofNat 32 (hub.padr - gub.padr))
    else fitBuffer buffer bs

def fitTd (bs : List (UsbBuffer × UsbBuffer)) (td : HostTd) : Option HostTd :=
  if td.buffer = 0 ∨ isActive td.status = false then some td
  else (fitBuffer td.buffer bs).map fun buffer => { td with buffer := buffer }

/-- The second loop of `uhci_shadow_buffer`. -/
def fitTds (bs : List (UsbBuffer × UsbBuffer)) : List HostTd → Option (List HostTd)
  | [] => some []
  | td :: tds => (fitTd bs td).bind fun td => (fitTds bs tds).map (td :: ·)

/-- The shadow of each buffer, where `alloc2_aligned` has put it. -/
def shadowBuffers (gubs : List UsbBuffer) (padr : Nat → Nat) : List UsbBuffer :=
  gubs.mapIdx fun i gub => { gub with padr := padr i }

def uhciShadowBuffer (gubs : List UsbBuffer) (padr : Nat → Nat) (tds : List HostTd) :
    Option (List UsbBuffer × List HostTd) :=
  if gubs = [] then none
  else (fitTds (gubs.zip (shadowBuffers gubs padr)) tds).map fun tds =>
    (shadowBuffers gubs padr, tds)

/-- The guest's TDs behind the host's. -/
def HostQueue.guestTds (q : HostQueue) (mem : TdMemory) : List Td :=
  q.tds.map fun td => mem td.gTdPhys

/-- The buffers of a copied queue: `make_buffer_list`, and `uhci_shadow_buffer` as its callers call
it, if there are buffers. -/
def HostQueue.shadowed (q : HostQueue) (mem : TdMemory) (padr : Nat → Nat) :
    Option (List UsbBuffer × List HostTd) :=
  let gubs := makeBufferList 0 (q.guestTds mem)
  if gubs ≠ [] then uhciShadowBuffer gubs padr q.tds else some ([], q.tds)

/-- The bytes that the host controller transfers for a TD. -/
def tdLength (token : BitVec 32) : Nat := ((token >>> 21).toNat + 1) % 0x800

/-- A shadow TD transfers to or from a shadow buffer, at the place of the guest's bytes. -/
def Contained (gubs hubs : List UsbBuffer) (guest : Td) (td : HostTd) : Prop :=
  isActive td.status = true → tdLength td.token ≠ 0 →
    ∃ (i : Nat) (gub hub : UsbBuffer), gubs[i]? = some gub ∧ hubs[i]? = some hub ∧
      hub.padr ≤ td.buffer.toNat ∧ td.buffer.toNat + tdLength td.token ≤ hub.padr + hub.len ∧
      td.buffer.toNat + gub.padr = guest.buffer.toNat + hub.padr

/-- No assertion fails, and every shadow TD is contained. -/
def HostQueue.Contains (q : HostQueue) (mem : TdMemory) (padr : Nat → Nat) : Prop :=
  ∃ hubs tds, q.shadowed mem padr = some (hubs, tds) ∧ tds.length = q.tds.length ∧
    ∀ (i : Nat) guest td, (q.guestTds mem)[i]? = some guest → tds[i]? = some td →
      Contained (makeBufferList 0 (q.guestTds mem)) hubs guest td

/-! ### The runs of the guest's TDs -/

/-- A TD goes on where the TD before it ends. -/
def Td.Joins (td next : Td) : Prop :=
  isActiveTd next = true ∧ getPidFromTd td = getPidFromTd next ∧
    next.buffer = td.buffer + BitVec.ofNat 32 (uhciTdMaxlen td)

instance (td next : Td) : Decidable (td.Joins next) := inferInstanceAs (Decidable (_ ∧ _))

/-- The TDs cut into runs of TDs that go on one another: the first TD of each, and their length. -/
def runs : List Td → List (Td × Nat)
  | [] => []
  | [td] => [(td, uhciTdMaxlen td)]
  | td :: next :: tds =>
    match runs (next :: tds) with
    | [] => [(td, uhciTdMaxlen td)]
    | run :: rs =>
      if td.Joins next then (td, uhciTdMaxlen td + run.2) :: rs
      else (td, uhciTdMaxlen td) :: run :: rs

/-- A range of guest addresses. -/
structure Span where
  base : Nat
  len : Nat
deriving DecidableEq

def Span.Holds (s : Span) (b : BitVec 32) : Prop := s.base ≤ b.toNat ∧ b.toNat < s.base + s.len

/-- The ranges of the runs, up to the first that begins with an inactive TD or a zero pointer. -/
def spans (tds : List Td) : List Span :=
  ((runs tds).takeWhile fun run => isActiveTd run.1 ∧ run.1.buffer ≠ 0).map fun run =>
    ⟨run.1.buffer.toNat, run.2⟩

/-- No range before the `m`-th holds the address. -/
structure Reaches (ss : List Span) (b : BitVec 32) (m : Nat) (s : Span) : Prop where
  here : ss[m]? = some s
  before : ∀ j < m, ∀ t, ss[j]? = some t → ¬t.Holds b

/-- A TD fits the ranges: the first of them that holds its first byte holds all its bytes, and the
shadows of the ranges that the search passes lie above them. -/
structure Td.Fits (td : Td) (ss : List Span) (padr : Nat → Nat) : Prop where
  above : isActiveTd td = true → td.buffer ≠ 0 → ∀ m s, Reaches ss td.buffer m s → s.base ≤ padr m
  inside : isActiveTd td = true → tdLength td.token ≠ 0 → ∃ m s, Reaches ss td.buffer m s ∧
    s.base ≤ td.buffer.toNat ∧ td.buffer.toNat + tdLength td.token ≤ s.base + s.len

/-- Where `alloc2_aligned` may put blocks for the ranges: below 4 GB, and apart. -/
structure Placement (ss : List Span) where
  padr : Nat → Nat
  below : ∀ i s, ss[i]? = some s → padr i + s.len ≤ 2 ^ 32
  apart : ∀ i j s t, ss[i]? = some s → ss[j]? = some t → i ≠ j →
    padr i + s.len ≤ padr j ∨ padr j + t.len ≤ padr i

end OnDemandVirt.Uhci
