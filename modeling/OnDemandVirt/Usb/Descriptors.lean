import OnDemandVirt.Usb.Hook

/-!
# The descriptors of a configuration

`extract_config_descriptors` goes through the bytes that a device returns by the `bLength` of each
descriptor, and tacks the configuration, interface and endpoint descriptors on to arrays of the
driver's own structures, which have pointers behind the bytes of the descriptor. Nothing is checked
but `bLength != 0`. So the lengths may lead the copy out of the bytes received, out of the structure,
or over its pointers, an endpoint may go to the interface of the configuration before, and the array
of endpoints need not have `bNumEndpoints` entries. The bytes for which nothing of this happens are
the regular ones (`extracts_iff`).
-/

namespace OnDemandVirt.Usb

abbrev Bytes := List (BitVec 8)

/-- A descriptor, with those of its `bLength` bytes that have been received. -/
structure Descriptor where
  bLength : Nat
  bDescriptorType : BitVec 8
  bytes : Bytes

inductive Kind
  | config
  | interface
  | endpoint
deriving DecidableEq

/-- `USB_DT_CONFIG`, `USB_DT_INTERFACE`, `USB_DT_ENDPOINT`, or another. -/
def kindOf (bDescriptorType : BitVec 8) : Option Kind :=
  if bDescriptorType = 0x02 then some .config
  else if bDescriptorType = 0x04 then some .interface
  else if bDescriptorType = 0x05 then some .endpoint
  else none

def Descriptor.kind (d : Descriptor) : Option Kind := kindOf d.bDescriptorType

/-- A pointer: null, made by the driver, or left by the bytes of a descriptor. -/
inductive Ptr (α : Type)
  | null
  | valid (a : α)
  | forged

/-- Bytes of a structure, as far as the descriptor has written them. -/
def field (bytes : Bytes) (at' size : Nat) : Bytes := (bytes.drop at').take size

/-- A pointer in a structure that was cleared before the descriptor was copied to it. -/
def pointerAt {α : Type} (bytes : Bytes) (at' : Nat) : Ptr α :=
  if qword (field bytes at' 8) = 0 then .null else .forged

/-- `extralen` of a configuration or an interface, behind the descriptor and two pointers. -/
def extralenOf (bytes : Bytes) : BitVec 64 := qword (field bytes 25 4)

/-- `struct usb_interface_descriptor`, with the endpoint descriptors in its array. -/
structure Interface where
  bytes : Bytes
  endpoint : Ptr (List Bytes)
  extra : Ptr Bytes
  extralen : BitVec 64

/-- `struct usb_config_descriptor`, with its array of interfaces. -/
structure Config where
  bytes : Bytes
  altsetting : List Interface
  extra : Ptr Bytes
  extralen : BitVec 64

def bNumEndpoints (bytes : Bytes) : Nat := (bytes[4]?.getD 0).toNat

/-- The local variables of the loop. `idescp` is a place in the array of interfaces of a
configuration. -/
structure Extraction where
  cdesc : List Config
  idescp : Option (Nat × Nat)
  nIdesc : Nat
  nEdesc : Nat
  odesc : Bytes
  lastType : BitVec 8

/-- `tack_on` of a descriptor copies all its bytes to a structure of the given size. -/
def Descriptor.copies (d : Descriptor) (unitsize : Nat) : Prop :=
  d.bytes.length = d.bLength ∧ d.bLength ≤ unitsize

instance (d : Descriptor) (unitsize : Nat) : Decidable (d.copies unitsize) :=
  inferInstanceAs (Decidable (_ ∧ _))

/-- `tack_on` of the bytes of a descriptor to other bytes. -/
def tackOnExtra (extra : Ptr Bytes) (extralen : BitVec 64) (d : Descriptor) :
    Option (Ptr Bytes × BitVec 64) :=
  if d.bytes.length ≠ d.bLength then none
  else if extralen = 0 then some (.valid d.bytes, BitVec.ofNat 64 d.bLength)
  else
    match extra with
    | .valid bytes => some (.valid (bytes ++ d.bytes), extralen + BitVec.ofNat 64 d.bLength)
    | _ => none

/-- `case USB_DT_CONFIG`. -/
def Extraction.addConfig (st : Extraction) (d : Descriptor) : Option Extraction :=
  if d.copies 29 then
    some { st with
      cdesc := st.cdesc ++ [⟨d.bytes, [], pointerAt d.bytes 17, extralenOf d.bytes⟩]
      nIdesc := 0
      nEdesc := 0 }
  else none

/-- `case USB_DT_INTERFACE`. -/
def Extraction.addInterface (st : Extraction) (d : Descriptor) : Option Extraction :=
  match st.cdesc.getLast? with
  | none => some st
  | some cdescp =>
    if d.copies 29 then
      let idesc := ⟨d.bytes, pointerAt d.bytes 9, pointerAt d.bytes 17, extralenOf d.bytes⟩
      some { st with
        cdesc := st.cdesc.dropLast ++
          [{ cdescp with altsetting := cdescp.altsetting.take st.nIdesc ++ [idesc] }]
        idescp := some (st.cdesc.length - 1, st.nIdesc)
        nEdesc := 0
        nIdesc := st.nIdesc + 1 }
    else none

/-- A write to the interface at a place. -/
def Extraction.updateInterface (st : Extraction) (p : Nat × Nat) (f : Interface → Option Interface) :
    Option Extraction :=
  st.cdesc[p.1]?.bind fun cdescp => cdescp.altsetting[p.2]?.bind fun idescp => (f idescp).map fun idescp =>
    { st with
      cdesc := st.cdesc.set p.1 { cdescp with altsetting := cdescp.altsetting.set p.2 idescp } }

/-- `tack_on` of an endpoint descriptor to the array of an interface. -/
def tackOnEndpoint (nEdesc : Nat) (bytes : Bytes) (idescp : Interface) : Option Interface :=
  if nEdesc = 0 then some { idescp with endpoint := .valid [bytes] }
  else
    match idescp.endpoint with
    | .valid es =>
      if nEdesc ≤ es.length then some { idescp with endpoint := .valid (es.take nEdesc ++ [bytes]) }
      else none
    | _ => none

/-- `case USB_DT_ENDPOINT`. -/
def Extraction.addEndpoint (st : Extraction) (d : Descriptor) : Option Extraction :=
  match st.idescp with
  | none => some st
  | some idescp =>
    if d.copies 25 then
      (st.updateInterface idescp (tackOnEndpoint st.nEdesc d.bytes)).map fun st =>
        { st with nEdesc := st.nEdesc + 1 }
    else none

/-- The other descriptors, by the type of the one before. -/
def Extraction.addOther (st : Extraction) (d : Descriptor) : Option Extraction :=
  match kindOf st.lastType with
  | some .config =>
    st.cdesc.getLast?.bind fun cdescp => (tackOnExtra cdescp.extra cdescp.extralen d).map fun r =>
      { st with cdesc := st.cdesc.dropLast ++ [{ cdescp with extra := r.1, extralen := r.2 }] }
  | some .interface =>
    st.idescp.bind fun p => st.updateInterface p fun idescp =>
      (tackOnExtra idescp.extra idescp.extralen d).map fun r =>
        { idescp with extra := r.1, extralen := r.2 }
  | some .endpoint => some st
  | none => if d.bytes.length = d.bLength then some { st with odesc := st.odesc ++ d.bytes } else none

/-- The switch in the loop. `none` is a read outside of the bytes received, a write outside of an
array, or the use of a null or forged pointer. -/
def Extraction.add (st : Extraction) (d : Descriptor) : Option Extraction :=
  match d.kind with
  | some .config => st.addConfig d
  | some .interface => st.addInterface d
  | some .endpoint => st.addEndpoint d
  | none => st.addOther d

def Extraction.step (st : Extraction) (d : Descriptor) : Option Extraction :=
  (st.add d).map fun st => { st with lastType := d.bDescriptorType }

theorem length_drop_lt {bLength : BitVec 8} (h : bLength ≠ 0) (bytes : Bytes) (hb : bytes ≠ []) :
    (bytes.drop bLength.toNat).length < bytes.length := by
  have hpos : bLength.toNat ≠ 0 := fun hzero => h (BitVec.eq_of_toNat_eq hzero)
  have := List.length_pos_iff.mpr hb
  rw [List.length_drop]
  omega

/-- The loop of `extract_config_descriptors`, over the bytes from `buf_p` on. -/
def Extraction.loop (st : Extraction) : Bytes → Option Extraction
  | [] => some st
  | [bLength] => if bLength = 0 then some st else none
  | bLength :: bDescriptorType :: rest =>
    let bytes := bLength :: bDescriptorType :: rest
    if h : bLength = 0 then some st
    else (st.step ⟨bLength.toNat, bDescriptorType, bytes.take bLength.toNat⟩).bind fun st =>
      st.loop (bytes.drop bLength.toNat)
termination_by bytes => bytes.length
decreasing_by exact length_drop_lt h _ nofun

def extractConfigDescriptors (bytes : Bytes) : Option (List Config) :=
  (Extraction.loop ⟨[], none, 0, 0, [], 0⟩ bytes).map Extraction.cdesc

/-! ### The descriptors of a string -/

/-- The descriptors of a string, up to one of length 0. `none` is a header that is cut. -/
def descriptors : Bytes → Option (List Descriptor)
  | [] => some []
  | [bLength] => if bLength = 0 then some [] else none
  | bLength :: bDescriptorType :: rest =>
    let bytes := bLength :: bDescriptorType :: rest
    if h : bLength = 0 then some []
    else (descriptors (bytes.drop bLength.toNat)).map
      (⟨bLength.toNat, bDescriptorType, bytes.take bLength.toNat⟩ :: ·)
termination_by bytes => bytes.length
decreasing_by exact length_drop_lt h _ nofun

/-- The configuration, interface and endpoint descriptors among them. -/
def relevant (ds : List Descriptor) : List (Kind × Bytes) :=
  ds.filterMap fun d => d.kind.map (·, d.bytes)

/-! ### The tree -/

def Interface.endpoints (i : Interface) : List Bytes :=
  match i.endpoint with
  | .valid es => es
  | _ => []

def Interface.flatten (i : Interface) : List (Kind × Bytes) :=
  (.interface, i.bytes) :: i.endpoints.map (Kind.endpoint, ·)

def Config.flatten (c : Config) : List (Kind × Bytes) :=
  (.config, c.bytes) :: c.altsetting.flatMap Interface.flatten

/-- The descriptors of a tree in order. -/
def flatten (tree : List Config) : List (Kind × Bytes) := tree.flatMap Config.flatten

/-- The array of endpoints has the entries that are read by `bNumEndpoints`. -/
def Interface.Proper (i : Interface) : Prop :=
  match i.endpoint with
  | .null => bNumEndpoints i.bytes = 0
  | .valid es => es.length = bNumEndpoints i.bytes
  | .forged => False

/-- The string is read and the arrays are written inside their bounds, and the tree has exactly the
descriptors of the string in order, and the endpoints of each interface by its own number. -/
def Extracts (bytes : Bytes) : Prop :=
  ∃ tree ds, extractConfigDescriptors bytes = some tree ∧ descriptors bytes = some ds ∧
    flatten tree = relevant ds ∧ ∀ c ∈ tree, ∀ i ∈ c.altsetting, i.Proper

/-! ### The regular strings -/

/-- A descriptor has been received, as far as it is copied, and is not longer than the structure of
its kind. Behind a configuration or an interface whose bytes reach to `extralen`, another descriptor
is regular only if they leave it 0. -/
def Descriptor.Fits (prev : Option Descriptor) (d : Descriptor) : Prop :=
  match d.kind with
  | some .config => d.copies 29
  | some .interface => d.copies 29
  | some .endpoint => d.copies 25
  | none =>
    match prev with
    | none => d.bytes.length = d.bLength
    | some p =>
      match p.kind with
      | some .endpoint => True
      | none => d.bytes.length = d.bLength
      | some _ => d.bytes.length = d.bLength ∧ extralenOf p.bytes = 0

def AllFit : Option Descriptor → List Descriptor → Prop
  | _, [] => True
  | prev, d :: ds => d.Fits prev ∧ AllFit (some d) ds

/-- Interfaces come behind a configuration, endpoints behind an interface of the same configuration. -/
def Nested : Option Kind → List (Kind × Bytes) → Prop
  | _, [] => True
  | prev, (k, _) :: l =>
    (k = .interface → prev ≠ none) ∧ (k = .endpoint → prev ≠ none ∧ prev ≠ some .config) ∧
      Nested (some k) l

/-- Behind each interface there are `bNumEndpoints` endpoints; if there are none, its bytes do not
reach to the pointer to them, or leave it null. -/
def Counted : List (Kind × Bytes) → Prop
  | [] => True
  | (k, bytes) :: l =>
    (k = .interface → (l.takeWhile fun x => x.1 = .endpoint).length = bNumEndpoints bytes ∧
      (bNumEndpoints bytes = 0 → qword (field bytes 9 8) = 0)) ∧ Counted l

def Regular (bytes : Bytes) : Prop :=
  ∃ ds, descriptors bytes = some ds ∧ AllFit none ds ∧ Nested none (relevant ds) ∧
    Counted (relevant ds)

variable {st st' : Extraction} {d : Descriptor} {ds done : List Descriptor} {bytes : Bytes}
  {tree : List Config} {prev : Option Kind}

/-! ### The loop over the descriptors -/

def Extraction.run (st : Extraction) : List Descriptor → Option Extraction
  | [] => some st
  | d :: ds => (st.step d).bind fun st => st.run ds

theorem loop_eq (st : Extraction) (bytes : Bytes) :
    st.loop bytes = (descriptors bytes).bind st.run := by
  induction bytes using descriptors.induct generalizing st with
  | case1 => simp [Extraction.loop, descriptors, Extraction.run]
  | case2 => simp [Extraction.loop, descriptors, Extraction.run]
  | case3 bLength h =>
    rw [Extraction.loop, descriptors, if_neg h, if_neg h]
    rfl
  | case4 bDescriptorType rest => simp [Extraction.loop, descriptors, Extraction.run]
  | case5 bLength bDescriptorType rest bytes h ih =>
    rw [Extraction.loop, descriptors, dif_neg h, dif_neg h]
    have hrest (st : Extraction) : st.loop ((bLength :: bDescriptorType :: rest).drop bLength.toNat) =
        (descriptors ((bLength :: bDescriptorType :: rest).drop bLength.toNat)).bind st.run := ih st
    simp only [hrest]
    cases descriptors ((bLength :: bDescriptorType :: rest).drop bLength.toNat) with
    | none => cases st.step _ <;> rfl
    | some ds => rfl

/-! ### The order of a tree -/

/-- The kind of the last of some descriptors. -/
def lastKind (prev : Option Kind) (l : List (Kind × Bytes)) : Option Kind :=
  l.foldl (fun _ x => some x.1) prev

theorem lastKind_append (l l' : List (Kind × Bytes)) :
    lastKind prev (l ++ l') = lastKind (lastKind prev l) l' := List.foldl_append ..

theorem lastKind_ne_none {l : List (Kind × Bytes)} (h : prev ≠ none) : lastKind prev l ≠ none := by
  induction l generalizing prev with
  | nil => exact h
  | cons x l ih => exact ih (Option.some_ne_none x.1)

theorem nested_append {l l' : List (Kind × Bytes)} :
    Nested prev (l ++ l') ↔ Nested prev l ∧ Nested (lastKind prev l) l' := by
  induction l generalizing prev with
  | nil => exact ⟨fun h => ⟨trivial, h⟩, fun h => h.2⟩
  | cons x l ih =>
    rw [List.cons_append, Nested, Nested, ih, and_assoc, and_assoc]
    rfl

theorem nested_endpoints (es : List Bytes) (h : prev ≠ none ∧ prev ≠ some .config) :
    Nested prev (es.map (Kind.endpoint, ·)) := by
  induction es generalizing prev with
  | nil => trivial
  | cons e es ih => exact ⟨nofun, fun _ => h, ih ⟨nofun, nofun⟩⟩

theorem nested_interfaces (is : List Interface) (h : prev ≠ none) :
    Nested prev (is.flatMap Interface.flatten) := by
  induction is generalizing prev with
  | nil => trivial
  | cons i is ih =>
    rw [List.flatMap_cons, nested_append]
    exact ⟨⟨fun _ => h, nofun, nested_endpoints _ ⟨nofun, nofun⟩⟩, ih (lastKind_ne_none h)⟩

theorem flatten_cons (c : Config) (tree : List Config) : flatten (c :: tree) =
    (.config, c.bytes) :: (c.altsetting.flatMap Interface.flatten ++ flatten tree) := rfl

theorem flatten_append (tree tree' : List Config) :
    flatten (tree ++ tree') = flatten tree ++ flatten tree' := List.flatMap_append

/-- The descriptors of a tree are nested. -/
theorem nested_flatten (tree : List Config) : Nested prev (flatten tree) := by
  induction tree generalizing prev with
  | nil => trivial
  | cons c tree ih =>
    rw [flatten, List.flatMap_cons, nested_append]
    exact ⟨⟨nofun, nofun, nested_interfaces _ nofun⟩, ih⟩

/-! ### The numbers of endpoints -/

/-- The descriptors do not begin with an endpoint. -/
def Starts (l : List (Kind × Bytes)) : Prop := ∀ x ∈ l.head?, x.1 ≠ .endpoint

theorem starts_interfaces {l : List (Kind × Bytes)} (h : Starts l) (is : List Interface) :
    Starts (is.flatMap Interface.flatten ++ l) := by
  cases is with
  | nil => exact h
  | cons i is =>
    intro x hx
    cases hx
    exact nofun

theorem starts_flatten (tree : List Config) : Starts (flatten tree) := by
  cases tree with
  | nil => exact nofun
  | cons c tree =>
    intro x hx
    cases hx
    exact nofun

theorem counted_endpoints {l : List (Kind × Bytes)} (es : List Bytes) :
    Counted (es.map (Kind.endpoint, ·) ++ l) ↔ Counted l := by
  induction es with
  | nil => exact Iff.rfl
  | cons e es ih =>
    rw [← ih]
    exact ⟨fun h => h.2, fun h => ⟨nofun, h⟩⟩

/-- The endpoints of an interface, by number. -/
def Interface.Counts (i : Interface) : Prop :=
  i.endpoints.length = bNumEndpoints i.bytes ∧
    (bNumEndpoints i.bytes = 0 → qword (field i.bytes 9 8) = 0)

theorem counted_interface {l : List (Kind × Bytes)} (h : Starts l) (i : Interface) :
    Counted (i.flatten ++ l) ↔ i.Counts ∧ Counted l := by
  have htake : ((i.endpoints.map (Kind.endpoint, ·) ++ l).takeWhile fun x => x.1 = .endpoint) =
      i.endpoints.map (Kind.endpoint, ·) := by
    rw [List.takeWhile_append_of_pos (by simp)]
    cases l with
    | nil => rw [List.takeWhile_nil, List.append_nil]
    | cons x l => rw [List.takeWhile_cons_of_neg (by simpa using h x rfl), List.append_nil]
  rw [Interface.flatten, List.cons_append, Counted, htake, counted_endpoints, List.length_map]
  exact and_congr_left fun _ => ⟨fun h => h rfl, fun h _ => h⟩

theorem counted_interfaces {l : List (Kind × Bytes)} (h : Starts l) (is : List Interface) :
    Counted (is.flatMap Interface.flatten ++ l) ↔ (∀ i ∈ is, i.Counts) ∧ Counted l := by
  induction is with
  | nil => simp
  | cons i is ih =>
    rw [List.flatMap_cons, List.append_assoc, counted_interface (starts_interfaces h is), ih,
      List.forall_mem_cons, and_assoc]

theorem counted_flatten (tree : List Config) :
    Counted (flatten tree) ↔ ∀ c ∈ tree, ∀ i ∈ c.altsetting, i.Counts := by
  induction tree with
  | nil => simp [flatten, Counted]
  | cons c tree ih =>
    rw [flatten_cons, Counted, counted_interfaces (starts_flatten tree), List.forall_mem_cons]
    exact and_iff_right (by simp) |>.trans (and_congr_right fun _ => ih)

/-- A pointer to endpoints is that of a driver's array, or what the bytes of the interface left. -/
def Interface.PtrOk (i : Interface) : Prop :=
  i.endpoint = pointerAt i.bytes 9 ∨ ∃ es, es ≠ [] ∧ i.endpoint = .valid es

theorem Interface.PtrOk.proper_iff {i : Interface} (h : i.PtrOk) : i.Proper ↔ i.Counts := by
  rcases h with h | ⟨es, hne, h⟩
  · rw [Interface.Proper, Interface.Counts, Interface.endpoints, h, pointerAt]
    by_cases hq : qword (field i.bytes 9 8) = 0
    · simp only [hq, if_true, List.length_nil, implies_true, and_true]
      exact eq_comm
    · simp only [hq, if_false, List.length_nil, false_iff]
      exact fun hc => hc.2 hc.1.symm
  · have hpos := List.length_pos_iff.mpr hne
    rw [Interface.Proper, Interface.Counts, Interface.endpoints, h]
    exact ⟨fun heq => ⟨heq, fun hz => by omega⟩, fun hc => hc.1⟩

/-! ### One turn -/

/-- The local variables behind a descriptor of the given kind. -/
inductive Shape (st : Extraction) : Option Kind → Prop
  | empty : st.cdesc = [] → Shape st none
  | config {cs c} : st.cdesc = cs ++ [c] → c.altsetting = [] → st.nIdesc = 0 → Shape st (some .config)
  | interface {cs c is i k} : k ≠ .config → st.cdesc = cs ++ [c] → c.altsetting = is ++ [i] →
      st.nIdesc = is.length + 1 → st.idescp = some (cs.length, is.length) →
      st.nEdesc = i.endpoints.length → Shape st (some k)

/-- The state of the loop behind some descriptors. -/
structure Inv (st : Extraction) (done : List Descriptor) : Prop where
  flat : flatten st.cdesc = relevant done
  shape : Shape st (lastKind none (relevant done))
  ptrs : ∀ c ∈ st.cdesc, ∀ i ∈ c.altsetting, i.PtrOk
  lastType : st.lastType = (done.getLast?.map Descriptor.bDescriptorType).getD 0
  extraConfig : ∀ p, done.getLast? = some p → p.kind = some .config → ∀ c, st.cdesc.getLast? = some c →
    c.extra = pointerAt p.bytes 17 ∧ c.extralen = extralenOf p.bytes
  extraInterface : ∀ p, done.getLast? = some p → p.kind = some .interface →
    ∀ c i, st.cdesc.getLast? = some c → c.altsetting.getLast? = some i →
    i.extra = pointerAt p.bytes 17 ∧ i.extralen = extralenOf p.bytes

theorem inv_init : Inv ⟨[], none, 0, 0, [], 0⟩ [] :=
  ⟨rfl, .empty rfl, nofun, rfl, nofun, nofun⟩

theorem relevant_concat_some {k : Kind} (h : d.kind = some k) :
    relevant (done ++ [d]) = relevant done ++ [(k, d.bytes)] := by
  rw [relevant, List.filterMap_append, List.filterMap_cons_some (b := (k, d.bytes)) (by rw [h]; rfl)]
  rfl

theorem relevant_concat_none (h : d.kind = none) : relevant (done ++ [d]) = relevant done := by
  rw [relevant, List.filterMap_append, List.filterMap_cons_none (by rw [h]; rfl)]
  exact List.append_nil _

theorem lastKind_concat (l : List (Kind × Bytes)) (x : Kind × Bytes) :
    lastKind prev (l ++ [x]) = some x.1 := by
  rw [lastKind_append]
  rfl

/-- Behind a descriptor of one of the three kinds, the last of them is it. -/
theorem lastKind_of_getLast? {p : Descriptor} {k : Kind} (h : done.getLast? = some p)
    (hk : p.kind = some k) : lastKind none (relevant done) = some k := by
  obtain ⟨ds, rfl⟩ := List.getLast?_eq_some_iff.mp h
  rw [relevant_concat_some hk, lastKind_concat]

theorem Shape.exists_config {k : Kind} (h : Shape st (some k)) :
    ∃ cs c, st.cdesc = cs ++ [c] ∧ st.nIdesc = c.altsetting.length := by
  cases h with
  | config hc halt hn => exact ⟨_, _, hc, by rw [hn, halt]; rfl⟩
  | interface _ hc halt hn => exact ⟨_, _, hc, by rw [hn, halt, List.length_append]; rfl⟩

theorem step_some {st₁ : Extraction} (h : st.add d = some st₁) :
    st.step d = some { st₁ with lastType := d.bDescriptorType } := by
  rw [Extraction.step, h]
  rfl

theorem step_none (h : st.add d = none) : st.step d = none := by
  rw [Extraction.step, h]
  rfl

theorem flatten_addInterface (cs : List Config) (c : Config) (i : Interface) :
    flatten (cs ++ [{ c with altsetting := c.altsetting ++ [i] }]) = flatten (cs ++ [c]) ++ i.flatten := by
  simp [flatten, Config.flatten]

theorem flatten_lastInterface {cs : List Config} {c : Config} {is : List Interface} {i : Interface}
    (h : c.altsetting = is ++ [i]) (i' : Interface) {l : List (Kind × Bytes)}
    (hi : i'.flatten = i.flatten ++ l) :
    flatten (cs ++ [{ c with altsetting := is ++ [i'] }]) = flatten (cs ++ [c]) ++ l := by
  simp [flatten, Config.flatten, h, hi]

theorem updateInterface_last {cs : List Config} {c : Config} {is : List Interface} {i : Interface}
    (hc : st.cdesc = cs ++ [c]) (halt : c.altsetting = is ++ [i]) (f : Interface → Option Interface) :
    st.updateInterface (cs.length, is.length) f = (f i).map fun i' =>
      { st with cdesc := cs ++ [{ c with altsetting := is ++ [i'] }] } := by
  simp [Extraction.updateInterface, hc, halt]

theorem endpoints_of_pointerAt {i : Interface} (h : i.endpoint = pointerAt bytes 9) :
    i.endpoints = [] := by
  rw [Interface.endpoints, h, pointerAt]
  by_cases hq : qword (field bytes 9 8) = 0
  · rw [if_pos hq]
  · rw [if_neg hq]

theorem tackOnEndpoint_eq {i : Interface} (h : i.PtrOk) (bytes : Bytes) :
    tackOnEndpoint i.endpoints.length bytes i =
      some { i with endpoint := .valid (i.endpoints ++ [bytes]) } := by
  by_cases hnil : i.endpoints = []
  · rw [tackOnEndpoint, hnil, if_pos List.length_nil, List.nil_append]
  · have hlen : i.endpoints.length ≠ 0 := fun hz => hnil (List.length_eq_zero_iff.mp hz)
    rcases h with h | ⟨es, -, h⟩
    · exact absurd (endpoints_of_pointerAt h) hnil
    · have hes : i.endpoints = es := by rw [Interface.endpoints, h]
      rw [tackOnEndpoint, if_neg hlen, hes, h]
      simp

theorem Inv.step_config (h : Inv st done) (hk : d.kind = some .config) (hfit : d.copies 29) :
    ∃ st', st.step d = some st' ∧ Inv st' (done ++ [d]) := by
  have hadd : st.add d = some { st with
      cdesc := st.cdesc ++ [⟨d.bytes, [], pointerAt d.bytes 17, extralenOf d.bytes⟩]
      nIdesc := 0
      nEdesc := 0 } := by
    rw [Extraction.add, hk]
    exact if_pos hfit
  refine ⟨_, step_some hadd, ?_, ?_, ?_, ?_, ?_, ?_⟩
  · rw [relevant_concat_some hk, ← h.flat]
    exact flatten_append ..
  · rw [relevant_concat_some hk, lastKind_concat]
    exact .config rfl rfl rfl
  · intro c hc i hi
    rcases List.mem_append.mp hc with hc | hc
    · exact h.ptrs c hc i hi
    · rw [List.mem_singleton.mp hc] at hi
      cases hi
  · rw [List.getLast?_concat]
    rfl
  · intro p hp _ c hc
    rw [List.getLast?_concat] at hp hc
    cases hp
    cases hc
    exact ⟨rfl, rfl⟩
  · intro p hp hpk
    rw [List.getLast?_concat] at hp
    cases hp
    rw [hk] at hpk
    cases hpk

theorem Inv.step_interface (h : Inv st done) (hk : d.kind = some .interface) (hfit : d.copies 29)
    (hprev : lastKind none (relevant done) ≠ none) :
    ∃ st', st.step d = some st' ∧ Inv st' (done ++ [d]) := by
  obtain ⟨k, hlast⟩ := Option.ne_none_iff_exists'.mp hprev
  have hshape := h.shape
  rw [hlast] at hshape
  obtain ⟨cs, c, hc, hn⟩ := hshape.exists_config
  have hadd : st.add d = some { st with
      cdesc := cs ++ [{ c with altsetting := c.altsetting ++
        [⟨d.bytes, pointerAt d.bytes 9, pointerAt d.bytes 17, extralenOf d.bytes⟩] }]
      idescp := some (cs.length, c.altsetting.length)
      nEdesc := 0
      nIdesc := c.altsetting.length + 1 } := by
    rw [Extraction.add, hk]
    simp only [Extraction.addInterface, hc, List.getLast?_concat, if_pos hfit, List.dropLast_concat,
      hn, List.take_length, List.length_append, List.length_singleton, Nat.add_sub_cancel]
  have hendpoints : Interface.endpoints
      ⟨d.bytes, pointerAt d.bytes 9, pointerAt d.bytes 17, extralenOf d.bytes⟩ = [] :=
    endpoints_of_pointerAt rfl
  refine ⟨_, step_some hadd, ?_, ?_, ?_, ?_, ?_, ?_⟩
  · rw [relevant_concat_some hk, ← h.flat, hc]
    refine (flatten_addInterface ..).trans ?_
    rw [Interface.flatten, hendpoints]
    rfl
  · rw [relevant_concat_some hk, lastKind_concat]
    exact .interface nofun rfl rfl rfl rfl (by rw [hendpoints]; rfl)
  · intro c' hc' i hi
    rcases List.mem_append.mp hc' with hc' | hc'
    · exact h.ptrs c' (by rw [hc]; exact List.mem_append_left _ hc') i hi
    · rw [List.mem_singleton.mp hc'] at hi
      rcases List.mem_append.mp hi with hi | hi
      · exact h.ptrs c (by rw [hc]; simp) i hi
      · rw [List.mem_singleton.mp hi]
        exact .inl rfl
  · rw [List.getLast?_concat]
    rfl
  · intro p hp hpk
    rw [List.getLast?_concat] at hp
    cases hp
    rw [hk] at hpk
    cases hpk
  · intro p hp _ c' i hc' hi
    rw [List.getLast?_concat] at hp hc'
    cases hp
    cases hc'
    rw [List.getLast?_concat] at hi
    cases hi
    exact ⟨rfl, rfl⟩

/-- What stays with a turn that changes the last interface only. -/
theorem ptrs_lastInterface {cs : List Config} {c : Config} {is : List Interface} {i' : Interface}
    (h : ∀ c ∈ cs, ∀ i ∈ c.altsetting, i.PtrOk) (his : ∀ i ∈ is, i.PtrOk) (hi : i'.PtrOk) :
    ∀ c' ∈ cs ++ [{ c with altsetting := is ++ [i'] }], ∀ i ∈ c'.altsetting, i.PtrOk := by
  intro c' hc' i hi'
  rcases List.mem_append.mp hc' with hc' | hc'
  · exact h c' hc' i hi'
  · rw [List.mem_singleton.mp hc'] at hi'
    rcases List.mem_append.mp hi' with hi' | hi'
    · exact his i hi'
    · rw [List.mem_singleton.mp hi']
      exact hi

theorem Inv.step_endpoint (h : Inv st done) (hk : d.kind = some .endpoint) (hfit : d.copies 25)
    (hprev : lastKind none (relevant done) ≠ none ∧ lastKind none (relevant done) ≠ some .config) :
    ∃ st', st.step d = some st' ∧ Inv st' (done ++ [d]) := by
  have hshape := h.shape
  generalize lastKind none (relevant done) = k at hshape hprev
  cases hshape with
  | empty => exact absurd rfl hprev.1
  | config => exact absurd rfl hprev.2
  | @interface cs c is i k hne hc halt hn hp he =>
    have hptrs := h.ptrs
    rw [hc] at hptrs
    have hi : i.PtrOk := hptrs c (by simp) i (by simp [halt])
    have hadd : st.add d = some { st with
        cdesc := cs ++ [{ c with altsetting := is ++
          [{ i with endpoint := .valid (i.endpoints ++ [d.bytes]) }] }]
        nEdesc := st.nEdesc + 1 } := by
      rw [Extraction.add, hk]
      simp only [Extraction.addEndpoint, hp, if_pos hfit, updateInterface_last hc halt, he,
        tackOnEndpoint_eq hi, Option.map_some]
    refine ⟨_, step_some hadd, ?_, ?_, ?_, ?_, ?_, ?_⟩
    · rw [relevant_concat_some hk, ← h.flat, hc]
      refine flatten_lastInterface halt _ ?_
      simp [Interface.flatten, Interface.endpoints]
    · rw [relevant_concat_some hk, lastKind_concat]
      refine .interface nofun rfl rfl hn hp ?_
      show st.nEdesc + 1 = (i.endpoints ++ [d.bytes]).length
      rw [he, List.length_append]
      rfl
    · exact ptrs_lastInterface (fun c' hc' => hptrs c' (List.mem_append_left _ hc'))
        (fun i' hi' => hptrs c (by simp) i' (by simp [halt, hi'])) (.inr ⟨_, by simp, rfl⟩)
    · rw [List.getLast?_concat]
      rfl
    · intro p hp hpk
      rw [List.getLast?_concat] at hp
      cases hp
      rw [hk] at hpk
      cases hpk
    · intro p hp hpk
      rw [List.getLast?_concat] at hp
      cases hp
      rw [hk] at hpk
      cases hpk

theorem pointerAt_ne_valid {α : Type} (bytes : Bytes) (at' : Nat) (a : α) : pointerAt bytes at' ≠ .valid a := by
  rw [pointerAt]
  by_cases hq : qword (field bytes at' 8) = 0
  · rw [if_pos hq]
    nofun
  · rw [if_neg hq]
    nofun

theorem tackOnExtra_pointerAt (extralen : BitVec 64) : tackOnExtra (pointerAt bytes 17) extralen d =
    if d.bytes.length = d.bLength ∧ extralen = 0 then
      some (.valid d.bytes, BitVec.ofNat 64 d.bLength) else none := by
  unfold tackOnExtra
  by_cases hlen : d.bytes.length = d.bLength
  · rw [if_neg (not_not.mpr hlen)]
    by_cases hzero : extralen = 0
    · rw [if_pos hzero, if_pos ⟨hlen, hzero⟩]
    · rw [if_neg hzero, if_neg fun h => hzero h.2]
      cases hptr : pointerAt bytes 17 with
      | null => rfl
      | valid a => exact absurd hptr (pointerAt_ne_valid bytes 17 a)
      | forged => rfl
  · rw [if_pos hlen, if_neg fun h => hlen h.1]

theorem Shape.congr (h : Shape st prev) (hcdesc : st'.cdesc = st.cdesc) (hidescp : st'.idescp = st.idescp)
    (hnIdesc : st'.nIdesc = st.nIdesc) (hnEdesc : st'.nEdesc = st.nEdesc) : Shape st' prev := by
  cases h with
  | empty hc => exact .empty (hcdesc.trans hc)
  | config hc halt hn => exact .config (hcdesc.trans hc) halt (hnIdesc.trans hn)
  | interface hne hc halt hn hp he =>
    exact .interface hne (hcdesc.trans hc) halt (hnIdesc.trans hn) (hidescp.trans hp) (hnEdesc.trans he)

/-- A turn over another descriptor, which leaves the tree as it is. -/
theorem Inv.step_other {st₁ : Extraction} (h : Inv st done) (hk : d.kind = none)
    (hadd : st.add d = some st₁) (hflat : flatten st₁.cdesc = flatten st.cdesc)
    (hshape : Shape st₁ (lastKind none (relevant done)))
    (hptrs : ∀ c ∈ st₁.cdesc, ∀ i ∈ c.altsetting, i.PtrOk) :
    ∃ st', st.step d = some st' ∧ Inv st' (done ++ [d]) := by
  refine ⟨_, step_some hadd, ?_, ?_, hptrs, ?_, ?_, ?_⟩
  · rw [relevant_concat_none hk, ← h.flat]
    exact hflat
  · rw [relevant_concat_none hk]
    exact hshape.congr rfl rfl rfl rfl
  · rw [List.getLast?_concat]
    rfl
  · intro p hp hpk
    rw [List.getLast?_concat] at hp
    cases hp
    rw [hk] at hpk
    cases hpk
  · intro p hp hpk
    rw [List.getLast?_concat] at hp
    cases hp
    rw [hk] at hpk
    cases hpk

/-- The condition of `Descriptor.Fits` on another descriptor, by the one before. -/
theorem fits_other (hk : d.kind = none) : d.Fits done.getLast? ↔
    (done.getLast?.bind Descriptor.kind = some .endpoint ∨ d.bytes.length = d.bLength ∧
      ∀ p ∈ done.getLast?, p.kind ≠ none → extralenOf p.bytes = 0) := by
  simp only [Descriptor.Fits, hk]
  cases done.getLast? with
  | none => simp
  | some p =>
    cases hpk : p.kind with
    | none => simp [hpk]
    | some k => cases k <;> simp [hpk]

theorem Inv.kindOf_lastType (h : Inv st done) :
    kindOf st.lastType = done.getLast?.bind Descriptor.kind := by
  rw [h.lastType]
  cases done.getLast? <;> rfl

/-- Behind a configuration. -/
theorem Inv.other_config {p : Descriptor} (h : Inv st done) (hk : d.kind = none)
    (hp : done.getLast? = some p) (hpk : p.kind = some .config) :
    (d.bytes.length = d.bLength ∧ extralenOf p.bytes = 0 →
      ∃ st', st.step d = some st' ∧ Inv st' (done ++ [d])) ∧
    (¬(d.bytes.length = d.bLength ∧ extralenOf p.bytes = 0) → st.step d = none) := by
  have hshape := h.shape
  rw [lastKind_of_getLast? hp hpk] at hshape
  obtain ⟨cs, c, hc, -⟩ := hshape.exists_config
  obtain ⟨hextra, hextralen⟩ := h.extraConfig p hp hpk c (by rw [hc, List.getLast?_concat])
  have hadd : st.add d = (tackOnExtra c.extra c.extralen d).map fun r =>
      { st with cdesc := cs ++ [{ c with extra := r.1, extralen := r.2 }] } := by
    rw [Extraction.add, hk]
    simp only [Extraction.addOther, h.kindOf_lastType, hp, Option.bind_some, hpk, hc,
      List.getLast?_concat, List.dropLast_concat]
  rw [hextra, hextralen, tackOnExtra_pointerAt] at hadd
  refine ⟨fun hfit => ?_, fun hfit => step_none (by rw [hadd, if_neg hfit]; rfl)⟩
  rw [if_pos hfit] at hadd
  have hptrs := h.ptrs
  rw [hc] at hptrs
  refine h.step_other hk hadd ?_ ?_ fun c' hc' i hi => ?_
  · rw [hc]
    simp [flatten, Config.flatten]
  · rw [lastKind_of_getLast? hp hpk]
    cases hshape with
    | config hc' halt hn =>
      obtain ⟨-, hcc⟩ := List.append_inj' (hc.symm.trans hc') rfl
      cases hcc
      exact .config rfl halt hn
    | interface hne => exact absurd rfl hne
  · rcases List.mem_append.mp hc' with hc' | hc'
    · exact hptrs c' (List.mem_append_left _ hc') i hi
    · rw [List.mem_singleton.mp hc'] at hi
      exact hptrs c (by simp) i hi

/-- Behind an interface. -/
theorem Inv.other_interface {p : Descriptor} (h : Inv st done) (hk : d.kind = none)
    (hp : done.getLast? = some p) (hpk : p.kind = some .interface) :
    (d.bytes.length = d.bLength ∧ extralenOf p.bytes = 0 →
      ∃ st', st.step d = some st' ∧ Inv st' (done ++ [d])) ∧
    (¬(d.bytes.length = d.bLength ∧ extralenOf p.bytes = 0) → st.step d = none) := by
  have hshape := h.shape
  rw [lastKind_of_getLast? hp hpk] at hshape
  cases hshape with
  | @interface cs c is i k hne hc halt hn hplace he =>
    obtain ⟨hextra, hextralen⟩ := h.extraInterface p hp hpk c i (by rw [hc, List.getLast?_concat])
      (by rw [halt, List.getLast?_concat])
    have hadd : st.add d = (tackOnExtra i.extra i.extralen d).map fun r =>
        { st with cdesc := cs ++ [{ c with
          altsetting := is ++ [{ i with extra := r.1, extralen := r.2 }] }] } := by
      rw [Extraction.add, hk]
      simp only [Extraction.addOther, h.kindOf_lastType, hp, Option.bind_some, hpk, hplace,
        updateInterface_last hc halt, Option.map_map]
      rfl
    rw [hextra, hextralen, tackOnExtra_pointerAt] at hadd
    refine ⟨fun hfit => ?_, fun hfit => step_none (by rw [hadd, if_neg hfit]; rfl)⟩
    rw [if_pos hfit] at hadd
    have hptrs := h.ptrs
    rw [hc] at hptrs
    refine h.step_other hk hadd ?_ ?_ ?_
    · rw [hc]
      refine (flatten_lastInterface halt _ (l := []) ?_).trans (List.append_nil _)
      simp [Interface.flatten, Interface.endpoints]
    · rw [lastKind_of_getLast? hp hpk]
      exact .interface hne rfl rfl hn hplace he
    · exact ptrs_lastInterface (fun c' hc' => hptrs c' (List.mem_append_left _ hc'))
        (fun i' hi' => hptrs c (by simp) i' (by simp [halt, hi']))
        (hptrs c (by simp) i (by simp [halt]))

/-- One turn over another descriptor. -/
theorem Inv.other (h : Inv st done) (hk : d.kind = none) :
    (d.Fits done.getLast? → ∃ st', st.step d = some st' ∧ Inv st' (done ++ [d])) ∧
      (¬d.Fits done.getLast? → st.step d = none) := by
  rw [fits_other hk]
  cases hlast : done.getLast?.bind Descriptor.kind with
  | none =>
    have hadd : st.add d = if d.bytes.length = d.bLength then
        some { st with odesc := st.odesc ++ d.bytes } else none := by
      rw [Extraction.add, hk]
      simp only [Extraction.addOther, h.kindOf_lastType, hlast]
    have hfree : ∀ p ∈ done.getLast?, p.kind ≠ none → extralenOf p.bytes = 0 := fun p hp hpk =>
      absurd (by rw [hp] at hlast; exact hlast) hpk
    simp only [reduceCtorEq, false_or]
    refine ⟨fun hfit => ?_, fun hfit => step_none (hadd.trans (if_neg fun hl => hfit ⟨hl, hfree⟩))⟩
    exact h.step_other hk (hadd.trans (if_pos hfit.1)) rfl (h.shape.congr rfl rfl rfl rfl) h.ptrs
  | some k =>
    obtain ⟨p, hp, hpk⟩ := Option.bind_eq_some_iff.mp hlast
    have hextra : (∀ q ∈ done.getLast?, q.kind ≠ none → extralenOf q.bytes = 0) ↔
        extralenOf p.bytes = 0 := by
      rw [hp]
      exact ⟨fun hall => hall p rfl (by simp [hpk]), fun hz q hq _ => by cases hq; exact hz⟩
    rw [hextra]
    cases k with
    | config =>
      simp only [Option.some.injEq, reduceCtorEq, false_or]
      exact h.other_config hk hp hpk
    | interface =>
      simp only [Option.some.injEq, reduceCtorEq, false_or]
      exact h.other_interface hk hp hpk
    | endpoint =>
      have hadd : st.add d = some st := by
        rw [Extraction.add, hk]
        simp only [Extraction.addOther, h.kindOf_lastType, hlast]
      exact ⟨fun _ => h.step_other hk hadd rfl h.shape h.ptrs, fun hfit => absurd (.inl rfl) hfit⟩

/-- One turn behind nested descriptors, where this one is nested too. -/
theorem Inv.turn (h : Inv st done) (hn : Nested (lastKind none (relevant done)) (relevant [d])) :
    (d.Fits done.getLast? → ∃ st', st.step d = some st' ∧ Inv st' (done ++ [d])) ∧
      (¬d.Fits done.getLast? → st.step d = none) := by
  cases hk : d.kind with
  | none => exact h.other hk
  | some k =>
    have hone : relevant [d] = [(k, d.bytes)] :=
      show relevant ([] ++ [d]) = relevant [] ++ [(k, d.bytes)] from relevant_concat_some hk
    rw [hone] at hn
    simp only [Descriptor.Fits, hk]
    cases k with
    | config =>
      refine ⟨h.step_config hk, fun hfit => step_none ?_⟩
      rw [Extraction.add, hk]
      exact if_neg hfit
    | interface =>
      have hprev := hn.1 rfl
      refine ⟨fun hfit => h.step_interface hk hfit hprev, fun hfit => step_none ?_⟩
      obtain ⟨k, hlast⟩ := Option.ne_none_iff_exists'.mp hprev
      have hshape := h.shape
      rw [hlast] at hshape
      obtain ⟨cs, c, hc, -⟩ := hshape.exists_config
      rw [Extraction.add, hk]
      simp only [Extraction.addInterface, hc, List.getLast?_concat, if_neg hfit]
    | endpoint =>
      have hprev := hn.2.1 rfl
      refine ⟨fun hfit => h.step_endpoint hk hfit hprev, fun hfit => step_none ?_⟩
      have hshape := h.shape
      generalize lastKind none (relevant done) = k at hshape hprev
      cases hshape with
      | empty => exact absurd rfl hprev.1
      | config => exact absurd rfl hprev.2
      | interface _ _ _ _ hp =>
        rw [Extraction.add, hk]
        simp only [Extraction.addEndpoint, hp, if_neg hfit]

/-- The loop over nested descriptors gets through them exactly if they fit. -/
theorem Inv.run (h : Inv st done) (hn : Nested (lastKind none (relevant done)) (relevant ds)) :
    (AllFit done.getLast? ds → ∃ st', st.run ds = some st' ∧ Inv st' (done ++ ds)) ∧
      (¬AllFit done.getLast? ds → st.run ds = none) := by
  induction ds generalizing st done with
  | nil => exact ⟨fun _ => ⟨st, rfl, by rwa [List.append_nil]⟩, fun hfit => absurd trivial hfit⟩
  | cons d ds ih =>
    have hsplit : relevant (d :: ds) = relevant [d] ++ relevant ds :=
      List.filterMap_append (l := [d]) ..
    rw [hsplit, nested_append] at hn
    obtain ⟨hgo, hstop⟩ := h.turn hn.1
    by_cases hfit : d.Fits done.getLast?
    · obtain ⟨st₁, hstep, hinv⟩ := hgo hfit
      have hrun : st.run (d :: ds) = st₁.run ds := by
        rw [Extraction.run, hstep]
        rfl
      have hrest : relevant (done ++ [d]) = relevant done ++ relevant [d] := List.filterMap_append ..
      have hnext := ih hinv (by rw [hrest, lastKind_append]; exact hn.2)
      rw [List.getLast?_concat, List.append_assoc] at hnext
      rw [hrun]
      exact ⟨fun hall => hnext.1 hall.2, fun hall => hnext.2 fun hds => hall ⟨hfit, hds⟩⟩
    · have hrun : st.run (d :: ds) = none := by
        rw [Extraction.run, hstop hfit]
        rfl
      exact ⟨fun hall => absurd hall.1 hfit, fun _ => hrun⟩

theorem extract_eq (hds : descriptors bytes = some ds) : extractConfigDescriptors bytes =
    (Extraction.run ⟨[], none, 0, 0, [], 0⟩ ds).map Extraction.cdesc := by
  rw [extractConfigDescriptors, loop_eq, hds]
  rfl

/-! ### The result -/

/-- The tree of a configuration is extracted as it should exactly from the regular strings. -/
theorem extracts_iff (bytes : Bytes) : Extracts bytes ↔ Regular bytes := by
  constructor
  · rintro ⟨tree, ds, htree, hds, hflat, hproper⟩
    have hn : Nested none (relevant ds) := hflat ▸ nested_flatten tree
    obtain ⟨hgo, hstop⟩ := inv_init.run hn
    rw [extract_eq hds] at htree
    by_cases hfit : AllFit none ds
    · obtain ⟨st, hrun, hinv⟩ := hgo hfit
      rw [hrun] at htree
      cases htree
      refine ⟨ds, hds, hfit, hn, ?_⟩
      rw [← hflat, counted_flatten]
      exact fun c hc i hi => (hinv.ptrs c hc i hi).proper_iff.mp (hproper c hc i hi)
    · rw [hstop hfit] at htree
      cases htree
  · rintro ⟨ds, hds, hfit, hn, hcount⟩
    obtain ⟨st, hrun, hinv⟩ := (inv_init.run hn).1 hfit
    refine ⟨st.cdesc, ds, by rw [extract_eq hds, hrun]; rfl, hds, hinv.flat, fun c hc i hi => ?_⟩
    rw [← List.nil_append ds, ← hinv.flat, counted_flatten] at hcount
    exact (hinv.ptrs c hc i hi).proper_iff.mpr (hcount c hc i hi)

/-- A configuration descriptor of 30 bytes is copied over the end of its structure. -/
theorem not_extracts_long : ¬∀ bytes, Extracts bytes := by
  intro h
  obtain ⟨tree, -, htree, -⟩ := h (30 :: 2 :: List.replicate 28 0)
  have hstep : Extraction.step ⟨[], none, 0, 0, [], 0⟩
      ⟨30, 2, (30 :: 2 :: List.replicate 28 0 : Bytes).take 30⟩ = none := by decide
  have hloop : Extraction.loop ⟨[], none, 0, 0, [], 0⟩ (30 :: 2 :: List.replicate 28 0) = none := by
    rw [Extraction.loop, dif_neg (by decide)]
    exact (congrArg (Option.bind · _) hstep).trans rfl
  rw [extractConfigDescriptors, hloop] at htree
  cases htree

end OnDemandVirt.Usb
