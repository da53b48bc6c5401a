import OnDemandVirt.Pci.Tokens
import Mathlib.Logic.Function.Basic

/-!
# Driver selection

`pci_match.c`: the rules of a string are read again for each device, and the numbers that are
counted for `number=` are kept by the place in the string. A panic is `none`.
-/

namespace OnDemandVirt.Pci.Match

open Vmm (CString)
open Vmm.Printf (ascii isoDigits)

def lit (cs : List Char) : CString := cs.map ascii

/-- What selects a driver for a `struct pci_device`. -/
structure Device where
  initialBusNo : BitVec 32
  deviceNo : BitVec 5
  funcNo : BitVec 3
  vendorId : BitVec 16
  deviceId : BitVec 16
  revisionId : BitVec 8
  classCode : BitVec 24
  headerType : BitVec 8
  subVendorId : BitVec 16
  subDeviceId : BitVec 16
deriving DecidableEq

/-- `struct pci_driver`; a string that is `NULL` is read as an empty one, but for the options. -/
structure Driver where
  name : CString
  device : CString
  driverOptions : Option CString
deriving DecidableEq

/-- `driver_options` of a device. -/
abbrev Options := Option (List (Option CString))

/-! ### The fields of a device -/

/-- `snprintf` with `%0<width>x`. -/
def hex {w : Nat} (width : Nat) (value : BitVec w) : CString :=
  isoDigits 16 false width value.toNat

/-- `snprintf` with `%d` or `%u`. -/
def decimal (value : Nat) : CString := isoDigits 10 false 1 value

inductive Field
  | slot
  | deviceClass
  | id
  | subsystem
  | revision
  | rev
  | programmingInterface
  | interface
  | classCode
  | headerType
deriving DecidableEq

namespace Field

def name : Field → CString
  | slot => lit ['s', 'l', 'o', 't']
  | deviceClass => lit ['c', 'l', 'a', 's', 's']
  | id => lit ['i', 'd']
  | subsystem => lit ['s', 'u', 'b', 's', 'y', 's', 't', 'e', 'm']
  | revision => lit ['r', 'e', 'v', 'i', 's', 'i', 'o', 'n']
  | rev => lit ['r', 'e', 'v']
  | programmingInterface => lit ['p', 'r', 'o', 'g', 'r', 'a', 'm', 'm', 'i', 'n', 'g', '_', 'i',
      'n', 't', 'e', 'r', 'f', 'a', 'c', 'e']
  | interface => lit ['i', 'f']
  | classCode => lit ['c', 'l', 'a', 's', 's', '_', 'c', 'o', 'd', 'e']
  | headerType => lit ['h', 'e', 'a', 'd', 'e', 'r', '_', 't', 'y', 'p', 'e']

def value (dev : Device) : Field → CString
  | slot => hex 2 dev.initialBusNo ++ ascii ':' :: (hex 2 dev.deviceNo ++
      ascii '.' :: decimal dev.funcNo.toNat)
  | deviceClass => hex 4 (dev.classCode >>> 8)
  | id => hex 4 dev.vendorId ++ ascii ':' :: hex 4 dev.deviceId
  | subsystem => hex 4 dev.subVendorId ++ ascii ':' :: hex 4 dev.subDeviceId
  | revision | rev => hex 2 dev.revisionId
  | programmingInterface | interface => hex 2 (dev.classCode.setWidth 8)
  | classCode => hex 6 dev.classCode
  | headerType => hex 2 dev.headerType

/-- The fields in the order of `get_value`. -/
def all : List Field :=
  [slot, deviceClass, id, subsystem, revision, rev, programmingInterface, interface, classCode,
    headerType]

end Field

/-- `get_value`. -/
def getValue (tname : Token) (dev : Device) : Option CString :=
  (Field.all.find? fun field => matchToken field.name tname).map (Field.value dev)

/-- The value that follows a name, which every caller reads with the same checks. -/
def getTokenValue (tname : Token) (c : BitVec 8) : Option Token :=
  if tname.start.isNone ∨ c ≠ ascii '=' then none
  else
    let (tvalue, c) := getToken tname.next
    if tvalue.start.isNone ∨ (c ≠ ascii ',' ∧ c ≠ 0) then none else some tvalue

theorem getTokenValue_next_le {tname tvalue : Token} {c : BitVec 8}
    (h : getTokenValue tname c = some tvalue) : tvalue.next.length ≤ tname.next.length := by
  have hle := getToken_next_le tname.next
  unfold getTokenValue at h
  dsimp only at h
  split_ifs at h
  obtain rfl := Option.some.inj h
  omega

/-- `pci_match` from `p` on. -/
def pciMatchLoop (dev : Device) (p : CString) : Option Bool :=
  if hempty : (getToken p).1.isEmpty then some true
  else
    match hvalue : getTokenValue (getToken p).1 (getToken p).2 with
    | none => none
    | some tvalue =>
      match getValue (getToken p).1 dev with
      | none => none
      | some buf => if matchToken buf tvalue then pciMatchLoop dev tvalue.next else some false
termination_by p.length
decreasing_by
  exact Nat.lt_of_le_of_lt (getTokenValue_next_le hvalue)
    (getToken_next_lt (Bool.eq_false_iff.mpr hempty))

/-- `pci_match`. -/
def pciMatch (dev : Device) (driver : Driver) : Option Bool := pciMatchLoop dev driver.device

/-- `pci_find_driver_by_token`. -/
def pciFindDriverByToken (drivers : List Driver) (name : Token) : Option Driver :=
  drivers.find? fun driver => driver.name ≠ [] ∧ driver.name = name.chars

/-! ### The options of a driver -/

/-- The count of `alloc_driver_options`. -/
def countOptions (p : CString) : Option Nat :=
  if hempty : (getToken p).1.isEmpty then some 0
  else if (getToken p).1.start.isNone ∨ ((getToken p).2 ≠ ascii ',' ∧ (getToken p).2 ≠ 0) then none
  else (countOptions (getToken p).1.next).map (· + 1)
termination_by p.length
decreasing_by
  exact getToken_next_lt (Bool.eq_false_iff.mpr hempty)

/-- `alloc_driver_options`, with the options of the device. -/
def allocDriverOptions (driver : Driver) (options : Options) : Option Options :=
  match driver.driverOptions with
  | none => some options
  | some p => (countOptions p).map fun n => some (List.replicate n none)

/-- The search of `save_driver_options`. -/
def findOption (name p : CString) : Option Nat :=
  if hempty : (getToken p).1.isEmpty then none
  else if (getToken p).1.start.isNone ∨ ((getToken p).2 ≠ ascii ',' ∧ (getToken p).2 ≠ 0) then none
  else if (getToken p).1.chars = name then some 0
  else (findOption name (getToken p).1.next).map (· + 1)
termination_by p.length
decreasing_by
  exact getToken_next_lt (Bool.eq_false_iff.mpr hempty)

/-- `save_driver_options`; `save` says that there is a device. -/
def saveDriverOptions (save : Bool) (driver : Driver) (name value : Token) (options : Options) :
    Option Options :=
  (findOption name.chars (driver.driverOptions.getD [])).map fun i =>
    if save then options.map fun options => options.set i (some value.chars) else options

/-! ### Rules -/

/-- The numbers of `number_list`, by the string and the place in it; what is not in the list has
the number 0. -/
abbrev Numbers := Nat × CString → Nat

/-- `device_selection`. -/
structure Selection where
  selected : Bool
  failed : Bool
deriving DecidableEq

section

variable (drivers : List Driver) (dev : Device) (str : Nat)

/-- A condition of `pci_match_device_selection`, at `p`. -/
def selectCondition (p : CString) (tname tvalue : Token) (s : Selection) (numbers : Numbers) :
    Option (Selection × Numbers) :=
  if s.selected && matchToken (lit ['n', 'u', 'm', 'b', 'e', 'r']) tname then
    if s.failed then some (s, numbers)
    else
      some (⟨true, !matchToken (decimal (numbers (str, p))) tvalue⟩,
        Function.update numbers (str, p) (numbers (str, p) + 1))
  else if matchToken (lit ['d', 'e', 'v', 'i', 'c', 'e']) tname then
    match pciFindDriverByToken drivers tvalue with
    | none => none
    | some driver =>
      match pciMatch dev driver with
      | none => none
      | some found => some (⟨true, s.failed || !found⟩, numbers)
  else
    match getValue tname dev with
    | none => none
    | some buf => some (⟨true, s.failed || !matchToken buf tvalue⟩, numbers)

/-- `pci_match_device_selection`, from `start` on, with the value of `driver`. -/
def deviceSelection (p : CString) (tname : Token) (c : BitVec 8) (s : Selection)
    (numbers : Numbers) : Option (Token × Selection × Numbers) :=
  match hvalue : getTokenValue tname c with
  | none => none
  | some tvalue =>
    if matchToken (lit ['d', 'r', 'i', 'v', 'e', 'r']) tname then some (tvalue, s, numbers)
    else
      match selectCondition drivers dev str p tname tvalue s numbers with
      | none => none
      | some (s, numbers) =>
        if hempty : (getToken tvalue.next).1.isEmpty then none
        else deviceSelection tvalue.next (getToken tvalue.next).1 (getToken tvalue.next).2 s numbers
termination_by tname.next.length
decreasing_by
  exact Nat.lt_of_lt_of_le (getToken_next_lt (Bool.eq_false_iff.mpr hempty))
    (getTokenValue_next_le hvalue)

/-- The loop of `pci_match_driver_selection` from `*p` on, with what `*p` is set to. -/
def optionSelection (driver : Option Driver) (save : Bool) (p : CString) (options : Options) :
    Option (CString × Options) :=
  if hempty : (getToken p).1.isEmpty then some (p, options)
  else if (getToken p).1.start.isNone then none
  else if matchToken (lit ['a', 'n', 'd']) (getToken p).1 ∧ (getToken p).2 = ascii ',' then
    some ((getToken p).1.next, options)
  else
    match hvalue : getTokenValue (getToken p).1 (getToken p).2 with
    | none => none
    | some tvalue =>
      match driver with
      | none => none
      | some driver =>
        match saveDriverOptions save driver (getToken p).1 tvalue options with
        | none => none
        | some options => optionSelection (some driver) save tvalue.next options
termination_by p.length
decreasing_by
  exact Nat.lt_of_le_of_lt (getTokenValue_next_le hvalue)
    (getToken_next_lt (Bool.eq_false_iff.mpr hempty))

/-- What `pci_match_find_driver_sub` has found, and the options of the device. -/
structure Found where
  driver : Option Driver
  driverSelected : Bool
  options : Options
deriving DecidableEq

/-- The driver that a rule names: `none` where there is none of that name. -/
def namedDriver (tvalue : Token) : Option (Option Driver) :=
  if matchToken (lit ['n', 'o', 'n', 'e']) tvalue then some none
  else (pciFindDriverByToken drivers tvalue).map some

/-- `match` of a rule, but for the rules before. -/
def ruleMatch (driver : Option Driver) (s : Selection) : Option Bool :=
  if s.selected then some (!s.failed)
  else
    match driver with
    | none => some false
    | some driver => (pciMatch dev driver).map fun found => !s.failed && found

/-- `pci_match_driver_selection`. -/
def driverSelection (tvalue : Token) (s : Selection) (found : Found) : Option (CString × Found) :=
  match namedDriver drivers tvalue with
  | none => none
  | some driver =>
    match ruleMatch dev driver s with
    | none => none
    | some matched =>
      if matched && !found.driverSelected then
        match driver.elim (some found.options) (allocDriverOptions · found.options) with
        | none => none
        | some options =>
          (optionSelection driver true tvalue.next options).map fun (p, options) =>
            (p, ⟨driver, true, options⟩)
      else
        (optionSelection driver false tvalue.next found.options).map fun (p, options) =>
          (p, ⟨found.driver, found.driverSelected, options⟩)

end

theorem deviceSelection_next_le {drivers : List Driver} {dev : Device} {str : Nat} {p : CString}
    {tname tvalue : Token} {c : BitVec 8} {s s' : Selection} {numbers numbers' : Numbers}
    (h : deviceSelection drivers dev str p tname c s numbers = some (tvalue, s', numbers')) :
    tvalue.next.length ≤ tname.next.length := by
  fun_induction deviceSelection drivers dev str p tname c s numbers with
  | case1 => cases h
  | case2 p tname c s numbers tvalue' hvalue _ =>
    cases h
    exact getTokenValue_next_le hvalue
  | case3 => cases h
  | case4 => cases h
  | case5 p tname c s numbers tvalue' hvalue _ s'' numbers'' _ hempty ih =>
    have hle := getTokenValue_next_le hvalue
    have hlt := getToken_next_lt (Bool.eq_false_iff.mpr hempty)
    have hih := ih h
    omega

theorem optionSelection_le {driver : Option Driver} {save : Bool} {p p' : CString}
    {options options' : Options}
    (h : optionSelection driver save p options = some (p', options')) : p'.length ≤ p.length := by
  fun_induction optionSelection driver save p options with
  | case1 driver p options =>
    cases h
    exact Nat.le_refl _
  | case2 => cases h
  | case3 driver p options =>
    cases h
    exact Nat.le_trans (getToken_next_le p) (Nat.sub_le _ _)
  | case4 => cases h
  | case5 => cases h
  | case6 => cases h
  | case7 p options hempty _ _ tvalue hvalue driver options'' _ ih =>
    have hle := getTokenValue_next_le hvalue
    have hlt := getToken_next_lt (Bool.eq_false_iff.mpr hempty)
    have hih := ih h
    omega

theorem driverSelection_le {drivers : List Driver} {dev : Device} {tvalue : Token} {s : Selection}
    {found found' : Found} {p : CString}
    (h : driverSelection drivers dev tvalue s found = some (p, found')) :
    p.length ≤ tvalue.next.length := by
  unfold driverSelection at h
  split at h
  · cases h
  · split at h
    · cases h
    · split at h
      · split at h
        · cases h
        · obtain ⟨⟨p', options⟩, hoptions, hp⟩ := Option.map_eq_some_iff.mp h
          cases hp
          exact optionSelection_le hoptions
      · obtain ⟨⟨p', options⟩, hoptions, hp⟩ := Option.map_eq_some_iff.mp h
        cases hp
        exact optionSelection_le hoptions

section

variable (drivers : List Driver) (dev : Device)

/-- The loop of `pci_match_find_driver_sub`. -/
def findDriverSubLoop (str : Nat) (p : CString) (found : Found) (numbers : Numbers) :
    Option (Found × Numbers) :=
  if hempty : (getToken p).1.isEmpty then some (found, numbers)
  else
    match hselect : deviceSelection drivers dev str p (getToken p).1 (getToken p).2 ⟨false, false⟩
      numbers with
    | none => none
    | some (tvalue, s, numbers) =>
      match hdriver : driverSelection drivers dev tvalue s found with
      | none => none
      | some (p, found) => findDriverSubLoop str p found numbers
termination_by p.length
decreasing_by
  exact Nat.lt_of_le_of_lt (Nat.le_trans (driverSelection_le hdriver)
    (deviceSelection_next_le hselect)) (getToken_next_lt (Bool.eq_false_iff.mpr hempty))

/-- `pci_match_find_driver_sub`, with the options of the device. -/
def pciMatchFindDriverSub (str : Nat) (p : CString) (options : Options) (numbers : Numbers) :
    Option (Found × Numbers) :=
  if options.isSome then none
  else findDriverSubLoop drivers dev str p ⟨none, false, options⟩ numbers

/-- The strings of `pci_match_find_driver` from the one with the number `str` on. -/
def findDriverLoop : (str : Nat) → List CString → Options → Numbers →
    Option (Option Driver × Options × Numbers)
  | _, [], options, numbers => some (none, options, numbers)
  | str, p :: strs, options, numbers =>
    match pciMatchFindDriverSub drivers dev str p options numbers with
    | none => none
    | some (found, numbers) =>
      if found.driver.isSome then some (found.driver, found.options, numbers)
      else findDriverLoop (str + 1) strs found.options numbers

/-- `pci_match_find_driver` with `config.vmm.driver.pci` and `compat_list`. -/
def pciMatchFindDriver (config : CString) (compat : List CString) (options : Options)
    (numbers : Numbers) : Option (Option Driver × Options × Numbers) :=
  findDriverLoop drivers dev 0 (config :: compat) options numbers

end

end OnDemandVirt.Pci.Match
