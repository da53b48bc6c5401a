import OnDemandVirt.Pci.MatchCounts

/-!
# The drivers of all devices

The devices appear one after another, and the numbers go from one to the next. The strings are tried
until one gives a driver, so that a rule for no driver does not end the search, and a device is not
counted in the strings that are left.
-/

namespace OnDemandVirt.Pci.Match

open Vmm (CString isBlank)
open Vmm.Printf (ascii isoDigits)

/-- `pci_match_find_driver` for each device that appears, whose options are not there yet. -/
def findDrivers (drivers : List Driver) (config : CString) (compat : List CString) :
    List Device → Numbers → Option (List (Option Driver × Options))
  | [], _ => some []
  | dev :: devs, numbers =>
    match pciMatchFindDriver drivers dev config compat none numbers with
    | none => none
    | some (driver, options, numbers) =>
      (findDrivers drivers config compat devs numbers).map ((driver, options) :: ·)

variable {drivers : List Registered}

/-- What is to be chosen for the devices after those that have appeared. -/
def allChosen (rules : List (Rule drivers)) : List Device → List Device →
    List (Option Driver × Options)
  | _, [] => []
  | past, dev :: devs => chosen rules past dev :: allChosen rules (dev :: past) devs

/-- The first rule of a string that matches. -/
def Config.first (c : Config drivers) (past : List Device) (dev : Device) : Option (Rule drivers) :=
  c.rules.find? fun r => r.selects past dev

/-- The search for the driver of a device does not go wrong: in the strings that are tried no rule
begins with a number, after a rule for no driver no string gives one, and in the strings that are
left the device would not have been counted. -/
def SearchFits (past : List Device) (dev : Device) : List (Config drivers) → Prop
  | [] => True
  | c :: cs => c.NumbersFollow ∧
    match c.first past dev with
    | none => SearchFits past dev cs
    | some r =>
      match r.action.driver? with
      | none => (∀ c' ∈ cs, ∀ r' ∈ c'.first past dev, r'.action.driver? = none) ∧
          SearchFits past dev cs
      | some _ => ∀ c' ∈ cs, ∀ p pre, (p, pre) ∈ c'.places → sat pre past dev = false

def AllFit (strs : List (Config drivers)) : List Device → List Device → Prop
  | _, [] => True
  | past, dev :: devs => SearchFits past dev strs ∧ AllFit strs (dev :: past) devs

/-! ### One device -/

theorem Action.options_of_driver? {a : Action drivers} (h : a.driver? = .none) :
    a.options = .none := by
  cases a with
  | none gap => rfl
  | driver ref isNot settings declared => cases h

/-- After the first rule that matches, the others leave what has been found. -/
theorem foldl_find_selected (rules : List (Rule drivers)) (past : List Device) (dev : Device)
    {found : Found} (h : found.driverSelected = true) :
    rules.foldl (fun found r => r.find past dev found) found = found := by
  induction rules with
  | nil => rfl
  | cons r rules ih =>
    have hfind : r.find past dev found = found := by simp [Rule.find, h]
    rw [List.foldl_cons, hfind, ih]

theorem Config.find_eq (c : Config drivers) (past : List Device) (dev : Device) :
    c.find past dev ⟨none, false, none⟩ =
      (c.first past dev).elim ⟨none, false, none⟩ fun r => r.action.found := by
  unfold find first
  induction c.rules with
  | nil => rfl
  | cons r rules ih =>
    rw [List.foldl_cons, List.find?_cons]
    cases hselects : r.selects past dev with
    | true =>
      have hfind : r.find past dev ⟨none, false, none⟩ = r.action.found := by
        simp [Rule.find, hselects]
      rw [hfind]
      exact foldl_find_selected rules past dev rfl
    | false =>
      have hfind : r.find past dev ⟨none, false, none⟩ = ⟨none, false, none⟩ := by
        simp [Rule.find, hselects]
      rw [hfind]
      exact ih

theorem chosen_append (c : Config drivers) (rules : List (Rule drivers)) (past : List Device)
    (dev : Device) : chosen (c.rules ++ rules) past dev =
      (c.first past dev).elim (chosen rules past dev) fun r =>
        (r.action.driver?, r.action.options) := by
  unfold chosen Config.first
  rw [List.find?_append]
  cases c.rules.find? fun r => r.selects past dev with
  | none => rfl
  | some r => rfl

/-- Where no string gives a driver, none is to be chosen. -/
theorem chosen_none {cs : List (Config drivers)} {past : List Device} {dev : Device}
    (h : ∀ c ∈ cs, ∀ r ∈ c.first past dev, r.action.driver? = none) :
    chosen (cs.flatMap Config.rules) past dev = (none, none) := by
  induction cs with
  | nil => rfl
  | cons c cs ih =>
    rw [List.flatMap_cons, chosen_append, ih fun c hc => h c (List.mem_cons_of_mem _ hc)]
    cases hfirst : c.first past dev with
    | none => rfl
    | some r =>
      have hnone := h c List.mem_cons_self r hfirst
      simp [hnone, Action.options_of_driver? hnone]

/-- The numbers at the places of the strings, which begin at the number `str`. -/
def StringNumbers (past : List Device) (str : Nat) (cs : List (Config drivers))
    (numbers : Numbers) : Prop :=
  ∀ i c, cs[i]? = some c → NumbersOf (str + i) past c.places numbers

theorem pciMatchFindDriverSub_config {str : Nat} {past : List Device} (dev : Device)
    {c : Config drivers} (hfollow : c.NumbersFollow) {numbers : Numbers}
    (hnumbers : NumbersOf str past c.places numbers) :
    ∃ numbers', pciMatchFindDriverSub (drivers.map Registered.driver) dev str c.text none numbers =
        some ((c.first past dev).elim ⟨none, false, none⟩ fun r => r.action.found, numbers') ∧
      Counted str past dev c.places numbers numbers' := by
  rw [← c.find_eq]
  exact findDriverSubLoop_config hfollow (fun _ => rfl) hnumbers

theorem findDriverLoop_config {past : List Device} {dev : Device} {cs : List (Config drivers)}
    (hfits : SearchFits past dev cs) {str : Nat} {numbers : Numbers}
    (hnumbers : StringNumbers past str cs numbers) :
    ∃ numbers', findDriverLoop (drivers.map Registered.driver) dev str (cs.map Config.text) none
        numbers = some ((chosen (cs.flatMap Config.rules) past dev).1,
          (chosen (cs.flatMap Config.rules) past dev).2, numbers') ∧
      StringNumbers (dev :: past) str cs numbers' ∧
      ∀ i p, i < str → numbers' (i, p) = numbers (i, p) := by
  induction cs generalizing str numbers with
  | nil => exact ⟨numbers, rfl, fun i c h => absurd h (by simp), fun _ _ _ => rfl⟩
  | cons c cs ih =>
    obtain ⟨hfollow, hrest⟩ := hfits
    have hstr : NumbersOf str past c.places numbers := hnumbers 0 c rfl
    obtain ⟨numbers₁, hsub, hcounted⟩ := pciMatchFindDriverSub_config dev hfollow hstr
    have hothers : ∀ i p, i ≠ str → numbers₁ (i, p) = numbers (i, p) :=
      fun i p hi => hcounted.others i p fun heq => absurd heq hi
    have hlater : StringNumbers past (str + 1) cs numbers₁ := by
      intro i c' hc' p pre hmem
      rw [hothers _ p (by omega), Nat.add_assoc, Nat.add_comm 1 i]
      exact hnumbers (i + 1) c' hc' p pre hmem
    -- the strings that are left, when this one has given no driver
    have hcontinue (hfits : SearchFits past dev cs) :
        ∃ numbers', findDriverLoop (drivers.map Registered.driver) dev (str + 1)
            (cs.map Config.text) none numbers₁ =
              some ((chosen (cs.flatMap Config.rules) past dev).1,
                (chosen (cs.flatMap Config.rules) past dev).2, numbers') ∧
          StringNumbers (dev :: past) str (c :: cs) numbers' ∧
          ∀ i p, i < str → numbers' (i, p) = numbers (i, p) := by
      obtain ⟨numbers₂, hloop, hcounted', hframe⟩ := ih hfits hlater
      refine ⟨numbers₂, hloop, fun i c' hc' => ?_, fun i p hi => ?_⟩
      · cases i with
        | zero =>
          cases hc'
          intro p pre hmem
          rw [Nat.add_zero, hframe str p (Nat.lt_succ_self str)]
          exact hcounted.numbersOf_cons hstr p pre hmem
        | succ i =>
          rw [Nat.add_comm i 1, ← Nat.add_assoc]
          exact hcounted' i c' hc'
      · rw [hframe i p (by omega), hothers i p (by omega)]
    rw [List.map_cons, findDriverLoop, hsub, List.flatMap_cons, chosen_append]
    dsimp only
    cases hfirst : c.first past dev with
    | none =>
      rw [hfirst] at hrest
      exact hcontinue hrest
    | some r =>
      rw [hfirst] at hrest
      dsimp only at hrest
      cases hdriver : r.action.driver? with
      | none =>
        rw [hdriver] at hrest
        obtain ⟨hnone, hfits⟩ := hrest
        obtain ⟨numbers₂, hloop, hnumbers₂⟩ := hcontinue hfits
        refine ⟨numbers₂, ?_, hnumbers₂⟩
        rw [chosen_none hnone] at hloop
        simp only [Option.elim, Action.found, hdriver, Action.options_of_driver? hdriver]
        exact hloop
      | some d =>
        rw [hdriver] at hrest
        refine ⟨numbers₁, ?_, fun i c' hc' => ?_, fun i p hi => hothers i p (by omega)⟩
        · simp [Action.found, hdriver]
        · cases i with
          | zero =>
            cases hc'
            exact hcounted.numbersOf_cons hstr
          | succ i =>
            intro p pre hmem
            have hunsat := hrest c' (List.mem_of_getElem? hc') p pre hmem
            rw [hothers _ p (by omega), hnumbers (i + 1) c' hc' p pre hmem, countOf, hunsat]
            simp

/-- A rule for no driver does not keep a later string from giving one. -/
theorem pciMatchFindDriver_afterNone {past : List Device} (dev : Device)
    {config c : Config drivers} {cs : List (Config drivers)} (hfollow : config.NumbersFollow)
    (hfollow' : c.NumbersFollow) {r r' : Rule drivers} (hr : config.first past dev = some r)
    (hnone : r.action.driver? = none) (hr' : c.first past dev = some r') {d : Driver}
    (hd : r'.action.driver? = some d) {numbers : Numbers}
    (hnumbers : StringNumbers past 0 (config :: c :: cs) numbers) :
    ∃ numbers', pciMatchFindDriver (drivers.map Registered.driver) dev config.text
      ((c :: cs).map Config.text) none numbers = some (some d, r'.action.options, numbers') := by
  obtain ⟨numbers₁, hsub, hcounted⟩ := pciMatchFindDriverSub_config dev hfollow
    (hnumbers 0 config rfl)
  have hlater : NumbersOf 1 past c.places numbers₁ := by
    intro p pre hmem
    rw [hcounted.others 1 p fun h => absurd h (by decide)]
    exact hnumbers 1 c rfl p pre hmem
  obtain ⟨numbers₂, hsub', -⟩ := pciMatchFindDriverSub_config dev hfollow' hlater
  rw [hr] at hsub
  rw [hr'] at hsub'
  simp only [Option.elim, Action.found, hnone, Action.options_of_driver? hnone] at hsub
  simp only [Option.elim, Action.found, hd] at hsub'
  refine ⟨numbers₂, ?_⟩
  rw [pciMatchFindDriver, findDriverLoop, hsub]
  change findDriverLoop _ dev 1 _ none numbers₁ = _
  rw [List.map_cons, findDriverLoop, hsub']
  rfl

/-! ### All devices -/

theorem findDrivers_config {config : Config drivers} {compat : List (Config drivers)}
    {past devs : List Device} (hfits : AllFit (config :: compat) past devs) {numbers : Numbers}
    (hnumbers : StringNumbers past 0 (config :: compat) numbers) :
    findDrivers (drivers.map Registered.driver) config.text (compat.map Config.text) devs numbers =
      some (allChosen ((config :: compat).flatMap Config.rules) past devs) := by
  induction devs generalizing past numbers with
  | nil => rfl
  | cons dev devs ih =>
    obtain ⟨numbers', hloop, hnumbers', -⟩ := findDriverLoop_config hfits.1 hnumbers
    rw [findDrivers, pciMatchFindDriver, ← List.map_cons, hloop]
    dsimp only
    rw [ih hfits.2 hnumbers']
    rfl

/-- The devices of a machine get the drivers and the options of the first rules that match. -/
theorem findDrivers_eq (config : Config drivers) (compat : List (Config drivers))
    (devs : List Device) (h : AllFit (config :: compat) [] devs) :
    findDrivers (drivers.map Registered.driver) config.text (compat.map Config.text) devs
      (fun _ => 0) = some (allChosen ((config :: compat).flatMap Config.rules) [] devs) :=
  findDrivers_config h fun _ _ _ _ _ _ => rfl

def Gap.empty : Gap := ⟨[], 0, fun _ h => absurd h List.not_mem_nil⟩

/-- A driver for every device. -/
def netDriver : Registered := ⟨⟨lit ['n', 'e', 't'], by decide, rfl⟩, rfl, [], none⟩

def netRef : DriverRef [netDriver] := ⟨Gap.empty, netDriver, rfl⟩

def useNet : Action [netDriver] :=
  .driver netRef (by decide) [] fun _ h => absurd h List.not_mem_nil

/-- A device 8086:100e. -/
def netDevice (deviceNo : BitVec 5) : Device where
  initialBusNo := 0
  deviceNo := deviceNo
  funcNo := 0
  vendorId := 0x8086
  deviceId := 0x100E
  revisionId := 2
  classCode := 0x020000
  headerType := 0
  subVendorId := 0
  subDeviceId := 0

/-- `device=net,number=0,driver=net`. -/
def useFirst : Config [netDriver] :=
  .last ⟨[.device Gap.empty netRef,
    .number Gap.empty (.one ⟨Gap.empty, ⟨lit ['0'], by decide, rfl⟩⟩)], Gap.empty, useNet⟩

theorem findDrivers_eq_useFirst :
    findDrivers [netDriver.driver] useFirst.text [] [netDevice 3, netDevice 4] (fun _ => 0) =
      some [(some netDriver.driver, none), (none, none)] := by
  have hfollow : useFirst.NumbersFollow := by
    intro r hr cond hcond
    cases List.mem_singleton.mp hr
    cases hcond
    rfl
  have hfits : ∀ past dev, SearchFits past dev [useFirst] := by
    intro past dev
    refine ⟨hfollow, ?_⟩
    cases hfirst : useFirst.first past dev with
    | none => trivial
    | some r =>
      cases List.mem_singleton.mp (List.mem_of_find?_eq_some hfirst)
      exact fun _ h => absurd h List.not_mem_nil
  have hdecimal : decimal 0 = lit ['0'] ∧ decimal 1 = lit ['1'] := by
    simp only [decimal, isoDigits, Nat.digits_zero]
    decide
  have hfirst : glob (lit ['0']) (decimal 0) = true := by
    rw [hdecimal.1]
    rfl
  have hsecond : glob (lit ['0']) (decimal 1) = false := by
    rw [hdecimal.2]
    rfl
  refine (findDrivers_eq useFirst [] [netDevice 3, netDevice 4]
    ⟨hfits _ _, hfits _ _, trivial⟩).trans ?_
  simp [allChosen, chosen, useFirst, Config.rules, Rule.selects, sat, Cond.holds, countOf,
    Value.globs, Registered.selects, netRef, netDriver, hfirst, hsecond]
  exact ⟨rfl, rfl⟩

/-- `device=net,driver=none`. -/
def useNone : Config [netDriver] :=
  .last ⟨[.device Gap.empty netRef], Gap.empty, .none Gap.empty⟩

/-- `driver=net`. -/
def useAny : Config [netDriver] := .last ⟨[], Gap.empty, useNet⟩

/-- A device that a rule leaves without a driver gets one from a later string. -/
theorem not_findDrivers_eq : ¬ ∀ (drivers : List Registered) (config : Config drivers)
    (compat : List (Config drivers)) (devs : List Device),
    findDrivers (drivers.map Registered.driver) config.text (compat.map Config.text) devs
      (fun _ => 0) = some (allChosen ((config :: compat).flatMap Config.rules) [] devs) := by
  intro h
  have hall := h [netDriver] useNone [useAny] [netDevice 3]
  have hfollow : useNone.NumbersFollow := by
    intro r hr cond hcond
    cases List.mem_singleton.mp hr
    cases hcond
    rfl
  have hfollow' : useAny.NumbersFollow := by
    intro r hr cond hcond
    cases List.mem_singleton.mp hr
    cases hcond
  have hnumbers : StringNumbers [] 0 [useNone, useAny] fun _ => 0 := fun _ _ _ _ _ _ => rfl
  obtain ⟨numbers', hfind⟩ := pciMatchFindDriver_afterNone (netDevice 3) hfollow hfollow'
    rfl rfl rfl rfl hnumbers
  rw [findDrivers, hfind] at hall
  cases hall

end OnDemandVirt.Pci.Match
