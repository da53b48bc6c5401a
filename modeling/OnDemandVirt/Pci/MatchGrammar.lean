import OnDemandVirt.Pci.MatchTexts

/-!
# The grammar of the rules

A text is read from the parts that it is made of: the conditions of a rule, its driver and the
options. The driver that is to be chosen for a device is said about these parts, and about the
devices that have appeared before.
-/

namespace OnDemandVirt.Pci.Match

open Vmm (CString isBlank)
open Vmm.Printf (ascii)

/-! ### Names -/

def Word.driver : Word := ⟨lit ['d', 'r', 'i', 'v', 'e', 'r'], by decide, rfl⟩

def Word.device : Word := ⟨lit ['d', 'e', 'v', 'i', 'c', 'e'], by decide, rfl⟩

def Word.number : Word := ⟨lit ['n', 'u', 'm', 'b', 'e', 'r'], by decide, rfl⟩

def Word.none : Word := ⟨lit ['n', 'o', 'n', 'e'], by decide, rfl⟩

def Word.and : Word := ⟨lit ['a', 'n', 'd'], by decide, rfl⟩

def Field.word (f : Field) : Word := ⟨f.name, by cases f <;> decide, by cases f <;> rfl⟩

/-! ### Drivers -/

/-- A field with the values that it may have. -/
structure Entry where
  gap : Gap
  field : Field
  value : Value

def Entry.setting (e : Entry) : Setting := ⟨⟨e.gap, e.field.word⟩, e.value⟩

/-- A driver, with the devices that it is for and the names of its options. -/
structure Registered where
  name : Word
  literal : name.Literal
  device : List Entry
  options : Option (List Cell)

namespace Registered

def driver (r : Registered) : Driver where
  name := r.name.chars
  device := (tailText Setting.text (r.device.map Entry.setting) []).tail
  driverOptions := r.options.map fun names => (tailText Cell.text names []).tail

/-- The device is one that the driver is for. -/
def selects (r : Registered) (dev : Device) : Bool :=
  r.device.all fun e => e.value.globs (e.field.value dev)

def optionNames (r : Registered) : List CString :=
  (r.options.getD []).map fun c => c.word.chars

/-- The values of the options with the one that is set. -/
def setOption (r : Registered) (options : List (Option CString)) (o : Setting) :
    List (Option CString) :=
  options.set (r.optionNames.idxOf o.name.word.chars) (some o.value.raw)

end Registered

/-! ### Rules -/

section

variable (drivers : List Registered)

/-- The name of a driver, which is the first one of that name. -/
structure DriverRef where
  gap : Gap
  driver : Registered
  found : (drivers.find? fun r => r.name.chars = driver.name.chars) = some driver

def DriverRef.cell {drivers : List Registered} (ref : DriverRef drivers) : Cell :=
  ⟨ref.gap, ref.driver.name⟩

/-- The driver of a rule. -/
inductive Action
  | none (gap : Gap)
  | driver (ref : DriverRef drivers) (isNot : ref.driver.name.chars ≠ Word.none.chars)
      (settings : List Setting)
      (declared : ∀ o ∈ settings, o.name.word.chars ∈ ref.driver.optionNames)

/-- A condition of a rule. -/
inductive Cond
  | field (e : Entry)
  | device (gap : Gap) (ref : DriverRef drivers)
  | number (gap : Gap) (v : Value)

structure Rule where
  conds : List (Cond drivers)
  gap : Gap
  action : Action drivers

/-- What a string says. -/
inductive Config
  | blank (b : CString) (h : ∀ c ∈ b, isBlank c = true)
  | last (r : Rule drivers)
  | and (r : Rule drivers) (gap : Gap) (rest : Config)

end

section

variable {drivers : List Registered}

namespace Action

def cell : Action drivers → Cell
  | none gap => ⟨gap, Word.none⟩
  | driver ref _ _ _ => ref.cell

def settings : Action drivers → List Setting
  | none _ => []
  | driver _ _ settings _ => settings

end Action

namespace Cond

def setting : Cond drivers → Setting
  | field e => e.setting
  | device gap ref => ⟨⟨gap, Word.device⟩, .one ref.cell⟩
  | number gap v => ⟨⟨gap, Word.number⟩, v⟩

def isNumber : Cond drivers → Bool
  | number _ _ => true
  | _ => false

end Cond

/-- The conditions, with a comma after each. -/
def condsText (cs : List (Cond drivers)) (t : CString) : CString :=
  (tailText Setting.text (cs.map Cond.setting) (ascii ',' :: t)).tail

namespace Rule

def driverSetting (r : Rule drivers) : Setting := ⟨⟨r.gap, Word.driver⟩, .one r.action.cell⟩

/-- A rule from its driver on. -/
def driverText (r : Rule drivers) (t : CString) : CString :=
  r.driverSetting.text (tailText Setting.text r.action.settings t)

def text (r : Rule drivers) (t : CString) : CString := condsText r.conds (r.driverText t)

end Rule

/-- `, and,` between two rules, or after the last one. -/
def andText (gap : Gap) (rest : CString) : CString :=
  ascii ',' :: Cell.text ⟨gap, Word.and⟩ (ascii ',' :: rest)

namespace Config

def text : Config drivers → CString
  | blank b _ => b
  | last r => r.text []
  | and r gap rest => r.text (andText gap (text rest))

def rules : Config drivers → List (Rule drivers)
  | blank _ _ => []
  | last r => [r]
  | and r _ rest => r :: rules rest

end Config

/-! ### The driver to be chosen -/

/-- A condition holds of a device that so many devices come before. -/
def Cond.holds (dev : Device) (count : Nat) : Cond drivers → Bool
  | field e => e.value.globs (e.field.value dev)
  | device _ ref => ref.driver.selects dev
  | number _ v => v.globs (decimal count)

/-- The devices, the most recent one first, that satisfy what depends on the ones before them. -/
def countOf (p : List Device → Device → Bool) : List Device → Nat
  | [] => 0
  | dev :: past => (if p past dev then 1 else 0) + countOf p past

/-- The conditions, the last one first, hold of a device; `number` counts the devices that satisfy
the conditions before it. -/
def sat : List (Cond drivers) → List Device → Device → Bool
  | [], _, _ => true
  | c :: before, past, dev => sat before past dev && c.holds dev (countOf (sat before) past)

namespace Action

/-- The device is one that the driver is for. -/
def selects : Action drivers → Device → Bool
  | none _, _ => false
  | driver ref _ _ _, dev => ref.driver.selects dev

def driver? : Action drivers → Option Driver
  | none _ => .none
  | driver ref _ _ _ => some ref.driver.driver

/-- The values of the settings, in the order in which the driver declares the options. -/
def options : Action drivers → Options
  | none _ => .none
  | driver ref _ settings _ => ref.driver.options.map fun names =>
      settings.foldl ref.driver.setOption (List.replicate names.length .none)

end Action

/-- The device selection matches; without one the driver must be for the device. -/
def Rule.selects (r : Rule drivers) (past : List Device) (dev : Device) : Bool :=
  if r.conds.isEmpty then r.action.selects dev else sat r.conds.reverse past dev

/-- The driver and the options of the first rule that matches. -/
def chosen (rules : List (Rule drivers)) (past : List Device) (dev : Device) :
    Option Driver × Options :=
  match rules.find? fun r => r.selects past dev with
  | none => (none, none)
  | some r => (r.action.driver?, r.action.options)

end

end OnDemandVirt.Pci.Match
