import OnDemandVirt.Pci.MatchRules

/-!
# Counting devices

The numbers are kept by the places of `number=` in a string. While the rules of the string are read,
a device moves the numbers before which it satisfies the conditions, and no others.
-/

namespace OnDemandVirt.Pci.Match

open Vmm (CString isBlank)
open Vmm.Printf (ascii)

variable {drivers : List Registered}

/-! ### Places -/

/-- The places of `number=`, each with the conditions before it, the last one first. -/
def condPlaces : List (Cond drivers) → List (Cond drivers) → CString →
    List (CString × List (Cond drivers))
  | _, [], _ => []
  | before, c :: cs, t =>
    (if c.isNumber then [(condsText (c :: cs) t, before)] else []) ++ condPlaces (c :: before) cs t

def Rule.places (r : Rule drivers) (t : CString) : List (CString × List (Cond drivers)) :=
  condPlaces [] r.conds (r.driverText t)

namespace Config

def places : Config drivers → List (CString × List (Cond drivers))
  | blank _ _ => []
  | last r => r.places []
  | and r gap rest => r.places (andText gap rest.text) ++ places rest

end Config

theorem Setting.length_lt (o : Setting) (t : CString) : t.length < (o.text t).length := by
  have hname := o.name.length_lt (ascii '=' :: o.value.text t)
  have hvalue := o.value.length_lt t
  rw [List.length_cons] at hname
  rw [text]
  omega

theorem tailText_comma {α : Type} (text : α → CString → CString) (as : List α) (t : CString) :
    tailText text as (ascii ',' :: t) = ascii ',' :: (tailText text as (ascii ',' :: t)).tail := by
  cases as with
  | nil => rfl
  | cons a as => rfl

theorem condsText_cons (c : Cond drivers) (cs : List (Cond drivers)) (t : CString) :
    condsText (c :: cs) t = c.setting.text (ascii ',' :: condsText cs t) :=
  congrArg c.setting.text (tailText_comma _ _ t)

theorem length_le_condsText (cs : List (Cond drivers)) (t : CString) :
    t.length ≤ (condsText cs t).length := by
  induction cs with
  | nil => exact Nat.le_refl _
  | cons c cs ih =>
    have hlt := c.setting.length_lt (ascii ',' :: condsText cs t)
    rw [List.length_cons] at hlt
    rw [condsText_cons]
    omega

theorem length_le_tailText (os : List Setting) (t : CString) :
    t.length ≤ (tailText Setting.text os t).length := by
  induction os with
  | nil => exact Nat.le_refl _
  | cons o os ih =>
    have hlt := o.length_lt (tailText Setting.text os t)
    rw [tailText, List.length_cons]
    omega

/-- The places lie in the text of the conditions. -/
theorem length_of_mem_condPlaces {before cs : List (Cond drivers)} {t p : CString}
    {pre : List (Cond drivers)} (h : (p, pre) ∈ condPlaces before cs t) :
    t.length < p.length ∧ p.length ≤ (condsText cs t).length := by
  induction cs generalizing before with
  | nil => exact absurd h List.not_mem_nil
  | cons c cs ih =>
    have hlt := c.setting.length_lt (ascii ',' :: condsText cs t)
    have hle := length_le_condsText cs t
    rw [List.length_cons, ← condsText_cons] at hlt
    rcases List.mem_append.mp h with h | h
    · split at h
      · cases List.mem_singleton.mp h
        omega
      · exact absurd h List.not_mem_nil
    · have hrest := ih h
      omega

theorem length_lt_of_mem_places {r : Rule drivers} {t p : CString} {pre : List (Cond drivers)}
    (h : (p, pre) ∈ r.places t) : t.length < p.length ∧ p.length ≤ (r.text t).length := by
  have hmem := length_of_mem_condPlaces h
  have hdriver := r.driverSetting.length_lt (tailText Setting.text r.action.settings t)
  have htail := length_le_tailText r.action.settings t
  change _ < (r.driverText t).length at hdriver
  exact ⟨by omega, hmem.2⟩

theorem Rule.length_lt (r : Rule drivers) (t : CString) : t.length < (r.text t).length := by
  have hdriver := r.driverSetting.length_lt (tailText Setting.text r.action.settings t)
  have htail := length_le_tailText r.action.settings t
  have hconds := length_le_condsText r.conds (r.driverText t)
  change _ < (r.driverText t).length at hdriver
  change _ < (condsText r.conds (r.driverText t)).length
  omega

theorem length_lt_andText (gap : Gap) (rest : CString) :
    rest.length < (andText gap rest).length := by
  have hlt := Cell.length_lt ⟨gap, Word.and⟩ (ascii ',' :: rest)
  rw [List.length_cons] at hlt
  rw [andText, List.length_cons]
  omega

theorem Config.length_of_mem_places {c : Config drivers} {p : CString} {pre : List (Cond drivers)}
    (h : (p, pre) ∈ c.places) : p.length ≤ c.text.length := by
  induction c with
  | blank b hb => exact absurd h List.not_mem_nil
  | last r => exact (length_lt_of_mem_places h).2
  | and r gap rest ih =>
    rcases List.mem_append.mp h with h | h
    · exact (length_lt_of_mem_places h).2
    · have hle := ih h
      have hand := length_lt_andText gap rest.text
      have hrule := r.length_lt (andText gap rest.text)
      change p.length ≤ (r.text (andText gap rest.text)).length
      omega

/-! ### What a device does to the numbers -/

/-- The numbers at the places are those of the devices before. -/
def NumbersOf (str : Nat) (past : List Device) (places : List (CString × List (Cond drivers)))
    (numbers : Numbers) : Prop :=
  ∀ p pre, (p, pre) ∈ places → numbers (str, p) = countOf (sat pre) past

/-- A device has been counted at the places, and nothing else has changed. -/
structure Counted (str : Nat) (past : List Device) (dev : Device)
    (places : List (CString × List (Cond drivers))) (numbers numbers' : Numbers) : Prop where
  counts : ∀ p pre, (p, pre) ∈ places →
    numbers' (str, p) = numbers (str, p) + if sat pre past dev then 1 else 0
  others : ∀ i p, (i = str → ∀ pre, (p, pre) ∉ places) → numbers' (i, p) = numbers (i, p)

namespace Counted

variable {str : Nat} {past : List Device} {dev : Device}
  {places places' : List (CString × List (Cond drivers))} {numbers numbers' numbers'' : Numbers}

theorem nil (str : Nat) (past : List Device) (dev : Device) (numbers : Numbers) :
    Counted str past dev ([] : List (CString × List (Cond drivers))) numbers numbers :=
  ⟨fun _ _ h => absurd h List.not_mem_nil, fun _ _ _ => rfl⟩

/-- A device that satisfies the conditions before a number. -/
theorem single {pre : List (Cond drivers)} (h : sat pre past dev = true) {p : CString} :
    Counted str past dev [(p, pre)] numbers
      (Function.update numbers (str, p) (numbers (str, p) + 1)) := by
  constructor
  · rintro p' pre' hmem
    cases List.mem_singleton.mp hmem
    rw [Function.update_self, if_pos h]
  · intro i p' hnot
    refine Function.update_of_ne ?_ _ _
    intro heq
    cases heq
    exact hnot rfl pre List.mem_cons_self

theorem single_of_not {pre : List (Cond drivers)} (h : ¬ sat pre past dev = true) {p : CString} :
    Counted str past dev [(p, pre)] numbers numbers := by
  refine ⟨fun p' pre' hmem => ?_, fun _ _ _ => rfl⟩
  cases List.mem_singleton.mp hmem
  rw [if_neg h, Nat.add_zero]

theorem append (h : Counted str past dev places numbers numbers')
    (h' : Counted str past dev places' numbers' numbers'')
    (hdisjoint : ∀ p pre pre', (p, pre) ∈ places → (p, pre') ∉ places') :
    Counted str past dev (places ++ places') numbers numbers'' := by
  constructor
  · intro p pre hmem
    rcases List.mem_append.mp hmem with hmem | hmem
    · rw [h'.others str p fun _ pre' => hdisjoint p pre pre' hmem, h.counts p pre hmem]
    · have hnot : ∀ pre', (p, pre') ∉ places := fun pre' hmem' => hdisjoint p pre' pre hmem' hmem
      rw [h'.counts p pre hmem, h.others str p fun _ => hnot]
  · intro i p hnot
    rw [h'.others i p fun hi pre hmem => hnot hi pre (List.mem_append_right _ hmem),
      h.others i p fun hi pre hmem => hnot hi pre (List.mem_append_left _ hmem)]

/-- The numbers at other places are still the ones of the devices before. -/
theorem numbersOf (h : Counted str past dev places numbers numbers')
    (hnumbers : NumbersOf str past places' numbers)
    (hdisjoint : ∀ p pre pre', (p, pre) ∈ places → (p, pre') ∉ places') :
    NumbersOf str past places' numbers' := by
  intro p pre hmem
  rw [h.others str p fun _ pre' hmem' => hdisjoint p pre' pre hmem' hmem]
  exact hnumbers p pre hmem

/-- With the device the numbers are those of one more device. -/
theorem numbersOf_cons (h : Counted str past dev places numbers numbers')
    (hnumbers : NumbersOf str past places numbers) :
    NumbersOf str (dev :: past) places numbers' := by
  intro p pre hmem
  rw [h.counts p pre hmem, hnumbers p pre hmem, countOf, Nat.add_comm]

end Counted

/-! ### Conditions -/

theorem Field.name_ne (f : Field) : f.name ≠ Word.driver.chars ∧ f.name ≠ Word.device.chars ∧
    f.name ≠ Word.number.chars := by
  cases f <;> decide

theorem Cond.literal (c : Cond drivers) : c.setting.name.word.Literal := by
  cases c with
  | field e => exact e.field.literal
  | device gap ref => rfl
  | number gap v => rfl

/-- No condition is taken for the driver of the rule. -/
theorem Cond.matchToken_driver (c : Cond drivers) (t : CString) :
    matchToken Word.driver.chars (c.setting.token t) = false := by
  rw [c.setting.matchToken_token c.literal]
  refine decide_eq_false ?_
  cases c with
  | field e => exact e.field.name_ne.1
  | device gap ref => exact (show Word.device.chars ≠ Word.driver.chars by decide)
  | number gap v => exact (show Word.number.chars ≠ Word.driver.chars by decide)

section

variable {str : Nat} {past : List Device} {dev : Device}

/-- The flags after so many conditions. -/
def selectionOf (past : List Device) (dev : Device) (before : List (Cond drivers)) : Selection :=
  ⟨!before.isEmpty, !sat before past dev⟩

variable (dev) in
/-- A condition is tested as it says, and a device that comes to a number is counted. -/
theorem selectCondition_cond {before : List (Cond drivers)} {c : Cond drivers}
    (hnumber : c.isNumber = true → before ≠ []) {p t t' : CString} (ht : Closed t')
    {numbers : Numbers}
    (hcount : c.isNumber = true → numbers (str, p) = countOf (sat before) past) :
    ∃ numbers', selectCondition (drivers.map Registered.driver) dev str p (c.setting.token t)
        (c.setting.value.token t') (selectionOf past dev before) numbers =
          some (selectionOf past dev (c :: before), numbers') ∧
      Counted str past dev (if c.isNumber then [(p, before)] else []) numbers numbers' := by
  have hname := fun w => c.setting.matchToken_token c.literal t w
  unfold selectCondition
  cases c with
  | field e =>
    obtain ⟨-, hdevice, hnum⟩ := e.field.name_ne
    have hdevice := (hname Word.device.chars).trans (decide_eq_false hdevice)
    have hnum := (hname Word.number.chars).trans (decide_eq_false hnum)
    refine ⟨numbers, ?_, Counted.nil _ _ _ _⟩
    rw [if_neg (by rw [Bool.and_eq_true]; exact fun h => Bool.false_ne_true (hnum ▸ h.2)),
      if_neg (by exact fun h => Bool.false_ne_true (hdevice ▸ h))]
    have hvalue : getValue ((Cond.field e : Cond drivers).setting.token t) dev =
        some (e.field.value dev) := getValue_token e t dev
    rw [hvalue]
    dsimp only
    rw [matchToken_token _ ht.stops ht.char_ne]
    simp [selectionOf, sat, Cond.holds, Cond.setting, Entry.setting]
  | device gap ref =>
    have hdevice : matchToken (lit ['d', 'e', 'v', 'i', 'c', 'e']) _ = true :=
      (hname Word.device.chars).trans (decide_eq_true rfl)
    have hnum := (hname Word.number.chars).trans
      (decide_eq_false (show Word.device.chars ≠ Word.number.chars by decide))
    refine ⟨numbers, ?_, Counted.nil _ _ _ _⟩
    rw [if_neg (by rw [Bool.and_eq_true]; exact fun h => Bool.false_ne_true (hnum ▸ h.2)),
      if_pos hdevice]
    have hdriver : pciFindDriverByToken (drivers.map Registered.driver)
        ((Cond.device gap ref).setting.value.token t') = some ref.driver.driver :=
      pciFindDriverByToken_ref ref t'
    rw [hdriver]
    dsimp only
    rw [pciMatch_driver]
    simp [selectionOf, sat, Cond.holds]
  | number gap v =>
    have hnum := (hname Word.number.chars).trans (decide_eq_true rfl)
    have hselected : (selectionOf past dev before).selected = true := by
      simpa [selectionOf] using hnumber rfl
    rw [if_pos (by rw [hselected]; exact hnum)]
    by_cases hsat : sat before past dev = true
    · refine ⟨Function.update numbers (str, p) (numbers (str, p) + 1), ?_, ?_⟩
      · rw [if_neg (by simp [selectionOf, hsat]), hcount rfl]
        change some (Selection.mk true !matchToken (decimal (countOf (sat before) past))
          (v.token t'), _) = _
        rw [matchToken_token v ht.stops ht.char_ne]
        simp [selectionOf, sat, Cond.holds, hsat]
      · exact Counted.single hsat
    · refine ⟨numbers, ?_, ?_⟩
      · rw [if_pos (by simp [selectionOf, hsat])]
        simp [selectionOf, sat, hsat, hnumber rfl]
      · exact Counted.single_of_not hsat

theorem deviceSelection_driver (d : Setting) (hd : d.name.word = Word.driver) {t : CString}
    (ht : Closed t) (p : CString) (s : Selection) (numbers : Numbers) :
    deviceSelection (drivers.map Registered.driver) dev str p (d.token t) (ascii '=') s numbers =
      some (d.value.token t, s, numbers) := by
  have hliteral : d.name.word.Literal := by rw [hd]; rfl
  have hdriver : matchToken (lit ['d', 'r', 'i', 'v', 'e', 'r']) (d.token t) = true := by
    rw [d.matchToken_token hliteral, hd]
    exact decide_eq_true rfl
  rw [deviceSelection]
  split
  · next h =>
    rw [d.getTokenValue_token ht] at h
    cases h
  · next tvalue h =>
    rw [d.getTokenValue_token ht] at h
    obtain rfl := Option.some.inj h
    exact if_pos hdriver

theorem deviceSelection_cond (c : Cond drivers) {t : CString} (ht : Closed t) (p : CString)
    {s s' : Selection} {numbers numbers' : Numbers}
    (h : selectCondition (drivers.map Registered.driver) dev str p (c.setting.token t)
      (c.setting.value.token t) s numbers = some (s', numbers'))
    (hempty : (getToken t.tail).1.isEmpty = false) :
    deviceSelection (drivers.map Registered.driver) dev str p (c.setting.token t) (ascii '=') s
      numbers = deviceSelection (drivers.map Registered.driver) dev str t.tail (getToken t.tail).1
        (getToken t.tail).2 s' numbers' := by
  have hdriver := c.matchToken_driver t
  rw [deviceSelection]
  split
  · next h =>
    rw [c.setting.getTokenValue_token ht] at h
    cases h
  · next tvalue hvalue =>
    rw [c.setting.getTokenValue_token ht] at hvalue
    obtain rfl := Option.some.inj hvalue
    rw [if_neg (by exact fun h => Bool.false_ne_true (hdriver ▸ h)), h]
    exact dif_neg (by
      change ¬ (getToken t.tail).1.isEmpty = true
      rw [hempty]
      exact Bool.false_ne_true)

/-- What follows the conditions is not the end. -/
theorem getToken_condsText (cs : List (Cond drivers)) (d : Setting) (t : CString) :
    ∃ o t', getToken (condsText cs (d.text t)) = (Setting.token o t', ascii '=') := by
  cases cs with
  | nil => exact ⟨d, t, d.getToken_text t⟩
  | cons c cs =>
    rw [condsText_cons]
    exact ⟨c.setting, _, c.setting.getToken_text _⟩

variable (dev) in
/-- The conditions are read up to the driver. -/
theorem deviceSelection_conds {before cs : List (Cond drivers)}
    (hnumber : before = [] → ∀ c ∈ cs.head?, c.isNumber = false) (d : Setting)
    (hd : d.name.word = Word.driver) {t : CString} (ht : Closed t) {numbers : Numbers}
    (hnumbers : NumbersOf str past (condPlaces before cs (d.text t)) numbers) :
    ∃ numbers', deviceSelection (drivers.map Registered.driver) dev str (condsText cs (d.text t))
        (getToken (condsText cs (d.text t))).1 (getToken (condsText cs (d.text t))).2
        (selectionOf past dev before) numbers =
          some (d.value.token t, selectionOf past dev (cs.reverse ++ before), numbers') ∧
      Counted str past dev (condPlaces before cs (d.text t)) numbers numbers' := by
  induction cs generalizing before numbers with
  | nil =>
    have htoken : getToken (condsText ([] : List (Cond drivers)) (d.text t)) =
        (d.token t, ascii '=') := d.getToken_text t
    refine ⟨numbers, ?_, Counted.nil _ _ _ _⟩
    rw [htoken]
    exact deviceSelection_driver d hd ht _ _ _
  | cons c cs ih =>
    have htoken : getToken (condsText (c :: cs) (d.text t)) =
        (c.setting.token (ascii ',' :: condsText cs (d.text t)), ascii '=') := by
      rw [condsText_cons]
      exact c.setting.getToken_text _
    have hempty : (getToken (condsText cs (d.text t))).1.isEmpty = false := by
      obtain ⟨o, t', ho⟩ := getToken_condsText cs d t
      rw [ho]
      exact o.token_isEmpty t'
    have hdisjoint : ∀ p pre pre',
        (p, pre) ∈ (if c.isNumber then [(condsText (c :: cs) (d.text t), before)] else []) →
          (p, pre') ∉ condPlaces (c :: before) cs (d.text t) := by
      intro p pre pre' hmem hmem'
      have hle := (length_of_mem_condPlaces hmem').2
      have hlt := c.setting.length_lt (ascii ',' :: condsText cs (d.text t))
      rw [List.length_cons, ← condsText_cons] at hlt
      split at hmem
      · cases List.mem_singleton.mp hmem
        omega
      · exact absurd hmem List.not_mem_nil
    have hcount : c.isNumber = true →
        numbers (str, condsText (c :: cs) (d.text t)) = countOf (sat before) past := by
      intro hc
      refine hnumbers _ _ (List.mem_append_left _ ?_)
      rw [if_pos hc]
      exact List.mem_cons_self
    have hbefore : c.isNumber = true → before ≠ [] := by
      intro hc hnil
      exact Bool.false_ne_true ((hnumber hnil c rfl).symm.trans hc)
    obtain ⟨numbers₁, hselect, hcounted⟩ := selectCondition_cond dev hbefore
      (t := ascii ',' :: condsText cs (d.text t)) (.comma (condsText cs (d.text t))) hcount
    have hrest : NumbersOf str past (condPlaces (c :: before) cs (d.text t)) numbers₁ :=
      hcounted.numbersOf (fun p pre hmem => hnumbers p pre (List.mem_append_right _ hmem)) hdisjoint
    obtain ⟨numbers₂, hloop, hcounted'⟩ := ih (fun h => absurd h (List.cons_ne_nil _ _)) hrest
    refine ⟨numbers₂, ?_, hcounted.append hcounted' hdisjoint⟩
    rw [htoken]
    dsimp only
    rw [deviceSelection_cond c (.comma _) _ hselect hempty, List.tail_cons, hloop,
      List.reverse_cons, List.append_assoc]
    rfl

/-! ### Strings -/

/-- No rule begins with a number. -/
def Config.NumbersFollow (c : Config drivers) : Prop :=
  ∀ r ∈ c.rules, ∀ cond ∈ r.conds.head?, cond.isNumber = false

/-- What a rule makes of what the rules before have found. -/
def Rule.find (r : Rule drivers) (past : List Device) (dev : Device) (found : Found) : Found :=
  if r.selects past dev && !found.driverSelected then r.action.found else found

theorem selectionOf_failed {before : List (Cond drivers)}
    (h : (selectionOf past dev before).selected = false) :
    (selectionOf past dev before).failed = false := by
  cases before with
  | nil => rfl
  | cons c before => cases h

theorem Rule.selects_eq (r : Rule drivers) (past : List Device) (dev : Device) :
    r.selects past dev = if (selectionOf past dev r.conds.reverse).selected then
      !(selectionOf past dev r.conds.reverse).failed else r.action.selects dev := by
  unfold selects selectionOf
  cases r.conds with
  | nil => rfl
  | cons c cs => simp

/-- One turn of the loop of `pci_match_find_driver_sub`. -/
theorem findDriverSubLoop_rule {r : Rule drivers}
    (hnumber : ∀ cond ∈ r.conds.head?, cond.isNumber = false) {t rest : CString}
    (ht : EndsRule t rest) {found : Found}
    (hfound : found.driverSelected = false → found.options = none) {numbers : Numbers}
    (hnumbers : NumbersOf str past (r.places t) numbers) :
    ∃ numbers', findDriverSubLoop (drivers.map Registered.driver) dev str (r.text t) found numbers =
        findDriverSubLoop (drivers.map Registered.driver) dev str rest (r.find past dev found)
          numbers' ∧
      Counted str past dev (r.places t) numbers numbers' := by
  have hclosed : Closed (tailText Setting.text r.action.settings t) := ht.closed.tailText _
  obtain ⟨numbers', hselect, hcounted⟩ := deviceSelection_conds dev (fun _ => hnumber)
    r.driverSetting rfl hclosed hnumbers
  have hdriver := driverSelection_action dev r.action ht (s := selectionOf past dev r.conds.reverse)
    selectionOf_failed hfound
  have hempty : (getToken (r.text t)).1.isEmpty = false := by
    obtain ⟨o, t', ho⟩ := getToken_condsText r.conds r.driverSetting
      (tailText Setting.text r.action.settings t)
    change (getToken (condsText r.conds (r.driverSetting.text _))).1.isEmpty = false
    rw [ho]
    exact o.token_isEmpty t'
  refine ⟨numbers', ?_, hcounted⟩
  rw [List.append_nil] at hselect
  rw [findDriverSubLoop, dif_neg (by rw [hempty]; exact Bool.false_ne_true)]
  split
  · next h => exact absurd (hselect.symm.trans h) (Option.some_ne_none _)
  · next tvalue s numbers'' h =>
    cases hselect.symm.trans h
    split
    · next h => exact absurd (hdriver.symm.trans h) (Option.some_ne_none _)
    · next p found' h =>
      cases hdriver.symm.trans h
      rw [Rule.find, Rule.selects_eq]

theorem Rule.find_options (r : Rule drivers) {found : Found}
    (h : found.driverSelected = false → found.options = none) :
    (r.find past dev found).driverSelected = false → (r.find past dev found).options = none := by
  unfold find
  split
  · exact fun h => Bool.noConfusion h
  · exact h

/-- What the rules of a string make of what has been found before. -/
def Config.find (c : Config drivers) (past : List Device) (dev : Device) (found : Found) : Found :=
  c.rules.foldl (fun found r => r.find past dev found) found

/-- A string is read to its end, and the device is counted at its places. -/
theorem findDriverSubLoop_config {c : Config drivers} (hfollow : c.NumbersFollow) {found : Found}
    (hfound : found.driverSelected = false → found.options = none) {numbers : Numbers}
    (hnumbers : NumbersOf str past c.places numbers) :
    ∃ numbers', findDriverSubLoop (drivers.map Registered.driver) dev str c.text found numbers =
        some (c.find past dev found, numbers') ∧
      Counted str past dev c.places numbers numbers' := by
  induction c generalizing found numbers with
  | blank b hb =>
    refine ⟨numbers, ?_, Counted.nil _ _ _ _⟩
    exact (findDriverSubLoop.eq_def _ dev str b found numbers).trans
      (dif_pos (by rw [getToken_blank hb]; rfl))
  | last r =>
    have hnumber := hfollow r List.mem_cons_self
    obtain ⟨numbers', hrule, hcounted⟩ := findDriverSubLoop_rule hnumber .nil hfound hnumbers
    refine ⟨numbers', hrule.trans ?_, hcounted⟩
    exact (findDriverSubLoop.eq_def _ dev str [] _ numbers').trans (dif_pos getToken_nil_isEmpty)
  | and r gap rest ih =>
    have hnumber := hfollow r List.mem_cons_self
    have hdisjoint : ∀ p pre pre', (p, pre) ∈ r.places (andText gap rest.text) →
        (p, pre') ∉ rest.places := by
      intro p pre pre' hmem hmem'
      have hlt := (length_lt_of_mem_places hmem).1
      have hle := Config.length_of_mem_places hmem'
      have hand := length_lt_andText gap rest.text
      omega
    obtain ⟨numbers₁, hrule, hcounted⟩ := findDriverSubLoop_rule hnumber (.and gap rest.text)
      hfound (fun p pre hmem => hnumbers p pre (List.mem_append_left _ hmem))
    obtain ⟨numbers₂, hrest, hcounted'⟩ := ih
      (fun r hr => hfollow r (List.mem_cons_of_mem _ hr)) (r.find_options hfound)
      (hcounted.numbersOf (fun p pre hmem => hnumbers p pre (List.mem_append_right _ hmem))
        hdisjoint)
    exact ⟨numbers₂, hrule.trans hrest, hcounted.append hcounted' hdisjoint⟩

end

end OnDemandVirt.Pci.Match
