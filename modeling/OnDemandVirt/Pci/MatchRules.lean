import OnDemandVirt.Pci.MatchGrammar

/-!
# Reading the rules

What the functions of `pci_match.c` make of the text of a rule: the conditions, the driver and the
options are the ones that the text is made of.
-/

namespace OnDemandVirt.Pci.Match

open Vmm (CString isBlank)
open Vmm.Printf (ascii)

/-! ### Settings -/

/-- The end of a setting. -/
inductive Closed : CString → Prop
  | nil : Closed []
  | comma (p : CString) : Closed (ascii ',' :: p)

namespace Closed

variable {t : CString}

theorem stops (h : Closed t) : Stops t := by
  cases h with
  | nil => exact .nil
  | comma p => exact .cons (by decide)

theorem char_eq (h : Closed t) : t.char = ascii ',' ∨ t.char = 0 := by
  cases h with
  | nil => exact .inr rfl
  | comma p => exact .inl rfl

theorem char_ne (h : Closed t) : t.char ≠ ascii '|' := by
  rcases h.char_eq with h | h
  · rw [h]
    decide
  · rw [h]
    decide

theorem tailText {α : Type} {text : α → CString → CString} (h : Closed t) (as : List α) :
    Closed (tailText text as t) := by
  cases as with
  | nil => exact h
  | cons a as => exact .comma _

end Closed

theorem stops_value (p : CString) : Stops (ascii '=' :: p) := .cons (by decide)

theorem char_value_ne (p : CString) : CString.char (ascii '=' :: p) ≠ ascii '|' := by
  change ascii '=' ≠ ascii '|'
  decide

theorem Value.token_isEmpty (v : Value) (t : CString) : (v.token t).isEmpty = false := by
  have hlt : (v.stop t).length < (v.start t).length := by
    cases v with
    | one c => exact c.length_stop_lt t
    | alt c v =>
      have hle := v.length_stop_le t
      have hlt := c.length_stop_lt (ascii '|' :: v.text t)
      rw [Cell.stop, List.length_append, List.length_cons] at hlt
      rw [Value.stop, Value.start]
      omega
  refine decide_eq_false fun h => ?_
  have heq : v.start t = v.stop t := Option.some.inj h
  rw [heq] at hlt
  exact Nat.lt_irrefl _ hlt

/-- A word without stars and question marks matches itself. -/
theorem glob_literal {w : CString} (hw : w.all isLiteralChar = true) (str : CString) :
    glob w str = decide (w = str) := by
  induction w generalizing str with
  | nil => cases str <;> rfl
  | cons c w ih =>
    rw [List.all_cons, Bool.and_eq_true] at hw
    obtain ⟨hstar, hany⟩ : c ≠ ascii '*' ∧ c ≠ ascii '?' := by
      simpa [isLiteralChar] using hw.1
    rw [glob_cons, if_neg hstar]
    cases str with
    | nil => rfl
    | cons x str => simp [hany, ih hw.2]

namespace Setting

variable (o : Setting) {t : CString}

theorem getToken_text (t : CString) : getToken (o.text t) = (o.token t, ascii '=') :=
  (Value.one o.name).getToken_text (stops_value _) (char_value_ne _)

theorem token_isEmpty (t : CString) : (o.token t).isEmpty = false := Value.token_isEmpty _ _

theorem getTokenValue_token (ht : Closed t) :
    getTokenValue (o.token t) (ascii '=') = some (o.value.token t) := by
  have hvalue : getToken (o.token t).next = (o.value.token t, t.char) :=
    o.value.getToken_text ht.stops ht.char_ne
  unfold getTokenValue
  rw [if_neg (by simp [token, Value.token]), hvalue]
  refine if_neg ?_
  rintro (h | ⟨hcomma, hzero⟩)
  · cases h
  · rcases ht.char_eq with h | h
    · exact hcomma h
    · exact hzero h

theorem matchToken_token (hliteral : o.name.word.Literal) (t str : CString) :
    matchToken str (o.token t) = decide (o.name.word.chars = str) := by
  rw [token, Match.matchToken_token _ (stops_value _) (char_value_ne _)]
  exact glob_literal hliteral str

theorem chars_token (t : CString) : (o.token t).chars = o.name.word.chars :=
  o.name.chars_token _ _

end Setting

theorem Field.literal (f : Field) : f.word.Literal := by
  cases f <;> rfl

theorem getValue_token (e : Entry) (t : CString) (dev : Device) :
    getValue (e.setting.token t) dev = some (e.field.value dev) := by
  have hname : ∀ f : Field, matchToken f.name (e.setting.token t) =
      decide (e.field.name = f.name) := fun f => e.setting.matchToken_token e.field.literal t f.name
  have hfind : (Field.all.find? fun f => decide (e.field.name = f.name)) = some e.field := by
    cases e.field <;> decide
  unfold getValue
  simp only [hname, hfind, Option.map_some]

/-! ### The devices of a driver -/

theorem pciMatchLoop_setting (dev : Device) (o : Setting) {t : CString} (ht : Closed t) :
    pciMatchLoop dev (o.text t) =
      match getValue (o.token t) dev with
      | none => none
      | some buf =>
        if matchToken buf (o.value.token t) then pciMatchLoop dev t.tail else some false := by
  have htoken := o.getToken_text t
  rw [pciMatchLoop, dif_neg (by rw [htoken, o.token_isEmpty]; exact Bool.false_ne_true)]
  split
  · next h =>
    rw [htoken, o.getTokenValue_token ht] at h
    cases h
  · next tvalue h =>
    rw [htoken, o.getTokenValue_token ht] at h
    obtain rfl := Option.some.inj h
    rw [htoken]
    rfl

theorem pciMatch_driver (r : Registered) (dev : Device) :
    pciMatch dev r.driver = some (r.selects dev) := by
  unfold pciMatch Registered.selects Registered.driver
  dsimp only
  induction r.device with
  | nil =>
    exact (pciMatchLoop.eq_def dev []).trans (dif_pos getToken_nil_isEmpty)
  | cons e es ih =>
    have ht : Closed (tailText Setting.text (es.map Entry.setting) []) := Closed.nil.tailText _
    change pciMatchLoop dev (e.setting.text _) = _
    rw [pciMatchLoop_setting dev _ ht, getValue_token]
    dsimp only
    rw [Match.matchToken_token _ ht.stops ht.char_ne, ih, List.all_cons]
    change (if e.value.globs (e.field.value dev) = true then _ else _) = _
    cases e.value.globs (e.field.value dev)
    · rfl
    · rfl

/-! ### Names of drivers and options -/

theorem chars_one_token (c : Cell) (t : CString) : ((Value.one c).token t).chars = c.word.chars :=
  (Value.one c).chars_token t

section

variable {drivers : List Registered}

theorem pciFindDriverByToken_ref (ref : DriverRef drivers) (t : CString) :
    pciFindDriverByToken (drivers.map Registered.driver) ((Value.one ref.cell).token t) =
      some ref.driver.driver := by
  have hname (r : Registered) : (decide (r.driver.name ≠ [] ∧
      r.driver.name = ((Value.one ref.cell).token t).chars)) =
        decide (r.name.chars = ref.driver.name.chars) := by
    rw [chars_one_token]
    exact decide_eq_decide.mpr (and_iff_right r.name.ne_nil)
  unfold pciFindDriverByToken
  rw [List.find?_map]
  simp only [Function.comp_def, hname, ref.found, Option.map_some]

/-- A name before a comma or the end is read without an error. -/
theorem getToken_cell (c : Cell) {t : CString} (ht : Closed t) :
    getToken (c.text t) = ((Value.one c).token t, t.char) ∧
      ¬ (((Value.one c).token t).start.isNone = true ∨ (t.char ≠ ascii ',' ∧ t.char ≠ 0)) := by
  refine ⟨(Value.one c).getToken_text ht.stops ht.char_ne, ?_⟩
  rintro (h | ⟨hcomma, hzero⟩)
  · cases h
  · exact ht.char_eq.elim hcomma hzero

theorem findOption_cell (name : CString) (c : Cell) {t : CString} (ht : Closed t) :
    findOption name (c.text t) =
      if c.word.chars = name then some 0 else (findOption name t.tail).map (· + 1) := by
  obtain ⟨htoken, hclosed⟩ := getToken_cell c ht
  have hnext : ((Value.one c).token t).next = t.tail := rfl
  rw [findOption, dif_neg (by rw [htoken, Value.token_isEmpty]; exact Bool.false_ne_true), htoken,
    if_neg hclosed, chars_one_token, hnext]

theorem countOptions_cell (c : Cell) {t : CString} (ht : Closed t) :
    countOptions (c.text t) = (countOptions t.tail).map (· + 1) := by
  obtain ⟨htoken, hclosed⟩ := getToken_cell c ht
  rw [countOptions, dif_neg (by rw [htoken, Value.token_isEmpty]; exact Bool.false_ne_true), htoken,
    if_neg hclosed]
  rfl

theorem findOption_names (names : List Cell) {name : CString}
    (h : name ∈ names.map fun c => c.word.chars) :
    findOption name (tailText Cell.text names []).tail =
      some ((names.map fun c => c.word.chars).idxOf name) := by
  induction names with
  | nil => exact absurd h List.not_mem_nil
  | cons c names ih =>
    change findOption name (c.text _) = _
    rw [findOption_cell name c (Closed.nil.tailText _), List.map_cons]
    by_cases hc : c.word.chars = name
    · rw [if_pos hc, hc, List.idxOf_cons_self]
    · have hmem := (List.mem_cons.mp h).resolve_left (Ne.symm hc)
      rw [if_neg hc, ih hmem, List.idxOf_cons_ne _ hc]
      rfl

theorem countOptions_names (names : List Cell) :
    countOptions (tailText Cell.text names []).tail = some names.length := by
  induction names with
  | nil =>
    exact (countOptions.eq_def []).trans (dif_pos getToken_nil_isEmpty)
  | cons c names ih =>
    change countOptions (c.text _) = _
    rw [countOptions_cell c (Closed.nil.tailText _), ih]
    rfl

/-! ### The options of a rule -/

/-- The end of a rule, and what is left after it. -/
inductive EndsRule : CString → CString → Prop
  | nil : EndsRule [] []
  | and (gap : Gap) (rest : CString) :
    EndsRule (ascii ',' :: Cell.text ⟨gap, Word.and⟩ (ascii ',' :: rest)) rest

theorem EndsRule.closed {t rest : CString} (h : EndsRule t rest) : Closed t := by
  cases h with
  | nil => exact .nil
  | and gap rest => exact .comma _

theorem optionSelection_end {t rest : CString} (h : EndsRule t rest) (driver : Option Driver)
    (save : Bool) (options : Options) :
    optionSelection driver save t.tail options = some (rest, options) := by
  cases h with
  | nil =>
    exact (optionSelection.eq_def driver save [] options).trans (dif_pos getToken_nil_isEmpty)
  | and gap rest =>
    have hclosed : Closed (ascii ',' :: rest) := .comma rest
    obtain ⟨htoken, -⟩ := getToken_cell ⟨gap, Word.and⟩ hclosed
    have hand : matchToken (lit ['a', 'n', 'd']) ((Value.one ⟨gap, Word.and⟩).token
        (ascii ',' :: rest)) = true := by
      rw [matchToken_token _ hclosed.stops hclosed.char_ne]
      exact (glob_literal rfl _).trans (decide_eq_true rfl)
    rw [List.tail_cons, optionSelection,
      dif_neg (by rw [htoken, Value.token_isEmpty]; exact Bool.false_ne_true), htoken,
      if_neg (by exact Bool.false_ne_true), if_pos ⟨hand, rfl⟩]
    rfl

theorem saveDriverOptions_setting (save : Bool) (r : Registered) (o : Setting) (t t' : CString)
    (options : Options) (h : o.name.word.chars ∈ r.optionNames) :
    saveDriverOptions save r.driver (o.token t) (o.value.token t') options =
      some (if save then options.map fun options => r.setOption options o else options) := by
  have hfind : findOption o.name.word.chars (r.driver.driverOptions.getD []) =
      some (r.optionNames.idxOf o.name.word.chars) := by
    unfold Registered.driver Registered.optionNames at *
    dsimp only
    cases hoptions : r.options with
    | none =>
      rw [hoptions] at h
      exact absurd h List.not_mem_nil
    | some names =>
      rw [hoptions] at h
      exact findOption_names names h
  rw [saveDriverOptions, o.chars_token, hfind, Value.chars_token]
  rfl

theorem optionSelection_setting (save : Bool) (r : Registered) (o : Setting) {t : CString}
    (ht : Closed t) (options : Options) (h : o.name.word.chars ∈ r.optionNames) :
    optionSelection (some r.driver) save (o.text t) options =
      optionSelection (some r.driver) save t.tail
        (if save then options.map fun options => r.setOption options o else options) := by
  have htoken := o.getToken_text t
  have hvalue := o.getTokenValue_token ht
  rw [optionSelection, dif_neg (by rw [htoken, o.token_isEmpty]; exact Bool.false_ne_true)]
  rw [if_neg (by rw [htoken]; exact Bool.false_ne_true)]
  rw [if_neg (by
    rw [htoken]
    exact fun h => absurd h.2 (show ascii '=' ≠ ascii ',' by decide))]
  split
  · next h =>
    rw [htoken, hvalue] at h
    cases h
  · next tvalue h =>
    rw [htoken, hvalue] at h
    obtain rfl := Option.some.inj h
    rw [htoken]
    dsimp only
    rw [saveDriverOptions_setting save r o _ _ _ ‹_›]
    rfl

/-- The options of a rule are read to its end. -/
theorem optionSelection_settings (save : Bool) (r : Registered) {os : List Setting}
    (hos : ∀ o ∈ os, o.name.word.chars ∈ r.optionNames) {t rest : CString} (h : EndsRule t rest)
    (options : Options) :
    optionSelection (some r.driver) save (tailText Setting.text os t).tail options =
      some (rest, if save then options.map (os.foldl r.setOption) else options) := by
  induction os generalizing options with
  | nil =>
    rw [tailText, optionSelection_end h]
    simp
  | cons o os ih =>
    change optionSelection (some r.driver) save (o.text _) options = _
    rw [optionSelection_setting save r o (h.closed.tailText os) options (hos o List.mem_cons_self),
      ih fun o ho => hos o (List.mem_cons_of_mem _ ho)]
    cases save
    · rfl
    · simp [Function.comp_def]

/-! ### The driver of a rule -/

/-- What a rule that matches makes of what has been found. -/
def Action.found (a : Action drivers) : Found := ⟨a.driver?, true, a.options⟩

theorem namedDriver_action (a : Action drivers) {t : CString} (ht : Closed t) :
    namedDriver (drivers.map Registered.driver) ((Value.one a.cell).token t) = some a.driver? := by
  unfold namedDriver
  rw [matchToken_token _ ht.stops ht.char_ne]
  cases a with
  | none gap =>
    have hnone : (Value.one (Action.none gap : Action drivers).cell).globs
        (lit ['n', 'o', 'n', 'e']) = true := (glob_literal rfl _).trans (decide_eq_true rfl)
    rw [hnone]
    rfl
  | driver ref isNot settings declared =>
    have hname : (Value.one (Action.driver ref isNot settings declared).cell).globs
        (lit ['n', 'o', 'n', 'e']) = false :=
      (glob_literal ref.driver.literal _).trans (decide_eq_false isNot)
    rw [hname]
    exact congrArg (Option.map some) (pciFindDriverByToken_ref ref t)

theorem ruleMatch_action (dev : Device) (a : Action drivers) {s : Selection}
    (hs : s.selected = false → s.failed = false) :
    ruleMatch dev a.driver? s = some (if s.selected then !s.failed else a.selects dev) := by
  unfold ruleMatch
  cases hselected : s.selected with
  | true => rfl
  | false =>
    cases a with
    | none gap => rfl
    | driver ref isNot settings declared =>
      simp only [Action.driver?, pciMatch_driver, hs hselected]
      rfl

theorem allocDriverOptions_driver (r : Registered) :
    allocDriverOptions r.driver none =
      some (r.options.map fun names => List.replicate names.length none) := by
  unfold allocDriverOptions Registered.driver
  cases r.options with
  | none => rfl
  | some names => simp [countOptions_names]

theorem driverSelection_action (dev : Device) (a : Action drivers) {t rest : CString}
    (h : EndsRule t rest) {s : Selection} (hs : s.selected = false → s.failed = false)
    {found : Found} (hfound : found.driverSelected = false → found.options = none) :
    driverSelection (drivers.map Registered.driver) dev
      ((Value.one a.cell).token (tailText Setting.text a.settings t)) s found = some (rest,
        if (if s.selected then !s.failed else a.selects dev) && !found.driverSelected then a.found
        else found) := by
  have hclosed : Closed (tailText Setting.text a.settings t) := h.closed.tailText _
  have hnext : ((Value.one a.cell).token (tailText Setting.text a.settings t)).next =
      (tailText Setting.text a.settings t).tail := rfl
  unfold driverSelection
  rw [namedDriver_action a hclosed]
  dsimp only
  rw [ruleMatch_action dev a hs, hnext]
  dsimp only
  by_cases hmatched : ((if s.selected then !s.failed else a.selects dev) &&
    !found.driverSelected) = true
  · have hnone : found.options = none :=
      hfound (Bool.not_eq_true' _ ▸ (Bool.and_eq_true_iff.mp hmatched).2)
    rw [if_pos hmatched, if_pos hmatched, hnone]
    cases a with
    | none gap =>
      simp only [Action.driver?, Action.settings, tailText, Option.elim, optionSelection_end h]
      rfl
    | driver ref isNot settings declared =>
      simp only [Action.driver?, Action.settings, Option.elim, allocDriverOptions_driver,
        optionSelection_settings true ref.driver declared h]
      simp [Action.found, Action.driver?, Action.options, Function.comp_def]
  · rw [if_neg hmatched, if_neg hmatched]
    cases a with
    | none gap =>
      simp only [Action.driver?, Action.settings, tailText, optionSelection_end h]
      rfl
    | driver ref isNot settings declared =>
      simp only [Action.driver?, Action.settings,
        optionSelection_settings false ref.driver declared h]
      rfl

end

end OnDemandVirt.Pci.Match
