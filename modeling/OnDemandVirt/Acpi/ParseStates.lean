import OnDemandVirt.Lib.RefLists

/-!
# The parse states of the DSDT

`parsemain` of `acpi_dsdt.c` follows all the derivations of the table at once: each is a
`parsedatalist` with three lists, the elements that it is in (`path`), the elements that it still
expects (`buf`) and the ends of the packages that it is in (`limit`). An alternative of a rule is a
new state whose lists go on in the nodes of the old one, so the nodes have reference counts.

The rules are a parameter: what `switch (element)` does is one of the actions below, found from the
element, the data of the state and the byte at `d->c`. That byte is one of the step, for
`break_method` overwrites bytes, and so is the data that `parseok` leaves.
-/

namespace OnDemandVirt.Acpi

open Lib.RefLists

variable {E D : Type} [DecidableEq E]

/-- `struct parsedatalist`; `data` is all but its lists. -/
structure ParseDataList (E D : Type) where
  data : D
  limithead : Option Nat
  pathelement : E
  pathhead : Option Nat
  bufhead : Option Nat

/-- `struct parsedata`, and the nodes of the three kinds of lists; `c` is counted from `start`. -/
structure ParseData (E D : Type) where
  head : List (ParseDataList E D)
  ok : List (ParseDataList E D)
  c : Nat
  paths : Cells E
  bufs : Cells E
  limits : Cells Nat

/-- What the switch does with an element. -/
inductive Action (E D : Type)
  /-- `addbuf` for each of the alternatives. -/
  | addbuf (alternatives : List (List E))
  /-- `AML_Nothing`. -/
  | loop2
  /-- `goto ok`, with the data of the state changed by `AML_PkgLength_0` to `3`. -/
  | ok (data : D)
  | err
  /-- `AML_PkgLength_PUSH`. -/
  | pkgLengthPush (pkgend : Nat)
  | pkgIgnore
  | pkgEnd
  /-- `case OK`: the element that the path begins with is complete. -/
  | pathOk
  /-- `error`, which does not return. -/
  | error

/-- The grammar: the elements `OK` and `AML_AMLCode`, the data of the first state, the actions, and
whether a `system_state[i][0]` of a state is greater than that of another. -/
structure Rules (E D : Type) where
  okElement : E
  amlCode : E
  init : D
  action : E → D → Nat → BitVec 8 → Action E D
  supersedes : D → D → Bool

/-- Where `parsemain` is: at `loop` with `r`, at `loop2` with `d->cur`, or back in `parser`, before
and after the lists of the result are freed. -/
inductive Phase (E D : Type)
  | loop (r : Option (ParseDataList E D))
  | loop2 (cur : ParseDataList E D)
  | returned (r : Option (ParseDataList E D))
  | freed

/-! ### The functions -/

/-- `addbufsub`. -/
def addbufsub (rules : Rules E D) (cur : ParseDataList E D) (d : ParseData E D) (tmp : List E) :
    ParseData E D :=
  let f := (cur.pathhead.bind (read d.paths)).map (·.val) ≠ some cur.pathelement
  -- copy path
  let paths := share cur.pathhead d.paths
  let path := if f then cons cur.pathhead cur.pathelement paths else (cur.pathhead, paths)
  -- copy buf
  let bufs := share cur.bufhead d.bufs
  let buf := if f then cons cur.bufhead rules.okElement bufs else (cur.bufhead, bufs)
  let buf := tmp.foldr (fun element buf => cons buf.1 element buf.2) buf
  { d with
    head := { cur with pathhead := path.1, bufhead := buf.1 } :: d.head
    paths := path.2
    bufs := buf.2
    -- copy limit
    limits := share cur.limithead d.limits }

/-- `getbuf`. -/
def getbuf (d : ParseData E D) : Option (ParseDataList E D) × ParseData E D :=
  let d := if d.head.isEmpty then { d with head := d.ok, ok := [], c := d.c + 1 } else d
  (d.head.head?, { d with head := d.head.tail })

/-- A loop of `eqlist`: as far as the lists are different nodes, they have the same values. -/
def sameList {V : Type} [DecidableEq V] (cells : Cells V) :
    Nat → Option Nat → Option Nat → Bool
  | 0, _, _ => false
  | fuel + 1, x, y =>
    if x = y then true
    else
      match x.bind (read cells), y.bind (read cells) with
      | some p, some q => decide (p.val = q.val) && sameList cells fuel p.next q.next
      | _, _ => false

/-- `eqlist`; the addresses descend along a list, so that there are enough passes. -/
def eqlist (d : ParseData E D) (p q : ParseDataList E D) : Bool :=
  sameList d.bufs (d.bufs.length + 1) p.bufhead q.bufhead &&
    sameList d.limits (d.limits.length + 1) p.limithead q.limithead

/-- `parsefreepathlist`, `parsefreebuflist` and `parsefreelimitlist` of a state. -/
def parsefree (q : ParseDataList E D) (d : ParseData E D) : ParseData E D :=
  { d with
    paths := release q.pathhead d.paths
    bufs := release q.bufhead d.bufs
    limits := release q.limithead d.limits }

/-- `poppkgend` without `pollflag`: the package end, and the state behind it. -/
def poppkgend (cur : ParseDataList E D) (d : ParseData E D) :
    Option (Nat × ParseDataList E D × ParseData E D) :=
  cur.limithead.bind fun a => (read d.limits a).map fun curlimit =>
    (curlimit.val, { cur with limithead := curlimit.next },
      { d with limits := pop a curlimit d.limits })

/-- `poppkgend` with `pollflag`. -/
def pollpkgend (cur : ParseDataList E D) (d : ParseData E D) : Option Nat :=
  (cur.limithead.bind (read d.limits)).map (·.val)

/-- The label `err`. -/
def err (cur : ParseDataList E D) (d : ParseData E D) : Phase E D × ParseData E D :=
  (.loop none, parsefree cur d)

/-- The label `ok`; `named` is the data that `parseok` leaves. -/
def goOk (rules : Rules E D) (named : D) (cur : ParseDataList E D) (d : ParseData E D) :
    Phase E D × ParseData E D :=
  if pollpkgend cur d = some d.c then err cur d
  else if d.ok.any fun q => eqlist d cur q && !rules.supersedes cur.data q.data then err cur d
  else (.loop none, { d with ok := { cur with data := named } :: d.ok })

/-- The actions; `none` is a call of `error`. -/
def perform (rules : Rules E D) (named : D) (cur : ParseDataList E D) (d : ParseData E D) :
    Action E D → Option (Phase E D × ParseData E D)
  | .addbuf alternatives => some (err cur (alternatives.foldl (addbufsub rules cur) d))
  | .loop2 => some (.loop2 cur, d)
  | .ok data => some (goOk rules named { cur with data := data } d)
  | .err => some (err cur d)
  | .pkgLengthPush pkgend =>
    let limit := cons cur.limithead pkgend d.limits
    some (.loop2 { cur with limithead := limit.1 }, { d with limits := limit.2 })
  | .pkgIgnore => (poppkgend cur d).map fun (_, cur, d) => (.loop2 cur, d)
  | .pkgEnd => (poppkgend cur d).map fun (tmpc, cur, d) =>
    if tmpc = d.c then (.loop2 cur, d) else err cur d
  | .pathOk =>
    cur.pathhead.bind fun a => (read d.paths a).map fun curpath =>
      (.loop2 { cur with pathhead := curpath.next }, { d with paths := pop a curpath d.paths })
  | .error => none

/-- `parsemain`, from one label to the next; `stop` is `d->end`. With `ACPI_IGNORE_ERROR` it returns
no state when there is none left; `none` is a call of `error`, as for the return without it. -/
def parsemain (rules : Rules E D) (stop : Nat) (byte : BitVec 8) (named : D) :
    Phase E D × ParseData E D → Option (Phase E D × ParseData E D)
  | (.loop none, d) =>
    match getbuf d with
    | (none, d) => some (.returned none, d)
    | (some cur, d) => some (if d.c = stop then .loop (some cur) else .loop2 cur, d)
  | (.loop (some r), d) =>
    match getbuf d with
    | (none, d) => some (.returned (some r), d)
    | (some cur, d) => some (.loop (some r), parsefree cur d)
  | (.loop2 cur, d) =>
    match cur.bufhead with
    | none => some (err cur d)
    | some a => (read d.bufs a).bind fun curbuf =>
      let element := curbuf.val
      perform rules named { cur with bufhead := curbuf.next, pathelement := element }
        { d with bufs := pop a curbuf d.bufs } (rules.action element cur.data d.c byte)
  | (.returned _, _) | (.freed, _) => none

/-- `parser` before `parsemain`. -/
def parserStart (rules : Rules E D) (d : ParseData E D) : Phase E D × ParseData E D :=
  let buf := cons none rules.amlCode d.bufs
  (.loop none,
    { d with
      head := [⟨rules.init, none, rules.okElement, none, buf.1⟩]
      ok := []
      c := 0
      bufs := buf.2 })

/-- `parser` after `parsemain`. -/
def parserEnd (r : Option (ParseDataList E D)) (d : ParseData E D) : Phase E D × ParseData E D :=
  match r with
  | none => (.freed, d)
  | some q => (.freed, parsefree q d)

/-- What the parser may come to; with `TTY_SERIAL` it parses the table twice. -/
inductive Reachable (rules : Rules E D) (stop : Nat) : Phase E D × ParseData E D → Prop
  | start : Reachable rules stop (parserStart rules ⟨[], [], 0, [], [], []⟩)
  | step {s s' byte named} : Reachable rules stop s → parsemain rules stop byte named s = some s' →
      Reachable rules stop s'
  | finish {r d} : Reachable rules stop (.returned r, d) → Reachable rules stop (parserEnd r d)
  | again {d} : Reachable rules stop (.freed, d) → Reachable rules stop (parserStart rules d)

/-! ### The counts -/

/-- The states that `parsemain` and `parser` have outside the lists of `d`. -/
def Phase.states : Phase E D → List (ParseDataList E D)
  | .loop r | .returned r => r.toList
  | .loop2 cur => [cur]
  | .freed => []

/-- The live states. -/
def states (s : Phase E D × ParseData E D) : List (ParseDataList E D) :=
  s.1.states ++ s.2.head ++ s.2.ok

/-- Each node of the three kinds is counted as often as states and nodes refer to it. -/
structure Exact (states : List (ParseDataList E D)) (d : ParseData E D) : Prop where
  paths : Counted (states.map (·.pathhead)) d.paths
  bufs : Counted (states.map (·.bufhead)) d.bufs
  limits : Counted (states.map (·.limithead)) d.limits

section Counts

variable {rules : Rules E D} {cur q : ParseDataList E D} {rest : List (ParseDataList E D)}
variable {d : ParseData E D}

omit [DecidableEq E] in
theorem Exact.perm {l l' : List (ParseDataList E D)} (h : Exact l d) (hp : l.Perm l') :
    Exact l' d where
  paths := h.paths.congr fun _ => ((hp.map _).count_eq _).symm
  bufs := h.bufs.congr fun _ => ((hp.map _).count_eq _).symm
  limits := h.limits.congr fun _ => ((hp.map _).count_eq _).symm

theorem counted_share {V : Type} {x : Option Nat} {holders : List (Option Nat)} {cells : Cells V}
    (h : Counted (x :: holders) cells) : Counted (x :: x :: holders) (share x cells) :=
  h.share fun _ ha => (ha ▸ h).exists_read

theorem counted_cons_if {V : Type} {f : Prop} [Decidable f] {v : V} {x : Option Nat}
    {holders : List (Option Nat)} {cells : Cells V} (h : Counted (x :: holders) cells) :
    Counted ((if f then cons x v cells else (x, cells)).1 :: holders)
      (if f then cons x v cells else (x, cells)).2 := by
  split
  case isTrue => exact h.cons v
  case isFalse => exact h

/-- The nodes of new elements before a list that is held. -/
theorem counted_foldr_cons {V : Type} (tmp : List V) {holders : List (Option Nat)}
    {buf : Option Nat × Cells V} (h : Counted (buf.1 :: holders) buf.2) :
    Counted ((tmp.foldr (fun element buf => cons buf.1 element buf.2) buf).1 :: holders)
      (tmp.foldr (fun element buf => cons buf.1 element buf.2) buf).2 := by
  induction tmp with
  | nil => exact h
  | cons element tmp ih => exact ih.cons element

/-- A new state takes one reference to each list of the state that it is an alternative of. -/
theorem Exact.addbufsub (h : Exact (cur :: (d.head ++ rest)) d) (tmp : List E) :
    Exact (cur :: ((addbufsub rules cur d tmp).head ++ rest)) (addbufsub rules cur d tmp) := by
  have hpaths := counted_share h.paths
  have hbufs := counted_share h.bufs
  have hlimits := counted_share h.limits
  refine Exact.perm (l := _ :: cur :: (d.head ++ rest)) ?_ (List.Perm.swap _ _ _)
  unfold Acpi.addbufsub
  exact ⟨counted_cons_if hpaths, counted_foldr_cons tmp (counted_cons_if hbufs), hlimits⟩

theorem Exact.addbuf (alternatives : List (List E)) (h : Exact (cur :: (d.head ++ rest)) d) :
    Exact (cur :: ((alternatives.foldl (Acpi.addbufsub rules cur) d).head ++ rest))
      (alternatives.foldl (Acpi.addbufsub rules cur) d) := by
  induction alternatives generalizing d with
  | nil => exact h
  | cons tmp alternatives ih => exact ih (h.addbufsub tmp)

theorem foldl_addbufsub_ok (alternatives : List (List E)) :
    (alternatives.foldl (addbufsub rules cur) d).ok = d.ok := by
  induction alternatives generalizing d with
  | nil => rfl
  | cons tmp alternatives ih => exact ih

omit [DecidableEq E] in
theorem Exact.parsefree (h : Exact (q :: rest) d) : Exact rest (parsefree q d) where
  paths := h.paths.release
  bufs := h.bufs.release
  limits := h.limits.release

omit [DecidableEq E] in
theorem Exact.err (h : Exact (cur :: (d.head ++ d.ok)) d) :
    Exact (states (err cur d)) (err cur d).2 := h.parsefree

omit [DecidableEq E] in
theorem Exact.poppkgend {r : Nat × ParseDataList E D × ParseData E D} (h : Exact (cur :: rest) d)
    (hr : poppkgend cur d = some r) :
    Exact (r.2.1 :: rest) r.2.2 ∧ r.2.2.head = d.head ∧ r.2.2.ok = d.ok := by
  obtain ⟨a, ha, hr⟩ := Option.bind_eq_some_iff.mp hr
  obtain ⟨c, hc, rfl⟩ := Option.map_eq_some_iff.mp hr
  have hlimits := h.limits
  rw [List.map_cons, ha] at hlimits
  exact ⟨⟨h.paths, h.bufs, hlimits.pop hc⟩, rfl, rfl⟩

theorem Exact.goOk {named : D} (h : Exact (cur :: (d.head ++ d.ok)) d) :
    Exact (states (goOk rules named cur d)) (goOk rules named cur d).2 := by
  unfold Acpi.goOk
  split
  · exact h.err
  · split
    · exact h.err
    · -- the state moves to the list for the next byte
      have hok : Exact ({ cur with data := named } :: (d.head ++ d.ok))
          { d with ok := { cur with data := named } :: d.ok } := ⟨h.paths, h.bufs, h.limits⟩
      exact hok.perm List.perm_middle.symm

theorem Exact.perform {named : D} {action : Action E D} {s : Phase E D × ParseData E D}
    (h : Exact (cur :: (d.head ++ d.ok)) d) (hs : perform rules named cur d action = some s) :
    Exact (states s) s.2 := by
  cases action with
  | addbuf alternatives =>
    cases hs
    have hok : (alternatives.foldl (Acpi.addbufsub rules cur) d).ok = d.ok :=
      foldl_addbufsub_ok alternatives
    have hnew : Exact
        (cur :: ((alternatives.foldl (Acpi.addbufsub rules cur) d).head ++ d.ok)) _ :=
      h.addbuf alternatives
    rw [← hok] at hnew
    exact hnew.err
  | loop2 =>
    cases hs
    exact h
  | ok data =>
    cases hs
    have hdata : Exact ({ cur with data := data } :: (d.head ++ d.ok)) d :=
      ⟨h.paths, h.bufs, h.limits⟩
    exact hdata.goOk
  | err =>
    cases hs
    exact h.err
  | pkgLengthPush pkgend =>
    cases hs
    exact ⟨h.paths, h.bufs, h.limits.cons pkgend⟩
  | pkgIgnore =>
    obtain ⟨⟨tmpc, cur', d'⟩, hr, rfl⟩ := Option.map_eq_some_iff.mp hs
    obtain ⟨hex, hhead, hok⟩ := h.poppkgend hr
    simp only at hex hhead hok
    rw [← hhead, ← hok] at hex
    exact hex
  | pkgEnd =>
    obtain ⟨⟨tmpc, cur', d'⟩, hr, rfl⟩ := Option.map_eq_some_iff.mp hs
    obtain ⟨hex, hhead, hok⟩ := h.poppkgend hr
    simp only at hex hhead hok
    rw [← hhead, ← hok] at hex
    simp only
    by_cases htmpc : tmpc = d'.c
    · rw [if_pos htmpc]
      exact hex
    · rw [if_neg htmpc]
      exact hex.err
  | pathOk =>
    obtain ⟨a, ha, hs⟩ := Option.bind_eq_some_iff.mp hs
    obtain ⟨c, hc, rfl⟩ := Option.map_eq_some_iff.mp hs
    have hpaths := h.paths
    rw [List.map_cons, ha] at hpaths
    exact ⟨hpaths.pop hc, h.bufs, h.limits⟩
  | error => cases hs

omit [DecidableEq E] in
/-- `getbuf` takes one of the live states. -/
theorem getbuf_perm (d : ParseData E D) :
    ((getbuf d).1.toList ++ (getbuf d).2.head ++ (getbuf d).2.ok).Perm (d.head ++ d.ok) := by
  unfold getbuf
  cases hhead : d.head with
  | nil =>
    cases hok : d.ok with
    | nil => simp
    | cons q ok => simp
  | cons q head => simp [hhead]

omit [DecidableEq E] in
theorem Exact.getbuf (h : Exact (rest ++ (d.head ++ d.ok)) d) :
    Exact (rest ++ ((getbuf d).1.toList ++ (getbuf d).2.head ++ (getbuf d).2.ok))
      (getbuf d).2 := by
  have hsame : (Acpi.getbuf d).2.paths = d.paths ∧ (Acpi.getbuf d).2.bufs = d.bufs ∧
      (Acpi.getbuf d).2.limits = d.limits := by
    unfold Acpi.getbuf
    split <;> exact ⟨rfl, rfl, rfl⟩
  have hperm := h.perm (List.Perm.append_left rest (getbuf_perm d).symm)
  exact ⟨hsame.1 ▸ hperm.paths, hsame.2.1 ▸ hperm.bufs, hsame.2.2 ▸ hperm.limits⟩

/-- What one step of `parsemain` keeps. -/
theorem Exact.parsemain {stop : Nat} {byte : BitVec 8} {named : D}
    {s s' : Phase E D × ParseData E D} (h : Exact (states s) s.2)
    (hs : parsemain rules stop byte named s = some s') : Exact (states s') s'.2 := by
  obtain ⟨phase, d⟩ := s
  unfold states at h
  rw [List.append_assoc] at h
  have hget := h.getbuf
  cases phase with
  | loop r =>
    cases r with
    | none =>
      unfold Acpi.parsemain at hs
      simp only at hs
      split at hs
      case h_1 d' heq =>
        cases hs
        rw [heq] at hget
        exact hget
      case h_2 cur d' heq =>
        cases hs
        rw [heq] at hget
        by_cases hstop : d'.c = stop
        · rw [if_pos hstop]
          exact hget
        · rw [if_neg hstop]
          exact hget
    | some r =>
      unfold Acpi.parsemain at hs
      simp only at hs
      split at hs
      case h_1 d' heq =>
        cases hs
        rw [heq] at hget
        exact hget
      case h_2 cur d' heq =>
        cases hs
        rw [heq] at hget
        exact (hget.perm (List.Perm.swap _ _ _)).parsefree
  | loop2 cur =>
    unfold Acpi.parsemain at hs
    simp only at hs
    split at hs
    case h_1 hbuf =>
      cases hs
      exact h.err
    case h_2 a hbuf =>
      obtain ⟨curbuf, hread, hs⟩ := Option.bind_eq_some_iff.mp hs
      have hbufs := h.bufs
      change Counted (cur.bufhead :: _) _ at hbufs
      rw [hbuf] at hbufs
      refine Exact.perform ?_ hs
      exact ⟨h.paths, hbufs.pop hread, h.limits⟩
  | returned r => cases hs
  | freed => cases hs

omit [DecidableEq E] in
theorem Exact.parserStart (h : Exact [] d) :
    Exact (states (parserStart rules d)) (parserStart rules d).2 where
  paths := h.paths.add_none
  bufs := h.bufs.add_none.cons rules.amlCode
  limits := h.limits.add_none

omit [DecidableEq E] in
theorem Exact.parserEnd {r : Option (ParseDataList E D)} (h : Exact r.toList d) :
    Exact [] (parserEnd r d).2 := by
  cases r with
  | none => exact h
  | some q => exact h.parsefree

/-- The pointers of the live states are to nodes that are there, so that an action fails only for
an element of no rule and for a list that is empty. -/
theorem perform_eq_none {named : D} {action : Action E D} (h : Exact (cur :: rest) d)
    (hs : perform rules named cur d action = none) :
    action = .error ∨ (cur.limithead = none ∧ (action = .pkgIgnore ∨ action = .pkgEnd)) ∨
      (cur.pathhead = none ∧ action = .pathOk) := by
  have hpop : poppkgend cur d = none → cur.limithead = none := by
    intro hnone
    cases hlimit : cur.limithead with
    | none => rfl
    | some a =>
      have hlimits := h.limits
      rw [List.map_cons, hlimit] at hlimits
      obtain ⟨c, hc⟩ := hlimits.exists_read
      unfold poppkgend at hnone
      rw [hlimit, Option.bind_some, hc] at hnone
      cases hnone
  cases action with
  | addbuf alternatives => cases hs
  | loop2 => cases hs
  | ok data => cases hs
  | err => cases hs
  | pkgLengthPush pkgend => cases hs
  | pkgIgnore => exact .inr (.inl ⟨hpop (Option.map_eq_none_iff.mp hs), .inl rfl⟩)
  | pkgEnd => exact .inr (.inl ⟨hpop (Option.map_eq_none_iff.mp hs), .inr rfl⟩)
  | pathOk =>
    refine .inr (.inr ⟨?_, rfl⟩)
    cases hpath : cur.pathhead with
    | none => rfl
    | some a =>
      have hpaths := h.paths
      rw [List.map_cons, hpath] at hpaths
      obtain ⟨c, hc⟩ := hpaths.exists_read
      unfold perform at hs
      rw [hpath, Option.bind_some, hc] at hs
      cases hs
  | error => exact .inl rfl

end Counts

/-! ### Runs -/

section Runs

variable {rules : Rules E D} {stop : Nat} {s s' : Phase E D × ParseData E D}

/-- `parsemain` returns when the lists of `d` are empty. -/
def Emptied (s : Phase E D × ParseData E D) : Prop :=
  match s.1 with
  | .loop _ | .loop2 _ => True
  | .returned _ | .freed => s.2.head = [] ∧ s.2.ok = []

omit [DecidableEq E] in
theorem getbuf_emptied {d : ParseData E D} (h : (getbuf d).1 = none) :
    (getbuf d).2.head = [] ∧ (getbuf d).2.ok = [] := by
  have hperm := (getbuf_perm d).length_eq
  unfold getbuf at h hperm ⊢
  cases hhead : d.head with
  | nil =>
    cases hok : d.ok with
    | nil => simp
    | cons q ok => simp [hhead, hok] at h
  | cons q head => simp [hhead] at h

theorem emptied_perform {named : D} {cur : ParseDataList E D} {d : ParseData E D}
    {action : Action E D} (hs : perform rules named cur d action = some s) : Emptied s := by
  cases action with
  | addbuf alternatives => cases hs; trivial
  | loop2 => cases hs; trivial
  | ok data =>
    cases hs
    unfold goOk
    split
    · trivial
    · split <;> trivial
  | err => cases hs; trivial
  | pkgLengthPush pkgend => cases hs; trivial
  | pkgIgnore =>
    obtain ⟨r, hr, rfl⟩ := Option.map_eq_some_iff.mp hs
    trivial
  | pkgEnd =>
    obtain ⟨⟨tmpc, cur', d'⟩, hr, rfl⟩ := Option.map_eq_some_iff.mp hs
    simp only
    split <;> trivial
  | pathOk =>
    obtain ⟨a, ha, hs⟩ := Option.bind_eq_some_iff.mp hs
    obtain ⟨c, hc, rfl⟩ := Option.map_eq_some_iff.mp hs
    trivial
  | error => cases hs

theorem emptied_parsemain {byte : BitVec 8} {named : D}
    (hs : parsemain rules stop byte named s = some s') : Emptied s' := by
  obtain ⟨phase, d⟩ := s
  cases phase with
  | loop r =>
    cases r with
    | none =>
      unfold parsemain at hs
      simp only at hs
      split at hs
      case h_1 d' heq =>
        cases hs
        have hempty := getbuf_emptied (congrArg Prod.fst heq)
        rw [heq] at hempty
        exact hempty
      case h_2 cur d' heq =>
        cases hs
        by_cases hstop : d'.c = stop
        · rw [if_pos hstop]
          trivial
        · rw [if_neg hstop]
          trivial
    | some r =>
      unfold parsemain at hs
      simp only at hs
      split at hs
      case h_1 d' heq =>
        cases hs
        have hempty := getbuf_emptied (congrArg Prod.fst heq)
        rw [heq] at hempty
        exact hempty
      case h_2 cur d' heq =>
        cases hs
        trivial
  | loop2 cur =>
    unfold parsemain at hs
    simp only at hs
    split at hs
    case h_1 => cases hs; trivial
    case h_2 =>
      obtain ⟨curbuf, hread, hs⟩ := Option.bind_eq_some_iff.mp hs
      exact emptied_perform hs
  | returned r => cases hs
  | freed => cases hs

/-- The invariant of the parser. -/
theorem Reachable.exact (h : Reachable rules stop s) : Exact (states s) s.2 ∧ Emptied s := by
  induction h with
  | start =>
    have hnone : Exact [] (⟨[], [], 0, [], [], []⟩ : ParseData E D) :=
      ⟨Counted.nil, Counted.nil, Counted.nil⟩
    exact ⟨hnone.parserStart, trivial⟩
  | step h hs ih => exact ⟨ih.1.parsemain hs, emptied_parsemain hs⟩
  | @finish r d h ih =>
    obtain ⟨hex, hhead, hok⟩ := ih
    simp only at hhead hok
    unfold states at hex
    simp only [hhead, hok, List.append_nil] at hex
    have hend := hex.parserEnd
    cases r with
    | none =>
      refine ⟨?_, hhead, hok⟩
      unfold states
      simp only [parserEnd, hhead, hok]
      exact hend
    | some q =>
      refine ⟨?_, hhead, hok⟩
      unfold states
      simp only [parserEnd, parsefree, hhead, hok]
      exact ⟨hend.paths, hend.bufs, hend.limits⟩
  | @again d h ih =>
    obtain ⟨hex, hhead, hok⟩ := ih
    simp only at hhead hok
    unfold states at hex
    simp only [hhead, hok, List.append_nil] at hex
    exact ⟨Exact.parserStart hex, trivial⟩

/-- For each table, at each point of the parse: the count of a path, buffer or limit node is the
number of live states and nodes that refer to it, and a node is allocated if and only if this number
is not zero. When the parser returns there is no node. -/
theorem nodes_counted (h : Reachable rules stop s) :
    Exact (states s) s.2 ∧
      (s.1 = .freed → ∀ a, read s.2.paths a = none ∧ read s.2.bufs a = none ∧
        read s.2.limits a = none) := by
  obtain ⟨hex, hempty⟩ := h.exact
  refine ⟨hex, fun hfreed a => ?_⟩
  obtain ⟨phase, d⟩ := s
  cases hfreed
  obtain ⟨hhead, hok⟩ := hempty
  simp only at hhead hok
  have hnone : Exact [] d := by
    unfold states at hex
    simp only [hhead, hok, List.append_nil] at hex
    exact hex
  exact ⟨hnone.paths.read_eq_none a, hnone.bufs.read_eq_none a, hnone.limits.read_eq_none a⟩

/-- The steps of `parsemain` with these bytes and these data. -/
def parsemainSteps (rules : Rules E D) (stop : Nat) :
    List (BitVec 8 × D) → Phase E D × ParseData E D → Option (Phase E D × ParseData E D)
  | [], s => some s
  | (byte, named) :: rest, s =>
    (parsemain rules stop byte named s).bind (parsemainSteps rules stop rest)

theorem Reachable.steps {l : List (BitVec 8 × D)} (h : Reachable rules stop s)
    (hs : parsemainSteps rules stop l s = some s') : Reachable rules stop s' := by
  induction l generalizing s with
  | nil =>
    cases hs
    exact h
  | cons read rest ih =>
    obtain ⟨s₁, hstep, hs⟩ := Option.bind_eq_some_iff.mp hs
    exact ih (h.step hstep) hs

/-- A grammar of one or more bytes: 0 is `OK`, 1 is `AML_AMLCode` and 2 is `AML_ByteData`. -/
def byteRules : Rules (Fin 3) Unit where
  okElement := 0
  amlCode := 1
  init := ()
  action := fun element _ _ _ =>
    match element with
    | 0 => .pathOk
    | 1 => .addbuf [[2], [2, 1]]
    | 2 => .ok ()
  supersedes := fun _ _ => false

/-- The result for a table of two bytes, with its path behind it and its lists freed. -/
theorem nodes_counted_twoBytes :
    ∃ r d, parsemainSteps byteRules 2 (List.replicate 18 (0, ()))
        (parserStart byteRules ⟨[], [], 0, [], [], []⟩) = some (.returned (some r), d) ∧
      ∀ a, read (parserEnd (some r) d).2.paths a = none ∧
        read (parserEnd (some r) d).2.bufs a = none ∧
        read (parserEnd (some r) d).2.limits a = none := by
  refine ⟨_, _, rfl, ?_⟩
  exact (nodes_counted (Reachable.finish (Reachable.start.steps
    (rfl : parsemainSteps byteRules 2 (List.replicate 18 (0, ())) _ = some _)))).2 rfl

end Runs

end OnDemandVirt.Acpi
