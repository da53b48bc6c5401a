import OnDemandVirt.Vmm.Printf

/-!
# What formatted output should be

The format grammar at the top of `printf.c`, and the characters that ISO C prescribes for a format
and its arguments; `none` stands for what it leaves undefined.
-/

namespace OnDemandVirt.Vmm.Printf

/-! ### The grammar -/

inductive Flag
  | alternateForm
  | zeroPadded
  | leftAdjusted
  | positiveBlank
  | positiveSign
deriving DecidableEq

def Flag.char : Flag → BitVec 8
  | .alternateForm => ascii '#'
  | .zeroPadded => ascii '0'
  | .leftAdjusted => ascii '-'
  | .positiveBlank => ascii ' '
  | .positiveSign => ascii '+'

inductive Length
  | short
  | char
  | long
  | longlong
  | intmax
  | size
  | ptrdiff
deriving DecidableEq

def Length.text : Length → CString
  | .short => [ascii 'h']
  | .char => [ascii 'h', ascii 'h']
  | .long => [ascii 'l']
  | .longlong => [ascii 'l', ascii 'l']
  | .intmax => [ascii 'j']
  | .size => [ascii 'z']
  | .ptrdiff => [ascii 't']

inductive Conversion
  | d
  | i
  | o
  | u
  | X
  | x
  | c
  | s
  | p
  | percent
deriving DecidableEq

def Conversion.char : Conversion → BitVec 8
  | .d => ascii 'd'
  | .i => ascii 'i'
  | .o => ascii 'o'
  | .u => ascii 'u'
  | .X => ascii 'X'
  | .x => ascii 'x'
  | .c => ascii 'c'
  | .s => ascii 's'
  | .p => ascii 'p'
  | .percent => ascii '%'

/-- A decimal number, with the digits that come after `n`. -/
def numberFrom (n : Nat) (ds : List (Fin 10)) : Nat := ds.foldl (fun n d => n * 10 + d.val) n

def number (ds : List (Fin 10)) : Nat := numberFrom 0 ds

def digitText (d : Fin 10) : BitVec 8 := ascii '0' + BitVec.ofNat 8 d

/-- A conversion specification; a width does not begin with the flag `0`. -/
structure Directive where
  flags : List Flag
  width : List (Fin 10)
  precision : Option (List (Fin 10))
  length : Option Length
  conversion : Conversion
  width_head : width.head? ≠ some 0

namespace Directive

variable (d : Directive)

def precisionText : CString :=
  match d.precision with
  | none => []
  | some ds => ascii '.' :: ds.map digitText

def lengthText : CString :=
  match d.length with
  | none => []
  | some length => length.text

/-- What follows the `%`. -/
def text : CString :=
  d.flags.map Flag.char ++ (d.width.map digitText ++ (d.precisionText ++
    (d.lengthText ++ [d.conversion.char])))

def has (flag : Flag) : Bool := decide (flag ∈ d.flags)

end Directive

inductive Item
  | char (c : BitVec 8) (hc : c ≠ 0 ∧ c ≠ ascii '%')
  | directive (d : Directive)

def Item.text : Item → CString
  | .char c _ => [c]
  | .directive d => ascii '%' :: d.text

/-- A format. -/
def text (items : List Item) : CString := items.flatMap Item.text

/-! ### The characters -/

def digitChar (capital : Bool) (d : Nat) : BitVec 8 :=
  if d < 10 then ascii '0' + BitVec.ofNat 8 d
  else (if capital then ascii 'A' else ascii 'a') + BitVec.ofNat 8 (d - 10)

/-- The digits of a number, at least so many. -/
def isoDigits (base : Nat) (capital : Bool) (minimum value : Nat) : CString :=
  let ds := (Nat.digits base value).reverse.map (digitChar capital)
  List.replicate (minimum - ds.length) (ascii '0') ++ ds

/-- What is converted, padded to the width. -/
def layout (leftAdjusted zeroPadded : Bool) (width : Nat) (lead body : CString) : CString :=
  let pad := width - (lead.length + body.length)
  if leftAdjusted then lead ++ body ++ List.replicate pad (ascii ' ')
  else if zeroPadded then lead ++ List.replicate pad (ascii '0') ++ body
  else List.replicate pad (ascii ' ') ++ lead ++ body

/-- The width in bits of the type that the length modifier is for. -/
def bits : Option Length → Nat
  | none => 32
  | some .char => 8
  | some .short => 16
  | some _ => 64

/-- The value of an argument for a signed conversion. -/
def isoSigned (length : Option Length) : Arg → Option Int
  | .int v => if bits length ≤ 32 then some (v.setWidth (bits length)).toInt else none
  | .long v => if bits length = 64 then some v.toInt else none
  | _ => none

/-- The value of an argument for an unsigned conversion. -/
def isoUnsigned (length : Option Length) : Arg → Option Nat
  | .int v => if bits length ≤ 32 then some (v.setWidth (bits length)).toNat else none
  | .long v => if bits length = 64 then some v.toNat else none
  | _ => none

namespace Directive

variable (d : Directive)

/-- The least number of digits. -/
def minimum : Nat :=
  match d.precision with
  | none => 1
  | some ds => number ds

def sign (v : Int) : CString :=
  if v < 0 then [ascii '-']
  else if d.has .positiveSign then [ascii '+']
  else if d.has .positiveBlank then [ascii ' ']
  else []

/-- What the alternate form puts ahead of a hexadecimal number. -/
def radix (x : BitVec 8) (v : Nat) : CString :=
  if d.has .alternateForm ∧ v ≠ 0 then [ascii '0', x] else []

/-- An octal number; in the alternate form the first digit is a zero. -/
def octal (v : Nat) : CString :=
  let ds := isoDigits 8 false d.minimum v
  if d.has .alternateForm ∧ ds.head? ≠ some (ascii '0') then ascii '0' :: ds else ds

/-- No use of what is undefined for a conversion that is not of numbers. -/
def Plain : Prop := d.has .alternateForm = false ∧ d.has .zeroPadded = false ∧ d.length = none

instance : Decidable d.Plain := by unfold Plain; infer_instance

/-- What an argument is converted to: what the padding with zeros comes after, and the rest. The
characters for a pointer are those of the implementation. -/
def parts (a : Arg) : Option (CString × CString) :=
  match d.conversion with
  | .d | .i =>
    if d.has .alternateForm then none
    else (isoSigned d.length a).map fun v => (d.sign v, isoDigits 10 false d.minimum v.natAbs)
  | .u =>
    if d.has .alternateForm then none
    else (isoUnsigned d.length a).map fun v => ([], isoDigits 10 false d.minimum v)
  | .o => (isoUnsigned d.length a).map fun v => ([], d.octal v)
  | .x => (isoUnsigned d.length a).map fun v =>
    (d.radix (ascii 'x') v, isoDigits 16 false d.minimum v)
  | .X => (isoUnsigned d.length a).map fun v =>
    (d.radix (ascii 'X') v, isoDigits 16 true d.minimum v)
  | .c =>
    match a with
    | .int v => if d.Plain ∧ d.precision = none then some ([], [v.setWidth 8]) else none
    | _ => none
  | .s =>
    match a with
    | .charp (some s) =>
      let s := s.takeWhile (· ≠ 0)
      if d.Plain then some ([], match d.precision with
        | none => s
        | some ds => s.take (number ds)) else none
    | _ => none
  | .p =>
    match a with
    | .voidp v =>
      if d.Plain ∧ d.precision = none then
        some ([], (if v = 0 then [] else [ascii '0', ascii 'x']) ++ isoDigits 16 false 1 v.toNat)
      else none
    | _ => none
  | .percent => none

/-- A directive with the arguments from its own on: the characters, and the arguments that are
left. -/
def iso (ap : List Arg) : Option (CString × List Arg) :=
  if d.conversion = .percent then
    if d.text = [ascii '%'] then some ([ascii '%'], ap) else none
  else
    match ap with
    | [] => none
    | a :: ap => (d.parts a).map fun (lead, body) =>
      (layout (d.has .leftAdjusted) (d.has .zeroPadded && d.precision.isNone) (number d.width) lead
        body, ap)

end Directive

/-- The characters for a format. -/
def isoPrintf : List Item → List Arg → Option CString
  | [], _ => some []
  | .char c _ :: items, ap => (isoPrintf items ap).map (c :: ·)
  | .directive d :: items, ap =>
    (d.iso ap).bind fun (out, ap) => (isoPrintf items ap).map (out ++ ·)

end OnDemandVirt.Vmm.Printf
