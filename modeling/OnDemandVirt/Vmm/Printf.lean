import OnDemandVirt.Vmm.Strtol
import Mathlib.Data.Nat.Digits.Lemmas

/-!
# Formatted output

`printf.c`: the format is parsed, numbers are converted by tables of the powers of the base, and
each character goes to a function that may refuse it. Arithmetic on `int` that overflows is
undefined and gives `none`, and so does an argument that is not of the type that is fetched.
-/

namespace OnDemandVirt.Vmm.Printf

def ascii (c : Char) : BitVec 8 := BitVec.ofNat 8 c.toNat

/-- The bits of `f`, but for `END_STRING`. -/
structure Format where
  alternateForm : Bool := false
  zeroPadded : Bool := false
  leftAdjusted : Bool := false
  positiveBlank : Bool := false
  positiveSign : Bool := false
  hasWidth : Bool := false
  hasPrecision : Bool := false
  lengthShort : Bool := false
  lengthChar : Bool := false
  lengthLong : Bool := false
  lengthLonglong : Bool := false
  lengthIntmax : Bool := false
  lengthSize : Bool := false
  lengthPtrdiff : Bool := false
  conversionInt : Bool := false
  conversionDecimal : Bool := false
  conversionUint : Bool := false
  conversionOctal : Bool := false
  conversionCapital : Bool := false
  conversionHexadecimal : Bool := false
  conversionCharacter : Bool := false
  conversionCharp : Bool := false
  conversionVoidp : Bool := false
  conversionNone : Bool := false
  flagMinus : Bool := false
  flagPlus : Bool := false

/-! ### The format -/

/-- What `parse_format` returns, with `*width`, `*precision` and `*format`. -/
inductive Parsed
  | endString
  | overflow
  | done (f : Format) (width precision : Nat) (format : CString)

/-- The loop that reads the flags: `r`, and `*format` with the character that is no flag. -/
def parseFlags (f : Format) : CString → Format × CString
  | [] => (f, [])
  | c :: format =>
    if c = ascii '#' then parseFlags { f with alternateForm := true } format
    else if c = ascii '0' then parseFlags { f with zeroPadded := true } format
    else if c = ascii '-' then parseFlags { f with leftAdjusted := true } format
    else if c = ascii ' ' then parseFlags { f with positiveBlank := true } format
    else if c = ascii '+' then parseFlags { f with positiveSign := true } format
    else (f, c :: format)

def isDigit (c : BitVec 8) : Bool := ascii '0' ≤ c && c ≤ ascii '9'

/-- The largest `int`. -/
def intMax : Nat := 0x7FFFFFFF

/-- `*width *= 10; *width += (c - '0')`. -/
def addDigit (n : Nat) (c : BitVec 8) : Option Nat :=
  let n := n * 10 + (c.toNat - (ascii '0').toNat)
  if n ≤ intMax then some n else none

/-- The loops that read the width and the precision: the number, and `*format` with the character
that is no digit. -/
def parseNumber (n : Nat) : CString → Option (Nat × CString)
  | [] => some (n, [])
  | c :: format =>
    if isDigit c then (addDigit n c).bind fun n => parseNumber n format
    else some (n, c :: format)

/-- The loop that reads the length modifiers, in the same way. -/
def parseLength (f : Format) : CString → Format × CString
  | [] => (f, [])
  | c :: format =>
    if c = ascii 'h' then
      parseLength (if f.lengthShort then { f with lengthChar := true }
        else { f with lengthShort := true }) format
    else if c = ascii 'l' then
      parseLength (if f.lengthLong then { f with lengthLonglong := true }
        else { f with lengthLong := true }) format
    else if c = ascii 'j' then parseLength { f with lengthIntmax := true } format
    else if c = ascii 'z' then parseLength { f with lengthSize := true } format
    else if c = ascii 't' then parseLength { f with lengthPtrdiff := true } format
    else (f, c :: format)

/-- From `parse_conversion` on. -/
def parseConversion (f : Format) (c : BitVec 8) : Format :=
  if c = ascii 'd' ∨ c = ascii 'i' then { f with conversionInt := true, conversionDecimal := true }
  else if c = ascii 'o' then { f with conversionUint := true, conversionOctal := true }
  else if c = ascii 'u' then { f with conversionUint := true, conversionDecimal := true }
  else if c = ascii 'X' then
    { f with conversionCapital := true, conversionUint := true, conversionHexadecimal := true }
  else if c = ascii 'x' then { f with conversionUint := true, conversionHexadecimal := true }
  else if c = ascii 'c' then { f with conversionInt := true, conversionCharacter := true }
  else if c = ascii 's' then { f with conversionCharp := true }
  else if c = ascii 'p' then
    { f with conversionVoidp := true, conversionHexadecimal := true, alternateForm := true }
  else if c = ascii '%' then { f with conversionNone := true }
  else f

/-- From `parse_length_modifier` on. -/
def parseRest (f : Format) (width precision : Nat) (format : CString) : Parsed :=
  match parseLength f format with
  | (_, []) => .endString
  | (f, c :: format) => .done (parseConversion f c) width precision format

/-- `parse_format`. The end of the string ends every loop, and is what the later ones find. -/
def parseFormat (format : CString) : Parsed :=
  let (f, format) := parseFlags {} format
  match parseNumber 0 format with
  | none => .overflow
  | some (width, rest) =>
    let f := { f with hasWidth := isDigit format.char }
    if rest.char = ascii '.' then
      match parseNumber 0 rest.tail with
      | none => .overflow
      | some (precision, format) => parseRest { f with hasPrecision := true } width precision format
    else parseRest f width 0 rest

theorem parseFlags_length (f : Format) (format : CString) :
    (parseFlags f format).2.length ≤ format.length := by
  induction format generalizing f with
  | nil => exact Nat.le_refl _
  | cons c format ih =>
    rw [parseFlags]
    split_ifs
    iterate 5
      · exact Nat.le_succ_of_le (ih _)
    · exact Nat.le_refl _

theorem parseNumber_length {n m : Nat} {format rest : CString}
    (h : parseNumber n format = some (m, rest)) : rest.length ≤ format.length := by
  induction format generalizing n with
  | nil =>
    cases h
    exact Nat.le_refl _
  | cons c format ih =>
    rw [parseNumber] at h
    split_ifs at h
    · obtain ⟨k, -, hk⟩ := Option.bind_eq_some_iff.mp h
      exact Nat.le_succ_of_le (ih hk)
    · cases h
      exact Nat.le_refl _

theorem parseLength_length (f : Format) (format : CString) :
    (parseLength f format).2.length ≤ format.length := by
  induction format generalizing f with
  | nil => exact Nat.le_refl _
  | cons c format ih =>
    rw [parseLength]
    split_ifs
    iterate 7
      · exact Nat.le_succ_of_le (ih _)
    · exact Nat.le_refl _

theorem parseRest_length {f f' : Format} {width precision width' precision' : Nat}
    {format rest : CString} (h : parseRest f width precision format =
      .done f' width' precision' rest) : rest.length < format.length := by
  have hle := parseLength_length f format
  unfold parseRest at h
  cases hparse : parseLength f format with
  | mk f format' =>
    rw [hparse] at h hle
    cases format' with
    | nil => cases h
    | cons c format' =>
      cases h
      exact hle

/-- Something is read after a `%`. -/
theorem parseFormat_length {f : Format} {width precision : Nat} {format rest : CString}
    (h : parseFormat format = .done f width precision rest) : rest.length < format.length := by
  have hle := parseFlags_length {} format
  unfold parseFormat at h
  dsimp only at h
  cases hwidth : parseNumber 0 (parseFlags {} format).2 with
  | none =>
    rw [hwidth] at h
    cases h
  | some number =>
    have hle' := parseNumber_length hwidth
    rw [hwidth] at h
    dsimp only at h
    split_ifs at h
    · cases hprecision : parseNumber 0 number.2.tail with
      | none =>
        rw [hprecision] at h
        cases h
      | some number' =>
        have hle'' := parseNumber_length hprecision
        rw [hprecision] at h
        have hlt := parseRest_length h
        rw [List.length_tail] at hle''
        omega
    · have hlt := parseRest_length h
      omega

/-! ### Conversions -/

/-- A table of the powers of the base below `base ^ n`, with the zero at its end. -/
def powers (base : Nat) : (n : Nat) → List Nat
  | 0 => [0]
  | n + 1 => base ^ n :: powers base n

def sub10 : List Nat := powers 10 20
def sub8 : List Nat := powers 8 22
def sub16 : List Nat := powers 16 16

/-- `while (val >= *sub)`, with `digit` and what is left of `val`. -/
def subtract (sub : Nat) (digit val : Nat) : Nat × Nat :=
  if h : 0 < sub ∧ sub ≤ val then subtract sub (digit + 1) (val - sub) else (digit, val)
termination_by val
decreasing_by omega

/-- `while (*sub)`. -/
def valconvLoop (str : CString) : (sub : List Nat) → (val : Nat) → CString
  | [], _ => []
  | sub :: rest, val =>
    if sub = 0 then []
    else
      let (digit, val) := subtract sub 0 val
      str.getD digit 0 :: valconvLoop str rest val

/-- `valconv`: what it writes to `buf`. -/
def valconv (val : Nat) (sub : List Nat) (str : CString) : CString :=
  if val = 0 then [ascii '0'] else valconvLoop str (sub.dropWhile fun sub => val < sub) val

def digits : CString :=
  ['0', '1', '2', '3', '4', '5', '6', '7', '8', '9', 'a', 'b', 'c', 'd', 'e', 'f'].map ascii

def capitalDigits : CString :=
  ['0', '1', '2', '3', '4', '5', '6', '7', '8', '9', 'A', 'B', 'C', 'D', 'E', 'F'].map ascii

/-- `buf` in `do_conversion_int`. -/
def convertVal (val : Nat) (f : Format) : CString :=
  if f.conversionDecimal then valconv val sub10 (digits.take 10)
  else if f.conversionOctal then valconv val sub8 (digits.take 8)
  else if f.conversionHexadecimal && f.conversionCapital then valconv val sub16 capitalDigits
  else if f.conversionHexadecimal then valconv val sub16 digits
  else []

/-- `leftzero` in `do_conversion_int`, for the precision. -/
def leftZero (f : Format) (precision len : Nat) : Nat :=
  if f.hasPrecision && precision > len then precision - len else 0

/-- `leftbuf` in `do_conversion_int`. -/
def leftBuf (val : Nat) (f : Format) (leftzero : Nat) : CString :=
  if f.conversionDecimal then
    if f.flagPlus then
      if f.positiveSign then [ascii '+'] else if f.positiveBlank then [ascii ' '] else []
    else if f.flagMinus then [ascii '-'] else []
  else if f.alternateForm && val ≠ 0 then
    if f.conversionOctal && leftzero = 0 then [ascii '0']
    else if f.conversionHexadecimal then
      [ascii '0', if f.conversionCapital then ascii 'X' else ascii 'x']
    else []
  else []

/-- `do_conversion_int`: the characters that it puts. -/
def conversionInt (val : BitVec 64) (f : Format) (width precision : Nat) : Option CString :=
  if f.conversionCharacter then some [val.setWidth 8]
  else if f.hasPrecision && precision = 0 && val = 0 then some []
  else
    let buf := convertVal val.toNat f
    let leftzero := leftZero f precision buf.length
    let leftbuf := leftBuf val.toNat f leftzero
    let len := leftbuf.length + leftzero + buf.length
    if f.hasWidth && intMax < len then none
    else
      let sp := if f.hasWidth && width > len then width - len else 0
      let leftsp := if f.leftAdjusted then 0 else sp
      let rightsp := if f.leftAdjusted then sp else 0
      let zero := f.zeroPadded && !f.hasPrecision
      let leftzero := if zero then leftzero + leftsp else leftzero
      let leftsp := if zero then 0 else leftsp
      some (List.replicate leftsp (ascii ' ') ++ leftbuf ++ List.replicate leftzero (ascii '0') ++
        buf ++ List.replicate rightsp (ascii ' '))

/-- `len` in `do_conversion_string`. -/
def stringLen (f : Format) (precision : Nat) : (len : Nat) → CString → Nat
  | len, [] => len
  | len, c :: str =>
    if f.hasPrecision && precision ≤ len || c = 0 then len
    else stringLen f precision (len + 1) str

/-- `do_conversion_string`: the characters that it puts. -/
def conversionString (str : CString) (f : Format) (width precision : Nat) : CString :=
  let len := stringLen f precision 0 str
  let sp := if f.hasWidth && width > len then width - len else 0
  let leftsp := if f.leftAdjusted then 0 else sp
  let rightsp := if f.leftAdjusted then sp else 0
  List.replicate leftsp (ascii ' ') ++ str.take len ++ List.replicate rightsp (ascii ' ')

/-! ### Arguments -/

/-- What was passed: the types of the same size are not told apart, nor are signed and unsigned
ones. -/
inductive Arg
  | int (v : BitVec 32)
  | long (v : BitVec 64)
  | charp (s : Option CString)
  | voidp (v : BitVec 64)

/-- `va_arg (ap, int)`. -/
def vaInt : List Arg → Option (BitVec 32 × List Arg)
  | .int v :: ap => some (v, ap)
  | _ => none

/-- `va_arg (ap, long)`. -/
def vaLong : List Arg → Option (BitVec 64 × List Arg)
  | .long v :: ap => some (v, ap)
  | _ => none

/-- `va_arg (ap, char *)`. -/
def vaCharp : List Arg → Option (Option CString × List Arg)
  | .charp s :: ap => some (s, ap)
  | _ => none

/-- `va_arg (ap, void *)`. -/
def vaVoidp : List Arg → Option (BitVec 64 × List Arg)
  | .voidp v :: ap => some (v, ap)
  | _ => none

/-- `f` after the length modifiers of types that have another name. -/
def sameLength (f : Format) : Format :=
  if f.lengthIntmax then { f with lengthLonglong := true }
  else if f.lengthSize then { f with lengthLong := true }
  else if f.lengthPtrdiff then { f with lengthLong := true }
  else f

/-- The argument of an integer conversion; `extend` is the conversion to `long long`. -/
def fetchInt (f : Format) (extend : BitVec 32 → BitVec 64) (ap : List Arg) :
    Option (BitVec 64 × List Arg) :=
  if f.lengthChar then (vaInt ap).map fun (v, ap) => (extend v, ap)
  else if f.lengthShort then (vaInt ap).map fun (v, ap) => (extend v, ap)
  else if f.lengthLonglong then vaLong ap
  else if f.lengthLong then vaLong ap
  else (vaInt ap).map fun (v, ap) => (extend v, ap)

/-- A conversion of `do_printf`: the characters that it puts, and the arguments that are left. -/
def convert (f : Format) (width precision : Nat) (ap : List Arg) : Option (CString × List Arg) :=
  if f.conversionInt then
    (fetchInt f (·.signExtend 64) ap).bind fun (intval, ap) =>
      (if intval.slt 0 then conversionInt (-intval) { f with flagMinus := true } width precision
      else conversionInt intval { f with flagPlus := true } width precision).map fun out =>
        (out, ap)
  else if f.conversionUint then
    (fetchInt f (·.setWidth 64) ap).bind fun (uintval, ap) =>
      (conversionInt uintval f width precision).map fun out => (out, ap)
  else if f.conversionVoidp then
    (vaVoidp ap).bind fun (uintval, ap) =>
      (conversionInt uintval f width precision).map fun out => (out, ap)
  else if f.conversionCharp then
    (vaCharp ap).map fun (charpval, ap) =>
      (conversionString (charpval.getD (['(', 'n', 'u', 'l', 'l', ')'].map ascii)) f width
        precision, ap)
  else
    some (conversionString (['F', 'O', 'R', 'M', 'A', 'T', ' ', 'E', 'R', 'R', 'O', 'R'].map ascii)
      { conversionCharp := true } 0 0, ap)

/-! ### Output -/

section

variable {σ : Type} (func : BitVec 8 → σ → Option σ)

/-- Characters of a conversion, until one is refused: how many were not. -/
def putchars : CString → σ → Nat × σ
  | [], data => (0, data)
  | c :: cs, data =>
    match func c data with
    | none => (0, data)
    | some data =>
      let (n, data) := putchars cs data
      (n + 1, data)

/-- `do_printf`: what it returns, and `data`. -/
def doPrintf : (format : CString) → List Arg → σ → Option (Nat × σ)
  | [], _, data => some (0, data)
  | c :: format, ap, data =>
    if c = ascii '%' then
      match hparsed : parseFormat format with
      | .endString => some (0, data)
      | .overflow => none
      | .done f width precision rest =>
        if f.conversionNone then
          match func (ascii '%') data with
          | none => some (0, data)
          | some data => (doPrintf rest ap data).map fun (n, data) => (n + 1, data)
        else
          match convert (sameLength f) width precision ap with
          | none => none
          | some (out, ap) =>
            let (put, data) := putchars func out data
            (doPrintf rest ap data).map fun (n, data) => (put + n, data)
    else
      match func c data with
      | none => some (0, data)
      | some data => (doPrintf format ap data).map fun (n, data) => (n + 1, data)
termination_by format => format.length
decreasing_by
  · exact Nat.lt_succ_of_lt (parseFormat_length hparsed)
  · exact Nat.lt_succ_of_lt (parseFormat_length hparsed)
  · exact Nat.lt_succ_self _

end

/-- `struct snputchar_data`, with the memory. -/
structure SnputcharData where
  mem : Nat → BitVec 8
  buf : Nat
  len : Nat

/-- `do_snputchar`. -/
def doSnputchar (c : BitVec 8) (p : SnputcharData) : Option SnputcharData :=
  if p.len = 0 then none
  else
    let len := p.len - 1
    let c := if len = 0 then 0 else c
    some { mem := Function.update p.mem p.buf c, buf := p.buf + 1, len := len }

/-- `vsnprintf`: what it returns, and the memory. -/
def vsnprintf (mem : Nat → BitVec 8) (str size : Nat) (format : CString) (ap : List Arg) :
    Option (Nat × (Nat → BitVec 8)) :=
  (doPrintf doSnputchar format ap ⟨mem, str, size⟩).map fun (r, data) =>
    (r, ((doSnputchar 0 data).getD data).mem)

end OnDemandVirt.Vmm.Printf
