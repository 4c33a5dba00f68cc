import Csc412.Lib.CString

/-!
# Formatted output

`printer_vprintf` and `fill_numbuf` of `lib.c`. What is printed is the list of the calls
of `putc`. The format is what is left of it before its terminating NUL, so reading at the
pointer is always in bounds and only stepping over the NUL is not: it is a fault, as is a
digit written before the start of `numbuf`. `int` arithmetic wraps around.
-/

namespace Csc412.Printer

open Lib.CString

def int32 (x : Int) : Int := (BitVec.ofInt 32 x).toInt

def ch (c : Char) : UInt8 := UInt8.ofNat c.toNat

inductive Fault where
  | format
  | numbuf
  | fuel
  deriving DecidableEq, Repr

/-- A call `putc(p, c, color)`. -/
structure Call where
  c : UInt8
  color : BitVec 32
  deriving DecidableEq, Repr

/-- An argument: its word, and the string it points to if it is a pointer to one. -/
structure Arg where
  word : BitVec 64
  str : Bytes

/-- The arguments; `args n` is what the `n`-th `va_arg` yields. -/
abbrev Args := Nat → Arg

def argInt (args : Args) (n : Nat) : Int := ((args n).word.setWidth 32).toInt

/-! ## Numbers -/

def upperDigits : Bytes :=
  ['0', '1', '2', '3', '4', '5', '6', '7', '8', '9', 'A', 'B', 'C', 'D', 'E', 'F'].map ch

def lowerDigits : Bytes :=
  ['0', '1', '2', '3', '4', '5', '6', '7', '8', '9', 'a', 'b', 'c', 'd', 'e', 'f'].map ch

def numbufSiz : Nat := 24

/-- The loop of `fill_numbuf` with room for `n` more bytes before the start of the
buffer. -/
def fillLoop (digits : Bytes) (base : Nat) : Nat → Nat → Bytes → Except Fault Bytes
  | 0, _, _ => .error .numbuf
  | n + 1, val, numbuf =>
    let numbuf := digits.getD (val % base) 0 :: numbuf
    if val / base ≠ 0 then fillLoop digits base n (val / base) numbuf else .ok numbuf

def fillNumbuf (val : BitVec 64) (base : Int) : Except Fault Bytes :=
  fillLoop (if base < 0 then lowerDigits else upperDigits) base.natAbs (numbufSiz - 1) val.toNat []

/-! ## Flags and fields -/

structure Flags where
  alt : Bool := false
  zero : Bool := false
  leftjustify : Bool := false
  spacepositive : Bool := false
  pluspositive : Bool := false
  numeric : Bool := false
  signed : Bool := false
  negative : Bool := false
  alt2 : Bool := false
  deriving DecidableEq, Repr

def flagChars : Bytes := ['#', '0', '-', ' ', '+'].map ch

/-- `flags |= 1 << k`. -/
def Flags.set (flags : Flags) : Nat → Flags
  | 0 => { flags with alt := true }
  | 1 => { flags with zero := true }
  | 2 => { flags with leftjustify := true }
  | 3 => { flags with spacepositive := true }
  | _ => { flags with pluspositive := true }

def scanFlags : Bytes → Flags → Flags × Bytes
  | [], flags => (flags, [])
  | c :: p, flags =>
    if c ∈ flagChars then scanFlags p (flags.set (flagChars.idxOf c)) else (flags, c :: p)

def scanDigits : Bytes → Int → Int × Bytes
  | [], field => (field, [])
  | c :: p, field =>
    if isdigit c then scanDigits p (int32 (10 * field + c.toNat - 48)) else (field, c :: p)

/-- The width, the number of arguments read and the format after it. -/
def scanWidth (args : Args) (n : Nat) : Bytes → Int × Nat × Bytes
  | [] => (-1, n, [])
  | c :: p =>
    if ch '1' ≤ c ∧ c ≤ ch '9' then ((scanDigits (c :: p) 0).1, n, (scanDigits (c :: p) 0).2)
    else if c = ch '*' then (argInt args n, n + 1, p)
    else (-1, n, c :: p)

/-- The precision after its dot. -/
def scanPoint (args : Args) (n : Nat) : Bytes → Int × Nat × Bytes
  | [] => (-1, n, [])
  | c :: p =>
    if isdigit c then ((scanDigits (c :: p) 0).1, n, (scanDigits (c :: p) 0).2)
    else if c = ch '*' then (argInt args n, n + 1, p)
    else (-1, n, c :: p)

def scanPrecision (args : Args) (n : Nat) : Bytes → Int × Nat × Bytes
  | [] => (-1, n, [])
  | c :: p =>
    if c = ch '.' then
      let (precision, n, p) := scanPoint args n p
      (if precision < 0 then 0 else precision, n, p)
    else (-1, n, c :: p)

def scanModifiers : Bytes → Bool → Bool × Bytes
  | [], length => (length, [])
  | c :: p, length => if c = ch 'l' ∨ c = ch 'z' then scanModifiers p true else (length, c :: p)

/-! ## Output -/

def prefixOf (flags : Flags) (base : Int) (num : BitVec 64) : Bytes :=
  if flags.numeric ∧ flags.signed then
    if flags.negative then [ch '-']
    else if flags.pluspositive then [ch '+']
    else if flags.spacepositive then [ch ' ']
    else []
  else if flags.numeric ∧ flags.alt ∧ (base = 16 ∨ base = -16) ∧ (num ≠ 0 ∨ flags.alt2) then
    if base = -16 then [ch '0', ch 'x'] else [ch '0', ch 'X']
  else []

def zerosOf (flags : Flags) (width precision len pre : Int) : Int :=
  if flags.numeric ∧ 0 ≤ precision then if len < precision then precision - len else 0
  else if flags.numeric ∧ flags.zero ∧ ¬ flags.leftjustify ∧ len + pre < width
    then int32 (width - len - pre)
  else 0

/-- The characters of a directive once its text is known. -/
def pad (flags : Flags) (width precision : Int) (pre data : Bytes) : Bytes :=
  let data := cstr data
  let len := int32 (if 0 ≤ precision ∧ ¬ flags.numeric then min data.length precision.toNat
    else data.length : Nat)
  let zeros := zerosOf flags width precision len pre.length
  let width := int32 (width - (len + zeros + pre.length))
  let left := if flags.leftjustify then 0 else width.toNat
  List.replicate left (ch ' ') ++ pre ++ List.replicate zeros.toNat (ch '0') ++
    data.take len.toNat ++
    List.replicate (width - left).toNat (ch ' ')

/-- What a directive leaves: its output, the format at its conversion character, whether
the pointer has been stepped back, the number of arguments read and the colour. -/
structure Step where
  out : List Call
  rest : Bytes
  back : Bool
  next : Nat
  color : BitVec 32
  deriving DecidableEq, Repr

section
variable (args : Args)

def putText (flags : Flags) (width precision : Int) (data : Bytes) (next : Nat) (color : BitVec 32)
    (p : Bytes) (back : Bool) : Step :=
  ⟨(pad flags width precision [] data).map (⟨·, color⟩), p, back, next, color⟩

def putNumber (flags : Flags) (width precision : Int) (base : Int) (num : BitVec 64) (next : Nat)
    (color : BitVec 32) (p : Bytes) : Except Fault Step := do
  let data ← fillNumbuf num base
  .ok ⟨(pad flags width precision (prefixOf flags base num) data).map (⟨·, color⟩), p, false,
    next, color⟩

def signedArg (length : Bool) (word : BitVec 64) : BitVec 64 :=
  if length then word else (word.setWidth 32).signExtend 64

def unsignedArg (length : Bool) (word : BitVec 64) : BitVec 64 :=
  if length then word else (word.setWidth 32).setWidth 64

/-- The switch over the conversion character. -/
def convert (flags : Flags) (width precision : Int) (length : Bool) (n : Nat) (color : BitVec 32) :
    Bytes → Except Fault Step
  | [] => .ok (putText flags width precision [ch '%'] n color [] true)
  | c :: p =>
    let word := (args n).word
    if c = ch 'd' ∨ c = ch 'i' then
      let x := signedArg length word
      let negative := decide (x.toInt < 0)
      putNumber { flags with numeric := true, signed := true, negative := negative } width
        precision 10
        (if negative then -x else x) (n + 1) color (c :: p)
    else if c = ch 'u' then
      putNumber { flags with numeric := true } width precision 10 (unsignedArg length word)
        (n + 1) color (c :: p)
    else if c = ch 'x' then
      putNumber { flags with numeric := true } width precision (-16) (unsignedArg length word)
        (n + 1) color (c :: p)
    else if c = ch 'X' then
      putNumber { flags with numeric := true } width precision 16 (unsignedArg length word)
        (n + 1) color (c :: p)
    else if c = ch 'p' then
      putNumber { flags with numeric := true, alt := true, alt2 := true } width precision (-16) word
        (n + 1) color (c :: p)
    else if c = ch 's' then
      .ok (putText flags width precision (args n).str (n + 1) color (c :: p) false)
    else if c = ch 'C' then .ok ⟨[], c :: p, false, n + 1, word.setWidth 32⟩
    else if c = ch 'c' then .ok (putText flags width precision [word.toNat.toUInt8] (n + 1) color
      (c :: p) false)
    else .ok (putText flags width precision [c] n color (c :: p) false)

/-- A directive after its percent sign. -/
def directive (n : Nat) (color : BitVec 32) (p : Bytes) : Except Fault Step :=
  let (flags, p) := scanFlags p {}
  let (width, n, p) := scanWidth args n p
  let (precision, n, p) := scanPrecision args n p
  let (length, p) := scanModifiers p false
  convert args flags width precision length n color p

def advance : Bytes → Except Fault Bytes
  | [] => .error .format
  | _ :: p => .ok p

/-- The loop of `printer_vprintf`, for at most `fuel` rounds. -/
def vprintfLoop : Nat → Nat → BitVec 32 → Bytes → Except Fault (List Call)
  | 0, _, _, _ => .error .fuel
  | _ + 1, _, _, [] => .ok []
  | fuel + 1, n, color, c :: p =>
    if c ≠ ch '%' then do
      let out ← vprintfLoop fuel n color p
      .ok (⟨c, color⟩ :: out)
    else do
      let step ← directive args n color p
      -- `format--` at the end of the string is undone by the loop's `++format`
      let p ← if step.back then .ok step.rest else advance step.rest
      let out ← vprintfLoop fuel step.next step.color p
      .ok (step.out ++ out)

end

def printerVprintf (color : BitVec 32) (format : Bytes) (args : Args) : Except Fault (List Call) :=
  vprintfLoop args (format.length + 1) 0 color format

end Csc412.Printer
