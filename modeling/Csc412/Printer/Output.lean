import Csc412.Lib.Stores
import Csc412.Printer.Format

/-!
# Where formatted output goes

The `putc` callbacks of `lib.c` with `vsnprintf` and `console_vprintf` over them, and
`app_printf` and `panic` of `process.c`. A printer's output is the list of its stores. The
format and the arguments' strings are not in the memory it writes.
-/

namespace Csc412.Printer

open Lib Lib.CString

/-! ## Strings -/

structure StringPrinter where
  s : Nat
  limit : Nat
  deriving DecidableEq, Repr

def stringPutc (sp : StringPrinter) (call : Call) : Stores UInt8 × StringPrinter :=
  if sp.s < sp.limit then ([(sp.s, call.c)], { sp with s := sp.s + 1 }) else ([], sp)

def stringPuts : StringPrinter → List Call → Stores UInt8 × StringPrinter
  | sp, [] => ([], sp)
  | sp, call :: calls =>
    let (stores, sp) := stringPutc sp call
    let (rest, sp) := stringPuts sp calls
    (stores ++ rest, sp)

/-- The stores of `vsnprintf` and what it returns. -/
def vsnprintf (s size : Nat) (format : Bytes) (args : Args) : Except Fault (Stores UInt8 × Int) :=
  if size ≠ 0 then do
    let calls ← printerVprintf 0 format args
    let (stores, sp) := stringPuts ⟨s, s + size - 1⟩ calls
    .ok (stores ++ [(sp.s, 0)], int32 (sp.s - s))
  else .ok ([], 0)

/-! ## The console -/

def consoleRows : Nat := 25

def consoleColumns : Nat := 80

def consoleSize : Nat := consoleRows * consoleColumns

/-- A cell: a character with its colour. -/
def cell (c : UInt8) (color : BitVec 32) : BitVec 16 :=
  (BitVec.ofNat 32 c.toNat ||| color).setWidth 16

/-- The loop from column `pos` to column 80, with `n` columns left. -/
def newlineLoop (color : BitVec 32) : Nat → Nat → Stores (BitVec 16) × Nat
  | 0, cursor => ([], cursor)
  | n + 1, cursor =>
    let (stores, next) := newlineLoop color n (cursor + 1)
    ((cursor, cell (ch ' ') color) :: stores, next)

/-- `console_putc` from a cursor, the index of a cell. -/
def consolePutc (cursor : Nat) (call : Call) : Stores (BitVec 16) × Nat :=
  let cursor := if consoleSize ≤ cursor then 0 else cursor
  if call.c = newline then newlineLoop call.color (80 - cursor % 80) cursor
  else ([(cursor, cell call.c call.color)], cursor + 1)

/-- One call of `console_putc`: the cursors before and after it, and its stores. -/
structure Put where
  call : Call
  cursor : Nat
  stores : Stores (BitVec 16)
  next : Nat
  deriving DecidableEq, Repr

def consolePuts : Nat → List Call → List Put × Nat
  | cursor, [] => ([], cursor)
  | cursor, call :: calls =>
    let (stores, next) := consolePutc cursor call
    let (puts, last) := consolePuts next calls
    (⟨call, cursor, stores, next⟩ :: puts, last)

def consoleVprintf (cpos : Int) (color : BitVec 32) (format : Bytes) (args : Args) :
    Except Fault (List Put × Int) := do
  let cpos := if cpos < 0 ∨ (consoleSize : Int) ≤ cpos then 0 else cpos
  let calls ← printerVprintf color format args
  let (puts, cursor) := consolePuts cpos.toNat calls
  .ok (puts, cursor)

/-! ## Processes -/

def col : List (BitVec 32) := [0x0E, 0x0F, 0x0C, 0x0A, 0x09]

/-- `app_printf` with the shared `cursorpos` before and after it. -/
def appPrintf (cursorpos colorid : Int) (format : Bytes) (args : Args) :
    Except Fault (List Put × Int) := do
  let color := if colorid < 0 then 0x0700#32 else col.getD (colorid.toNat % col.length) 0 <<< 8
  let (puts, cursorpos) ← consoleVprintf cursorpos color format args
  .ok (puts, if 23 ≤ cursorpos.tdiv 80 then 0 else cursorpos)

def panicSize : Nat := 160

def strcpy (dst : Nat) (src : Bytes) : Stores UInt8 := Stores.block dst (src ++ [0])

/-- `panic` up to its system call, with a buffer at `buf`: the stores into the stack, and
what is printed on the console. -/
def panic (m : Nat → UInt8) (buf : Nat) (format : Bytes) (args : Args) :
    Except Fault (Stores UInt8 × List Put) := do
  let head := Stores.block buf (['P', 'A', 'N', 'I', 'C', ':', ' '].map ch)
  let (text, n) ← vsnprintf (buf + 7) (panicSize - 7) format args
  let len := n + 7
  let body := head ++ text
  let stores :=
    if 0 < len ∧ body.apply m (buf + len.toNat - 1) ≠ newline then
      body ++ strcpy (buf + len.toNat - (if len = panicSize - 1 then 1 else 0)) [newline]
    else body
  let message := (List.range panicSize).map fun i => stores.apply m (buf + i)
  let (puts, _) ← consoleVprintf (23 * 80) 0xC000 (['%', 's'].map ch) fun _ =>
    ⟨BitVec.ofNat 64 buf, message⟩
  .ok (stores, puts)

end Csc412.Printer
