import Csc412.Lib.Strtok
import Mathlib.Algebra.Group.Nat.Defs
import Mathlib.Logic.Function.Basic

/-!
# The shell's command parser

`parse_command` of `412shell.c`. A `char *` is a position in the input buffer, which
`strtok` cuts up in place. An access to `args` outside the array, a read of an entry
that is still `NULL` and an index outside a string are faults.
-/

namespace Csc412.Shell

open Lib Lib.CString

def maxArgs : Nat := 64

def maxInput : Nat := 1024

def space : UInt8 := 32

def quote : UInt8 := 34

/-- `">"`. -/
def redirect : Bytes := [62]

inductive Fault where
  | store (i : Nat)
  | read (i : Nat)
  | index (p j : Nat)
  | fuel
  deriving DecidableEq, Repr

structure ParsedCommand where
  command : Option Nat
  args : Fin maxArgs → Option Nat
  numArgs : Nat
  outputFile : Option Nat

def ParsedCommand.null : ParsedCommand := ⟨none, fun _ => none, 0, none⟩

/-! ## Accesses -/

/-- `args[i]`, to be used as a string. -/
def ParsedCommand.arg (c : ParsedCommand) (i : Nat) : Except Fault Nat :=
  if h : i < maxArgs then
    match c.args ⟨i, h⟩ with
    | some p => .ok p
    | none => .error (.read i)
  else .error (.read i)

/-- `args[numArgs++] = token`; `numArgs` is an `unsigned short`. -/
def ParsedCommand.push (c : ParsedCommand) (token : Nat) : Except Fault ParsedCommand :=
  if h : c.numArgs < maxArgs then
    .ok { c with
      args := Function.update c.args ⟨c.numArgs, h⟩ (some token)
      numArgs := (c.numArgs + 1) % 2 ^ 16 }
  else .error (.store c.numArgs)

def strlen (buf : Bytes) (p : Nat) : Nat := (cstr (buf.drop p)).length

def charAt (buf : Bytes) (p j : Nat) : Except Fault UInt8 :=
  if j < strlen buf p then .ok (buf.getD (p + j) 0) else .error (.index p j)

def setChar (buf : Bytes) (p j : Nat) (c : UInt8) : Except Fault Bytes :=
  if j < strlen buf p then .ok (buf.set (p + j) c) else .error (.index p j)

/-! ## `parse_command` -/

/-- The `while (token != NULL)` loop, with the buffer it leaves. -/
def parseLoop : Nat → Strtok → Option Nat → ParsedCommand → Except Fault (Bytes × ParsedCommand)
  | _, s, none, c => .ok (s.buffer, c)
  | 0, _, some _, _ => .error .fuel
  | fuel + 1, s, some token, c =>
    if c.command = none then
      let (next, s) := s.next space
      parseLoop fuel s next { c with command := some token }
    else if cstr (s.buffer.drop token) = redirect then
      let (file, s) := s.next space
      let (next, s) := s.next space
      parseLoop fuel s next { c with outputFile := file }
    else
      match c.push token with
      | .error f => .error f
      | .ok c =>
        let (next, s) := s.next space
        parseLoop fuel s next c

/-- What follows the loop: the quotes around the arguments are removed. The indices are
`unsigned int`s, `strlen(..) - 1` a `size_t` before it becomes one. -/
def removeQuotes (buf : Bytes) (c : ParsedCommand) : Except Fault (Bytes × ParsedCommand) := do
  let firstArg ← c.arg 0
  let firstArgFirstChar ← charAt buf firstArg 0
  let lastArgIndex := (c.numArgs + (2 ^ 32 - 1)) % 2 ^ 32
  let lastArg ← c.arg lastArgIndex
  let lastArgLastCharIndex := (strlen buf lastArg + (2 ^ 64 - 1)) % 2 ^ 64 % 2 ^ 32
  let lastArgLastChar ← charAt buf lastArg lastArgLastCharIndex
  if 0 < c.numArgs ∧ firstArgFirstChar = quote ∧ lastArgLastChar = quote then
    let buf ← setChar buf lastArg lastArgLastCharIndex 0
    .ok (buf, { c with args := Function.update c.args ⟨0, by decide⟩ (some (firstArg + 1)) })
  else .ok (buf, c)

def parseCommand (input : Bytes) : Except Fault (Bytes × ParsedCommand) := do
  let (token, s) := Strtok.next space ⟨input, 0⟩
  let (buf, c) ← parseLoop input.length s token .null
  removeQuotes buf c

/-! ## Lines -/

/-- The array `input` with a string in it. -/
structure Line where
  text : Bytes
  rest : Bytes
  ended : 0 ∉ text
  size : text.length + 1 + rest.length = maxInput

def Line.buffer (line : Line) : Bytes := line.text ++ 0 :: line.rest

/-- The words that are arguments: not a `>`, nor the word after one. -/
def arguments : List Bytes → List Bytes
  | [] => []
  | [w] => if w = redirect then [] else [w]
  | w :: v :: ws => if w = redirect then arguments ws else w :: arguments (v :: ws)

/-- The first word is the command. -/
def Line.arguments (line : Line) : List Bytes := Shell.arguments (words space line.text).tail

end Csc412.Shell
