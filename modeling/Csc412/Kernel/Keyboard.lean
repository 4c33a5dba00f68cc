import Csc412.Kernel.Exception

/-!
# The keyboard

`keyboard_readc` of `k-hardware.c`, with the tables that map scan codes to characters.
A byte `0xE0` says that the next one belongs to the second half of the table; bit 7 of
a byte says that the key was released. Characters are given by their codes. A read past
the end of a table is a fault.
-/

namespace Csc412.Kernel

def keyShift : Nat := 0o372
def keyControl : Nat := 0o373
def keyAlt : Nat := 0o374
def keyCapslock : Nat := 0o375
def keyNumlock : Nat := 0o376
def keyScrolllock : Nat := 0o377

def keyUp : Nat := 0o300
def keyRight : Nat := 0o301
def keyDown : Nat := 0o302
def keyLeft : Nat := 0o303
def keyHome : Nat := 0o304
def keyEnd : Nat := 0o305
def keyPageup : Nat := 0o306
def keyPagedown : Nat := 0o307
def keyInsert : Nat := 0o310
def keyDelete : Nat := 0o311

def ckey (cn : Nat) : Nat := 0x80 + cn

def keymap : List Nat := [
  -- 0x00
  0, 27, ckey 0, ckey 1, ckey 2, ckey 3, ckey 4, ckey 5, ckey 6, ckey 7, ckey 8, ckey 9, ckey 10,
    ckey 11, 8, 9,
  -- 0x10
  113, 119, 101, 114, 116, 121, 117, 105, 111, 112, ckey 12, ckey 13, ckey 14, keyControl, 97, 115,
  -- 0x20
  100, 102, 103, 104, 106, 107, 108, ckey 15, ckey 16, ckey 17, keyShift, ckey 18, 122, 120,
    99, 118,
  -- 0x30
  98, 110, 109, ckey 19, ckey 20, ckey 21, keyShift, 42, keyAlt, 32, keyCapslock, 0, 0, 0, 0, 0,
  -- 0x40
  0, 0, 0, 0, 0, keyNumlock, keyScrolllock, 55, 56, 57, 45, 52, 53, 54, 43, 49,
  -- 0x50
  50, 51, 48, 46, 0, 0, 0, 0, 0, 0, 0, 0, 0, 0, 0, 0,
  -- 0x60
  0, 0, 0, 0, 0, 0, 0, 0, 0, 0, 0, 0, 0, 0, 0, 0,
  -- 0x70
  0, 0, 0, 0, 0, 0, 0, 0, 0, 0, 0, 0, 0, 0, 0, 0,
  -- 0x80
  0, 0, 0, 0, 0, 0, 0, 0, 0, 0, 0, 0, 0, 0, 0, 0,
  -- 0x90
  0, 0, 0, 0, 0, 0, 0, 0, 0, 0, 0, 0, ckey 14, keyControl, 0, 0,
  -- 0xA0
  0, 0, 0, 0, 0, 0, 0, 0, 0, 0, 0, 0, 0, 0, 0, 0,
  -- 0xB0
  0, 0, 0, 0, 0, 47, 0, 0, keyAlt, 0, 0, 0, 0, 0, 0, 0,
  -- 0xC0
  0, 0, 0, 0, 0, 0, 0, keyHome, keyUp, keyPageup, 0, keyLeft, 0, keyRight, 0, keyEnd,
  -- 0xD0
  keyDown, keyPagedown, keyInsert, keyDelete, 0, 0, 0, 0, 0, 0, 0, 0, 0, 0, 0, 0,
  -- 0xE0
  0, 0, 0, 0, 0, 0, 0, 0, 0, 0, 0, 0, 0, 0, 0, 0,
  -- 0xF0
  0, 0, 0, 0, 0, 0, 0, 0, 0, 0, 0, 0, 0, 0, 0, 0]

def complexKeymap : List (List Nat) := [
  [49, 33, 0, 0], [50, 64, 0, 0], [51, 35, 0, 0], [52, 36, 0, 0], [53, 37, 0, 0],
  [54, 94, 0, 30], [55, 38, 0, 0], [56, 42, 0, 0], [57, 40, 0, 0], [48, 41, 0, 0],
  [45, 95, 0, 31], [61, 43, 0, 0], [91, 123, 27, 0], [93, 125, 29, 0], [10, 10, 13, 13],
  [59, 58, 0, 0], [39, 34, 0, 0], [96, 126, 0, 0], [92, 124, 28, 0], [44, 60, 0, 0],
  [46, 62, 0, 0], [47, 63, 0, 0]]

/-- The static variables of `keyboard_readc`. -/
structure Keyboard where
  modifiers : BitVec 8
  lastEscape : BitVec 8
deriving DecidableEq, Repr

def Keyboard.initial : Keyboard := ⟨0, 0⟩

def modShift : Nat := 0
def modControl : Nat := 1
def modCapslock : Nat := 3

def Keyboard.has (k : Keyboard) (m : Nat) : Bool := k.modifiers.getLsbD m

def keyOf (data : BitVec 8) : Option Nat := keymap[data.toNat]?

/-- What a key press returns, and the modifiers after it. -/
def pressKey (k : Keyboard) (ch : Nat) : Option (Nat × Keyboard) :=
  if 97 ≤ ch ∧ ch ≤ 122 then
    if k.has modControl then some (ch - 0x60, k)
    else if (!k.has modShift) != (!k.has modCapslock) then some (ch - 0x20, k)
    else some (ch, k)
  else if keyCapslock ≤ ch then
    some (0, { k with modifiers := k.modifiers ^^^ (1#8 <<< (ch - keyShift)) })
  else if keyShift ≤ ch then
    some (0, { k with modifiers := k.modifiers ||| (1#8 <<< (ch - keyShift)) })
  else if ckey 0 ≤ ch ∧ ch ≤ ckey 21 then do
    let key ← complexKeymap[ch - ckey 0]?
    let ch ← key[(k.modifiers &&& 3).toNat]?
    some (ch, k)
  else if ch < 0x80 ∧ k.has modControl then some (0, k)
  else some (ch, k)

/-- `data` is the byte that the keyboard has ready, if any. -/
def keyboardReadc (k : Keyboard) (data : Option (BitVec 8)) : Option (Int × Keyboard) :=
  match data with
  | none => some (-1, k)
  | some data =>
    let escape := k.lastEscape
    let k := { k with lastEscape := 0 }
    if data = 0xE0 then some (0, { k with lastEscape := 0x80 })
    else if data &&& 0x80 ≠ 0 then do
      -- key release: matters only for modifier keys
      let ch ← keyOf ((data &&& 0x7F) ||| escape)
      if keyShift ≤ ch ∧ ch < keyCapslock then
        some (0, { k with modifiers := k.modifiers &&& ~~~(1#8 <<< (ch - keyShift)) })
      else some (0, k)
    else do
      let ch ← keyOf (data ||| escape)
      let (ch, k) ← pressKey k ch
      some (ch, k)

/-- What is returned for each byte of `l`, and the keyboard after it. -/
def Keyboard.readAll (k : Keyboard) : List (BitVec 8) → Option (List Int × Keyboard)
  | [] => some ([], k)
  | data :: l => do
    let (c, k) ← keyboardReadc k (some data)
    let (cs, k) ← k.readAll l
    some (c :: cs, k)

end Csc412.Kernel
