import Csc412.Kernel.Machine
import Csc412.Printer.Output

/-!
# Memory dumps

`memdump_physical` and `memdump_virtual_all` of `kernel.c` with what they write to the
log, and the constructor of `MemMapTimeline` of `parse_log.py`, which reads it. The log
is ASCII text.
-/

namespace Csc412.Kernel.Log

open Lib Lib.CString Printer

/-! ## The kernel's side -/

inductive Failure where
  | printer (f : Fault)
  | assertion (msg : String)
  deriving DecidableEq, Repr

def word (x : Int) : Arg := ⟨BitVec.ofInt 64 x, []⟩

def argsOf (args : List Arg) : Args := fun n => args.getD n ⟨0, []⟩

def logPrintf (format : Bytes) (args : List Arg) : Except Failure Bytes :=
  match printerVprintf 0 format (argsOf args) with
  | .ok calls => .ok (calls.map Call.c)
  | .error f => .error (.printer f)

def uint8 (x : Int) : Int := (BitVec.ofInt 8 x).toNat

def logAll {α : Type} : List α → (α → Except Failure Bytes) → Except Failure Bytes
  | [], _ => .ok []
  | a :: l, f => do
    let out ← f a
    let rest ← logAll l f
    .ok (out ++ rest)

def memdumpPhysical (s : State) : Except Failure Bytes := do
  let head ← logPrintf (['P', 'M', '_', 'D', 'U', 'M', 'P', ' ', '%', 'u', ' '].map ch)
    [word s.ticks.toNat]
  let pages ← logAll (List.range npages) fun pn =>
    logPrintf (['%', 'u', ' ', '%', 'u', ' '].map ch)
      [word (uint8 (s.pageinfo pn).owner), word (s.pageinfo pn).refcount]
  let tail ← logPrintf [newline] []
  .ok (head ++ pages ++ tail)

def memdumpVirtual (s : State) (pagetable : Word) (name : Bytes) : Except Failure Bytes := do
  let head ← logPrintf (['V', 'M', '_', 'D', 'U', 'M', 'P', ' ', '%', 's', ' ', '%', 'u',
    ' '].map ch)
    [⟨0, name⟩, word s.ticks.toNat]
  if pteAddr pagetable ≠ pagetable
    then .error (.assertion "(uintptr_t)pagetable == PTE_ADDR(pagetable)")
  else do
    let pages ← logAll (List.range (memsizeVirtual / 4096)) fun k =>
      let vam := virtualMemoryLookup s.mem pagetable (BitVec.ofNat 64 (k * 4096))
      if vam.pn < 0 then logPrintf (['0', ' ', '0', ' ', '0', ' '].map ch) []
      else
        logPrintf (['%', 'u', ' ', '%', 'u', ' ', '%', 'u', ' '].map ch)
          [word (uint8 (s.pageinfo vam.pn).owner), word (uint8 (s.pageinfo vam.pn).refcount),
            word vam.perm.toNat]
    let tail ← logPrintf [newline] []
    .ok (head ++ pages ++ tail)

/-- `char s[4]` lies at `buf` in the stack `m`. -/
def memdumpVirtualAll (s : State) (m : Nat → UInt8) (buf : Nat) : Except Failure Bytes :=
  logAll (List.range nproc) fun i =>
    if (s.procs i).state ≠ .free then
      match vsnprintf buf 4 (['%', 'd', ' '].map ch) (argsOf [word i]) with
      | .error f => .error (.printer f)
      | .ok (stores, _) =>
        memdumpVirtual s (s.procs i).pagetable
          ((List.range 4).map fun k => stores.apply m (buf + k))
    else .ok []

/-! ## The parser's side -/

structure PMEntry where
  owner : Int
  refcount : Int
  deriving DecidableEq, Repr

structure VMEntry where
  owner : Int
  refcount : Int
  ua : Int
  perm : Int
  deriving DecidableEq, Repr

structure MemMapInstance where
  pmState : Option (List PMEntry)
  vmState : Int → Option (List VMEntry)

def MemMapInstance.empty : MemMapInstance := ⟨none, fun _ => none⟩

/-- `MemMapTimeline`; `mem_data` is a `defaultdict`. -/
structure Timeline where
  memData : Int → Option MemMapInstance
  panic : Bool

def Timeline.empty : Timeline := ⟨fun _ => none, false⟩

def Timeline.at (t : Timeline) (tick : Int) : MemMapInstance := (t.memData tick).getD .empty

def Timeline.put (t : Timeline) (tick : Int) (inst : MemMapInstance) : Timeline :=
  { t with memData := Function.update t.memData tick (some inst) }

inductive PyError where
  | assertion
  | value
  deriving DecidableEq, Repr

def pyAssert (b : Bool) : Except PyError Unit := if b then .ok () else .error .assertion

/-- The text that `readlines` sees, after a `\r` or not: `\r\n` and `\r` become `\n`. -/
def universal : Bool → Bytes → Bytes
  | _, [] => []
  | cr, c :: text =>
    if c = 13 then newline :: universal true text
    else if cr ∧ c = newline then universal false text
    else c :: universal false text

def readlines : Bytes → List Bytes
  | [] => []
  | c :: text =>
    if c = newline then [c] :: readlines text
    else
      match readlines text with
      | [] => [[c]]
      | line :: lines => (c :: line) :: lines

/-- `list(filter(bool, line.split(' ')))`. -/
def lineSplit (line : Bytes) : List Bytes := (line.splitOn (ch ' ')).filter fun w => !w.isEmpty

def isPySpace (c : UInt8) : Bool := (9 ≤ c && c ≤ 13) || (28 ≤ c && c ≤ 32)

/-- Digits, with single underscores between them. -/
def pyDigits : Bytes → Nat → Bool → Option Nat
  | [], v, afterDigit => if afterDigit then some v else none
  | c :: t, v, afterDigit =>
    if isdigit c then pyDigits t (10 * v + (c.toNat - 48)) true
    else if c = ch '_' ∧ afterDigit then pyDigits t v false
    else none

/-- `int(s)`. -/
def pyInt (s : Bytes) : Except PyError Int :=
  let t := (s.dropWhile isPySpace).rdropWhile isPySpace
  let v := match t with
    | [] => none
    | c :: rest =>
      if c = ch '-' then (pyDigits rest 0 false).map fun n => -(n : Int)
      else if c = ch '+' then (pyDigits rest 0 false).map fun n => (n : Int)
      else (pyDigits t 0 false).map fun n => (n : Int)
  match v with
  | some v => .ok v
  | none => .error .value

def pmPrefix : Bytes := ['P', 'M', '_', 'D', 'U', 'M', 'P'].map ch

def vmPrefix : Bytes := ['V', 'M', '_', 'D', 'U', 'M', 'P'].map ch

def panicPrefix : Bytes := str "PANIC: Unexpected exception 52!"

/-- `perm & PTE_U`. -/
def pteUserBit (perm : Int) : Int := 4 * (perm / 4 % 2)

def pmEntries (fields : List Bytes) : List Nat → Except PyError (List PMEntry)
  | [] => .ok []
  | i :: l => do
    let owner ← pyInt (fields.getD (2 * i + 2) [])
    let refcount ← pyInt (fields.getD (2 * i + 3) [])
    let data ← pmEntries fields l
    .ok (⟨owner, refcount⟩ :: data)

def vmEntries (fields : List Bytes) : List Nat → Except PyError (List VMEntry)
  | [] => .ok []
  | i :: l => do
    let owner ← pyInt (fields.getD (3 * i + 3) [])
    let refcount ← pyInt (fields.getD (3 * i + 4) [])
    let perm ← pyInt (fields.getD (3 * i + 5) [])
    let data ← vmEntries fields l
    .ok (⟨owner, refcount, pteUserBit perm, perm⟩ :: data)

def MemMapInstance.setPmState (inst : MemMapInstance) (data : List PMEntry) :
    Except PyError MemMapInstance := do
  pyAssert inst.pmState.isNone
  .ok { inst with pmState := some data }

def MemMapInstance.addVmState (inst : MemMapInstance) (processId : Int) (data : List VMEntry) :
    Except PyError MemMapInstance := do
  pyAssert (inst.vmState processId).isNone
  .ok { inst with vmState := Function.update inst.vmState processId (some data) }

def parseLine (t : Timeline) (line : Bytes) : Except PyError Timeline :=
  if pmPrefix.isPrefixOf line then do
    let fields := lineSplit line
    pyAssert ((fields.length : Int) - 3 = 512 * 2)
    let tick ← pyInt (fields.getD 1 [])
    let data ← pmEntries fields (List.range 512)
    let inst ← (t.at tick).setPmState data
    .ok (t.put tick inst)
  else if vmPrefix.isPrefixOf line then do
    let fields := lineSplit line
    pyAssert ((fields.length : Int) - 4 = 768 * 3)
    let processId ← pyInt (fields.getD 1 [])
    let tick ← pyInt (fields.getD 2 [])
    let data ← vmEntries fields (List.range 768)
    let inst ← (t.at tick).addVmState processId data
    .ok (t.put tick inst)
  else if panicPrefix.isPrefixOf line then .ok { t with panic := true }
  else .ok t

def parseLines (t : Timeline) : List Bytes → Except PyError Timeline
  | [] => .ok t
  | line :: lines => do
    let t ← parseLine t line
    parseLines t lines

/-- `MemMapTimeline(log_file)`. -/
def memMapTimeline (log : Bytes) : Except PyError Timeline :=
  parseLines .empty (readlines (universal false log))

end Csc412.Kernel.Log
