import Mathlib.Algebra.Group.Nat.Defs
import Mathlib.Logic.Function.Basic
import Mathlib.Data.List.Basic

/-!
# Doubly linked lists

`linked_list.c` over a heap of nodes and data blocks. A pointer is a number and 0 is the
null pointer. What has not been written is `none`; what the language leaves undefined ends
a computation with a fault. Loops take the number of rounds that they may make.
-/

namespace Csc412.DoubleLink

abbrev Ptr := Nat

inductive Fault where
  | nullPointer
  -- a node or block that is not or no longer allocated
  | dangling
  | uninitialised
  | outOfBounds
  | rounds
deriving DecidableEq

structure Node where
  data : Option Ptr
  next : Option Ptr
  prev : Option Ptr

/-- Nothing is allocated from `top` on. -/
structure Heap where
  nodes : Ptr → Option Node
  blocks : Ptr → Option (List (Option UInt8))
  top : Ptr
  bounded : ∀ p, top ≤ p → nodes p = none ∧ blocks p = none

/-- Where `malloc` puts the next object: at an address that is not in use. -/
structure Malloc where
  addr : Heap → Ptr
  ne_null : ∀ h, addr h ≠ 0
  unused : ∀ h : Heap, h.nodes (addr h) = none ∧ h.blocks (addr h) = none

def load (field : Option Ptr) : Except Fault Ptr :=
  match field with
  | some p => .ok p
  | none => .error .uninitialised

namespace Heap

def node (h : Heap) (p : Ptr) : Except Fault Node :=
  if p = 0 then .error .nullPointer
  else
    match h.nodes p with
    | some n => .ok n
    | none => .error .dangling

def block (h : Heap) (p : Ptr) : Except Fault (List (Option UInt8)) :=
  if p = 0 then .error .nullPointer
  else
    match h.blocks p with
    | some b => .ok b
    | none => .error .dangling

def getData (h : Heap) (p : Ptr) : Except Fault Ptr := do load (← h.node p).data
def getNext (h : Heap) (p : Ptr) : Except Fault Ptr := do load (← h.node p).next
def getPrev (h : Heap) (p : Ptr) : Except Fault Ptr := do load (← h.node p).prev

def store (h : Heap) (p : Ptr) (n : Option Node) : Heap where
  nodes := Function.update h.nodes p n
  blocks := h.blocks
  top := max h.top (p + 1)
  bounded := by
    intro q hq
    obtain ⟨htop, hp⟩ := Nat.max_le.mp hq
    rw [Function.update_of_ne (Nat.ne_of_gt hp)]
    exact h.bounded q htop

def storeBlock (h : Heap) (p : Ptr) (b : Option (List (Option UInt8))) : Heap where
  nodes := h.nodes
  blocks := Function.update h.blocks p b
  top := max h.top (p + 1)
  bounded := by
    intro q hq
    obtain ⟨htop, hp⟩ := Nat.max_le.mp hq
    rw [Function.update_of_ne (Nat.ne_of_gt hp)]
    exact h.bounded q htop

def setData (h : Heap) (p v : Ptr) : Except Fault Heap := do
  let n ← h.node p
  .ok (h.store p (some { n with data := some v }))

def setNext (h : Heap) (p v : Ptr) : Except Fault Heap := do
  let n ← h.node p
  .ok (h.store p (some { n with next := some v }))

def setPrev (h : Heap) (p v : Ptr) : Except Fault Heap := do
  let n ← h.node p
  .ok (h.store p (some { n with prev := some v }))

def freeNode (h : Heap) (p : Ptr) : Except Fault Heap := do
  let _ ← h.node p
  .ok (h.store p none)

def freeBlock (h : Heap) (p : Ptr) : Except Fault Heap := do
  let _ ← h.block p
  .ok (h.storeBlock p none)

/-- `memcpy` of `n` bytes from `src`. -/
def memcpy (h : Heap) (p : Ptr) (src : List UInt8) (n : Nat) : Except Fault Heap := do
  let b ← h.block p
  if n ≤ b.length ∧ n ≤ src.length
    then .ok (h.storeBlock p (some ((src.take n).map some ++ b.drop n)))
  else .error .outOfBounds

/-- `!memcmp` of `n` bytes with `src`. -/
def memcmp (h : Heap) (p : Ptr) (src : List UInt8) (n : Nat) : Except Fault Bool := do
  let b ← h.block p
  if n ≤ b.length ∧ n ≤ src.length then
    if (b.take n).all Option.isSome then .ok (b.take n == (src.take n).map some)
      else .error .uninitialised
  else .error .outOfBounds

end Heap

/-! ## Reading -/

/-- The body of the loop does not move `current`. -/
def lengthLoop : Nat → Ptr → Nat → Except Fault Nat
  | fuel, current, len =>
    if current = 0 then .ok len
    else
      match fuel with
      | 0 => .error .rounds
      | fuel + 1 => lengthLoop fuel current (len + 1)

def lengthList (fuel : Nat) (headList : Ptr) : Except Fault Nat :=
  if headList = 0 then .ok 0 else lengthLoop fuel headList 0

def getFirst (h : Heap) (headList : Ptr) : Except Fault Ptr := h.getData headList

/-- `while (curr->next) curr = curr->next`. -/
def lastLoop (h : Heap) : Nat → Ptr → Except Fault Ptr
  | 0, _ => .error .rounds
  | fuel + 1, curr => do
    let next ← h.getNext curr
    if next ≠ 0 then lastLoop h fuel next else .ok curr

def getLast (fuel : Nat) (h : Heap) (headList : Ptr) : Except Fault Ptr :=
  if headList = 0 then .ok 0
  else do
    let curr ← lastLoop h fuel headList
    h.getData curr

/-! ## Writing

Each function returns the new value of `*head_list`. -/

/-- `size - 1` of a `size_t`. -/
def sizePred (size : Nat) : Nat := (size + (2 ^ 64 - 1)) % 2 ^ 64

def insertLast (malloc : Malloc) (fuel : Nat) (h : Heap) (headList : Ptr)
    (toAdd : Option (List UInt8)) (size : Nat) :
    Except Fault (Ptr × Heap) :=
  match toAdd with
  | none => .ok (headList, h)
  | some toAdd => do
    let newElement := malloc.addr h
    let h := h.store newElement (some ⟨none, none, none⟩)
    let newData := malloc.addr h
    let h := h.storeBlock newData (some (List.replicate (sizePred size) none))
    let h ← h.memcpy newData toAdd (sizePred size)
    let h ← h.setData newElement newData
    if headList = 0 then
      let h ← h.setPrev newElement 0
      let h ← h.setNext newElement 0
      .ok (newElement, h)
    else
      let curr ← lastLoop h fuel headList
      let h ← h.setNext curr newElement
      let h ← h.setPrev newElement curr
      .ok (headList, h)

/-- `if (curr->next) curr->next->prev = curr->prev`. -/
def unlinkNext (h : Heap) (curr : Ptr) : Except Fault Heap := do
  let next ← h.getNext curr
  if next ≠ 0 then h.setPrev next (← h.getPrev curr) else .ok h

/-- The head of the list, or the node before `curr`, moves on to the node after it. -/
def unlinkPrev (h : Heap) (headList curr : Ptr) : Except Fault (Ptr × Heap) := do
  if curr = headList then .ok (← h.getNext curr, h)
  else .ok (headList, ← h.setNext (← h.getPrev curr) (← h.getNext curr))

/-- The node that is found is taken out. -/
def unlink (h : Heap) (headList curr : Ptr) : Except Fault (Ptr × Heap) := do
  let h ← unlinkNext h curr
  let (headList, h) ← unlinkPrev h headList curr
  let h ← h.freeBlock (← h.getData curr)
  let h ← h.freeNode curr
  .ok (headList, h)

def removeLoop (h : Heap) (headList : Ptr) (toRemove : List UInt8) (size : Nat) :
    Nat → Ptr → Except Fault (Nat × Ptr × Heap)
  | 0, _ => .error .rounds
  | fuel + 1, curr =>
    if curr = 0 then .ok (0, headList, h)
    else do
      if ← h.memcmp (← h.getData curr) toRemove size then .ok (1, ← unlink h headList curr)
      else removeLoop h headList toRemove size fuel (← h.getNext curr)

def removeElement (fuel : Nat) (h : Heap) (headList : Ptr) (toRemove : List UInt8) (size : Nat) :
    Except Fault (Nat × Ptr × Heap) :=
  if headList = 0 then .ok (0, headList, h) else removeLoop h headList toRemove size fuel headList

def reverseLoop : Nat → Heap → Ptr → Ptr → Ptr → Except Fault (Ptr × Heap)
  | 0, _, _, _, _ => .error .rounds
  | fuel + 1, h, headList, curr, placeholder =>
    if curr = 0 then .ok (headList, h)
    else do
      let next ← h.getNext curr
      let headList := if next = 0 then curr else headList
      let h ← h.setPrev curr next
      let h ← h.setNext curr placeholder
      reverseLoop fuel h headList (← h.getPrev curr) curr

def reverseHelper (fuel : Nat) (h : Heap) (headList : Ptr) : Except Fault (Ptr × Heap) := do
  if (← h.getNext headList) ≠ 0 then reverseLoop fuel h headList headList 0 else .ok (headList, h)

/-- The address of `head_list` is not null. -/
def reverse (fuel : Nat) (h : Heap) (headList : Ptr) : Except Fault (Ptr × Heap) :=
  reverseHelper fuel h headList

/-- `if (*head_list) (*head_list)->prev = NULL`. -/
def clearPrev (h : Heap) (headList : Ptr) : Except Fault Heap :=
  if headList ≠ 0 then h.setPrev headList 0 else .ok h

def removeFirst (h : Heap) (headList : Ptr) : Except Fault (Ptr × Ptr × Heap) :=
  if headList = 0 then .ok (0, headList, h)
  else do
    let curr := headList
    let headList ← h.getNext curr
    let h ← clearPrev h headList
    let h ← h.freeBlock (← h.getData curr)
    let h ← h.freeNode curr
    .ok (← h.getData curr, headList, h)

end Csc412.DoubleLink
