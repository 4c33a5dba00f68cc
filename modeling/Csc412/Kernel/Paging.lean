import Mathlib.Algebra.GroupWithZero.Nat
import Csc412.Lib.Radix

/-!
# Four-level page tables

`virtual_memory_map`, `lookup_l4pagetable` and `virtual_memory_lookup` of
`k-hardware.c`, over the page-table macros of `x86-64.h`. Physical memory is read
and written in page-table entries: `m pt i` is `pt->entry[i]`, where `pt` is the
address of a page. A failed `assert` ends a computation with the text of its
condition.
-/

namespace Csc412.Kernel

open Lib

abbrev Word := BitVec 64

abbrev Mem := Word → Fin 512 → Word

/-- The number of entries in a page table. -/
scoped instance neZero_entries : NeZero 512 := ⟨by decide⟩

def memsizePhysical : Nat := 0x200000

def pteP : Word := 1
def pteW : Word := 2
def pteU : Word := 4

/-- `PAGENUMBER`, with the cast to `int`. -/
def pagenumber (ptr : Word) : Int := ((ptr >>> 12).setWidth 32).toInt

def pageindex (addr : Word) (level : Nat) : Fin 512 :=
  ⟨(addr >>> (12 + (3 - level) * 9)).toNat % 512, Nat.mod_lt _ (by decide)⟩

def pageoffset (addr : Word) : Word := addr &&& 0xFFF

def pteAddr (pe : Word) : Word := pe &&& ~~~0xFFF

def pteFlags (pe : Word) : Word := pe &&& 0xFFF

def check (b : Bool) (msg : String) : Except String Unit := if b then .ok () else .error msg

def Mem.setEntry (m : Mem) (pt : Word) (i : Fin 512) (pe : Word) : Mem := Radix.set m pt i pe

def Mem.clearPage (m : Mem) (pt : Word) : Mem := Function.update m pt fun _ => 0

section
variable {σ : Type}

def checkEntry (perm : BitVec 32) (pe : Word) : Except String Unit := do
  check (decide ((pteAddr pe).toNat < memsizePhysical)) "PTE_ADDR(pe) < MEMSIZE_PHYSICAL"
  if perm.signExtend 64 &&& pteW ≠ 0 then check (pe &&& pteW != 0) "pe & PTE_W"
  if perm.signExtend 64 &&& pteU ≠ 0 then check (pe &&& pteU != 0) "pe & PTE_U"

/-- The loop of `lookup_l4pagetable` with `n` levels to go. A null pointer is 0. -/
def lookupLevels (va : Word) (perm : BitVec 32) (allocator : Option (σ → Word × σ)) :
    Nat → Word → Mem → σ → Except String (Word × Mem × σ)
  | 0, pt, m, s => .ok (pt, m, s)
  | n + 1, pt, m, s =>
    let i := pageindex va (2 - n)
    let pe := m pt i
    if pe &&& pteP = 0 then
      match (if perm.signExtend 64 &&& pteP = 0 then none else allocator) with
      | none => .ok (0, m, s)
      | some alloc =>
        let (newPt, s) := alloc s
        if newPt = 0 then .ok (0, m, s)
        else do
          check (decide (newPt.toNat % 4096 = 0)) "(uintptr_t) new_pt % PAGESIZE == 0"
          let pe := pteAddr newPt ||| pteP ||| pteW ||| pteU
          let m := (m.setEntry pt i pe).clearPage newPt
          checkEntry perm pe
          lookupLevels va perm allocator n (pteAddr pe) m s
    else do
      checkEntry perm pe
      lookupLevels va perm allocator n (pteAddr pe) m s

def lookupL4pagetable (pagetable va : Word) (perm : BitVec 32) (allocator : Option (σ → Word × σ))
    (m : Mem) (s : σ) : Except String (Word × Mem × σ) :=
  lookupLevels va perm allocator 3 pagetable m s

def index123 (va : Word) : Int := ((va >>> 21).setWidth 32).toInt

/-- `l4pagetable` for the page at `va`: looked up again only when `index123` changes. -/
def nextTable (pagetable : Word) (perm : BitVec 32) (allocator : Option (σ → Word × σ)) (va : Word)
    (last : Int) (l4 : Word) (m : Mem) (s : σ) : Except String (Word × Mem × σ) :=
  if index123 va ≠ last then lookupL4pagetable pagetable va perm allocator m s else .ok (l4, m, s)

/-- The loop of `virtual_memory_map` with `n` pages to go; `sz` is `n * PAGESIZE`. -/
def mapPages (pagetable : Word) (perm : BitVec 32) (allocator : Option (σ → Word × σ)) :
    Nat → Word → Word → Int → Word → Mem → σ → Except String (Int × Mem × σ)
  | 0, _, _, _, _, m, s => .ok (0, m, s)
  | n + 1, va, pa, last, l4, m, s =>
    match nextTable pagetable perm allocator va last l4 m s with
    | .error e => .error e
    | .ok (l4, m, s) =>
      if perm.signExtend 64 &&& pteP ≠ 0 ∧ l4 ≠ 0 then
        mapPages pagetable perm allocator n (va + 4096) (pa + 4096) (index123 va) l4
          (m.setEntry l4 (pageindex va 3) (pa ||| perm.signExtend 64)) s
      else if l4 ≠ 0 then
        mapPages pagetable perm allocator n (va + 4096) (pa + 4096) (index123 va) l4
          (m.setEntry l4 (pageindex va 3) (perm.signExtend 64)) s
      else if perm.signExtend 64 &&& pteP ≠ 0 then .ok (-1, m, s)
      else mapPages pagetable perm allocator n (va + 4096) (pa + 4096) (index123 va) l4 m s

def mapAsserts (pagetable va pa sz : Word) (perm : BitVec 32) : Except String Unit := do
  check (decide (va.toNat % 4096 = 0)) "va % PAGESIZE == 0"
  check (decide (sz.toNat % 4096 = 0)) "sz % PAGESIZE == 0"
  check (decide (va ≤ va + sz) || decide (va + sz = 0)) "va + sz >= va || va + sz == 0"
  if perm.signExtend 64 &&& pteP ≠ 0 then
    check (decide (pa.toNat % 4096 = 0)) "pa % PAGESIZE == 0"
    check (decide (pa ≤ pa + sz)) "pa + sz >= pa"
    check (decide ((pa + sz).toNat ≤ memsizePhysical)) "pa + sz <= MEMSIZE_PHYSICAL"
  check (decide (0 ≤ perm.toInt) && decide (perm.toInt < 0x1000)) "perm >= 0 && perm < 0x1000"
  check (decide (pagetable.toNat % 4096 = 0)) "(uintptr_t) pagetable % PAGESIZE == 0"

def virtualMemoryMap (pagetable va pa sz : Word) (perm : BitVec 32)
    (allocator : Option (σ → Word × σ)) (m : Mem) (s : σ) : Except String (Int × Mem × σ) := do
  mapAsserts pagetable va pa sz perm
  mapPages pagetable perm allocator (sz.toNat / 4096) va pa (-1) 0 m s

end

/-! ## Lookup -/

structure Vamapping where
  pn : Int
  pa : Word
  perm : Word
  deriving DecidableEq, Repr

def Vamapping.unmapped : Vamapping := ⟨-1, -1, 0⟩

/-- The loop of `virtual_memory_lookup` with `n` levels to go: `pe` and `perms` when
it ends. -/
def lookupLoop (va : Word) (m : Mem) : Nat → Word → Word → Word → Word × Word
  | 0, _, pe, perms => (pe, perms)
  | n + 1, pt, pe, perms =>
    if perms &&& pteP ≠ 0 then
      let pe := m pt (pageindex va (3 - n))
      lookupLoop va m n (pteAddr pe) pe (perms &&& pteFlags pe)
    else (pe, perms)

def virtualMemoryLookup (m : Mem) (pagetable va : Word) : Vamapping :=
  let (pe, perms) := lookupLoop va m 4 pagetable 0 (pteW ||| pteU ||| pteP)
  if perms &&& pteP ≠ 0 then ⟨pagenumber pe, pteAddr pe + pageoffset va, perms⟩
  else .unmapped

end Csc412.Kernel
