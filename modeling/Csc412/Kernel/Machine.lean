import Csc412.Kernel.Paging

/-!
# The kernel's state and its self-checks

The data of `kernel.c`: process table, `pageinfo[]`, the ticks and the statics of
`memshow_virtual_animate`, beside physical memory; `check_virtual_memory` and the
assertions on the way to drawing the memory maps. What the kernel draws, prints and
logs is left out. `Build` is what linking fixes: where the kernel's symbols lie and
the program images.
-/

namespace Csc412.Kernel

def nproc : Nat := 16
def npages : Nat := 512
def kernelStartAddr : Nat := 0x40000
def kernelStackTop : Nat := 0x80000
def procStartAddr : Nat := 0x100000
def procSize : Nat := 0x40000
def memsizeVirtual : Nat := 0x300000

/-! ## What linking fixes -/

/-- An `elf_program` with the bytes from its `p_offset` on. -/
structure Segment where
  ptype : BitVec 32
  va : Word
  filesz : Word
  memsz : Word
  data : Nat → BitVec 8

def Segment.isLoad (ph : Segment) : Bool := ph.ptype == 1

def Segment.first (ph : Segment) : Nat := ph.va.toNat / 4096
def Segment.last (ph : Segment) : Nat := (ph.va.toNat + ph.memsz.toNat + 4095) / 4096

structure Image where
  magic : BitVec 32
  entry : Word
  segments : List Segment

/-- The loadable segments lie in the slot at `base`, below its stack page, and no
two of them share a page. -/
structure Image.Fits (im : Image) (base : Nat) : Prop where
  magic : im.magic = 0x464C457F
  inside : ∀ ph ∈ im.segments, ph.isLoad → base ≤ ph.va.toNat ∧
    ph.va.toNat + ph.memsz.toNat ≤ base + procSize - 4096 ∧ ph.filesz.toNat ≤ ph.memsz.toNat
  disjoint : im.segments.Pairwise fun p q => p.isLoad → q.isLoad → p.last ≤ q.first ∨
    q.last ≤ p.first

/-- Programs 0 to 3 are linked for processes 1 to 4, programs 4 and 5 for process 1. -/
def slotOf (program : Nat) : Nat := procStartAddr + procSize * (if program < 4 then program else 0)

structure Build where
  startData : Nat
  endAddr : Nat
  kernelPagetables : Nat
  defaultIntHandler : Nat
  virtualMemoryMap : Nat
  tickLimit : Nat
  forceFork : Bool
  images : Nat → Image
  start_ge : kernelStartAddr ≤ startData
  tables_ge : startData ≤ kernelPagetables
  tables_aligned : kernelPagetables % 4096 = 0
  tables_le : kernelPagetables + 5 * 4096 ≤ endAddr
  end_le : endAddr ≤ kernelStackTop - 4096
  handler_mem : kernelStartAddr ≤ defaultIntHandler ∧ defaultIntHandler < endAddr
  map_mem : kernelStartAddr ≤ virtualMemoryMap ∧ virtualMemoryMap < endAddr
  images_fit : ∀ n < 6, (images n).Fits (slotOf n)

def Build.table (b : Build) (k : Nat) : Word := BitVec.ofNat 64 (b.kernelPagetables + k * 4096)

/-! ## The state -/

structure Registers where
  rax : Word
  rcx : Word
  rdx : Word
  rbx : Word
  rbp : Word
  rsi : Word
  rdi : Word
  r8 : Word
  r9 : Word
  r10 : Word
  r11 : Word
  r12 : Word
  r13 : Word
  r14 : Word
  r15 : Word
  fs : Word
  gs : Word
  intno : Word
  err : Word
  rip : Word
  cs : BitVec 16
  padding2 : BitVec 48
  rflags : Word
  rsp : Word
  ss : BitVec 16
  padding3 : BitVec 48
  deriving DecidableEq, Repr

def Registers.zero : Registers :=
  ⟨0, 0, 0, 0, 0, 0, 0, 0, 0, 0, 0, 0, 0, 0, 0, 0, 0, 0, 0, 0, 0, 0, 0, 0, 0, 0⟩

def Registers.setRax (r : Registers) (v : Word) : Registers := { r with rax := v }
def Registers.setRip (r : Registers) (v : Word) : Registers := { r with rip := v }
def Registers.setRsp (r : Registers) (v : Word) : Registers := { r with rsp := v }

inductive ProcState where
  | free
  | runnable
  | blocked
  | broken
  deriving DecidableEq, Repr

structure Proc where
  pid : Int
  registers : Registers
  state : ProcState
  pagetable : Word

/-- `physical_pageinfo`; both fields are `int8_t`. -/
structure PageInfo where
  owner : Int
  refcount : Int
  deriving DecidableEq, Repr

def poFree : Int := 0
def poReserved : Int := -1
def poKernel : Int := -2

def int8 (x : Int) : Int := (BitVec.ofInt 8 x).toInt

/-- Where the machine is. In `user` mode the current process runs. The kernel is
`handling` an exception until it polls the keyboard, `scheduling` or `polling`
inside the loop of `schedule` at some `pid`, or `failing` in `fail` after a panic. -/
inductive Control where
  | user
  | handling
  | scheduling (pid : Nat)
  | polling (pid : Nat)
  | failing (msg : String)
  | off
  deriving DecidableEq, Repr

structure State where
  mem : Mem
  pageinfo : Int → PageInfo
  procs : Nat → Proc
  current : Nat
  kernelPagetable : Word
  ticks : BitVec 32
  lastTicks : BitVec 32
  showing : Nat
  control : Control

def State.setProc (s : State) (p : Nat) (proc : Proc) : State :=
  { s with procs := Function.update s.procs p proc }

def State.setRegisters (s : State) (p : Nat) (r : Registers) : State :=
  s.setProc p { s.procs p with registers := r }

/-! ## Self-checks -/

def checkAll {α : Type} : List α → (α → Except String Unit) → Except String Unit
  | [], _ => .ok ()
  | a :: l, f => do
    f a
    checkAll l f

def setPagetable (b : Build) (s : State) (pagetable : Word) : Except String Unit := do
  let handler := BitVec.ofNat 64 b.defaultIntHandler
  let map := BitVec.ofNat 64 b.virtualMemoryMap
  check (pageoffset pagetable == 0) "PAGEOFFSET(pagetable) == 0"
  check ((virtualMemoryLookup s.mem pagetable handler).pa == handler)
    "virtual_memory_lookup(pagetable, (uintptr_t) default_int_handler).pa == (uintptr_t) default_int_handler"
  check ((virtualMemoryLookup s.mem s.kernelPagetable pagetable).pa == pagetable)
    "virtual_memory_lookup(kernel_pagetable, (uintptr_t) pagetable).pa == (uintptr_t) pagetable"
  check ((virtualMemoryLookup s.mem pagetable s.kernelPagetable).pa == s.kernelPagetable)
    "virtual_memory_lookup(pagetable, (uintptr_t) kernel_pagetable).pa == (uintptr_t) kernel_pagetable"
  check ((virtualMemoryLookup s.mem pagetable map).pa == map)
    "virtual_memory_lookup(pagetable, (uintptr_t) virtual_memory_map).pa == (uintptr_t) virtual_memory_map"

def checkPageTableMappings (b : Build) (s : State) (pt : Word) : Except String Unit := do
  check (pteAddr pt == pt) "PTE_ADDR(pt) == (uintptr_t) pt"
  -- kernel memory is identity mapped; data is writable
  checkAll (List.range ((b.endAddr - kernelStartAddr + 4095) / 4096)) fun k => do
    let va := kernelStartAddr + k * 4096
    let vam := virtualMemoryLookup s.mem pt (BitVec.ofNat 64 va)
    check (vam.pa == BitVec.ofNat 64 va) "vam.pa == va"
    if b.startData ≤ va then check (vam.perm &&& pteW != 0) "vam.perm & PTE_W"
  -- kernel stack is identity mapped and writable
  let kstack := BitVec.ofNat 64 (kernelStackTop - 4096)
  let vam := virtualMemoryLookup s.mem pt kstack
  check (vam.pa == kstack) "vam.pa == kstack"
  check (vam.perm &&& pteW != 0) "vam.perm & PTE_W"

/-- `check_page_table_ownership_level` with `n` levels below `pt`. -/
def checkPageTableOwnershipLevel (s : State) (owner : Int) : Nat → Word → Int → Except String Unit
  | n, pt, refcount => do
    check (decide (pagenumber pt < npages)) "PAGENUMBER(pt) < NPAGES"
    check ((s.pageinfo (pagenumber pt)).owner == owner) "pageinfo[PAGENUMBER(pt)].owner == owner"
    check ((s.pageinfo (pagenumber pt)).refcount == refcount)
      "pageinfo[PAGENUMBER(pt)].refcount == refcount"
    match n with
    | 0 => .ok ()
    | n + 1 => checkAll (List.finRange 512) fun i =>
        if s.mem pt i ≠ 0 then checkPageTableOwnershipLevel s owner n (pteAddr (s.mem pt i)) 1
          else .ok ()

def kernelTableUsers (s : State) : Nat :=
  (List.range nproc).countP fun p =>
    decide ((s.procs p).state ≠ .free) && decide ((s.procs p).pagetable = s.kernelPagetable)

def checkPageTableOwnership (s : State) (pt : Word) (pid : Int) : Except String Unit :=
  if pt = s.kernelPagetable
    then checkPageTableOwnershipLevel s poKernel 3 pt (1 + kernelTableUsers s)
  else checkPageTableOwnershipLevel s pid 3 pt 1

def checkVirtualMemory (b : Build) (s : State) : Except String Unit := do
  check (decide ((s.procs 0).state = .free)) "processes[0].p_state == P_FREE"
  checkPageTableMappings b s s.kernelPagetable
  checkPageTableOwnership s s.kernelPagetable (-1)
  checkAll (List.range nproc) fun pid =>
    if (s.procs pid).state ≠ .free ∧ (s.procs pid).pagetable ≠ s.kernelPagetable then do
      checkPageTableMappings b s (s.procs pid).pagetable
      checkPageTableOwnership s (s.procs pid).pagetable pid
    else .ok ()
  -- all referenced pages refer to active processes
  checkAll (List.range npages) fun pn =>
    if 0 < (s.pageinfo pn).refcount ∧ 0 ≤ (s.pageinfo pn).owner then
      check (decide ((s.procs (s.pageinfo pn).owner.toNat).state ≠ .free))
        "processes[pageinfo[pn].owner].p_state != P_FREE"
    else .ok ()

/-! ## Memory maps -/

def memshowVirtual (s : State) (pagetable : Word) : Except String Unit := do
  check (pteAddr pagetable == pagetable) "(uintptr_t) pagetable == PTE_ADDR(pagetable)"
  checkAll (List.range (memsizeVirtual / 4096)) fun k =>
    let vam := virtualMemoryLookup s.mem pagetable (BitVec.ofNat 64 (k * 4096))
    if vam.pn < 0 then .ok ()
      else check (decide (vam.pa.toNat < memsizePhysical)) "vam.pa < MEMSIZE_PHYSICAL"

/-- The loop of `memshow_virtual_animate` that passes over free processes, with `n`
rounds left until `showing` exceeds `2 * NPROC`. -/
def skipFree (s : State) : Nat → Nat → Nat
  | 0, showing => showing
  | n + 1, showing =>
    if (s.procs (showing % nproc)).state = .free then skipFree s n (showing + 1) else showing

def memshowVirtualAnimate (s : State) : Except String State := do
  -- switch to a new process every 0.25 sec
  let s := if s.lastTicks = 0 ∨ 50 ≤ (s.ticks - s.lastTicks).toNat then
    { s with lastTicks := s.ticks, showing := s.showing + 1 } else s
  let showing := skipFree s (2 * nproc + 1 - s.showing) s.showing % nproc
  let s := { s with showing := showing }
  if (s.procs showing).state ≠ .free then memshowVirtual s (s.procs showing).pagetable
  .ok s

def memdumpVirtualAll (s : State) : Except String Unit :=
  checkAll (List.range nproc) fun i =>
    if (s.procs i).state ≠ .free then
      check (pteAddr (s.procs i).pagetable == (s.procs i).pagetable)
        "(uintptr_t)pagetable == PTE_ADDR(pagetable)"
    else .ok ()

end Csc412.Kernel
