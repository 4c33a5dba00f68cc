import Csc412.Kernel.Machine

/-!
# Booting

`kernel` with `virtual_memory_init` and `pageinfo_init`, the program loader of
`k-loader.c`, `process_setup` and `run`. The kernel copies a program through the
process's page table, so each byte is stored where a lookup says.
-/

namespace Csc412.Kernel

def permPWU : BitVec 32 := 7

/-! ## Stores -/

theorem byteSlot_lt (pa : Word) : pa.toNat % 4096 / 8 < 512 := by omega

def Mem.setByte (m : Mem) (pa : Word) (v : BitVec 8) : Mem :=
  let i : Fin 512 := ⟨pa.toNat % 4096 / 8, byteSlot_lt pa⟩
  let shift := pa.toNat % 8 * 8
  m.setEntry (pteAddr pa) i ((m (pteAddr pa) i &&& ~~~((0xFF : Word) <<< shift)) |||
    (v.setWidth 64 <<< shift))

def storeByte (pagetable : Word) (m : Mem) (va : Word) (v : BitVec 8) : Except String Mem :=
  let vam := virtualMemoryLookup m pagetable va
  if vam.perm &&& pteW ≠ 0 then .ok (m.setByte vam.pa v)
  else .error "Kernel page fault for %p (%s %s, rip=%p)!\n"

/-- The bytes `f k`, `f (k + 1)`, …, `n` of them, stored from `va` on. -/
def storeBytes (pagetable : Word) (f : Nat → BitVec 8) : Nat → Nat → Word → Mem → Except String Mem
  | 0, _, _, m => .ok m
  | n + 1, k, va, m => do
    let m ← storeByte pagetable m va (f k)
    storeBytes pagetable f n (k + 1) (va + 1) m

/-! ## Pages and programs -/

def assignPhysicalPage (s : State) (addr : Word) (owner : Int) : Int × State :=
  if addr &&& 0xFFF ≠ 0 ∨ memsizePhysical ≤ addr.toNat ∨ (s.pageinfo (pagenumber addr)).refcount ≠ 0
    then (-1, s)
  else (0, { s with pageinfo := Function.update s.pageinfo (pagenumber addr) ⟨owner, 1⟩ })

def mapPage (s : State) (pagetable addr : Word) : Except String (Int × State) :=
  match virtualMemoryMap (σ := Unit) pagetable addr addr 4096 permPWU none s.mem () with
  | .error e => .error e
  | .ok (r, m, _) => .ok (r, { s with mem := m })

/-- The loop of `program_load_segment` that allocates `n` pages. -/
def loadPages (pid : Int) (pagetable : Word) : Nat → Word → State → Except String (Int × State)
  | 0, _, s => .ok (0, s)
  | n + 1, addr, s =>
    match assignPhysicalPage s addr (int8 pid) with
    | (r, s) =>
      if r < 0 then .ok (-1, s)
      else match mapPage s pagetable addr with
        | .error e => .error e
        | .ok (r, s) => if r < 0 then .ok (-1, s) else loadPages pid pagetable n (addr + 4096) s

def programLoadSegment (b : Build) (s : State) (p : Nat) (ph : Segment) :
    Except String (Int × State) :=
  let endFile := ph.va + ph.filesz
  let endMem := ph.va + ph.memsz
  let va := pteAddr ph.va
  let pagetable := (s.procs p).pagetable
  match loadPages (s.procs p).pid pagetable ((endMem.toNat - va.toNat + 4095) / 4096) va s with
  | .error e => .error e
  | .ok (r, s) =>
    if r < 0 then .ok (-1, s)
    else do
      setPagetable b s pagetable
      let m ← storeBytes pagetable ph.data (endFile - va).toNat 0 va s.mem
      let m ← storeBytes pagetable (fun _ => 0) (endMem - endFile).toNat 0 endFile m
      let s := { s with mem := m }
      setPagetable b s s.kernelPagetable
      .ok (0, s)

def loadSegments (b : Build) (p : Nat) : List Segment → State → Except String (Int × State)
  | [], s => .ok (0, s)
  | ph :: phs, s =>
    if ph.isLoad then
      match programLoadSegment b s p ph with
      | .error e => .error e
      | .ok (r, s) => if r < 0 then .ok (-1, s) else loadSegments b p phs s
    else loadSegments b p phs s

def programLoad (b : Build) (s : State) (p : Nat) (program : Nat) :
    Except String (Int × State) := do
  check (decide (program < 6)) "programnumber >= 0 && programnumber < nprograms"
  check ((b.images program).magic == 0x464C457F) "eh->e_magic == ELF_MAGIC"
  let (r, s) ← loadSegments b p (b.images program).segments s
  if r < 0 then .ok (-1, s)
  else .ok (0, s.setRegisters p ((s.procs p).registers.setRip (b.images program).entry))

/-! ## Processes -/

def processInit (flags : Nat) : Registers :=
  let rflags : Word := 0x200
  let rflags := if flags.testBit 0 then rflags ||| 0x3000 else rflags
  let rflags := if flags.testBit 1 then rflags &&& ~~~0x200 else rflags
  { Registers.zero with cs := 0x10 ||| 3, fs := 0x20 ||| 3, gs := 0x20 ||| 3, ss := 0x20 ||| 3,
                        rflags := rflags }

def stackTop (pid : Nat) : Word := BitVec.ofNat 64 (procStartAddr + procSize * pid)

/-- `process_setup` before the program is loaded. -/
def setupEntry (s : State) (pid : Nat) : State :=
  let s := s.setProc pid { s.procs pid with
      registers := processInit 0, pagetable := s.kernelPagetable }
  let root := pagenumber s.kernelPagetable
  let info := s.pageinfo root
  { s with pageinfo := Function.update s.pageinfo root { info with
      refcount := int8 (info.refcount + 1) } }

/-- `process_setup` once the program is loaded. -/
def setupStack (s : State) (pid : Nat) : Except String State :=
  let s := s.setRegisters pid ((s.procs pid).registers.setRsp (stackTop pid))
  let stackPage := stackTop pid - 4096
  match mapPage (assignPhysicalPage s stackPage (int8 pid)).2 (s.procs pid).pagetable stackPage with
  | .error e => .error e
  | .ok (_, s) => .ok (s.setProc pid { s.procs pid with state := .runnable })

def processSetup (b : Build) (s : State) (pid program : Nat) : Except String State := do
  let (r, s) ← programLoad b (setupEntry s pid) pid program
  check (decide (0 ≤ r)) "r >= 0"
  setupStack s pid

def run (b : Build) (s : State) (p : Nat) : Except String State := do
  check (decide ((s.procs p).state = .runnable)) "p->p_state == P_RUNNABLE"
  let s := { s with current := p }
  setPagetable b s (s.procs p).pagetable
  .ok { s with control := .user }

/-! ## The kernel's entry -/

/-- `virtual_memory_init` up to the call that maps all of physical memory. -/
def initialTables (b : Build) (m : Mem) : Mem :=
  let m := (List.range 5).foldl (fun m k => m.clearPage (b.table k)) m
  let flags := pteP ||| pteW ||| pteU
  (((m.setEntry (b.table 0) 0 (b.table 1 ||| flags)).setEntry (b.table 1) 0
    (b.table 2 ||| flags)).setEntry
    (b.table 2) 0 (b.table 3 ||| flags)).setEntry (b.table 2) 1 (b.table 4 ||| flags)

def virtualMemoryInit (b : Build) (s : State) : Except String State :=
  let root := b.table 0
  match virtualMemoryMap (σ := Unit) root 0 0 (BitVec.ofNat 64 memsizePhysical) permPWU none
      (initialTables b s.mem) () with
  | .error e => .error e
  | .ok (_, m, _) => .ok { s with mem := m, kernelPagetable := root }

def physicalMemoryIsreserved (pa : Nat) : Bool :=
  pa == 0 || decide (0xA0000 ≤ pa) && decide (pa < 0x100000)

/-- The owner that `pageinfo_init` gives to the page at `addr`. -/
def initialOwner (b : Build) (addr : Nat) : Int :=
  if physicalMemoryIsreserved addr then poReserved
  else if kernelStartAddr ≤ addr ∧ addr < b.endAddr ∨ addr = kernelStackTop - 4096 then poKernel
  else poFree

def pageinfoInit (b : Build) (s : State) : State :=
  { s with pageinfo := fun pn =>
      if 0 ≤ pn ∧ pn < npages then
        let owner := initialOwner b (pn.toNat * 4096)
        ⟨owner, if owner = poFree then 0 else 1⟩
      else s.pageinfo pn }

def startup (b : Build) (command : Option String) : List (Nat × Nat) :=
  if b.forceFork then [(1, 4)]
  else if command = some "fork" then [(1, 4)]
  else if command = some "forkexit" then [(1, 5)]
  else [(1, 0), (2, 1), (3, 2), (4, 3)]

def setupAll (b : Build) : List (Nat × Nat) → State → Except String State
  | [], s => .ok s
  | (pid, program) :: l, s => do
    let s ← processSetup b s pid program
    setupAll b l s

def freeProc (pid : Nat) : Proc := ⟨pid, .zero, .free, 0⟩

def boot (b : Build) (command : Option String) (s : State) : Except String State := do
  let s ← virtualMemoryInit b s
  let s := pageinfoInit b s
  let s := { s with procs := freeProc }
  let s ← setupAll b (startup b command) s
  run b s 1

/-- `kernel(command)`, entered with whatever is in memory. What a panic leaves behind
is only ever overwritten, by the next boot. -/
def kernel (b : Build) (command : Option String) (s : State) : State :=
  match boot b command s with
  | .ok s' => s'
  | .error msg => { s with control := .failing msg }

end Csc412.Kernel
