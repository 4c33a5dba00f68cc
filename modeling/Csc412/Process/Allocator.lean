import Csc412.Kernel.AssignSound
import Csc412.Process.Random

/-!
# Programs on the kernel

`p-allocator.c`, and `p-fork.c` and `p-forkexit.c` up to their first `sys_fork`, which
the kernel does not have. Each process runs its program on the kernel's machine; the
timer may interrupt it before any of its steps. A program writes its own data and
stack, and `*heap_top` where the current page table lets it.
-/

namespace Csc412.Process

open Lib Kernel

def intSysFork : Word := 52
def allocSlowdown : Nat := 100

/-- What compiling and linking fixes: `NO_SLOWDOWN`, and `end` in each program. -/
structure Programs where
  noSlowdown : Bool
  endSym : Nat → Word

/-- The link scripts put the segments of a program at the start of its slot, without
a gap of a page, and `end` after the last one. -/
structure Programs.Linked (g : Programs) (b : Build) : Prop where
  covers : ∀ n < 6, ∀ pn, (b.images n).covers pn ↔ slotOf n / 4096 ≤ pn ∧
    pn * 4096 < (g.endSym n).toNat
  start : ∀ n < 6, slotOf n ≤ (g.endSym n).toNat
  below : ∀ n < 6, (g.endSym n).toNat ≤ slotOf n + procSize - 4096

inductive Pc where
  | getpid
  -- `sys_getpid` has returned
  | setup
  | draw
  | test
  | alloc
  -- `sys_page_alloc` has returned
  | check
  | store
  | yield
  -- the second loop
  | idle
  -- `p-forkexit.c` before it forks
  | forkDraw
  | forkYield
  | fork
  | forked
deriving DecidableEq, Repr

structure App where
  program : Nat
  pc : Pc
  p : Int
  heapTop : Word
  stackBottom : Word
  generator : Rand

def App.start (program : Nat) : App where
  program := program
  pc := if program = 4 then .fork else if program = 5 then .forkDraw else .getpid
  p := 0
  heapTop := 0
  stackBottom := 0
  generator := ⟨false, 0#32⟩

def roundDown (a n : Word) : Word := a - a % n

def roundUp (a n : Word) : Word := roundDown (a + n - 1) n

/-- A value of type `int` or `pid_t` that a system call returned. -/
def Registers.result (regs : Registers) : Int := (regs.rax.setWidth 32).toInt

/-- What a program does without a system call, apart from `*heap_top = p`. -/
def App.next (g : Programs) (regs : Registers) (a : App) : Option App :=
  match a.pc with
  | .setup => some { a with
      p := Registers.result regs
      generator := srand (BitVec.ofInt 32 (Registers.result regs))
      heapTop := roundUp (g.endSym a.program) 4096
      stackBottom := roundDown (regs.rsp - 1) 4096
      pc := .draw }
  | .draw =>
    if g.noSlowdown then some { a with pc := .test }
    else
      let (x, r) := rand a.generator
      some { a with generator := r, pc := if ((x % allocSlowdown : Nat) : Int) < a.p then .test
        else .yield }
  | .test => some { a with pc := if a.heapTop = a.stackBottom then .idle else .alloc }
  | .check => some { a with pc := if Registers.result regs < 0 then .idle else .store }
  | .forkDraw =>
    let (x, r) := rand a.generator
    some { a with generator := r, pc := if x % allocSlowdown = 0 then .fork else .forkYield }
  | _ => none

def App.stored (a : App) : App := { a with heapTop := a.heapTop + 4096, pc := .yield }

/-- The system call that a program makes, and where it goes on after it. -/
def App.call (regs : Registers) (a : App) : Option (Registers × App) :=
  match a.pc with
  | .getpid => some ({ regs with intno := intSysGetpid, err := 0 }, { a with pc := .setup })
  | .alloc => some ({ regs with rdi := a.heapTop, intno := intSysPageAlloc, err := 0 },
    { a with pc := .check })
  | .yield => some ({ regs with intno := intSysYield, err := 0 }, { a with pc := .draw })
  | .idle => some ({ regs with intno := intSysYield, err := 0 }, a)
  | .forkYield => some ({ regs with intno := intSysYield, err := 0 }, { a with pc := .forkDraw })
  | .fork => some ({ regs with intno := intSysFork, err := 0 }, { a with pc := .forked })
  | _ => none

/-! ## The kernel and its processes -/

/-- `regs` are the processor's registers while user code runs. -/
structure World where
  machine : State
  regs : Registers
  apps : Nat → App

def startApps (b : Build) (command : Option String) (p : Nat) : App :=
  App.start (((startup b command).lookup p).getD 0)

def World.start (b : Build) (command : Option String) (s : State) : World :=
  let s := kernel b command s
  ⟨s, (s.procs s.current).registers, startApps b command⟩

section
variable (w : World)

def World.app : App := w.apps w.machine.current

/-- User code runs on: it leaves memory `m` and registers `regs`. -/
def World.ran (a : App) (m : Mem) (regs : Registers) : World :=
  ⟨{ w.machine with mem := m }, regs, Function.update w.apps w.machine.current a⟩

def World.trapped (b : Build) (reg : Registers) (a : App) : World :=
  ⟨exceptionEntry b w.machine reg, w.regs, Function.update w.apps w.machine.current a⟩

/-- The kernel has taken step `l` to `s`; if it returns to a process, then with the
registers that it keeps for it. -/
def World.handled (b : Build) (l : Label) (s : State) : World where
  machine := s
  regs := if s.control = .user then (s.procs s.current).registers else w.regs
  apps := match l.reboot with
    | some argument => startApps b (some argument)
    | none => w.apps

end

/-- The stack of a process stays on one page. -/
def OnStack (p : Nat) (regs : Registers) : Prop :=
  (stackTop p).toNat - 4096 < regs.rsp.toNat ∧ regs.rsp.toNat ≤ (stackTop p).toNat

/-- Memory changes only on the pages of the program's segments and on its stack page,
and where the processor marks entries of the kernel's page tables. -/
def OwnWrite (b : Build) (program : Nat) (s : State) (m : Mem) : Prop :=
  ∀ pt i, m pt i = s.mem pt i ∨
    (∃ k < 5, pt = b.table k) ∧ s.mem pt i &&& pteP ≠ 0 ∧
    m pt i &&& ~~~pteAD = s.mem pt i &&& ~~~pteAD ∨
    ∃ pn, Takes b program pn ∧ pt = BitVec.ofNat 64 (pn * 4096)

def userLookup (s : State) (va : Word) : Vamapping :=
  virtualMemoryLookup s.mem (s.procs s.current).pagetable va

/-- User code may write at `va`. -/
def UserWritable (s : State) (va : Word) : Prop :=
  (userLookup s va).perm &&& (pteP ||| pteW ||| pteU) = pteP ||| pteW ||| pteU

inductive Step (b : Build) (g : Programs) (w : World) : Label → World → Prop
  | compute {a m regs} : w.machine.control = .user → w.app.next g w.regs = some a →
      OwnWrite b w.app.program w.machine m → OnStack w.machine.current regs →
      Step b g w (.user m) (w.ran a m regs)
  | store {m regs} : w.machine.control = .user → w.app.pc = .store →
    UserWritable w.machine w.app.heapTop →
      OwnWrite b w.app.program w.machine m → OnStack w.machine.current regs →
      Step b g w (.user (m.setByte (userLookup w.machine w.app.heapTop).pa
        (BitVec.ofInt 8 w.app.p)))
        (w.ran w.app.stored (m.setByte (userLookup w.machine w.app.heapTop).pa
          (BitVec.ofInt 8 w.app.p)) regs)
  | fault {err} : w.machine.control = .user → w.app.pc = .store →
    ¬ UserWritable w.machine w.app.heapTop →
      err &&& pferrUser ≠ 0 →
      Step b g w (.trap w.machine.current { w.regs with intno := intPagefault, err := err })
        (w.trapped b { w.regs with intno := intPagefault, err := err } w.app)
  | call {reg a} : w.machine.control = .user → w.app.call w.regs = some (reg, a) →
      Step b g w (.trap w.machine.current reg) (w.trapped b reg a)
  | timer : w.machine.control = .user →
      Step b g w (.trap w.machine.current { w.regs with intno := intTimer, err := 0 })
        (w.trapped b { w.regs with intno := intTimer, err := 0 } w.app)
  | kernel {l s} : w.machine.control ≠ .user → Kernel.Step b w.machine l s →
    Step b g w l (w.handled b l s)

end Csc412.Process
