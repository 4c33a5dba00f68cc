import Csc412.Kernel.Boot
import Csc412.Lib.Run

/-!
# Exceptions and scheduling

`exception`, `schedule` and `check_keyboard` as transitions of one machine. An
exception is cut at its poll of the keyboard, and the loop of `schedule` takes one
step for each process it looks at and one for each poll, so every key press is a
step of its own and so is every soft reboot. Between exceptions the running process
may write any page that is not the kernel's.
-/

namespace Csc412.Kernel

open Lib

def intPagefault : Word := 14
def intTimer : Word := 32
def intSysPanic : Word := 48
def intSysGetpid : Word := 49
def intSysYield : Word := 50
def intSysPageAlloc : Word := 51

def pferrUser : Word := 4

def orFail (s : State) : Except String State → State
  | .ok s' => s'
  | .error msg => { s with control := .failing msg }

/-! ## The keyboard -/

inductive KeyAction where
  | none
  | reboot (argument : String)
  | poweroff
  deriving DecidableEq, Repr

def checkKeyboard (c : Int) : KeyAction :=
  if c = 97 ∨ c = 102 ∨ c = 101 then
    .reboot (if c = 97 then "allocator" else if c = 101 then "forkexit" else "fork")
  else if c = 3 ∨ c = 113 then .poweroff
  else .none

/-- The temporary page table at `0x8000`, then `entry_from_boot`. -/
def softReboot (b : Build) (s : State) (argument : String) : State :=
  let flags := pteP ||| pteW ||| pteU
  let m := ((s.mem.clearPage 0x8000).clearPage 0x9000).clearPage 0xA000
  let m := ((m.setEntry 0x8000 0 (0x9000 ||| flags)).setEntry 0x9000 0 (0xA000 ||| flags)).setEntry
    0xA000 0 (flags ||| 128)
  kernel b (some argument) { s with mem := m }

/-! ## Exceptions -/

def exceptionEntry (b : Build) (s : State) (reg : Registers) : State :=
  let s := s.setRegisters s.current reg
  orFail s do
    setPagetable b s s.kernelPagetable
    if reg.intno ≠ intPagefault ∨ reg.err &&& pferrUser ≠ 0 then
      checkVirtualMemory b s
      let s ← memshowVirtualAnimate s
      if b.tickLimit ≠ 0 ∧ s.ticks.toNat = b.tickLimit then .ok { s with control := .off }
      else
        if b.tickLimit ≠ 0 ∧ reg.intno = intTimer ∧ s.ticks.toNat % 100 = 0 then memdumpVirtualAll s
        .ok { s with control := .handling }
    else .ok { s with control := .handling }

def schedule (s : State) : State := { s with control := .scheduling (s.procs s.current).pid.toNat }

/-- The end of `exception`: back to the current process, or run something else. -/
def resume (b : Build) (s : State) : Except String State :=
  if (s.procs s.current).state = .runnable then run b s s.current else .ok (schedule s)

def pageAlloc (s : State) (addr : Word) : Except String State :=
  let proc := s.procs s.current
  match assignPhysicalPage s addr (int8 proc.pid) with
  | (r, s) =>
    match (if 0 ≤ r then (mapPage s proc.pagetable addr).map Prod.snd else .ok s) with
    | .error e => .error e
    | .ok s => .ok (s.setRegisters s.current
      ((s.procs s.current).registers.setRax (BitVec.ofInt 64 r)))

/-- The `switch` of `exception` and what follows it. -/
def dispatch (b : Build) (s : State) : Except String State :=
  let proc := s.procs s.current
  let reg := proc.registers
  if reg.intno = intSysPanic then .error "PANIC"
  else if reg.intno = intSysGetpid then
    resume b (s.setRegisters s.current (reg.setRax (BitVec.ofInt 64 proc.pid)))
  else if reg.intno = intSysYield then .ok (schedule s)
  else if reg.intno = intSysPageAlloc then
    match pageAlloc s reg.rdi with
    | .error e => .error e
    | .ok s => resume b s
  else if reg.intno = intTimer then .ok (schedule { s with ticks := s.ticks + 1 })
  else if reg.intno = intPagefault then
    if reg.err &&& pferrUser = 0 then .error "Kernel page fault for %p (%s %s, rip=%p)!\n"
    else resume b (s.setProc s.current { proc with state := .broken })
  else .error "Unexpected exception %d!\n"

def afterPoll (b : Build) (s : State) : State :=
  match s.control with
  | .handling => orFail s (dispatch b s)
  | .polling pid => { s with control := .scheduling pid }
  | _ => s

def poll (b : Build) (s : State) (key : Int) : State :=
  match checkKeyboard key with
  | .none => afterPoll b s
  | .reboot argument => softReboot b s argument
  | .poweroff => { s with control := .off }

/-! ## The machine -/

inductive Label where
  -- user code and the processor leave memory as given
  | user (m : Mem)
  | trap (pid : Nat) (reg : Registers)
  | poll (key : Int)
  -- `schedule` looks at a process that is not runnable, or picks one that is
  | skip (pid : Nat)
  | pick (pid : Nat)
  -- `fail` powers off at once when there is a `TICK_LIMIT`
  | halt

def pteAD : Word := 32 ||| 64

def State.kernelOwns (s : State) (pt : Word) : Prop := (s.pageinfo (pagenumber pt)).owner = poKernel

/-- User code leaves the kernel's pages alone; the processor may mark present
entries there as accessed or dirtied. -/
def UserWrite (s : State) (m : Mem) : Prop :=
  ∀ pt i, s.kernelOwns pt → m pt i = s.mem pt i ∨
    s.mem pt i &&& pteP ≠ 0 ∧ m pt i &&& ~~~pteAD = s.mem pt i &&& ~~~pteAD

def nextPid (pid : Nat) : Nat := (pid + 1) % nproc

inductive Step (b : Build) : State → Label → State → Prop
  | user {s m} : s.control = .user → UserWrite s m → Step b s (.user m) { s with mem := m }
  | trap {s} (reg) : s.control = .user → Step b s (.trap s.current reg) (exceptionEntry b s reg)
  | poll {s} (key) : s.control = .handling ∨ (∃ pid, s.control = .polling pid) →
      Step b s (.poll key) (poll b s key)
  | halt {s msg} : s.control = .failing msg → b.tickLimit ≠ 0 →
    Step b s .halt { s with control := .off }
  | fail {s msg} (key) : s.control = .failing msg → b.tickLimit = 0 →
    Step b s (.poll key) (poll b s key)
  | skip {s pid} : s.control = .scheduling pid → (s.procs (nextPid pid)).state ≠ .runnable →
      Step b s (.skip (nextPid pid)) { s with control := .polling (nextPid pid) }
  | pick {s pid} : s.control = .scheduling pid → (s.procs (nextPid pid)).state = .runnable →
      Step b s (.pick (nextPid pid)) (orFail s (run b s (nextPid pid)))

def Label.reboot : Label → Option String
  | .poll key => match checkKeyboard key with
    | .reboot argument => some argument
    | _ => none
  | _ => none

end Csc412.Kernel
