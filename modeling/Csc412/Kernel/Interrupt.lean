import Csc412.Kernel.Exception

/-!
# Interrupt entry and return

The handlers of `k-exception.S`, the interrupt descriptors that `segments_init` writes
and what the processor pushes. Memory is read and written in 8-byte words. `mem` holds
the word at an address; the stack is aligned when an interrupt is delivered, so no two of
them overlap.
-/

namespace Csc412.Kernel

/-! ## The processor -/

inductive Gpr where
  | rax | rcx | rdx | rbx | rbp | rsi | rdi | r8 | r9 | r10 | r11 | r12 | r13 | r14 | r15
  deriving DecidableEq, Repr

inductive Seg where
  | fs | gs
  deriving DecidableEq, Repr

/-- What a program has in its registers. -/
structure Context where
  gpr : Gpr → Word
  seg : Seg → BitVec 16
  rip : Word
  cs : BitVec 16
  rflags : Word
  rsp : Word
  ss : BitVec 16

structure Cpu extends Context where
  mem : Word → Word

def Cpu.push (c : Cpu) (v : Word) : Cpu :=
  { c with rsp := c.rsp - 8, mem := Function.update c.mem (c.rsp - 8) v }

/-- What `pushq` takes: a constant or a register. -/
inductive Operand where
  | imm (n : Nat)
  | gpr (r : Gpr)
  | seg (r : Seg)
  deriving DecidableEq, Repr

def Cpu.value (c : Cpu) : Operand → Word
  | .imm n => BitVec.ofNat 64 n
  | .gpr r => c.gpr r
  | .seg r => (c.seg r).setWidth 64

inductive Instr where
  | pushq (o : Operand)
  | popGpr (r : Gpr)
  | popSeg (r : Seg)
  | movRspTo (r : Gpr)
  | movToRsp (r : Gpr)
  | addRsp (n : Nat)
  | iretq
  deriving DecidableEq, Repr

def Cpu.exec (c : Cpu) : Instr → Cpu
  | .pushq o => c.push (c.value o)
  | .popGpr r => { c with gpr := Function.update c.gpr r (c.mem c.rsp), rsp := c.rsp + 8 }
  | .popSeg r => { c with seg := Function.update c.seg r ((c.mem c.rsp).setWidth 16),
                          rsp := c.rsp + 8 }
  | .movRspTo r => { c with gpr := Function.update c.gpr r c.rsp }
  | .movToRsp r => { c with rsp := c.gpr r }
  | .addRsp n => { c with rsp := c.rsp + BitVec.ofNat 64 n }
  | .iretq =>
    { c with
      rip := c.mem c.rsp
      cs := (c.mem (c.rsp + 8)).setWidth 16
      rflags := c.mem (c.rsp + 16)
      rsp := c.mem (c.rsp + 24)
      ss := (c.mem (c.rsp + 32)).setWidth 16 }

def Cpu.run (c : Cpu) (is : List Instr) : Cpu := is.foldl Cpu.exec c

/-! ## The handlers -/

inductive Handler where
  | gpf
  | pagefault
  | timer
  | sys (n : Fin 16)
  | default
  deriving DecidableEq, Repr

/-- A handler up to its jump to `generic_exception_handler`. -/
def Handler.code : Handler → List Instr
  | .gpf => [.pushq (.imm 13)]
  | .pagefault => [.pushq (.imm 14)]
  | .timer => [.pushq (.imm 0), .pushq (.imm 32)]
  | .sys n => [.pushq (.imm 0), .pushq (.imm (48 + n.val))]
  | .default => [.pushq (.imm 0)]

def savedOperands : List Operand :=
  [.seg .gs, .seg .fs, .gpr .r15, .gpr .r14, .gpr .r13, .gpr .r12, .gpr .r11, .gpr .r10, .gpr .r9,
    .gpr .r8, .gpr .rdi, .gpr .rsi, .gpr .rbp, .gpr .rbx, .gpr .rdx, .gpr .rcx, .gpr .rax]

/-- `generic_exception_handler` up to its call of `exception`. -/
def genericExceptionHandler : List Instr := savedOperands.map .pushq ++ [.movRspTo .rdi]

def exceptionReturn : List Instr :=
  [.movToRsp .rdi, .popGpr .rax, .popGpr .rcx, .popGpr .rdx, .popGpr .rbx, .popGpr .rbp,
    .popGpr .rsi, .popGpr .rdi, .popGpr .r8, .popGpr .r9, .popGpr .r10, .popGpr .r11, .popGpr .r12,
    .popGpr .r13, .popGpr .r14, .popGpr .r15, .popSeg .fs, .popSeg .gs, .addRsp 16, .iretq]

def readRegisters (mem : Word → Word) (a : Word) : Registers where
  rax := mem a
  rcx := mem (a + 8)
  rdx := mem (a + 16)
  rbx := mem (a + 24)
  rbp := mem (a + 32)
  rsi := mem (a + 40)
  rdi := mem (a + 48)
  r8 := mem (a + 56)
  r9 := mem (a + 64)
  r10 := mem (a + 72)
  r11 := mem (a + 80)
  r12 := mem (a + 88)
  r13 := mem (a + 96)
  r14 := mem (a + 104)
  r15 := mem (a + 112)
  fs := mem (a + 120)
  gs := mem (a + 128)
  intno := mem (a + 136)
  err := mem (a + 144)
  rip := mem (a + 152)
  cs := (mem (a + 160)).setWidth 16
  padding2 := (mem (a + 160)).extractLsb' 16 48
  rflags := mem (a + 168)
  rsp := mem (a + 176)
  ss := (mem (a + 184)).setWidth 16
  padding3 := (mem (a + 184)).extractLsb' 16 48

/-! ## The interrupt descriptors -/

def intGpf : Word := 13
def intSys : Word := 48

/-- The gates after `segments_init`. -/
def interruptDescriptors : Nat → Option Handler :=
  let idt : Nat → Option Handler := fun i => if 16 ≤ i ∧ i < 256 then some .default else none
  let idt := Function.update idt intTimer.toNat (some .timer)
  let idt := Function.update idt intGpf.toNat (some .gpf)
  let idt := Function.update idt intPagefault.toNat (some .pagefault)
  (List.finRange 16).foldl (fun idt i => Function.update idt (intSys.toNat + i.val)
    (some (.sys i))) idt

/-- The stack that the processor switches to: the task's from user mode, otherwise the
one in use, aligned. -/
def interruptStack (c : Cpu) : Word :=
  if c.cs &&& 3 = 3 then BitVec.ofNat 64 kernelStackTop else c.rsp &&& ~~~0xF

/-- What the processor pushes when interrupt `v` is delivered. The upper bits of the two
selectors, `csPad` and `ssPad`, and the error code are arbitrary. -/
def Cpu.interrupt (errorCode : Nat → Bool) (v : Nat) (err : Word) (csPad ssPad : BitVec 48)
    (c : Cpu) : Cpu :=
  let c' := { c with rsp := interruptStack c }
  let c' := ((((c'.push (ssPad ++ c.ss)).push c.rsp).push c.rflags).push (csPad ++ c.cs)).push c.rip
  if errorCode v then c'.push err else c'

/-- Interrupt `v` up to the call of `exception`, whose argument is in `%rdi`. -/
def Cpu.enter (errorCode : Nat → Bool) (v : Nat) (err : Word) (csPad ssPad : BitVec 48) (c : Cpu)
    (h : Handler) : Cpu :=
  ((c.interrupt errorCode v err csPad ssPad).run h.code).run genericExceptionHandler

end Csc412.Kernel
