import Csc412.Kernel.Interrupt
import Mathlib.Algebra.Group.Nat.Defs
import Mathlib.Data.List.Basic

/-!
# Interrupt frames

Every handler but one pushes the words that the processor has not. `default_int_handler`
pushes one word, which is right only where the processor pushes an error code. Otherwise
the frame is one word short, and all that the processor pushed is read a word too high.
-/

namespace Csc412.Kernel

/-! ## Words on the stack -/

def Holds (mem : Word → Word) (a : Word) (ws : List Word) : Prop :=
  ∀ k < ws.length, mem (a + BitVec.ofNat 64 (8 * k)) = ws.getD k 0

theorem add_sub_eight (a : Word) (k : Nat) :
    a - 8 + BitVec.ofNat 64 (8 * (k + 1)) = a + BitVec.ofNat 64 (8 * k) := by
  apply BitVec.eq_of_toNat_eq
  have h8 : (8 : Word).toNat = 8 := rfl
  simp only [BitVec.toNat_add, BitVec.toNat_sub, BitVec.toNat_ofNat, h8]
  have := a.isLt
  omega

theorem Holds.push {mem : Word → Word} {a : Word} {ws : List Word} (h : Holds mem a ws)
    (hlen : ws.length < 2 ^ 32) (v : Word) :
    Holds (Function.update mem (a - 8) v) (a - 8) (v :: ws) := by
  intro k hk
  rw [List.length_cons] at hk
  cases k with
  | zero =>
    rw [Nat.mul_zero, show a - 8 + BitVec.ofNat 64 0 = a - 8 from BitVec.add_zero _,
      Function.update_self]
    rfl
  | succ k =>
    have hne : a + BitVec.ofNat 64 (8 * k) ≠ a - 8 := by
      intro he
      have h8 : (8 : Word).toNat = 8 := rfl
      have := congrArg BitVec.toNat he
      simp only [BitVec.toNat_add, BitVec.toNat_sub, BitVec.toNat_ofNat, h8] at this
      have := a.isLt
      omega
    rw [add_sub_eight, Function.update_of_ne hne, List.getD_cons_succ]
    exact h k (by omega)

theorem Holds.single (mem : Word → Word) (a : Word) : Holds mem a [mem a] := by
  intro k hk
  rw [List.length_singleton] at hk
  obtain rfl : k = 0 := by omega
  rw [Nat.mul_zero, show a + BitVec.ofNat 64 0 = a from BitVec.add_zero _]
  rfl

theorem Holds.readRegisters {mem : Word → Word} {a : Word} {ws : List Word} (h : Holds mem a ws)
    (hlen : 24 ≤ ws.length) :
    readRegisters mem a = readRegisters (fun x => ws.getD (x.toNat / 8) 0) 0 := by
  have hword : ∀ k < 24, mem (a + BitVec.ofNat 64 (8 * k)) = ws.getD k 0 :=
    fun k hk => h k (by omega)
  have h0 : mem a = ws.getD 0 0 := by
    have := hword 0 (by decide)
    rwa [Nat.mul_zero, show a + BitVec.ofNat 64 0 = a from BitVec.add_zero _] at this
  unfold Kernel.readRegisters
  rw [h0, show mem (a + 8) = _ from hword 1 (by decide),
    show mem (a + 16) = _ from hword 2 (by decide),
    show mem (a + 24) = _ from hword 3 (by decide), show mem (a + 32) = _ from hword 4 (by decide),
    show mem (a + 40) = _ from hword 5 (by decide), show mem (a + 48) = _ from hword 6 (by decide),
    show mem (a + 56) = _ from hword 7 (by decide), show mem (a + 64) = _ from hword 8 (by decide),
    show mem (a + 72) = _ from hword 9 (by decide), show mem (a + 80) = _ from hword 10 (by decide),
    show mem (a + 88) = _ from hword 11 (by decide),
    show mem (a + 96) = _ from hword 12 (by decide),
    show mem (a + 104) = _ from hword 13 (by decide),
    show mem (a + 112) = _ from hword 14 (by decide),
    show mem (a + 120) = _ from hword 15 (by decide),
    show mem (a + 128) = _ from hword 16 (by decide),
    show mem (a + 136) = _ from hword 17 (by decide),
    show mem (a + 144) = _ from hword 18 (by decide),
    show mem (a + 152) = _ from hword 19 (by decide),
    show mem (a + 160) = _ from hword 20 (by decide),
    show mem (a + 168) = _ from hword 21 (by decide),
    show mem (a + 176) = _ from hword 22 (by decide),
    show mem (a + 184) = _ from hword 23 (by decide)]
  rfl

/-! ## Pushing -/

theorem run_append (c : Cpu) (is js : List Instr) : c.run (is ++ js) = (c.run is).run js :=
  List.foldl_append

theorem Cpu.push_holds {c : Cpu} {ws : List Word} (h : Holds c.mem c.rsp ws)
    (hlen : ws.length < 2 ^ 32) (v : Word) :
    Holds (c.push v).mem (c.push v).rsp (v :: ws) := h.push hlen v

@[simp] theorem Cpu.push_gpr (c : Cpu) (v : Word) : (c.push v).gpr = c.gpr := rfl
@[simp] theorem Cpu.push_seg (c : Cpu) (v : Word) : (c.push v).seg = c.seg := rfl

theorem value_congr {c c' : Cpu} (hgpr : c'.gpr = c.gpr) (hseg : c'.seg = c.seg) :
    c'.value = c.value := by
  funext o
  cases o with
  | imm n => rfl
  | gpr r => exact congrFun hgpr r
  | seg r => exact congrArg (BitVec.setWidth 64) (congrFun hseg r)

theorem run_pushq (os : List Operand) :
    ∀ (c : Cpu) (ws : List Word), Holds c.mem c.rsp ws → os.length + ws.length < 2 ^ 32 →
    let c' := c.run (os.map .pushq)
    Holds c'.mem c'.rsp ((os.map c.value).reverse ++ ws) ∧ c'.gpr = c.gpr ∧ c'.seg = c.seg := by
  induction os with
  | nil =>
    intro c ws h _
    exact ⟨h, rfl, rfl⟩
  | cons o os ih =>
    intro c ws h hlen
    rw [List.length_cons] at hlen
    obtain ⟨hholds, hgpr, hseg⟩ :=
      ih (c.push (c.value o)) (c.value o :: ws) (Cpu.push_holds h (by omega) _)
      (by rw [List.length_cons]; omega)
    have hvalue : (c.push (c.value o)).value = c.value := value_congr rfl rfl
    refine ⟨?_, hgpr, hseg⟩
    rw [hvalue] at hholds
    rw [show (List.map c.value (o :: os)).reverse ++ ws = (os.map c.value).reverse ++
      c.value o :: ws by simp]
    exact hholds

def Handler.operands : Handler → List Operand
  | .gpf => [.imm 13]
  | .pagefault => [.imm 14]
  | .timer => [.imm 0, .imm 32]
  | .sys n => [.imm 0, .imm (48 + n.val)]
  | .default => [.imm 0]

theorem Handler.code_eq (h : Handler) : h.code = h.operands.map .pushq := by
  cases h <;> rfl

/-- What the processor has pushed, on top of what is above. -/
def interruptWords (errorCode : Nat → Bool) (v : Nat) (err : Word) (csPad ssPad : BitVec 48)
    (c : Cpu) : List Word :=
  (if errorCode v then [err] else []) ++
    [c.rip, csPad ++ c.cs, c.rflags, c.rsp, ssPad ++ c.ss, c.mem (interruptStack c)]

section
variable (errorCode : Nat → Bool) (v : Nat) (err : Word) (csPad ssPad : BitVec 48) (c : Cpu)

theorem interrupt_holds :
    let c' := c.interrupt errorCode v err csPad ssPad
    Holds c'.mem c'.rsp (interruptWords errorCode v err csPad ssPad c) ∧ c'.gpr = c.gpr ∧
        c'.seg = c.seg := by
  intro c'
  obtain ⟨d, hd⟩ : ∃ d : Cpu, d = { c with rsp := interruptStack c } := ⟨_, rfl⟩
  have hc' : c' = if errorCode v then
      (((((d.push (ssPad ++ c.ss)).push c.rsp).push c.rflags).push (csPad ++ c.cs)).push c.rip).push
        err
    else ((((d.push (ssPad ++ c.ss)).push c.rsp).push c.rflags).push (csPad ++ c.cs)).push
        c.rip := by
    rw [hd]
    rfl
  have h₀ : Holds d.mem d.rsp [c.mem (interruptStack c)] := by
    rw [hd]
    exact .single c.mem (interruptStack c)
  have h₁ := Cpu.push_holds h₀ (by simp) (ssPad ++ c.ss)
  have h₂ := Cpu.push_holds h₁ (by simp) c.rsp
  have h₃ := Cpu.push_holds h₂ (by simp) c.rflags
  have h₄ := Cpu.push_holds h₃ (by simp) (csPad ++ c.cs)
  have h₅ := Cpu.push_holds h₄ (by simp) c.rip
  have h₆ := Cpu.push_holds h₅ (by simp) err
  have hgpr : d.gpr = c.gpr := by rw [hd]
  have hseg : d.seg = c.seg := by rw [hd]
  rw [hc', interruptWords]
  by_cases he : errorCode v = true
  · rw [if_pos he, if_pos he, List.singleton_append]
    exact ⟨h₆, by simp only [Cpu.push_gpr, hgpr], by simp only [Cpu.push_seg, hseg]⟩
  · rw [if_neg he, if_neg he, List.nil_append]
    exact ⟨h₅, by simp only [Cpu.push_gpr, hgpr], by simp only [Cpu.push_seg, hseg]⟩

theorem interruptWords_length : (interruptWords errorCode v err csPad ssPad c).length ≤ 7 := by
  unfold interruptWords
  by_cases he : errorCode v = true
  · simp [he]
  · simp [he]

def frameWords (h : Handler) : List Word :=
  (savedOperands.map c.value).reverse ++
    ((h.operands.map c.value).reverse ++ interruptWords errorCode v err csPad ssPad c)

theorem enter_holds (h : Handler) :
    let c' := c.enter errorCode v err csPad ssPad h
    Holds c'.mem (c'.gpr .rdi) (frameWords errorCode v err csPad ssPad c h) := by
  intro c'
  obtain ⟨h₁, hgpr₁, hseg₁⟩ := interrupt_holds errorCode v err csPad ssPad c
  have hlen := interruptWords_length errorCode v err csPad ssPad c
  have hops : h.operands.length ≤ 2 := by cases h <;> simp [Handler.operands]
  obtain ⟨h₂, hgpr₂, hseg₂⟩ := run_pushq h.operands _ _ h₁ (by omega)
  have hlen₂ : ((h.operands.map (c.interrupt errorCode v err csPad ssPad).value).reverse ++
      interruptWords errorCode v err csPad ssPad c).length ≤ 9 := by
    rw [List.length_append, List.length_reverse, List.length_map]
    omega
  obtain ⟨h₃, hgpr₃, hseg₃⟩ := run_pushq savedOperands _ _ h₂ (by
    have : savedOperands.length = 17 := rfl
    omega)
  rw [value_congr (hgpr₂.trans hgpr₁) (hseg₂.trans hseg₁), value_congr hgpr₁ hseg₁] at h₃
  have hrdi : ∀ d : Cpu, (d.exec (.movRspTo .rdi)).mem = d.mem ∧
      (d.exec (.movRspTo .rdi)).gpr .rdi = d.rsp :=
    fun d => ⟨rfl, by simp [Cpu.exec]⟩
  have hrun : c' = (((c.interrupt errorCode v err csPad ssPad).run (h.operands.map .pushq)).run
      (savedOperands.map .pushq)).exec (.movRspTo .rdi) := by
    unfold c' Cpu.enter genericExceptionHandler
    rw [h.code_eq, run_append]
    rfl
  rw [hrun, (hrdi _).1, (hrdi _).2]
  exact h₃

end

/-! ## Frame and context -/

/-- The context that a frame describes. -/
def Registers.context (f : Registers) : Context where
  gpr
    | .rax => f.rax | .rcx => f.rcx | .rdx => f.rdx | .rbx => f.rbx | .rbp => f.rbp | .rsi => f.rsi
    | .rdi => f.rdi
    | .r8 => f.r8 | .r9 => f.r9 | .r10 => f.r10 | .r11 => f.r11 | .r12 => f.r12 | .r13 => f.r13
    | .r14 => f.r14
    | .r15 => f.r15
  seg
    | .fs => f.fs.setWidth 16 | .gs => f.gs.setWidth 16
  rip := f.rip
  cs := f.cs
  rflags := f.rflags
  rsp := f.rsp
  ss := f.ss

section
variable (c : Cpu)

@[simp] theorem exec_movToRsp (r : Gpr) :
    (c.exec (.movToRsp r)).rsp = c.gpr r ∧ (c.exec (.movToRsp r)).mem = c.mem :=
  ⟨rfl, rfl⟩

@[simp] theorem exec_popGpr (r : Gpr) :
    (c.exec (.popGpr r)).mem = c.mem ∧ (c.exec (.popGpr r)).rsp = c.rsp + 8 ∧
    (c.exec (.popGpr r)).gpr = Function.update c.gpr r (c.mem c.rsp) := ⟨rfl, rfl, rfl⟩

@[simp] theorem exec_popSeg (r : Seg) :
    (c.exec (.popSeg r)).mem = c.mem ∧ (c.exec (.popSeg r)).rsp = c.rsp + 8 ∧
    (c.exec (.popSeg r)).gpr = c.gpr ∧ (c.exec (.popSeg r)).seg = Function.update c.seg r
    ((c.mem c.rsp).setWidth 16) :=
  ⟨rfl, rfl, rfl, rfl⟩

@[simp] theorem exec_addRsp (n : Nat) : (c.exec (.addRsp n)).mem = c.mem ∧
    (c.exec (.addRsp n)).rsp = c.rsp + BitVec.ofNat 64 n ∧ (c.exec (.addRsp n)).gpr = c.gpr ∧
    (c.exec (.addRsp n)).seg = c.seg := ⟨rfl, rfl, rfl, rfl⟩

@[simp] theorem exec_iretq : (c.exec .iretq).toContext =
    { c.toContext with
      rip := c.mem c.rsp
      cs := (c.mem (c.rsp + 8)).setWidth 16
      rflags := c.mem (c.rsp + 16)
      rsp := c.mem (c.rsp + 24)
      ss := (c.mem (c.rsp + 32)).setWidth 16 } := rfl

theorem exceptionReturn_context :
    (c.run exceptionReturn).toContext = (readRegisters c.mem (c.gpr .rdi)).context := by
  simp only [Cpu.run, exceptionReturn, List.foldl_cons, List.foldl_nil, exec_iretq, exec_addRsp,
    exec_popSeg, exec_popGpr, exec_movToRsp, BitVec.add_assoc]
  simp only [Registers.context, readRegisters, Context.mk.injEq]
  refine ⟨?_, ?_, rfl, rfl, rfl, rfl, rfl⟩
  · funext r
    cases r <;> simp [Function.update]
  · funext r
    cases r <;> simp [Function.update]

end

/-! ## Faithful frames -/

/-- The vectors for which the processor pushes an error code: 13, 14 and 17 are among
them, those of hardware and software interrupts are not. -/
structure Architecture (errorCode : Nat → Bool) : Prop where
  gpf : errorCode 13 = true
  pagefault : errorCode 14 = true
  alignment : errorCode 17 = true
  external : ∀ v, 32 ≤ v → errorCode v = false

/-- The frame passed to `exception` holds the interrupted values, and `exception_return`
restores them from it, wherever it has been copied to. -/
def FrameFaithful (errorCode : Nat → Bool) (v : Nat) (err : Word) (csPad ssPad : BitVec 48)
    (c : Cpu) (h : Handler) : Prop :=
  let c' := c.enter errorCode v err csPad ssPad h
  let frame := readRegisters c'.mem (c'.gpr .rdi)
  frame.context = c.toContext ∧
    ∀ d : Cpu, readRegisters d.mem (d.gpr .rdi) = frame → (d.run exceptionReturn).toContext =
      c.toContext

/-- The words the processor pushes are equal one by one to those a word higher. -/
def Coincide (csPad ssPad : BitVec 48) (c : Cpu) : Prop :=
  c.rip = csPad ++ c.cs ∧ c.cs = c.rflags.setWidth 16 ∧ c.rflags = c.rsp ∧ c.rsp = ssPad ++ c.ss ∧
    c.ss = (c.mem (interruptStack c)).setWidth 16

theorem foldl_gates (l : List (Fin 16)) : ∀ (idt : Nat → Option Handler) (v : Nat) (h : Handler),
    l.foldl (fun idt i => Function.update idt (intSys.toNat + i.val) (some (.sys i))) idt v =
      some h →
      idt v = some h ∨ ∃ i : Fin 16, v = intSys.toNat + i.val ∧ h = .sys i := by
  induction l with
  | nil =>
    intro idt v h hv
    exact .inl hv
  | cons i l ih =>
    intro idt v h hv
    rcases ih _ v h hv with hi | hi
    · simp only [Function.update_apply] at hi
      split at hi
      · rename_i hvi
        exact .inr ⟨i, hvi, (Option.some.inj hi).symm⟩
      · exact .inl hi
    · exact .inr hi

theorem gate_cases {v : Nat} {h : Handler} (hv : interruptDescriptors v = some h) :
    (∃ i : Fin 16, v = intSys.toNat + i.val ∧ h = .sys i) ∨ v = intPagefault.toNat ∧
    h = .pagefault ∨ v = intGpf.toNat ∧ h = .gpf ∨
      v = intTimer.toNat ∧ h = .timer ∨ h = .default := by
  rcases foldl_gates _ _ v h hv with hv | hv
  · rw [Function.update_apply, Function.update_apply, Function.update_apply] at hv
    split at hv
    · exact .inr (.inl ⟨by assumption, (Option.some.inj hv).symm⟩)
    split at hv
    · exact .inr (.inr (.inl ⟨by assumption, (Option.some.inj hv).symm⟩))
    split at hv
    · exact .inr (.inr (.inr (.inl ⟨by assumption, (Option.some.inj hv).symm⟩)))
    split at hv
    · exact .inr (.inr (.inr (.inr (Option.some.inj hv).symm)))
    · cases hv
  · exact .inl hv

theorem gate_pushes {errorCode : Nat → Bool} (harch : Architecture errorCode) {v : Nat}
    {h : Handler} (hv : interruptDescriptors v = some h) (hne : h ≠ .default) :
    h.operands.length + (if errorCode v then 1 else 0) = 2 := by
  rcases gate_cases hv with ⟨i, rfl, rfl⟩ | ⟨rfl, rfl⟩ | ⟨rfl, rfl⟩ | ⟨rfl, rfl⟩ | rfl
  · have hsys : intSys.toNat = 48 := rfl
    rw [harch.external _ (by omega)]
    rfl
  · rw [show errorCode intPagefault.toNat = true from harch.pagefault]
    rfl
  · rw [show errorCode intGpf.toNat = true from harch.gpf]
    rfl
  · rw [harch.external intTimer.toNat (by decide)]
    rfl
  · exact absurd rfl hne

section
variable {errorCode : Nat → Bool} {v : Nat} {err : Word} {csPad ssPad : BitVec 48} {c : Cpu}
    {h : Handler}

theorem enter_frame (hlen : 24 ≤ (frameWords errorCode v err csPad ssPad c h).length) :
    let c' := c.enter errorCode v err csPad ssPad h
    readRegisters c'.mem (c'.gpr .rdi) =
      readRegisters (fun x => (frameWords errorCode v err csPad ssPad c h).getD
          (x.toNat / 8) 0) 0 :=
  (enter_holds errorCode v err csPad ssPad c h).readRegisters hlen

theorem append_setWidth (pad : BitVec 48) (s : BitVec 16) : (pad ++ s : Word).setWidth 16 = s := by
  apply BitVec.eq_of_getLsbD_eq
  intro i hi
  rw [BitVec.getLsbD_setWidth, BitVec.getLsbD_append]
  simp [hi]

theorem setWidth_setWidth_seg (s : BitVec 16) : (s.setWidth 64).setWidth 16 = s := by
  apply BitVec.eq_of_toNat_eq
  rw [BitVec.toNat_setWidth, BitVec.toNat_setWidth]
  have := s.isLt
  omega

theorem frameFaithful_iff_context :
    FrameFaithful errorCode v err csPad ssPad c h ↔
      let c' := c.enter errorCode v err csPad ssPad h
      (readRegisters c'.mem (c'.gpr .rdi)).context = c.toContext := by
  constructor
  · intro hf
    exact hf.1
  · intro hf
    refine ⟨hf, fun d hd => ?_⟩
    rw [exceptionReturn_context, hd]
    exact hf

def savedWords (c : Cpu) : List Word := (savedOperands.map c.value).reverse

theorem context_eq (a b rip cs rflags rsp ss : Word) (rest : List Word) :
    (readRegisters (fun x =>
      (savedWords c ++ a :: b :: rip :: cs :: rflags :: rsp :: ss :: rest).getD (x.toNat / 8) 0)
      0).context = ⟨c.gpr, c.seg, rip, cs.setWidth 16, rflags, rsp, ss.setWidth 16⟩ := by
  simp only [Registers.context, readRegisters, Context.mk.injEq]
  refine ⟨?_, ?_, rfl, rfl, rfl, rfl, rfl⟩
  · funext r
    cases r <;> rfl
  · funext r
    cases r
    · exact setWidth_setWidth_seg _
    · exact setWidth_setWidth_seg _

theorem faithful_of_two (hlen : h.operands.length + (if errorCode v then 1 else 0) = 2) :
    FrameFaithful errorCode v err csPad ssPad c h := by
  obtain ⟨a, b, hab⟩ : ∃ a b,
      (h.operands.map c.value).reverse ++ (if errorCode v then [err] else []) = [a, b] := by
    apply List.length_eq_two.mp
    rw [List.length_append, List.length_reverse, List.length_map, ← hlen]
    split <;> rfl
  have hwords : frameWords errorCode v err csPad ssPad c h =
    savedWords c ++ a :: b :: c.rip :: (csPad ++ c.cs) ::
      c.rflags :: c.rsp :: (ssPad ++ c.ss) :: [c.mem (interruptStack c)] := by
    rw [frameWords, interruptWords, ← List.append_assoc ((h.operands.map c.value).reverse), hab]
    rfl
  rw [frameFaithful_iff_context]
  simp only
  rw [enter_frame (by rw [hwords]; simp [savedWords, savedOperands]), hwords, context_eq,
    append_setWidth, append_setWidth]

theorem faithful_of_one (hlen : h.operands.length + (if errorCode v then 1 else 0) = 1) :
    FrameFaithful errorCode v err csPad ssPad c h ↔ Coincide csPad ssPad c := by
  obtain ⟨a, ha⟩ : ∃ a, (h.operands.map c.value).reverse ++ (if errorCode v then [err] else []) =
      [a] := by
    apply List.length_eq_one_iff.mp
    rw [List.length_append, List.length_reverse, List.length_map, ← hlen]
    split <;> rfl
  have hwords : frameWords errorCode v err csPad ssPad c h =
    savedWords c ++ a :: c.rip :: (csPad ++ c.cs) ::
      c.rflags :: c.rsp :: (ssPad ++ c.ss) :: c.mem (interruptStack c) :: [] := by
    rw [frameWords, interruptWords, ← List.append_assoc ((h.operands.map c.value).reverse), ha]
    rfl
  rw [frameFaithful_iff_context]
  simp only
  rw [enter_frame (by rw [hwords]; simp [savedWords, savedOperands]), hwords, context_eq,
    Context.mk.injEq]
  unfold Coincide
  constructor
  · intro ⟨_, _, hrip, hcs, hrflags, hrsp, hss⟩
    exact ⟨hrip.symm, hcs.symm, hrflags.symm, hrsp.symm, hss.symm⟩
  · intro ⟨hrip, hcs, hrflags, hrsp, hss⟩
    exact ⟨rfl, rfl, hrip.symm, hcs.symm, hrflags.symm, hrsp.symm, hss.symm⟩

/-- The exact condition for every entry point: it is not `default_int_handler`, or the
processor pushes an error code. -/
theorem interrupt_frame_iff (harch : Architecture errorCode)
    (hv : interruptDescriptors v = some h) :
    FrameFaithful errorCode v err csPad ssPad c h ↔
      h ≠ .default ∨ errorCode v = true ∨ Coincide csPad ssPad c := by
  by_cases hne : h = .default
  · subst hne
    by_cases he : errorCode v = true
    · have hlen : Handler.default.operands.length + (if errorCode v then 1 else 0) = 2 := by
        rw [if_pos he]
        rfl
      exact iff_of_true (faithful_of_two hlen) (.inr (.inl he))
    · have hlen : Handler.default.operands.length + (if errorCode v then 1 else 0) = 1 := by
        rw [if_neg he]
        rfl
      rw [faithful_of_one hlen]
      constructor
      · intro hco
        exact .inr (.inr hco)
      · intro hcases
        exact (hcases.resolve_left (not_not.mpr rfl)).resolve_left he
  · exact iff_of_true (faithful_of_two (gate_pushes harch hv hne)) (.inl hne)

end

/-- The exceptions that push an error code. -/
def pushesErrorCode (v : Nat) : Bool := [8, 10, 11, 12, 13, 14, 17, 21, 29, 30].contains v

theorem pushesErrorCode_architecture : Architecture pushesErrorCode := by
  refine ⟨by decide, by decide, by decide, ?_⟩
  intro v hv
  unfold pushesErrorCode
  simp
  omega

def userCpu : Cpu where
  gpr := fun _ => 0
  seg := fun _ => 0x23
  rip := 0x100000
  cs := 0x13
  rflags := 0x200
  rsp := 0x140000
  ss := 0x23
  mem := fun _ => 0

theorem interrupt_frame_iff_timer : FrameFaithful pushesErrorCode 32 0 0 0 userCpu .timer :=
  (interrupt_frame_iff pushesErrorCode_architecture (by decide)).mpr (.inl (by decide))

/-- On vector 33 the frame's `reg_rip` is the code segment. -/
theorem interrupt_frame_short :
    Architecture pushesErrorCode ∧ interruptDescriptors 33 = some .default ∧
    ¬ FrameFaithful pushesErrorCode 33 0 0 0 userCpu .default := by
  refine ⟨pushesErrorCode_architecture, by decide, fun hf => ?_⟩
  obtain ⟨hrip, -⟩ := (faithful_of_one (by decide)).mp hf
  exact absurd hrip (by decide)

end Csc412.Kernel
