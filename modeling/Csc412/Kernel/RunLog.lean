import Csc412.Kernel.GradeSound

/-!
# The log of a run

What `exception` and `panic` log at a step of the kernel's machine. A log is made of whole
lines, so the timeline of a longer log goes on from the timeline of the log so far.
-/

namespace Csc412.Kernel.Log

open Lib Lib.CString Printer

/-! ## The kernel's side -/

/-- The timer interrupt at a whole second is logged, unless the machine stops. -/
def Dumps (b : Build) (s : State) (reg : Registers) : Prop :=
  (reg.intno ≠ intPagefault ∨ reg.err &&& pferrUser ≠ 0) ∧ b.tickLimit ≠ 0 ∧
    s.ticks.toNat ≠ b.tickLimit ∧
    reg.intno = intTimer ∧ s.ticks.toNat % 100 = 0

instance (b : Build) (s : State) (reg : Registers) : Decidable (Dumps b s reg) := by
  unfold Dumps
  infer_instance

/-- What `exception` logs before it polls the keyboard; the stack is `stack`, with
`char s[4]` of `memdump_virtual_all` at `buf`. -/
def exceptionLog (b : Build) (stack : Nat → UInt8) (buf : Nat) (s : State) (reg : Registers) :
    Except Failure Bytes :=
  if Dumps b s reg then do
    let s := s.setRegisters s.current reg
    let pm ← memdumpPhysical s
    let vm ← memdumpVirtualAll s stack buf
    .ok (pm ++ vm)
  else .ok []

/-- `panic(format, ...)` up to `fail`. -/
def panicText (format : Bytes) (args : List Arg) : Except Failure Bytes := do
  let head ← logPrintf (str "PANIC: ") []
  let body ← logPrintf format args
  match consoleVprintf (23 * 80) 0xC000 (str "PANIC: ") (argsOf []) with
  | .error f => .error (.printer f)
  | .ok (_, cpos) =>
    match consoleVprintf cpos 0xC000 format (argsOf args) with
    | .error f => .error (.printer f)
    | .ok (_, cpos) => .ok (head ++ body ++ (if cpos % 80 ≠ 0 then [newline] else []))

/-- What the `switch` of `exception` logs when it panics; `cr2` is the address that
faulted. -/
def panicLog (cr2 : Word) (reg : Registers) : Except Failure Bytes :=
  if reg.intno = intSysPanic then logPrintf (str "PANIC") []
  else if reg.intno = intPagefault then
    panicText (str "Kernel page fault for %p (%s %s, rip=%p)!\n") [⟨cr2, []⟩,
      ⟨0, if reg.err &&& 2 ≠ 0 then str "write" else str "read"⟩,
      ⟨0, if reg.err &&& 1 ≠ 0 then str "protection problem" else str "missing page"⟩,
      ⟨reg.rip, []⟩]
  else panicText (str "Unexpected exception %d!\n") [⟨reg.intno, []⟩]

def stepLog (b : Build) (stack : Nat → UInt8) (buf : Nat) (cr2 : Word) (s : State) :
    Label → Except Failure Bytes
  | .trap _ reg => exceptionLog b stack buf s reg
  | .poll key =>
    if checkKeyboard key = .none ∧ s.control = .handling then
      match dispatch b s with
      | .error _ => panicLog cr2 s.reg
      | .ok _ => .ok []
    else .ok []
  | _ => .ok []

/-! ## Text -/

/-- A text of whole lines. -/
def IsText (text : Bytes) : Prop :=
  ∃ lines : List Bytes, (∀ line ∈ lines, IsLine line) ∧ text = lines.flatten

section
variable {a c : Bytes}

theorem isText_nil : IsText [] := ⟨[], by simp, rfl⟩

theorem IsLine.isText (h : IsLine a) : IsText a := ⟨[a], by simpa using h, by simp⟩

theorem IsText.append (ha : IsText a) (hc : IsText c) : IsText (a ++ c) := by
  obtain ⟨lines, hlines, rfl⟩ := ha
  obtain ⟨lines', hlines', rfl⟩ := hc
  refine ⟨lines ++ lines', ?_, by simp⟩
  intro line hline
  rcases List.mem_append.mp hline with hmem | hmem
  · exact hlines line hmem
  · exact hlines' line hmem

theorem isText_flatMap {α : Type} {l : List α} {f : α → Bytes} (h : ∀ x ∈ l, IsText (f x)) :
    IsText (l.flatMap f) := by
  induction l with
  | nil => exact isText_nil
  | cons x l ih =>
    rw [List.flatMap_cons]
    exact (h x List.mem_cons_self).append (ih fun y hy => h y (List.mem_cons_of_mem x hy))

theorem IsText.noReturn (h : IsText a) : 13 ∉ a := by
  obtain ⟨lines, hlines, rfl⟩ := h
  intro hmem
  obtain ⟨line, hline, hreturn⟩ := List.mem_flatten.mp hmem
  exact (hlines line hline).noReturn hreturn

theorem universal_append (h : 13 ∉ a) : universal false (a ++ c) = a ++ universal false c := by
  induction a with
  | nil => rfl
  | cons x a ih =>
    rw [List.mem_cons, not_or] at h
    rw [List.cons_append, universal, if_neg fun hx => h.1 hx.symm,
      if_neg fun hx => Bool.false_ne_true hx.1, ih h.2, List.cons_append]

theorem IsText.readlines_append (h : IsText a) (rest : Bytes) :
    readlines (a ++ rest) = readlines a ++ readlines rest := by
  obtain ⟨lines, hlines, rfl⟩ := h
  induction lines with
  | nil => rfl
  | cons line lines ih =>
    have hline := hlines line List.mem_cons_self
    rw [List.flatten_cons, List.append_assoc, hline.readlines, hline.readlines, List.cons_append,
      ih fun l hl => hlines l (List.mem_cons_of_mem line hl)]

theorem parseLines_append {t : Timeline} {l l' : List Bytes} {t' : Timeline}
    (h : parseLines t l = .ok t') :
    parseLines t (l ++ l') = parseLines t' l' := by
  induction l generalizing t with
  | nil =>
    cases h
    rfl
  | cons line l ih =>
    obtain ⟨u, hu, h⟩ := bind_eq_ok h
    rw [List.cons_append, parseLines, hu]
    exact ih h

/-- A log goes on where it stopped. -/
theorem IsText.timeline_append (h : IsText a) {t : Timeline} (ht : memMapTimeline a = .ok t) :
    memMapTimeline (a ++ c) = parseLines t (readlines (universal false c)) := by
  unfold memMapTimeline at ht ⊢
  rw [universal_eq h.noReturn] at ht
  rw [universal_append h.noReturn, h.readlines_append, parseLines_append ht]

end

/-! ## Dumps along a run -/

section
variable {b : Build} {s : State}

theorem exceptionLog_text (h : MemInv b s) (stack : Nat → UInt8) (buf : Nat) (reg : Registers) :
    ∃ text, exceptionLog b stack buf s reg = .ok text ∧ IsText text ∧
    (¬ Dumps b s reg → text = []) ∧
      (Dumps b s reg → ∀ log t, IsText log → memMapTimeline log = .ok t →
        t.memData s.ticks.toNat = none →
        memMapTimeline (log ++ text) =
            .ok (t.put s.ticks.toNat (dumped (s.setRegisters s.current reg)))) := by
  by_cases hd : Dumps b s reg
  · have hD := memInv_dumpable (h.setRegisters s.current reg)
    obtain ⟨pm, vm, hpm, hvm, -, hparse⟩ := memMapTimeline_dump hD stack buf
    refine ⟨pm ++ vm, ?_, ?_, fun hn => absurd hd hn, fun _ log t hlog ht hfresh => ?_⟩
    · rw [exceptionLog, if_pos hd]
      dsimp only
      rw [hpm, ok_bind, hvm, ok_bind]
    · rw [memdumpPhysical_eq hD.refcount, Except.ok.injEq] at hpm
      rw [memdumpVirtualAll_eq hD, Except.ok.injEq] at hvm
      rw [← hpm, ← hvm]
      refine (isLine_pmLine _ _).isText.append (isText_flatMap fun i _ => ?_)
      split
      · exact (isLine_vmLine _ _ _).isText
      · exact isText_nil
    · rw [hlog.timeline_append ht]
      apply hparse
      unfold Timeline.at
      change (t.memData s.ticks.toNat).getD _ = _
      rw [hfresh]
      rfl
  · refine ⟨[], ?_, isText_nil, fun _ => rfl, fun hd' => absurd hd' hd⟩
    rw [exceptionLog, if_neg hd]

end

end Csc412.Kernel.Log
