import Csc412.Process.Allocator
import Csc412.Process.RandomSound
import Csc412.Kernel.AllocSound

/-!
# One process and its program

What a process's own entry, its pages and its program's variables satisfy at each
point of the program. `passes` counts the rounds that want a page, by the numbers
that `rand` draws: the heap has that many pages, until the slot is full.
-/

namespace Csc412.Process

open Lib Kernel

section
variable (g : Programs)

/-- Of the first `k` rounds of process `p`, those that want a page. -/
def passes (p : Nat) : Nat → Nat
  | 0 => 0
  | k + 1 => passes p k +
    if g.noSlowdown ∨ (srand (BitVec.ofNat 32 p)).draw k % allocSlowdown < p then 1 else 0

def heapPage (n : Nat) : Nat := ((g.endSym n).toNat + 4095) / 4096

theorem passes_le_succ (p k : Nat) : passes g p k ≤ passes g p (k + 1) := Nat.le_add_right _ _

theorem passes_mono (p : Nat) {j k : Nat} (h : j ≤ k) : passes g p j ≤ passes g p k :=
  monotone_nat_of_le_succ (passes_le_succ g p) h

end

theorem heapPage_bounds {g : Programs} {b : Build} (hg : g.Linked b) {n : Nat} (hn : n < 6) :
    slotOf n / 4096 ≤ heapPage g n ∧ heapPage g n ≤ stackPage n := by
  have h₁ := hg.start n hn
  have h₂ := hg.below n hn
  have h₃ := slotOf_bounds n
  unfold heapPage stackPage procSize at *
  omega

theorem takes_iff {g : Programs} {b : Build} (hg : g.Linked b) {n : Nat} (hn : n < 6) (pn : Nat) :
    Takes b n pn ↔ slotOf n / 4096 ≤ pn ∧ pn < heapPage g n ∨ pn = stackPage n := by
  have hend : pn * 4096 < (g.endSym n).toNat ↔ pn < heapPage g n := by
    unfold heapPage
    omega
  rw [Takes, hg.covers n hn, hend]

/-! ## What belongs to a process -/

/-- The state of one process. `regs` are those it runs with or will resume with,
`call` is the exception of it that the kernel handles, and `stopped` says that the
kernel ended while it handled one. -/
structure View where
  app : App
  state : ProcState
  regs : Registers
  call : Option Word
  stopped : Bool
  info : Nat → PageInfo
  mem : Mem

/-- The heap pages end at `top`. -/
structure Slot (g : Programs) (n p top : Nat) (v : View) : Prop where
  lo : heapPage g n ≤ top
  hi : top ≤ stackPage n
  owned : ∀ pn, heapPage g n ≤ pn → pn < top → v.info pn = ⟨p, 1⟩
  free : ∀ pn, top ≤ pn → pn < stackPage n → (v.info pn).refcount = 0

/-- The variables of the loop, after `k` draws. -/
structure Vars (g : Programs) (n p k top : Nat) (v : View) : Prop where
  pid : v.app.p = p
  heapTop : v.app.heapTop = BitVec.ofNat 64 (top * 4096)
  stackBottom : v.app.stackBottom = BitVec.ofNat 64 (stackPage n * 4096)
  generator : ¬ g.noSlowdown → v.app.generator = (srand (BitVec.ofNat 32 p)).after k
  stored : ∀ pn, heapPage g n ≤ pn → pn < top → v.mem.getByte (BitVec.ofNat 64 (pn * 4096)) =
    BitVec.ofNat 8 p

/-- Round `k` wants a page and the heap ends at `top`. -/
structure Wants (g : Programs) (n p k top : Nat) (v : View) :
    Prop extends Vars g n p (k + 1) top v where
  count : top = heapPage g n + passes g p k
  pass : passes g p (k + 1) = passes g p k + 1

def Draws (k : Nat) : Prop := ∀ i < k, (Rand.mk false 0#32).draw i % allocSlowdown ≠ 0

/-- Where `p-fork.c` or `p-forkexit.c` is about to fork, after `k` rounds. -/
def Forks (n k : Nat) : Prop :=
  n = 4 ∧ k = 0 ∨ n = 5 ∧ Draws k ∧ (Rand.mk false 0#32).draw k % allocSlowdown = 0

/-- What holds at each point of a program that process `p` runs, `k` yields after it
started. -/
def Phase (g : Programs) (n p k : Nat) (v : View) : Prop :=
  match v.app.pc with
  | .getpid => n < 4 ∧ k = 0 ∧ Slot g n p (heapPage g n) v
  | .setup => n < 4 ∧ k = 0 ∧ Slot g n p (heapPage g n) v ∧
    (v.call = some intSysGetpid ∨ v.stopped ∨ v.regs.rax = BitVec.ofNat 64 p)
  | .draw => n < 4 ∧ ∃ top, Vars g n p k top v ∧ Slot g n p top v ∧
    top = heapPage g n + passes g p k
  | .test => n < 4 ∧ ∃ top, Wants g n p k top v ∧ Slot g n p top v
  | .alloc => n < 4 ∧ ∃ top, Wants g n p k top v ∧ Slot g n p top v ∧ top < stackPage n
  | .check => n < 4 ∧ ∃ top, Wants g n p k top v ∧ top < stackPage n ∧
    ((v.call = some intSysPageAlloc ∨ v.stopped) ∧ Slot g n p top v ∨
      v.call ≠ some intSysPageAlloc ∧ v.regs.rax = 0 ∧ Slot g n p (top + 1) v)
  | .store => n < 4 ∧ ∃ top, Wants g n p k top v ∧ Slot g n p (top + 1) v
  | .yield => n < 4 ∧ ∃ top, Vars g n p (k + 1) top v ∧ Slot g n p top v ∧
    top = heapPage g n + passes g p (k + 1)
  | .idle => n < 4 ∧ ∃ j, Vars g n p j (stackPage n) v ∧ Slot g n p (stackPage n) v ∧
    stackPage n ≤ heapPage g n + passes g p k
  | .forkDraw => n = 5 ∧ v.app.generator = (Rand.mk false 0#32).after k ∧ Draws k ∧
    Slot g n p (heapPage g n) v
  | .forkYield => n = 5 ∧ v.app.generator = (Rand.mk false 0#32).after (k + 1) ∧ Draws (k + 1) ∧
    Slot g n p (heapPage g n) v
  | .fork => Forks n k ∧ Slot g n p (heapPage g n) v
  | .forked => Forks n k ∧ Slot g n p (heapPage g n) v ∧ (v.call = some intSysFork ∨ v.stopped)

/-- The exceptions that a program brings about, by where it stands. -/
def Called (v : View) (i : Word) : Prop :=
  i = intSysGetpid ∧ v.app.pc = .setup ∨
    i = intSysPageAlloc ∧ v.app.pc = .check ∧ v.regs.rdi = v.app.heapTop ∨
    i = intSysYield ∨ i = intTimer ∨ i = intSysFork ∧ v.app.pc = .forked

structure Proper (b : Build) (g : Programs) (n p k : Nat) (v : View) : Prop where
  program : v.app.program = n
  runnable : v.state = .runnable
  onStack : OnStack p v.regs
  taken : ∀ pn, Takes b n pn → v.info pn = ⟨p, 1⟩
  called : ∀ i, v.call = some i → Called v i
  phase : Phase g n p k v

/-- The running process. -/
def View.Running (v : View) : Prop := v.call = none ∧ ¬ v.stopped

section
variable {b : Build} {g : Programs} {n p k j top : Nat} {v v' : View}

/-- The pages of the heap, used or not, are assigned as they were. -/
def SamePages (g : Programs) (n : Nat) (info info' : Nat → PageInfo) : Prop :=
  ∀ pn, heapPage g n ≤ pn → pn < stackPage n → info' pn = info pn

theorem Slot.congr (h : Slot g n p top v) (hi : SamePages g n v.info v'.info) :
    Slot g n p top v' := by
  refine ⟨h.lo, h.hi, fun pn h₁ h₂ => ?_, fun pn h₁ h₂ => ?_⟩
  · rw [hi pn h₁ (by have := h.hi; omega)]
    exact h.owned pn h₁ h₂
  · rw [hi pn (by have := h.lo; omega) h₂]
    exact h.free pn h₁ h₂

theorem samePages_refl (g : Programs) (n : Nat) (info : Nat → PageInfo) : SamePages g n info info :=
  fun _ _ _ => rfl

/-- Memory on the pages of the heap is as it was. -/
def SameHeap (g : Programs) (n : Nat) (m m' : Mem) : Prop :=
  ∀ pn, heapPage g n ≤ pn → pn < stackPage n →
    m'.getByte (BitVec.ofNat 64 (pn * 4096)) = m.getByte (BitVec.ofNat 64 (pn * 4096))

theorem Vars.congr (h : Vars g n p k top v)
    (ha : v'.app.p = v.app.p ∧ v'.app.heapTop = v.app.heapTop ∧
    v'.app.stackBottom = v.app.stackBottom) (hgen : v'.app.generator = v.app.generator)
      (hm : SameHeap g n v.mem v'.mem)
    (hi : top ≤ stackPage n) : Vars g n p k top v' :=
  ⟨ha.1.trans h.pid, ha.2.1.trans h.heapTop, ha.2.2.trans h.stackBottom,
    fun hs => hgen.trans (h.generator hs),
    fun pn h₁ h₂ => (hm pn h₁ (by omega)).trans (h.stored pn h₁ h₂)⟩

theorem Wants.congr (h : Wants g n p k top v)
    (ha : v'.app.p = v.app.p ∧ v'.app.heapTop = v.app.heapTop ∧
    v'.app.stackBottom = v.app.stackBottom) (hgen : v'.app.generator = v.app.generator)
      (hm : SameHeap g n v.mem v'.mem)
    (hi : top ≤ stackPage n) : Wants g n p k top v' :=
  ⟨h.toVars.congr ha hgen hm hi, h.count, h.pass⟩

/-! ## Addresses -/

theorem page_toNat {pn : Nat} (h : pn < npages) :
    (BitVec.ofNat 64 (pn * 4096)).toNat = pn * 4096 := by
  unfold npages at h
  rw [BitVec.toNat_ofNat]
  omega

theorem page_inj {pn qn : Nat} (hp : pn < npages) (hq : qn < npages) :
    BitVec.ofNat 64 (pn * 4096) = BitVec.ofNat 64 (qn * 4096) ↔ pn = qn := by
  rw [← BitVec.toNat_inj, page_toNat hp, page_toNat hq]
  omega

theorem stackPage_lt (n : Nat) : stackPage n < npages := by
  have := slot_page n
  unfold stackPage
  omega

theorem roundDown_toNat (a : Word) : (roundDown a 4096).toNat = a.toNat / 4096 * 4096 := by
  have hpage : (4096 : Word).toNat = 4096 := rfl
  unfold roundDown
  rw [BitVec.toNat_sub_of_le
    (by rw [BitVec.le_def, BitVec.toNat_umod, hpage]; exact Nat.mod_le _ _),
    BitVec.toNat_umod, hpage]
  omega

theorem roundUp_end (hg : g.Linked b) (hn : n < 6) :
    roundUp (g.endSym n) 4096 = BitVec.ofNat 64 (heapPage g n * 4096) := by
  have h₁ := hg.below n hn
  have h₂ := slotOf_bounds n
  have h₃ := (heapPage_bounds hg hn).2
  have hpage : (4096 : Word).toNat = 4096 := rfl
  have hone : (1 : Word).toNat = 1 := rfl
  unfold procSize memsizePhysical at *
  have hadd : (g.endSym n + 4096).toNat = (g.endSym n).toNat + 4096 := by
    rw [BitVec.toNat_add]
    omega
  apply BitVec.eq_of_toNat_eq
  rw [page_toNat (by have := stackPage_lt n; omega), roundUp, roundDown_toNat,
    BitVec.toNat_sub_of_le (by rw [BitVec.le_def, hadd, hone]; omega), hadd, hone]
  unfold heapPage
  omega

theorem stackTop_eq (hpl : Placed p n) : (stackTop p).toNat = (stackPage n + 1) * 4096 := by
  have h := stackTop_toNat hpl
  have h₁ := hpl.slot
  have h₂ := hpl.pid_pos
  have h₃ := hpl.pid_le
  unfold stackTop stackPage procStartAddr procSize at *
  rw [BitVec.toNat_ofNat]
  omega

theorem stackBottom_eq (hpl : Placed p n) {regs : Registers} (h : OnStack p regs) :
    roundDown (regs.rsp - 1) 4096 = BitVec.ofNat 64 (stackPage n * 4096) := by
  have hone : (1 : Word).toNat = 1 := rfl
  obtain ⟨h₁, h₂⟩ := h
  rw [stackTop_eq hpl] at h₁ h₂
  apply BitVec.eq_of_toNat_eq
  rw [page_toNat (stackPage_lt n), roundDown_toNat,
    BitVec.toNat_sub_of_le (by rw [BitVec.le_def, hone]; omega), hone]
  omega

theorem result_pid (hp : p ≤ 4) {regs : Registers} (h : regs.rax = BitVec.ofNat 64 p) :
    Registers.result regs = p := by
  unfold Registers.result
  rw [h]
  interval_cases p <;> rfl

theorem result_zero {regs : Registers} (h : regs.rax = 0) : Registers.result regs = 0 := by
  unfold Registers.result
  rw [h]
  rfl

/-! ## A step of the program -/

theorem rand_after (r : Rand) (k : Nat) : rand (r.after k) = (r.draw k, r.after (k + 1)) := by
  rw [after_succ]
  rfl

theorem Draws.succ {k : Nat} (h : Draws k) (hk : (Rand.mk false 0#32).draw k % allocSlowdown ≠ 0) :
    Draws (k + 1) := by
  intro i hi
  by_cases hik : i = k
  · rw [hik]
    exact hk
  · exact h i (by omega)

theorem phase_next (hg : g.Linked b) (hpl : Placed p n) (hprog : v.app.program = n)
    (hs : OnStack p v.regs) (hr : v.Running) (h : Phase g n p k v) {a : App}
    (hnext : v.app.next g v.regs = some a) {regs : Registers} {m : Mem}
    (hm : SameHeap g n v.mem m) : Phase g n p k { v with app := a, regs := regs, mem := m } := by
  unfold App.next at hnext
  unfold Phase at h
  cases hpc : v.app.pc <;> simp only [hpc, reduceCtorEq] at h hnext
  · -- `sys_getpid` returned the process's number
    obtain ⟨hn, rfl, hslot, hret⟩ := h
    have hrax : v.regs.rax = BitVec.ofNat 64 p := by
      rcases hret with hc | hc | hc
      · rw [hr.1] at hc
        cases hc
      · exact absurd hc hr.2
      · exact hc
    have hpid := result_pid hpl.pid_le hrax
    cases hnext
    refine ⟨hn, heapPage g n,
      ⟨hpid, ?_, stackBottom_eq hpl hs, fun _ => ?_, fun pn h₁ h₂ => by omega⟩,
      hslot.congr (samePages_refl g n _), rfl⟩
    · simp only
      rw [hprog]
      exact roundUp_end hg (by omega)
    · simp only
      rw [hpid]
      rfl
  · obtain ⟨hn, top, hvars, hslot, hcount⟩ := h
    by_cases hslow : g.noSlowdown = true
    · rw [if_pos hslow] at hnext
      cases hnext
      refine ⟨hn, top, ⟨?_, hcount, by simp [passes, hslow]⟩, hslot.congr (samePages_refl g n _)⟩
      exact ⟨hvars.pid, hvars.heapTop, hvars.stackBottom, fun hns => absurd hslow hns,
        fun pn h₁ h₂ => (hm pn h₁ (by have := hslot.hi; omega)).trans (hvars.stored pn h₁ h₂)⟩
    · rw [if_neg hslow, hvars.generator hslow, rand_after] at hnext
      simp only [Option.some.injEq] at hnext
      subst hnext
      have hvars' : ∀ pc, Vars g n p (k + 1) top { v with
          app := { v.app with generator := (srand (BitVec.ofNat 32 p)).after (k + 1), pc := pc },
          regs := regs, mem := m } :=
        fun pc => ⟨hvars.pid, hvars.heapTop, hvars.stackBottom, fun _ => rfl,
          fun pn h₁ h₂ => (hm pn h₁ (by have := hslot.hi; omega)).trans (hvars.stored pn h₁ h₂)⟩
      by_cases hpass : (srand (BitVec.ofNat 32 p)).draw k % allocSlowdown < p
      · have hlt : (((srand (BitVec.ofNat 32 p)).draw k % allocSlowdown : Nat) : Int) <
            v.app.p := by
          rw [hvars.pid]
          exact_mod_cast hpass
        rw [if_pos hlt]
        exact ⟨hn, top, ⟨hvars' .test, hcount, by simp [passes, hpass]⟩,
          hslot.congr (samePages_refl g n _)⟩
      · have hge : ¬ (((srand (BitVec.ofNat 32 p)).draw k % allocSlowdown : Nat) : Int) <
            v.app.p := by
          rw [hvars.pid]
          exact_mod_cast hpass
        rw [if_neg hge]
        exact ⟨hn, top, hvars' .yield, hslot.congr (samePages_refl g n _),
          by simp [passes, hpass, hslow, hcount]⟩
  · obtain ⟨hn, top, hw, hslot⟩ := h
    cases hnext
    have hw' : ∀ pc, Wants g n p k top { v with app := { v.app with pc := pc }, regs := regs,
                                                mem := m } :=
      fun pc => hw.congr ⟨rfl, rfl, rfl⟩ rfl hm hslot.hi
    have htop : top < npages := by
      have h₁ := hslot.hi
      have h₂ := stackPage_lt n
      omega
    have hiff : v.app.heapTop = v.app.stackBottom ↔ top = stackPage n := by
      rw [hw.heapTop, hw.stackBottom, page_inj htop (stackPage_lt n)]
    by_cases hfull : top = stackPage n
    · rw [if_pos (hiff.mpr hfull)]
      subst hfull
      exact ⟨hn, k + 1, (hw' .idle).toVars, hslot.congr (samePages_refl g n _), hw.count.le⟩
    · rw [if_neg fun hc => hfull (hiff.mp hc)]
      exact ⟨hn, top, hw' .alloc, hslot.congr (samePages_refl g n _), by have := hslot.hi; omega⟩
  · -- a page was granted, for it was free when the process asked
    obtain ⟨hn, top, hw, hlt, hret⟩ := h
    have hret' : v.regs.rax = 0 ∧ Slot g n p (top + 1) v := by
      rcases hret with ⟨hc | hc, -⟩ | hc
      · rw [hr.1] at hc
        cases hc
      · exact absurd hc hr.2
      · exact hc.2
    rw [result_zero hret'.1, if_neg (by decide)] at hnext
    cases hnext
    exact ⟨hn, top, hw.congr ⟨rfl, rfl, rfl⟩ rfl hm (by omega),
      hret'.2.congr (samePages_refl g n _)⟩
  · obtain ⟨hn, hgen, hdraws, hslot⟩ := h
    rw [hgen, rand_after] at hnext
    simp only [Option.some.injEq] at hnext
    subst hnext
    by_cases hz : (Rand.mk false 0#32).draw k % allocSlowdown = 0
    · rw [if_pos hz]
      exact ⟨.inr ⟨hn, hdraws, hz⟩, hslot.congr (samePages_refl g n _)⟩
    · rw [if_neg hz]
      exact ⟨hn, rfl, hdraws.succ hz, hslot.congr (samePages_refl g n _)⟩

theorem next_program {g : Programs} {regs : Registers} {a a' : App} (h : a.next g regs = some a') :
    a'.program = a.program := by
  unfold App.next at h
  cases hpc : a.pc <;> simp only [hpc, reduceCtorEq] at h
  · cases h
    rfl
  · cases hr : rand a.generator with
    | mk x r =>
      rw [hr] at h
      split at h <;> cases h <;> rfl
  · cases h
    rfl
  · cases h
    rfl
  · cases hr : rand a.generator with
    | mk x r =>
      rw [hr] at h
      cases h
      rfl

theorem Proper.next (h : Proper b g n p k v) (hg : g.Linked b) (hpl : Placed p n) (hr : v.Running)
    {a : App} (hnext : v.app.next g v.regs = some a) {regs : Registers} (hs : OnStack p regs)
    {m : Mem} (hm : SameHeap g n v.mem m) :
    Proper b g n p k { v with app := a, regs := regs, mem := m } := by
  refine ⟨(next_program hnext).trans h.program, h.runnable, hs, h.taken, fun i hi => ?_,
    phase_next hg hpl h.program h.onStack hr h.phase hnext hm⟩
  rw [show v.call = none from hr.1] at hi
  cases hi

theorem Proper.store (h : Proper b g n p k v) (hpc : v.app.pc = .store) (hr : v.Running)
    {regs : Registers} (hs : OnStack p regs) {m : Mem} (hm : SameHeap g n v.mem m) :
    (∃ pn, v.app.heapTop = BitVec.ofNat 64 (pn * 4096) ∧ heapPage g n ≤ pn ∧ pn < stackPage n ∧
      v.info pn = ⟨p, 1⟩) ∧
      Proper b g n p k { v with
        app := v.app.stored, regs := regs, mem :=
            m.setByte v.app.heapTop (BitVec.ofInt 8 v.app.p) } := by
  have hph := h.phase
  unfold Phase at hph
  simp only [hpc] at hph
  obtain ⟨hn, top, hw, hslot⟩ := hph
  have htop : top + 1 ≤ stackPage n := hslot.hi
  have hlo : heapPage g n ≤ top := by
    have := hw.count
    omega
  have hlt := stackPage_lt n
  refine ⟨⟨top, hw.heapTop, hlo, by omega, hslot.owned top hlo (by omega)⟩, h.program, h.runnable,
    hs, h.taken, fun i hi => ?_,
    hn, top + 1, ⟨hw.pid, ?_, hw.stackBottom, hw.generator, fun pn h₁ h₂ => ?_⟩,
    hslot.congr (samePages_refl g n _), by
      have := hw.count
      have := hw.pass
      omega⟩
  · rw [show v.call = none from hr.1] at hi
    cases hi
  · simp only [App.stored]
    rw [hw.heapTop]
    apply BitVec.eq_of_toNat_eq
    unfold npages at hlt
    rw [BitVec.toNat_add, BitVec.toNat_ofNat, BitVec.toNat_ofNat]
    have : (4096 : Word).toNat = 4096 := rfl
    omega
  · simp only
    rw [getByte_setByte, hw.heapTop, hw.pid]
    by_cases hpn : pn = top
    · rw [if_pos (by rw [hpn]), BitVec.ofInt_natCast]
    · rw [if_neg fun he => hpn ((page_inj (by omega) (by omega)).mp he), hm pn h₁ (by omega)]
      exact hw.stored pn h₁ (by omega)

/-! ## Exceptions -/

theorem sameHeap_refl (g : Programs) (n : Nat) (m : Mem) : SameHeap g n m m := fun _ _ _ => rfl

/-- The kernel has taken over with exception `i`. -/
def Taken (v : View) (i : Word) (call : Option Word) (stopped : Bool) : Prop :=
  v.Running ∧ (call = some i ∨ call = none ∧ stopped)

theorem Proper.call (h : Proper b g n p k v) {reg : Registers} {a : App}
    (hcall : v.app.call v.regs = some (reg, a)) {call : Option Word} {stopped : Bool}
    (hr : Taken v reg.intno call stopped) :
    Proper b g n p (if reg.intno = intSysYield then k + 1 else k)
      { v with app := a, regs := reg, call := call, stopped := stopped } := by
  obtain ⟨-, hcs⟩ := hr
  have hph := h.phase
  have hstk := h.onStack
  have hvars : ∀ {j top pc}, Vars g n p j top v → Vars g n p j top
      { v with app := { v.app with pc := pc }, regs := reg, call := call, stopped := stopped } :=
    fun hv => ⟨hv.pid, hv.heapTop, hv.stackBottom, hv.generator, hv.stored⟩
  have hcalled : ∀ {i}, call = some i → i = reg.intno := by
    intro i hi
    rcases hcs with hc | ⟨hc, -⟩ <;> rw [hc] at hi <;> cases hi
    rfl
  unfold App.call at hcall
  unfold Phase at hph
  cases hpc : v.app.pc <;> simp only [hpc, reduceCtorEq] at hph hcall
  · obtain ⟨hn, rfl, hslot⟩ := hph
    cases hcall
    refine ⟨h.program, h.runnable, hstk, h.taken, fun i hi => .inl ⟨hcalled hi, rfl⟩, hn, rfl,
      hslot.congr (samePages_refl g n _), ?_⟩
    rcases hcs with hc | ⟨-, hc⟩
    · exact .inl hc
    · exact .inr (.inl hc)
  · obtain ⟨hn, top, hw, hslot, hlt⟩ := hph
    cases hcall
    refine ⟨h.program, h.runnable, hstk, h.taken, fun i hi => .inr (.inl ⟨hcalled hi, rfl, rfl⟩),
      hn, top,
      ⟨hvars hw.toVars, hw.count, hw.pass⟩, hlt, .inl ⟨?_, hslot.congr (samePages_refl g n _)⟩⟩
    rcases hcs with hc | ⟨-, hc⟩
    · exact .inl hc
    · exact .inr hc
  · obtain ⟨hn, top, hv, hslot, hcount⟩ := hph
    cases hcall
    exact ⟨h.program, h.runnable, hstk, h.taken, fun i hi => .inr (.inr (.inl (hcalled hi))), hn,
      top, hvars hv,
      hslot.congr (samePages_refl g n _), hcount⟩
  · obtain ⟨hn, j, hv, hslot, hcount⟩ := hph
    cases hcall
    refine ⟨h.program, h.runnable, hstk, h.taken, fun i hi => .inr (.inr (.inl (hcalled hi))), ?_⟩
    unfold Phase
    simp only [hpc]
    exact ⟨hn, j, ⟨hv.pid, hv.heapTop, hv.stackBottom, hv.generator, hv.stored⟩,
      hslot.congr (samePages_refl g n _),
      hcount.trans (Nat.add_le_add_left (passes_le_succ g p k) _)⟩
  · obtain ⟨hn, hgen, hdraws, hslot⟩ := hph
    cases hcall
    exact ⟨h.program, h.runnable, hstk, h.taken, fun i hi => .inr (.inr (.inl (hcalled hi))), hn,
      hgen, hdraws,
      hslot.congr (samePages_refl g n _)⟩
  · obtain ⟨hf, hslot⟩ := hph
    cases hcall
    refine ⟨h.program, h.runnable, hstk, h.taken,
      fun i hi => .inr (.inr (.inr (.inr ⟨hcalled hi, rfl⟩))), hf,
      hslot.congr (samePages_refl g n _), ?_⟩
    rcases hcs with hc | ⟨-, hc⟩
    · exact .inl hc
    · exact .inr hc

/-- A process goes on with the same program state; `%rax` is as it was or nobody waits for it. -/
theorem Phase.resume (h : Phase g n p k v) (ha : v'.app = v.app) (hi : SamePages g n v.info v'.info)
    (hm : SameHeap g n v.mem v'.mem)
    (hsetup : v.app.pc = .setup → v'.call = some intSysGetpid ∨ v'.stopped ∨
      v'.regs.rax = BitVec.ofNat 64 p)
    (hcheck : v.app.pc = .check → v'.regs.rax = v.regs.rax ∧
      (v.call = some intSysPageAlloc ∨ v.stopped → v'.call = some intSysPageAlloc ∨ v'.stopped) ∧
      (v.call ≠ some intSysPageAlloc → v'.call ≠ some intSysPageAlloc))
    (hforked : v.app.pc = .forked → v'.call = some intSysFork ∨ v'.stopped) : Phase g n p k v' := by
  have hvars : ∀ {j top}, top ≤ stackPage n → Vars g n p j top v → Vars g n p j top v' :=
    fun hle hv => hv.congr (by rw [ha]; exact ⟨rfl, rfl, rfl⟩) (by rw [ha]) hm hle
  have hwants : ∀ {top}, top ≤ stackPage n → Wants g n p k top v → Wants g n p k top v' :=
    fun hle hw => ⟨hvars hle hw.toVars, hw.count, hw.pass⟩
  unfold Phase at h ⊢
  rw [ha]
  cases hpc : v.app.pc <;> simp only [hpc] at h ⊢
  case getpid => exact ⟨h.1, h.2.1, h.2.2.congr hi⟩
  case setup => exact ⟨h.1, h.2.1, h.2.2.1.congr hi, hsetup hpc⟩
  case draw =>
    obtain ⟨hn, top, hv, hslot, hcount⟩ := h
    exact ⟨hn, top, hvars hslot.hi hv, hslot.congr hi, hcount⟩
  case test =>
    obtain ⟨hn, top, hw, hslot⟩ := h
    exact ⟨hn, top, hwants hslot.hi hw, hslot.congr hi⟩
  case alloc =>
    obtain ⟨hn, top, hw, hslot, hlt⟩ := h
    exact ⟨hn, top, hwants hslot.hi hw, hslot.congr hi, hlt⟩
  case check =>
    obtain ⟨hn, top, hw, hlt, hret⟩ := h
    refine ⟨hn, top, hwants (by omega) hw, hlt, ?_⟩
    obtain ⟨hrax, hcall, hother⟩ := hcheck hpc
    rcases hret with ⟨hc, hslot⟩ | ⟨hc, h0, hslot⟩
    · exact .inl ⟨hcall hc, hslot.congr hi⟩
    · exact .inr ⟨hother hc, hrax.trans h0, hslot.congr hi⟩
  case store =>
    obtain ⟨hn, top, hw, hslot⟩ := h
    exact ⟨hn, top, hwants (by have := hslot.hi; omega) hw, hslot.congr hi⟩
  case yield =>
    obtain ⟨hn, top, hv, hslot, hcount⟩ := h
    exact ⟨hn, top, hvars hslot.hi hv, hslot.congr hi, hcount⟩
  case idle =>
    obtain ⟨hn, j, hv, hslot, hcount⟩ := h
    exact ⟨hn, j, hvars (le_refl _) hv, hslot.congr hi, hcount⟩
  case forkDraw => exact ⟨h.1, h.2.1, h.2.2.1, h.2.2.2.congr hi⟩
  case forkYield => exact ⟨h.1, h.2.1, h.2.2.1, h.2.2.2.congr hi⟩
  case fork => exact ⟨h.1, h.2.congr hi⟩
  case forked => exact ⟨h.1, h.2.1.congr hi, hforked hpc⟩

theorem Called.congr {i : Word} (h : Called v i) (ha : v'.app = v.app)
    (hr : v'.regs.rdi = v.regs.rdi) : Called v' i := by
  unfold Called at *
  rw [ha, hr]
  exact h

/-- The timer interrupts the process. -/
theorem Proper.timer (h : Proper b g n p k v) {call : Option Word} {stopped : Bool}
    (hr : Taken v intTimer call stopped) :
    Proper b g n p k { v with
      regs := { v.regs with intno := intTimer, err := 0 }, call := call, stopped := stopped } := by
  obtain ⟨⟨hnone, hrun⟩, hcs⟩ := hr
  refine ⟨h.program, h.runnable, h.onStack, h.taken, fun i hi => ?_,
    h.phase.resume rfl (samePages_refl g n _) (sameHeap_refl g n _) (fun hpc => ?_)
      (fun _ => ⟨rfl, fun hc => ?_, fun _ => ?_⟩) fun hpc => ?_⟩
  · rcases hcs with hc | ⟨hc, -⟩ <;> simp only [hc] at hi <;> cases hi
    exact .inr (.inr (.inr (.inl rfl)))
  · have hph := h.phase
    unfold Phase at hph
    simp only [hpc] at hph
    rcases hph.2.2.2 with hc | hc | hc
    · rw [hnone] at hc
      cases hc
    · exact absurd hc hrun
    · exact .inr (.inr hc)
  · rcases hc with hc | hc
    · rw [hnone] at hc
      cases hc
    · exact absurd hc hrun
  · rcases hcs with hc | ⟨hc, -⟩ <;> simp only [hc] <;> decide
  · have hph := h.phase
    unfold Phase at hph
    simp only [hpc] at hph
    rcases hph.2.2 with hc | hc
    · rw [hnone] at hc
      cases hc
    · exact absurd hc hrun

/-- The kernel ends. -/
theorem Proper.stop (h : Proper b g n p k v) :
    Proper b g n p k { v with call := none, stopped := true } :=
  ⟨h.program, h.runnable, h.onStack, h.taken, nofun,
    h.phase.resume rfl (samePages_refl g n _) (sameHeap_refl g n _) (fun _ => .inr (.inl rfl))
      (fun _ => ⟨rfl, fun _ => .inr rfl, fun _ => nofun⟩)
      fun _ => .inr rfl⟩

/-- After `sys_yield` or the timer. -/
theorem Proper.done (h : Proper b g n p k v) {i : Word} (hi : v.call = some i)
    (hdone : i = intSysYield ∨ i = intTimer) :
    Proper b g n p k { v with call := none } := by
  have hne : ∀ {j}, v.call = some j → j = intSysYield ∨ j = intTimer := by
    intro j hj
    rw [hi] at hj
    cases hj
    exact hdone
  refine ⟨h.program, h.runnable, h.onStack, h.taken, nofun,
    h.phase.resume rfl (samePages_refl g n _) (sameHeap_refl g n _) (fun hpc => ?_)
      (fun _ => ⟨rfl, fun hc => ?_, fun _ => nofun⟩)
      fun hpc => ?_⟩
  · have hph := h.phase
    unfold Phase at hph
    simp only [hpc] at hph
    rcases hph.2.2.2 with hc | hc | hc
    · exact absurd (hne hc) (by decide)
    · exact .inr (.inl hc)
    · exact .inr (.inr hc)
  · rcases hc with hc | hc
    · exact absurd (hne hc) (by decide)
    · exact .inr hc
  · have hph := h.phase
    unfold Phase at hph
    simp only [hpc] at hph
    rcases hph.2.2 with hc | hc
    · exact absurd (hne hc) (by decide)
    · exact .inr hc

/-- `sys_getpid` returns. -/
theorem Proper.getpid (h : Proper b g n p k v) (hi : v.call = some intSysGetpid) :
    Proper b g n p k { v with regs := v.regs.setRax (BitVec.ofNat 64 p), call := none } := by
  have hpc : v.app.pc = .setup := by
    rcases h.called _ hi with ⟨-, hc⟩ | ⟨hc, -⟩ | hc | hc | ⟨hc, -⟩
    · exact hc
    all_goals exact absurd hc (by decide)
  refine ⟨h.program, h.runnable, h.onStack, h.taken, nofun,
    h.phase.resume rfl (samePages_refl g n _) (sameHeap_refl g n _) (fun _ => .inr (.inr rfl))
      (fun hc => ?_) fun hc => ?_⟩
  · rw [hpc] at hc
    cases hc
  · rw [hpc] at hc
    cases hc

/-- `sys_page_alloc` finds the page at `heap_top` free, takes it and returns. -/
theorem Proper.alloc (h : Proper b g n p k v) (hi : v.call = some intSysPageAlloc) :
    ∃ top, v.regs.rdi = BitVec.ofNat 64 (top * 4096) ∧ heapPage g n ≤ top ∧ top < stackPage n ∧
      (v.info top).refcount = 0 ∧ ∀ (info : Nat → PageInfo) (mem : Mem), info top = ⟨p, 1⟩ →
        (∀ pn, pn ≠ top → info pn = v.info pn) → SameHeap g n v.mem mem →
        Proper b g n p k { v with regs := v.regs.setRax 0, call := none, info := info,
                                  mem := mem } := by
  have hpc : v.app.pc = .check ∧ v.regs.rdi = v.app.heapTop := by
    rcases h.called _ hi with ⟨hc, -⟩ | ⟨-, hc⟩ | hc | hc | ⟨hc, -⟩
    · exact absurd hc (by decide)
    · exact hc
    all_goals exact absurd hc (by decide)
  have hph := h.phase
  unfold Phase at hph
  simp only [hpc.1] at hph
  obtain ⟨hn, top, hw, hlt, hret⟩ := hph
  have hslot : Slot g n p top v := by
    rcases hret with ⟨-, hslot⟩ | ⟨hc, -⟩
    · exact hslot
    · exact absurd hi hc
  refine ⟨top, hpc.2.trans hw.heapTop, hslot.lo, hlt, hslot.free top (le_refl _) hlt,
    fun info mem hself hother hm => ?_⟩
  have htaken : ∀ pn, Takes b n pn → info pn = ⟨p, 1⟩ := by
    intro pn ht
    by_cases hpn : pn = top
    · rw [hpn, hself]
    · rw [hother pn hpn, h.taken pn ht]
  refine ⟨h.program, h.runnable, h.onStack, htaken, nofun, ?_⟩
  unfold Phase
  simp only [hpc.1]
  refine ⟨hn, top, hw.congr ⟨rfl, rfl, rfl⟩ rfl hm hslot.hi, hlt,
    .inr ⟨nofun, rfl, by have := hslot.lo; omega, hlt,
    fun pn h₁ h₂ => ?_, fun pn h₁ h₂ => ?_⟩⟩
  · by_cases hpn : pn = top
    · rw [hpn]
      exact hself
    · exact (hother pn hpn).trans (hslot.owned pn h₁ (by omega))
  · have := hslot.free pn (by omega) h₂
    rw [← hother pn (by omega)] at this
    exact this

/-- What others do does not touch what the process has. -/
theorem Proper.frame (h : Proper b g n p k v) {f : Nat → PageInfo} {m : Mem}
    (ht : ∀ pn, Takes b n pn → f pn = v.info pn) (hi : SamePages g n v.info f)
    (hm : SameHeap g n v.mem m) :
    Proper b g n p k { v with info := f, mem := m } := by
  refine ⟨h.program, h.runnable, h.onStack, fun pn hpn => (ht pn hpn).trans (h.taken pn hpn),
    fun i hc => (h.called i hc).congr rfl rfl,
    h.phase.resume rfl hi hm (fun hpc => ?_) (fun _ => ⟨rfl, id, id⟩) fun hpc => ?_⟩
  · have hph := h.phase
    unfold Phase at hph
    simp only [hpc] at hph
    exact hph.2.2.2
  · have hph := h.phase
    unfold Phase at hph
    simp only [hpc] at hph
    exact hph.2.2

end

end Csc412.Process
