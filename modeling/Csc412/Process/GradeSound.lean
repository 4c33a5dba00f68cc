import Csc412.Kernel.RunLog
import Csc412.Process.SystemSound

/-!
# The grade of the handout

The kernel with the allocators, as `make grade` runs it: no key is pressed and the machine
stops at `TICK_LIMIT`. However the processes are interrupted, the log parses, the
invariants hold at every tick and no stage passes (`handout_grade`).
-/

namespace Csc412.Process

open Lib Kernel Kernel.Log Lib.CString

/-! ## Pages and their owners -/

section
variable {b : Build} {g : Programs} {t : Tally} {w w' : World} {l : Label}

/-- A process asks for the page on top of its heap. -/
theorem Inv.asked (h : Inv b g t w) (hg : g.Linked b) (hc : w.machine.control = .handling)
    (hi : w.machine.reg.intno = intSysPageAlloc) :
    ∃ e ∈ startup b t.command, e.1 = w.machine.current ∧
      ∃ pn : Nat, slotOf e.2 / 4096 ≤ pn ∧ pn ≤ stackPage e.2 ∧
      pagenumber w.machine.reg.rdi = pn := by
  obtain ⟨n, hn⟩ := h.current (.inr hc)
  have hpl := startup_placed b _ _ hn
  have hprop := h.proper _ hn
  have hcall : (w.view w.machine.current).call = some intSysPageAlloc := by
    simpa [World.view, hc, State.reg] using hi
  have hregs : (w.view w.machine.current).regs = w.machine.reg := by
    simp [World.view, hc, State.reg]
  have hasked : (w.view w.machine.current).app.pc = .check ∧
      w.machine.reg.rdi = (w.view w.machine.current).app.heapTop := by
    rw [← hregs]
    rcases hprop.called _ hcall with ⟨hi, -⟩ | ⟨-, hpc, hrdi⟩ | hi | hi | ⟨hi, -⟩
    · exact absurd hi (by decide)
    · exact ⟨hpc, hrdi⟩
    · exact absurd hi (by decide)
    · exact absurd hi (by decide)
    · exact absurd hi (by decide)
  obtain ⟨hpc, hrdi⟩ := hasked
  have hphase := hprop.phase
  unfold Phase at hphase
  simp only [hpc] at hphase
  obtain ⟨-, top, hwants, hlt, hret⟩ := hphase
  have hlo : heapPage g n ≤ top := by
    rcases hret with ⟨-, hslot⟩ | ⟨hno, -⟩
    · exact hslot.lo
    · exact absurd hcall hno
  have hbounds := heapPage_bounds hg hpl.program_lt
  have hmax := stackPage_lt n
  rw [npages] at hmax
  refine ⟨_, hn, rfl, top, hbounds.1.trans hlo, hlt.le, ?_⟩
  rw [hrdi, hwants.heapTop]
  exact pagenumber_page (page_toNat (by rw [npages]; omega)) (by omega)

theorem Inv.homed (h : Inv b g t w) (hg : g.Linked b) (hs : Step b g w l w') (hl : l.reboot = none)
    (hH : Homed b t.command w.machine.pageinfo) : Homed b t.command w'.machine.pageinfo := by
  have hm := step_move h.machine (inv_next hg h hs).2
  generalize w'.machine = s' at hm
  cases hm with
  | reboot hk => simp [Label.reboot, hk] at hl
  | grant hk hc hi hgrant hmap =>
    obtain ⟨e, he, hcur, page, hlo, hhi, hpage⟩ := h.asked hg hc hi
    intro pn hpn
    simp only [State.setRegisters, State.setProc, granted, hpage, Function.update_apply,
      Nat.cast_inj]
    split_ifs with heq
    · refine .inr ⟨e, he, ?_, by omega, by omega⟩
      rw [hcur]
    · exact hH pn hpn
  | _ => exact hH

/-- What a dump finds: the processes of the boot are there, and no process owns a page
outside its slot. -/
structure Dumped (b : Build) (command : Option String) (s : State) : Prop where
  inv : MemInv b s
  alive : ∀ e ∈ startup b command, Alive s e.1
  homed : Homed b command s.pageinfo
  stack : ∀ e ∈ startup b command, s.pageinfo (stackPage e.2) = ⟨e.1, 1⟩

theorem Inv.dumped (h : Inv b g t w) (hH : Homed b t.command w.machine.pageinfo) (reg : Registers) :
    Dumped b t.command (w.machine.setRegisters w.machine.current reg) := by
  refine ⟨h.machine.toMemInv.setRegisters _ _, fun e he => ?_, hH, fun e he => ?_⟩
  · have hrun := (h.proper e he).runnable
    rw [Alive, (setRegisters_fields _ _ _ _).2.2]
    change (w.machine.procs e.1).state = _ at hrun
    rw [hrun]
    simp
  · exact (h.proper e he).taken _ (.inr rfl)

end

/-! ## What the checks find -/

/-- `p-allocator.c` four times. -/
def fourAllocators : List (Nat × Nat) := [(1, 0), (2, 1), (3, 2), (4, 3)]

structure Verdicts (inst : Snapshot) : Prop where
  kernelIsolated : inst.isKernelIsolated = .ok false
  processesIsolated : inst.areProcessesIsolated = .ok false
  vpaUsed : inst.isVPAUsed = .ok false
  overlapping : inst.areProcessAddressesOverlapping = .ok false
  fork : inst.isForkOK = .ok false
  ownership : inst.checkOwnershipInvariant = .ok true
  cgaAccess : inst.checkCGAAccessInvariant = .ok true

section
variable {b : Build} {command : Option String} {s : State} (h : Dumped b command s)
include h

/-- Every process maps all of physical memory, for user mode too. -/
theorem Dumped.access {p k : Nat} (hp : Alive s p) (hk : k < npages) :
    lookupPage s p k ≠ .unmapped ∧ UserAccess s p k ∧ pageOwner s p k = (s.pageinfo k).owner ∧
      (lookupPage s p k).perm &&& pteW ≠ 0 := by
  have hlookup := lookupPage_eq h.inv hp (k := k) (by unfold npages at hk; omega)
  rw [if_pos hk] at hlookup
  have hne : lookupPage s p k ≠ .unmapped := by
    rw [hlookup]
    intro heq
    have hperm : ptePWU = 0 := congrArg Vamapping.perm heq
    exact absurd hperm (by decide)
  refine ⟨hne, ⟨hne, ?_⟩, ?_, ?_⟩
  · rw [hlookup]
    exact show ptePWU &&& pteU ≠ 0 by decide
  · rw [pageOwner, hlookup]
  · rw [hlookup]
    exact show ptePWU &&& pteW ≠ 0 by decide

theorem Dumped.unmapped {p k : Nat} (hp : Alive s p) (hlo : npages ≤ k) (hk : k < 768) :
    lookupPage s p k = .unmapped := by
  rw [lookupPage_eq h.inv hp hk, if_neg (Nat.not_lt.mpr hlo)]

theorem Dumped.verdicts (hstart : startup b command = fourAllocators) {inst : Snapshot}
    (hinst : inst.Of (Log.dumped s)) :
    Verdicts inst := by
  have hc := checked_dumped (memInv_dumpable h.inv) (homed_fit h.homed) hinst
  have h1 : Alive s 1 := h.alive (1, 0) (by rw [hstart]; decide)
  have h2 : Alive s 2 := h.alive (2, 1) (by rw [hstart]; decide)
  refine ⟨hc.kernelIsolated.of_not fun hiso => ?_, hc.processesIsolated.of_not fun hiso => ?_,
    hc.vpaUsed.of_not fun hvpa => ?_, hc.overlapping.of_not fun hover => ?_,
    hc.fork.of_not fun hfork => ?_,
    hc.ownership.of fun p _ hp k hk _ hne _ _ => ?_, hc.cgaAccess.of fun p _ hp => ?_⟩
  · exact hiso 1 (by decide) h1 0 (by decide) (by decide) (h.access h1 (by decide)).2.1
  · -- process 1 reaches the stack of process 2
    have hlt := stackPage_lt 1
    have hreach := h.access h1 hlt
    have howner := hiso 1 (by decide) h1 (stackPage 1) (by unfold npages at hlt; omega)
      (by decide) hreach.2.1
    rw [hreach.2.2.1, h.stack (2, 1) (by rw [hstart]; decide)] at howner
    simp at howner
  · obtain ⟨pn, -, hhi, howner⟩ := hvpa
    unfold kernelLimit at hhi
    rcases h.homed pn (by unfold npages; omega) with hzero | ⟨e, -, -, hlo, -⟩
    · omega
    · have := slot_page e.2
      omega
  · obtain ⟨p, -, hp, pages, hcard, hpages⟩ := hover
    have hslot : ∀ k ∈ pages, ∃ e ∈ startup b command, e.1 = p ∧ slotOf e.2 / 4096 ≤ k ∧
        k ≤ stackPage e.2 := by
      intro k hk
      obtain ⟨hlt, -, hua, hne, heq⟩ := hpages k hk
      have hpn : k < npages := by
        by_contra hge
        exact hua.1 (h.unmapped hp (Nat.not_lt.mp hge) hlt)
      rw [(h.access hp hpn).2.2.1] at hne heq
      rcases h.homed k hpn with hzero | ⟨e, he, howner, hlo, hhi⟩
      · omega
      · exact ⟨e, he, by omega, hlo, hhi⟩
    obtain ⟨k, hk⟩ := Finset.card_pos.mp ((Nat.zero_lt_succ 63).trans hcard)
    obtain ⟨e, he, hep, -⟩ := hslot k hk
    have hsub : pages ⊆ Finset.Icc (slotOf e.2 / 4096) (stackPage e.2) := by
      intro k hk
      obtain ⟨e', he', hep', hlo, hhi⟩ := hslot k hk
      have hn : e'.2 = e.2 := startup_unique b command (p := p) (by rw [← hep']; exact he')
        (by rw [← hep]; exact he)
      rw [hn] at hlo hhi
      exact Finset.mem_Icc.mpr ⟨hlo, hhi⟩
    have hle := Finset.card_le_card hsub
    rw [Nat.card_Icc] at hle
    unfold stackPage at hle
    omega
  · -- the first page belongs to process 1
    obtain ⟨-, -, howner | hperm⟩ := hfork 2 (by decide) h2
    · rw [(h.access h2 (by decide)).2.2.1] at howner
      rcases h.homed kernelLimit (by decide) with hzero | ⟨e, he, heq, hlo, -⟩
      · omega
      · rw [hstart] at he
        have hslot : ∀ e ∈ fourAllocators, e.1 = 2 → ¬ slotOf e.2 / 4096 ≤ kernelLimit := by decide
        exact hslot e he (by omega) hlo
    · exact (h.access h2 (by decide)).2.2.2 hperm
  · by_cases hk' : k < npages
    · exact (h.access hp hk').2.1
    · exact absurd (h.unmapped hp (Nat.not_lt.mp hk') hk) hne
  · exact (h.access hp (by decide)).2.1

end

/-! ## The score -/

section
variable {items : List (Int × Snapshot)} (hv : ∀ x ∈ items, Verdicts x.2)
include hv

theorem checkInvariants_verdicts : checkInvariants items = .ok 1 := by
  induction items with
  | nil => rfl
  | cons x items ih =>
    have hx := hv x List.mem_cons_self
    rw [checkInvariants, hx.ownership]
    simp only
    rw [hx.cgaAccess]
    exact ih fun y hy => hv y (List.mem_cons_of_mem x hy)

omit hv in
theorem performLoop_fails {check : Snapshot → Except GradeError Bool}
    (hcheck : ∀ x ∈ items, check x.2 = .ok false) (start tick : Int) :
    ∃ last, performLoop check start items (0, tick) = .ok (0, last) := by
  induction items generalizing tick with
  | nil => exact ⟨tick, rfl⟩
  | cons x items ih =>
    rw [performLoop]
    split
    · exact ih (fun y hy => hcheck y (List.mem_cons_of_mem x hy)) x.1
    · rw [hcheck x List.mem_cons_self]
      exact ⟨x.1, rfl⟩

theorem performAll_verdicts {l : List ((Snapshot → Except GradeError Bool) × Int)}
    (hl : ∀ c ∈ l, c ∈ allFunctions) :
    performAll items l = .ok 0 := by
  induction l with
  | nil => rfl
  | cons c l ih =>
    obtain ⟨check, start⟩ := c
    have hcheck : ∀ x ∈ items, check x.2 = .ok false := by
      intro x hx
      have hmem := hl (check, start) List.mem_cons_self
      simp only [allFunctions, List.mem_cons, Prod.mk.injEq, List.not_mem_nil, or_false] at hmem
      rcases hmem with ⟨rfl, -⟩ | ⟨rfl, -⟩ | ⟨rfl, -⟩ | ⟨rfl, -⟩ | ⟨rfl, -⟩
      · exact (hv x hx).kernelIsolated
      · exact (hv x hx).processesIsolated
      · exact (hv x hx).vpaUsed
      · exact (hv x hx).overlapping
      · exact (hv x hx).fork
    obtain ⟨last, hloop⟩ := performLoop_fails hcheck start 0
    rw [performAll, performCheck, hloop]
    simp only
    rw [ih fun d hd => hl d (List.mem_cons_of_mem _ hd)]
    rfl

theorem performChecks_verdicts (gradeFrom upTo : Int) :
    performChecks items gradeFrom upTo = .ok 0 :=
  performAll_verdicts hv fun _ hc => List.mem_of_mem_take (List.mem_of_mem_drop hc)

end

/-- The ticks of a log of `n` timer interrupts, and what is recorded there. -/
structure Recorded (b : Build) (command : Option String) (n : Nat) (t : Timeline) : Prop where
  ticks : ∀ tick, (t.memData tick).isSome ↔ ∃ k : Nat, tick = (100 * k : Nat) ∧
    100 * k < min n b.tickLimit
  dumps : ∀ tick inst, t.memData tick = some inst → ∃ s, Dumped b command s ∧ inst = Log.dumped s
  panic : t.panic = false

/-- `CheckKernelRuns` wants the last dump at tick 900. -/
def expectedRun (n : Nat) : Prop := 900 < n ∧ n ≤ 1000

instance (n : Nat) : Decidable (expectedRun n) := by
  unfold expectedRun
  infer_instance

theorem checkKernelRuns_eq {b : Build} {command : Option String} {n : Nat} {log : Bytes}
    {t : Timeline} (h : Recorded b command n t) (ht : memMapTimeline log = .ok t) :
    checkKernelRuns t (t.items (readlines (universal false log))) 900 =
      if expectedRun (min n b.tickLimit) then 1 else 0 := by
  have hsorted := items_sorted t (readlines (universal false log))
  have hmem (k : Nat) (hk : 100 * k < min n b.tickLimit) :
      ∃ x ∈ t.items (readlines (universal false log)), x.1 = (100 * k : Nat) :=
    ⟨_, (mem_items ht _ _).mpr ⟨(h.ticks _).mpr ⟨k, rfl, hk⟩, rfl⟩, rfl⟩
  have htick (x : Int × Snapshot) (hx : x ∈ t.items (readlines (universal false log))) :=
    (h.ticks x.1).mp ((mem_items ht x.1 x.2).mp hx).1
  rw [checkKernelRuns]
  generalize t.items (readlines (universal false log)) = items at hsorted hmem htick
  cases hlast : items.getLast? with
  | none =>
    obtain rfl := List.getLast?_eq_none_iff.mp hlast
    rw [if_neg]
    intro hexp
    obtain ⟨x, hx, -⟩ := hmem 0 (by unfold expectedRun at hexp; omega)
    cases hx
  | some x =>
    obtain ⟨items, rfl⟩ := List.getLast?_eq_some_iff.mp hlast
    obtain ⟨k, hk, hlt⟩ := htick x (by simp)
    have hmax (j : Nat) (hj : 100 * j < min n b.tickLimit) : ((100 * j : Nat) : Int) ≤ x.1 := by
      obtain ⟨y, hy, hyj⟩ := hmem j hj
      rcases List.mem_append.mp hy with hy | hy
      · have hlt := (List.pairwise_append.mp hsorted).2.2 y hy x (by simp)
        omega
      · rw [List.mem_singleton.mp hy] at hyj
        omega
    have hiff : expectedRun (min n b.tickLimit) ↔ x.1 = 900 := by
      unfold expectedRun
      constructor
      · intro hexp
        have := hmax 9 hexp.1
        omega
      · intro hx
        refine ⟨by omega, ?_⟩
        by_contra hgt
        have := hmax 10 (by omega)
        omega
    simp [h.panic, hiff, eq_comm]

theorem grade_recorded {b : Build} {command : Option String} {n : Nat} {log : Bytes} {t : Timeline}
    (hstart : startup b command = fourAllocators) (h : Recorded b command n t)
    (ht : memMapTimeline log = .ok t) (gradeFrom gradeUpTo : Int) :
    grade (some log) gradeFrom gradeUpTo =
      .ok ⟨if expectedRun (min n b.tickLimit) then 1 else 0, 1, 0⟩ := by
  have hv : ∀ x ∈ t.items (readlines (universal false log)), Verdicts x.2 := by
    intro x hx
    obtain ⟨hsome, hinst⟩ := (mem_items ht x.1 x.2).mp hx
    obtain ⟨inst, hdata⟩ := Option.isSome_iff_exists.mp hsome
    obtain ⟨s, hs, rfl⟩ := h.dumps x.1 inst hdata
    have hof := snapshot_of ht x.1
    rw [← hinst, Timeline.at, hdata] at hof
    exact hs.verdicts hstart hof
  rw [Kernel.Log.grade, ht]
  simp only
  rw [checkInvariants_verdicts hv, performChecks_verdicts hv]
  simp only
  rw [checkKernelRuns_eq h ht]

/-! ## The log of a run -/

/-- A step of the machine with the log it leaves. -/
def LogStep (b : Build) (g : Programs) (x : World × Bytes) (l : Label) (y : World × Bytes) : Prop :=
  Step b g x.1 l y.1 ∧ ∃ stack buf cr2 out, stepLog b stack buf cr2 x.1.machine l = .ok out ∧
    y.2 = x.2 ++ out

def isTimer : Label → Bool
  | .trap _ reg => decide (reg.intno = intTimer)
  | _ => false

/-- The timer interrupts of a run. -/
def timers (ls : List Label) : Nat := ls.countP isTimer

/-- How `ticks` counts the timer interrupts. -/
def Clock (b : Build) (n : Nat) (s : State) : Prop :=
  match s.control with
  | .off => True
  | .handling => s.ticks.toNat < b.tickLimit ∧
    n = s.ticks.toNat + (if s.reg.intno = intTimer then 1 else 0)
  | _ => s.ticks.toNat ≤ b.tickLimit ∧ n = s.ticks.toNat

structure LogInv (b : Build) (command : Option String) (n : Nat) (x : World × Bytes) : Prop where
  homed : Homed b command x.1.machine.pageinfo
  clock : Clock b n x.1.machine
  text : IsText x.2
  timeline : ∃ t, memMapTimeline x.2 = .ok t ∧ Recorded b command n t

section
variable {b : Build} {g : Programs} {t : Tally} {w w' : World} {l : Label}

/-- The machine stops at the limit, and nowhere else in an exception. -/
theorem exceptionEntry_control {s : State} (h : MemInv b s) {reg : Registers}
    (hreg : reg.intno ≠ intPagefault ∨ reg.err &&& pferrUser ≠ 0) :
    TickLimit b s ∧ (exceptionEntry b s reg).control = .off ∨
      ¬ TickLimit b s ∧ (exceptionEntry b s reg).control = .handling := by
  have hR := h.setRegisters s.current reg
  obtain ⟨last, showing, hshow⟩ := memshowVirtualAnimate_ok hR
  unfold exceptionEntry
  simp only
  rw [bind_of_ok (setPagetable_ok hR.tables hR.procs.root hR.procs.root), if_pos hreg,
    bind_of_ok (checkVirtualMemory_ok hR), hshow, ok_bind]
  simp only
  split
  · rename_i hl
    exact .inl ⟨hl, rfl⟩
  · rename_i hl
    have hdump : Kernel.memdumpVirtualAll { s.setRegisters s.current reg with
        lastTicks := last, showing := showing } = .ok () :=
      memdumpVirtualAll_ok ⟨hR.procs.root, hR.procs.pid, hR.procs.pagetable, hR.procs.zero⟩
    refine .inr ⟨hl, ?_⟩
    split
    · rw [bind_of_ok hdump]
      rfl
    · rfl

/-- An exception of a program. -/
theorem Step.trap_inv {p : Nat} {reg : Registers} (hs : Step b g w (.trap p reg) w') :
    w.machine.control = .user ∧
    p = w.machine.current ∧ w'.machine = exceptionEntry b w.machine reg ∧
      (reg.intno ≠ intPagefault ∨ reg.err &&& pferrUser ≠ 0) := by
  generalize hl : Label.trap p reg = l at hs
  cases hs with
  | compute => cases hl
  | store => cases hl
  | fault hc _ _ herr =>
    cases hl
    exact ⟨hc, rfl, rfl, .inr herr⟩
  | call hc hcall =>
    cases hl
    refine ⟨hc, rfl, rfl, .inl ?_⟩
    unfold App.call at hcall
    cases hpc : w.app.pc <;> simp only [hpc, reduceCtorEq, Option.some.injEq, Prod.mk.injEq]
      at hcall <;>
      rw [← hcall.1] <;> simp [intSysGetpid, intSysPageAlloc, intSysYield, intSysFork, intPagefault]
  | timer hc =>
    cases hl
    exact ⟨hc, rfl, rfl, .inl (show intTimer ≠ intPagefault by decide)⟩
  | kernel hc hk =>
    cases hl
    cases hk with
    | trap _ hu => exact absurd hu hc

theorem Clock.next {n : Nat} (h : Inv b g t w) (hg : g.Linked b) (hs : Step b g w l w')
    (hl : l.reboot = none) (hL : b.tickLimit ≠ 0 ∧ b.tickLimit < 2 ^ 32)
    (hc : Clock b n w.machine) :
    Clock b (n + if isTimer l then 1 else 0) w'.machine := by
  have hm := step_move h.machine (inv_next hg h hs).2
  have hentry : ∀ p reg, l = .trap p reg → TickLimit b w.machine ∧ w'.machine.control = .off ∨
      ¬ TickLimit b w.machine ∧ w'.machine.control = .handling := by
    intro p reg hlabel
    rw [hlabel] at hs
    obtain ⟨-, -, hw', hreg⟩ := hs.trap_inv
    rw [hw']
    exact exceptionEntry_control h.machine.toMemInv hreg
  generalize w'.machine = s' at hm hentry
  unfold Clock at hc ⊢
  cases hm with
  | user hu => simpa [hu, isTimer] using hc
  | @trap reg last showing hu =>
    rcases hentry _ _ rfl with ⟨-, hoff⟩ | ⟨hlimit, -⟩
    · cases hoff
    · have hreg : State.reg { w.machine.setRegisters w.machine.current reg with
          lastTicks := last, showing := showing, control := .handling } = reg := by
        simp [State.reg, State.setRegisters, State.setProc]
      simp only [hu] at hc
      simp only [hreg, isTimer, decide_eq_true_eq, hc.2]
      exact ⟨lt_of_le_of_ne hc.1 fun heq => hlimit ⟨hL.1, heq⟩, rfl⟩
  | limit => trivial
  | off => trivial
  | halt => trivial
  | reboot hk => simp [Label.reboot, hk] at hl
  | panic _ hh hn =>
    have hi : w.machine.reg.intno ≠ intTimer := fun hi => hn (.inr (.inr (.inr (.inl hi))))
    simp only [hh, if_neg hi] at hc
    exact ⟨hc.1.le, hc.2⟩
  | getpid _ hh hi =>
    simp only [hh, hi, if_neg (show intSysGetpid ≠ intTimer by decide)] at hc
    exact ⟨hc.1.le, hc.2⟩
  | yield _ hh hi =>
    simp only [hh, hi, if_neg (show intSysYield ≠ intTimer by decide)] at hc
    exact ⟨hc.1.le, hc.2⟩
  | timer _ hh hi =>
    simp only [hh, hi, if_true] at hc
    have htick : (w.machine.ticks + 1).toNat = w.machine.ticks.toNat + 1 := by
      rw [BitVec.toNat_add]
      exact Nat.mod_eq_of_lt (by simp; omega)
    simp only [htick, isTimer, Bool.false_eq_true, if_false]
    omega
  | grant _ hh hi =>
    simp only [hh, hi, if_neg (show intSysPageAlloc ≠ intTimer by decide)] at hc
    exact ⟨hc.1.le, hc.2⟩
  | refuse _ hh hi =>
    simp only [hh, hi, if_neg (show intSysPageAlloc ≠ intTimer by decide)] at hc
    exact ⟨hc.1.le, hc.2⟩
  | fault _ hh hi =>
    simp only [hh, hi, if_neg (show intPagefault ≠ intTimer by decide)] at hc
    exact ⟨hc.1.le, hc.2⟩
  | polled _ hp => simpa [hp, isTimer] using hc
  | failing _ hf => simpa [hf, isTimer] using hc
  | skip hp => simpa [hp, isTimer] using hc
  | pick hp => simpa [hp, isTimer] using hc

/-! ## No panic -/

theorem startup_four (hstart : startup b t.command = fourAllocators) {p n : Nat}
    (hn : (p, n) ∈ startup b t.command) :
    n < 4 := by
  rw [hstart] at hn
  have hall : ∀ e ∈ fourAllocators, e.2 < 4 := by decide
  exact hall _ hn

theorem Inv.no_panic (h : Inv b g t w) (hstart : startup b t.command = fourAllocators)
    (msg : String) :
    w.machine.control ≠ .failing msg := by
  intro hf
  obtain ⟨-, hpc, n, hn⟩ := h.failing msg hf
  have hphase := (h.proper _ hn).phase
  unfold Phase at hphase
  simp only [show (w.view w.machine.current).app.pc = .forked from hpc] at hphase
  have hlt := startup_four hstart hn
  rcases hphase.1 with ⟨hfork, -⟩ | ⟨hfork, -⟩
  · exact absurd hfork hlt.ne
  · exact absurd hfork (hlt.trans (by decide)).ne

theorem next_command (t : Tally) (hl : l.reboot = none) : (t.next l).command = t.command := by
  cases l with
  | trap p reg => exact (t.next_trap p reg).1
  | _ => rw [t.next_same hl (by simp)]

/-- Between exceptions nothing is logged. -/
theorem stepLog_silent (h : Inv b g t w) (hg : g.Linked b)
    (hstart : startup b t.command = fourAllocators) (hs : Step b g w l w') (hl : l.reboot = none)
    (htrap : ∀ p reg, l ≠ .trap p reg) (stack : Nat → UInt8) (buf : Nat) (cr2 : Word) :
    stepLog b stack buf cr2 w.machine l = .ok [] := by
  cases l with
  | trap p reg => exact absurd rfl (htrap p reg)
  | poll key =>
    rw [stepLog]
    split_ifs with hk
    · cases hd : dispatch b w.machine with
      | ok s => rfl
      | error msg =>
        obtain ⟨hinv, hmachine⟩ := inv_next hg h hs
        have hfail : w'.machine.control = .failing msg := by
          generalize w'.machine = s' at hmachine
          cases hmachine with
          | poll =>
            unfold poll afterPoll
            simp only [hk.1, hk.2, hd]
            rfl
          | fail _ hf =>
            rw [hk.2] at hf
            cases hf
        rw [← next_command t hl] at hstart
        exact absurd hfail (hinv.no_panic hstart msg)
    · rfl
  | _ => rfl

/-! ## Runs -/

theorem Recorded.put {n : Nat} {tl : Timeline} (h : Recorded b t.command n tl) {s : State}
    (hs : Dumped b t.command s) (hn : n < b.tickLimit) (hmod : n % 100 = 0) :
    Recorded b t.command (n + 1) (tl.put n (Log.dumped s)) := by
  refine ⟨fun tick => ?_, fun tick inst hdata => ?_, h.panic⟩
  · rw [put_memData, h.ticks]
    constructor
    · intro htick
      rcases htick with rfl | ⟨k, rfl, hk⟩
      · exact ⟨n / 100, by omega, by omega⟩
      · exact ⟨k, rfl, by omega⟩
    · intro htick
      obtain ⟨k, rfl, hk⟩ := htick
      by_cases heq : 100 * k = n
      · exact .inl (by rw [heq])
      · exact .inr ⟨k, rfl, by omega⟩
  · unfold Timeline.put at hdata
    dsimp only at hdata
    by_cases htick : tick = n
    · rw [htick, Function.update_self, Option.some.injEq] at hdata
      exact ⟨s, hs, hdata.symm⟩
    · rw [Function.update_of_ne htick] at hdata
      exact h.dumps tick inst hdata

theorem Recorded.fresh {n : Nat} {tl : Timeline} (h : Recorded b t.command n tl) :
    tl.memData n = none := by
  rw [← Option.not_isSome_iff_eq_none, h.ticks]
  intro htick
  obtain ⟨k, hk, hlt⟩ := htick
  omega

theorem Recorded.skip {n : Nat} {tl : Timeline} (h : Recorded b t.command n tl)
    (hn : b.tickLimit ≤ n ∨ n % 100 ≠ 0) :
    Recorded b t.command (n + 1) tl := by
  refine ⟨fun tick => ?_, h.dumps, h.panic⟩
  rw [h.ticks]
  refine exists_congr fun k => and_congr_right fun _ => ?_
  omega

theorem LogInv.next {x y : World × Bytes} {n : Nat} (h : Inv b g t x.1) (hg : g.Linked b)
    (hstart : startup b t.command = fourAllocators) (hs : LogStep b g x l y) (hl : l.reboot = none)
    (hL : b.tickLimit ≠ 0 ∧ b.tickLimit < 2 ^ 32) (hI : LogInv b t.command n x) :
    LogInv b t.command (n + if isTimer l then 1 else 0) y := by
  obtain ⟨hstep, stack, buf, cr2, out, hout, htext⟩ := hs
  obtain ⟨tl, htl, hrec⟩ := hI.timeline
  have hlog : IsText y.2 ∧ ∃ tl, memMapTimeline y.2 = .ok tl ∧
      Recorded b t.command (n + if isTimer l then 1 else 0) tl := by
    by_cases htrap : ∃ p reg, l = .trap p reg
    · obtain ⟨p, reg, rfl⟩ := htrap
      obtain ⟨huser, -, -, hreg⟩ := hstep.trap_inv
      have hclock := hI.clock
      rw [Clock, huser] at hclock
      obtain ⟨hle, hn⟩ := hclock
      obtain ⟨text, htext', hlines, hnone, hdump⟩ :=
        exceptionLog_text h.machine.toMemInv stack buf reg
      obtain rfl : text = out := by
        rw [stepLog, htext'] at hout
        cases hout
        rfl
      rw [htext]
      refine ⟨hI.text.append hlines, ?_⟩
      by_cases hd : Dumps b x.1.machine reg
      · have hlt : n < b.tickLimit := lt_of_le_of_ne (hn.le.trans hle) (hn.trans_ne hd.2.2.1)
        have hrecord := hrec.put (h.dumped hI.homed reg) hlt (by rw [hn]; exact hd.2.2.2.2)
        rw [hn] at hrecord hrec
        refine ⟨_, hdump hd _ _ hI.text htl hrec.fresh, ?_⟩
        rw [isTimer, if_pos (decide_eq_true hd.2.2.2.1), hn]
        exact hrecord
      · rw [hnone hd, List.append_nil]
        refine ⟨tl, htl, ?_⟩
        by_cases hi : reg.intno = intTimer
        · rw [isTimer, if_pos (decide_eq_true hi)]
          apply hrec.skip
          by_contra hno
          rw [not_or, not_le, not_not, hn] at hno
          exact hd ⟨hreg, hL.1, hno.1.ne, hi, hno.2⟩
        · rw [isTimer, if_neg (by simpa using hi)]
          exact hrec
    · have hsilent := stepLog_silent h hg hstart hstep hl (fun p reg heq => htrap ⟨p, reg, heq⟩)
        stack buf cr2
      rw [hsilent] at hout
      cases hout
      have htimer : isTimer l = false := by
        cases l with
        | trap p reg => exact absurd ⟨p, reg, rfl⟩ htrap
        | _ => rfl
      rw [htext, List.append_nil, htimer]
      exact ⟨hI.text, tl, htl, hrec⟩
  exact ⟨h.homed hg hstep hl hI.homed, hI.clock.next h hg hstep hl hL, hlog.1, hlog.2⟩

/-- Every step leaves a log. -/
theorem logStep_exists (h : Inv b g t w) (hg : g.Linked b)
    (hstart : startup b t.command = fourAllocators) (hs : Step b g w l w') (hl : l.reboot = none)
    (log : Bytes) :
    ∃ log', LogStep b g (w, log) l (w', log') := by
  by_cases htrap : ∃ p reg, l = .trap p reg
  · obtain ⟨p, reg, rfl⟩ := htrap
    obtain ⟨text, htext, -⟩ := exceptionLog_text h.machine.toMemInv (fun _ => 0) 0 reg
    exact ⟨_, hs, fun _ => 0, 0, 0, text, htext, rfl⟩
  · have hsilent := stepLog_silent h hg hstart hs hl (fun p reg heq => htrap ⟨p, reg, heq⟩)
      (fun _ => 0) 0 0
    exact ⟨_, hs, fun _ => 0, 0, 0, [], hsilent, rfl⟩

end

section
variable {b : Build} {g : Programs} {command : Option String} {s₀ : State} {ls : List Label}

theorem log_run (hg : g.Linked b) (hstart : startup b command = fourAllocators)
    (hL : b.tickLimit ≠ 0 ∧ b.tickLimit < 2 ^ 32) (hticks : s₀.ticks = 0)
    (hkeys : ∀ l ∈ ls, l.reboot = none) {x : World × Bytes}
    (hr : Run (LogStep b g) (World.start b command s₀, []) ls x) :
    ∃ t : Tally, t.command = command ∧ Inv b g t x.1 ∧ LogInv b command (timers ls) x := by
  induction hr with
  | nil =>
    have hboot : (kernel b command s₀).ticks = 0 := by
      obtain ⟨-, -, -, -, -, -, hboot, -⟩ := kernel_setup b command s₀
      rw [hboot, hticks]
    have hclock : Clock b 0 (kernel b command s₀) := by
      rw [Clock, (kernel_ok b command s₀).2.1, hboot]
      exact ⟨Nat.zero_le _, rfl⟩
    refine ⟨.boot command, rfl, inv_boot hg command s₀ rfl, kernel_homed b command s₀, hclock,
      isText_nil, .empty, rfl,
      fun tick => ?_, fun tick inst hdata => ?_, rfl⟩
    · exact iff_of_false Bool.false_ne_true fun htick => by simp [timers] at htick
    · cases hdata
  | @snoc es x l y _ hs ih =>
    obtain ⟨t, rfl, hinv, hlog⟩ := ih fun e he => hkeys e (List.mem_append_left _ he)
    have hl := hkeys l (by simp)
    refine ⟨t.next l, next_command t hl, (inv_next hg hinv hs.1).1, ?_⟩
    have hnext := hlog.next hinv hg hstart hs hl hL
    rw [timers, List.countP_append, List.countP_singleton]
    exact hnext

theorem tally_command (t : Tally) (hkeys : ∀ l ∈ ls, l.reboot = none) :
    (ls.foldl Tally.next t).command = t.command := by
  induction ls generalizing t with
  | nil => rfl
  | cons l ls ih =>
    rw [List.foldl_cons, ih _ fun e he => hkeys e (List.mem_cons_of_mem l he),
      next_command t (hkeys l List.mem_cons_self)]

theorem log_exists (hg : g.Linked b) (hstart : startup b command = fourAllocators)
    (hkeys : ∀ l ∈ ls, l.reboot = none) {w : World}
    (hr : Run (Step b g) (World.start b command s₀) ls w) :
    ∃ log, Run (LogStep b g) (World.start b command s₀, []) ls (w, log) := by
  induction hr with
  | nil => exact ⟨[], .nil⟩
  | @snoc es w l w' hr hs ih =>
    have hes : ∀ e ∈ es, e.reboot = none := fun e he => hkeys e (List.mem_append_left _ he)
    obtain ⟨log, hlog⟩ := ih hes
    have hcommand : (tally command es).command = command := tally_command (.boot command) hes
    obtain ⟨log', hstep⟩ := logStep_exists (system_run hg command s₀ hr).1 hg
      (by rw [hcommand]; exact hstart) hs
      (hkeys l (by simp)) log
    exact ⟨log', hlog.snoc hstep⟩

/-- What `parse_log.py` makes of a run of the handout. -/
structure Graded (b : Build) (g : Programs) (command : Option String) (s₀ : State) (ls : List Label)
    (w : World) : Prop where
  logged : ∃ log, Run (LogStep b g) (World.start b command s₀, []) ls (w, log)
  -- The kernel gets its point if it lasts, the invariants hold, and no stage passes.
  score : ∀ log, Run (LogStep b g) (World.start b command s₀, []) ls (w, log) →
    ∀ gradeFrom gradeUpTo,
    grade (some log) gradeFrom gradeUpTo =
      .ok ⟨if expectedRun (min (timers ls) b.tickLimit) then 1 else 0, 1, 0⟩

theorem handout_grade (b : Build) (g : Programs) (hg : g.Linked b) (command : Option String)
    (hstart : startup b command = fourAllocators) (hL : b.tickLimit ≠ 0 ∧ b.tickLimit < 2 ^ 32)
    (s₀ : State) (hticks : s₀.ticks = 0) {ls : List Label} (hkeys : ∀ l ∈ ls, l.reboot = none)
    {w : World} (hr : Run (Step b g) (World.start b command s₀) ls w) :
    Graded b g command s₀ ls w := by
  refine ⟨log_exists hg hstart hkeys hr, fun log hlog gradeFrom gradeUpTo => ?_⟩
  obtain ⟨t, rfl, -, hinv⟩ := log_run hg hstart hL hticks hkeys hlog
  obtain ⟨tl, htl, hrec⟩ := hinv.timeline
  exact grade_recorded hstart hrec htl gradeFrom gradeUpTo

def gradedBuild : Build := { demoBuild with tickLimit := 1000 }

theorem graded_linked : demoPrograms.Linked gradedBuild :=
  ⟨demo_linked.covers, demo_linked.start, demo_linked.below⟩

theorem handout_grade_timer : Graded gradedBuild demoPrograms none blank
    [.trap (kernel gradedBuild none blank).current
      { (World.start gradedBuild none blank).regs with intno := intTimer, err := 0 }]
    ((World.start gradedBuild none blank).trapped gradedBuild
      { (World.start gradedBuild none blank).regs with intno := intTimer, err := 0 }
          (World.start gradedBuild none blank).app) :=
  handout_grade gradedBuild demoPrograms graded_linked none (by decide) (by decide) blank rfl
    (by simp [Label.reboot])
    (Run.single (Step.timer (kernel_ok gradedBuild none blank).2.1))

end

end Csc412.Process
