import Csc412.Process.AllocatorSound

/-!
# The kernel with its programs

Whatever the order of system calls, timer interrupts and key presses, the allocators
share the machine without a fault or a refused page, and the heap of each grows as its
own random numbers say, however it is interrupted (`allocators_run`). A program that
forks ends in a panic (`fork_panics`).
-/

namespace Csc412.Process

open Lib Kernel

/-- The last boot of a trace and how often each process has yielded since. -/
structure Tally where
  command : Option String
  yields : Nat → Nat

def Tally.boot (command : Option String) : Tally := ⟨command, fun _ => 0⟩

def Tally.next (t : Tally) (l : Label) : Tally :=
  match l.reboot, l with
  | some argument, _ => .boot (some argument)
  | none, .trap p reg =>
    if reg.intno = intSysYield then { t with yields := Function.update t.yields p (t.yields p + 1) }
      else t
  | none, _ => t

def tally (command : Option String) (ls : List Label) : Tally := ls.foldl Tally.next (.boot command)

def Ended (c : Control) : Bool :=
  match c with
  | .off => true
  | .failing _ => true
  | _ => false

def World.view (w : World) (p : Nat) : View where
  app := w.apps p
  state := (w.machine.procs p).state
  regs := if w.machine.control = .user ∧ w.machine.current = p then w.regs
    else (w.machine.procs p).registers
  call := if w.machine.control = .handling ∧ w.machine.current = p
    then some (w.machine.procs p).registers.intno else none
  stopped := decide (w.machine.current = p) && Ended w.machine.control
  info pn := w.machine.pageinfo pn
  mem := w.machine.mem

structure Inv (b : Build) (g : Programs) (t : Tally) (w : World) : Prop where
  machine : Kernel.Inv b w.machine
  free : ∀ p, p ∉ (startup b t.command).map Prod.fst → (w.machine.procs p).state = .free
  proper : ∀ e ∈ startup b t.command, Proper b g e.2 e.1 (t.yields e.1) (w.view e.1)
  failing : ∀ msg, w.machine.control = .failing msg → msg = "Unexpected exception %d!\n" ∧
    w.app.pc = .forked ∧
    ∃ n, (w.machine.current, n) ∈ startup b t.command

section
variable {b : Build} {g : Programs} {t : Tally} {w w' : World} {l : Label}

/-! ## Traces -/

theorem Tally.next_reboot {argument : String} (h : l.reboot = some argument) :
    t.next l = .boot (some argument) := by
  simp only [Tally.next, h]

theorem Tally.next_same (h : l.reboot = none) (hl : ∀ p reg, l ≠ .trap p reg) : t.next l = t := by
  unfold Tally.next
  cases l with
  | trap p reg => exact absurd rfl (hl p reg)
  | _ => simp_all

theorem Tally.next_trap (t : Tally) (p : Nat) (reg : Registers) :
    (t.next (.trap p reg)).command = t.command ∧
    (t.next (.trap p reg)).yields p = (if reg.intno = intSysYield then t.yields p + 1
      else t.yields p) ∧
    ∀ q, q ≠ p → (t.next (.trap p reg)).yields q = t.yields q := by
  change (if reg.intno = intSysYield then ({ t with yields := _ } : Tally) else t).command = _ ∧ _
  simp only [Tally.next, Label.reboot]
  split
  · exact ⟨rfl, Function.update_self .., fun q hq => Function.update_of_ne hq ..⟩
  · exact ⟨rfl, rfl, fun _ _ => rfl⟩

/-! ## A boot -/

theorem startup_program (b : Build) (command : Option String) {e : Nat × Nat}
    (he : e ∈ startup b command) :
    ((startup b command).lookup e.1).getD 0 = e.2 ∧ e.2 < 6 := by
  have hlookup : ∀ e ∈ startup b command, ((startup b command).lookup e.1).getD 0 = e.2 := by
    unfold startup
    split_ifs <;> decide
  exact ⟨hlookup e he, (startup_placed b command e he).program_lt⟩

theorem setup_onStack {p n : Nat} (hpl : Placed p n) : OnStack p (setupRegisters b p n) := by
  have h := stackTop_eq hpl
  change (stackTop p).toNat - 4096 < (stackTop p).toNat ∧ (stackTop p).toNat ≤ (stackTop p).toNat
  omega

theorem inv_boot (hg : g.Linked b) (command : Option String) (s : State) {regs : Registers}
    (hregs : regs = ((kernel b command s).procs (kernel b command s).current).registers) :
    Inv b g (.boot command) ⟨kernel b command s, regs, startApps b command⟩ := by
  obtain ⟨hinv, hctl, hcur, hset, hfree⟩ := kernel_ok b command s
  refine ⟨hinv, fun p hp => by rw [hfree p hp]; rfl, fun e he => ?_, fun msg hm => ?_⟩
  · obtain ⟨hprog, hn⟩ := startup_program b command he
    have hpl := startup_placed b command e he
    have hproc := hset e he
    have hpages := kernel_pages b command s e he
    have happ : startApps b command e.1 = App.start e.2 := by rw [startApps, hprog]
    have hview : (World.view ⟨kernel b command s, regs, startApps b command⟩ e.1).regs =
        setupRegisters b e.1 e.2 := by
      simp only [World.view]
      split
      · rename_i h
        rw [hregs, h.2, hproc]
        rfl
      · rw [hproc]
        rfl
    have hslot : Slot g e.2 e.1 (heapPage g e.2)
        (World.view ⟨kernel b command s, regs, startApps b command⟩ e.1) := by
      have hb := heapPage_bounds hg hn
      refine ⟨le_refl _, hb.2, fun pn h₁ h₂ => by omega,
        fun pn h₁ h₂ => (hpages pn).2 (by omega) (by omega) ?_⟩
      rw [takes_iff hg hn]
      omega
    refine ⟨?_, ?_, by rw [hview]; exact setup_onStack hpl, fun pn ht => (hpages pn).1 ht,
      fun i hi => ?_, ?_⟩
    · simp only [World.view, happ]
      rfl
    · simp only [World.view, hproc]
      rfl
    · simp [World.view, hctl] at hi
    · unfold Phase
      have hpc : (World.view ⟨kernel b command s, regs, startApps b command⟩ e.1).app.pc =
          (App.start e.2).pc := by
        simp only [World.view, happ]
      rw [hpc]
      simp only [App.start]
      by_cases h4 : e.2 = 4
      · simp only [if_pos h4]
        exact ⟨.inl ⟨h4, rfl⟩, hslot⟩
      · by_cases h5 : e.2 = 5
        · simp only [if_neg h4, if_pos h5]
          refine ⟨h5, ?_, fun i hi => by simp [Tally.boot] at hi, hslot⟩
          simp only [World.view, happ]
          rfl
        · simp only [if_neg h4, if_neg h5]
          exact ⟨by omega, rfl, hslot⟩
  · simp [hctl] at hm

/-! ## Exceptions -/

theorem view_running (h : w.machine.control = .user) (p : Nat) : (w.view p).Running := by
  simp [View.Running, World.view, h, Ended]

theorem view_trapped (hI : MemInv b w.machine) (hc : w.machine.control = .user) (reg : Registers)
    (a : App) :
    (∀ p, p ≠ w.machine.current → (w.trapped b reg a).view p = w.view p) ∧
      ∃ call stopped, Taken (w.view w.machine.current) reg.intno call stopped ∧
        (w.trapped b reg a).view w.machine.current =
          { w.view w.machine.current with app := a, regs := reg, call := call,
                                          stopped := stopped } := by
  have hm := exceptionEntry_move hI hc reg
  have hrun := view_running hc w.machine.current
  unfold World.trapped
  generalize exceptionEntry b w.machine reg = s at hm
  cases hm with
  | trap =>
    refine ⟨fun p hp => ?_, some reg.intno, false, ⟨hrun, .inl rfl⟩, ?_⟩
    · simp [World.view, State.setRegisters, State.setProc, hp, hp.symm, hc]
    · simp [World.view, State.setRegisters, State.setProc, Ended]
  | limit =>
    refine ⟨fun p hp => ?_, none, true, ⟨hrun, .inr ⟨rfl, rfl⟩⟩, ?_⟩
    · simp [World.view, State.setRegisters, State.setProc, hp, hp.symm, hc]
    · simp [World.view, State.setRegisters, State.setProc, Ended]

theorem move_free {s s' : State} (hI : Kernel.Inv b s) (hm : Move b s l s') (hl : l.reboot = none)
    {p : Nat} (h : (s.procs p).state = .free) : (s'.procs p).state = .free := by
  cases hm with
  | reboot hk => simp [Label.reboot, hk] at hl
  | user => exact h
  | trap => exact (setRegisters_fields _ _ _ _).2.2.trans h
  | limit => exact (setRegisters_fields _ _ _ _).2.2.trans h
  | getpid => exact (setRegisters_fields _ _ _ _).2.2.trans h
  | grant => exact (setRegisters_fields (granted _ _ _) _ _ _).2.2.trans h
  | refuse => exact (setRegisters_fields _ _ _ _).2.2.trans h
  | fault hk hc hi he =>
    have hctl := hI.control
    rw [hc] at hctl
    have hne : p ≠ s.current := by
      rintro rfl
      rw [hctl.2] at h
      cases h
    simp only [State.broken, setProc_procs, if_neg hne]
    exact h
  | _ => exact h

/-- The running process is one that the boot started. -/
theorem Inv.current (h : Inv b g t w)
    (hc : w.machine.control = .user ∨ w.machine.control = .handling) :
    ∃ n, (w.machine.current, n) ∈ startup b t.command := by
  have hctl := h.machine.control
  have hrun : (w.machine.procs w.machine.current).state = .runnable := by
    rcases hc with hc | hc <;> rw [hc] at hctl <;> exact hctl.2
  by_contra hno
  have hf := h.free w.machine.current fun hmem => by
    obtain ⟨⟨p, n⟩, he, hp⟩ := List.mem_map.mp hmem
    simp only at hp
    exact hno ⟨n, hp ▸ he⟩
  rw [hf] at hrun
  cases hrun

theorem startup_unique (b : Build) (command : Option String) {p n n' : Nat}
    (h : (p, n) ∈ startup b command) (h' : (p, n') ∈ startup b command) : n = n' :=
  congrArg Prod.snd (List.inj_on_of_nodup_map (startup_nodup b command) h h' rfl)

/-- An exception of the running process. -/
theorem Inv.trapped (h : Inv b g t w) (hc : w.machine.control = .user) {reg : Registers} {a : App}
    (hp : ∀ n, (w.machine.current, n) ∈ startup b t.command → ∀ call stopped,
      Taken (w.view w.machine.current) reg.intno call stopped →
      Proper b g n w.machine.current
        ((t.next (.trap w.machine.current reg)).yields w.machine.current)
        { w.view w.machine.current with app := a, regs := reg, call := call, stopped := stopped }) :
    Inv b g (t.next (.trap w.machine.current reg)) (w.trapped b reg a) := by
  obtain ⟨hcmd, -, hothers⟩ := t.next_trap w.machine.current reg
  obtain ⟨hview, call, stopped, htaken, hself⟩ := view_trapped h.machine.toMemInv hc reg a
  have hstep : Kernel.Step b w.machine (.trap w.machine.current reg) (w.trapped b reg a).machine :=
    .trap reg hc
  have hm := step_move h.machine hstep
  refine ⟨inv_step h.machine hstep, fun p hpm => ?_, fun e he => ?_, fun msg hf => ?_⟩
  · rw [hcmd] at hpm
    exact move_free h.machine hm rfl (h.free p hpm)
  · rw [hcmd] at he
    by_cases hcur : e.1 = w.machine.current
    · have hmem : (w.machine.current, e.2) ∈ startup b t.command := by
        rw [← hcur]
        exact he
      rw [hcur, hself]
      exact hp e.2 hmem call stopped htaken
    · rw [hview _ hcur, hothers _ hcur]
      exact h.proper e he
  · generalize hs : (w.trapped b reg a).machine = s at hm hf
    cases hm with
    | trap => cases hf
    | limit => cases hf

/-! ## User code -/

theorem view_ran (hc : w.machine.control = .user) (a : App) (m : Mem) (regs : Registers) :
    (∀ p, p ≠ w.machine.current → (w.ran a m regs).view p = { w.view p with mem := m }) ∧
      (w.ran a m regs).view w.machine.current =
        { w.view w.machine.current with app := a, regs := regs, mem := m } := by
  refine ⟨fun p hp => ?_, ?_⟩
  · simp [World.view, World.ran, hp, hp.symm, hc, Ended]
  · simp [World.view, World.ran, hc, Ended]

theorem pteAddr_page {pn : Nat} (h : pn < npages) :
    pteAddr (BitVec.ofNat 64 (pn * 4096)) = BitVec.ofNat 64 (pn * 4096) := by
  apply BitVec.eq_of_toNat_eq
  rw [pteAddr_toNat, page_toNat h]
  omega

theorem page_ne_table (b : Build) {pn k : Nat} (h : 256 ≤ pn) (hp : pn < npages) (hk : k < 5) :
    BitVec.ofNat 64 (pn * 4096) ≠ b.table k := by
  intro he
  have hb := table_bounds b hk
  have hend := b.end_le
  rw [← he, page_toNat hp] at hb
  unfold kernelStackTop at hend
  omega

/-- A page of the heap of a process is nobody's code, data or stack. -/
theorem heap_page (hg : g.Linked b) {command : Option String} {e : Nat × Nat}
    (he : e ∈ startup b command) {pn : Nat} (h₁ : heapPage g e.2 ≤ pn) (h₂ : pn < stackPage e.2) :
    256 ≤ pn ∧ pn < npages ∧ ∀ e' ∈ startup b command, ¬ Takes b e'.2 pn := by
  have hpl := startup_placed b command e he
  have hb := heapPage_bounds hg hpl.program_lt
  have hs := slot_page e.2
  have hlt := stackPage_lt e.2
  refine ⟨by omega, by omega, fun e' he' ht => ?_⟩
  have hpl' := startup_placed b command e' he'
  by_cases hpid : e'.1 = e.1
  · rw [List.inj_on_of_nodup_map (startup_nodup b command) he' he hpid,
      takes_iff hg hpl.program_lt] at ht
    omega
  · have hsep := hpl'.apart hpl hpid
    have hslot := ht.slot hpl'
    omega

theorem getByte_congr {m m' : Mem} {pn : Nat} (hpn : pn < npages)
    (h : m' (BitVec.ofNat 64 (pn * 4096)) = m (BitVec.ofNat 64 (pn * 4096))) :
    m'.getByte (BitVec.ofNat 64 (pn * 4096)) = m.getByte (BitVec.ofNat 64 (pn * 4096)) := by
  unfold Mem.getByte
  rw [pteAddr_page hpn, h]

section
variable {command : Option String} {e e' : Nat × Nat} {s : State} {m : Mem}

/-- What a process writes leaves every heap alone, its own included. -/
theorem OwnWrite.sameHeap (hw : OwnWrite b e'.2 s m) (hg : g.Linked b) (he : e ∈ startup b command)
    (he' : e' ∈ startup b command) : SameHeap g e.2 s.mem m := by
  intro pn h₁ h₂
  obtain ⟨hlo, hlt, hnone⟩ := heap_page hg he h₁ h₂
  apply getByte_congr hlt
  funext i
  rcases hw (BitVec.ofNat 64 (pn * 4096)) i with h | ⟨⟨k, hk, hpt⟩, -⟩ | ⟨qn, ht, hpt⟩
  · exact h
  · exact absurd hpt (page_ne_table b hlo hlt hk)
  · have hpl' := startup_placed b command e' he'
    have hslot := ht.slot hpl'
    have hst := stackPage_lt e'.2
    rw [(page_inj hlt (by omega)).mp hpt] at hnone
    exact absurd ht (hnone e' he')

theorem not_kernelOwns {pn p : Nat} (hpn : pn < npages) (hi : s.pageinfo pn = ⟨p, 1⟩) :
    ¬ s.kernelOwns (BitVec.ofNat 64 (pn * 4096)) := by
  intro hk
  unfold State.kernelOwns at hk
  rw [pagenumber_page (page_toNat hpn) (by unfold npages at hpn; exact hpn), hi] at hk
  simp only [poKernel] at hk
  omega

theorem OwnWrite.userWrite (hw : OwnWrite b e.2 s m) (hpl : Placed e.1 e.2)
    (ht : ∀ pn, Takes b e.2 pn → s.pageinfo pn = ⟨e.1, 1⟩) : UserWrite s m := by
  intro pt i hk
  rcases hw pt i with h | ⟨-, h⟩ | ⟨pn, htake, rfl⟩
  · exact .inl h
  · exact .inr h
  · have hslot := htake.slot hpl
    have hst := stackPage_lt e.2
    exact absurd hk (not_kernelOwns (by omega) (ht pn htake))

theorem UserWrite.setByte {pn p : Nat} (hw : UserWrite s m) (hpn : pn < npages)
    (hi : s.pageinfo pn = ⟨p, 1⟩) (v : BitVec 8) :
    UserWrite s (m.setByte (BitVec.ofNat 64 (pn * 4096)) v) := by
  intro pt i hk
  have hne : pteAddr (BitVec.ofNat 64 (pn * 4096)) ≠ pt := by
    rw [pteAddr_page hpn]
    rintro rfl
    exact not_kernelOwns hpn hi hk
  rw [setByte_other m hne v]
  exact hw pt i hk

/-- A store at the start of a page leaves the other pages alone. -/
theorem SameHeap.setByte {m₀ : Mem} {n pn : Nat} (h : SameHeap g n m₀ m) (hpn : pn < npages)
    (hout : pn < heapPage g n ∨ stackPage n ≤ pn) (v : BitVec 8) :
    SameHeap g n m₀ (m.setByte (BitVec.ofNat 64 (pn * 4096)) v) := by
  intro qn h₁ h₂
  have hlt := stackPage_lt n
  rw [getByte_setByte, if_neg fun he => by have := (page_inj (by omega) hpn).mp he; omega]
  exact h qn h₁ h₂

end

/-- User code of the running process. -/
theorem Inv.ran (h : Inv b g t w) (hc : w.machine.control = .user) {a : App} {m : Mem}
    {regs : Registers}
    (hw : UserWrite w.machine m)
    (hself : ∀ n, (w.machine.current, n) ∈ startup b t.command → Proper b g n w.machine.current
      (t.yields w.machine.current)
      { w.view w.machine.current with app := a, regs := regs, mem := m })
    (hother : ∀ e ∈ startup b t.command, e.1 ≠ w.machine.current → SameHeap g e.2 w.machine.mem m) :
    Inv b g (t.next (.user m)) (w.ran a m regs) ∧
      Kernel.Step b w.machine (.user m) (w.ran a m regs).machine := by
  have hstep : Kernel.Step b w.machine (.user m) (w.ran a m regs).machine := .user hc hw
  obtain ⟨hview, hcur⟩ := view_ran hc a m regs
  rw [Tally.next_same rfl (by simp)]
  refine ⟨⟨inv_step h.machine hstep, h.free, fun e he => ?_, fun msg hf => ?_⟩, hstep⟩
  · by_cases hpid : e.1 = w.machine.current
    · have hmem : (w.machine.current, e.2) ∈ startup b t.command := by
        rw [← hpid]
        exact he
      rw [hpid, hcur]
      exact hself e.2 hmem
    · rw [hview _ hpid]
      exact (h.proper e he).frame (fun _ _ => rfl) (samePages_refl g _ _) (hother e he hpid)
  · rw [show (w.ran a m regs).machine.control = w.machine.control from rfl, hc] at hf
    cases hf

/-! ## The kernel -/

/-- How the kernel sees a process. -/
def kernelView (s : State) (a : App) (p : Nat) : View where
  app := a
  state := (s.procs p).state
  regs := (s.procs p).registers
  call := if s.control = .handling ∧ s.current = p then some (s.procs p).registers.intno else none
  stopped := decide (s.current = p) && Ended s.control
  info pn := s.pageinfo pn
  mem := s.mem

theorem view_kernel (hc : w.machine.control ≠ .user) (p : Nat) :
    w.view p = kernelView w.machine (w.apps p) p := by
  simp [World.view, kernelView, hc]

theorem view_handled {s : State} (hl : l.reboot = none) (p : Nat) :
    (w.handled b l s).view p = kernelView s (w.apps p) p := by
  have hregs : (if s.control = .user ∧ s.current = p then (w.handled b l s).regs
    else (s.procs p).registers) =
      (s.procs p).registers := by
    split
    · rename_i h
      simp only [World.handled, if_pos h.1, h.2]
    · rfl
  simp only [World.view, kernelView]
  rw [show (w.handled b l s).machine = s from rfl, hregs, show (w.handled b l s).apps p =
      w.apps p by
    simp only [World.handled, hl]]

theorem dispatch_fork {s : State} (h : (s.procs s.current).registers.intno = intSysFork) :
    dispatch b s = .error "Unexpected exception %d!\n" := by
  unfold dispatch
  simp only [h]
  rfl

/-- What the kernel does for the running process, told from that process's view. -/
theorem Inv.answered (h : Inv b g t w) {s : State} (hc : w.machine.control ≠ .user)
    (hl : l.reboot = none)
    (htally : t.next l = t) (hs : Kernel.Step b w.machine l s)
    (hfail : ∀ msg, s.control = .failing msg → msg = "Unexpected exception %d!\n" ∧
      (w.apps s.current).pc = .forked ∧
      ∃ n, (s.current, n) ∈ startup b t.command)
    (hp : ∀ e ∈ startup b t.command,
      Proper b g e.2 e.1 (t.yields e.1) (kernelView w.machine (w.apps e.1) e.1) →
      Proper b g e.2 e.1 (t.yields e.1) (kernelView s (w.apps e.1) e.1)) :
    Inv b g (t.next l) (w.handled b l s) := by
  rw [htally]
  refine ⟨inv_step h.machine hs,
    fun p hpm => move_free h.machine (step_move h.machine hs) hl (h.free p hpm),
    fun e he => ?_, fun msg hf => ?_⟩
  · rw [view_handled hl]
    have hprop := h.proper e he
    rw [view_kernel hc] at hprop
    exact hp e he hprop
  · obtain ⟨hmsg, hpc⟩ := hfail msg hf
    refine ⟨hmsg, ?_⟩
    simp only [World.app, World.handled, hl]
    exact hpc

theorem poll_none {key : Int} (hk : checkKeyboard key = .none) :
    (Label.poll key).reboot = none := by
  simp [Label.reboot, hk]

theorem Inv.handled (h : Inv b g t w) (hg : g.Linked b) (hc : w.machine.control ≠ .user) {s : State}
    (hs : Kernel.Step b w.machine l s) : Inv b g (t.next l) (w.handled b l s) := by
  have hm := step_move h.machine hs
  have hpolled : ∀ key, l = .poll key → s = poll b w.machine key := by
    rintro key rfl
    cases hs <;> rfl
  -- the process whose exception is handled
  have hcalled : w.machine.control = .handling → ∃ n, (w.machine.current, n) ∈ startup b t.command ∧
      Proper b g n w.machine.current (t.yields w.machine.current)
        (kernelView w.machine w.app w.machine.current) ∧
      Called (kernelView w.machine w.app w.machine.current) w.machine.reg.intno := by
    intro hh
    obtain ⟨n, hn⟩ := h.current (.inr hh)
    have hprop := h.proper _ hn
    simp only at hprop
    rw [view_kernel hc] at hprop
    exact ⟨n, hn, hprop, hprop.called _ (by simp [kernelView, hh, State.reg])⟩
  have hone : ∀ {n}, (w.machine.current, n) ∈ startup b t.command → ∀ e ∈ startup b t.command,
      e.1 = w.machine.current → e = (w.machine.current, n) := by
    intro n hn e he hpid
    exact List.inj_on_of_nodup_map (startup_nodup b t.command) he hn hpid
  cases hm with
  | user hu => exact absurd hu hc
  | trap hu => exact absurd hu hc
  | limit hu => exact absurd hu hc
  | @off key hk =>
    have hl : (Label.poll key).reboot = none := by simp [Label.reboot, hk]
    refine h.answered hc hl (Tally.next_same hl (by simp)) hs (by simp) fun e he hprop => ?_
    by_cases hcur : w.machine.current = e.1
    · simpa [kernelView, hcur, Ended] using hprop.stop
    · simpa [kernelView, hcur] using hprop
  | @halt msg hf =>
    refine h.answered hc rfl (Tally.next_same rfl (by simp)) hs (by simp) fun e he hprop => ?_
    by_cases hcur : w.machine.current = e.1
    · simpa [kernelView, hcur, Ended] using hprop.stop
    · simpa [kernelView, hcur] using hprop
  | @reboot key argument hk =>
    have hl : (Label.poll key).reboot = some argument := by simp [Label.reboot, hk]
    rw [Tally.next_reboot hl]
    have huser : (softReboot b w.machine argument).control = .user := (kernel_ok b _ _).2.1
    have hworld : w.handled b (.poll key) (softReboot b w.machine argument) =
      ⟨softReboot b w.machine argument,
        ((softReboot b w.machine argument).procs
          (softReboot b w.machine argument).current).registers,
        startApps b (some argument)⟩ := by
      simp only [World.handled, hl, if_pos huser]
    rw [hworld]
    exact inv_boot hg (some argument) _ rfl
  | @panic key msg hk hh hn hmsg =>
    obtain ⟨n, hmem, hprop, hcall⟩ := hcalled hh
    have hl := poll_none hk
    have hfork : w.machine.reg.intno = intSysFork ∧ w.app.pc = .forked := by
      rcases hcall with ⟨hi, -⟩ | ⟨hi, -⟩ | hi | hi | ⟨hi, hpc⟩
      · exact absurd (.inl hi) hn
      · exact absurd (.inr (.inr (.inl hi))) hn
      · exact absurd (.inr (.inl hi)) hn
      · exact absurd (.inr (.inr (.inr (.inl hi)))) hn
      · exact ⟨hi, hpc⟩
    have hpoll : poll b w.machine key =
        { w.machine with control := .failing "Unexpected exception %d!\n" } := by
      unfold poll afterPoll
      simp only [hk, hh]
      rw [dispatch_fork hfork.1]
      rfl
    refine h.answered hc hl (Tally.next_same hl (by simp)) hs
      (fun msg' hf => ⟨?_, hfork.2, n, hmem⟩) fun e he hprop => ?_
    · have hctl := congrArg State.control ((hpolled key rfl).trans hpoll)
      rw [hf] at hctl
      simpa using hctl
    · by_cases hcur : w.machine.current = e.1
      · simpa [kernelView, hcur, Ended] using hprop.stop
      · simpa [kernelView, hcur] using hprop
  | @getpid key hk hh hi =>
    have hl := poll_none hk
    refine h.answered hc hl (Tally.next_same hl (by simp)) hs (by simp) fun e he hprop => ?_
    by_cases hcur : e.1 = w.machine.current
    · have hself := hprop.getpid (by rw [hcur]; simp [kernelView, hh]; exact hi)
      simpa [kernelView, hcur, State.setRegisters, State.setProc, Ended, hh, State.reg] using hself
    · simpa [kernelView, hcur, Ne.symm hcur, State.setRegisters, State.setProc] using hprop
  | @yield key hk hh hi =>
    have hl := poll_none hk
    refine h.answered hc hl (Tally.next_same hl (by simp)) hs (by simp) fun e he hprop => ?_
    by_cases hcur : w.machine.current = e.1
    · have hself := hprop.done (i := intSysYield) (by rw [← hcur]; simp [kernelView, hh]; exact hi)
        (.inl rfl)
      simpa [kernelView, hcur, Ended, hh] using hself
    · simpa [kernelView, hcur] using hprop
  | @timer key hk hh hi =>
    have hl := poll_none hk
    refine h.answered hc hl (Tally.next_same hl (by simp)) hs (by simp) fun e he hprop => ?_
    by_cases hcur : w.machine.current = e.1
    · have hself := hprop.done (i := intTimer) (by rw [← hcur]; simp [kernelView, hh]; exact hi)
        (.inr rfl)
      simpa [kernelView, hcur, Ended, hh] using hself
    · simpa [kernelView, hcur] using hprop
  | @grant key m hk hh hi hgr hmap =>
    have hl := poll_none hk
    obtain ⟨n, hmem, hprop, -⟩ := hcalled hh
    obtain ⟨top, hrdi, h₁, h₂, hzero, hgrant⟩ := hprop.alloc (by simp [kernelView, hh]; exact hi)
    have hrdi' : w.machine.reg.rdi = BitVec.ofNat 64 (top * 4096) := hrdi
    obtain ⟨hlo, hlt, -⟩ := heap_page hg hmem h₁ h₂
    have hnum : pagenumber w.machine.reg.rdi = top := by
      rw [hrdi']
      exact pagenumber_page (page_toNat hlt) (by unfold npages at hlt; exact hlt)
    have hnum' : pagenumber (w.machine.procs w.machine.current).registers.rdi = top := hnum
    have hheap : ∀ e ∈ startup b t.command, SameHeap g e.2 w.machine.mem m := by
      intro e he pn hp₁ hp₂
      obtain ⟨hlo', hlt', -⟩ := heap_page hg he hp₁ hp₂
      exact getByte_congr hlt' (hmap.frame _ (page_ne_table b hlo' hlt' (by decide)))
    refine h.answered hc hl (Tally.next_same hl (by simp)) hs (by simp) fun e he hprop' => ?_
    by_cases hcur : e.1 = w.machine.current
    · obtain rfl := hone hmem e he hcur
      have hself := hgrant (fun pn => if pn = top then ⟨w.machine.current, 1⟩
        else w.machine.pageinfo pn) m (by simp)
        (fun pn hpn => by simp [hpn, kernelView]) (hheap _ hmem)
      simp only at hcur
      simpa [kernelView, State.setRegisters, State.setProc, Ended, State.reg, granted, hnum',
        Function.update_apply, World.app, hh] using hself
    · have hpl := startup_placed b t.command e he
      have hpl' := startup_placed b t.command _ hmem
      have hframe := hprop'.frame (f := fun pn => if pn = top then ⟨w.machine.current, 1⟩
        else w.machine.pageinfo pn)
        (m := m) (fun pn ht => ?_) (fun pn hp₁ hp₂ => ?_) (hheap e he)
      · simpa [kernelView, hcur, Ne.symm hcur, State.setRegisters, State.setProc, Ended, granted,
          hnum, Function.update_apply] using hframe
      · have hused := hprop'.taken pn ht
        by_cases hpn : pn = top
        · rw [hpn] at hused
          simp only [kernelView] at hused hzero
          rw [hused] at hzero
          cases hzero
        · simp [hpn, kernelView]
      · have hb := heapPage_bounds hg hpl.program_lt
        have hb' := heapPage_bounds hg hpl'.program_lt
        have hsep := hpl.apart hpl' hcur
        simp only at hb' hsep
        exact if_neg (by omega)
  | @refuse key hk hh hi hgr =>
    obtain ⟨n, hmem, hprop, -⟩ := hcalled hh
    obtain ⟨top, hrdi, h₁, h₂, hzero, -⟩ := hprop.alloc (by simp [kernelView, hh]; exact hi)
    have hrdi' : w.machine.reg.rdi = BitVec.ofNat 64 (top * 4096) := hrdi
    obtain ⟨-, hlt, -⟩ := heap_page hg hmem h₁ h₂
    refine absurd ⟨?_, ?_, ?_⟩ hgr
    · rw [hrdi', page_toNat hlt]
      omega
    · rw [hrdi', page_toNat hlt]
      unfold npages memsizePhysical at *
      omega
    · rw [hrdi', pagenumber_page (page_toNat hlt) (by unfold npages at hlt; exact hlt)]
      exact hzero
  | @fault key hk hh hi he =>
    obtain ⟨n, hmem, hprop, hcall⟩ := hcalled hh
    rw [hi] at hcall
    rcases hcall with ⟨hc', -⟩ | ⟨hc', -⟩ | hc' | hc' | ⟨hc', -⟩ <;> exact absurd hc' (by decide)
  | @polled key pid hk hp =>
    have hl := poll_none hk
    refine h.answered hc hl (Tally.next_same hl (by simp)) hs (by simp) fun e he hprop => ?_
    simpa [kernelView, hp, Ended] using hprop
  | @failing key msg hk hf =>
    have hl := poll_none hk
    exact h.answered hc hl (Tally.next_same hl (by simp)) hs h.failing fun e he hprop => hprop
  | @skip pid hsch hr =>
    refine h.answered hc rfl (Tally.next_same rfl (by simp)) hs (by simp) fun e he hprop => ?_
    simpa [kernelView, hsch, Ended] using hprop
  | @pick pid hsch hr =>
    refine h.answered hc rfl (Tally.next_same rfl (by simp)) hs (by simp) fun e he hprop => ?_
    simpa [kernelView, hsch, Ended] using hprop

/-! ## Every step -/

theorem lookup_alive {s : State} (h : MemInv b s) {p : Nat} (hal : Alive s p) {va : Word}
    (hva : va.toNat < memsizePhysical) :
    virtualMemoryLookup s.mem (s.procs p).pagetable va = ⟨(va.toNat / 4096 : Nat), va, ptePWU⟩ := by
  rw [h.procs.pagetable _ hal, h.tables.lookup, kernelMapping_of_lt hva]

theorem userLookup_eq (h : Inv b g t w) (hc : w.machine.control = .user) {pn : Nat}
    (hpn : pn < npages) :
    userLookup w.machine (BitVec.ofNat 64 (pn * 4096)) =
      ⟨pn, BitVec.ofNat 64 (pn * 4096), ptePWU⟩ := by
  have hctl := h.machine.control
  rw [hc] at hctl
  have hal : Alive w.machine w.machine.current := by simp [Alive, hctl.2]
  have hlt : (BitVec.ofNat 64 (pn * 4096)).toNat < memsizePhysical := by
    rw [page_toNat hpn]
    unfold npages at hpn
    unfold memsizePhysical
    omega
  unfold userLookup
  rw [lookup_alive h.machine.toMemInv hal hlt, page_toNat hpn, Nat.mul_div_cancel _ (by decide)]

theorem inv_next (hg : g.Linked b) (h : Inv b g t w) (hs : Step b g w l w') :
    Inv b g (t.next l) w' ∧ Kernel.Step b w.machine l w'.machine := by
  cases hs with
  | @compute a m regs hc hnext hw hstk =>
    obtain ⟨n, hmem⟩ := h.current (.inl hc)
    have hpl := startup_placed b t.command _ hmem
    have hrun := view_running hc w.machine.current
    have hprop := h.proper _ hmem
    have hregs : (w.view w.machine.current).regs = w.regs := by simp [World.view, hc]
    have hprog : w.app.program = n := hprop.program
    rw [hprog] at hw
    refine h.ran hc (hw.userWrite hpl hprop.taken) (fun n' hn' => ?_)
      fun e he _ => hw.sameHeap hg he hmem
    rw [startup_unique b t.command hn' hmem]
    exact hprop.next hg hpl hrun (by rw [hregs]; exact hnext) hstk (hw.sameHeap hg hmem hmem)
  | @store m regs hc hpc hwr hw hstk =>
    obtain ⟨n, hmem⟩ := h.current (.inl hc)
    have hpl := startup_placed b t.command _ hmem
    have hprop := h.proper _ hmem
    have hprog : w.app.program = n := hprop.program
    rw [hprog] at hw
    obtain ⟨⟨pn, htop, hlo, hpn, hinfo⟩, hstored⟩ :=
      hprop.store (m := m) hpc (view_running hc _) hstk (hw.sameHeap hg hmem hmem)
    have hlt : pn < npages := by
      have := stackPage_lt n
      simp only at hpn
      omega
    have htop' : w.app.heapTop = BitVec.ofNat 64 (pn * 4096) := htop
    rw [htop', userLookup_eq h hc hlt]
    refine h.ran hc (UserWrite.setByte (hw.userWrite hpl hprop.taken) hlt hinfo _)
      (fun n' hn' => ?_) fun e he hne => ?_
    · rw [startup_unique b t.command hn' hmem]
      rw [htop] at hstored
      exact hstored
    · -- the page is one of the running process, and `e` has another slot
      have hpl' := startup_placed b t.command e he
      have hb := heapPage_bounds hg hpl.program_lt
      have hb' := heapPage_bounds hg hpl'.program_lt
      have hsep := hpl.apart hpl' (Ne.symm hne)
      simp only at hb hlo hpn hsep
      exact (hw.sameHeap hg he hmem).setByte hlt (by omega) _
  | @fault err hc hpc hwr herr =>
    obtain ⟨n, hmem⟩ := h.current (.inl hc)
    have hprop := h.proper _ hmem
    have hstk : OnStack w.machine.current (w.view w.machine.current).regs := hprop.onStack
    obtain ⟨⟨pn, htop, -, hpn, -⟩, -⟩ :=
      hprop.store hpc (view_running hc _) hstk (sameHeap_refl g n _)
    have hlt : pn < npages := by
      have := stackPage_lt n
      simp only at hpn
      omega
    have htop' : w.app.heapTop = BitVec.ofNat 64 (pn * 4096) := htop
    rw [UserWritable, htop', userLookup_eq h hc hlt] at hwr
    exact absurd (show ptePWU &&& (pteP ||| pteW ||| pteU) = pteP ||| pteW ||| pteU by decide) hwr
  | @call reg a hc hcall =>
    refine ⟨h.trapped hc fun n hn call stopped htaken => ?_, .trap reg hc⟩
    have hregs : (w.view w.machine.current).regs = w.regs := by simp [World.view, hc]
    rw [(t.next_trap w.machine.current reg).2.1]
    exact (h.proper _ hn).call (by rw [hregs]; exact hcall) htaken
  | timer hc =>
    refine ⟨h.trapped hc fun n hn call stopped htaken => ?_, .trap _ hc⟩
    have hregs : (w.view w.machine.current).regs = w.regs := by simp [World.view, hc]
    rw [(t.next_trap w.machine.current _).2.1, if_neg (show intTimer ≠ intSysYield by decide),
      ← hregs]
    exact (h.proper _ hn).timer htaken
  | kernel hc hs => exact ⟨h.handled hg hc hs, hs⟩

/-! ## Whole runs -/

theorem tally_snoc (command : Option String) (ls : List Label) (l : Label) :
    tally command (ls ++ [l]) = (tally command ls).next l := by
  simp [tally]

theorem system_run (hg : g.Linked b) (command : Option String) (s₀ : State) {ls : List Label}
    (hr : Run (Step b g) (World.start b command s₀) ls w) :
    Inv b g (tally command ls) w ∧ Run (Kernel.Step b) (kernel b command s₀) ls w.machine := by
  induction hr with
  | nil => exact ⟨inv_boot hg command s₀ rfl, .nil⟩
  | snoc hr hs ih =>
    obtain ⟨hinv, hrun⟩ := ih
    obtain ⟨hinv', hstep⟩ := inv_next hg hinv hs
    rw [tally_snoc]
    exact ⟨hinv', hrun.snoc hstep⟩

end

/-! ## Allocators -/

section
variable {b : Build} {g : Programs}

/-- A process draws a zero in every `2 ^ 32` rounds, if not sooner. -/
theorem passes_cycle {p : Nat} (hp : 1 ≤ p) (k : Nat) :
    passes g p k + 1 ≤ passes g p (k + 2 ^ 32) := by
  have htwice := (rand_cycle (srand (BitVec.ofNat 32 p))).twice k 0 (Nat.zero_le _)
  obtain ⟨i, hi⟩ := Finset.card_pos.mp (by rw [htwice]; decide)
  rw [Finset.mem_filter, Finset.mem_range] at hi
  have hpass : passes g p (k + i + 1) = passes g p (k + i) + 1 := by
    rw [passes, hi.2, if_pos (.inr (by simpa using Nat.lt_of_succ_le hp))]
  have h₁ := passes_mono g p (show k ≤ k + i by omega)
  have h₂ := passes_mono g p (show k + i + 1 ≤ k + 2 ^ 32 by omega)
  omega

theorem le_passes {p : Nat} (hp : 1 ≤ p) (j : Nat) : j ≤ passes g p (2 ^ 32 * j) := by
  induction j with
  | zero => exact Nat.zero_le _
  | succ j ih =>
    have := passes_cycle (g := g) hp (2 ^ 32 * j)
    rw [Nat.mul_succ]
    omega

/-- `process_main` has set `heap_top`. -/
def App.Started (a : App) : Prop := a.pc ≠ .getpid ∧ a.pc ≠ .setup

/-- Between `sys_page_alloc` and the end of `*heap_top = p`. -/
def App.Storing (a : App) : Prop := a.pc = .check ∨ a.pc = .store

/-- The heap of process `p`, which runs allocator `n` and has yielded `k` times. -/
structure HeapAt (b : Build) (g : Programs) (n p k : Nat) (w : World) (top : Nat) : Prop where
  -- The process owns the pages below `top` and its stack page; the rest of its slot is free.
  owned : ∀ pn, slotOf n / 4096 ≤ pn → pn < top ∨ pn = stackPage n → w.machine.pageinfo pn = ⟨p, 1⟩
  free : ∀ pn, top ≤ pn → pn < stackPage n → (w.machine.pageinfo pn).refcount = 0
  -- Its page table maps every address of its pages, for user code to write.
  mapped : ∀ va : Word, slotOf n / 4096 ≤ va.toNat / 4096 →
    va.toNat / 4096 < top ∨ va.toNat / 4096 = stackPage n →
    virtualMemoryLookup w.machine.mem (w.machine.procs p).pagetable va =
      ⟨(va.toNat / 4096 : Nat), va, ptePWU⟩
  -- `top` is the program's `heap_top`, or the end of the page there that was just granted.
  unset : ¬ (w.apps p).Started → top = heapPage g n
  heapTop : (w.apps p).Started → (w.apps p).heapTop.toNat = top * 4096 ∨
    (w.apps p).Storing ∧ (w.apps p).heapTop.toNat + 4096 = top * 4096
  -- The heap grows as the numbers of `rand` say, whoever else runs, until it meets the stack.
  grown : min (stackPage n) (heapPage g n + passes g p k) ≤ top
  bound : top ≤ min (stackPage n) (heapPage g n + passes g p (k + 1))
  idle : (w.apps p).pc = .idle → top = stackPage n
  -- Enough rounds fill the slot.
  full : 2 ^ 32 * (stackPage n - heapPage g n) ≤ k → top = stackPage n
  -- The byte that the process wrote to each page below `heap_top` is still there.
  stored : (w.apps p).Started → ∀ pn, heapPage g n ≤ pn → pn * 4096 < (w.apps p).heapTop.toNat →
    w.machine.mem.getByte (BitVec.ofNat 64 (pn * 4096)) = BitVec.ofNat 8 p

/-- The variables of a program whose heap ends at `top`. -/
def AtTop (g : Programs) (n p top : Nat) (v : View) : Prop :=
  ∃ j u, Vars g n p j u v ∧ (u = top ∨ v.app.Storing ∧ u + 1 = top)

theorem Vars.atTop {n p j top : Nat} {v : View} (h : Vars g n p j top v) : AtTop g n p top v :=
  ⟨j, top, h, .inl rfl⟩

theorem Phase.heap {n p k : Nat} {v : View} (h : Phase g n p k v) (hn : n < 4) :
    ∃ top, Slot g n p top v ∧
    min (stackPage n) (heapPage g n + passes g p k) ≤ top ∧
    top ≤ heapPage g n + passes g p (k + 1) ∧
    (v.app.pc = .idle → top = stackPage n) ∧ (¬ v.app.Started → top = heapPage g n) ∧
    (v.app.Started → AtTop g n p top v) := by
  have hmono := passes_le_succ g p k
  have hstarted : v.app.Started ↔ v.app.pc ≠ .getpid ∧ v.app.pc ≠ .setup := Iff.rfl
  unfold Phase at h
  cases hpc : v.app.pc <;>
    simp only [hpc, hstarted, reduceCtorEq, ne_eq, not_true_eq_false, not_false_eq_true, and_self,
      and_false, false_implies, true_implies, true_and, and_true] at h ⊢
  case getpid =>
    obtain ⟨-, rfl, hslot⟩ := h
    exact ⟨_, hslot, by simp [passes], by omega, rfl⟩
  case setup =>
    obtain ⟨-, rfl, hslot, -⟩ := h
    exact ⟨_, hslot, by simp [passes], by omega, rfl⟩
  case draw =>
    obtain ⟨-, top, hv, hslot, hcount⟩ := h
    exact ⟨top, hslot, by omega, by omega, hv.atTop⟩
  case test =>
    obtain ⟨-, top, hw, hslot⟩ := h
    have := hw.count
    exact ⟨top, hslot, by omega, by omega, hw.atTop⟩
  case alloc =>
    obtain ⟨-, top, hw, hslot, -⟩ := h
    have := hw.count
    exact ⟨top, hslot, by omega, by omega, hw.atTop⟩
  case check =>
    obtain ⟨-, top, hw, hlt, hret⟩ := h
    have := hw.count
    have := hw.pass
    rcases hret with ⟨-, hslot⟩ | ⟨-, -, hslot⟩
    · exact ⟨top, hslot, by omega, by omega, hw.atTop⟩
    · exact ⟨top + 1, hslot, by omega, by omega, _, _, hw.toVars, .inr ⟨.inl hpc, rfl⟩⟩
  case store =>
    obtain ⟨-, top, hw, hslot⟩ := h
    have := hw.count
    have := hw.pass
    exact ⟨top + 1, hslot, by omega, by omega, _, _, hw.toVars, .inr ⟨.inr hpc, rfl⟩⟩
  case yield =>
    obtain ⟨-, top, hv, hslot, hcount⟩ := h
    exact ⟨top, hslot, by omega, by omega, hv.atTop⟩
  case idle =>
    obtain ⟨-, j, hv, hslot, hcount⟩ := h
    exact ⟨_, hslot, Nat.min_le_left _ _, by omega, rfl, hv.atTop⟩
  case forkDraw => omega
  case forkYield => omega
  case fork => rcases h.1 with h | h <;> omega
  case forked => rcases h.1 with h | h <;> omega

theorem Proper.heapAt {n p k : Nat} {w : World} (h : Proper b g n p k (w.view p))
    (hm : MemInv b w.machine) (hg : g.Linked b) (hpl : Placed p n) (hn : n < 4) :
    ∃ top, HeapAt b g n p k w top := by
  obtain ⟨top, hslot, hgrown, hbound, hidle, hunset, hatTop⟩ := h.phase.heap hn
  have hlo := hslot.lo
  have hhi := hslot.hi
  have hst := stackPage_lt n
  have hal : Alive w.machine p := by
    have hr : (w.machine.procs p).state = .runnable := h.runnable
    simp [Alive, hr]
  refine ⟨top, fun pn h₁ h₂ => ?_, hslot.free, fun va h₁ h₂ => lookup_alive hm hal ?_, hunset,
    fun hs => ?_, hgrown,
    le_min hhi hbound, hidle, fun hk => ?_, fun hs pn h₁ h₂ => ?_⟩
  · by_cases hheap : heapPage g n ≤ pn ∧ pn < top
    · exact hslot.owned pn hheap.1 hheap.2
    · refine h.taken pn ((takes_iff hg (by omega) pn).mpr ?_)
      omega
  · unfold npages at hst
    unfold memsizePhysical
    omega
  · obtain ⟨j, u, hv, hu⟩ := hatTop hs
    have htop : (w.apps p).heapTop.toNat = u * 4096 := by
      rw [show (w.apps p).heapTop = _ from hv.heapTop, page_toNat (by omega)]
    rcases hu with rfl | ⟨hstoring, rfl⟩
    · exact .inl htop
    · exact .inr ⟨hstoring, by omega⟩
  · have h₁ := le_passes (g := g) hpl.pid_pos (stackPage n - heapPage g n)
    have h₂ := passes_mono g p hk
    have h₃ := (heapPage_bounds hg hpl.program_lt).2
    omega
  · obtain ⟨j, u, hv, hu⟩ := hatTop hs
    rw [show (w.apps p).heapTop = _ from hv.heapTop, page_toNat (by omega)] at h₂
    exact hv.stored pn h₁ (by omega)

/-- The kernel and the programs it started, after trace `ls`. -/
structure Shared (b : Build) (g : Programs) (command : Option String) (s₀ : State) (ls : List Label)
    (w : World) : Prop where
  machine : Run (Kernel.Step b) (kernel b command s₀) ls w.machine
  -- No process faults, and no kernel that started allocators panics.
  runnable : ∀ e ∈ startup b (tally command ls).command, (w.machine.procs e.1).state = .runnable
  panics : ∀ msg, w.machine.control = .failing msg →
    ∃ e ∈ startup b (tally command ls).command, 4 ≤ e.2
  heap : ∀ e ∈ startup b (tally command ls).command, e.2 < 4 →
    ∃ top, HeapAt b g e.2 e.1 ((tally command ls).yields e.1) w top

/-- In every run of the kernel with its programs, through any interrupts and reboots. -/
theorem allocators_run (b : Build) (g : Programs) (hg : g.Linked b) (command : Option String)
    (s₀ : State) {ls : List Label} {w : World}
    (hr : Run (Step b g) (World.start b command s₀) ls w) :
    Shared b g command s₀ ls w := by
  obtain ⟨h, hm⟩ := system_run hg command s₀ hr
  refine ⟨hm, fun e he => (h.proper e he).runnable, fun msg hf => ?_, fun e he hn => ?_⟩
  · obtain ⟨-, hpc, n, hmem⟩ := h.failing msg hf
    have hph := (h.proper _ hmem).phase
    unfold Phase at hph
    simp only [show (w.view w.machine.current).app.pc = .forked from hpc] at hph
    refine ⟨_, hmem, ?_⟩
    rcases hph.1 with ⟨h4, -⟩ | ⟨h5, -⟩
    · exact h4.ge
    · exact (by decide : 4 ≤ 5).trans h5.ge
  · exact (h.proper e he).heapAt h.machine.toMemInv hg (startup_placed b _ e he) hn

def demoPrograms : Programs := ⟨false, fun n => BitVec.ofNat 64 (slotOf n + 32)⟩

theorem demo_linked : demoPrograms.Linked demoBuild := by
  have hend : ∀ n, (demoPrograms.endSym n).toNat = slotOf n + 32 := by
    intro n
    have hs := slotOf_bounds n
    simp only [demoPrograms, BitVec.toNat_ofNat]
    unfold procSize memsizePhysical at hs
    omega
  have hva : ∀ n, (BitVec.ofNat 64 (slotOf n)).toNat = slotOf n := by
    intro n
    have hs := slotOf_bounds n
    rw [BitVec.toNat_ofNat]
    unfold procSize memsizePhysical at hs
    omega
  refine ⟨fun n _ pn => ?_, fun n _ => ?_, fun n _ => ?_⟩
  · have hs := (slotOf_bounds n).2.2
    rw [hend]
    simp only [Image.covers, Covered, demoBuild, List.mem_singleton, exists_eq_left, Segment.isLoad,
      Segment.first, Segment.last, hva]
    have hsize : (32 : Word).toNat = 32 := rfl
    simp only [hsize, beq_self_eq_true, true_and]
    omega
  · rw [hend]
    omega
  · rw [hend]
    unfold procSize
    omega

/-- The timer interrupts the first process at once. -/
theorem allocators_run_timer : Shared demoBuild demoPrograms none blank
    [.trap (kernel demoBuild none blank).current
      { (World.start demoBuild none blank).regs with intno := intTimer, err := 0 }]
    ((World.start demoBuild none blank).trapped demoBuild
      { (World.start demoBuild none blank).regs with intno := intTimer, err := 0 }
          (World.start demoBuild none blank).app) :=
  allocators_run demoBuild demoPrograms demo_linked none blank
    (Run.single (Step.timer (kernel_ok demoBuild none blank).2.1))

/-! ## Programs that fork -/

/-- The rounds of program `n` before it forks. -/
def forkRounds (n : Nat) : Nat := if n = 4 then 0 else 37

theorem draws_first : (∀ i < 37, (Rand.mk false 0#32).draw i % allocSlowdown ≠ 0) ∧
    (Rand.mk false 0#32).draw 37 % allocSlowdown = 0 := by
  decide +kernel

theorem Draws.le {k : Nat} (h : Draws k) : k ≤ 37 := by
  by_contra hk
  exact h 37 (by omega) draws_first.2

theorem Forks.rounds {n k : Nat} (h : Forks n k) : k = forkRounds n := by
  rcases h with ⟨rfl, rfl⟩ | ⟨rfl, hd, hz⟩
  · rfl
  · have hle := hd.le
    by_contra hne
    have hlt : k < 37 := by
      unfold forkRounds at hne
      simp at hne
      omega
    exact draws_first.1 k hlt hz

theorem Phase.forks {n p k : Nat} {v : View} (h : Phase g n p k v) (hn : 4 ≤ n) : k ≤ forkRounds n ∧
    (v.app.pc = .fork ∨ v.app.pc = .forked → k = forkRounds n) ∧ Slot g n p (heapPage g n) v ∧
    (v.app.pc = .forked → v.call = some intSysFork ∨ v.stopped) := by
  unfold Phase at h
  cases hpc : v.app.pc <;>
    simp only [hpc, reduceCtorEq, or_self, or_true, true_or, false_implies, true_implies, true_and,
      and_true] at h ⊢
  case forkDraw =>
    obtain ⟨rfl, -, hd, hslot⟩ := h
    exact ⟨hd.le, hslot⟩
  case forkYield =>
    obtain ⟨rfl, -, hd, hslot⟩ := h
    exact ⟨(Nat.le_succ k).trans hd.le, hslot⟩
  case fork => exact ⟨h.1.rounds.le, h.1.rounds, h.2⟩
  case forked => exact ⟨h.1.rounds.le, h.1.rounds, h.2⟩
  all_goals omega

theorem startup_forks (b : Build) (command : Option String) {n : Nat} (hn : 4 ≤ n)
    (h : (1, n) ∈ startup b command) :
    startup b command = [(1, n)] := by
  revert h
  unfold startup
  split_ifs <;> simp <;> omega

/-- Process 1 runs a program that forks, and nothing else runs. -/
structure Doomed (b : Build) (g : Programs) (n k : Nat) (w : World) : Prop where
  alone : ∀ p, p ≠ 1 → (w.machine.procs p).state = .free
  -- It yields at most so often, and has then forked or is about to.
  rounds : k ≤ forkRounds n
  forking : (w.apps 1).pc = .fork ∨ (w.apps 1).pc = .forked → k = forkRounds n
  -- It has no page beyond its program and its stack.
  pages : ∀ pn, heapPage g n ≤ pn → pn < stackPage n → (w.machine.pageinfo pn).refcount = 0
  -- The kernel does not get past its fork, and panics for nothing else.
  panic : w.machine.control = .handling → (w.apps 1).pc = .forked → ∀ key,
    checkKeyboard key = .none →
    (poll b w.machine key).control = .failing "Unexpected exception %d!\n"
  failing : ∀ msg, w.machine.control = .failing msg →
    msg = "Unexpected exception %d!\n" ∧ (w.apps 1).pc = .forked ∧ k = forkRounds n

theorem fork_panics (b : Build) (g : Programs) (hg : g.Linked b) (command : Option String)
    (s₀ : State) {ls : List Label} {w : World} (hr : Run (Step b g) (World.start b command s₀) ls w)
    {n : Nat} (hn : 4 ≤ n) (hrun : (1, n) ∈ startup b (tally command ls).command) :
    Doomed b g n ((tally command ls).yields 1) w := by
  obtain ⟨h, -⟩ := system_run hg command s₀ hr
  have hprop := h.proper _ hrun
  obtain ⟨hrounds, hforking, hslot, hcall⟩ := hprop.phase.forks hn
  have honly := startup_forks b _ hn hrun
  have halone : ∀ p, p ≠ 1 → (w.machine.procs p).state = .free :=
    fun p hp => h.free p (by rw [honly]; simpa using hp)
  refine ⟨halone, hrounds, hforking, fun pn h₁ h₂ => hslot.free pn h₁ h₂, fun hh hpc key hk => ?_,
    fun msg hf => ?_⟩
  · obtain ⟨m, hm⟩ := h.current (.inr hh)
    rw [honly] at hm
    have hcur : w.machine.current = 1 := by simpa using congrArg Prod.fst (List.mem_singleton.mp hm)
    have hi : (w.machine.procs w.machine.current).registers.intno = intSysFork := by
      rcases hcall hpc with hc | hc
      · simp only [World.view, hh, hcur] at hc
        rw [hcur]
        simpa using hc
      · simp [World.view, hh, Ended] at hc
    unfold poll afterPoll
    simp only [hk, hh]
    rw [dispatch_fork hi]
    rfl
  · obtain ⟨hmsg, hpc, m, hm⟩ := h.failing msg hf
    rw [honly] at hm
    have hcur : w.machine.current = 1 := by simpa using congrArg Prod.fst (List.mem_singleton.mp hm)
    have hpc' : (w.apps 1).pc = .forked := by
      rw [← hcur]
      exact hpc
    exact ⟨hmsg, hpc', hforking (.inr hpc')⟩

/-- A program forks, and the kernel panics. -/
theorem fork_run {w : World} (h : Kernel.Inv b w.machine) (hc : w.machine.control = .user)
    (hl : ¬ TickLimit b w.machine) (hpc : w.app.pc = .fork) {key : Int}
    (hk : checkKeyboard key = .none) :
    ∃ w', Run (Step b g) w [.trap w.machine.current { w.regs with intno := intSysFork, err := 0 },
      .poll key] w' ∧
      w'.machine.control = .failing "Unexpected exception %d!\n" := by
  let reg : Registers := { w.regs with intno := intSysFork, err := 0 }
  have hcall : w.app.call w.regs = some (reg, { w.app with pc := .forked }) := by
    unfold App.call
    rw [hpc]
  have htrap : Step b g w (.trap w.machine.current reg)
    (w.trapped b reg { w.app with pc := .forked }) := .call hc hcall
  obtain ⟨last, showing, he⟩ := exceptionEntry_handling h hc hl reg
  have hhandling : (w.trapped b reg { w.app with pc := .forked }).machine.control = .handling := by
    rw [World.trapped, he]
  have hpoll : Kernel.Step b (w.trapped b reg { w.app with pc := .forked }).machine (.poll key) _ :=
    .poll key (.inl hhandling)
  refine ⟨_, Run.cons htrap (Run.single (.kernel (by rw [hhandling]; decide) hpoll)), ?_⟩
  have hfork : (exceptionEntry b w.machine reg).reg.intno = intSysFork := by
    rw [he]
    change
      ((w.machine.setRegisters w.machine.current reg).procs w.machine.current).registers.intno = _
    rw [setRegisters_procs, if_pos rfl]
  change (poll b (exceptionEntry b w.machine reg) key).control = _
  unfold poll afterPoll
  simp only [hk, show (exceptionEntry b w.machine reg).control = .handling from hhandling]
  rw [dispatch_fork hfork]
  rfl

/-- The first process forks at once. -/
def forkTrace (regs : Registers) : List Label :=
  [.trap 1 { regs with intno := intSysFork, err := 0 }, .poll (-1)]

theorem start_machine (b : Build) (command : Option String) (s : State) :
    (World.start b command s).machine = kernel b command s := rfl

theorem start_app (b : Build) (command : Option String) (s : State) :
    (World.start b command s).app = startApps b command
    (World.start b command s).machine.current := rfl

theorem fork_panics_forked :
    ∃ w, Run (Step demoBuild demoPrograms) (World.start demoBuild (some "fork") blank)
      (forkTrace (World.start demoBuild (some "fork") blank).regs) w ∧
    w.machine.control = .failing "Unexpected exception %d!\n" ∧
    Doomed demoBuild demoPrograms 4 0 w := by
  obtain ⟨h, hc, hcur, -⟩ := kernel_ok demoBuild (some "fork") blank
  have happ := start_app demoBuild (some "fork") blank
  rw [← start_machine] at h hc hcur
  rw [hcur] at happ
  have hl : ¬ TickLimit demoBuild (World.start demoBuild (some "fork") blank).machine :=
    fun hl => hl.1 rfl
  obtain ⟨w, hr, hf⟩ := fork_run (g := demoPrograms) h hc hl (by rw [happ]; rfl)
    (show checkKeyboard (-1) = .none from rfl)
  rw [hcur] at hr
  have htally : ∀ regs, tally (some "fork") (forkTrace regs) = .boot (some "fork") := fun _ => rfl
  have hd := fork_panics demoBuild demoPrograms demo_linked (some "fork") blank hr (n := 4)
    (by decide)
    (by rw [← forkTrace, htally]; decide)
  rw [← forkTrace, htally] at hd
  exact ⟨w, hr, hf, hd⟩

end

end Csc412.Process
