import Csc412.Kernel.BootSound

/-!
# Every step keeps the invariant

`Move` says once what a step of the machine can do in a state that satisfies the
invariant. None of the kernel's own assertions is among the outcomes: the machine
fails only on an exception that `exception` does not handle.
-/

namespace Csc412.Kernel

open Lib

/-! ## What the invariant depends on -/

theorem kernelTableUsers_congr {s s' : State} (hk : s'.kernelPagetable = s.kernelPagetable)
    (hp : ∀ p, (s'.procs p).pagetable = (s.procs p).pagetable ∧
      ((s'.procs p).state = .free ↔ (s.procs p).state = .free)) :
    kernelTableUsers s' = kernelTableUsers s := by
  unfold kernelTableUsers
  congr 1
  funext p
  rw [hk, (hp p).1]
  simp only [ne_eq, (hp p).2]

theorem MemInv.frame {b : Build} {s s' : State} (h : MemInv b s) (ht : Tables b s'.mem)
    (hi : s'.pageinfo = s.pageinfo) (hk : s'.kernelPagetable = s.kernelPagetable)
    (hp : ∀ p, (s'.procs p).pid = (s.procs p).pid ∧ (s'.procs p).pagetable = (s.procs p).pagetable ∧
      ((s'.procs p).state = .free ↔ (s.procs p).state = .free)) : MemInv b s' := by
  refine ⟨ht, ⟨hk.trans h.procs.root, fun p hlt => (hp p).1.trans (h.procs.pid p hlt),
    fun p hal => ?_, ?_⟩,
    fun pn hpn => ?_⟩
  · rw [(hp p).2.1]
    exact h.procs.pagetable p fun hf => hal ((hp p).2.2.mpr hf)
  · exact (hp 0).2.2.mpr h.procs.zero
  · rw [hi, kernelTableUsers_congr hk fun p => (hp p).2]
    obtain ⟨h₁, h₂, h₃⟩ := h.pages pn hpn
    refine ⟨h₁, h₂, fun hf => ?_⟩
    rcases h₃ hf with h0 | ⟨p, hlt, hal, hinfo⟩
    · exact .inl h0
    · exact .inr ⟨p, hlt, fun hf' => hal ((hp p).2.2.mp hf'), hinfo⟩

theorem setProc_procs (s : State) (p : Nat) (proc : Proc) (q : Nat) :
    (s.setProc p proc).procs q = if q = p then proc else s.procs q := by
  simp only [State.setProc, Function.update_apply]

theorem setRegisters_procs (s : State) (p : Nat) (r : Registers) (q : Nat) :
    (s.setRegisters p r).procs q = if q = p then { s.procs p with registers := r } else s.procs q :=
  setProc_procs s p _ q

theorem setRegisters_fields (s : State) (p : Nat) (r : Registers) (q : Nat) :
    ((s.setRegisters p r).procs q).pid = (s.procs q).pid ∧
      ((s.setRegisters p r).procs q).pagetable = (s.procs q).pagetable ∧
      ((s.setRegisters p r).procs q).state = (s.procs q).state := by
  rw [setRegisters_procs]
  split
  · rename_i h
    rw [h]
    exact ⟨rfl, rfl, rfl⟩
  · exact ⟨rfl, rfl, rfl⟩

/-! ## Page allocation -/

def Grantable (s : State) (addr : Word) : Prop :=
  addr.toNat % 4096 = 0 ∧ addr.toNat < memsizePhysical ∧ (s.pageinfo (pagenumber addr)).refcount = 0

section
variable {b : Build} {s : State}

theorem assignPhysicalPage_grant {addr : Word} {owner : Int} (h : Grantable s addr) :
    assignPhysicalPage s addr owner =
      (0, { s with pageinfo := Function.update s.pageinfo (pagenumber addr) ⟨owner, 1⟩ }) := by
  obtain ⟨h₁, h₂, h₃⟩ := h
  unfold assignPhysicalPage
  rw [if_neg]
  rintro (hc | hc | hc)
  · exact hc ((and_fff_iff addr).mpr h₁)
  · omega
  · exact hc h₃

theorem assignPhysicalPage_refuse {addr : Word} {owner : Int} (h : ¬ Grantable s addr) :
    assignPhysicalPage s addr owner = (-1, s) := by
  unfold assignPhysicalPage
  rw [if_pos]
  by_contra hc
  push Not at hc
  exact h ⟨(and_fff_iff addr).mp hc.1, hc.2.1, hc.2.2⟩

def granted (s : State) (m : Mem) (addr : Word) : State :=
  { s with mem := m, pageinfo := Function.update s.pageinfo (pagenumber addr) ⟨s.current, 1⟩ }

theorem pageAlloc_grant (h : MemInv b s) (hlt : s.current < nproc) (hal : Alive s s.current)
    {addr : Word} (hg : Grantable s addr) : ∃ m, MappedUp b s.mem m (addr.toNat / 4096) 1 ∧
      pageAlloc s addr = .ok ((granted s m addr).setRegisters s.current
          ((s.procs s.current).registers.setRax 0)) := by
  obtain ⟨hal₁, hlt₁, -⟩ := id hg
  have hpid := h.procs.pid s.current hlt
  have hint8 : int8 (s.procs s.current).pid = s.current := by
    rw [hpid]
    unfold nproc at hlt
    exact int8_of_small (by omega) (by omega)
  have haddr : addr = BitVec.ofNat 64 (addr.toNat / 4096 * 4096) := by
    apply BitVec.eq_of_toNat_eq
    rw [BitVec.toNat_ofNat]
    have := addr.isLt
    omega
  obtain ⟨m, hm, hmap⟩ : ∃ m,
    virtualMemoryMap (b.table 0) (BitVec.ofNat 64 (addr.toNat / 4096 * 4096))
      (BitVec.ofNat 64 (addr.toNat / 4096 * 4096)) (BitVec.ofNat 64 (1 * 4096)) permPWU
      (none : Option (Unit → Word × Unit)) s.mem () = .ok (0, m, ()) ∧
        MappedUp b s.mem m (addr.toNat / 4096) 1 :=
    h.tables.upper.map_ok (by unfold memsizePhysical at hlt₁; omega)
  rw [← haddr] at hm
  refine ⟨m, hmap, ?_⟩
  let s₁ := { s with pageinfo := Function.update s.pageinfo (pagenumber addr) ⟨s.current, 1⟩ }
  have hpage : mapPage s₁ (b.table 0) addr = .ok (0, { s₁ with mem := m }) := mapPage_of_map hm
  unfold pageAlloc
  simp only [assignPhysicalPage_grant hg, hint8, h.procs.pagetable s.current hal]
  rw [if_pos (by decide), hpage]
  rfl

theorem pageAlloc_refuse {addr : Word} (hg : ¬ Grantable s addr) :
    pageAlloc s addr = .ok (s.setRegisters s.current
        ((s.procs s.current).registers.setRax (-1))) := by
  unfold pageAlloc
  simp only [assignPhysicalPage_refuse hg]
  rw [if_neg (by decide)]
  rfl

theorem MemInv.grantable_free (h : MemInv b s) {addr : Word} (hg : Grantable s addr) :
    initialOwner b (addr.toNat / 4096 * 4096) = poFree := by
  obtain ⟨-, hlt, hr⟩ := hg
  have hpn : addr.toNat / 4096 < npages := by
    unfold memsizePhysical at hlt
    unfold npages
    omega
  rw [pagenumber_eq (Nat.lt_add_right _ hlt)] at hr
  have hok := h.pages _ hpn
  rcases initialOwner_cases b (addr.toNat / 4096 * 4096) with hk | hk | hk
  · rw [hok.kernel hk] at hr
    simp only at hr
    split at hr <;> omega
  · rw [hok.reserved hk] at hr
    simp at hr
  · exact hk

theorem MemInv.granted (h : MemInv b s) (hlt : s.current < nproc) (hal : Alive s s.current)
    {addr : Word} (hg : Grantable s addr) {m : Mem}
    (hm : MappedUp b s.mem m (addr.toNat / 4096) 1) :
    MemInv b (granted s m addr) := by
  have hfree := h.grantable_free hg
  have hnum : pagenumber addr = (addr.toNat / 4096 : Nat) :=
    pagenumber_eq (Nat.lt_add_right _ hg.2.1)
  refine ⟨h.tables.mappedUp hm, ⟨h.procs.root, h.procs.pid, h.procs.pagetable, h.procs.zero⟩,
    fun pn hpn => ?_⟩
  have husers : kernelTableUsers (Csc412.Kernel.granted s m addr) = kernelTableUsers s := rfl
  have hother : initialOwner b (pn * 4096) ≠ poFree →
      (Csc412.Kernel.granted s m addr).pageinfo pn = s.pageinfo pn := by
    intro hne
    refine Function.update_of_ne ?_ _ _
    rw [hnum]
    intro he
    exact hne (by rw [show pn = addr.toNat / 4096 by exact_mod_cast he]; exact hfree)
  rw [husers]
  obtain ⟨h₁, h₂, h₃⟩ := h.pages pn hpn
  refine ⟨fun hk => ?_, fun hr => ?_, fun hf => ?_⟩
  · rw [hother (by rw [hk]; decide)]
    exact h₁ hk
  · rw [hother (by rw [hr]; decide)]
    exact h₂ hr
  · simp only [Csc412.Kernel.granted, Function.update_apply]
    split
    · exact .inr ⟨s.current, hlt, hal, rfl⟩
    · exact h₃ hf

end

/-! ## What a step can do -/

/-- The exceptions that `exception` handles without a panic. -/
def Registers.Handled (r : Registers) : Prop :=
  r.intno = intSysGetpid ∨ r.intno = intSysYield ∨ r.intno = intSysPageAlloc ∨ r.intno = intTimer ∨
    r.intno = intPagefault ∧ r.err &&& pferrUser ≠ 0

def panicMessages : List String :=
  ["PANIC", "Kernel page fault for %p (%s %s, rip=%p)!\n", "Unexpected exception %d!\n"]

def TickLimit (b : Build) (s : State) : Prop := b.tickLimit ≠ 0 ∧ s.ticks.toNat = b.tickLimit

def State.reg (s : State) : Registers := (s.procs s.current).registers

def State.broken (s : State) : State :=
  s.setProc s.current { s.procs s.current with state := .broken }

/-- Everything a step can do in a state that satisfies the invariant. -/
inductive Move (b : Build) (s : State) : Label → State → Prop
  | user {m} : s.control = .user → UserWrite s m → Move b s (.user m) { s with mem := m }
  | trap {reg last showing} : s.control = .user →
      Move b s (.trap s.current reg)
        { s.setRegisters s.current reg with lastTicks := last, showing := showing,
                                            control := .handling }
  | limit {reg last showing} : s.control = .user → TickLimit b s →
      Move b s (.trap s.current reg)
        { s.setRegisters s.current reg with lastTicks := last, showing := showing, control := .off }
  | off {key} : checkKeyboard key = .poweroff → Move b s (.poll key) { s with control := .off }
  | halt {msg} : s.control = .failing msg → Move b s .halt { s with control := .off }
  | reboot {key argument} : checkKeyboard key = .reboot argument →
    Move b s (.poll key) (softReboot b s argument)
  | panic {key msg} : checkKeyboard key = .none → s.control = .handling → ¬ s.reg.Handled →
    msg ∈ panicMessages →
      Move b s (.poll key) { s with control := .failing msg }
  | getpid {key} : checkKeyboard key = .none → s.control = .handling → s.reg.intno = intSysGetpid →
      Move b s (.poll key)
        { s.setRegisters s.current (s.reg.setRax (BitVec.ofNat 64 s.current)) with
            control := .user }
  | yield {key} : checkKeyboard key = .none → s.control = .handling → s.reg.intno = intSysYield →
      Move b s (.poll key) { s with control := .scheduling s.current }
  | timer {key} : checkKeyboard key = .none → s.control = .handling → s.reg.intno = intTimer →
      Move b s (.poll key) { s with ticks := s.ticks + 1, control := .scheduling s.current }
  | grant {key m} : checkKeyboard key = .none → s.control = .handling →
    s.reg.intno = intSysPageAlloc →
      Grantable s s.reg.rdi → MappedUp b s.mem m (s.reg.rdi.toNat / 4096) 1 →
      Move b s (.poll key)
        { (granted s m s.reg.rdi).setRegisters s.current (s.reg.setRax 0) with control := .user }
  | refuse {key} : checkKeyboard key = .none → s.control = .handling →
    s.reg.intno = intSysPageAlloc →
      ¬ Grantable s s.reg.rdi →
      Move b s (.poll key) { s.setRegisters s.current (s.reg.setRax (-1)) with control := .user }
  | fault {key} : checkKeyboard key = .none → s.control = .handling → s.reg.intno = intPagefault →
      s.reg.err &&& pferrUser ≠ 0 →
      Move b s (.poll key)
        { s.broken with control := .scheduling s.current }
  | polled {key pid} : checkKeyboard key = .none → s.control = .polling pid →
      Move b s (.poll key) { s with control := .scheduling pid }
  | failing {key msg} : checkKeyboard key = .none → s.control = .failing msg →
    Move b s (.poll key) s
  | skip {pid} : s.control = .scheduling pid → (s.procs (nextPid pid)).state ≠ .runnable →
      Move b s (.skip (nextPid pid)) { s with control := .polling (nextPid pid) }
  | pick {pid} : s.control = .scheduling pid → (s.procs (nextPid pid)).state = .runnable →
      Move b s (.pick (nextPid pid)) { s with current := nextPid pid, control := .user }

section
variable {b : Build} {s : State}

theorem MemInv.setRegisters (h : MemInv b s) (p : Nat) (r : Registers) :
    MemInv b (s.setRegisters p r) :=
  h.frame h.tables rfl rfl fun q => by
    obtain ⟨h₁, h₂, h₃⟩ := setRegisters_fields s p r q
    exact ⟨h₁, h₂, by rw [h₃]⟩

theorem MemInv.broken (h : MemInv b s) (hal : Alive s s.current) : MemInv b s.broken :=
  h.frame h.tables rfl rfl fun q => by
    simp only [State.broken, setProc_procs]
    split
    · rename_i hq
      rw [hq]
      exact ⟨rfl, rfl, by simpa [Alive] using hal⟩
    · exact ⟨rfl, rfl, .rfl⟩

theorem exceptionEntry_move (h : MemInv b s) (hc : s.control = .user) (reg : Registers) :
    Move b s (.trap s.current reg) (exceptionEntry b s reg) := by
  have hR := h.setRegisters s.current reg
  obtain ⟨last, showing, hshow⟩ := memshowVirtualAnimate_ok hR
  have hself : ∀ c, ({ s.setRegisters s.current reg with control := c } : State) =
      { s.setRegisters s.current reg with lastTicks := s.lastTicks, showing := s.showing,
                                          control := c } := fun _ => rfl
  unfold exceptionEntry
  simp only
  rw [bind_of_ok (setPagetable_ok hR.tables hR.procs.root hR.procs.root)]
  split
  · rw [bind_of_ok (checkVirtualMemory_ok hR), hshow, ok_bind]
    simp only
    split
    · rename_i hl
      exact .limit hc hl
    · have hdump : memdumpVirtualAll { s.setRegisters s.current reg with
          lastTicks := last, showing := showing } = .ok () :=
        memdumpVirtualAll_ok ⟨hR.procs.root, hR.procs.pid, hR.procs.pagetable, hR.procs.zero⟩
      split
      · rw [bind_of_ok hdump]
        exact .trap hc
      · exact .trap hc
  · simp only [orFail]
    rw [hself]
    exact .trap hc

theorem resume_ok (h : MemInv b s) (hr : (s.procs s.current).state = .runnable) :
    resume b s = .ok { s with control := .user } := by
  unfold resume
  rw [if_pos hr, run_ok h.tables h.procs hr]

theorem schedule_ok (h : MemInv b s) (hlt : s.current < nproc) :
    schedule s = { s with control := .scheduling s.current } := by
  unfold schedule
  rw [h.procs.pid _ hlt]
  rfl

theorem dispatch_move (h : Inv b s) (hc : s.control = .handling) {key : Int}
    (hk : checkKeyboard key = .none) :
    Move b s (.poll key) (orFail s (dispatch b s)) := by
  have hctl := h.control
  rw [hc] at hctl
  obtain ⟨hlt, hrun⟩ := hctl
  have hM := h.toMemInv
  have hal : Alive s s.current := by simp [Alive, hrun]
  have hreg : (s.procs s.current).registers = s.reg := rfl
  unfold dispatch
  simp only [hreg]
  by_cases h₁ : s.reg.intno = intSysPanic
  · rw [if_pos h₁]
    refine .panic hk hc ?_ (by simp [panicMessages])
    rintro (h | h | h | h | ⟨h, -⟩) <;> rw [h₁] at h <;> exact absurd h (by decide)
  rw [if_neg h₁]
  by_cases h₂ : s.reg.intno = intSysGetpid
  · rw [if_pos h₂, resume_ok (hM.setRegisters _ _) ((setRegisters_fields s _ _ _).2.2.trans hrun),
      hM.procs.pid _ hlt]
    exact .getpid hk hc h₂
  rw [if_neg h₂]
  by_cases h₃ : s.reg.intno = intSysYield
  · rw [if_pos h₃, schedule_ok hM hlt]
    exact .yield hk hc h₃
  rw [if_neg h₃]
  by_cases h₄ : s.reg.intno = intSysPageAlloc
  · rw [if_pos h₄]
    by_cases hg : Grantable s s.reg.rdi
    · obtain ⟨m, hm, hok⟩ := pageAlloc_grant hM hlt hal hg
      have hM' := (hM.granted hlt hal hg hm).setRegisters s.current (s.reg.setRax 0)
      rw [hok]
      simp only
      rw [hreg, resume_ok hM' ((setRegisters_fields (granted s m s.reg.rdi) _ _ _).2.2.trans hrun)]
      exact .grant hk hc h₄ hg hm
    · rw [pageAlloc_refuse hg]
      simp only
      rw [hreg, resume_ok (hM.setRegisters _ _) ((setRegisters_fields s _ _ _).2.2.trans hrun)]
      exact .refuse hk hc h₄ hg
  rw [if_neg h₄]
  by_cases h₅ : s.reg.intno = intTimer
  · rw [if_pos h₅]
    have hM' : MemInv b { s with ticks := s.ticks + 1 } :=
      hM.frame hM.tables rfl rfl fun _ => ⟨rfl, rfl, .rfl⟩
    rw [schedule_ok hM' hlt]
    exact .timer hk hc h₅
  rw [if_neg h₅]
  by_cases h₆ : s.reg.intno = intPagefault
  · rw [if_pos h₆]
    by_cases he : s.reg.err &&& pferrUser = 0
    · rw [if_pos he]
      refine .panic hk hc ?_ (by simp [panicMessages])
      rintro (h | h | h | h | h)
      · exact h₂ h
      · exact h₃ h
      · exact h₄ h
      · exact h₅ h
      · exact h.2 he
    · have hne : ((s.broken).procs s.broken.current).state ≠ .runnable := by
        simp [State.broken, State.setProc]
      rw [if_neg he]
      change Move b s _ (orFail s (resume b s.broken))
      rw [resume, if_neg hne, schedule_ok (hM.broken hal) hlt]
      exact .fault hk hc h₆ he
  · rw [if_neg h₆]
    refine .panic hk hc ?_ (by simp [panicMessages])
    rintro (h | h | h | h | h)
    · exact h₂ h
    · exact h₃ h
    · exact h₄ h
    · exact h₅ h
    · exact h₆ h.1

theorem step_move {l : Label} {s' : State} (h : Inv b s) (hs : Step b s l s') : Move b s l s' := by
  have hpoll : ∀ key, (s.control = .handling ∨ (∃ pid, s.control = .polling pid) ∨ ∃ msg,
    s.control = .failing msg) →
      Move b s (.poll key) (poll b s key) := by
    intro key hc
    unfold poll
    split
    · rename_i hk
      unfold afterPoll
      rcases hc with hc | ⟨pid, hc⟩ | ⟨msg, hc⟩
      · rw [hc]
        exact dispatch_move h hc hk
      · rw [hc]
        exact .polled hk hc
      · rw [hc]
        exact .failing hk hc
    · rename_i hk
      exact .reboot hk
    · rename_i hk
      exact .off hk
  cases hs with
  | user hc hw => exact .user hc hw
  | trap reg hc => exact exceptionEntry_move h.toMemInv hc reg
  | poll key hc => exact hpoll key (hc.imp_right Or.inl)
  | halt hc hl => exact .halt hc
  | fail key hc hl => exact hpoll key (.inr (.inr ⟨_, hc⟩))
  | skip hc hr => exact .skip hc hr
  | pick hc hr =>
    rw [run_ok h.tables h.procs hr]
    exact .pick hc hr

/-! ## The invariant along a run -/

theorem nextPid_lt (pid : Nat) : nextPid pid < nproc := Nat.mod_lt _ (by decide)

theorem MemInv.userWrite (h : MemInv b s) {m : Mem} (hw : UserWrite s m) : Tables b m := by
  have hown : ∀ k < 5, s.kernelOwns (b.table k) := by
    intro k hk
    unfold State.kernelOwns
    rw [pageinfo_table h.pages hk]
  refine ⟨fun k hk hk3 i => ?_, fun i => ?_⟩
  · exact (h.tables.upper k hk hk3 i).mark (hw (b.table k) i (hown k hk))
  · exact (h.tables.leaf i).mark (hw (b.table 3) i (hown 3 (by decide)))

theorem MemInv.withControl (h : MemInv b s) (c : Control) : MemInv b { s with control := c } :=
  h.frame h.tables rfl rfl fun _ => ⟨rfl, rfl, .rfl⟩

theorem move_inv {l : Label} {s' : State} (h : Inv b s) (hm : Move b s l s') : Inv b s' := by
  have hM := h.toMemInv
  have hctl := h.control
  cases hm with
  | user hc hw => exact ⟨hM.frame (hM.userWrite hw) rfl rfl fun _ => ⟨rfl, rfl, .rfl⟩, hctl⟩
  | trap hc =>
    rw [hc] at hctl
    refine ⟨(hM.setRegisters s.current _).frame hM.tables rfl rfl fun _ => ⟨rfl, rfl, .rfl⟩,
      hctl.1, ?_⟩
    exact (setRegisters_fields s _ _ _).2.2.trans hctl.2
  | limit hc hl =>
    exact ⟨(hM.setRegisters s.current _).frame hM.tables rfl rfl fun _ => ⟨rfl, rfl, .rfl⟩, trivial⟩
  | off hk => exact ⟨hM.withControl _, trivial⟩
  | halt hc => exact ⟨hM.withControl _, trivial⟩
  | reboot hk => exact (kernel_ok b _ _).1
  | panic hk hc hn hmsg => exact ⟨hM.withControl _, trivial⟩
  | getpid hk hc hi =>
    rw [hc] at hctl
    exact ⟨(hM.setRegisters s.current _).withControl _, hctl.1,
      (setRegisters_fields s _ _ _).2.2.trans hctl.2⟩
  | yield hk hc hi =>
    rw [hc] at hctl
    exact ⟨hM.withControl _, hctl.1, hctl.1, by simp [Alive, hctl.2]⟩
  | timer hk hc hi =>
    rw [hc] at hctl
    exact ⟨hM.frame hM.tables rfl rfl fun _ => ⟨rfl, rfl, .rfl⟩, hctl.1, hctl.1,
      by simp [Alive, hctl.2]⟩
  | @grant key m hk hc hi hg hmap =>
    rw [hc] at hctl
    have hG := hM.granted hctl.1 (by simp [Alive, hctl.2]) hg hmap
    exact ⟨(hG.setRegisters s.current _).withControl _, hctl.1,
      (setRegisters_fields (granted s m s.reg.rdi) _ _ _).2.2.trans hctl.2⟩
  | refuse hk hc hi hg =>
    rw [hc] at hctl
    exact ⟨(hM.setRegisters s.current _).withControl _, hctl.1,
      (setRegisters_fields s _ _ _).2.2.trans hctl.2⟩
  | fault hk hc hi he =>
    rw [hc] at hctl
    have hal : Alive s s.current := by simp [Alive, hctl.2]
    refine ⟨(hM.broken hal).withControl _, hctl.1, hctl.1, ?_⟩
    simp [Alive, State.broken, State.setProc]
  | polled hk hc =>
    rw [hc] at hctl
    exact ⟨hM.withControl _, hctl⟩
  | failing hk hc => exact h
  | skip hc hr =>
    rw [hc] at hctl
    exact ⟨hM.withControl _, nextPid_lt _, hctl.2.1, hctl.2.2⟩
  | pick hc hr =>
    exact ⟨hM.frame hM.tables rfl rfl fun _ => ⟨rfl, rfl, .rfl⟩, nextPid_lt _, hr⟩

theorem inv_step {l : Label} {s' : State} (h : Inv b s) (hs : Step b s l s') : Inv b s' :=
  move_inv h (step_move h hs)

theorem inv_run {command : Option String} {s₀ : State} {ls : List Label}
    (hr : Run (Step b) (kernel b command s₀) ls s) : Inv b s :=
  Run.invariant (I := Inv b) inv_step (kernel_ok b command s₀).1 hr

theorem move_no_panic {l : Label} {s' : State} (hm : Move b s l s')
    (hf : ∀ msg, s.control ≠ .failing msg) (hh : s.control = .handling → s.reg.Handled)
    (msg : String) : s'.control ≠ .failing msg := by
  cases hm with
  | user hc hw => exact hf msg
  | reboot hk =>
    rw [softReboot, (kernel_ok b _ _).2.1]
    simp
  | panic hk hc hn hmsg => exact absurd (hh hc) hn
  | failing hk hc => exact absurd hc (hf _)
  | _ => simp

theorem exceptionEntry_handling (h : Inv b s) (hc : s.control = .user) (hl : ¬ TickLimit b s)
    (reg : Registers) :
    ∃ last showing, exceptionEntry b s reg =
      { s.setRegisters s.current reg with lastTicks := last, showing := showing,
                                          control := .handling } := by
  have hm := exceptionEntry_move h.toMemInv hc reg
  generalize exceptionEntry b s reg = s' at hm
  cases hm with
  | trap => exact ⟨_, _, rfl⟩
  | limit _ hl' => exact absurd hl' hl

end

/-! ## The kernel's memory -/

/-- What `check_virtual_memory` asserts, in a state `s`. -/
structure KernelMemory (b : Build) (s : State) : Prop where
  checks : checkVirtualMemory b s = .ok ()
  proc_zero : (s.procs 0).state = .free
  -- Kernel memory and the kernel stack page are mapped onto themselves, writable.
  mapped : ∀ a : Word, (kernelStartAddr ≤ a.toNat ∧ a.toNat < b.endAddr ∨
      kernelStackTop - 4096 ≤ a.toNat ∧ a.toNat < kernelStackTop) →
    (virtualMemoryLookup s.mem s.kernelPagetable a).pa = a ∧
      (virtualMemoryLookup s.mem s.kernelPagetable a).perm &&& pteW ≠ 0
  -- Every page-table page of every level is the kernel's and exactly counted.
  tables : ∀ p pt, p.length ≤ 3 → Radix.walk tableOf s.mem s.kernelPagetable p = some pt →
    s.pageinfo (pagenumber pt) = ⟨poKernel, if p = [] then 1 + kernelTableUsers s else 1⟩
  -- A referenced page that a process owns has an owner that is in use.
  owners : ∀ pn < npages, 0 < (s.pageinfo pn).refcount → 0 ≤ (s.pageinfo pn).owner →
    (s.procs (s.pageinfo pn).owner.toNat).state ≠ .free
  -- No step panics before an exception that the kernel does not handle.
  no_panic : ∀ l s', Step b s l s' → (∀ msg, s.control ≠ .failing msg) →
    (s.control = .handling → s.reg.Handled) → ∀ msg, s'.control ≠ .failing msg

theorem tables_counted {b : Build} {s : State} (h : MemInv b s) {p : List (Fin 512)} {pt : Word}
    (hp : p.length ≤ 3) (hw : Radix.walk tableOf s.mem s.kernelPagetable p = some pt) :
    s.pageinfo (pagenumber pt) = ⟨poKernel, if p = [] then 1 + kernelTableUsers s else 1⟩ := by
  rw [h.procs.root] at hw
  rcases h.tables.upper.walk_cases hp hw with ⟨rfl, rfl⟩ | ⟨rfl, rfl⟩ | ⟨rfl, rfl⟩ | ⟨rfl, rfl⟩ |
    ⟨rfl, rfl⟩
  · exact pageinfo_table h.pages (by decide)
  · exact pageinfo_table h.pages (show 1 < 5 by decide)
  · exact pageinfo_table h.pages (show 2 < 5 by decide)
  · exact pageinfo_table h.pages (show 3 < 5 by decide)
  · exact pageinfo_table h.pages (show 4 < 5 by decide)

/-- In every state that is reached from `kernel`, through exceptions of any kind and
soft reboots, the kernel's memory is as `check_virtual_memory` wants it. -/
theorem kernel_memory_invariant (b : Build) (command : Option String) (s₀ : State) {ls : List Label}
    {s : State} (hr : Run (Step b) (kernel b command s₀) ls s) : KernelMemory b s := by
  have h := inv_run hr
  refine ⟨checkVirtualMemory_ok h.toMemInv, h.procs.zero, fun a ha => ?_,
    fun p pt hp hw => tables_counted h.toMemInv hp hw,
    fun pn hpn hr ho => ?_, fun l s' hs hf hh msg => move_no_panic (step_move h hs) hf hh msg⟩
  · have hlt : a.toNat < memsizePhysical := by
      have := b.end_le
      unfold kernelStackTop memsizePhysical at *
      omega
    rw [h.procs.root, h.tables.lookup, kernelMapping_of_lt hlt]
    exact ⟨rfl, show ptePWU &&& pteW ≠ 0 by decide⟩
  · obtain ⟨p, -, hal, hi⟩ := (h.pages pn hpn).owner hr ho
    rw [hi]
    exact hal

def demoBuild : Build where
  startData := 0x48000
  endAddr := 0x50000
  kernelPagetables := 0x49000
  defaultIntHandler := 0x40100
  virtualMemoryMap := 0x40200
  tickLimit := 0
  forceFork := false
  images := fun n => ⟨0x464C457F, BitVec.ofNat 64 (slotOf n),
    [⟨1, BitVec.ofNat 64 (slotOf n), 16, 32, fun _ => 0⟩]⟩
  start_ge := by decide
  tables_ge := by decide
  tables_aligned := by decide
  tables_le := by decide
  end_le := by decide
  handler_mem := by decide
  map_mem := by decide
  images_fit := by
    intro n hn
    refine ⟨rfl, ?_, by simp⟩
    intro ph hph _
    rw [List.mem_singleton] at hph
    subst hph
    have hs := slotOf_bounds n
    have hva : (BitVec.ofNat 64 (slotOf n)).toNat = slotOf n := by
      rw [BitVec.toNat_ofNat]
      unfold procSize memsizePhysical at hs
      omega
    simp only [hva]
    refine ⟨le_refl _, ?_, by decide⟩
    have : (32 : Word).toNat = 32 := rfl
    unfold procSize
    omega

def blank : State where
  mem := fun _ _ => 0
  pageinfo := fun _ => ⟨0, 0⟩
  procs := freeProc
  current := 0
  kernelPagetable := 0
  ticks := 0
  lastTicks := 0
  showing := 1
  control := .off

theorem kernel_memory_invariant_trap :
    KernelMemory demoBuild
      (exceptionEntry demoBuild (kernel demoBuild none blank) Registers.zero) :=
  kernel_memory_invariant demoBuild none blank
    (Run.single (Step.trap _ (kernel_ok demoBuild none blank).2.1))

end Csc412.Kernel
