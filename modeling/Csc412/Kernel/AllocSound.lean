import Csc412.Kernel.ExceptionSound

/-!
# Page allocation

A page is granted exactly when it is aligned, exists and has no references. From
then on until the next boot nothing changes its entry in `pageinfo[]`, so no page is
granted twice.
-/

namespace Csc412.Kernel

open Lib

/-- What a request with registers `reg`, made in state `s`, leaves in `s'`. -/
structure AllocEffect (s : State) (reg : Registers) (s' : State) : Prop where
  resumed : s'.control = .user ∧ s'.current = s.current
  result : s'.reg.rax = 0 ↔ Grantable s reg.rdi
  granted : Grantable s reg.rdi →
    s'.pageinfo (pagenumber reg.rdi) = ⟨(s.procs s.current).pid, 1⟩ ∧
    (∀ pn, pn ≠ pagenumber reg.rdi → s'.pageinfo pn = s.pageinfo pn) ∧
    virtualMemoryLookup s'.mem (s'.procs s'.current).pagetable reg.rdi =
      ⟨pagenumber reg.rdi, reg.rdi, pteP ||| pteW ||| pteU⟩ ∧
    ∀ p, Alive s p → ∀ va, va ≠ reg.rdi →
      virtualMemoryLookup s'.mem (s'.procs p).pagetable va =
        virtualMemoryLookup s.mem (s.procs p).pagetable va
  refused : ¬ Grantable s reg.rdi → s'.reg.rax = -1 ∧ s'.pageinfo = s.pageinfo ∧ s'.mem = s.mem ∧
    ∀ p, (s'.procs p).pagetable = (s.procs p).pagetable

section
variable {b : Build} {s s' : State}

theorem reg_setRegisters (s : State) (r : Registers) (c : Control) :
    ({ s.setRegisters s.current r with control := c } : State).reg = r := by
  change ((s.setRegisters s.current r).procs s.current).registers = r
  rw [setRegisters_procs, if_pos rfl]

theorem move_alloc {key : Int} (h : Inv b s) (hc : s.control = .handling)
    (hi : s.reg.intno = intSysPageAlloc) (hk : checkKeyboard key = .none)
    (hm : Move b s (.poll key) s') : AllocEffect s s.reg s' := by
  have hctl := h.control
  rw [hc] at hctl
  have hal : Alive s s.current := by simp [Alive, hctl.2]
  have hne : ∀ {i : Word}, s.reg.intno = i → i = intSysPageAlloc := fun he => he.symm.trans hi
  cases hm with
  | @grant _ m _ _ _ hg hmap =>
    have hpt : ∀ p,
        (((granted s m s.reg.rdi).setRegisters s.current (s.reg.setRax 0)).procs p).pagetable =
          (s.procs p).pagetable := fun p => (setRegisters_fields (granted s m s.reg.rdi) _ _ p).2.1
    have hlook : ∀ p va, Alive s p → virtualMemoryLookup m
        (((granted s m s.reg.rdi).setRegisters s.current (s.reg.setRax 0)).procs p).pagetable va =
          kernelMapping va := by
      intro p va hp
      rw [hpt, h.procs.pagetable p hp, (h.tables.mappedUp hmap).lookup]
    have hrax := reg_setRegisters (granted s m s.reg.rdi) (s.reg.setRax 0) .user
    refine ⟨⟨rfl, rfl⟩, ⟨fun _ => hg, fun _ => congrArg Registers.rax hrax⟩,
      fun _ => ⟨?_, fun pn hpn => ?_, ?_, fun p hp va _ => ?_⟩,
      fun hn => absurd hg hn⟩
    · rw [h.procs.pid _ hctl.1]
      exact Function.update_self ..
    · exact Function.update_of_ne hpn ..
    · refine (hlook _ _ hal).trans ?_
      rw [kernelMapping_of_lt hg.2.1, pagenumber_eq (Nat.lt_add_right _ hg.2.1)]
      rfl
    · rw [h.procs.pagetable p hp, h.tables.lookup]
      exact hlook p va hp
  | refuse _ _ _ hg =>
    have hrax := reg_setRegisters s (s.reg.setRax (-1)) .user
    refine ⟨⟨rfl, rfl⟩, ⟨fun h0 => ?_, fun hn => absurd hn hg⟩, fun hn => absurd hn hg,
      fun _ => ⟨?_, rfl, rfl, fun p => ?_⟩⟩
    · rw [hrax] at h0
      exact absurd h0 (show (-1 : Word) ≠ 0 by decide)
    · rw [hrax]
      rfl
    · exact (setRegisters_fields s _ _ p).2.1
  | reboot hr => exact absurd (hk.symm.trans hr) (by simp)
  | off hr => exact absurd (hk.symm.trans hr) (by simp)
  | panic _ _ hn _ => exact absurd (.inr (.inr (.inl hi))) hn
  | getpid _ _ he => exact absurd (hne he) (by decide)
  | yield _ _ he => exact absurd (hne he) (by decide)
  | timer _ _ he => exact absurd (hne he) (by decide)
  | fault _ _ he _ => exact absurd (hne he) (by decide)
  | polled _ hp => exact absurd (hc.symm.trans hp) (by simp)
  | failing _ hp => exact absurd (hc.symm.trans hp) (by simp)

theorem request_effect (h : Inv b s) (hc : s.control = .user) (hl : ¬ TickLimit b s)
    {reg : Registers} (hi : reg.intno = intSysPageAlloc) {key : Int}
    (hk : checkKeyboard key = .none) :
    AllocEffect s reg (poll b (exceptionEntry b s reg) key) := by
  have h₁ : Inv b (exceptionEntry b s reg) := inv_step h (.trap reg hc)
  obtain ⟨last, showing, he⟩ := exceptionEntry_handling h hc hl reg
  have hreg : (exceptionEntry b s reg).reg = reg := by
    rw [he]
    exact reg_setRegisters s reg .handling
  have hctl : (exceptionEntry b s reg).control = .handling := by rw [he]
  have hm := step_move h₁ (.poll key (.inl hctl))
  have hfields := setRegisters_fields s s.current reg
  have heff := move_alloc h₁ hctl (by rw [hreg]; exact hi) hk hm
  rw [hreg] at heff
  -- the request is judged on the state that the process trapped in
  have hgrant : Grantable (exceptionEntry b s reg) reg.rdi ↔ Grantable s reg.rdi := by
    rw [he]
    exact Iff.rfl
  obtain ⟨hres, hrax, hyes, hno⟩ := heff
  rw [hgrant] at hrax hyes hno
  generalize poll b (exceptionEntry b s reg) key = s' at *
  rw [he] at hres hyes hno
  refine ⟨hres, hrax, fun hg => ?_, fun hg => ?_⟩
  · obtain ⟨h₁, h₂, h₃, h₄⟩ := hyes hg
    refine ⟨h₁.trans ?_, h₂, h₃, fun p hp va hva => (h₄ p ?_ va hva).trans ?_⟩
    · exact congrArg (PageInfo.mk · 1) (hfields s.current).1
    · exact fun hf => hp ((hfields p).2.2.symm.trans hf)
    · exact congrArg (virtualMemoryLookup s.mem · va) (hfields p).2.1
  · obtain ⟨h₁, h₂, h₃, h₄⟩ := hno hg
    exact ⟨h₁, h₂, h₃, fun p => (h₄ p).trans (hfields p).2.1⟩

/-! ## Along a run -/

theorem move_pageinfo {l : Label} (hm : Move b s l s') (hl : l.reboot = none) {pn : Int}
    (hr : (s.pageinfo pn).refcount ≠ 0) : s'.pageinfo pn = s.pageinfo pn := by
  cases hm with
  | reboot hk => simp [Label.reboot, hk] at hl
  | grant hk hc hi hg hmap =>
    refine Function.update_of_ne ?_ _ _
    intro he
    exact hr (he ▸ hg.2.2)
  | _ => rfl

theorem pageinfo_stable (h : Inv b s) {ls : List Label} (hr : Run (Step b) s ls s')
    (hl : ∀ l ∈ ls, l.reboot = none) {pn : Int} (hpn : (s.pageinfo pn).refcount ≠ 0) :
    s'.pageinfo pn = s.pageinfo pn := by
  induction hr with
  | nil => rfl
  | @snoc ls t l u hr hs ih =>
    have ht := ih fun l hl' => hl l (by simp [hl'])
    have hinv : Inv b t := hr.invariant (I := Inv b) inv_step h
    rw [move_pageinfo (step_move hinv hs) (hl l (by simp)) (by rw [ht]; exact hpn), ht]

/-- How the kernel hands out pages, from a state `s` on. -/
structure AllocDiscipline (b : Build) (s : State) : Prop where
  -- A request of the running process, of whatever address, has its effect.
  request : ∀ reg key, s.control = .user → ¬ TickLimit b s → reg.intno = intSysPageAlloc →
    checkKeyboard key = .none → AllocEffect s reg (poll b (exceptionEntry b s reg) key)
  -- Until the next boot a page in use keeps its owner.
  stable : ∀ ls s', Run (Step b) s ls s' → (∀ l ∈ ls, l.reboot = none) →
    ∀ pn, (s.pageinfo pn).refcount ≠ 0 → s'.pageinfo pn = s.pageinfo pn
  -- Kernel and reserved pages keep their owners and cannot be granted.
  withheld : ∀ pn < npages, initialOwner b (pn * 4096) ≠ poFree →
    (s.pageinfo pn).owner = initialOwner b (pn * 4096) ∧ ∀ addr, pagenumber addr = pn →
    ¬ Grantable s addr

/-- In every state that the kernel reaches, whatever the order of exceptions. -/
theorem page_alloc_discipline (b : Build) (command : Option String) (s₀ : State) {ls : List Label}
    {s : State} (hr : Run (Step b) (kernel b command s₀) ls s) : AllocDiscipline b s := by
  have h := inv_run hr
  refine ⟨fun reg key hc hl hi hk => request_effect h hc hl hi hk,
    fun ls s' hr' hl pn hpn => pageinfo_stable h hr' hl hpn,
    fun pn hpn ho => ⟨?_, fun addr ha hg => ?_⟩⟩
  · rcases initialOwner_cases b (pn * 4096) with hk | hk | hk
    · rw [(h.pages pn hpn).kernel hk, hk]
    · rw [(h.pages pn hpn).reserved hk, hk]
    · exact absurd hk ho
  · have hnum := pagenumber_eq (Nat.lt_add_right 4096 hg.2.1)
    have hfree := h.toMemInv.grantable_free hg
    rw [show addr.toNat / 4096 = pn by exact_mod_cast hnum.symm.trans ha] at hfree
    exact ho hfree

end

/-- Process 1 asks for the page after its data, and goes on. -/
def requestTrace : List Label :=
  [.trap 1 { Registers.zero with intno := intSysPageAlloc, rdi := 0x101000 }, .poll (-1)]

theorem request_run : ∃ s, Run (Step demoBuild) (kernel demoBuild none blank) requestTrace s ∧
    s.control = .user ∧
    s.current = 1 := by
  obtain ⟨h, hc, hcur, -⟩ := kernel_ok demoBuild none blank
  have hl : ¬ TickLimit demoBuild (kernel demoBuild none blank) := fun hl => hl.1 rfl
  let reg : Registers := { Registers.zero with intno := intSysPageAlloc, rdi := 0x101000 }
  have hi : reg.intno = intSysPageAlloc := rfl
  have hk : checkKeyboard (-1) = .none := rfl
  have heff := request_effect h hc hl hi hk
  obtain ⟨last, showing, he⟩ := exceptionEntry_handling h hc hl reg
  refine ⟨_, Run.cons (hcur ▸ .trap _ hc) (Run.single (.poll (-1) (.inl ?_))), heff.resumed.1,
    heff.resumed.2.trans hcur⟩
  rw [he]

theorem page_alloc_discipline_request :
    ∃ s, Run (Step demoBuild) (kernel demoBuild none blank) requestTrace s ∧
    s.control = .user ∧ AllocDiscipline demoBuild s := by
  obtain ⟨s, hr, hc, -⟩ := request_run
  exact ⟨s, hr, hc, page_alloc_discipline demoBuild none blank hr⟩

end Csc412.Kernel
