import Csc412.Kernel.ExceptionSound
import Csc412.Lib.Cyclic

/-!
# Scheduling

The kernel runs runnable processes only, and never process 0. Whatever exceptions
are taken, the search of `schedule` goes round the process table one entry at a time
from the process that ran last, so between two picks of one process every other
runnable process is picked once.
-/

namespace Csc412.Kernel

open Lib

/-! ## Where the search stands -/

/-- The entry of the process table that the kernel runs or looked at last. -/
def State.position (s : State) : Option Nat :=
  match s.control with
  | .user | .handling => some s.current
  | .scheduling pid | .polling pid => some pid
  | .failing _ | .off => none

def Label.visit : Label → Option Nat
  | .skip pid | .pick pid => some pid
  | _ => none

def Label.picked : Label → Option Nat
  | .pick pid => some pid
  | _ => none

def picks (ls : List Label) : List Nat := ls.filterMap Label.picked

section
variable {b : Build} {s s' : State} {l : Label} {p q : Nat}

theorem move_position (hm : Move b s l s') (hl : l.reboot = none) {j : Nat}
    (hj : s'.position = some j) :
    ∃ i, s.position = some i ∧ (l.visit = none ∧ j = i ∨ l.visit = some j ∧ j = nextPid i) := by
  have hpos : ∀ {c}, s.control = c → s.position = match c with
      | .user | .handling => some s.current
      | .scheduling pid | .polling pid => some pid
      | .failing _ | .off => none := by
    rintro c rfl
    rfl
  cases hm with
  | user hc hw => exact ⟨j, hj, .inl ⟨rfl, rfl⟩⟩
  | reboot hk => simp [Label.reboot, hk] at hl
  | off hk => cases hj
  | halt hc => cases hj
  | limit hc hlim => cases hj
  | panic hk hc hn hmsg => cases hj
  | failing hk hc => exact ⟨j, hj, .inl ⟨rfl, rfl⟩⟩
  | @skip pid hc hr =>
    cases hj
    exact ⟨pid, hpos hc, .inr ⟨rfl, rfl⟩⟩
  | @pick pid hc hr =>
    cases hj
    exact ⟨pid, hpos hc, .inr ⟨rfl, rfl⟩⟩
  | trap hc | getpid _ hc | yield _ hc | timer _ hc | grant _ hc | refuse _ hc | fault _ hc
  | polled _ hc =>
    cases hj
    exact ⟨_, hpos hc, .inl ⟨rfl, rfl⟩⟩

theorem move_visit (hm : Move b s l s') (hv : l.visit = some p) :
    l = .pick p ↔ (s.procs p).state = .runnable := by
  cases hm with
  | skip hc hr =>
    cases hv
    exact ⟨fun h => by simp at h, fun h => absurd h hr⟩
  | pick hc hr =>
    cases hv
    exact ⟨fun _ => hr, fun _ => rfl⟩
  | _ => cases hv

/-! ## States of processes -/

theorem move_state (hm : Move b s l s') (hl : l.reboot = none) (p : Nat) :
    (s'.procs p).state = (s.procs p).state ∨ (s'.procs p).state = .broken := by
  cases hm with
  | reboot hk => simp [Label.reboot, hk] at hl
  | trap | limit | getpid | refuse => exact .inl (setRegisters_fields s _ _ p).2.2
  | grant => exact .inl (setRegisters_fields (granted s _ _) _ _ p).2.2
  | fault hk hc hi he =>
    change (s.broken.procs p).state = _ ∨ (s.broken.procs p).state = _
    rw [State.broken, setProc_procs]
    split
    · exact .inr rfl
    · exact .inl rfl
  | _ => exact .inl rfl

theorem runnable_before (hm : Move b s l s') (hl : l.reboot = none)
    (h : (s'.procs p).state = .runnable) :
    (s.procs p).state = .runnable := by
  rcases move_state hm hl p with he | he
  · exact he.symm.trans h
  · rw [he] at h
    cases h

theorem broken_after (hm : Move b s l s') (hl : l.reboot = none) (h : (s.procs p).state = .broken) :
    (s'.procs p).state = .broken := by
  rcases move_state hm hl p with he | he
  · exact he.trans h
  · exact he

theorem picks_snoc (ls : List Label) : picks (ls ++ [l]) = picks ls ++ l.picked.toList := by
  rw [picks, List.filterMap_append]
  cases h : l.picked <;> simp [picks, h]

theorem mem_picks {ls : List Label} : p ∈ picks ls ↔ .pick p ∈ ls := by
  rw [picks, List.mem_filterMap]
  constructor
  · rintro ⟨l, hl, he⟩
    cases l with
    | pick pid =>
      cases he
      exact hl
    | _ => cases he
  · intro h
    exact ⟨_, h, rfl⟩

theorem broken_run (h : Inv b s) {ls : List Label} (hr : Run (Step b) s ls s')
    (hl : ∀ l ∈ ls, l.reboot = none) (hb : (s.procs p).state = .broken) :
    (s'.procs p).state = .broken ∧ p ∉ picks ls := by
  induction hr with
  | nil => exact ⟨hb, by simp [picks]⟩
  | @snoc ls t l u hr hs ih =>
    obtain ⟨ht, hn⟩ := ih fun l hl' => hl l (by simp [hl'])
    have hm := step_move (hr.invariant (I := Inv b) inv_step h) hs
    refine ⟨broken_after hm (hl l (by simp)) ht, ?_⟩
    rw [mem_picks] at hn ⊢
    intro hmem
    rcases List.mem_append.mp hmem with hmem | hmem
    · exact hn hmem
    · rw [List.mem_singleton] at hmem
      have hrun := (move_visit (p := p) hm (by rw [← hmem]; rfl)).mp hmem.symm
      rw [ht] at hrun
      cases hrun

/-! ## One round -/

/-- The search left `p` and has picked `q` once, if it has passed it, since `ls` began. -/
def Round (p q : Nat) (ls : List Label) (s : State) : Prop :=
  ∀ i, s.position = some i → i < nproc ∧
    ((picks ls).count q = 0 ∧ ringDist nproc p i < ringDist nproc p q ∨ (picks ls).count q = 1 ∧
      ringDist nproc p q ≤ ringDist nproc p i)

theorem count_picks_visit {ls : List Label} {j : Nat} (hm : Move b s l s') (hv : l.visit = some j)
    (hq : (s.procs q).state = .runnable) :
    (picks (ls ++ [l])).count q = (picks ls).count q + if j = q then 1 else 0 := by
  rw [picks_snoc, List.count_append]
  congr 1
  by_cases hj : j = q
  · subst hj
    rw [if_pos rfl, (move_visit hm hv).mpr hq]
    simp [Label.picked]
  · rw [if_neg hj]
    cases l with
    | pick pid =>
      cases hv
      simp [Label.picked, hj]
    | _ => rfl

theorem round_step (hp : p < nproc) (hq : q < nproc) {ls : List Label} (h : Round p q ls s)
    (hm : Move b s l s') (hl : l.reboot = none) (hne : l ≠ .pick p)
    (hrp : (s.procs p).state = .runnable) (hrq : (s.procs q).state = .runnable) :
    Round p q (ls ++ [l]) s' := by
  intro j hj
  obtain ⟨i, hi, hv⟩ := move_position hm hl hj
  obtain ⟨hlt, hcount⟩ := h i hi
  rcases hv with ⟨hv, rfl⟩ | ⟨hv, hnext⟩
  · refine ⟨hlt, ?_⟩
    rw [picks_snoc, show l.picked = none by cases l <;> first | rfl | cases hv]
    simpa using hcount
  · have hjp : j ≠ p := by
      rintro rfl
      exact hne ((move_visit hm hv).mpr hrp)
    have hjlt : j < nproc := hnext ▸ nextPid_lt i
    have hd : ringDist nproc p j = ringDist nproc p i + 1 := by
      rw [hnext] at hjp ⊢
      exact ringDist_next hp hlt hjp
    refine ⟨hjlt, ?_⟩
    rw [count_picks_visit hm hv hrq, hd]
    by_cases hjq : j = q
    · subst hjq
      rw [if_pos rfl]
      omega
    · rw [if_neg hjq]
      have hne' : ringDist nproc p j ≠ ringDist nproc p q :=
        fun he => hjq (ringDist_inj hp hjlt hq he)
      omega

theorem round_run (h : Inv b s) (hp : p < nproc) (hq : q < nproc) (hpq : q ≠ p)
    (hpos : s.position = some p) {ls : List Label} (hr : Run (Step b) s ls s')
    (hl : ∀ l ∈ ls, l.reboot = none) (hn : p ∉ picks ls) (hrp : (s'.procs p).state = .runnable)
    (hrq : (s'.procs q).state = .runnable) :
    Round p q ls s' := by
  induction hr with
  | nil =>
    intro i hi
    rw [hpos] at hi
    cases hi
    refine ⟨hp, .inl ⟨rfl, ?_⟩⟩
    rw [ringDist_self]
    exact Nat.pos_of_ne_zero fun h0 => hpq (ringDist_eq_zero hp h0).symm
  | @snoc ls t l u hr hs ih =>
    have hm := step_move (hr.invariant (I := Inv b) inv_step h) hs
    have hl' := hl l (by simp)
    rw [mem_picks] at hn
    have htp := runnable_before hm hl' hrp
    have htq := runnable_before hm hl' hrq
    refine round_step hp hq (ih (fun l hl' => hl l (by simp [hl'])) ?_ htp htq) hm hl' ?_ htp htq
    · rw [mem_picks]
      intro hmem
      exact hn (by simp [hmem])
    · rintro rfl
      exact hn (by simp)

theorem pick_once (h : Inv b s) (hq : q < nproc) (hpq : q ≠ p) {mid : List Label}
    (hr : Run (Step b) s (.pick p :: mid ++ [.pick p]) s') (hl : ∀ l ∈ mid, l.reboot = none)
    (hn : p ∉ picks mid) (hrq : (s'.procs q).state = .runnable) : (picks mid).count q = 1 := by
  obtain ⟨u, hru, hlast⟩ := hr.snoc_inv
  obtain ⟨t, hfirst, hmid⟩ := hru.cons_inv
  have ht := inv_step h hfirst
  have hm := step_move (hmid.invariant (I := Inv b) inv_step ht) hlast
  obtain ⟨hp, hpos⟩ : p < nproc ∧ t.position = some p := by
    have hm₀ := step_move h hfirst
    cases hm₀ with
    | pick => exact ⟨nextPid_lt _, rfl⟩
  have hround := round_run ht hp hq hpq hpos hmid hl hn ((move_visit hm rfl).mp rfl)
    (runnable_before hm rfl hrq)
  obtain ⟨i, hi, hv⟩ := move_position (j := p) hm rfl (by cases hm; rfl)
  obtain ⟨hlt, hcount⟩ := hround i hi
  rcases hv with ⟨hv, -⟩ | ⟨-, hnext⟩
  · cases hv
  · have hend : ringDist nproc p i + 1 = nproc := ringDist_last hlt hnext.symm
    have hdist : ringDist nproc p q < nproc := ringDist_lt hp hq
    rcases hcount with ⟨-, hd⟩ | ⟨h₁, -⟩
    · omega
    · exact h₁

/-! ## Safety and fairness -/

theorem panic_run {command : Option String} {s₀ : State} {ls : List Label}
    (hr : Run (Step b) (kernel b command s₀) ls s) {msg : String} (hc : s.control = .failing msg) :
    msg ∈ panicMessages := by
  induction hr with
  | nil =>
    rw [(kernel_ok b command s₀).2.1] at hc
    cases hc
  | snoc hr hs ih =>
    have hm := step_move (inv_run hr) hs
    cases hm with
    | user hu hw => exact ih hc
    | reboot hk =>
      rw [softReboot, (kernel_ok b _ _).2.1] at hc
      cases hc
    | panic hk hh hn hmsg =>
      cases hc
      exact hmsg
    | failing hk hf => exact ih hc
    | _ => cases hc

/-- How the kernel schedules, from a state `s` on. -/
structure Schedules (b : Build) (s : State) : Prop where
  -- Only a runnable process is run, and never process 0.
  runs : s.control = .user → (s.procs s.current).state = .runnable ∧ s.current ≠ 0
  -- The assertion of `run` never fails.
  asserts : s.control ≠ .failing "p->p_state == P_RUNNABLE"
  -- A process that has faulted is not run again in this boot.
  broken : ∀ p ls s', (s.procs p).state = .broken → Run (Step b) s ls s' →
    (∀ l ∈ ls, l.reboot = none) →
    p ∉ picks ls ∧ ¬ (s'.control = .user ∧ s'.current = p)
  -- Between two consecutive picks of `p` every other process is picked once.
  fair : ∀ p q mid s', Run (Step b) s (.pick p :: mid ++ [.pick p]) s' →
    (∀ l ∈ mid, l.reboot = none) → p ∉ picks mid →
    q < nproc → q ≠ p → (s'.procs q).state = .runnable → (picks mid).count q = 1

theorem scheduling_safe_and_fair (b : Build) (command : Option String) (s₀ : State)
    {ls : List Label} {s : State} (hr : Run (Step b) (kernel b command s₀) ls s) :
    Schedules b s := by
  have h := inv_run hr
  have hrun : ∀ {t : State}, Inv b t → t.control = .user →
      (t.procs t.current).state = .runnable := by
    intro t ht hc
    have hctl := ht.control
    rw [hc] at hctl
    exact hctl.2
  refine ⟨fun hc => ⟨hrun h hc, fun h0 => ?_⟩, fun hc => absurd (panic_run hr hc) (by decide),
    fun p ls' s' hb hr' hl => ?_,
    fun p q mid s' hr' hl hn hq hpq hrq => pick_once h hq hpq hr' hl hn hrq⟩
  · have hfree := hrun h hc
    rw [h0, h.procs.zero] at hfree
    cases hfree
  · obtain ⟨hb', hn⟩ := broken_run h hr' hl hb
    refine ⟨hn, ?_⟩
    rintro ⟨hc, rfl⟩
    have hrunning := hrun (hr'.invariant (I := Inv b) inv_step h) hc
    rw [hb'] at hrunning
    cases hrunning

theorem poll_yield (h : Inv b s) (hc : s.control = .handling) (hi : s.reg.intno = intSysYield)
    {key : Int} (hk : checkKeyboard key = .none) :
    poll b s key = { s with control := .scheduling s.current } := by
  have hctl := h.control
  rw [hc] at hctl
  have hd : dispatch b s = .ok (schedule s) := by
    unfold dispatch
    simp only [show (s.procs s.current).registers.intno = intSysYield from hi]
    rfl
  unfold poll afterPoll
  simp only [hk, hc, hd, orFail]
  exact schedule_ok h.toMemInv hctl.1

/-- `schedule` gives the processor to the process after the one that yielded. -/
theorem schedule_run (h : Inv b s) (hc : s.control = .handling) (hi : s.reg.intno = intSysYield)
    {key : Int} (hk : checkKeyboard key = .none)
    (hnext : (s.procs (nextPid s.current)).state = .runnable) :
    ∃ s', Run (Step b) s [.poll key, .pick (nextPid s.current)] s' ∧ s'.control = .user ∧
      s'.current = nextPid s.current := by
  have hpoll := Step.poll (b := b) key (.inl hc)
  rw [poll_yield h hc hi hk] at hpoll
  have h₁ := inv_step h hpoll
  have hpick := Step.pick (b := b) (s := { s with control := .scheduling s.current }) rfl hnext
  have hrun := run_ok h₁.tables h₁.procs hnext
  refine ⟨_, Run.cons hpoll (Run.single hpick), ?_, ?_⟩
  · rw [hrun]
    rfl
  · rw [hrun]
    rfl

/-- A process yields, and the next one is runnable. -/
theorem yield_run (h : Inv b s) (hc : s.control = .user) (hl : ¬ TickLimit b s) (reg : Registers)
    (hi : reg.intno = intSysYield) {key : Int} (hk : checkKeyboard key = .none)
    (hnext : (s.procs (nextPid s.current)).state = .runnable) :
    ∃ s', Run (Step b) s [.trap s.current reg, .poll key, .pick (nextPid s.current)] s' ∧
      s'.control = .user ∧ s'.current = nextPid s.current := by
  have htrap : Step b s (.trap s.current reg) (exceptionEntry b s reg) := .trap reg hc
  have h₁ := inv_step h htrap
  obtain ⟨last, showing, he⟩ := exceptionEntry_handling h hc hl reg
  have hcur : (exceptionEntry b s reg).current = s.current := by
    rw [he]
    rfl
  have hreg : (exceptionEntry b s reg).reg.intno = intSysYield := by
    rw [he]
    change ((s.setRegisters s.current reg).procs s.current).registers.intno = _
    rw [setRegisters_procs, if_pos rfl, hi]
  have hready : ((exceptionEntry b s reg).procs (nextPid (exceptionEntry b s reg).current)).state =
      .runnable := by
    rw [hcur, he]
    exact (setRegisters_fields s s.current reg _).2.2.trans hnext
  obtain ⟨s', hr, hu, hcur'⟩ := schedule_run h₁ (by rw [he]) hreg hk hready
  rw [hcur] at hr hcur'
  exact ⟨s', Run.cons htrap hr, hu, hcur'⟩

theorem startup_runnable (b : Build) (s : State) {command : Option String} {p program : Nat}
    (hp : (p, program) ∈ startup b command) : ((kernel b command s).procs p).state = .runnable := by
  obtain ⟨-, -, -, hset, -⟩ := kernel_ok b command s
  rw [hset (p, program) hp]
  rfl

end

/-- Process 1 yields to process 2. -/
def yieldTrace : List Label :=
  [.trap 1 { Registers.zero with intno := intSysYield }, .poll (-1), .pick 2]

theorem scheduling_safe_and_fair_yield :
    ∃ s, Run (Step demoBuild) (kernel demoBuild none blank) yieldTrace s ∧
    s.control = .user ∧ s.current = 2 ∧ Schedules demoBuild s := by
  obtain ⟨h, hc, hcur, -⟩ := kernel_ok demoBuild none blank
  have hnext : nextPid 1 = 2 := rfl
  have htwo : ((kernel demoBuild none blank).procs 2).state = .runnable :=
    startup_runnable demoBuild blank (show (2, 1) ∈ startup demoBuild none by decide)
  obtain ⟨s, hr, hc', hcur'⟩ :=
    yield_run h hc (fun hl => hl.1 rfl) { Registers.zero with intno := intSysYield } rfl
    (show checkKeyboard (-1) = .none from rfl) (by rw [hcur, hnext, htwo])
  rw [hcur] at hr hcur'
  exact ⟨s, hr, hc', hcur', scheduling_safe_and_fair demoBuild none blank hr⟩

end Csc412.Kernel
