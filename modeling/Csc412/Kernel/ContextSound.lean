import Csc412.Kernel.AllocSound

/-!
# Context isolation

`run` gives a process back the registers that `exception` saved for it, except for
the `%rax` of a system call that returns something, and a process that has not run
yet starts with those of `process_setup`. Exceptions of other processes do not touch
its entry of the process table.
-/

namespace Csc412.Kernel

open Lib

/-! ## What a trace says -/

/-- The last boot of a trace and the registers at the last exception of each process
since then. -/
structure Era where
  command : Option String
  traps : Nat → Option Registers

def Era.boot (command : Option String) : Era := ⟨command, fun _ => none⟩

def Era.next (e : Era) (l : Label) : Era :=
  match l.reboot, l with
  | some argument, _ => .boot (some argument)
  | none, .trap p reg => { e with traps := Function.update e.traps p (some reg) }
  | none, _ => e

def era (command : Option String) (ls : List Label) : Era := ls.foldl Era.next (.boot command)

def Resumes (p : Nat) (reg r : Registers) : Prop :=
  if reg.intno = intSysGetpid then r = reg.setRax (BitVec.ofNat 64 p)
  else if reg.intno = intSysPageAlloc then r = reg.setRax 0 ∨ r = reg.setRax (-1)
  else r = reg

theorem resumes_self {p : Nat} {reg : Registers} (h₁ : reg.intno ≠ intSysGetpid)
    (h₂ : reg.intno ≠ intSysPageAlloc) :
    Resumes p reg reg := by
  rw [Resumes, if_neg h₁, if_neg h₂]

theorem resumes_alloc {p : Nat} {reg r : Registers} (hi : reg.intno = intSysPageAlloc)
    (h : r = reg.setRax 0 ∨ r = reg.setRax (-1)) : Resumes p reg r := by
  rw [Resumes, if_neg (by rw [hi]; decide), if_pos hi]
  exact h

section
variable {b : Build} {s s' : State} {l : Label} {p : Nat}

theorem Era.next_reboot {e : Era} {argument : String} (h : l.reboot = some argument) :
    e.next l = .boot (some argument) := by
  simp only [Era.next, h]

theorem Era.next_same {e : Era} (h : l.reboot = none) (hl : ∀ q reg, l ≠ .trap q reg) :
    e.next l = e := by
  unfold Era.next
  cases l with
  | trap q reg => exact absurd rfl (hl q reg)
  | _ => simp_all

theorem era_snoc (command : Option String) (ls : List Label) :
    era command (ls ++ [l]) = (era command ls).next l := by
  simp [era]

/-! ## Exceptions of others -/

def Settled (p : Nat) (s : State) : Prop := s.control = .handling → s.current ≠ p

theorem move_frame (hm : Move b s l s') (hl : l.reboot = none) (ht : ∀ reg, l ≠ .trap p reg)
    (hp : Settled p s) :
    s'.procs p = s.procs p ∧ Settled p s' := by
  have hset : ∀ (t : State) r, s.current ≠ p → (t.setRegisters s.current r).procs p =
      t.procs p := by
    intro t r hne
    rw [setRegisters_procs, if_neg hne.symm]
  cases hm with
  | user hc hw => exact ⟨rfl, hp⟩
  | @trap reg last showing hc =>
    have hne : s.current ≠ p := fun he => ht reg (by rw [he])
    exact ⟨hset s _ hne, fun _ => hne⟩
  | @limit reg last showing hc hlim =>
    have hne : s.current ≠ p := fun he => ht reg (by rw [he])
    exact ⟨hset s _ hne, by simp [Settled]⟩
  | reboot hk => simp [Label.reboot, hk] at hl
  | getpid hk hc hi => exact ⟨hset s _ (hp hc), by simp [Settled]⟩
  | grant hk hc hi hg hmap => exact ⟨hset (granted s _ _) _ (hp hc), by simp [Settled]⟩
  | refuse hk hc hi hg => exact ⟨hset s _ (hp hc), by simp [Settled]⟩
  | fault hk hc hi he =>
    refine ⟨?_, by simp [Settled]⟩
    change (s.setProc s.current _).procs p = s.procs p
    rw [setProc_procs, if_neg (hp hc).symm]
  | failing hk hc => exact ⟨rfl, hp⟩
  | _ => exact ⟨rfl, by simp [Settled]⟩

theorem procs_frame (h : Inv b s) {ls : List Label} (hr : Run (Step b) s ls s')
    (hl : ∀ l ∈ ls, l.reboot = none) (ht : ∀ reg, .trap p reg ∉ ls) (hp : Settled p s) :
    s'.procs p = s.procs p ∧ Settled p s' := by
  induction hr with
  | nil => exact ⟨rfl, hp⟩
  | @snoc ls t l u hr hs ih =>
    obtain ⟨heq, hset⟩ := ih (fun l hl' => hl l (by simp [hl']))
      fun reg hmem => ht reg (by simp [hmem])
    have hinv : Inv b t := hr.invariant (I := Inv b) inv_step h
    obtain ⟨heq', hset'⟩ := move_frame (step_move hinv hs) (hl l (by simp))
      (fun reg he => ht reg (by simp [he])) hset
    exact ⟨heq'.trans heq, hset'⟩

/-! ## Saved registers -/

def Done (p : Nat) (s : State) : Prop :=
  p = s.current → s.control ≠ .handling ∧ s.control ≠ .off ∧ ∀ msg, s.control ≠ .failing msg

/-- The process table agrees with the trace. -/
structure Saved (b : Build) (e : Era) (s : State) : Prop where
  fresh : ∀ p, e.traps p = none → Alive s p →
    ∃ program, (p, program) ∈ startup b e.command ∧
    (s.procs p).registers = setupRegisters b p program
  handling : s.control = .handling → e.traps s.current = some s.reg
  trapped : ∀ p reg, e.traps p = some reg → Done p s → Resumes p reg (s.procs p).registers

theorem saved_kernel (b : Build) (command : Option String) (s : State) :
    Saved b (.boot command) (kernel b command s) := by
  obtain ⟨-, hc, -, hset, hfree⟩ := kernel_ok b command s
  refine ⟨fun p _ hal => ?_, fun hh => ?_, fun p reg ht => ?_⟩
  · by_cases hmem : p ∈ (startup b command).map Prod.fst
    · obtain ⟨⟨q, program⟩, hq, rfl⟩ := List.mem_map.mp hmem
      exact ⟨program, hq, by rw [hset _ hq]; rfl⟩
    · exact absurd (by rw [hfree p hmem]; rfl) hal
  · rw [hc] at hh
    cases hh
  · cases ht

variable {e : Era}

theorem Saved.trap (h : Saved b e s) {reg : Registers}
    (hc : s'.control = .handling ∨ s'.control = .off) (hcur : s'.current = s.current)
    (hp : s'.procs = (s.setRegisters s.current reg).procs) :
    Saved b { e with traps := Function.update e.traps s.current (some reg) } s' := by
  have hother : ∀ p, p ≠ s.current → s'.procs p = s.procs p := by
    intro p hne
    rw [hp, setRegisters_procs, if_neg hne]
  refine ⟨fun p ht hal => ?_, fun _ => ?_, fun p r ht hd => ?_⟩
  · have hne : p ≠ s.current := by
      rintro rfl
      simp at ht
    rw [Alive, hother p hne] at hal
    rw [hother p hne]
    exact h.fresh p ((Function.update_of_ne hne _ _).symm.trans ht) hal
  · rw [State.reg, hcur, hp, setRegisters_procs, if_pos rfl]
    exact Function.update_self ..
  · have hne : p ≠ s.current := by
      intro he
      obtain ⟨h₁, h₂, -⟩ := hd (he.trans hcur.symm)
      exact hc.elim h₁ h₂
    rw [hother p hne]
    exact h.trapped p r ((Function.update_of_ne hne _ _).symm.trans ht) fun he => absurd he hne

theorem Saved.stop (h : Saved b e s) {c : Control} (hc : c = .off ∨ ∃ msg, c = .failing msg) :
    Saved b e { s with control := c } := by
  refine ⟨h.fresh, fun hh => ?_, fun p r ht hd => h.trapped p r ht fun he => ?_⟩
  · change c = .handling at hh
    rcases hc with rfl | ⟨msg, rfl⟩ <;> cases hh
  · obtain ⟨-, h₂, h₃⟩ := hd he
    rcases hc with rfl | ⟨msg, rfl⟩
    · exact absurd rfl h₂
    · exact absurd rfl (h₃ msg)

theorem Saved.answer (h : Saved b e s) (hc : s.control = .handling) (hc' : s'.control ≠ .handling)
    (hother : ∀ p, p ≠ s.current → s'.procs p = s.procs p)
    (hres : Resumes s.current s.reg (s'.procs s.current).registers) : Saved b e s' := by
  have hself := h.handling hc
  refine ⟨fun p ht hal => ?_, fun hh => absurd hh hc', fun p r ht hd => ?_⟩
  · have hne : p ≠ s.current := by
      rintro rfl
      rw [hself] at ht
      cases ht
    rw [Alive, hother p hne] at hal
    rw [hother p hne]
    exact h.fresh p ht hal
  · by_cases hp : p = s.current
    · subst hp
      rw [hself] at ht
      cases ht
      exact hres
    · rw [hother p hp]
      exact h.trapped p r ht fun he => absurd he hp

theorem Saved.search (h : Saved b e s) {pid : Nat}
    (hc : s.control = .scheduling pid ∨ s.control = .polling pid) (hc' : s'.control ≠ .handling)
    (hp : s'.procs = s.procs) : Saved b e s' := by
  have hd : ∀ p, Done p s := by
    intro p _
    rcases hc with hc | hc <;> rw [hc] <;> simp
  refine ⟨fun p ht hal => ?_, fun hh => absurd hh hc', fun p r ht _ => ?_⟩
  · rw [Alive, hp] at hal
    rw [hp]
    exact h.fresh p ht hal
  · rw [hp]
    exact h.trapped p r ht (hd p)

theorem saved_move (h : Saved b e s) (hm : Move b s l s') : Saved b (e.next l) s' := by
  have hother : ∀ (t : State) r p, p ≠ s.current → (t.setRegisters s.current r).procs p =
      t.procs p := by
    intro t r p hne
    rw [setRegisters_procs, if_neg hne]
  have hself : ∀ (t : State) r, ((t.setRegisters s.current r).procs s.current).registers = r := by
    intro t r
    rw [setRegisters_procs, if_pos rfl]
  have hpoll : ∀ {key}, checkKeyboard key = .none → e.next (.poll key) = e := by
    intro key hk
    exact Era.next_same (by simp [Label.reboot, hk]) (by simp)
  cases hm with
  | user hc hw =>
    rw [Era.next_same rfl (by simp)]
    exact ⟨h.fresh, h.handling, h.trapped⟩
  | trap hc => exact h.trap (.inl rfl) rfl rfl
  | limit hc hl => exact h.trap (.inr rfl) rfl rfl
  | off hk =>
    rw [Era.next_same (by simp [Label.reboot, hk]) (by simp)]
    exact h.stop (.inl rfl)
  | halt hc =>
    rw [Era.next_same rfl (by simp)]
    exact h.stop (.inl rfl)
  | @reboot key argument hk =>
    rw [Era.next_reboot (show (Label.poll key).reboot = some argument by simp [Label.reboot, hk])]
    exact saved_kernel b _ _
  | @panic key msg hk hc hn hmsg =>
    rw [hpoll hk]
    exact h.stop (.inr ⟨msg, rfl⟩)
  | getpid hk hc hi =>
    rw [hpoll hk]
    refine h.answer hc (by simp) (hother s _) ?_
    rw [Resumes, if_pos hi]
    exact hself s _
  | yield hk hc hi =>
    rw [hpoll hk]
    exact h.answer hc (by simp) (fun _ _ => rfl)
      (resumes_self (by rw [hi]; decide) (by rw [hi]; decide))
  | timer hk hc hi =>
    rw [hpoll hk]
    exact h.answer hc (by simp) (fun _ _ => rfl)
      (resumes_self (by rw [hi]; decide) (by rw [hi]; decide))
  | @grant key m hk hc hi hg hmap =>
    rw [hpoll hk]
    refine h.answer hc (by simp) (hother (granted s m s.reg.rdi) _) (resumes_alloc hi (.inl ?_))
    exact hself (granted s m s.reg.rdi) _
  | refuse hk hc hi hg =>
    rw [hpoll hk]
    exact h.answer hc (by simp) (hother s _) (resumes_alloc hi (.inr (hself s _)))
  | fault hk hc hi he =>
    rw [hpoll hk]
    refine h.answer hc (by simp) (fun p hne => ?_) ?_
    · change s.broken.procs p = s.procs p
      rw [State.broken, setProc_procs, if_neg hne]
    · change Resumes s.current s.reg (s.broken.procs s.current).registers
      rw [State.broken, setProc_procs, if_pos rfl]
      exact resumes_self (by rw [hi]; decide) (by rw [hi]; decide)
  | polled hk hc =>
    rw [hpoll hk]
    exact h.search (.inr hc) (by simp) rfl
  | failing hk hc =>
    rw [hpoll hk]
    exact h
  | skip hc hr =>
    rw [Era.next_same rfl (by simp)]
    exact h.search (.inl hc) (by simp) rfl
  | pick hc hr =>
    rw [Era.next_same rfl (by simp)]
    exact h.search (.inl hc) (by simp) rfl

theorem saved_run {command : Option String} {s₀ : State} {ls : List Label}
    (hr : Run (Step b) (kernel b command s₀) ls s) : Saved b (era command ls) s := by
  induction hr with
  | nil => exact saved_kernel b command s₀
  | snoc hr hs ih =>
    rw [era_snoc]
    exact saved_move ih (step_move (inv_run hr) hs)

/-! ## Isolation -/

/-- What a process resumes with after the trace `ls`, and what others can do to it. -/
structure Isolated (b : Build) (command : Option String) (ls : List Label) (s : State) : Prop where
  -- The running process was given the registers of its last exception.
  restored : s.control = .user → ∀ reg, (era command ls).traps s.current = some reg →
    Resumes s.current reg s.reg
  -- A process that has had no exception yet starts as it was set up.
  started : s.control = .user → (era command ls).traps s.current = none →
    ∃ program, (s.current, program) ∈ startup b (era command ls).command ∧
    s.reg = setupRegisters b s.current program
  -- From here on only a boot or an exception of `p` changes anything kept for `p`.
  frame : ∀ p, Settled p s → ∀ ls' s', Run (Step b) s ls' s' → (∀ l ∈ ls', l.reboot = none) →
    (∀ reg, .trap p reg ∉ ls') → s'.procs p = s.procs p

theorem context_isolation (b : Build) (command : Option String) (s₀ : State) {ls : List Label}
    {s : State} (hr : Run (Step b) (kernel b command s₀) ls s) : Isolated b command ls s := by
  have h := inv_run hr
  have hsaved := saved_run hr
  have hctl := h.control
  refine ⟨fun hc reg ht => hsaved.trapped _ _ ht fun _ => by simp [hc], fun hc ht => ?_,
    fun p hp ls' s' hr' hl hn => (procs_frame h hr' hl hn hp).1⟩
  rw [hc] at hctl
  exact hsaved.fresh _ ht (by simp [Alive, hctl.2])

theorem context_isolation_request :
    ∃ s, Run (Step demoBuild) (kernel demoBuild none blank) requestTrace s ∧
    s.control = .user ∧ s.current = 1 ∧ Isolated demoBuild none requestTrace s := by
  obtain ⟨s, hr, hc, hcur⟩ := request_run
  exact ⟨s, hr, hc, hcur, context_isolation demoBuild none blank hr⟩

end

end Csc412.Kernel
