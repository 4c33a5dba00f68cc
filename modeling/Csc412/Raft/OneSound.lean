import Csc412.Raft.ApplierSound
import Csc412.Raft.One

/-!
# What an agreement of `one` is worth

`nCommitted` reads the logs one at a time, so no moment need have had all the entries
that it counts. Entries that `applier` recorded stay as they are until a check fails,
and so what `one` and `wait` return holds from then on.
-/

namespace Csc412.Raft

open Lib

section
variable {V B : Type} [DecidableEq V] [DecidableEq B] [ToString V] {G : SnapGob V B} {n : Nat}

/-! ## The loops of `applier` -/

/-- Every loop is that of `applier`; its logs agree if there was no error. -/
structure Plain (n : Nat) (s : Tester V B) : Prop where
  agree : s.errors = [] → ∀ i < n, ∀ j < n, ∀ k v v', s.logs i k = some v →
    s.logs j k = some v' → v = v'
  loops : ∀ i, s.loops i = .idle ∨ ∃ err, s.loops i = .ending err

def Apply.plain : Apply V B → Bool
  | .deliver _ snap _ => !snap
  | .advance _ => true

/-- Nothing that was recorded is lost. -/
def Keeps (s s' : Tester V B) : Prop :=
  s'.errors = [] → s.errors = [] ∧ ∀ i k v, s.logs i k = some v → s'.logs i k = some v

section
variable {s s' : Tester V B} {i : Nat} {m : ApplyMsg V B}

omit [DecidableEq V] [DecidableEq B] [ToString V] in
theorem Keeps.refl : Keeps s s := fun h => ⟨h, fun _ _ _ => id⟩

omit [DecidableEq V] [DecidableEq B] [ToString V] in
theorem Keeps.trans {u : Tester V B} (h : Keeps s s') (h' : Keeps s' u) : Keeps s u := by
  intro herr
  obtain ⟨herr', hlogs'⟩ := h' herr
  obtain ⟨herr, hlogs⟩ := h herr'
  exact ⟨herr, fun i k v hv => hlogs' i k v (hlogs i k v hv)⟩

omit [DecidableEq V] [DecidableEq B] [ToString V] in
theorem Plain.loop (h : Plain n s) (err : String) (s' : Tester V B)
    (hagree : s'.errors = [] → ∀ i < n, ∀ j < n, ∀ k v v',
    s'.logs i k = some v → s'.logs j k = some v' → v = v') (hl : s'.loops = s.loops) :
    Plain n (s'.setLoop i (.ending err)) := by
  refine ⟨hagree, fun j => ?_⟩
  simp only [Tester.setLoop, hl]
  by_cases hj : j = i
  · exact .inr ⟨err, by simp [hj]⟩
  · simpa [hj] using h.loops j

omit [DecidableEq B] in
theorem deliver_plain (hi : i < n) (h : Plain n s) :
    Plain n (s.deliver G n i false m) ∧ Keeps s (s.deliver G n i false m) := by
  by_cases hm : m.commandValid = true
  · obtain ⟨err, hd⟩ : ∃ err, (s.checkLogs n i m).1 = err := ⟨_, rfl⟩
    have hdel : s.deliver G n i false m = ((s.record i m).produce err).setLoop i (.ending err) := by
      unfold Tester.deliver
      rw [if_neg (by simp), if_pos hm]
      show ((s.record i m).produce (s.checkLogs n i m).1).setLoop i
        (.ending (s.checkLogs n i m).1) = _
      rw [hd]
    rw [hdel]
    have hsame : ((s.record i m).produce err).errors = [] → s.errors = [] ∧
        ∀ j < n, ∀ old, s.logs j m.commandIndex = some old → old = m.command := by
      intro herr
      obtain ⟨herr, rfl⟩ := produce_errors herr
      exact ⟨herr, (checkLogs_spec hd).2⟩
    have hlogs : ((s.record i m).produce err).logs = (s.record i m).logs := by
      unfold Tester.produce
      split <;> rfl
    refine ⟨h.loop err _ (fun herr j hj j' hj' k v v' hv hv' => ?_) ?_, fun herr => ?_⟩
    · obtain ⟨hs, hold⟩ := hsame herr
      rw [hlogs, record_logs] at hv hv'
      have hnew : ∀ j < n, ∀ v,
        (if j = i ∧ k = m.commandIndex then some m.command else s.logs j k) = some v →
          s.logs j k = some v ∨ k = m.commandIndex ∧ v = m.command := by
        intro j hj v hv
        split at hv
        · rename_i hjk
          cases hv
          exact .inr ⟨hjk.2, rfl⟩
        · exact .inl hv
      rcases hnew j hj v hv with hv | ⟨hk, rfl⟩ <;> rcases hnew j' hj' v' hv' with hv' | ⟨hk', rfl⟩
      · exact h.agree hs j hj j' hj' k v v' hv hv'
      · exact hold j hj v (hk' ▸ hv)
      · exact (hold j' hj' v' (hk ▸ hv')).symm
      · rfl
    · unfold Tester.produce
      split <;> rfl
    · obtain ⟨hs, hold⟩ := hsame herr
      refine ⟨hs, fun j k v hv => ?_⟩
      show ((s.record i m).produce err).logs j k = some v
      rw [hlogs, record_logs]
      split
      · rename_i hjk
        rw [hjk.1, hjk.2] at hv
        rw [hold i hi v hv]
      · exact hv
  · have hdel : s.deliver G n i false m = s := by
      unfold Tester.deliver
      rw [if_neg (by simp), if_neg hm]
    rw [hdel]
    exact ⟨h, .refl⟩

omit [DecidableEq B] in
theorem advance_plain (h : Plain n s) (ha : s.advance G n i = some s') :
    Plain n s' ∧ Keeps s s' := by
  unfold Tester.advance at ha
  rcases h.loops i with hidle | ⟨err, hend⟩
  · simp [hidle] at ha
  · simp only [hend, Option.some.injEq] at ha
    subst ha
    split
    · refine ⟨⟨h.agree, fun j => ?_⟩, fun herr => ⟨herr, fun _ _ _ => id⟩⟩
      simp only [Tester.setLoop]
      by_cases hj : j = i
      · exact .inl (by simp [hj])
      · simpa [hj] using h.loops j
    · exact ⟨⟨h.agree, h.loops⟩, fun herr => ⟨herr, fun _ _ _ => id⟩⟩

theorem step_plain {l : Apply V B} (hl : l.plain = true) (h : Plain n s)
    (hs : s.step G n l = some s') : Plain n s' ∧ Keeps s s' := by
  cases l with
  | deliver i snap m =>
    obtain rfl : snap = false := by simpa [Apply.plain] using hl
    simp only [Tester.step] at hs
    split at hs
    · split at hs
      · rename_i hi
        cases hs
        exact deliver_plain hi.1 h
      · cases hs
    · cases hs
  | advance i =>
    simp only [Tester.step] at hs
    split at hs
    · exact advance_plain h hs
    · cases hs

end

/-! ## Runs of the test -/

def TestLabel.plain : TestLabel V B → Bool
  | .apply l => l.plain
  | _ => true

/-- A call of `one` or `wait`. -/
def TestLabel.calls : TestLabel V B → Bool
  | .one _ | .wait _ _ => true
  | _ => false

def Test.Steps (G : SnapGob V B) (n : Nat) (t : Test V B) (l : TestLabel V B) (t' : Test V B) :
    Prop := t.step G n l = some t'

variable {t t' u : Test V B} {l : TestLabel V B} {ls ls' : List (TestLabel V B)}

/-- Everything a step of the test can do. -/
inductive Tested (G : SnapGob V B) (n : Nat) (t : Test V B) : TestLabel V B → Test V B → Prop
  | apply {l s} : t.tester.step G n l = some s → Tested G n t (.apply l) { t with tester := s }
  | one (args) : Tested G n t (.one args) { t with args := args, pc := .looping 0 }
  | wait (index args) : Tested G n t (.wait index args) { t with
      args := args, pc := .waiting index 0 }
  | proceed {l pc} : l.calls = false → l.plain = true → t.proceed n l = some pc →
    Tested G n t l { t with pc := pc }

theorem steps_tested (h : Test.Steps G n t l t') : Tested G n t l t' := by
  unfold Test.Steps Test.step at h
  cases l with
  | apply l =>
    obtain ⟨s, hs, rfl⟩ := Option.map_eq_some_iff.mp h
    exact .apply hs
  | one args =>
    simp only at h
    split at h <;> cases h
    exact .one args
  | wait index args =>
    simp only at h
    split at h <;> cases h
    exact .wait index args
  | _ =>
    simp only at h
    split at h
    · obtain ⟨pc, hpc, rfl⟩ := Option.map_eq_some_iff.mp h
      exact .proceed rfl rfl hpc
    · cases h

theorem plain_step (hl : l.plain = true) (h : Plain n t.tester) (hs : Test.Steps G n t l t') :
    Plain n t'.tester ∧ Keeps t.tester t'.tester := by
  cases steps_tested hs with
  | apply hstep => exact step_plain hl h hstep
  | _ => exact ⟨h, .refl⟩

theorem plain_run (h : Plain n t.tester) (hr : Run (Test.Steps G n) t ls t')
    (hl : ∀ l ∈ ls, l.plain = true) :
    Plain n t'.tester ∧ Keeps t.tester t'.tester := by
  induction hr with
  | nil => exact ⟨h, .refl⟩
  | @snoc ls u l t' _ hs ih =>
    obtain ⟨hu, hk⟩ := ih fun l hl' => hl l (List.mem_append_left _ hl')
    obtain ⟨ht', hk'⟩ := plain_step (hl l (by simp)) hu hs
    exact ⟨ht', hk.trans hk'⟩

omit [DecidableEq V] [DecidableEq B] [ToString V] in
theorem plain_make : Plain n (makeTest : Test V B).tester :=
  ⟨by simp [makeTest, makeTester], fun _ => .inl rfl⟩

/-! ## What was counted -/

/-- At a moment of the present call server `i` had `cmd` at `index`. -/
def Seen (G : SnapGob V B) (n : Nat) (ls : List (TestLabel V B)) (i : Nat) (index : Int)
    (cmd : Option V) : Prop :=
  ∃ ls₁ ls₂ t, ls = ls₁ ++ ls₂ ∧ Run (Test.Steps G n) makeTest ls₁ t ∧
    (∀ l ∈ ls₂, l.calls = false) ∧
    t.tester.logs i index = some cmd

/-- `count` servers below `k` were seen with `cmd` at `index`. -/
def Counted (G : SnapGob V B) (n : Nat) (ls : List (TestLabel V B)) (k count : Nat) (index : Int)
    (cmd : Option V) : Prop :=
  ∃ is : List Nat, is.Nodup ∧ is.length = count ∧ ∀ i ∈ is, i < k ∧ Seen G n ls i index cmd

variable {i k count : Nat} {index : Int} {cmd : Option V}

theorem Seen.later (h : Seen G n ls i index cmd) (hl : l.calls = false) :
    Seen G n (ls ++ [l]) i index cmd := by
  obtain ⟨ls₁, ls₂, t, rfl, hr, hcalls, hlog⟩ := h
  refine ⟨ls₁, ls₂ ++ [l], t, List.append_assoc .., hr, fun l' hl' => ?_, hlog⟩
  rcases List.mem_append.mp hl' with hl' | hl'
  · exact hcalls l' hl'
  · rw [List.mem_singleton.mp hl']
    exact hl

theorem Counted.later (h : Counted G n ls k count index cmd) (hl : l.calls = false) :
    Counted G n (ls ++ [l]) k count index cmd := by
  obtain ⟨is, hnd, hlen, hseen⟩ := h
  exact ⟨is, hnd, hlen, fun i hi => ⟨(hseen i hi).1, (hseen i hi).2.later hl⟩⟩

theorem Counted.none : Counted G n ls k 0 index cmd := ⟨[], by simp, rfl, by simp⟩

theorem Counted.below (h : Counted G n ls k count index cmd) {k' : Nat} (hk : k ≤ k') :
    Counted G n ls k' count index cmd := by
  obtain ⟨is, hnd, hlen, hseen⟩ := h
  exact ⟨is, hnd, hlen, fun i hi => ⟨Nat.lt_of_lt_of_le (hseen i hi).1 hk, (hseen i hi).2⟩⟩

theorem Counted.succ (h : Counted G n ls k count index cmd) (hs : Seen G n ls k index cmd) :
    Counted G n ls (k + 1) (count + 1) index cmd := by
  obtain ⟨is, hnd, hlen, hseen⟩ := h
  refine ⟨k :: is, List.nodup_cons.mpr ⟨fun hk => ?_, hnd⟩, by simp [hlen], fun i hi => ?_⟩
  · exact absurd (hseen k hk).1 (Nat.lt_irrefl k)
  · rcases List.mem_cons.mp hi with rfl | hi
    · exact ⟨Nat.lt_succ_self _, hs⟩
    · exact ⟨Nat.lt_succ_of_lt (hseen i hi).1, (hseen i hi).2⟩

/-- `nCommitted` where it stands, and what `one` and `wait` have got from it. -/
def PcOk (G : SnapGob V B) (n : Nat) (ls : List (TestLabel V B)) (a : AgreeArgs V) :
    AgreePc V → Prop
  | .counting index p _ => p.i ≤ n ∧ Counted G n ls p.i p.count index p.cmd
  | .returned index => index = -1 ∨ ∃ count : Nat, 0 < count ∧ a.expectedServers ≤ count ∧
    Counted G n ls n count index a.cmd
  | .decided index cmd => ∃ count : Nat, a.expectedServers ≤ count ∧
    Counted G n ls n count index cmd
  | _ => True

theorem PcOk.later {pc : AgreePc V} {a : AgreeArgs V} (h : PcOk G n ls a pc)
    (hl : l.calls = false) : PcOk G n (ls ++ [l]) a pc := by
  cases pc with
  | counting index p caller => exact ⟨h.1, h.2.later hl⟩
  | returned index =>
    exact h.imp_right fun ⟨count, hpos, hexp, hc⟩ => ⟨count, hpos, hexp, hc.later hl⟩
  | decided index cmd =>
    obtain ⟨count, hexp, hc⟩ := h
    exact ⟨count, hexp, hc.later hl⟩
  | _ => trivial

theorem PcOk.start (G : SnapGob V B) (n : Nat) (ls : List (TestLabel V B)) (a : AgreeArgs V)
    (index : Int) (caller : Caller) :
    PcOk G n ls a (.counting index .start caller) := ⟨Nat.zero_le n, Counted.none⟩

/-- `nCommitted` looks at server `p.i`. -/
theorem Counted.read {p p' : Poll V} (h : Counted G n ls p.i p.count index p.cmd)
    (hr : Run (Test.Steps G n) makeTest ls t) (hp : p.read (t.tester.logs p.i index) = some p') :
    p'.i = p.i + 1 ∧ Counted G n ls p'.i p'.count index p'.cmd := by
  cases hlog : t.tester.logs p.i index with
  | none =>
    rw [hlog, Poll.read] at hp
    cases hp
    exact ⟨rfl, h.below (Nat.le_succ _)⟩
  | some cmd1 =>
    rw [hlog, Poll.read] at hp
    split at hp
    · cases hp
    · rename_i hsame
      cases hp
      have hseen : Seen G n ls p.i index cmd1 :=
        ⟨ls, [], t, (List.append_nil ls).symm, hr, by simp, hlog⟩
      refine ⟨rfl, ?_⟩
      by_cases hzero : p.count = 0
      · rw [hzero]
        have hnone : Counted G n ls p.i 0 index cmd1 := Counted.none
        exact hnone.succ hseen
      · have hcmd : p.cmd = cmd1 := by
          by_contra hne
          exact hsame ⟨Nat.pos_of_ne_zero hzero, hne⟩
        rw [hcmd] at h
        exact h.succ hseen

theorem pcOk_resume {p : Poll V} (a : AgreeArgs V) (h : Counted G n ls p.i p.count index p.cmd)
    (hi : p.i = n) (caller : Caller) :
    PcOk G n ls a (.resume a index p caller) := by
  rw [hi] at h
  cases caller with
  | one starts =>
    simp only [AgreePc.resume]
    split
    · rename_i hc
      rw [hc.2.2] at h
      exact .inr ⟨p.count, hc.1, hc.2.1, h⟩
    · trivial
  | wait iters =>
    simp only [AgreePc.resume]
    split
    · exact .start ..
    · trivial
  | last =>
    simp only [AgreePc.resume]
    split
    · rename_i hc
      exact ⟨p.count, hc, h⟩
    · trivial

theorem pcOk_proceed {pc : AgreePc V} (h : PcOk G n ls t.args t.pc)
    (hr : Run (Test.Steps G n) makeTest ls t) (hp : t.proceed n l = some pc) :
    PcOk G n ls t.args pc := by
  cases l with
  | look =>
    simp only [Test.proceed] at hp
    split at hp
    · cases hp
      exact .start ..
    · rename_i index p caller hpc
      rw [hpc] at h
      obtain ⟨hi, hc⟩ := h
      split at hp
      · rename_i hlt
        split at hp
        · rename_i p' hread
          cases hp
          obtain ⟨hi', hc'⟩ := hc.read hr hread
          exact ⟨by omega, hc'⟩
        · cases hp
          trivial
      · rename_i hge
        cases hp
        exact pcOk_resume t.args hc (by omega) caller
    · cases hp
  | again =>
    simp only [Test.proceed] at hp
    split at hp <;> cases hp
    split <;> trivial
  | giveUp finished =>
    simp only [Test.proceed] at hp
    split at hp <;> cases hp
    cases finished with
    | false => trivial
    | true => exact .inl rfl
  | start index =>
    simp only [Test.proceed] at hp
    split at hp <;> cases hp
    unfold AgreePc.started
    split <;> split <;> trivial
  | within =>
    simp only [Test.proceed] at hp
    split at hp <;> cases hp
    exact .start ..
  | expire =>
    simp only [Test.proceed] at hp
    split at hp <;> cases hp
    split <;> trivial
  | wake moved =>
    simp only [Test.proceed] at hp
    split at hp <;> cases hp
    split <;> trivial
  | apply | one | wait => cases hp

theorem pcOk_run (hr : Run (Test.Steps G n) makeTest ls t) : PcOk G n ls t.args t.pc := by
  induction hr with
  | nil => trivial
  | @snoc ls t l t' hr hs ih =>
    cases steps_tested hs with
    | apply hstep => exact ih.later rfl
    | one | wait => trivial
    | proceed hcalls _ hp => exact (pcOk_proceed ih hr hp).later hcalls

/-! ## Agreements -/

/-- The index and the command that `one` or `wait` has returned. -/
def Test.result (t : Test V B) : Option (Int × Option V) :=
  match t.pc with
  | .returned index => if index = -1 then none else some (index, t.args.cmd)
  | .decided index cmd => some (index, cmd)
  | _ => none

/-- What the test knows when it goes on with `cmd` at `index`. -/
structure Agreed (G : SnapGob V B) (n : Nat) (ls : List (TestLabel V B)) (t : Test V B)
    (index : Int) (cmd : Option V) (is : List Nat) : Prop where
  distinct : is.Nodup
  enough : t.args.expectedServers ≤ is.length
  seen : ∀ i ∈ is, i < n ∧ Seen G n ls i index cmd
  -- If all loops are those of `applier`, then until a check fails those servers keep the
  -- entry, and no server has another one.
  lasting : ∀ ls' u, Run (Test.Steps G n) t ls' u → (∀ l ∈ ls ++ ls', l.plain = true) →
    u.tester.errors = [] →
    ∀ i ∈ is, u.tester.logs i index = some cmd ∧ ∀ j < n, ∀ v,
    u.tester.logs j index = some v → v = cmd

theorem Counted.agreed (h : Counted G n ls n count index cmd)
    (hr : Run (Test.Steps G n) makeTest ls t) (hexp : t.args.expectedServers ≤ count) :
    ∃ is, is.length = count ∧ Agreed G n ls t index cmd is := by
  obtain ⟨is, hnd, rfl, hseen⟩ := h
  refine ⟨is, rfl, hnd, hexp, hseen, fun ls' u hr' hplain herr i hi => ?_⟩
  obtain ⟨hin, ls₁, ls₂, t₁, rfl, hr₁, -, hlog⟩ := hseen i hi
  obtain ⟨t₂, hr₂, hrest⟩ := hr.split
  obtain rfl : t₂ = t₁ := Run.functional
    (fun _ _ _ _ h₁ h₂ => Option.some.inj (h₁.symm.trans h₂)) hr₂ hr₁
  obtain ⟨hp₁, -⟩ := plain_run plain_make hr₁ fun l hl => hplain l (by simp [hl])
  obtain ⟨hu, hkeep⟩ := plain_run hp₁ (hrest.append hr') fun l hl => hplain l (by
    rw [List.append_assoc]
    exact List.mem_append_right _ hl)
  have hlast := (hkeep herr).2 i index cmd hlog
  exact ⟨hlast, fun j hj v hv => hu.agree herr j hj i hin index v cmd hv hlast⟩

/-- In every interleaving of the test with the loops of the servers. -/
theorem one_agrees (hr : Run (Test.Steps G n) makeTest ls t) (hres : t.result = some (index, cmd)) :
    ∃ is, Agreed G n ls t index cmd is ∧ ((∃ k, t.pc = .returned k) → is ≠ []) := by
  have hpc := pcOk_run hr
  unfold Test.result at hres
  split at hres
  · rename_i k hk
    rw [hk] at hpc
    split at hres
    · cases hres
    · rename_i hne
      cases hres
      obtain ⟨count, hpos, hexp, hc⟩ := hpc.resolve_left hne
      obtain ⟨is, hlen, ha⟩ := hc.agreed hr hexp
      refine ⟨is, ha, fun _ hnil => ?_⟩
      rw [hnil] at hlen
      exact Nat.ne_of_lt hpos hlen
  · rename_i k v hk
    rw [hk] at hpc
    cases hres
    obtain ⟨count, hexp, hc⟩ := hpc
    obtain ⟨is, -, ha⟩ := hc.agreed hr hexp
    refine ⟨is, ha, fun ⟨k', hk'⟩ => ?_⟩
    rw [hk] at hk'
    cases hk'
  · cases hres

end

/-- Two servers apply the command 5, and `one` waits for both of them. -/
def oneTrace : List (TestLabel Nat (Int × List (Option Nat))) :=
  [.one ⟨some 5, 2, false, -1⟩, .again, .start none,
    .apply (.deliver 0 false ⟨true, some 5, 1, false, none, 0⟩), .start (some 1),
    .within, .look, .apply (.deliver 1 false ⟨true, some 5, 1, false, none, 0⟩), .look, .look]

theorem one_agrees_both : ∃ t is, Run (Test.Steps plainGob 2) makeTest oneTrace t ∧
    Agreed plainGob 2 oneTrace t 1 (some 5) is ∧
    2 ≤ is.length := by
  have hend : ((oneTrace.foldlM (Test.step plainGob 2) makeTest).any fun t =>
      decide (t.result = some (1, some 5) ∧ t.args.expectedServers = 2)) = true := by
    decide +kernel
  obtain ⟨t, ht, hres⟩ := (Option.any_eq_true _ _).mp hend
  obtain ⟨hres, hexp⟩ := of_decide_eq_true hres
  have hr : Run (Test.Steps plainGob 2) makeTest oneTrace t := Run.of_foldlM ht
  obtain ⟨is, ha, -⟩ := one_agrees hr hres
  refine ⟨t, is, hr, ha, ?_⟩
  have henough := ha.enough
  rw [hexp] at henough
  omega

end Csc412.Raft
