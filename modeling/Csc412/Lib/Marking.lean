import Mathlib.Algebra.BigOperators.Group.Finset.Basic
import Csc412.Lib.Run

/-!
# Searching with marks

Several workers visit the nodes of one graph. Each has a stack of tasks; the first visit
of a node marks it and puts the node's own tasks on the stack, and a later one does
nothing. Some tasks only give something out. In whatever order the workers go on, every
node that is reached is marked, and gives out what it has once.
-/

namespace Lib

inductive Task (N O : Type*) where
  | visit (n : N)
  | emit (o : O)

structure Search (N O : Type*) where
  marked : List N
  out : List O
  workers : List (List (Task N O))

inductive SearchLabel (N O : Type*) where
  | spawn (ts : List (Task N O))
  | run (g : Nat)

namespace Search

variable {N O : Type*}

def start : Search N O := ⟨[], [], []⟩

def step [DecidableEq N] (items : N → List (Task N O)) (s : Search N O) :
    SearchLabel N O → Option (Search N O)
  | .spawn ts => some { s with workers := s.workers ++ [ts] }
  | .run g =>
    match s.workers[g]? with
    | some (.visit n :: ts) =>
      if n ∈ s.marked then some { s with workers := s.workers.set g ts }
      else some { s with marked := n :: s.marked, workers := s.workers.set g (items n ++ ts) }
    | some (.emit o :: ts) => some { s with out := s.out ++ [o], workers := s.workers.set g ts }
    | _ => none

def Steps [DecidableEq N] (items : N → List (Task N O)) (s : Search N O) (l : SearchLabel N O)
    (s' : Search N O) : Prop :=
  s.step items l = some s'

def pending (s : Search N O) : List (Task N O) := s.workers.flatten

end Search

variable {N O : Type*} {items : N → List (Task N O)} {s s' : Search N O}

def Task.output : Task N O → Option O
  | .visit _ => none
  | .emit o => some o

def outputs (ts : List (Task N O)) : List O := ts.filterMap Task.output

def SearchLabel.tasks : SearchLabel N O → List (Task N O)
  | .spawn ts => ts
  | .run _ => []

def spawned (ls : List (SearchLabel N O)) : List (Task N O) := ls.flatMap SearchLabel.tasks

/-- The nodes that one gets to from the tasks `ts`. -/
inductive Reached (items : N → List (Task N O)) (ts : List (Task N O)) : N → Prop
  | root {n} : .visit n ∈ ts → Reached items ts n
  | child {m n} : Reached items ts m → .visit n ∈ items m → Reached items ts n

theorem Reached.mono {ts ts' : List (Task N O)} (h : ∀ t ∈ ts, t ∈ ts') {n : N}
    (hr : Reached items ts n) :
    Reached items ts' n := by
  induction hr with
  | root hn => exact .root (h _ hn)
  | child _ hn ih => exact .child ih hn

/-! ## One step -/

/-- Everything a step does, with the order of the pending tasks left open. -/
inductive Searched (items : N → List (Task N O)) (s : Search N O) :
    SearchLabel N O → Search N O → Prop
  | spawn {ts s'} : s'.marked = s.marked → s'.out = s.out → s'.pending.Perm (ts ++ s.pending) →
    Searched items s (.spawn ts) s'
  | known {g n rest s'} : s.pending.Perm (.visit n :: rest) → n ∈ s.marked → s'.marked = s.marked →
    s'.out = s.out →
      s'.pending.Perm rest → Searched items s (.run g) s'
  | fresh {g n rest s'} : s.pending.Perm (.visit n :: rest) → n ∉ s.marked →
    s'.marked = n :: s.marked → s'.out = s.out →
      s'.pending.Perm (items n ++ rest) → Searched items s (.run g) s'
  | emit {g o rest s'} : s.pending.Perm (.emit o :: rest) → s'.marked = s.marked →
    s'.out = s.out ++ [o] →
      s'.pending.Perm rest → Searched items s (.run g) s'

theorem set_flatten {α : Type*} {l : List α} {ls : List (List α)} {g : Nat} (h : ls[g]? = some l) :
    ∃ rest, ls.flatten.Perm (l ++ rest) ∧ ∀ xs, (ls.set g xs).flatten.Perm (xs ++ rest) := by
  obtain ⟨hg, rfl⟩ := List.getElem?_eq_some_iff.mp h
  have hset : ∀ xs, (ls.set g xs).flatten.Perm
      (xs ++ ((ls.take g).flatten ++ (ls.drop (g + 1)).flatten)) := by
    intro xs
    rw [List.set_eq_take_append_cons_drop, if_pos hg, List.flatten_append, List.flatten_cons,
      ← List.append_assoc, ← List.append_assoc]
    exact List.perm_append_comm.append_right _
  refine ⟨_, ?_, hset⟩
  have hself := hset ls[g]
  rwa [List.set_getElem_self] at hself

variable [DecidableEq N]

theorem steps_searched {l : SearchLabel N O} (h : Search.Steps items s l s') :
    Searched items s l s' := by
  unfold Search.Steps Search.step at h
  cases l with
  | spawn ts =>
    cases h
    refine .spawn rfl rfl ?_
    simpa [Search.pending] using List.perm_append_comm
  | run g =>
    simp only at h
    split at h
    · rename_i n ts hg
      obtain ⟨rest, hp, hset⟩ := set_flatten hg
      split at h <;> cases h
      · rename_i hn
        exact .known hp hn rfl rfl (hset ts)
      · rename_i hn
        refine .fresh hp hn rfl rfl ((hset _).trans ?_)
        rw [List.append_assoc]
        exact .refl _
    · rename_i o ts hg
      obtain ⟨rest, hp, hset⟩ := set_flatten hg
      cases h
      exact .emit hp rfl rfl (hset ts)
    · cases h

/-! ## The whole search -/

/-- The search that the tasks `ts` were given to. -/
structure Marking (items : N → List (Task N O)) (ts : List (Task N O)) (s : Search N O) : Prop where
  nodup : s.marked.Nodup
  sound : ∀ n ∈ s.marked, Reached items ts n
  pending : ∀ n, .visit n ∈ s.pending → Reached items ts n
  roots : ∀ n, .visit n ∈ ts → n ∈ s.marked ∨ .visit n ∈ s.pending
  children : ∀ m ∈ s.marked, ∀ n, .visit n ∈ items m → n ∈ s.marked ∨ .visit n ∈ s.pending
  emitted : (s.out ++ outputs s.pending).Perm (outputs ts ++ s.marked.flatMap
    fun n => outputs (items n))

omit [DecidableEq N] in
theorem outputs_perm {ts ts' : List (Task N O)} (h : ts.Perm ts') :
    (outputs ts).Perm (outputs ts') := h.filterMap _

omit [DecidableEq N] in
theorem outputs_append (ts ts' : List (Task N O)) :
    outputs (ts ++ ts') = outputs ts ++ outputs ts' := List.filterMap_append

omit [DecidableEq N] in
/-- New tasks `us` add what they give out. -/
theorem emitted_more {as bs bs' cs ds : List O} {us : List (Task N O)}
    (h : (as ++ bs).Perm (cs ++ ds)) (hb : bs'.Perm (outputs us ++ bs)) :
    (as ++ bs').Perm (cs ++ (outputs us ++ ds)) :=
  ((hb.append_left as).trans (List.perm_append_comm_assoc _ _ _)).trans
    ((h.append_left _).trans (List.perm_append_comm_assoc _ _ _))

omit [DecidableEq N] in
theorem Marking.spawn {ts us : List (Task N O)} (h : Marking items ts s)
    (hmarked : s'.marked = s.marked) (hout : s'.out = s.out)
    (hp : s'.pending.Perm (us ++ s.pending)) :
    Marking items (ts ++ us) s' := by
  have hsub : ∀ t ∈ ts, t ∈ ts ++ us := fun t => List.mem_append_left _
  refine ⟨hmarked ▸ h.nodup, fun n hn => (h.sound n (hmarked ▸ hn)).mono hsub, fun n hn => ?_,
    fun n hn => ?_,
    fun m hm n hn => ?_, ?_⟩
  · rcases List.mem_append.mp (hp.mem_iff.mp hn) with hn | hn
    · exact .root (List.mem_append_right _ hn)
    · exact (h.pending n hn).mono hsub
  · rw [hmarked, hp.mem_iff, List.mem_append]
    rcases List.mem_append.mp hn with hn | hn
    · exact (h.roots n hn).imp_right .inr
    · exact .inr (.inl hn)
  · rw [hmarked] at hm
    rw [hmarked, hp.mem_iff, List.mem_append]
    exact (h.children m hm n hn).imp_right .inr
  · rw [hmarked, hout, outputs_append, List.append_assoc]
    refine emitted_more h.emitted ?_
    rw [← outputs_append]
    exact outputs_perm hp

omit [DecidableEq N] in
/-- The task `x` is done, and was no visit of a new node. -/
theorem Marking.take {ts rest : List (Task N O)} {x : Task N O} (h : Marking items ts s)
    (hp : s.pending.Perm (x :: rest)) (hx : ∀ n, x = .visit n → n ∈ s.marked)
    (hmarked : s'.marked = s.marked) (hout : s'.out = s.out ++ outputs [x])
    (hp' : s'.pending.Perm rest) : Marking items ts s' := by
  have hkeep : ∀ m, m ∈ s.marked ∨ .visit m ∈ s.pending → m ∈ s'.marked ∨
      .visit m ∈ s'.pending := by
    rintro m (hm | hm)
    · exact .inl (hmarked ▸ hm)
    · rcases List.mem_cons.mp (hp.mem_iff.mp hm) with hm | hm
      · exact .inl (hmarked ▸ hx m hm.symm)
      · exact .inr (hp'.mem_iff.mpr hm)
  refine ⟨hmarked ▸ h.nodup, fun m hm => h.sound m (hmarked ▸ hm),
    fun m hm => h.pending m (hp.mem_iff.mpr (List.mem_cons_of_mem _ (hp'.mem_iff.mp hm))),
    fun m hm => hkeep m (h.roots m hm),
    fun m hm n hn => hkeep n (h.children m (hmarked ▸ hm) n hn), ?_⟩
  rw [hmarked, hout, List.append_assoc]
  refine List.Perm.trans (List.Perm.append_left _ ?_) h.emitted
  have hout' := (outputs_perm hp).symm
  rw [← List.singleton_append, outputs_append] at hout'
  exact ((outputs_perm hp').append_left _).trans hout'

omit [DecidableEq N] in
/-- The node `n` is marked, and its tasks come in its place. -/
theorem Marking.visit {ts rest : List (Task N O)} {n : N} (h : Marking items ts s)
    (hp : s.pending.Perm (.visit n :: rest)) (hn : n ∉ s.marked)
    (hmarked : s'.marked = n :: s.marked) (hout : s'.out = s.out)
    (hp' : s'.pending.Perm (items n ++ rest)) : Marking items ts s' := by
  have hreach : Reached items ts n := h.pending n (hp.mem_iff.mpr List.mem_cons_self)
  have hkeep : ∀ m, m ∈ s.marked ∨ .visit m ∈ s.pending → m ∈ s'.marked ∨
      .visit m ∈ s'.pending := by
    rintro m (hm | hm)
    · exact .inl (hmarked ▸ List.mem_cons_of_mem _ hm)
    · rcases List.mem_cons.mp (hp.mem_iff.mp hm) with hm | hm
      · cases hm
        exact .inl (hmarked ▸ List.mem_cons_self)
      · exact .inr (hp'.mem_iff.mpr (List.mem_append_right _ hm))
  refine ⟨hmarked ▸ List.nodup_cons.mpr ⟨hn, h.nodup⟩, fun m hm => ?_, fun m hm => ?_,
    fun m hm => hkeep m (h.roots m hm),
    fun m hm k hk => ?_, ?_⟩
  · rw [hmarked] at hm
    rcases List.mem_cons.mp hm with rfl | hm
    · exact hreach
    · exact h.sound m hm
  · rcases List.mem_append.mp (hp'.mem_iff.mp hm) with hm | hm
    · exact .child hreach hm
    · exact h.pending m (hp.mem_iff.mpr (List.mem_cons_of_mem _ hm))
  · rw [hmarked] at hm
    rcases List.mem_cons.mp hm with rfl | hm
    · exact .inr (hp'.mem_iff.mpr (List.mem_append_left _ hk))
    · exact hkeep k (h.children m hm k hk)
  · rw [hmarked, hout, List.flatMap_cons]
    refine emitted_more h.emitted ((outputs_perm hp').trans ?_)
    rw [outputs_append]
    exact (outputs_perm hp).symm.append_left _

omit [DecidableEq N] in
theorem Marking.step {ts : List (Task N O)} {l : SearchLabel N O} (h : Marking items ts s)
    (hs : Searched items s l s') :
    Marking items (ts ++ l.tasks) s' := by
  cases hs with
  | spawn hmarked hout hp => exact h.spawn hmarked hout hp
  | known hp hn hmarked hout hp' =>
    rw [SearchLabel.tasks, List.append_nil]
    refine h.take hp (fun m hm => ?_) hmarked (hout.trans (List.append_nil _).symm) hp'
    cases hm
    exact hn
  | fresh hp hn hmarked hout hp' =>
    rw [SearchLabel.tasks, List.append_nil]
    exact h.visit hp hn hmarked hout hp'
  | emit hp hmarked hout hp' =>
    rw [SearchLabel.tasks, List.append_nil]
    exact h.take hp (fun m hm => by cases hm) hmarked hout hp'

theorem marking_run {ls : List (SearchLabel N O)} (hr : Run (Search.Steps items) .start ls s) :
    Marking items (spawned ls) s := by
  induction hr with
  | nil =>
    exact ⟨List.nodup_nil, by simp [Search.start], by simp [Search.start, Search.pending],
      by simp [spawned],
      by simp [Search.start], .refl _⟩
  | snoc _ hs ih =>
    rw [spawned, List.flatMap_append, List.flatMap_cons, List.flatMap_nil, List.append_nil]
    exact ih.step (steps_searched hs)

omit [DecidableEq N] in
/-- Nothing is left to do. -/
theorem Marking.done {ts : List (Task N O)} (h : Marking items ts s) (hp : s.pending = []) :
    (∀ n, n ∈ s.marked ↔ Reached items ts n) ∧ s.out.Perm
    (outputs ts ++ s.marked.flatMap fun n => outputs (items n)) := by
  refine ⟨fun n => ⟨h.sound n, fun hn => ?_⟩, ?_⟩
  · induction hn with
    | root hn =>
      refine (h.roots _ hn).resolve_right ?_
      rw [hp]
      exact List.not_mem_nil
    | child _ hn ih =>
      refine (h.children _ ih _ hn).resolve_right ?_
      rw [hp]
      exact List.not_mem_nil
  · simpa [hp, outputs] using h.emitted

/-! ## It ends -/

/-- The tasks that there are, and those of the nodes of `D` that are not marked. -/
def Search.weight (items : N → List (Task N O)) (D : Finset N) (s : Search N O) : Nat :=
  s.pending.length + ∑ n ∈ D.filter (· ∉ s.marked), (items n).length

theorem weight_step {D : Finset N} {g : Nat} (hD : ∀ n, .visit n ∈ s.pending → n ∈ D)
    (h : Search.Steps items s (.run g) s') : s'.weight items D + 1 = s.weight items D := by
  unfold Search.weight
  cases steps_searched h with
  | known hp hn hmarked hout hp' | emit hp hmarked hout hp' =>
    rw [hmarked, hp'.length_eq, hp.length_eq, List.length_cons]
    omega
  | fresh hp hn hmarked hout hp' =>
    rename_i n rest
    have hmem : n ∈ D := hD n (hp.mem_iff.mpr List.mem_cons_self)
    have hfilter : D.filter (· ∉ s.marked) = insert n (D.filter (· ∉ s'.marked)) := by
      ext m
      by_cases hm : m = n <;> simp [hmarked, hm, hn, hmem]
    rw [hfilter, Finset.sum_insert (by simp [hmarked]), hp'.length_eq, hp.length_eq,
      List.length_append, List.length_cons]
    omega

/-- With no new tasks, each step takes one from the weight. -/
theorem Marking.weight_run {ts : List (Task N O)} {D : Finset N} {ls : List (SearchLabel N O)}
    (h : Marking items ts s) (hD : ∀ n, Reached items ts n → n ∈ D)
    (hr : Run (Search.Steps items) s ls s') (hls : ∀ l ∈ ls, ∃ g, l = .run g) :
    ls.length + s'.weight items D = s.weight items D := by
  suffices Marking items ts s' ∧ ls.length + s'.weight items D = s.weight items D from this.2
  induction hr with
  | nil => exact ⟨h, by simp⟩
  | snoc _ hs ih =>
    obtain ⟨hm, hw⟩ := ih fun l hl => hls l (List.mem_append_left _ hl)
    obtain ⟨g, rfl⟩ := hls _ (List.mem_append_right _ (List.mem_singleton_self _))
    have hstep := weight_step (fun n hn => hD n (hm.pending n hn)) hs
    have hm' := hm.step (steps_searched hs)
    rw [SearchLabel.tasks, List.append_nil] at hm'
    refine ⟨hm', ?_⟩
    rw [List.length_append, List.length_singleton]
    omega

end Lib
