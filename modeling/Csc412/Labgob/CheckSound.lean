import Csc412.Labgob.Check

/-!
# What labgob complains of

The checks are a search with marks over the types, whatever the order in which the
goroutines go on. So each lower-case field of a type that values can hold is complained
of once.
-/

namespace Csc412.Labgob

open Lib

section
variable {T W : Type} {R : Reflect T W} {s s' u : State T} {q : Search T (Effect T)} {l : Step T W}
    {ls ms : List (Step T W)}
  {t : T} {i : Nat}

/-! ## What is printed -/

def Effect.field : Effect T → Option (T × Nat)
  | .complain t i => some (t, i)
  | _ => none

def Effect.counts : Effect T → Bool
  | .count | .warn _ => true
  | _ => false

def Line.field : Line T → Option (T × Nat)
  | .lowerCase t i => some (t, i)
  | .nonDefault _ => none

def Line.isWarning (l : Line T) : Bool := l.field.isNone

theorem mem_field {ps : List (Line T)} :
    (t, i) ∈ ps.filterMap Line.field ↔ .lowerCase t i ∈ ps := by
  rw [List.mem_filterMap]
  constructor
  · rintro ⟨l, hl, h⟩
    cases l <;> simp only [Line.field, Option.some.injEq, Prod.mk.injEq, reduceCtorEq] at h
    obtain ⟨rfl, rfl⟩ := h
    exact hl
  · exact fun h => ⟨_, h, rfl⟩

theorem play_field (out : List (Effect T)) (p : List (Line T) × Nat) :
    (out.foldl Effect.play p).1.filterMap Line.field = p.1.filterMap Line.field ++
        out.filterMap Effect.field := by
  induction out generalizing p with
  | nil => simp
  | cons e out ih =>
    rw [List.foldl_cons, ih]
    cases e with
    | complain | count | panic => simp [Effect.play, List.filterMap_cons, Effect.field, Line.field]
    | warn what =>
      rw [Effect.play]
      split <;> simp [List.filterMap_cons, Effect.field, Line.field]

theorem play_count (out : List (Effect T)) (p : List (Line T) × Nat) :
    (out.foldl Effect.play p).2 = p.2 + out.countP Effect.counts := by
  induction out generalizing p with
  | nil => simp
  | cons e out ih =>
    rw [List.foldl_cons, ih]
    cases e <;> simp [Effect.play, List.countP_cons, Effect.counts] <;> omega

theorem play_warnings (out : List (Effect T)) {p : List (Line T) × Nat}
    (h : p.1.countP Line.isWarning ≤ 1) (h0 : p.2 = 0 → p.1.countP Line.isWarning = 0) :
    (out.foldl Effect.play p).1.countP Line.isWarning ≤ 1 := by
  induction out generalizing p with
  | nil => exact h
  | cons e out ih =>
    rw [List.foldl_cons]
    cases e with
    | complain t i =>
      have hsame : (Effect.play p (.complain t i)).1.countP Line.isWarning =
          p.1.countP Line.isWarning := by
        simp [Effect.play, Line.isWarning, Line.field]
      exact ih (hsame.trans_le h) fun hp => hsame.trans (h0 hp)
    | count => exact ih h (by simp [Effect.play])
    | panic => exact ih h h0
    | warn what =>
      refine ih ?_ (by simp [Effect.play])
      rw [Effect.play]
      split
      · rename_i hlt
        rw [List.countP_append, h0 (by omega)]
        simp [Line.isWarning, Line.field]
      · exact h

/-! ## Types -/

def Reflect.PartOf (R : Reflect T W) (t u : T) : Prop :=
  match R.kind t with
  | .struct fields => ∃ f, (f, u) ∈ fields
  | .elem e => u = e
  | .map e k => u = e ∨ u = k
  | .other => False

/-- Field `i` of the type `t` has a lower-case name. -/
def Reflect.LowerCase (R : Reflect T W) (t : T) (i : Nat) : Prop :=
  match R.kind t with
  | .struct fields => ∃ f, fields[i]? = some f ∧ R.capital f.1 = false
  | _ => False

def Reflect.lowerCases (R : Reflect T W) (t : T) : List Nat :=
  match R.kind t with
  | .struct fields => (fields.zipIdx.filter fun p => !R.capital p.1.1).map Prod.snd
  | _ => []

theorem mem_lowerCases : i ∈ R.lowerCases t ↔ R.LowerCase t i := by
  unfold Reflect.lowerCases Reflect.LowerCase
  cases R.kind t with
  | struct fields =>
    simp only [List.mem_map, List.mem_filter, Bool.not_eq_true', Prod.exists, exists_eq_right,
      List.mem_zipIdx_iff_getElem?]
  | elem | map | other => simp

theorem lowerCases_nodup : (R.lowerCases t).Nodup := by
  unfold Reflect.lowerCases
  split
  · rename_i fields hk
    have hsub := (List.filter_sublist (l := fields.zipIdx) (p := fun p => !R.capital p.1.1)).map
      Prod.snd
    refine hsub.nodup ?_
    rw [List.zipIdx_map_snd]
    exact List.nodup_range'
  · exact List.nodup_nil

theorem visit_parts {u : T} : .visit u ∈ R.parts t ↔ R.PartOf t u := by
  unfold Reflect.parts Reflect.PartOf
  cases R.kind t with
  | struct fields =>
    simp only [List.mem_flatMap, List.mem_append, List.mem_singleton, Task.visit.injEq, Prod.exists]
    constructor
    · rintro ⟨f, v, i, hmem, h | rfl⟩
      · split at h <;> simp at h
      · exact ⟨f, List.mem_of_getElem? (List.mem_zipIdx_iff_getElem?.mp hmem)⟩
    · rintro ⟨f, hf⟩
      obtain ⟨i, hi⟩ := List.getElem?_of_mem hf
      exact ⟨f, u, i, List.mem_zipIdx_iff_getElem?.mpr hi, .inr rfl⟩
  | elem | map | other => simp

theorem outputs_parts :
    outputs (R.parts t) = (R.lowerCases t).flatMap fun i => [.complain t i, .count] := by
  unfold Reflect.parts Reflect.lowerCases
  cases R.kind t with
  | struct fields =>
    simp only
    generalize fields.zipIdx = l
    induction l with
    | nil => rfl
    | cons p l ih =>
      rw [List.flatMap_cons, outputs_append, ih]
      by_cases hc : R.capital p.1.1 = true <;> simp [hc, outputs, Task.output]
  | elem | map | other => rfl

theorem field_parts :
    (outputs (R.parts t)).filterMap Effect.field = (R.lowerCases t).map (t, ·) := by
  rw [outputs_parts]
  induction R.lowerCases t with
  | nil => rfl
  | cons i l ih =>
    rw [List.flatMap_cons, List.filterMap_append, ih]
    rfl

theorem counts_parts : (outputs (R.parts t)).countP Effect.counts = (R.lowerCases t).length := by
  rw [outputs_parts]
  induction R.lowerCases t with
  | nil => rfl
  | cons i l ih =>
    rw [List.flatMap_cons, List.countP_append, ih, List.length_cons, Nat.add_comm]
    rfl

theorem panic_parts : .panic ∉ outputs (R.parts t) := by
  simp [outputs_parts]

theorem checkDefault1_effects {k : Nat} {sticky embed : Bool} {w : W} {name : String} {e : Effect T}
    (h : e ∈ R.checkDefault1 k sticky embed w name) : e = .panic ∨ ∃ what, e = .warn what := by
  induction k generalizing sticky embed w name with
  | zero => simp [Reflect.checkDefault1] at h
  | succ k ih =>
    rw [Reflect.checkDefault1] at h
    split at h
    · obtain ⟨f, -, hf⟩ := List.mem_flatMap.mp h
      exact ih hf
    · simp at h
    · exact ih h
    · split at h
      · exact .inl (List.mem_singleton.mp h)
      · split at h
        · simp at h
        · exact .inr ⟨_, List.mem_singleton.mp h⟩
    · simp at h

/-! ## The search -/

def Reflect.search (R : Reflect T W) : Step T W → SearchLabel T (Effect T)
  | .checkValue t => .spawn (checkValue t)
  | .encodeValue value => .spawn (encodeValue value)
  | .decode value => .spawn (R.decode value)
  | .run g => .run g

/-- The type that a call checks. -/
def Step.type : Step T W → Option T
  | .checkValue t => t
  | .encodeValue (some (false, t)) => t
  | .encodeValue _ => none
  | .decode value => value.map Prod.fst
  | .run _ => none

/-- A call, and not a step of one. -/
def Step.isCall : Step T W → Bool
  | .run _ => false
  | _ => true

/-- The call cannot come through: a value is `nil`, or `Interface` is not allowed on it. -/
def Reflect.Panics (R : Reflect T W) : Step T W → Prop
  | .checkValue t => t = none
  | .encodeValue value => ∀ t, value ≠ some (false, some t)
  | .decode none => True
  | .decode (some (_, w)) => .panic ∈ R.checkDefault (some w)
  | .run _ => False

/-- The effects that a call has besides those of its types. -/
def Reflect.tests (R : Reflect T W) (l : Step T W) : List (Effect T) := outputs (R.search l).tasks

theorem outputs_emit (es : List (Effect T)) : outputs (es.map (Task.emit (N := T))) = es := by
  induction es with
  | nil => rfl
  | cons e es ih => exact congrArg (e :: ·) ih

theorem visit_checkValue {value : Option T} : .visit t ∈ checkValue value ↔ value = some t := by
  cases value <;> simp [checkValue, eq_comm]

theorem visit_search : .visit t ∈ (R.search l).tasks ↔ l.type = some t := by
  cases l with
  | checkValue value => exact visit_checkValue
  | run g => simp [Reflect.search, SearchLabel.tasks, Step.type]
  | decode value =>
    rw [Reflect.search, SearchLabel.tasks, Reflect.decode, List.mem_append, visit_checkValue]
    simp [Step.type]
  | encodeValue value =>
    obtain _ | ⟨_ | _, value⟩ := value
    · simp [Reflect.search, SearchLabel.tasks, encodeValue, Step.type]
    · exact visit_checkValue
    · simp [Reflect.search, SearchLabel.tasks, encodeValue, Step.type]

theorem tests_decode (t : T) (w : W) : R.tests (.decode (some (t, w))) = R.checkDefault (some w) :=
  outputs_emit _

theorem tests_effects {e : Effect T} (h : e ∈ R.tests l) : e = .panic ∨ ∃ what, e = .warn what := by
  match l with
  | .checkValue (some t) | .encodeValue (some (false, some t)) | .run g => cases h
  | .checkValue none | .encodeValue (some (false, none)) | .encodeValue (some (true, t)) |
    .encodeValue none
  | .decode none => exact .inl (List.mem_singleton.mp h)
  | .decode (some (t, w)) =>
    rw [tests_decode] at h
    exact checkDefault1_effects h

theorem panic_tests : .panic ∈ R.tests l ↔ R.Panics l := by
  match l with
  | .checkValue (some t) | .run g => exact iff_of_false nofun nofun
  | .encodeValue (some (false, some t)) => exact iff_of_false nofun fun h => h t rfl
  | .checkValue none => exact iff_of_true List.mem_cons_self rfl
  | .encodeValue (some (false, none)) | .encodeValue (some (true, t)) | .encodeValue none =>
    exact iff_of_true List.mem_cons_self nofun
  | .decode none => exact iff_of_true List.mem_cons_self trivial
  | .decode (some (t, w)) =>
    rw [tests_decode]
    rfl

/-- The types of which the values encoded, decoded or registered can hold values. -/
inductive Holds (R : Reflect T W) (ls : List (Step T W)) : T → Prop
  | root {l : Step T W} {t : T} : l ∈ ls → l.type = some t → Holds R ls t
  | part {t u : T} : Holds R ls t → R.PartOf t u → Holds R ls u

theorem mem_spawned {x : Task T (Effect T)} :
    x ∈ spawned (ls.map R.search) ↔ ∃ l ∈ ls, x ∈ (R.search l).tasks := by
  simp [spawned, List.mem_flatMap]

theorem reached_iff : Reached R.parts (spawned (ls.map R.search)) t ↔ Holds R ls t := by
  constructor <;> intro h
  · induction h with
    | root hn =>
      obtain ⟨l, hl, hx⟩ := mem_spawned.mp hn
      exact .root hl (visit_search.mp hx)
    | child _ hn ih => exact .part ih (visit_parts.mp hn)
  · induction h with
    | root hl ht => exact .root (mem_spawned.mpr ⟨_, hl, visit_search.mpr ht⟩)
    | part _ hp ih => exact .child ih (visit_parts.mpr hp)

theorem outputs_spawned : outputs (spawned (ls.map R.search)) = ls.flatMap R.tests := by
  induction ls with
  | nil => rfl
  | cons l ls ih =>
    rw [List.flatMap_cons, ← ih, Reflect.tests, ← outputs_append]
    rfl

theorem tests_field : (ls.flatMap R.tests).filterMap Effect.field = [] := by
  rw [List.filterMap_eq_nil_iff]
  intro e he
  obtain ⟨l, -, hl⟩ := List.mem_flatMap.mp he
  rcases tests_effects hl with rfl | ⟨what, rfl⟩ <;> rfl

/-! ## The checks as a search -/

def State.Steps [DecidableEq T] (R : Reflect T W) (s : State T) (l : Step T W) (s' : State T) :
    Prop := s.step R l = some s'

/-- The search `q` has done what the goroutines have done. -/
structure Simulates (q : Search T (Effect T)) (s : State T) : Prop where
  marked : q.marked = s.checked
  workers : q.workers = s.goroutines
  played : q.out.foldl Effect.play ([], 0) = (s.printed, s.errorCount)
  panicked : s.panicked = true ↔ .panic ∈ q.out

variable [DecidableEq T]

theorem step_simulates (h : Simulates q s) (hs : State.Steps R s l s') :
    ∃ q', Search.Steps R.parts q (R.search l) q' ∧ Simulates q' s' := by
  obtain ⟨hm, hw, hp, hpanic⟩ := h
  unfold State.Steps State.step at hs
  cases l with
  | checkValue | encodeValue | decode =>
    simp only at hs
    split at hs <;> cases hs
    exact ⟨_, rfl, hm, by simp only [State.spawn, hw], hp, hpanic⟩
  | run g =>
    simp only at hs
    split at hs
    · cases hs
    · rename_i hno
      have hout : .panic ∉ q.out := fun hin => hno (hpanic.mpr hin)
      unfold State.run at hs
      split at hs
      · rename_i t ts hg
        have hg' : q.workers[g]? = some (.visit t :: ts) := hw ▸ hg
        split at hs <;> cases hs
        · rename_i hin
          refine ⟨{ q with workers := q.workers.set g ts }, ?_, hm, by simp only [hw], hp, hpanic⟩
          simp only [Search.Steps, Search.step, Reflect.search, hg', hm, hin, if_true]
        · rename_i hin
          refine ⟨{ q with marked := t :: q.marked, workers := q.workers.set g (R.parts t ++ ts) },
            ?_,
            by simp only [hm], by simp only [hw], hp, hpanic⟩
          simp only [Search.Steps, Search.step, Reflect.search, hg', hm, hin, if_false]
      · rename_i e ts hg
        have hg' : q.workers[g]? = some (.emit e :: ts) := hw ▸ hg
        cases hs
        refine ⟨{ q with out := q.out ++ [e], workers := q.workers.set g ts }, ?_, hm,
          by simp only [hw], ?_, ?_⟩
        · simp only [Search.Steps, Search.step, Reflect.search, hg']
        · simp only [List.foldl_append, hp, List.foldl_cons, List.foldl_nil]
        · cases e <;> simp [hout]
      · cases hs

omit [DecidableEq T] in
theorem start_simulates : Simulates .start (start : State T) :=
  ⟨rfl, rfl, rfl, by simp [start, Search.start]⟩

theorem run_simulates (h : Simulates q s) (hr : Run (State.Steps R) s ls s') :
    ∃ q', Run (Search.Steps R.parts) q (ls.map R.search) q' ∧ Simulates q' s' := by
  induction hr with
  | nil => exact ⟨_, .nil, h⟩
  | snoc _ hs ih =>
    obtain ⟨q', hq, hsim⟩ := ih
    obtain ⟨q'', hq', hsim'⟩ := step_simulates hsim hs
    rw [List.map_append]
    exact ⟨q'', hq.snoc hq', hsim'⟩

omit [DecidableEq T] in
theorem fields_perm (h : Marking R.parts (spawned (ls.map R.search)) q) :
    ((q.out ++ outputs q.pending).filterMap Effect.field).Perm
    (q.marked.flatMap fun t => (R.lowerCases t).map (t, ·)) := by
  refine (h.emitted.filterMap _).trans ?_
  rw [outputs_spawned, List.filterMap_append, tests_field, List.nil_append, List.filterMap_flatMap]
  simp only [field_parts, List.Perm.refl]

omit [DecidableEq T] in
theorem fields_nodup (h : q.marked.Nodup) :
    (q.marked.flatMap fun t => (R.lowerCases t).map (t, ·)).Nodup := by
  rw [List.nodup_flatMap]
  refine ⟨fun t _ => lowerCases_nodup.map fun i j hij => (Prod.mk.inj hij).2, h.imp fun hne => ?_⟩
  intro x hx hx'
  obtain ⟨i, -, rfl⟩ := List.mem_map.mp hx
  obtain ⟨j, -, hj⟩ := List.mem_map.mp hx'
  exact hne (Prod.mk.inj hj).1.symm

omit [DecidableEq T] in
theorem mem_fields : (t, i) ∈ (q.marked.flatMap fun t => (R.lowerCases t).map (t, ·)) ↔
    t ∈ q.marked ∧ R.LowerCase t i := by
  simp only [List.mem_flatMap, List.mem_map, Prod.mk.injEq, mem_lowerCases]
  exact ⟨fun ⟨_, ht, _, hi, rfl, rfl⟩ => ⟨ht, hi⟩, fun ⟨ht, hi⟩ => ⟨t, ht, i, hi, rfl, rfl⟩⟩

omit [DecidableEq T] in
theorem counts_marked (l : List T) : (l.flatMap fun t => outputs (R.parts t)).countP Effect.counts =
    (l.flatMap fun t => (R.lowerCases t).map (t, ·)).length := by
  induction l with
  | nil => rfl
  | cons t l ih =>
    rw [List.flatMap_cons, List.flatMap_cons, List.countP_append, List.length_append, ih,
      counts_parts, List.length_map]

omit [DecidableEq T] in
theorem Simulates.fields (h : Simulates q s) :
    s.printed.filterMap Line.field = q.out.filterMap Effect.field := by
  have hplay := play_field q.out ([], 0)
  rw [h.played] at hplay
  simpa using hplay

omit [DecidableEq T] in
theorem Simulates.count (h : Simulates q s) : s.errorCount = q.out.countP Effect.counts := by
  have hplay := play_count q.out ([], 0)
  rw [h.played] at hplay
  simpa using hplay

omit [DecidableEq T] in
theorem Simulates.idle (h : Simulates q s) (hs : s.Idle) : q.pending = [] := by
  rw [Search.pending, h.workers, List.flatten_eq_nil_iff]
  exact hs.2

/-- A goroutine that is not through can go on. -/
theorem goes_on (hp : s.panicked = false) {g : Nat} {ts : List (Task T (Effect T))}
    (hg : s.goroutines[g]? = some ts) (hne : ts ≠ []) : ∃ u, State.Steps R s (.run g) u := by
  simp only [State.Steps, State.step, hp, Bool.false_eq_true, if_false, State.run, hg]
  cases ts with
  | nil => exact absurd rfl hne
  | cons x ts =>
    cases x with
    | visit t =>
      simp only
      split <;> exact ⟨_, rfl⟩
    | emit e => exact ⟨_, rfl⟩

omit [DecidableEq T] in
theorem panic_spawned (h : Marking R.parts (spawned (ls.map R.search)) q)
    (hin : .panic ∈ q.out ++ outputs q.pending) :
    ∃ l ∈ ls, R.Panics l := by
  rw [h.emitted.mem_iff, outputs_spawned, List.mem_append] at hin
  rcases hin with hin | hin
  · obtain ⟨l, hl, hpanic⟩ := List.mem_flatMap.mp hin
    exact ⟨l, hl, panic_tests.mp hpanic⟩
  · obtain ⟨t, -, ht⟩ := List.mem_flatMap.mp hin
    exact absurd ht panic_parts

/-- Without new calls the goroutines take no more steps than the search has weight. -/
theorem steps_le (h : Marking R.parts (spawned (ls.map R.search)) q) (hsim : Simulates q s)
    {D : Finset T} (hD : ∀ t, Holds R ls t → t ∈ D) (hr : Run (State.Steps R) s ms u)
    (hms : ∀ m ∈ ms, m.isCall = false) :
    ms.length ≤ q.weight R.parts D := by
  obtain ⟨q', hq', -⟩ := run_simulates hsim hr
  have hweight := h.weight_run (fun t ht => hD t (reached_iff.mp ht)) hq' fun m hm => by
    obtain ⟨l, hl, rfl⟩ := List.mem_map.mp hm
    have hl' := hms l hl
    cases l with
    | run g => exact ⟨g, rfl⟩
    | checkValue | encodeValue | decode => cases hl'
  rw [List.length_map] at hweight
  omega

/-- The checks of the calls in `ls`, as far as they are in the state `s`. -/
structure Checks (R : Reflect T W) (ls : List (Step T W)) (s : State T) : Prop where
  once : (s.printed.filterMap Line.field).Nodup
  sound : ∀ t i, .lowerCase t i ∈ s.printed → Holds R ls t ∧ R.LowerCase t i
  warned : s.printed.countP Line.isWarning ≤ 1
  panicked : s.panicked = true → ∃ l ∈ ls, R.Panics l
  -- When all goroutines are through, in whatever order they went on:
  complete : s.Idle → ∀ t i, Holds R ls t → R.LowerCase t i → .lowerCase t i ∈ s.printed
  counted : s.Idle → s.errorCount = (s.printed.filterMap Line.field).length +
    (ls.flatMap R.tests).countP Effect.counts
  clean : s.Idle → ∀ l ∈ ls, ¬ R.Panics l
  -- With finitely many types and no more calls they have only so many steps to take,
  ends : ∀ D : Finset T, (∀ t, Holds R ls t → t ∈ D) →
    ∃ bound, ∀ ms u, Run (State.Steps R) s ms u → (∀ m ∈ ms, m.isCall = false) → ms.length ≤ bound
  -- and each one that is not through can take one, until there is a panic.
  goesOn : s.panicked = false → ∀ g ts, s.goroutines[g]? = some ts → ts ≠ [] → ∃ u,
    State.Steps R s (.run g) u

/-- `type Cell struct { Value int; next *Cell }`, `int` and `*Cell`. -/
inductive CellType where
  | cell
  | int
  | ptr
deriving DecidableEq

/-- A pointer to a cell that holds a number, and what it holds. -/
inductive CellValue where
  | cell
  | number
  | nil
  | ptr

def cells : Reflect CellType CellValue where
  isUpper := Char.isUpper
  name
    | .cell => "Cell"
    | .int => "int"
    | .ptr => ""
  kind
    | .cell => .struct [("Value", .int), ("next", .ptr)]
    | .int => .other
    | .ptr => .elem .cell
  view
    | .cell => .struct [("Value", false, .number), ("next", false, .nil)]
    | .number => .basic "int" false
    | .nil => .ptr none
    | .ptr => .ptr (some .cell)

def cellTrace : List (Step CellType CellValue) :=
  .decode (some (.ptr, .ptr)) :: List.replicate 7 (.run 0)

/-- The field `next` is complained of, and then the number is not warned of. -/
def cellChecked : State CellType := ⟨[.int, .cell, .ptr], 2, [.lowerCase .cell 1], [[]], false⟩

end

end Csc412.Labgob
