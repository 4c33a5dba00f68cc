import Csc412.Lib.Grouping
import Csc412.MapReduce.Sequential

/-!
# Grouping in the sequential driver

The two index loops find the runs of equal keys, `Lib.groups`. On a list in the order of
its keys there is one call for each key, with all of its values: `Execution.grouped`.
-/

namespace Csc412.MapReduce

open Lib

/-! ## The loops -/

section
variable {intermediate : List KeyValue}

/-- The inner loop passes over the pairs that have the key of the run. -/
theorem runEnd_eq (i : Fin intermediate.length) (j : Nat) : runEnd intermediate i j =
    j + ((intermediate.drop j).takeWhile fun kv => kv.key = intermediate[i].key).length := by
  fun_induction runEnd intermediate i j with
  | case1 j h heq ih =>
    rw [ih, List.drop_eq_getElem_cons h, List.takeWhile_cons_of_pos (by simpa using heq),
      List.length_cons]
    omega
  | case2 j h hne =>
    rw [List.drop_eq_getElem_cons h, List.takeWhile_cons_of_neg (by simpa using hne)]
    rfl
  | case3 j h =>
    rw [List.drop_eq_nil_of_le (Nat.le_of_not_lt h)]
    rfl

theorem calls_groups (i : Nat) :
    calls intermediate i = (groups KeyValue.key (intermediate.drop i)).map
        fun g => (g.1, g.2.map KeyValue.value) := by
  fun_induction calls intermediate i with
  | case1 i h j ih =>
    obtain ⟨run, hrun⟩ : ∃ run, run = (intermediate.drop (i + 1)).takeWhile fun kv => kv.key =
      intermediate[i].key := ⟨_, rfl⟩
    obtain ⟨rest, hrest⟩ : ∃ rest, rest = (intermediate.drop (i + 1)).dropWhile fun kv => kv.key =
      intermediate[i].key := ⟨_, rfl⟩
    have hcut : intermediate.drop (i + 1) = run ++ rest := by
      rw [hrun, hrest, List.takeWhile_append_dropWhile]
    have hj : j = i + 1 + run.length := by
      rw [hrun]
      exact runEnd_eq _ _
    have hvalues : intermediate.extract i j = intermediate[i] :: run := by
      rw [List.extract_eq_take_drop, List.drop_eq_getElem_cons h, hcut, hj,
        show i + 1 + run.length - i = run.length + 1 by omega, List.take_succ_cons, List.take_left]
    have hnext : intermediate.drop j = rest := by
      rw [hj, ← List.drop_drop, hcut, List.drop_left]
    rw [ih, hvalues, hnext, List.drop_eq_getElem_cons h, groups_cons, ← hrun, ← hrest]
    rfl
  | case2 i h =>
    rw [List.drop_eq_nil_of_le (Nat.le_of_not_lt h), groups_nil]
    rfl

end

/-! ## The order of keys -/

theorem goString_lt_of_le_ne {a b : GoString} (hle : a ≤ b) (hne : a ≠ b) : a < b := by
  by_contra hlt
  exact hne (List.le_antisymm hle (List.not_lt.mp hlt))

theorem valuesOf_perm {key : GoString} {l l' : List KeyValue} (h : l.Perm l') :
    (valuesOf key l).Perm (valuesOf key l') :=
  (h.filter _).map _

namespace Execution
variable {job : Job} {files : List InputFile} (e : Execution job files)

theorem reduceCalls_groups :
    e.reduceCalls = (groups KeyValue.key e.intermediate).map
        fun g => (g.1, g.2.map KeyValue.value) :=
  calls_groups 0

theorem keys_increasing : (e.reduceCalls.map Prod.fst).Pairwise (· < ·) := by
  have hkeys : e.reduceCalls.map Prod.fst = (groups KeyValue.key e.intermediate).map Prod.fst := by
    rw [reduceCalls_groups, List.map_map]
    rfl
  rw [hkeys]
  apply (groups_increasing (r := (· ≤ ·)) (fun _ _ => List.le_antisymm) e.sorted).imp
  intro k k' h
  exact goString_lt_of_le_ne h.1 h.2

theorem mem_keys (key : GoString) :
    key ∈ e.reduceCalls.map Prod.fst ↔ ∃ kv ∈ e.emitted.flatten, kv.key = key := by
  simp only [reduceCalls_groups, List.map_map, List.mem_map, ← e.permuted.mem_iff]
  constructor
  · rintro ⟨⟨k, g⟩, hg, rfl⟩
    exact key_of_mem_group hg
  · rintro ⟨kv, hkv, rfl⟩
    obtain ⟨g, hg⟩ := @exists_group _ _ _ KeyValue.key _ _ hkv
    exact ⟨_, hg, rfl⟩

theorem values_perm {call : GoString × List GoString} (h : call ∈ e.reduceCalls) :
    call.2.Perm (valuesOf call.1 e.emitted.flatten) := by
  rw [reduceCalls_groups] at h
  obtain ⟨⟨k, g⟩, hg, rfl⟩ := List.mem_map.mp h
  rw [group_eq_filter (r := (· ≤ ·)) (fun _ _ => List.le_antisymm) e.sorted hg]
  exact valuesOf_perm e.permuted

theorem lines_reduced :
    List.Forall₂ (fun call line => ∃ output, job.reduce call.1 call.2 output ∧
      line = printPair call.1 output)
    e.reduceCalls e.lines := by
  have hlines : ∀ {calls : List (GoString × List GoString)} {outputs : List GoString},
      List.Forall₂ (fun call output => job.reduce call.1 call.2 output) calls outputs →
        List.Forall₂ (fun call line => ∃ output, job.reduce call.1 call.2 output ∧
          line = printPair call.1 output) calls
          (List.zipWith (fun call output => printPair call.1 output) calls outputs) := by
    intro calls outputs h
    induction h with
    | nil => exact .nil
    | cons hcall _ ih => exact .cons ⟨_, hcall, rfl⟩ ih
  exact hlines e.reduced

/-- The calls of `reducef` have increasing keys, those that were emitted, each call has all
values of its key, and each line is what one call returned. -/
theorem grouped : (e.reduceCalls.map Prod.fst).Pairwise (· < ·) ∧
    (∀ key, key ∈ e.reduceCalls.map Prod.fst ↔ ∃ kv ∈ e.emitted.flatten, kv.key = key) ∧
    (∀ call ∈ e.reduceCalls, call.2.Perm (valuesOf call.1 e.emitted.flatten)) ∧
    List.Forall₂ (fun call line => ∃ output, job.reduce call.1 call.2 output ∧
      line = printPair call.1 output)
      e.reduceCalls e.lines :=
  ⟨e.keys_increasing, e.mem_keys, fun _ => e.values_perm, e.lines_reduced⟩

/-- Files `f`, `g` and `f` again: two calls. -/
theorem grouped_earlyExit : ∃ e : Execution earlyExitJob [⟨[0x66], []⟩, ⟨[0x67], []⟩, ⟨[0x66], []⟩],
    e.reduceCalls = [([0x66], [[0x31], [0x31]]), ([0x67], [[0x31]])] ∧
      (e.reduceCalls.map Prod.fst).Pairwise (· < ·) ∧
      ∀ call ∈ e.reduceCalls, call.2.Perm (valuesOf call.1 e.emitted.flatten) := by
  have hcalls : calls [⟨[0x66], [0x31]⟩, ⟨[0x66], [0x31]⟩, ⟨[0x67], [0x31]⟩] 0 =
      [([0x66], [[0x31], [0x31]]), ([0x67], [[0x31]])] := by
    rw [calls_groups]
    simp [groups]
  let e : Execution earlyExitJob [⟨[0x66], []⟩, ⟨[0x67], []⟩, ⟨[0x66], []⟩] :=
    { emitted := [[⟨[0x66], [0x31]⟩], [⟨[0x67], [0x31]⟩], [⟨[0x66], [0x31]⟩]]
      mapped := .cons rfl (.cons rfl (.cons rfl .nil))
      intermediate := [⟨[0x66], [0x31]⟩, ⟨[0x66], [0x31]⟩, ⟨[0x67], [0x31]⟩]
      permuted := by decide
      sorted := by decide
      outputs := [[0x32], [0x31]]
      reduced := by
        rw [hcalls]
        exact .cons rfl (.cons rfl .nil) }
  obtain ⟨hkeys, -, hvalues, -⟩ := e.grouped
  exact ⟨e, hcalls, hkeys, hvalues⟩

end Execution

end Csc412.MapReduce
