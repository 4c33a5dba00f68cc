import Mathlib.Data.List.Sort
import Csc412.MapReduce.GroupSound
import Csc412.MapReduce.IndexerSound

/-!
# Orders

The driver's output does not depend on the order of the files, of equal keys, or of what a
map function emits, as long as the reduce function does not look at the order of its
values: `Execution.lines_eq`. The jobs that the tests compare with are such.
-/

namespace Csc412.MapReduce

/-- Two calls emit the same pairs, and a reduce function sees its values in no order. -/
structure Job.OrderFree (job : Job) : Prop where
  map_perm : ∀ {filename contents kva kva'}, job.map filename contents kva →
    job.map filename contents kva' → kva.Perm kva'
  reduce_eq : ∀ {key values values' output output'}, values.Perm values' →
    job.reduce key values output →
    job.reduce key values' output' → output = output'

structure Job.Total (job : Job) : Prop where
  map : ∀ filename contents, ∃ kva, job.map filename contents kva
  reduce : ∀ key values, ∃ output, job.reduce key values output

theorem forall₂_exists {α β : Type} {R : α → β → Prop} (h : ∀ a, ∃ b, R a b) (l : List α) :
    ∃ l', List.Forall₂ R l l' := by
  induction l with
  | nil => exact ⟨[], .nil⟩
  | cons a l ih =>
    obtain ⟨b, hb⟩ := h a
    obtain ⟨l', hl'⟩ := ih
    exact ⟨b :: l', .cons hb hl'⟩

theorem exists_sorted (l : List KeyValue) :
    ∃ l' : List KeyValue, l'.Perm l ∧ l'.Pairwise fun a b => a.key ≤ b.key := by
  have hsorted : (l.mergeSort fun a b => decide (a.key ≤ b.key)).Pairwise
      fun a b => decide (a.key ≤ b.key) = true := by
    apply List.pairwise_mergeSort
    · intro a b c hab hbc
      rw [decide_eq_true_iff] at hab hbc ⊢
      exact List.le_trans hab hbc
    · intro a b
      simpa using List.le_total a.key b.key
  exact ⟨_, List.mergeSort_perm l _, hsorted.imp fun h => of_decide_eq_true h⟩

theorem Job.Total.main {job : Job} (h : job.Total) (files : List InputFile) :
    ∃ lines, Main job files lines := by
  by_cases hne : files = []
  · subst hne
    exact ⟨none, .usage⟩
  · obtain ⟨emitted, hmapped⟩ := forall₂_exists (fun file => h.map file.filename file.data) files
    obtain ⟨intermediate, hpermuted, hsorted⟩ := exists_sorted emitted.flatten
    obtain ⟨outputs, hreduced⟩ :=
      forall₂_exists (fun call => h.reduce call.1 call.2) (calls intermediate 0)
    exact ⟨_, .done hne ⟨emitted, hmapped, intermediate, hpermuted, hsorted, outputs, hreduced⟩⟩

/-! ## Two executions -/

section
variable {job : Job} (hfree : job.OrderFree)
include hfree

theorem emitted_perm {files files' : List InputFile} {emitted emitted' : List (List KeyValue)}
    (hperm : files.Perm files')
    (h : List.Forall₂ (fun file kva => job.map file.filename file.data kva) files emitted)
    (h' : List.Forall₂ (fun file kva => job.map file.filename file.data kva) files' emitted') :
    emitted.flatten.Perm emitted'.flatten := by
  obtain ⟨between, hsame, hshuffled⟩ := List.perm_comp_forall₂ hperm h'
  have heach : List.Forall₂ List.Perm emitted between := by
    clear h' hperm hshuffled
    induction h generalizing between with
    | nil =>
      cases hsame
      exact .nil
    | cons hmap _ ih =>
      cases hsame with
      | cons hmap' hrest => exact .cons (hfree.map_perm hmap hmap') (ih _ hrest)
  exact (List.Perm.flatten_congr heach).trans hshuffled.flatten

theorem lines_congr {calls calls' : List (GoString × List GoString)}
    {outputs outputs' : List GoString}
    (hsame : List.Forall₂ (fun call call' => call.1 = call'.1 ∧ call.2.Perm call'.2) calls calls')
    (h : List.Forall₂ (fun call output => job.reduce call.1 call.2 output) calls outputs)
    (h' : List.Forall₂ (fun call output => job.reduce call.1 call.2 output) calls' outputs') :
    List.zipWith (fun call output => printPair call.1 output) calls outputs =
      List.zipWith (fun call output => printPair call.1 output) calls' outputs' := by
  induction hsame generalizing outputs outputs' with
  | nil =>
    cases h
    cases h'
    rfl
  | cons hcall _ ih =>
    cases h with
    | cons hreduce hrest =>
      cases h' with
      | cons hreduce' hrest' =>
        rw [← hcall.1] at hreduce'
        rw [List.zipWith_cons_cons, List.zipWith_cons_cons, ih hrest hrest', hcall.1,
          hfree.reduce_eq hcall.2 hreduce hreduce']

namespace Execution
variable {files files' : List InputFile} (e : Execution job files) (e' : Execution job files')

theorem reduceCalls_perm (hperm : files.Perm files') :
    List.Forall₂ (fun call call' => call.1 = call'.1 ∧
        call.2.Perm call'.2) e.reduceCalls e'.reduceCalls := by
  have hemitted := emitted_perm hfree hperm e.mapped e'.mapped
  have hkeys : e.reduceCalls.map Prod.fst = e'.reduceCalls.map Prod.fst := by
    apply e.keys_increasing.eq_of_mem_iff e'.keys_increasing
    intro key
    simp only [mem_keys, hemitted.mem_iff]
  have hvalues : ∀ call ∈ e.reduceCalls, call.2.Perm (valuesOf call.1 e.emitted.flatten) :=
    fun _ hcall => e.values_perm hcall
  have hvalues' : ∀ call ∈ e'.reduceCalls, call.2.Perm (valuesOf call.1 e'.emitted.flatten) :=
    fun _ hcall => e'.values_perm hcall
  generalize e.reduceCalls = calls at hkeys hvalues
  generalize e'.reduceCalls = calls' at hkeys hvalues'
  induction calls generalizing calls' with
  | nil =>
    rw [List.map_nil, eq_comm, List.map_eq_nil_iff] at hkeys
    rw [hkeys]
    exact .nil
  | cons call calls ih =>
    cases calls' with
    | nil => cases hkeys
    | cons call' calls' =>
      rw [List.map_cons, List.map_cons, List.cons.injEq] at hkeys
      refine .cons ⟨hkeys.1, ?_⟩ (ih (fun c hc => hvalues c (.tail _ hc)) _ hkeys.2
        fun c hc => hvalues' c (.tail _ hc))
      calc List.Perm call.2 (valuesOf call.1 e.emitted.flatten) := hvalues call List.mem_cons_self
        List.Perm _ (valuesOf call.1 e'.emitted.flatten) := valuesOf_perm hemitted
        List.Perm _ call'.2 := by
          rw [hkeys.1]
          exact (hvalues' call' List.mem_cons_self).symm

theorem lines_eq (hperm : files.Perm files') : e.lines = e'.lines :=
  lines_congr hfree (e.reduceCalls_perm hfree e' hperm) e.reduced e'.reduced

end Execution

theorem Main.lines_eq {files files' : List InputFile} (hperm : files.Perm files')
    {lines lines' : Option (List GoString)} (h : Main job files lines)
    (h' : Main job files' lines') : lines = lines' := by
  cases h with
  | usage =>
    cases h' with
    | usage => rfl
    | done hne _ => exact absurd hperm.nil_eq.symm hne
  | done hne e =>
    cases h' with
    | usage => exact absurd hperm.eq_nil hne
    | done _ e' => rw [e.lines_eq hfree e' hperm]

end

/-! ## The jobs -/

theorem reduceSorted_perm (key : GoString) {values values' : List GoString}
    (h : values.Perm values') :
    reduceSorted key values = reduceSorted key values' := by
  rw [reduceSorted, reduceSorted, sortStrings_perm h]

section
variable (isLetter : Nat → Bool)

theorem wcJob_orderFree : (wcJob isLetter).OrderFree where
  map_perm := by
    rintro _ _ _ _ rfl rfl
    exact .refl _
  reduce_eq := by
    rintro _ _ _ _ _ hperm rfl rfl
    rw [reduceWC, reduceWC, hperm.length_eq]

theorem indexerJob_orderFree : (indexerJob isLetter).OrderFree where
  map_perm h h' := h.trans h'.symm
  reduce_eq := by
    rintro key _ _ _ _ hperm rfl rfl
    exact reduceIndexer_perm key hperm

theorem earlyExitJob_orderFree : earlyExitJob.OrderFree where
  map_perm := by
    rintro _ _ _ _ rfl rfl
    exact .refl _
  reduce_eq := by
    rintro _ _ _ _ _ hperm rfl rfl
    rw [reduceEarlyExit, reduceEarlyExit, hperm.length_eq]

theorem noCrashJob_orderFree : noCrashJob.OrderFree where
  map_perm := by
    rintro _ _ _ _ ⟨_, _, rfl⟩ ⟨_, _, rfl⟩
    exact .refl _
  reduce_eq := by
    rintro key _ _ _ _ hperm ⟨_, _, rfl⟩ ⟨_, _, rfl⟩
    exact reduceSorted_perm key hperm

theorem indexerJob_total : (indexerJob isLetter).Total where
  map _ _ := ⟨_, .refl _⟩
  reduce _ _ := ⟨_, rfl⟩

/-- Whatever the orders are, the output file has the same lines. -/
theorem output_order_free {job : Job}
    (hjob : job ∈ [wcJob isLetter, indexerJob isLetter, earlyExitJob, noCrashJob])
    {files files' : List InputFile} (hperm : files.Perm files')
    {lines lines' : Option (List GoString)} (h : Main job files lines)
    (h' : Main job files' lines') : lines = lines' := by
  have hfree : job.OrderFree := by
    simp only [List.mem_cons, List.not_mem_nil, or_false] at hjob
    rcases hjob with rfl | rfl | rfl | rfl
    · exact wcJob_orderFree isLetter
    · exact indexerJob_orderFree isLetter
    · exact earlyExitJob_orderFree
    · exact noCrashJob_orderFree
  exact h.lines_eq hfree hperm h'

end

theorem output_order_free_twoFiles :
    ∃ lines, Main (indexerJob asciiLetter) [⟨[0x66], [0x61]⟩, ⟨[0x67], [0x61]⟩] lines ∧
    ∀ lines', Main (indexerJob asciiLetter) [⟨[0x67], [0x61]⟩, ⟨[0x66], [0x61]⟩] lines' →
    lines = lines' := by
  obtain ⟨lines, h⟩ := (indexerJob_total asciiLetter).main [⟨[0x66], [0x61]⟩, ⟨[0x67], [0x61]⟩]
  exact ⟨lines, h, fun _ h' => output_order_free asciiLetter (.tail _ (.head _))
    (List.Perm.swap _ _ _) h h'⟩

end Csc412.MapReduce
