import Csc412.MapReduce.OrderSound

/-!
# The crash job and its reference

`MapCrash` and `MapNoCrash` emit different texts with the key `d`. So the two outputs of the
crash test differ in the line of that key whenever there is an input file:
`crash_reference_iff`.
-/

namespace Csc412.MapReduce

/-- The line of the key `d`, for `n` files. -/
def textLine (text : GoString) (n : Nat) : GoString :=
  printPair [0x64] (joinStrings [0x20] (List.replicate n text))

theorem textLine_head (text : GoString) (n : Nat) : (textLine text n).head? = some 0x64 := rfl

theorem joinStrings_replicate (text : GoString) (n : Nat) :
    (joinStrings [0x20] (List.replicate (n + 1) text)).length = (n + 1) * text.length + n := by
  induction n with
  | zero => simp [joinStrings]
  | succ n ih =>
    rw [joinStrings] at ih ⊢
    rw [List.replicate_succ, List.replicate_succ, List.intercalate_cons_cons, List.length_append,
      List.length_append, ← List.replicate_succ, ih]
    rw [List.length_singleton, Nat.succ_mul (n + 1)]
    omega

theorem textLine_length (text : GoString) (n : Nat) :
    (textLine text (n + 1)).length = (n + 1) * text.length + n + 3 := by
  simp only [textLine, printPair, List.length_append, List.length_cons, List.length_nil,
    joinStrings_replicate]
  omega

theorem exists_left {α β : Type} {R : α → β → Prop} {l : List α} {l' : List β}
    (h : List.Forall₂ R l l') :
    ∀ b ∈ l', ∃ a ∈ l, R a b := by
  induction h with
  | nil => simp
  | cons hab _ ih =>
    rw [List.forall_mem_cons]
    exact ⟨⟨_, List.mem_cons_self, hab⟩,
      fun b hb => (ih b hb).imp fun _ ha => ⟨List.mem_cons_of_mem _ ha.1, ha.2⟩⟩

/-- A job that reduces the facts of each file by sorting them. -/
structure Job.Facts (job : Job) (text : GoString) : Prop where
  map_eq : ∀ {filename contents kva}, job.map filename contents kva →
    kva = fileFacts text filename contents
  reduce_eq : ∀ {key values output}, job.reduce key values output → output = reduceSorted key values

theorem noCrashJob_facts : noCrashJob.Facts [0x61, 0x62, 0x63, 0x64, 0x65, 0x66, 0x67] where
  map_eq := by
    rintro _ _ _ ⟨_, _, rfl⟩
    rfl
  reduce_eq := by
    rintro _ _ _ ⟨_, _, rfl⟩
    rfl

theorem crashJob_facts :
    crashJob.Facts [0x61, 0x62, 0x63, 0x64, 0x65, 0x66, 0x67, 0x78, 0x79, 0x7A] where
  map_eq := by
    rintro _ _ _ ⟨_, _, _, rfl⟩
    rfl
  reduce_eq := by
    rintro _ _ _ ⟨_, _, _, rfl⟩
    rfl

theorem survives_zero : Survives 0 := ⟨by decide, rfl⟩

theorem survivesSleep_last : SurvivesSleep 999 0 := ⟨by decide, by decide, rfl⟩

theorem noCrashJob_total : noCrashJob.Total where
  map _ _ := ⟨_, 0, survives_zero, rfl⟩
  reduce _ _ := ⟨_, 0, survives_zero, rfl⟩

theorem crashJob_total : crashJob.Total where
  map _ _ := ⟨_, 999, 0, survivesSleep_last, rfl⟩
  reduce _ _ := ⟨_, 999, 0, survivesSleep_last, rfl⟩

section
variable {job : Job} {text : GoString} (hfacts : job.Facts text)
include hfacts

theorem valuesOf_facts {files : List InputFile} {emitted : List (List KeyValue)}
    (h : List.Forall₂ (fun file kva => job.map file.filename file.data kva) files emitted) :
    valuesOf [0x64] emitted.flatten = List.replicate files.length text := by
  induction h with
  | nil => rfl
  | cons hmap _ ih =>
    rw [hfacts.map_eq hmap, List.flatten_cons, valuesOf, List.filter_append, List.map_append,
      ← valuesOf, ← valuesOf, ih]
    rfl

theorem keys_facts {files : List InputFile} {emitted : List (List KeyValue)}
    (h : List.Forall₂ (fun file kva => job.map file.filename file.data kva) files emitted) :
    ∀ kv ∈ emitted.flatten, kv.key ∈ [[0x61], [0x62], [0x63], [0x64]] := by
  induction h with
  | nil => simp
  | cons hmap _ ih =>
    rw [hfacts.map_eq hmap, List.flatten_cons]
    intro kv hkv
    rcases List.mem_append.mp hkv with hkv | hkv
    · have hkey := List.mem_map_of_mem (f := KeyValue.key) hkv
      exact hkey
    · exact ih kv hkv

variable {files : List InputFile} (e : Execution job files)

/-- The call of the key `d` has the text once for each file. -/
theorem call_facts {call : GoString × List GoString} (hcall : call ∈ e.reduceCalls)
    (hkey : call.1 = [0x64]) {output : GoString} (hreduce : job.reduce call.1 call.2 output) :
    printPair call.1 output = textLine text files.length := by
  have hperm := e.values_perm hcall
  rw [hkey, valuesOf_facts hfacts e.mapped, List.perm_replicate] at hperm
  have hsorted : sortStrings (List.replicate files.length text) =
      List.replicate files.length text :=
    List.perm_replicate.mp (List.mergeSort_perm _ _)
  rw [hfacts.reduce_eq hreduce, hkey, hperm, reduceSorted, hsorted]
  rfl

theorem line_facts {line : GoString} (hline : line ∈ e.lines) (hhead : line.head? = some 0x64) :
    line = textLine text files.length := by
  obtain ⟨call, hcall, output, hreduce, rfl⟩ := exists_left e.lines_reduced line hline
  obtain ⟨kv, hkv, hkey⟩ := (e.mem_keys call.1).mp (List.mem_map_of_mem hcall)
  have hmem := keys_facts hfacts e.mapped kv hkv
  apply call_facts hfacts e hcall ?_ hreduce
  simp only [hkey, List.mem_cons, List.not_mem_nil, or_false] at hmem
  rcases hmem with h | h | h | h
  · simp [h, printPair] at hhead
  · simp [h, printPair] at hhead
  · simp [h, printPair] at hhead
  · exact h

theorem textLine_mem (hne : files ≠ []) : textLine text files.length ∈ e.lines := by
  have hkv : ∃ kv ∈ e.emitted.flatten, kv.key = [0x64] := by
    obtain ⟨n, hn⟩ := Nat.exists_eq_succ_of_ne_zero (mt List.length_eq_zero_iff.mp hne)
    have hvalues := valuesOf_facts hfacts e.mapped
    rw [hn, List.replicate_succ] at hvalues
    have hmem : text ∈ valuesOf [0x64] e.emitted.flatten := by
      rw [hvalues]
      exact List.mem_cons_self
    obtain ⟨kv, hkv, -⟩ := List.mem_map.mp hmem
    rw [List.mem_filter, decide_eq_true_iff] at hkv
    exact ⟨kv, hkv⟩
  obtain ⟨call, hcall, hkey⟩ := List.mem_map.mp ((e.mem_keys [0x64]).mpr hkv)
  obtain ⟨line, hline, output, hreduce, rfl⟩ := exists_left e.lines_reduced.flip call hcall
  rw [← call_facts hfacts e hcall hkey hreduce]
  exact hline

end

/-! ## The comparison -/

/-- The crash test compares the lines of the two jobs. -/
def SameOutput (files : List InputFile) : Prop :=
  ∀ lines lines', Main crashJob files lines → Main noCrashJob files lines' → lines = lines'

theorem crash_differs {files : List InputFile} (hne : files ≠ []) (e : Execution crashJob files)
    (e' : Execution noCrashJob files) :
    e.lines ≠ e'.lines := by
  intro hsame
  have hline := textLine_mem crashJob_facts e hne
  rw [hsame] at hline
  have hlength := congrArg List.length (line_facts noCrashJob_facts e' hline (textLine_head _ _))
  obtain ⟨n, hn⟩ := Nat.exists_eq_succ_of_ne_zero (mt List.length_eq_zero_iff.mp hne)
  rw [hn, textLine_length, textLine_length] at hlength
  simp only [List.length_cons, List.length_nil] at hlength
  omega

theorem eq_nil_of_sameOutput {files : List InputFile} (h : SameOutput files) : files = [] := by
  by_contra hne
  obtain ⟨lines, hmain⟩ := crashJob_total.main files
  obtain ⟨lines', hmain'⟩ := noCrashJob_total.main files
  have hsame := h lines lines' hmain hmain'
  cases hmain with
  | usage => exact hne rfl
  | done _ e =>
    cases hmain' with
    | usage => exact hne rfl
    | done _ e' => exact crash_differs hne e e' (Option.some.inj hsame)

/-- The crash job computes what its reference computes only when there is nothing to
compute. -/
theorem crash_reference_iff (files : List InputFile) : SameOutput files ↔ files = [] := by
  constructor
  · exact eq_nil_of_sameOutput
  · rintro rfl lines lines' h h'
    cases h with
    | usage =>
      cases h' with
      | usage => rfl
      | done hne _ => exact absurd rfl hne
    | done hne _ => exact absurd rfl hne

theorem crash_not_reference : ¬ SameOutput [⟨[0x66], [0x61]⟩] :=
  fun h => List.cons_ne_nil _ _ (eq_nil_of_sameOutput h)

end Csc412.MapReduce
