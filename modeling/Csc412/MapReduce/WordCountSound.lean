import Csc412.MapReduce.SplitSound

/-!
# Word counts of pieces

`MapWC` on the pieces of a file finds the words of the file exactly when no piece starts
inside of a word. A piece that does makes two words of one, or loses the letter whose
bytes it parts.
-/

namespace Csc412.MapReduce

open Lib Lib.Utf8

/-- The pairs that `MapWC` emits for the jobs of a file. -/
def jobsWC (isLetter : Nat → Bool) (size : GoString → Option Nat) (files : List GoString)
    (file contents : GoString) :
    List KeyValue :=
  ((makeCoordinator size files).filter fun job => job.fileLocation = file).flatMap
    fun job => mapWC isLetter file (job.range contents)

section
variable {isLetter : Nat → Bool}

theorem not_inside_pieces (contents : GoString) :
    (∀ k, ¬ Inside isLetter contents (k * mapInputSize)) ↔
      ∀ k, ¬ Inside isLetter contents (((pieces contents).take k).flatten).length := by
  constructor
  · intro h k
    rw [pieces_cut]
    by_cases hk : k * mapInputSize ≤ contents.length
    · rw [Nat.min_eq_left hk]
      exact h k
    · exact not_inside_of_le (by omega)
  · intro h k
    have hk := h k
    rw [pieces_cut] at hk
    by_cases hle : k * mapInputSize ≤ contents.length
    · rwa [Nat.min_eq_left hle] at hk
    · exact not_inside_of_le (by omega)

theorem words_pieces (herr : isLetter runeError = false) {contents : GoString}
    (h : ∀ k, ¬ Inside isLetter contents (k * mapInputSize)) :
    (pieces contents).flatMap (words isLetter) = words isLetter contents := by
  have hcut : ∀ k, ¬ Inside isLetter (pieces contents).flatten
      (((pieces contents).take k).flatten).length := by
    rw [pieces_flatten]
    exact (not_inside_pieces contents).mp h
  have hfields := fieldsFunc_flatten herr hcut
  rwa [pieces_flatten] at hfields

theorem not_inside_of_words_perm (herr : isLetter runeError = false) {contents : GoString}
    (h : ((pieces contents).flatMap (words isLetter)).Perm (words isLetter contents)) (k : Nat) :
    ¬ Inside isLetter contents (k * mapInputSize) := by
  apply (not_inside_pieces contents).mpr
  intro k
  rw [← pieces_flatten contents] at h
  have hnot := not_inside_of_perm herr (by rwa [pieces_flatten] at h ⊢) k
  rwa [pieces_flatten] at hnot

section
variable {size : GoString → Option Nat} {contents : GoString → GoString} {files : List GoString}
    {file : GoString}

theorem jobsWC_eq (hnodup : files.Nodup) (hsize : ∀ f ∈ files, size f = some (contents f).length)
    (hfile : file ∈ files) :
    jobsWC isLetter size files file (contents file) =
      ((pieces (contents file)).flatMap (words isLetter)).map fun w => ⟨w, [0x31]⟩ := by
  rw [← makeCoordinator_file hnodup hsize hfile, jobsWC, List.flatMap_map, List.map_flatMap]
  rfl

theorem jobsWC_of_not_inside (herr : isLetter runeError = false) (hnodup : files.Nodup)
    (hsize : ∀ f ∈ files, size f = some (contents f).length) (hfile : file ∈ files)
    (h : ∀ k, ¬ Inside isLetter (contents file) (k * mapInputSize)) :
    jobsWC isLetter size files file (contents file) = mapWC isLetter file (contents file) := by
  rw [jobsWC_eq hnodup hsize hfile, words_pieces herr h, mapWC]

theorem not_inside_of_jobsWC (herr : isLetter runeError = false) (hnodup : files.Nodup)
    (hsize : ∀ f ∈ files, size f = some (contents f).length) (hfile : file ∈ files)
    (h : (jobsWC isLetter size files file (contents file)).Perm
      (mapWC isLetter file (contents file))) (k : Nat) :
    ¬ Inside isLetter (contents file) (k * mapInputSize) := by
  rw [jobsWC_eq hnodup hsize hfile, mapWC] at h
  have hkeys := h.map KeyValue.key
  rw [List.map_map, List.map_map] at hkeys
  have hid : (KeyValue.key ∘ fun w => (⟨w, [0x31]⟩ : KeyValue)) = id := rfl
  rw [hid, List.map_id, List.map_id] at hkeys
  exact not_inside_of_words_perm herr hkeys k

/-- The pairs of the jobs are those of the whole file, and so are the counts, exactly when
no job starts inside of a word. -/
theorem wordCount_split (herr : isLetter runeError = false) (hnodup : files.Nodup)
    (hsize : ∀ f ∈ files, size f = some (contents f).length) (hfile : file ∈ files) :
    ((jobsWC isLetter size files file (contents file)).Perm (mapWC isLetter file (contents file)) ∧
      ∀ w, reduceWC w (valuesOf w (jobsWC isLetter size files file (contents file))) =
        reduceWC w (valuesOf w (mapWC isLetter file (contents file)))) ↔
    ∀ k, ¬ Inside isLetter (contents file) (k * mapInputSize) := by
  constructor
  · intro h k
    exact not_inside_of_jobsWC herr hnodup hsize hfile h.1 k
  · intro h
    rw [jobsWC_of_not_inside herr hnodup hsize hfile h]
    exact ⟨List.Perm.refl _, fun _ => rfl⟩

end

end

/-! ## Files -/

def asciiLetter (r : Nat) : Bool := 0x41 ≤ r ∧ r ≤ 0x5A ∨ 0x61 ≤ r ∧ r ≤ 0x7A

theorem lt_of_asciiLetter {r : Nat} (h : asciiLetter r = true) : r < 0x80 := by
  simp only [asciiLetter, decide_eq_true_eq] at h
  omega

/-- Two letters with 64 MiB of spaces between them. -/
def apart (c : UInt8) : GoString := 0x61 :: (List.replicate mapInputSize 0x20 ++ [c])

theorem marks_spaces (n : Nat) (s : GoString) : marks asciiLetter (List.replicate n 0x20 ++ s) =
    (List.replicate n (0x20 : UInt8)).map (fun b => (b, false)) ++ marks asciiLetter s := by
  induction n with
  | zero => simp
  | succ n ih =>
    rw [List.replicate_succ, List.cons_append, marks_ascii (by decide), ih]
    rfl

theorem apart_length (c : UInt8) : (apart c).length = mapInputSize + 2 := by
  rw [apart, List.length_cons, List.length_append, List.length_replicate, List.length_singleton,
    Nat.add_assoc]

section
variable {c : UInt8}

theorem flags_apart (hc : asciiLetter c.toNat = true) :
    flags asciiLetter (apart c) = true :: (List.replicate mapInputSize false ++ [true]) := by
  rw [flags, apart, marks_ascii (by decide), marks_spaces, marks_ascii (lt_of_asciiLetter hc),
    marks_nil, hc]
  simp only [List.map_cons, List.map_append, List.map_map, List.map_nil, Function.comp_def,
    List.map_const', List.length_replicate]
  rfl

/-- The second piece starts with a space, and there is no third. -/
theorem apart_not_inside (hc : asciiLetter c.toNat = true) (k : Nat) :
    ¬ Inside asciiLetter (apart c) (k * mapInputSize) := by
  intro hin
  have hpos := hin.1
  by_cases hk : k = 1
  · have hat := hin.2.2
    rw [hk, Nat.one_mul] at hpos hat
    rw [flags_apart hc, List.getElem?_cons, if_neg (Nat.ne_of_gt hpos),
      List.getElem?_append_left (by rw [List.length_replicate]; omega), List.getElem?_replicate,
      if_pos (by omega)] at hat
    cases hat
  · have hk2 : 2 ≤ k := by
      by_contra hlt
      rw [show k = 0 by omega, Nat.zero_mul] at hpos
      exact absurd hpos (Nat.lt_irrefl 0)
    apply not_inside_of_le ?_ hin
    rw [apart_length]
    have hmul : 2 * mapInputSize ≤ k * mapInputSize := Nat.mul_le_mul_right _ hk2
    have hlarge : 2 ≤ mapInputSize := by decide
    omega

end

/-- Two words, each in a piece of its own. -/
theorem wordCount_split_apart :
    (jobsWC asciiLetter (fun _ => some (mapInputSize + 2)) [[0x66]] [0x66] (apart 0x62)).Perm
        (mapWC asciiLetter [0x66] (apart 0x62)) ∧
      ∀ w, reduceWC w (valuesOf w
          (jobsWC asciiLetter (fun _ => some (mapInputSize + 2)) [[0x66]] [0x66] (apart 0x62))) =
        reduceWC w (valuesOf w (mapWC asciiLetter [0x66] (apart 0x62))) := by
  have hiff := @wordCount_split asciiLetter (fun _ => some (mapInputSize + 2)) (fun _ => apart 0x62)
    [[0x66]] [0x66] rfl
    (by simp) (fun _ _ => by rw [apart_length]) (by simp)
  exact hiff.mpr fun k => apart_not_inside (by decide) k

theorem flags_letters (n : Nat) :
    flags asciiLetter (List.replicate n 0x61) = List.replicate n true := by
  induction n with
  | zero => simp [flags, marks_nil]
  | succ n ih =>
    rw [List.replicate_succ, flags, marks_ascii (by decide), List.map_cons, ← flags, ih]
    rfl

/-- One word of 64 MiB and a letter, which becomes two words. -/
theorem wordCount_not_split :
    ¬ ((jobsWC asciiLetter (fun _ => some (mapInputSize + 1)) [[0x66]] [0x66]
      (List.replicate (mapInputSize + 1) 0x61)).Perm (mapWC asciiLetter [0x66]
      (List.replicate (mapInputSize + 1) 0x61)) ∧
    ∀ w,
    reduceWC w (valuesOf w (jobsWC asciiLetter (fun _ => some (mapInputSize + 1)) [[0x66]] [0x66]
        (List.replicate (mapInputSize + 1) 0x61))) =
      reduceWC w (valuesOf w (mapWC asciiLetter [0x66]
          (List.replicate (mapInputSize + 1) 0x61)))) := by
  intro h
  have hnot := @not_inside_of_jobsWC asciiLetter (fun _ => some (mapInputSize + 1))
    (fun _ => List.replicate (mapInputSize + 1) 0x61) [[0x66]] [0x66] rfl (by simp) (by simp)
      (by simp) h.1 1
  apply hnot
  have hpos := mapInputSize_pos
  rw [Nat.one_mul]
  refine ⟨hpos, ?_, ?_⟩
  · rw [flags_letters, List.getElem?_replicate, if_pos (by omega)]
  · rw [flags_letters, List.getElem?_replicate, if_pos (by omega)]

end Csc412.MapReduce
