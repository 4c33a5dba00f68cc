import Csc412.MapReduce.Coordinator

/-!
# What the map jobs cover

The jobs of a file are its pieces of 64 MiB in order, and they cover it once.
-/

namespace Csc412.MapReduce

open Lib

section
variable {file contents : GoString} {fileSize offset chunkSize jobId : Nat} {hc : 0 < chunkSize}

/-! ## One file -/

theorem splitLoop_done (h : ¬ offset < fileSize) :
    splitLoop file fileSize offset chunkSize jobId hc = [] := by
  rw [splitLoop, dif_neg h]

theorem splitLoop_last (h : offset < fileSize) (hlast : fileSize - offset < chunkSize) :
    splitLoop file fileSize offset chunkSize jobId hc =
      [⟨jobId, .mapTask, .unassigned, file, offset, fileSize - offset, 0⟩] := by
  rw [splitLoop, dif_pos h, dif_pos hlast, splitLoop_done (by omega)]

theorem splitLoop_next (h : offset < fileSize) (hlast : ¬ fileSize - offset < chunkSize) :
    splitLoop file fileSize offset chunkSize jobId hc =
      ⟨jobId, .mapTask, .unassigned, file, offset, chunkSize, 0⟩ ::
        splitLoop file fileSize (offset + chunkSize) chunkSize (jobId + 1) hc := by
  rw [splitLoop, dif_pos h, dif_neg hlast]

/-- A property of the pieces is proved from the end of the file to its start. -/
theorem splitLoop_induction {P : Nat → Nat → List MapJob → Prop} (hc : 0 < chunkSize)
    (hdone : ∀ offset jobId, fileSize ≤ offset → P offset jobId [])
    (hlast : ∀ offset jobId, offset < fileSize → fileSize - offset < chunkSize →
      P offset jobId [⟨jobId, .mapTask, .unassigned, file, offset, fileSize - offset, 0⟩])
    (hnext : ∀ offset jobId jobs, offset + chunkSize ≤ fileSize →
      P (offset + chunkSize) (jobId + 1) jobs →
      P offset jobId (⟨jobId, .mapTask, .unassigned, file, offset, chunkSize, 0⟩ :: jobs))
    (offset jobId : Nat) : P offset jobId (splitLoop file fileSize offset chunkSize jobId hc) := by
  generalize hn : fileSize - offset = n
  induction n using Nat.strong_induction_on generalizing offset jobId with
  | _ n ih =>
    by_cases h : offset < fileSize
    · by_cases hl : fileSize - offset < chunkSize
      · rw [splitLoop_last h hl]
        exact hlast offset jobId h hl
      · rw [splitLoop_next h hl]
        exact hnext offset jobId _ (by omega)
          (ih (fileSize - (offset + chunkSize)) (by omega) _ _ rfl)
    · rw [splitLoop_done h]
      exact hdone offset jobId (by omega)

theorem splitLoop_file (hc : 0 < chunkSize) (offset jobId : Nat) :
    ∀ job ∈ splitLoop file fileSize offset chunkSize jobId hc, job.fileLocation = file := by
  apply splitLoop_induction (P := fun _ _ jobs => ∀ job ∈ jobs, job.fileLocation = file) hc
  · simp
  · simp
  · intro offset jobId jobs _ ih job hjob
    rcases List.mem_cons.mp hjob with rfl | hjob
    · rfl
    · exact ih job hjob

theorem splitLoop_flatten (hc : 0 < chunkSize) (offset jobId : Nat) :
    ((splitLoop file contents.length offset chunkSize jobId hc).map
      fun job => job.range contents).flatten =
      contents.drop offset := by
  apply splitLoop_induction (P := fun offset _ jobs =>
    (jobs.map fun job => job.range contents).flatten = contents.drop offset) hc
  · intro offset _ h
    rw [List.drop_eq_nil_of_le h]
    rfl
  · intro offset _ h _
    simp [MapJob.range]
  · intro offset _ jobs h ih
    rw [List.map_cons, List.flatten_cons, ih, ← List.drop_drop]
    exact List.take_append_drop _ _

theorem splitLoop_piece (hc : 0 < chunkSize) (offset jobId : Nat) : ∀ k,
    ((splitLoop file contents.length offset chunkSize jobId hc).map
      fun job => job.range contents)[k]? =
      if offset + k * chunkSize < contents.length
        then some ((contents.drop (offset + k * chunkSize)).take chunkSize)
      else none := by
  apply splitLoop_induction (P := fun offset _ jobs => ∀ k,
    (jobs.map fun job => job.range contents)[k]? =
      if offset + k * chunkSize < contents.length
        then some ((contents.drop (offset + k * chunkSize)).take chunkSize)
      else none) hc
  · intro offset _ h k
    rw [if_neg (by omega)]
    rfl
  · intro offset _ h hl k
    cases k with
    | zero =>
      rw [Nat.zero_mul, Nat.add_zero, if_pos h]
      have hlen : (contents.drop offset).length ≤ contents.length - offset := by simp
      have hlen' : (contents.drop offset).length ≤ chunkSize := by
        rw [List.length_drop]
        omega
      simp only [MapJob.range, List.map_cons, List.getElem?_cons_zero, List.take_of_length_le hlen,
        List.take_of_length_le hlen']
    | succ k =>
      have hmul : chunkSize ≤ (k + 1) * chunkSize := Nat.le_mul_of_pos_left _ (Nat.succ_pos k)
      rw [if_neg (by omega)]
      rfl
  · intro offset _ jobs h ih k
    cases k with
    | zero =>
      rw [Nat.zero_mul, Nat.add_zero, if_pos (by omega)]
      rfl
    | succ k =>
      rw [List.map_cons, List.getElem?_cons_succ, ih, Nat.succ_mul, Nat.add_comm (k * chunkSize),
        ← Nat.add_assoc]

theorem splitLoop_cut (hc : 0 < chunkSize) (offset jobId : Nat) : ∀ k,
    ((((splitLoop file contents.length offset chunkSize jobId hc).map
      fun job => job.range contents).take k).flatten).length =
      min (k * chunkSize) (contents.length - offset) := by
  apply splitLoop_induction (P := fun offset _ jobs => ∀ k,
    (((jobs.map fun job => job.range contents).take k).flatten).length =
      min (k * chunkSize) (contents.length - offset)) hc
  · intro offset _ h k
    simp
    omega
  · intro offset _ h hl k
    cases k with
    | zero => simp
    | succ k =>
      have hmul : chunkSize ≤ (k + 1) * chunkSize := Nat.le_mul_of_pos_left _ (Nat.succ_pos k)
      simp [MapJob.range]
      omega
  · intro offset _ jobs h ih k
    cases k with
    | zero => simp
    | succ k =>
      rw [List.map_cons, List.take_succ_cons, List.flatten_cons, List.length_append, ih,
        Nat.succ_mul]
      simp only [MapJob.range, List.length_take, List.length_drop]
      omega

end

def pieces (contents : GoString) : List GoString :=
  (splitLoop [] contents.length 0 mapInputSize 0 mapInputSize_pos).map fun job => job.range contents

theorem pieces_flatten (contents : GoString) : (pieces contents).flatten = contents := by
  rw [pieces, splitLoop_flatten, List.drop_zero]

theorem pieces_getElem? (contents : GoString) (k : Nat) : (pieces contents)[k]? =
    if k * mapInputSize < contents.length
        then some ((contents.drop (k * mapInputSize)).take mapInputSize) else none := by
  rw [pieces, splitLoop_piece, Nat.zero_add]

theorem pieces_cut (contents : GoString) (k : Nat) :
    (((pieces contents).take k).flatten).length = min (k * mapInputSize) contents.length := by
  rw [pieces, splitLoop_cut, Nat.sub_zero]

/-! ## All files -/

theorem splitLoop_pieces (file contents : GoString) (jobId : Nat) :
    (splitLoop file contents.length 0 mapInputSize jobId (by decide)).map
    (fun job => job.range contents) = pieces contents := by
  apply List.ext_getElem?
  intro k
  rw [pieces, splitLoop_piece, splitLoop_piece]

section
variable {size : GoString → Option Nat} {contents : GoString → GoString} {files : List GoString}

theorem makeMapJobs_pieces (hsize : ∀ f ∈ files, size f = some (contents f).length) (jobId : Nat) :
    (makeMapJobs size files jobId).map
    (fun job => (job.fileLocation, job.range (contents job.fileLocation))) =
      files.flatMap fun f => (pieces (contents f)).map fun piece => (f, piece) := by
  induction files generalizing jobId with
  | nil => rfl
  | cons f files ih =>
    have ih := ih fun g hg => hsize g (List.mem_cons_of_mem _ hg)
    simp only [makeMapJobs, hsize f List.mem_cons_self, List.flatMap_cons, List.map_append, ih]
    congr 1
    rw [← splitLoop_pieces f (contents f) jobId, List.map_map]
    apply List.map_congr_left
    intro job hjob
    rw [splitLoop_file _ _ _ job hjob]
    rfl

theorem makeCoordinator_file (hnodup : files.Nodup)
    (hsize : ∀ f ∈ files, size f = some (contents f).length) {file : GoString}
    (hfile : file ∈ files) :
    ((makeCoordinator size files).filter fun job => job.fileLocation = file).map
    (fun job => job.range (contents file)) =
      pieces (contents file) := by
  have hfilter : ∀ files : List GoString, files.Nodup →
      ((files.flatMap fun f => (pieces (contents f)).map fun piece => (f, piece)).filter
        fun p => p.1 = file).map Prod.snd =
        if file ∈ files then pieces (contents file) else [] := by
    intro files hnodup
    induction files with
    | nil => rfl
    | cons f files ih =>
      obtain ⟨hf, hnodup⟩ := List.nodup_cons.mp hnodup
      rw [List.flatMap_cons, List.filter_append, List.map_append, ih hnodup]
      by_cases hff : f = file
      · subst hff
        simp [hf, List.filter_map, Function.comp_def]
      · have hff' : ¬ file = f := fun h => hff h.symm
        simp [hff, hff', List.filter_map, Function.comp_def]
  have h := hfilter files hnodup
  rw [if_pos hfile, ← makeMapJobs_pieces hsize 1000, List.filter_map, List.map_map] at h
  rw [← h]
  apply List.map_congr_left
  intro job hjob
  have hloc := (List.mem_filter.mp hjob).2
  simp only [decide_eq_true_eq] at hloc
  simp [hloc]

end

end Csc412.MapReduce
