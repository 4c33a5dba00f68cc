import Csc412.Lib.Tiling
import Csc412.MapReduce.SplitSound

/-!
# The list of map jobs

The jobs of a file tile its bytes, all but the last with pieces of full size, and the job
ids count on from file to file: `makeCoordinator_partition`.
-/

namespace Csc412.MapReduce

open Lib

def MapJob.span (job : MapJob) : Nat × Nat := (job.fileIndex, job.mSize)

/-- The jobs are those of one file. -/
structure FileJobs (file : GoString) (fileSize : Nat) (jobs : List MapJob) : Prop where
  task : ∀ job ∈ jobs, job.jobType = .mapTask ∧ job.status = .unassigned ∧ job.fileLocation = file
  consecutive : Tiling 0 fileSize (jobs.map MapJob.span)
  covers : ∀ x, x < fileSize ↔ ∃ job ∈ jobs, job.fileIndex ≤ x ∧ x < job.fileIndex + job.mSize
  disjoint : jobs.Pairwise fun job later => job.fileIndex + job.mSize ≤ later.fileIndex
  full : ∀ job ∈ jobs.dropLast, job.mSize = mapInputSize
  last : ∀ job ∈ jobs.getLast?, job.mSize ≤ mapInputSize
  empty : fileSize = 0 → jobs = []

section
variable {file : GoString} {fileSize chunkSize : Nat}

theorem splitLoop_task (hc : 0 < chunkSize) (offset jobId : Nat) :
    ∀ job ∈ splitLoop file fileSize offset chunkSize jobId hc,
    job.jobType = .mapTask ∧ job.status = .unassigned ∧ job.fileLocation = file := by
  apply splitLoop_induction (P := fun _ _ jobs => ∀ job ∈ jobs,
    job.jobType = .mapTask ∧ job.status = .unassigned ∧ job.fileLocation = file) hc
  · simp
  · simp
  · intro offset jobId jobs _ ih job hjob
    rcases List.mem_cons.mp hjob with rfl | hjob
    · exact ⟨rfl, rfl, rfl⟩
    · exact ih job hjob

theorem splitLoop_tiling (hc : 0 < chunkSize) (offset jobId : Nat) : offset ≤ fileSize →
    Tiling offset fileSize ((splitLoop file fileSize offset chunkSize jobId hc).map
        MapJob.span) := by
  apply splitLoop_induction (P := fun offset _ jobs => offset ≤ fileSize →
    Tiling offset fileSize (jobs.map MapJob.span)) hc
  · intro offset _ h hle
    rw [Nat.le_antisymm hle h]
    exact .nil _
  · intro offset _ h _ hle
    refine .cons (Nat.sub_pos_of_lt h) ?_
    rw [Nat.add_sub_cancel' hle]
    exact .nil _
  · intro offset _ jobs h ih _
    exact .cons hc (ih h)

theorem splitLoop_sizes (hc : 0 < chunkSize) (offset jobId : Nat) :
    (∀ job ∈ (splitLoop file fileSize offset chunkSize jobId hc).dropLast, job.mSize = chunkSize) ∧
      ∀ job ∈ (splitLoop file fileSize offset chunkSize jobId hc).getLast?,
      job.mSize ≤ chunkSize := by
  apply splitLoop_induction (P := fun _ _ jobs =>
    (∀ job ∈ jobs.dropLast, job.mSize = chunkSize) ∧ ∀ job ∈ jobs.getLast?,
      job.mSize ≤ chunkSize) hc
  · simp
  · intro offset jobId _ h
    refine ⟨by simp, ?_⟩
    rintro job ⟨⟩
    exact Nat.le_of_lt h
  · intro offset jobId jobs _ ih
    cases jobs with
    | nil =>
      refine ⟨by simp, ?_⟩
      rintro job ⟨⟩
      exact Nat.le_refl _
    | cons next jobs =>
      refine ⟨?_, fun job hjob => ih.2 job ?_⟩
      · rw [List.dropLast_cons_of_ne_nil (List.cons_ne_nil _ _), List.forall_mem_cons]
        exact ⟨rfl, ih.1⟩
      · rw [List.getLast?_cons_cons] at hjob
        exact hjob

theorem splitLoop_ids (hc : 0 < chunkSize) (offset jobId : Nat) :
    (splitLoop file fileSize offset chunkSize jobId hc).map MapJob.jobId =
      List.range' jobId (splitLoop file fileSize offset chunkSize jobId hc).length := by
  apply splitLoop_induction (P := fun _ jobId jobs => jobs.map MapJob.jobId =
    List.range' jobId jobs.length) hc
  · intros
    rfl
  · intros
    rfl
  · intro offset jobId jobs _ ih
    rw [List.map_cons, ih, List.length_cons, List.range'_succ]

theorem splitLoop_fileJobs (jobId : Nat) :
    FileJobs file fileSize (splitLoop file fileSize 0 mapInputSize jobId (by decide)) := by
  have htiling : Tiling 0 fileSize
      ((splitLoop file fileSize 0 mapInputSize jobId (by decide)).map MapJob.span) :=
    splitLoop_tiling _ _ _ (Nat.zero_le _)
  obtain ⟨hfull, hlast⟩ := @splitLoop_sizes file fileSize mapInputSize (by decide) 0 jobId
  refine ⟨splitLoop_task _ _ _, htiling, fun x => ?_, List.pairwise_map.mp htiling.pairwise, hfull,
    hlast, ?_⟩
  · have hcovers := htiling.covers x
    simpa [MapJob.span] using hcovers
  · rintro rfl
    exact splitLoop_done (Nat.lt_irrefl 0)

end

theorem makeMapJobs_partition (size : GoString → Nat) (files : List GoString) (jobId : Nat) :
    ∃ parts : List (List MapJob), makeMapJobs (fun f => some (size f)) files jobId = parts.flatten ∧
      List.Forall₂ (fun file part => FileJobs file (size file) part) files parts ∧
      parts.flatten.map MapJob.jobId = List.range' jobId parts.flatten.length := by
  induction files generalizing jobId with
  | nil => exact ⟨[], rfl, .nil, rfl⟩
  | cons file files ih =>
    obtain ⟨jobs, hjobs⟩ : ∃ jobs,
      jobs = splitLoop file (size file) 0 mapInputSize jobId (by decide) := ⟨_, rfl⟩
    obtain ⟨parts, hrest, hparts, hids⟩ := ih (jobId + jobs.length)
    refine ⟨jobs :: parts, ?_, .cons ?_ hparts, ?_⟩
    · rw [List.flatten_cons, ← hrest, hjobs]
      rfl
    · rw [hjobs]
      exact splitLoop_fileJobs jobId
    · have hfirst : jobs.map MapJob.jobId = List.range' jobId jobs.length := by
        rw [hjobs]
        exact splitLoop_ids _ _ _
      rw [List.flatten_cons, List.map_append, List.length_append, hfirst, hids,
        List.range'_append_1]

/-- The files are cut up one after another into pieces of 64 MiB, and the jobs for the
pieces are numbered from 1000 on. -/
theorem makeCoordinator_partition (size : GoString → Nat) (files : List GoString) :
    ∃ parts : List (List MapJob), makeCoordinator (fun f => some (size f)) files = parts.flatten ∧
      List.Forall₂ (fun file part => FileJobs file (size file) part) files parts ∧
      parts.flatten.map MapJob.jobId = List.range' 1000 parts.flatten.length :=
  makeMapJobs_partition size files 1000

end Csc412.MapReduce
