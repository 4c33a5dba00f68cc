import Csc412.MapReduce.Shuffle
import Csc412.MapReduce.WorkerSound

/-!
# The shuffle is exact

A name matches the pattern of a bucket when it is a numeral for a job, and the numeral of
the bucket. Numerals are digits, so a hyphen ends the first one, and they are different for
different numbers. Of the names in the directory only the finished files of the bucket are
of that form: `getIntermediateFiles_exact`.
-/

namespace Csc412.MapReduce

open Lib

/-! ## The pattern -/

theorem prefix_literals : ∀ c ∈ "mapreduce-".toList, Regexp.Literal c := by
  have hliterals : ∀ c ∈ ['m', 'a', 'p', 'r', 'e', 'd', 'u', 'c', 'e', '-'], Regexp.Literal c := by
    simp only [List.forall_mem_cons, List.not_mem_nil, false_imp_iff, implies_true, and_true]
    exact ⟨rfl, rfl, rfl, rfl, rfl, rfl, rfl, rfl, rfl, rfl⟩
  exact hliterals

theorem isDigit_digits {r : Nat} {d : Char} (h : d ∈ Nat.toDigits 10 r) : d.isDigit = true :=
  Nat.isDigit_of_mem_toDigits (by decide) (by decide) h

theorem suffix_literals (r : Nat) : ∀ c ∈ '-' :: Nat.toDigits 10 r, Regexp.Literal c :=
  List.forall_mem_cons.mpr ⟨rfl, fun _ hd => Regexp.digit_literal (isDigit_digits hd)⟩

/-- What the pattern compiles to. -/
def intermediateRegexp (r : Nat) : Regexp :=
  .concat ([.beginText] ++ ("mapreduce-".toList.map .lit ++
    ([.concat [.plus .digit]] ++ (('-' :: Nat.toDigits 10 r).map .lit ++ [.endText]))))

theorem intermediatePattern_toList (r : Nat) : (intermediatePattern r).toList =
    '^' :: ("mapreduce-".toList ++
        '(' :: '\\' :: 'd' :: '+' :: ')' :: (('-' :: Nat.toDigits 10 r) ++ ['$'])) := by
  have hpattern : intermediatePattern r = "^mapreduce-(\\d+)-" ++ toString r ++ "$" := rfl
  have hlead : "^mapreduce-(\\d+)-".toList =
    '^' :: ("mapreduce-".toList ++ ['(', '\\', 'd', '+', ')', '-']) := by decide
  have hend : "$".toList = ['$'] := by decide
  rw [hpattern, String.toList_append, String.toList_append, toString_nat_toList, hlead, hend]
  simp only [List.cons_append, List.append_assoc, List.nil_append]

theorem compile_intermediatePattern (r : Nat) :
    Regexp.compile (intermediatePattern r) = some (intermediateRegexp r) := by
  have hend : Regexp.tokens (('-' :: Nat.toDigits 10 r) ++ ['$']) =
      some (('-' :: Nat.toDigits 10 r).map .char ++ [.endText]) :=
    Regexp.tokens_literals (suffix_literals r) ['$']
  have htokens : Regexp.tokens (intermediatePattern r).toList =
    some (.beginText :: ("mapreduce-".toList.map .char ++
      .leftParen :: .digit :: .plus :: .rightParen :: (('-' :: Nat.toDigits 10 r).map .char ++
          [.endText]))) := by
    rw [intermediatePattern_toList, Regexp.tokens_cons (by decide),
      Regexp.tokens_literals prefix_literals, Regexp.tokens_cons (by decide), Regexp.tokens_digit,
      Regexp.tokens_cons (by decide), Regexp.tokens_cons (by decide), hend]
    rfl
  refine (Regexp.compile_of_tokens htokens
    (g := (Regexp.endText :: ((('-' :: Nat.toDigits 10 r).map Regexp.lit).reverse ++
    (.concat [.plus .digit] :: (("mapreduce-".toList.map Regexp.lit).reverse ++ [.beginText])))))
      ?_).trans ?_
  · have hfirst : ∀ ts, (Regexp.Token.beginText :: ts).foldlM Regexp.parseToken [[]] =
      ts.foldlM Regexp.parseToken [[.beginText]] := fun _ => rfl
    have hgroup : ∀ ts g, (.leftParen :: .digit :: .plus :: .rightParen :: ts).foldlM
      Regexp.parseToken [g] =
        ts.foldlM Regexp.parseToken [.concat [.plus .digit] :: g] := fun _ _ => rfl
    rw [hfirst, Regexp.parse_literals, hgroup, Regexp.parse_literals]
    rfl
  · rw [intermediateRegexp]
    simp only [List.reverse_cons, List.reverse_append, List.reverse_reverse, List.append_assoc,
      List.reverse_nil, List.nil_append, List.cons_append]

def OfBucket (r : Nat) (name : List Char) : Prop :=
  ∃ ds, ds ≠ [] ∧ (∀ d ∈ ds, d.isDigit = true) ∧
    name = "mapreduce-".toList ++ (ds ++ '-' :: Nat.toDigits 10 r)

theorem match_intermediate {r : Nat} {name : List Char} :
    Regexp.matchString name (intermediateRegexp r) = true ↔ OfBucket r name := by
  rw [Regexp.matchString_iff, intermediateRegexp]
  simp only [Regexp.spans_concat_append, Regexp.spans_concat_lits, Regexp.spans_concat_single,
    Regexp.spans_digits, Regexp.spans_beginText, Regexp.spans_endText]
  constructor
  · rintro ⟨s, s', -, _, ⟨rfl, rfl⟩, _, rfl, _, ⟨ds, hne, hds, rfl⟩, _, rfl, rfl, rfl⟩
    exact ⟨ds, hne, hds, by simp⟩
  · rintro ⟨ds, hne, hds, rfl⟩
    exact ⟨_, [], List.suffix_refl _, _, ⟨rfl, rfl⟩, _, rfl, _, ⟨ds, hne, hds, rfl⟩, [], by simp,
      rfl, rfl⟩

theorem mem_intermediateFiles {dir : Directory} {r : Nat} {name : String} :
    name ∈ getIntermediateFiles (some dir) r ↔
    ⟨name, false⟩ ∈ dir.entries ∧ OfBucket r name.toList := by
  rw [getIntermediateFiles, compile_intermediatePattern, ← match_intermediate]
  simp only [List.mem_map, List.mem_filter, Bool.and_eq_true, Bool.not_eq_true']
  constructor
  · rintro ⟨⟨n, isDir⟩, ⟨hmem, rfl, hmatch⟩, rfl⟩
    exact ⟨hmem, hmatch⟩
  · intro ⟨hmem, hmatch⟩
    exact ⟨_, ⟨hmem, rfl, hmatch⟩, rfl⟩

theorem intermediateFiles_nodup (dir : Directory) (r : Nat) :
    (getIntermediateFiles (some dir) r).Nodup := by
  rw [getIntermediateFiles, compile_intermediatePattern]
  exact dir.distinct.sublist (List.filter_sublist.map _)

/-! ## The names in the directory -/

/-- The files of `doMap` for the jobs, the outputs of `doReduce` and what the applications
write. -/
inductive KnownName (ids : Set Nat) (nReduce : Int) : String → Prop
  | final {m r : Nat} : m ∈ ids → (r : Int) < nReduce → KnownName ids nReduce (finalName m r)
  | tmp {m r : Nat} : m ∈ ids → (r : Int) < nReduce → KnownName ids nReduce (tmpName m r)
  | out (r : Nat) : KnownName ids nReduce ("mapreduce-out-" ++ toString r)
  | worker (rest : String) : KnownName ids nReduce ("mapreduce-worker-" ++ rest)

/-- The file of job `m` for a bucket is published. -/
def Finished (ids : Set Nat) (dir : Directory) (r : Nat) (name : String) : Prop :=
  ⟨name, false⟩ ∈ dir.entries ∧ ∃ m ∈ ids, name = finalName m r

theorem finalName_toList (m r : Nat) :
    (finalName m r).toList = "mapreduce-".toList ++
    (Nat.toDigits 10 m ++ '-' :: Nat.toDigits 10 r) := by
  have hname : finalName m r = "mapreduce-" ++ toString m ++ "-" ++ toString r := rfl
  have hhyphen : "-".toList = ['-'] := by decide
  simp only [hname, String.toList_append, toString_nat_toList, hhyphen, List.append_assoc,
    List.cons_append, List.nil_append]

theorem tmpName_toList (m r : Nat) :
    (tmpName m r).toList = "mapreduce-".toList ++
    (Nat.toDigits 10 m ++ '-' :: (Nat.toDigits 10 r ++ ".tmp".toList)) := by
  have hname : tmpName m r = finalName m r ++ ".tmp" := rfl
  rw [hname, String.toList_append, finalName_toList]
  simp only [List.append_assoc, List.cons_append]

theorem hyphen_notMem (r : Nat) : '-' ∉ Nat.toDigits 10 r :=
  fun h => absurd (isDigit_digits h) (by decide)

/-- After the prefix there is no digit. -/
theorem not_match {name : List Char} {c : Char} {rest tail : List Char} (hc : c.isDigit = false)
    {ds : List Char} (hne : ds ≠ []) (hds : ∀ d ∈ ds, d.isDigit = true)
    (hname : name = "mapreduce-".toList ++ c :: rest) :
    name ≠ "mapreduce-".toList ++ (ds ++ tail) := by
  intro heq
  cases ds with
  | nil => exact hne rfl
  | cons d ds =>
    rw [hname] at heq
    obtain rfl : c = d := (List.cons.inj (List.append_cancel_left heq)).1
    rw [hds c List.mem_cons_self] at hc
    cases hc

theorem finalName_ofBucket (m r : Nat) : OfBucket r (finalName m r).toList :=
  ⟨Nat.toDigits 10 m, Nat.toDigits_ne_nil, fun _ => isDigit_digits, finalName_toList m r⟩

/-- No other name there can be is that of a bucket. -/
theorem known_ofBucket {ids : Set Nat} {nReduce : Int} {name : String}
    (hname : KnownName ids nReduce name) {r : Nat} (hbucket : OfBucket r name.toList) :
    (r : Int) < nReduce ∧ ∃ m ∈ ids, name = finalName m r := by
  obtain ⟨ds, hne, hds, heq⟩ := hbucket
  cases hname with
  | @final m r' hm hr =>
    rw [finalName_toList] at heq
    have hparts := (List.append_cons_inj_of_notMem (hyphen_notMem m) (hyphen_notMem r')).mp
      (List.append_cancel_left heq)
    obtain rfl := toDigits_inj hparts.2.2
    exact ⟨hr, m, hm, rfl⟩
  | @tmp m r' hm _ =>
    have hfree : '-' ∉ Nat.toDigits 10 r' ++ ".tmp".toList :=
      List.not_mem_append (hyphen_notMem r') (by decide)
    rw [tmpName_toList] at heq
    have hparts := (List.append_cons_inj_of_notMem (hyphen_notMem m) hfree).mp
      (List.append_cancel_left heq)
    refine absurd (String.ext ?_) (tmpName_ne_finalName m r' r)
    rw [tmpName_toList, finalName_toList, hparts.2.2]
  | out r' =>
    have hlead : "mapreduce-out-".toList = "mapreduce-".toList ++ 'o' :: ['u', 't', '-'] := by
      decide
    have hout : ("mapreduce-out-" ++ toString r').toList = "mapreduce-".toList ++
        'o' :: (['u', 't', '-'] ++ (toString r').toList) := by
      rw [String.toList_append, hlead, List.append_assoc, List.cons_append]
    exact absurd heq (not_match (by decide) hne hds hout)
  | worker rest =>
    have hlead : "mapreduce-worker-".toList =
        "mapreduce-".toList ++ 'w' :: ['o', 'r', 'k', 'e', 'r', '-'] := by decide
    have hworker : ("mapreduce-worker-" ++ rest).toList = "mapreduce-".toList ++
        'w' :: (['o', 'r', 'k', 'e', 'r', '-'] ++ rest.toList) := by
      rw [String.toList_append, hlead, List.append_assoc, List.cons_append]
    exact absurd heq (not_match (by decide) hne hds hworker)

theorem finalName_bucket {m m' r r' : Nat} (h : finalName m r = finalName m' r') : r = r' := by
  have heq := congrArg String.toList h
  rw [finalName_toList, finalName_toList] at heq
  have hparts := (List.append_cons_inj_of_notMem (hyphen_notMem m) (hyphen_notMem r)).mp
    (List.append_cancel_left heq)
  exact toDigits_inj hparts.2.2

/-! ## The reduce jobs -/

section
variable {ids : Set Nat} {nReduce : Int} {dir : Directory}
    (hnames : ∀ file ∈ dir.entries, KnownName ids nReduce file.name)
include hnames

theorem mem_iff_finished {r : Nat} {name : String} :
    name ∈ getIntermediateFiles (some dir) r ↔ Finished ids dir r name := by
  rw [mem_intermediateFiles]
  constructor
  · intro ⟨hmem, hbucket⟩
    exact ⟨hmem, (known_ofBucket (hnames _ hmem) hbucket).2⟩
  · rintro ⟨hmem, m, -, rfl⟩
    exact ⟨hmem, finalName_ofBucket m r⟩

theorem finished_lt {r : Nat} {name : String} (h : Finished ids dir r name) :
    (r : Int) < nReduce := by
  obtain ⟨hmem, m, -, rfl⟩ := h
  exact (known_ofBucket (hnames _ hmem) (finalName_ofBucket m r)).1

theorem reduceJobs_disjoint :
    ((makeReduceJobs (some dir) nReduce).map ReduceJob.intermediateFiles).Pairwise
        List.Disjoint := by
  rw [makeReduceJobs, List.map_map, List.pairwise_map]
  refine List.pairwise_lt_range.imp ?_
  intro r r' hlt name hname hname'
  obtain ⟨-, m, -, rfl⟩ := (mem_iff_finished hnames).mp hname
  obtain ⟨-, m', -, heq⟩ := (mem_iff_finished hnames).mp hname'
  exact absurd (finalName_bucket heq) (Nat.ne_of_lt hlt)

theorem reduceJobs_cover (name : String) :
    (∃ job ∈ makeReduceJobs (some dir) nReduce, name ∈ job.intermediateFiles) ↔ ∃ r,
    Finished ids dir r name := by
  constructor
  · rintro ⟨job, hjob, hname⟩
    obtain ⟨r, -, rfl⟩ := List.mem_map.mp hjob
    exact ⟨r, (mem_iff_finished hnames).mp hname⟩
  · rintro ⟨r, h⟩
    have hlt := finished_lt hnames h
    refine ⟨_, List.mem_map.mpr ⟨r, List.mem_range.mpr (by omega), rfl⟩,
      (mem_iff_finished hnames).mpr h⟩

/-- Each bucket gets its finished files once, and every finished file is in one bucket. -/
theorem getIntermediateFiles_exact :
    (∀ r : Nat, (getIntermediateFiles (some dir) r).Nodup ∧ ∀ name,
      name ∈ getIntermediateFiles (some dir) r ↔ Finished ids dir r name) ∧
      ((makeReduceJobs (some dir) nReduce).map ReduceJob.intermediateFiles).Pairwise List.Disjoint ∧
      ∀ name, (∃ job ∈ makeReduceJobs (some dir) nReduce, name ∈ job.intermediateFiles) ↔ ∃ r,
      Finished ids dir r name :=
  ⟨fun r => ⟨intermediateFiles_nodup dir r, fun _ => mem_iff_finished hnames⟩,
    reduceJobs_disjoint hnames, reduceJobs_cover hnames⟩

end

/-- Buckets 1 and 11 of job 1000, an unfinished file and two others. -/
def mixedDirectory : Directory where
  entries := [⟨finalName 1000 1, false⟩, ⟨tmpName 1000 1, false⟩, ⟨finalName 1000 11, false⟩,
    ⟨"mapreduce-out-" ++ toString 1, false⟩, ⟨"mapreduce-worker-" ++ "map-7", false⟩]
  distinct := by decide

theorem getIntermediateFiles_exact_mixed :
    (∀ r : Nat, (getIntermediateFiles (some mixedDirectory) r).Nodup ∧
      ∀ name, name ∈ getIntermediateFiles (some mixedDirectory) r ↔
      Finished { 1000 } mixedDirectory r name) ∧
      ((makeReduceJobs (some mixedDirectory) 12).map ReduceJob.intermediateFiles).Pairwise
        List.Disjoint ∧
      ∀ name, (∃ job ∈ makeReduceJobs (some mixedDirectory) 12, name ∈ job.intermediateFiles) ↔ ∃ r,
      Finished { 1000 } mixedDirectory r name := by
  apply getIntermediateFiles_exact
  simp only [mixedDirectory, List.forall_mem_cons, List.not_mem_nil, false_imp_iff, implies_true,
    and_true]
  exact ⟨.final rfl (by decide), .tmp rfl (by decide), .final rfl (by decide), .out 1,
    .worker "map-7"⟩

end Csc412.MapReduce
