import Csc412.Lib.CString
import Csc412.MapReduce.WordCountSound

/-!
# The index of pieces

`MapIndexer` emits a word once for each call, and the jobs of a large file are several
calls. So the index of the pieces names a file as often as its pieces have the word.
-/

namespace Csc412.MapReduce

open Lib Lib.Utf8

/-! ## Reducing -/

theorem sortStrings_perm {l₁ l₂ : List GoString} (h : l₁.Perm l₂) :
    sortStrings l₁ = sortStrings l₂ := by
  have hsorted : ∀ l : List GoString, (sortStrings l).Pairwise fun a b => decide (a ≤ b) =
      true := by
    intro l
    apply List.pairwise_mergeSort
    · intro a b c hab hbc
      rw [decide_eq_true_iff] at hab hbc ⊢
      exact List.le_trans hab hbc
    · intro a b
      simpa using List.le_total a b
  apply List.Perm.eq_of_pairwise ?_ (hsorted l₁) (hsorted l₂)
  · exact (List.mergeSort_perm l₁ _).trans (h.trans (List.mergeSort_perm l₂ _).symm)
  · intro a b _ _ hab hba
    rw [decide_eq_true_iff] at hab hba
    exact List.le_antisymm hab hba

theorem reduceIndexer_perm (w : GoString) {l₁ l₂ : List GoString} (h : l₁.Perm l₂) :
    reduceIndexer w l₁ = reduceIndexer w l₂ := by
  rw [reduceIndexer, reduceIndexer, sortStrings_perm h, h.length_eq]

theorem itoa_digits (n : Nat) : (itoa n).map (fun b => Char.ofNat b.toNat) = Nat.toDigits 10 n := by
  rw [itoa, List.map_map]
  conv_rhs => rw [← List.map_id (Nat.toDigits 10 n)]
  apply List.map_congr_left
  intro c hc
  have hrange := CString.toDigits_range hc
  simp only [Function.comp_apply, UInt8.toNat_ofNat']
  rw [Nat.mod_eq_of_lt (by omega), Char.ofNat_toNat, id]

theorem itoa_inj {m n : Nat} (h : itoa m = itoa n) : m = n := by
  rw [← Nat.ofDigitChars_ten_toDigits (n := m), ← itoa_digits, h, itoa_digits,
    Nat.ofDigitChars_ten_toDigits]

theorem space_notMem_itoa (n : Nat) : ∀ b ∈ itoa n, b ≠ 0x20 := by
  intro b hb heq
  obtain ⟨c, hc, rfl⟩ := List.mem_map.mp hb
  have hrange := CString.toDigits_range hc
  have hmod := congrArg UInt8.toNat heq
  rw [UInt8.toNat_ofNat', Nat.mod_eq_of_lt (by omega)] at hmod
  simp at hmod
  omega

theorem length_of_reduceIndexer {w w' : GoString} {l₁ l₂ : List GoString}
    (h : reduceIndexer w l₁ = reduceIndexer w' l₂) :
    l₁.length = l₂.length := by
  have hcount : ∀ w l, (reduceIndexer w l).takeWhile (· ≠ 0x20) = itoa l.length := by
    intro w l
    rw [reduceIndexer, List.takeWhile_append_of_pos (by simpa using space_notMem_itoa _)]
    simp
  apply itoa_inj
  rw [← hcount w, ← hcount w', h]

/-! ## Emitted values -/

/-- The pairs that `MapIndexer` emits for all jobs. -/
def jobsIndexer (isLetter : Nat → Bool) (size : GoString → Option Nat) (files : List GoString)
    (contents : GoString → GoString) :
    List KeyValue :=
  (makeCoordinator size files).flatMap fun job => mapIndexer isLetter job.fileLocation
    (job.range (contents job.fileLocation))

/-- The pairs that it emits for whole files. -/
def filesIndexer (isLetter : Nat → Bool) (files : List GoString) (contents : GoString → GoString) :
    List KeyValue :=
  files.flatMap fun f => mapIndexer isLetter f (contents f)

/-- The files that have the word `w`: their number and their sorted names. -/
def indexOf (isLetter : Nat → Bool) (files : List GoString) (contents : GoString → GoString)
    (w : GoString) : GoString :=
  let docs := files.filter fun f => w ∈ words isLetter (contents f)
  itoa docs.length ++ 0x20 :: joinStrings [0x2C] (sortStrings docs)

section
variable {isLetter : Nat → Bool} {size : GoString → Option Nat} {files : List GoString}
    {contents : GoString → GoString}
  {w : GoString}

theorem valuesOf_flatMap {α : Type} (w : GoString) (l : List α) (g : α → List KeyValue) :
    valuesOf w (l.flatMap g) = l.flatMap fun a => valuesOf w (g a) := by
  simp only [valuesOf, List.filter_flatMap, List.map_flatMap]

theorem valuesOf_mapIndexer (isLetter : Nat → Bool) (w document value : GoString) :
    valuesOf w (mapIndexer isLetter document value) =
      if w ∈ words isLetter value then [document] else [] := by
  simp only [valuesOf, mapIndexer, List.filter_map, Function.comp_def, List.filter_eq,
    List.map_replicate]
  by_cases hw : w ∈ words isLetter value
  · rw [if_pos hw, List.count_eq_one_of_mem (List.nodup_dedup _) (List.mem_dedup.mpr hw)]
    rfl
  · rw [if_neg hw, List.count_eq_zero_of_not_mem fun h => hw (List.mem_dedup.mp h)]
    rfl

theorem valuesOf_filesIndexer (w : GoString) :
    valuesOf w (filesIndexer isLetter files contents) = files.filter fun f => w ∈
        words isLetter (contents f) := by
  rw [filesIndexer, valuesOf_flatMap]
  simp only [valuesOf_mapIndexer]
  induction files with
  | nil => rfl
  | cons f files ih =>
    rw [List.flatMap_cons, ih, List.filter_cons]
    by_cases hw : w ∈ words isLetter (contents f) <;> simp [hw]

/-- How many pieces of a file have the word `w`. -/
def piecesWith (isLetter : Nat → Bool) (w contents : GoString) : Nat :=
  (pieces contents).countP fun piece => w ∈ words isLetter piece

theorem valuesOf_jobsIndexer (hsize : ∀ f ∈ files, size f = some (contents f).length)
    (w : GoString) :
    valuesOf w (jobsIndexer isLetter size files contents) =
      files.flatMap fun f => List.replicate (piecesWith isLetter w (contents f)) f := by
  have hjobs : jobsIndexer isLetter size files contents =
      ((makeCoordinator size files).map fun job =>
        (job.fileLocation, job.range (contents job.fileLocation))).flatMap
        fun p => mapIndexer isLetter p.1 p.2 := by
    rw [List.flatMap_map]
    rfl
  rw [hjobs, makeCoordinator, makeMapJobs_pieces hsize, valuesOf_flatMap, List.flatMap_assoc]
  congr 1
  funext f
  rw [List.flatMap_map]
  simp only [valuesOf_mapIndexer, piecesWith]
  induction pieces (contents f) with
  | nil => rfl
  | cons piece rest ih =>
    rw [List.flatMap_cons, ih, List.countP_cons]
    by_cases hw : w ∈ words isLetter piece <;> simp [hw, List.replicate_succ]

theorem piecesWith_pos (herr : isLetter runeError = false) {s : GoString}
    (h : ∀ k, ¬ Inside isLetter s (k * mapInputSize)) :
    0 < piecesWith isLetter w s ↔ w ∈ words isLetter s := by
  rw [← words_pieces herr h, List.mem_flatMap, piecesWith, List.countP_pos_iff]
  simp

theorem countP_le_one {α : Type} {p : α → Bool} (l : List α) :
    l.countP p ≤ 1 ↔ ∀ (i j : Nat) a b, l[i]? = some a → l[j]? = some b → p a → p b → i = j := by
  induction l with
  | nil => simp
  | cons x l ih =>
    rw [List.countP_cons]
    by_cases hx : p x = true
    · have hzero : l.countP p + (if p x = true then 1 else 0) ≤ 1 ↔ l.countP p = 0 := by
        rw [if_pos hx]
        omega
      rw [hzero, List.countP_eq_zero]
      constructor
      · intro hnone i j a b hi hj ha hb
        have hat : ∀ (k : Nat) c, (x :: l)[k]? = some c → p c → k = 0 := by
          intro k c hk hc
          cases k with
          | zero => rfl
          | succ k => exact absurd hc (hnone c (List.mem_of_getElem? hk))
        rw [hat i a hi ha, hat j b hj hb]
      · intro hpos c hc hpc
        obtain ⟨k, hk⟩ := List.getElem?_of_mem hc
        have hne := hpos 0 (k + 1) x c rfl hk hx hpc
        omega
    · rw [if_neg hx, Nat.add_zero, ih]
      constructor
      · intro hpos i j a b hi hj ha hb
        cases i with
        | zero =>
          cases hi
          exact absurd ha hx
        | succ i =>
          cases j with
          | zero =>
            cases hj
            exact absurd hb hx
          | succ j => rw [hpos i j a b hi hj ha hb]
      · intro hpos i j a b hi hj ha hb
        exact Nat.succ.inj (hpos (i + 1) (j + 1) a b hi hj ha hb)

theorem words_nil (isLetter : Nat → Bool) : words isLetter [] = [] := by
  simp [words, fieldsFunc, runes_nil, fieldsLoop, emit]

theorem piecesWith_le_one (s : GoString) : piecesWith isLetter w s ≤ 1 ↔
    ∀ k k', w ∈ words isLetter ((s.drop (k * mapInputSize)).take mapInputSize) →
      w ∈ words isLetter ((s.drop (k' * mapInputSize)).take mapInputSize) → k = k' := by
  have hat : ∀ k, w ∈ words isLetter ((s.drop (k * mapInputSize)).take mapInputSize) →
      (pieces s)[k]? = some ((s.drop (k * mapInputSize)).take mapInputSize) := by
    intro k hk
    rw [pieces_getElem?, if_pos]
    by_contra hlt
    rw [List.drop_eq_nil_of_le (by omega), List.take_nil, words_nil] at hk
    cases hk
  rw [piecesWith, countP_le_one]
  constructor
  · intro h k k' hk hk'
    exact h k k' _ _ (hat k hk) (hat k' hk') (by simpa using hk) (by simpa using hk')
  · intro h i j a b hi hj ha hb
    rw [pieces_getElem?] at hi hj
    split at hi <;> cases hi
    split at hj <;> cases hj
    exact h i j (by simpa using ha) (by simpa using hb)

/-! ## The index -/

/-- For every order in which the values may come, the reducer gives the same for the jobs
and for the whole files: the files that have the word. -/
def IndexKept (isLetter : Nat → Bool) (size : GoString → Option Nat) (files : List GoString)
    (contents : GoString → GoString) (w : GoString) : Prop :=
  ∀ vs vs', vs.Perm (valuesOf w (jobsIndexer isLetter size files contents)) →
    vs'.Perm (valuesOf w (filesIndexer isLetter files contents)) →
      reduceIndexer w vs = reduceIndexer w vs' ∧
      reduceIndexer w vs' = indexOf isLetter files contents w

theorem reduceIndexer_files {vs : List GoString}
    (h : vs.Perm (valuesOf w (filesIndexer isLetter files contents))) :
    reduceIndexer w vs = indexOf isLetter files contents w := by
  rw [reduceIndexer_perm w h, valuesOf_filesIndexer]
  rfl

theorem indexKept_of_le_one (herr : isLetter runeError = false)
    (hsize : ∀ f ∈ files, size f = some (contents f).length)
    (hcut : ∀ f ∈ files, ∀ k, ¬ Inside isLetter (contents f) (k * mapInputSize))
    (hone : ∀ f ∈ files, piecesWith isLetter w (contents f) ≤ 1) :
    IndexKept isLetter size files contents w := by
  have hvalues : valuesOf w (jobsIndexer isLetter size files contents) =
      valuesOf w (filesIndexer isLetter files contents) := by
    rw [valuesOf_jobsIndexer hsize, filesIndexer, valuesOf_flatMap]
    simp only [valuesOf_mapIndexer]
    apply List.flatMap_congr
    intro f hf
    have hpos := piecesWith_pos (w := w) herr (hcut f hf)
    have hle := hone f hf
    by_cases hw : w ∈ words isLetter (contents f)
    · rw [if_pos hw, show piecesWith isLetter w (contents f) =
        1 from Nat.le_antisymm hle (hpos.mpr hw)]
      rfl
    · rw [if_neg hw, show piecesWith isLetter w (contents f) = 0 from Nat.eq_zero_of_not_pos
        fun h => hw (hpos.mp h)]
      rfl
  intro vs vs' hvs hvs'
  rw [hvalues] at hvs
  exact ⟨reduceIndexer_perm w (hvs.trans hvs'.symm), reduceIndexer_files hvs'⟩

theorem le_one_of_indexKept (herr : isLetter runeError = false)
    (hsize : ∀ f ∈ files, size f = some (contents f).length)
    (hcut : ∀ f ∈ files, ∀ k, ¬ Inside isLetter (contents f) (k * mapInputSize))
    (h : IndexKept isLetter size files contents w) :
    ∀ f ∈ files, piecesWith isLetter w (contents f) ≤ 1 := by
  have hlen := length_of_reduceIndexer (h _ _ (List.Perm.refl _) (List.Perm.refl _)).1
  rw [valuesOf_jobsIndexer hsize, valuesOf_filesIndexer] at hlen
  clear h hsize
  -- a file with the word counts once on the right and at least once on the left
  have hle : ∀ files : List GoString,
    (∀ f ∈ files, ∀ k, ¬ Inside isLetter (contents f) (k * mapInputSize)) →
      (files.filter fun f => w ∈ words isLetter (contents f)).length ≤
        (files.flatMap fun f => List.replicate (piecesWith isLetter w (contents f)) f).length := by
    intro files hcut
    induction files with
    | nil => exact Nat.le_refl _
    | cons f files ih =>
      have ih := ih fun g hg => hcut g (List.mem_cons_of_mem _ hg)
      have hpos := piecesWith_pos (w := w) herr (hcut f List.mem_cons_self)
      rw [List.flatMap_cons, List.length_append, List.length_replicate, List.filter_cons]
      by_cases hw : w ∈ words isLetter (contents f)
      · have := hpos.mpr hw
        simp only [hw, decide_true, if_true, List.length_cons]
        omega
      · simp only [hw, decide_false]
        simp only [Bool.false_eq_true, if_false]
        omega
  induction files with
  | nil => simp
  | cons f files ih =>
    have hcut' : ∀ g ∈ files, ∀ k, ¬ Inside isLetter (contents g) (k * mapInputSize) :=
      fun g hg => hcut g (List.mem_cons_of_mem _ hg)
    have hrest := hle files hcut'
    have hpos := piecesWith_pos (w := w) herr (hcut f List.mem_cons_self)
    rw [List.flatMap_cons, List.length_append, List.length_replicate, List.filter_cons] at hlen
    intro g hg
    by_cases hw : w ∈ words isLetter (contents f)
    · have hone := hpos.mpr hw
      simp only [hw, decide_true, if_true, List.length_cons] at hlen
      rcases List.mem_cons.mp hg with rfl | hg
      · omega
      · exact ih hcut' (by omega) g hg
    · simp only [hw, decide_false, Bool.false_eq_true, if_false] at hlen
      rcases List.mem_cons.mp hg with rfl | hg
      · omega
      · exact ih hcut' (by omega) g hg

/-- Where no piece starts inside of a word, the index of a word is kept exactly when no
file has the word in two of its pieces. -/
theorem indexer_split (herr : isLetter runeError = false)
    (hsize : ∀ f ∈ files, size f = some (contents f).length)
    (hcut : ∀ f ∈ files, ∀ k, ¬ Inside isLetter (contents f) (k * mapInputSize)) (w : GoString) :
    IndexKept isLetter size files contents w ↔
      ∀ f ∈ files, ∀ k k', w ∈ words isLetter
        (((contents f).drop (k * mapInputSize)).take mapInputSize) →
        w ∈ words isLetter (((contents f).drop (k' * mapInputSize)).take mapInputSize) →
        k = k' := by
  constructor
  · intro h f hf
    exact (piecesWith_le_one (contents f)).mp (le_one_of_indexKept herr hsize hcut h f hf)
  · intro h
    exact indexKept_of_le_one herr hsize hcut fun f hf => (piecesWith_le_one (contents f)).mpr
      (h f hf)

end

/-! ## Files -/

section
variable {c : UInt8}

theorem words_first (c : UInt8) :
    words asciiLetter (((apart c).drop (0 * mapInputSize)).take mapInputSize) = [[0x61]] := by
  obtain ⟨m, hm⟩ := Nat.exists_eq_add_of_le' (show 2 ≤ mapInputSize by decide)
  have hpiece : ((apart c).drop (0 * mapInputSize)).take mapInputSize =
      0x61 :: (List.replicate (m + 1) 0x20 ++ []) := by
    rw [Nat.zero_mul, List.drop_zero, apart, hm, List.take_succ_cons,
      List.take_append_of_le_length (by simp)]
    simp [List.take_replicate]
  rw [hpiece, words, fieldsFunc_eq, marks_ascii (by decide), marks_spaces,
    show asciiLetter (0x61 : UInt8).toNat = true from rfl, runs, runs_map_false (by simp),
    marks_nil]
  rfl

theorem words_second (hc : asciiLetter c.toNat = true) :
    words asciiLetter (((apart c).drop (1 * mapInputSize)).take mapInputSize) = [[c]] := by
  obtain ⟨m, hm⟩ := Nat.exists_eq_add_of_le' (show 2 ≤ mapInputSize by decide)
  have hpiece : ((apart c).drop (1 * mapInputSize)).take mapInputSize = List.replicate 1 0x20 ++
      [c] := by
    rw [Nat.one_mul, apart, hm, List.drop_succ_cons, List.drop_append_of_le_length (by simp),
      List.drop_replicate, show m + 2 - (m + 1) = 1 by omega, List.take_of_length_le (by simp)]
  rw [hpiece, words, fieldsFunc_eq, marks_spaces, runs_map_false (by simp),
    marks_ascii (lt_of_asciiLetter hc), marks_nil, hc]
  rfl

theorem words_rest (c : UInt8) {k : Nat} (hk : 2 ≤ k) :
    words asciiLetter (((apart c).drop (k * mapInputSize)).take mapInputSize) = [] := by
  have hmul : 2 * mapInputSize ≤ k * mapInputSize := Nat.mul_le_mul_right _ hk
  have hlarge : 2 ≤ mapInputSize := by decide
  rw [List.drop_eq_nil_of_le (by rw [apart_length]; omega), List.take_nil, words_nil]

end

/-- The word is in the first piece only. -/
theorem indexer_split_apart :
    IndexKept asciiLetter (fun _ => some (mapInputSize + 2)) [[0x66]] (fun _ => apart 0x62)
        [0x61] := by
  have hfirst : ∀ k, [0x61] ∈
      words asciiLetter (((apart 0x62).drop (k * mapInputSize)).take mapInputSize) → k = 0 := by
    intro k hk
    by_contra hne
    by_cases hone : k = 1
    · rw [hone, words_second (by decide)] at hk
      exact absurd hk (by decide)
    · rw [words_rest 0x62 (show 2 ≤ k by omega)] at hk
      cases hk
  have hiff := @indexer_split asciiLetter (fun _ => some (mapInputSize + 2)) [[0x66]]
    (fun _ => apart 0x62) rfl
    (fun _ _ => by rw [apart_length]) (fun _ _ => apart_not_inside (by decide)) [0x61]
  apply hiff.mpr
  intro f _ k k' hk hk'
  rw [hfirst k hk, hfirst k' hk']

/-- A word at the start of a file, spaces for 64 MiB, and the word again. -/
def farApart : GoString := apart 0x61

/-- The index counts the file twice. -/
theorem indexer_not_split :
    (∀ f ∈ [[0x66]], ∀ k, ¬ Inside asciiLetter ((fun _ => farApart) f) (k * mapInputSize)) ∧
    ¬ IndexKept asciiLetter (fun _ => some (mapInputSize + 2)) [[0x66]] (fun _ => farApart)
        [0x61] := by
  have hnot : ∀ k, ¬ Inside asciiLetter farApart (k * mapInputSize) := apart_not_inside (by decide)
  refine ⟨fun _ _ => hnot, fun h => ?_⟩
  have hone := @le_one_of_indexKept asciiLetter (fun _ => some (mapInputSize + 2)) [[0x66]]
    (fun _ => farApart) [0x61] rfl
    (fun _ _ => by rw [farApart, apart_length]) (fun _ _ => hnot) h [0x66] (by simp)
  have hsame := (piecesWith_le_one farApart).mp hone 0 1
    (by rw [farApart, words_first]; exact List.mem_singleton_self _)
    (by rw [farApart, words_second (by decide)]; exact List.mem_singleton_self _)
  cases hsame

end Csc412.MapReduce
