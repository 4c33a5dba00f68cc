import Mathlib.Algebra.BigOperators.Intervals
import Mathlib.Algebra.BigOperators.Group.Finset.Piecewise
import Mathlib.Algebra.Order.BigOperators.Group.Finset
import Csc412.Lib.Run
import Csc412.Voting.BallotBox

/-!
# The election result

Every vote is counted once, in whatever order the goroutines take the mutex, so the
ballot box holds the number of votes of each word when `main` stops waiting. The single
pass of `getWinner` then finds the maximum and whether two words share it.
-/

namespace Csc412.Voting

open Lib

/-! ## Every vote is counted -/

def Steps (votes : List String) (s : State) (l : Label) (s' : State) : Prop :=
  step votes s l = some s'

def Pc.holds : Pc → Bool
  | .read | .write _ | .unlock => true
  | _ => false

def Pc.voted : Pc → Bool
  | .unlock | .done | .returned => true
  | _ => false

def Pc.waits : Pc → Bool
  | .unborn | .returned => false
  | _ => true

/-- The votes for `w` that have been written. -/
def cast (votes : List String) (pc : Nat → Pc) (w : String) : Int :=
  ∑ k ∈ Finset.range votes.length, if (pc k).voted = true ∧ votes[k]? = some w then 1 else 0

def waiting (votes : List String) (pc : Nat → Pc) : Int :=
  ∑ k ∈ Finset.range votes.length, if (pc k).waits = true then 1 else 0

structure Inv (votes : List String) (box : Box) (s : State) : Prop where
  launched : s.launched ≤ votes.length
  unborn : ∀ k, s.pc k = .unborn ↔ s.launched ≤ k
  mutex : ∀ k, (s.pc k).holds = true ↔ s.mutex = some k
  read : ∀ k v w, s.pc k = .write v → votes[k]? = some w → v = s.ballotBox w
  counted : ∀ w, s.ballotBox w = box w + cast votes s.pc w
  waits : s.waitGroup = waiting votes s.pc

section
variable {votes : List String} {box : Box} {s s' : State} {l : Label} {k : Nat} {word : String}

theorem sum_update (pc : Nat → Pc) {n : Nat} (hk : k < n) (p : Pc) (g : Nat → Pc → Int) :
    ∑ j ∈ Finset.range n, g j (Function.update pc k p j) = ∑ j ∈ Finset.range n,
    g j (pc j) - g k (pc k) + g k p := by
  have hmem : k ∈ Finset.range n := Finset.mem_range.mpr hk
  have hrest : ∑ j ∈ (Finset.range n).erase k, g j (Function.update pc k p j) =
      ∑ j ∈ (Finset.range n).erase k, g j (pc j) := by
    apply Finset.sum_congr rfl
    intro j hj
    rw [Function.update_of_ne (Finset.ne_of_mem_erase hj)]
  rw [← Finset.add_sum_erase _ _ hmem, ← Finset.add_sum_erase _ _ hmem, hrest, Function.update_self]
  omega

theorem cast_update (hw : votes[k]? = some word) (pc : Nat → Pc) (p : Pc) (w : String) :
    cast votes (Function.update pc k p) w = cast votes pc w +
      if word = w then (if p.voted then 1 else 0) - (if (pc k).voted then 1 else 0) else 0 := by
  have hk : k < votes.length := (List.getElem?_eq_some_iff.mp hw).1
  unfold cast
  rw [sum_update pc hk p fun j p => if p.voted = true ∧ votes[j]? = some w then 1 else 0]
  simp only [hw, Option.some.injEq]
  by_cases hww : word = w
  · simp only [hww, and_true, if_true]
    omega
  · simp [hww]

theorem waiting_update (hk : k < votes.length) (pc : Nat → Pc) (p : Pc) :
    waiting votes (Function.update pc k p) =
        waiting votes pc + ((if p.waits then 1 else 0) - if (pc k).waits then 1 else 0) := by
  unfold waiting
  rw [sum_update pc hk p fun _ p => if p.waits = true then 1 else 0]
  omega

theorem castVote_cases (h : castVote s k word = some s') :
    (s.pc k = .lock ∧ s.mutex = none ∧
      s' = { s with mutex := some k, pc := Function.update s.pc k .read }) ∨
    (s.pc k = .read ∧ s' = { s with pc := Function.update s.pc k (.write (s.ballotBox word)) }) ∨
    (∃ v, s.pc k = .write v ∧
      s' = { s with ballotBox := Function.update s.ballotBox word (v + 1),
                    pc := Function.update s.pc k .unlock }) ∨
    (s.pc k = .unlock ∧ s' = { s with mutex := none, pc := Function.update s.pc k .done }) ∨
    (s.pc k = .done ∧ s' = { s with
        waitGroup := s.waitGroup - 1, pc := Function.update s.pc k .returned }) := by
  unfold castVote at h
  split at h
  · cases h
  · cases h
  · rename_i hp
    split at h <;> cases h
    rename_i hm
    exact .inl ⟨hp, hm, rfl⟩
  · rename_i hp
    cases h
    exact .inr (.inl ⟨hp, rfl⟩)
  · rename_i v hp
    cases h
    exact .inr (.inr (.inl ⟨v, hp, rfl⟩))
  · rename_i hp
    cases h
    exact .inr (.inr (.inr (.inl ⟨hp, rfl⟩)))
  · rename_i hp
    cases h
    exact .inr (.inr (.inr (.inr ⟨hp, rfl⟩)))

theorem Inv.unborn_update (h : Inv votes box s) (hk : s.pc k ≠ .unborn) {p : Pc} (hp : p ≠ .unborn)
    (j : Nat) :
    Function.update s.pc k p j = .unborn ↔ s.launched ≤ j := by
  rw [← h.unborn, Function.update_apply]
  split
  · rename_i hj
    rw [hj]
    exact iff_of_false hp hk
  · rfl

theorem Inv.mutex_update (h : Inv votes box s) {p : Pc} (hp : p.holds = (s.pc k).holds) (j : Nat) :
    (Function.update s.pc k p j).holds = true ↔ s.mutex = some j := by
  rw [← h.mutex, Function.update_apply]
  split
  · rename_i hj
    rw [hj, hp]
  · rfl

theorem Inv.holder (h : Inv votes box s) {i j : Nat} (hi : (s.pc i).holds = true)
    (hj : (s.pc j).holds = true) : i = j := by
  have hmi := (h.mutex i).mp hi
  have hmj := (h.mutex j).mp hj
  rw [hmi] at hmj
  exact Option.some.inj hmj

theorem Inv.read_update (h : Inv votes box s) {p : Pc} (hp : ∀ v, p ≠ .write v) (j : Nat) (v : Int)
    (w : String) (hj : Function.update s.pc k p j = .write v) (hw : votes[j]? = some w) :
    v = s.ballotBox w := by
  rw [Function.update_apply] at hj
  split at hj
  · exact absurd hj (hp v)
  · exact h.read j v w hj hw

theorem Inv.act (h : Inv votes box s) (hw : votes[k]? = some word)
    (hs : castVote s k word = some s') :
    Inv votes box s' := by
  have hk : k < votes.length := (List.getElem?_eq_some_iff.mp hw).1
  rcases castVote_cases hs with ⟨hp, hm, rfl⟩ | ⟨hp, rfl⟩ | ⟨v, hp, rfl⟩ | ⟨hp, rfl⟩ | ⟨hp, rfl⟩
  · refine ⟨h.launched, h.unborn_update (by simp [hp]) (by simp), fun j => ?_,
      h.read_update (by simp), fun w => ?_, ?_⟩
    · simp only [Function.update_apply]
      split
      · rename_i hj
        simp [hj, Pc.holds]
      · rename_i hj
        rw [h.mutex j, hm]
        simp [Ne.symm hj]
    · simpa [cast_update hw, hp, Pc.voted] using h.counted w
    · simpa [waiting_update hk, hp, Pc.waits] using h.waits
  · refine ⟨h.launched, h.unborn_update (by simp [hp]) (by simp),
      h.mutex_update (by simp [hp, Pc.holds]),
      fun j v w hj hjw => ?_, fun w => ?_, ?_⟩
    · simp only [Function.update_apply] at hj
      split at hj
      · rename_i hjk
        rw [hjk, hw] at hjw
        cases hj
        cases hjw
        rfl
      · exact h.read j v w hj hjw
    · simpa [cast_update hw, hp, Pc.voted] using h.counted w
    · simpa [waiting_update hk, hp, Pc.waits] using h.waits
  · refine ⟨h.launched, h.unborn_update (by simp [hp]) (by simp),
      h.mutex_update (by simp [hp, Pc.holds]),
      fun j v' w hj hjw => ?_, fun w => ?_, ?_⟩
    · -- nobody else has read the ballot box
      simp only [Function.update_apply] at hj
      split at hj
      · cases hj
      · rename_i hjk
        exact absurd (h.holder (by simp [hj, Pc.holds]) (by simp [hp, Pc.holds])) hjk
    · have hv := h.read k v word hp hw
      have hc := h.counted w
      simp only [cast_update hw, hp, Function.update_apply]
      by_cases hww : w = word
      · rw [if_pos hww, if_pos hww.symm]
        rw [← hww] at hv
        simp only [Pc.voted]
        simp
        omega
      · rw [if_neg hww, if_neg (Ne.symm hww)]
        omega
    · simpa [waiting_update hk, hp, Pc.waits] using h.waits
  · refine ⟨h.launched, h.unborn_update (by simp [hp]) (by simp), fun j => ?_,
      h.read_update (by simp), fun w => ?_, ?_⟩
    · simp only [Function.update_apply]
      split
      · simp [Pc.holds]
      · rename_i hjk
        refine iff_of_false (fun hj => ?_) (by simp)
        exact hjk (h.holder hj (by simp [hp, Pc.holds]))
    · simpa [cast_update hw, hp, Pc.voted] using h.counted w
    · simpa [waiting_update hk, hp, Pc.waits] using h.waits
  · refine ⟨h.launched, h.unborn_update (by simp [hp]) (by simp),
      h.mutex_update (by simp [hp, Pc.holds]),
      h.read_update (by simp), fun w => ?_, ?_⟩
    · simpa [cast_update hw, hp, Pc.voted] using h.counted w
    · have hwaits := h.waits
      simp only [waiting_update hk, hp, Pc.waits, if_true]
      simp
      omega

theorem Inv.step (h : Inv votes box s) (hs : Steps votes s l s') : Inv votes box s' := by
  unfold Steps Voting.step at hs
  cases l with
  | launch =>
    simp only at hs
    split at hs <;> cases hs
    rename_i hlt
    have hp : s.pc s.launched = .unborn := (h.unborn _).mpr (Nat.le_refl _)
    have hw : votes[s.launched]? = some votes[s.launched] := List.getElem?_eq_getElem hlt
    refine ⟨hlt, fun j => ?_, h.mutex_update (by simp [hp, Pc.holds]), h.read_update (by simp),
      fun w => ?_, ?_⟩
    · simp only [Function.update_apply]
      split
      · rename_i hj
        simp [hj]
      · rename_i hj
        rw [h.unborn j]
        omega
    · simpa [cast_update hw, hp, Pc.voted] using h.counted w
    · have hwaits := h.waits
      simp only [waiting_update hlt, hp, Pc.waits, if_true]
      simp
      omega
  | act k =>
    obtain ⟨word, hw, hs⟩ := Option.bind_eq_some_iff.mp hs
    exact h.act hw hs

theorem inv_start (votes : List String) (box : Box) : Inv votes box (start box) := by
  refine ⟨Nat.zero_le _, fun k => ?_, fun k => ?_, fun k v w hk => ?_, fun w => ?_, ?_⟩
  · exact iff_of_true rfl (Nat.zero_le k)
  · simp [start, Pc.holds]
  · cases hk
  · simp [start, cast, Pc.voted]
  · simp [start, waiting, Pc.waits]

theorem sum_votes (votes : List String) (w : String) :
    ∑ k ∈ Finset.range votes.length, (if votes[k]? = some w then 1 else 0 : Int) =
        votes.count w := by
  induction votes using List.reverseRecOn with
  | nil => rfl
  | append_singleton votes v ih =>
    have hinit : ∀ k ∈ Finset.range votes.length,
      (if (votes ++ [v])[k]? = some w then 1 else 0 : Int) =
        if votes[k]? = some w then 1 else 0 := by
      intro k hk
      rw [List.getElem?_append_left (Finset.mem_range.mp hk)]
    rw [List.length_append, List.length_singleton, Finset.sum_range_succ,
      Finset.sum_congr rfl hinit, ih]
    by_cases hv : v = w
    · simp [hv]
    · simp [hv]

theorem Inv.all_returned (h : Inv votes box s) (hwait : s.waited votes) (k : Nat)
    (hk : k < votes.length) :
    s.pc k = .returned := by
  obtain ⟨hl, hg⟩ := hwait
  have hzero : waiting votes s.pc = 0 := by rw [← h.waits, hg]
  have hnonneg : ∀ j ∈ Finset.range votes.length, (0 : Int) ≤ if (s.pc j).waits = true then 1
      else 0 := by
    intro j _
    split <;> decide
  have hj := (Finset.sum_eq_zero_iff_of_nonneg hnonneg).mp hzero k (Finset.mem_range.mpr hk)
  have hborn : s.pc k ≠ .unborn := fun hu => by
    have := (h.unborn k).mp hu
    omega
  cases hp : s.pc k with
  | unborn => exact absurd hp hborn
  | returned => rfl
  | _ =>
    rw [hp] at hj
    cases hj

theorem Inv.result (h : Inv votes box s) (hwait : s.waited votes) (w : String) :
    s.ballotBox w = box w + votes.count w := by
  rw [h.counted w, cast, ← sum_votes]
  congr 1
  apply Finset.sum_congr rfl
  intro k hk
  rw [h.all_returned hwait k (Finset.mem_range.mp hk)]
  simp [Pc.voted]

theorem resetBallotBox_eq (words : List String) (box : Box) (w : String) :
    resetBallotBox words box w = if w ∈ words then 0 else box w := by
  unfold resetBallotBox
  induction words generalizing box with
  | nil => simp
  | cons word words ih =>
    rw [List.foldl_cons, ih]
    by_cases hw : w = word
    · simp [hw]
    · simp [hw]

theorem ballotBox_run {words : List String} {ls : List Label}
    (hr : Run (Steps votes) (start (resetBallotBox words box)) ls s) (hwait : s.waited votes)
    {w : String} (hw : w ∈ words) :
    s.ballotBox w = votes.count w := by
  have hinv : Inv votes (resetBallotBox words box) s :=
    hr.invariant (I := Inv votes _) Inv.step (inv_start votes _)
  rw [hinv.result hwait, resetBallotBox_eq, if_pos hw, Int.zero_add]

end

/-! ## The pass of `getWinner` -/

section
variable {box : Box} {words : List String} {c : Count} {w : String}

/-- What the loop knows after the words `ws`. Until the first vote is met, `tied` only
says that there was a word. -/
structure Passed (box : Box) (ws : List String) (c : Count) : Prop where
  le : ∀ w ∈ ws, box w ≤ c.maxVotes
  nonneg : 0 ≤ c.maxVotes
  winner : 0 < c.maxVotes → c.winner ∈ ws ∧ box c.winner = c.maxVotes
  tied : 0 < c.maxVotes → (c.tied = true ↔ ∃ w ∈ ws, w ≠ c.winner ∧ box w = c.maxVotes)

theorem Passed.word (h : Passed box words c) (hw : w ∉ words) :
    Passed box (words ++ [w]) (countWord box c w) := by
  unfold countWord
  split
  · rename_i hlt
    have hpos : 0 < box w := Int.lt_of_le_of_lt h.nonneg hlt
    refine ⟨fun u hu => ?_, Int.le_of_lt hpos, fun _ => ⟨by simp, rfl⟩, fun _ => ?_⟩
    · rcases List.mem_append.mp hu with hu | hu
      · exact Int.le_of_lt (Int.lt_of_le_of_lt (h.le u hu) hlt)
      · rw [List.mem_singleton.mp hu]
    · refine iff_of_false (by simp) ?_
      rintro ⟨u, hu, hne, heq⟩
      simp only [List.mem_append, List.mem_singleton] at hu
      have hle := h.le u (hu.resolve_right hne)
      simp only at heq
      omega
  · rename_i hlt
    have hle : ∀ u ∈ words ++ [w], box u ≤ c.maxVotes := by
      intro u hu
      rcases List.mem_append.mp hu with hu | hu
      · exact h.le u hu
      · rw [List.mem_singleton.mp hu]
        omega
    split
    · rename_i heq
      refine ⟨hle, h.nonneg, fun hpos => ?_, fun hpos => ?_⟩
      · obtain ⟨hmem, hmax⟩ := h.winner hpos
        exact ⟨List.mem_append_left _ hmem, hmax⟩
      · refine iff_of_true rfl ⟨w, by simp, ?_, heq⟩
        rintro rfl
        exact hw (h.winner hpos).1
    · rename_i hne
      refine ⟨hle, h.nonneg, fun hpos => ?_, fun hpos => ?_⟩
      · obtain ⟨hmem, hmax⟩ := h.winner hpos
        exact ⟨List.mem_append_left _ hmem, hmax⟩
      · rw [h.tied hpos]
        constructor
        · rintro ⟨u, hu, hrest⟩
          exact ⟨u, List.mem_append_left _ hu, hrest⟩
        · rintro ⟨u, hu, hrest⟩
          rcases List.mem_append.mp hu with hu | hu
          · exact ⟨u, hu, hrest⟩
          · rw [List.mem_singleton.mp hu] at hrest
            exact absurd hrest.2 hne

theorem passed_all (hnd : words.Nodup) :
    Passed box words (words.foldl (countWord box) ⟨0, "None", false⟩) := by
  induction words using List.reverseRecOn with
  | nil =>
    exact ⟨by simp, Int.le_refl 0, fun h => absurd h (Int.lt_irrefl 0),
      fun h => absurd h (Int.lt_irrefl 0)⟩
  | append_singleton ws w ih =>
    rw [List.foldl_append]
    have hsplit := List.nodup_append.mp hnd
    refine (ih hsplit.1).word fun hmem => ?_
    exact hsplit.2.2 w hmem w (by simp) rfl

theorem getWinner_untied (hnd : words.Nodup) (hpos : ∃ u ∈ words, 0 < box u) {n : Int} :
    getWinner words box = (w, n, false) ↔ w ∈ words ∧ box w = n ∧ ∀ u ∈ words, u ≠ w →
    box u < n := by
  have hpass : Passed box words _ := passed_all hnd
  unfold getWinner
  generalize words.foldl (countWord box) ⟨0, "None", false⟩ = c at hpass
  obtain ⟨u₀, hu₀, hpos₀⟩ := hpos
  have hmax : 0 < c.maxVotes := Int.lt_of_lt_of_le hpos₀ (hpass.le u₀ hu₀)
  obtain ⟨hmem, heq⟩ := hpass.winner hmax
  have htied := hpass.tied hmax
  simp only [Prod.mk.injEq]
  constructor
  · rintro ⟨rfl, rfl, hf⟩
    refine ⟨hmem, heq, fun u hu hne => lt_of_le_of_ne (hpass.le u hu) fun hbu => ?_⟩
    have : c.tied = true := htied.mpr ⟨u, hu, hne, hbu⟩
    rw [hf] at this
    cases this
  · rintro ⟨hw, rfl, hlt⟩
    have hwin : c.winner = w := by
      by_contra hne
      have := hlt c.winner hmem hne
      have := hpass.le w hw
      omega
    subst hwin
    refine ⟨rfl, heq.symm, ?_⟩
    cases ht : c.tied with
    | false => rfl
    | true =>
      obtain ⟨u, hu, hne, hbu⟩ := htied.mp ht
      have := hlt u hu hne
      omega

theorem getWinner_tied (hnd : words.Nodup) (hpos : ∃ u ∈ words, 0 < box u) :
    (getWinner words box).2.2 = true ↔
    ∃ u ∈ words, ∃ v ∈ words, u ≠ v ∧ box u = box v ∧ ∀ x ∈ words, box x ≤ box u := by
  have hpass : Passed box words _ := passed_all hnd
  unfold getWinner
  generalize words.foldl (countWord box) ⟨0, "None", false⟩ = c at hpass
  obtain ⟨u₀, hu₀, hpos₀⟩ := hpos
  have hmax : 0 < c.maxVotes := Int.lt_of_lt_of_le hpos₀ (hpass.le u₀ hu₀)
  obtain ⟨hmem, heq⟩ := hpass.winner hmax
  show c.tied = true ↔ _
  rw [hpass.tied hmax]
  constructor
  · rintro ⟨u, hu, hne, hbu⟩
    exact ⟨u, hu, c.winner, hmem, hne, hbu.trans heq.symm, fun x hx => hbu ▸ hpass.le x hx⟩
  · rintro ⟨u, hu, v, hv, hne, huv, hall⟩
    have hcu : box u = c.maxVotes := Int.le_antisymm (hpass.le u hu) (heq ▸ hall _ hmem)
    by_cases hw : u = c.winner
    · exact ⟨v, hv, fun h => hne (hw.trans h.symm), huv.symm.trans hcu⟩
    · exact ⟨u, hu, hw, hcu⟩

end

/-! ## The election -/

/-- The result after the votes `votes`, all of them counted in `ballotBox`. -/
structure Elected (words votes : List String) (ballotBox : Box) : Prop where
  winner : ∀ w, getWinner words ballotBox = (w, (votes.count w : Int), false) ↔
    w ∈ words ∧ ∀ u ∈ words, u ≠ w → votes.count u < votes.count w
  tied : (getWinner words ballotBox).2.2 = true ↔
    ∃ u ∈ words, ∃ v ∈ words, u ≠ v ∧ votes.count u = votes.count v ∧ ∀ x ∈ words,
    votes.count x ≤ votes.count u
  -- the votes in any other order, cast from any other ballot box
  order : ∀ votes' box ls s, votes'.Perm votes →
    Run (Steps votes') (start (resetBallotBox words box)) ls s →
    s.waited votes' → getWinner words s.ballotBox = getWinner words ballotBox

theorem getWinner_congr {words : List String} {box box' : Box} (h : ∀ w ∈ words, box w = box' w) :
    getWinner words box = getWinner words box' := by
  unfold getWinner
  have hfold : ∀ c, words.foldl (countWord box) c = words.foldl (countWord box') c := by
    intro c
    refine List.foldl_ext _ _ _ fun c w hw => ?_
    simp only [countWord, h w hw]
  rw [hfold]

theorem election_result {words votes : List String} {box : Box} {ls : List Label} {s : State}
    (hnd : words.Nodup) (hvotes : ∀ v ∈ votes, v ∈ words) (hne : votes ≠ [])
    (hr : Run (Steps votes) (start (resetBallotBox words box)) ls s) (hwait : s.waited votes) :
    Elected words votes s.ballotBox := by
  have hbox : ∀ w ∈ words, s.ballotBox w = votes.count w := fun w hw => ballotBox_run hr hwait hw
  have hpos : ∃ u ∈ words, 0 < s.ballotBox u := by
    obtain ⟨v, hv⟩ := List.exists_mem_of_ne_nil votes hne
    refine ⟨v, hvotes v hv, ?_⟩
    rw [hbox v (hvotes v hv)]
    exact_mod_cast List.count_pos_iff.mpr hv
  refine ⟨fun w => ?_, ?_, fun votes' box' ls' s' hperm hr' hwait' => ?_⟩
  · rw [getWinner_untied hnd hpos]
    constructor
    · rintro ⟨hw, -, hlt⟩
      refine ⟨hw, fun u hu huw => ?_⟩
      have := hlt u hu huw
      rw [hbox u hu] at this
      exact_mod_cast this
    · rintro ⟨hw, hlt⟩
      refine ⟨hw, hbox w hw, fun u hu huw => ?_⟩
      rw [hbox u hu]
      exact_mod_cast hlt u hu huw
  · rw [getWinner_tied hnd hpos]
    constructor
    · rintro ⟨u, hu, v, hv, huv, heq, hall⟩
      rw [hbox u hu, hbox v hv] at heq
      refine ⟨u, hu, v, hv, huv, by exact_mod_cast heq, fun x hx => ?_⟩
      have := hall x hx
      rw [hbox x hx, hbox u hu] at this
      exact_mod_cast this
    · rintro ⟨u, hu, v, hv, huv, heq, hall⟩
      refine ⟨u, hu, v, hv, huv, ?_, fun x hx => ?_⟩
      · rw [hbox u hu, hbox v hv, heq]
      · rw [hbox x hx, hbox u hu]
        exact_mod_cast hall x hx
  · refine getWinner_congr fun w hw => ?_
    rw [ballotBox_run hr' hwait' hw, hbox w hw, hperm.count_eq]

/-- Two of three votes are for "B"; the first goroutine is last to take the mutex. -/
def abTrace : List Label :=
  [.launch, .launch, .launch] ++ [2, 2, 2, 2, 1, 2, 1, 1, 1, 1, 0, 0, 0, 0, 0].map Label.act

theorem election_result_ab :
    ∃ s, Run (Steps ["A", "B", "B"]) (start (resetBallotBox ["A", "B", "C"] fun _ => 4)) abTrace s ∧
    getWinner ["A", "B", "C"] s.ballotBox = ("B", 2, false) := by
  obtain ⟨s, hs, hwait⟩ : ∃ s,
    abTrace.foldlM (step ["A", "B", "B"]) (start (resetBallotBox ["A", "B", "C"] fun _ => 4)) =
      some s ∧
      (s.launched = 3 ∧ s.waitGroup = 0) := ⟨_, rfl, rfl, rfl⟩
  have hr : Run (Steps ["A", "B", "B"]) (start (resetBallotBox ["A", "B", "C"] fun _ => 4)) abTrace
    s := Run.of_foldlM hs
  refine ⟨s, hr, ?_⟩
  have hres : Elected ["A", "B", "C"] ["A", "B", "B"] s.ballotBox :=
    election_result (by decide) (by decide) (by decide) hr hwait
  exact (hres.winner "B").mpr (by decide)

end Csc412.Voting
