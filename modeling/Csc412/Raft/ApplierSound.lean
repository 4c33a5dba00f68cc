import Csc412.Lib.Run
import Csc412.Raft.Applier

/-!
# What the apply checks promise

`checkLogs` compares a new entry with the logs of all servers, so recorded logs agree
as long as nothing that was recorded is forgotten. `ingestSnap` compares nothing: a
snapshot may take back entries that no other server has recorded, and a later one may
bring them back beside different ones.
-/

namespace Csc412.Raft

open Lib

section
variable {V B : Type}

/-! ## Agreement -/

/-- The recorded logs of `n` servers agree, and none of them has a gap. -/
structure Agreement (n : Nat) (s : Tester V B) : Prop where
  agree : ∀ i < n, ∀ i' < n, ∀ k ≥ 1, ∀ v v', s.logs i k = some v → s.logs i' k = some v' → v = v'
  closed : ∀ i < n, ∀ k > 1, (s.logs i k).isSome → (s.logs i (k - 1)).isSome

/-- A loop that has produced no error. -/
def LoopOk (s : Tester V B) (i : Nat) : Loop V B → Prop
  | .idle => True
  | .ordered m err => err = "" ∧ 1 ≤ m.commandIndex
  | .checked m err | .counted m err => err = "" ∧ 1 ≤ m.commandIndex ∧
    (s.logs i m.commandIndex).isSome
  | .ending err => err = ""

/-- What holds as long as there is no error. Every entry of a snapshot is still recorded. -/
structure Good (G : SnapGob V B) (n : Nat) (s : Tester V B) : Prop where
  logs : Agreement n s
  snapshots : ∀ p ∈ s.snapshots, ∃ xlog, G.decode p.2 = some (p.1, xlog) ∧ 1 ≤ p.1 ∧
    xlog.length = (p.1 + 1).toNat ∧
    ∀ j : Nat, 1 ≤ j → j < xlog.length → ∃ i < n, s.logs i j = xlog[j]?
  applied : ∀ i < n, 0 ≤ s.lastApplied i
  loops : ∀ i < n, LoopOk s i (s.loops i)

variable {G : SnapGob V B} {n i : Nat} {s s' : Tester V B}

/-- Without a gap, a log that has `k` has everything up to `k`. -/
theorem Agreement.below (h : Agreement n s) (hi : i < n) {k : Nat} (hk : (s.logs i k).isSome) :
    ∀ j : Nat, 1 ≤ j → j ≤ k → (s.logs i j).isSome := by
  induction k with
  | zero =>
    intro j hj hjk
    omega
  | succ k ih =>
    intro j hj hjk
    by_cases hjk' : j = k + 1
    · rw [hjk']
      exact hk
    · refine ih ?_ j hj (by omega)
      have hprev := h.closed i hi (k + 1 : Nat) (by omega) hk
      rwa [show ((k + 1 : Nat) : Int) - 1 = (k : Nat) by omega] at hprev

/-- What snapshots reach stays recorded, though maybe for another server. -/
def Kept (n : Nat) (s s' : Tester V B) : Prop :=
  ∀ p ∈ s.snapshots, ∀ i < n, ∀ k ≥ 1, k ≤ p.1 → ∀ v, s.logs i k = some v → ∃ i' < n,
    s'.logs i' k = some v

theorem Good.keep (h : Good G n s) (hk : Kept n s s') (hlogs : Agreement n s')
    (hs : s'.snapshots = s.snapshots) (ha : ∀ i < n, 0 ≤ s'.lastApplied i)
    (hl : ∀ i < n, LoopOk s' i (s'.loops i)) :
    Good G n s' := by
  refine ⟨hlogs, fun p hp => ?_, ha, hl⟩
  rw [hs] at hp
  obtain ⟨xlog, hdec, hpos, hlen, hentries⟩ := h.snapshots p hp
  refine ⟨xlog, hdec, hpos, hlen, fun j hj hlt => ?_⟩
  obtain ⟨i, hi, heq⟩ := hentries j hj hlt
  rw [List.getElem?_eq_getElem hlt] at heq ⊢
  exact hk p hp i hi j (by omega) (by omega) _ heq

theorem LoopOk.congr {l : Loop V B} (h : LoopOk s i l) (hs : s'.logs i = s.logs i) :
    LoopOk s' i l := by
  unfold LoopOk at h ⊢
  rw [hs]
  exact h

theorem Good.loop (h : Good G n s) {l : Loop V B} (hlogs : s'.logs = s.logs)
    (hs : s'.snapshots = s.snapshots) (ha : ∀ j < n, 0 ≤ s'.lastApplied j)
    (hl : s'.loops = Function.update s.loops i l) (hok : i < n → LoopOk s i l) :
    Good G n s' := by
  refine h.keep (fun _ _ j hj k _ _ v hv => ⟨j, hj, by rw [hlogs]; exact hv⟩) ?_ hs ha
    fun j hj => ?_
  · obtain ⟨h₁, h₂⟩ := h.logs
    exact ⟨by rw [hlogs]; exact h₁, by rw [hlogs]; exact h₂⟩
  · refine LoopOk.congr (s := s) ?_ (by rw [hlogs])
    rw [hl, Function.update_apply]
    split
    · rename_i hji
      rw [hji] at hj ⊢
      exact hok hj
    · exact h.loops j hj

/-! ## `checkLogs` -/

section
variable [DecidableEq V] [ToString V] {m : ApplyMsg V B}

theorem foldl_mismatch {α : Type} {f : String → α → String} {p : α → Prop} {l : List α}
    {err : String} (hbad : ∀ e a, p a → f e a ≠ "") (hgood : ∀ e a, ¬ p a → f e a = e)
    (h : l.foldl f err = "") :
    err = "" ∧ ∀ a ∈ l, ¬ p a := by
  induction l generalizing err with
  | nil => exact ⟨h, by simp⟩
  | cons a l ih =>
    obtain ⟨hfa, hrest⟩ := ih h
    have ha : ¬ p a := fun ha => hbad err a ha hfa
    rw [hgood err a ha] at hfa
    refine ⟨hfa, fun b hb => ?_⟩
    rcases List.mem_cons.mp hb with rfl | hb
    · exact ha
    · exact hrest b hb

theorem mismatch_spec (h : s.mismatch n i m = "") :
    ∀ j < n, ∀ old, s.logs j m.commandIndex = some old → old = m.command := by
  intro j hj old hold
  unfold Tester.mismatch at h
  have hfold := foldl_mismatch (p := fun j => ∃ old, s.logs j m.commandIndex = some old ∧
    old ≠ m.command) ?_ ?_ h
  · by_contra hne
    exact hfold.2 j (List.mem_range.mpr hj) ⟨old, hold, hne⟩
  · rintro e j ⟨old, hold, hne⟩
    simp only [hold, if_pos hne, ne_eq, String.append_eq_empty_iff, not_and]
    intro hempty
    simp at hempty
  · intro e j hj
    cases hl : s.logs j m.commandIndex with
    | none => rfl
    | some old =>
      simp only
      rw [if_neg fun hne => hj ⟨old, hl, hne⟩]

theorem outOfOrder_ne (i : Nat) (k : Int) : outOfOrder i k ≠ "" := by
  simp [outOfOrder]

theorem checkLogs_spec (h : (s.checkLogs n i m).1 = "") :
    (1 < m.commandIndex → (s.logs i (m.commandIndex - 1)).isSome) ∧
    ∀ j < n, ∀ old, s.logs j m.commandIndex = some old → old = m.command := by
  unfold Tester.checkLogs at h
  simp only at h
  split at h
  · exact absurd h (outOfOrder_ne _ _)
  · rename_i hprev
    refine ⟨fun hk => ?_, mismatch_spec h⟩
    by_contra hnone
    exact hprev ⟨hk, by simpa using hnone⟩

omit [DecidableEq V] [ToString V] in
theorem record_logs (s : Tester V B) (i : Nat) (m : ApplyMsg V B) (j : Nat) (k : Int) :
    (s.record i m).logs j k =
      if j = i ∧ k = m.commandIndex then some m.command else s.logs j k := by
  simp only [Tester.record, Function.update_apply]
  by_cases hj : j = i
  · simp only [hj, if_true, true_and, Function.update_apply]
  · simp [hj]

omit [DecidableEq V] [ToString V] in
theorem Agreement.record (h : Agreement n s)
    (hprev : 1 < m.commandIndex → (s.logs i (m.commandIndex - 1)).isSome)
    (hsame : ∀ j < n, ∀ old, s.logs j m.commandIndex = some old → old = m.command) :
    Agreement n (s.record i m) := by
  constructor
  · intro j hj j' hj' k hk v v' hv hv'
    rw [record_logs] at hv hv'
    split at hv
    · rename_i hjk
      cases hv
      split at hv'
      · cases hv'
        rfl
      · rw [hjk.2] at hv'
        exact (hsame j' hj' v' hv').symm
    · split at hv'
      · rename_i hjk'
        cases hv'
        rw [hjk'.2] at hv
        exact hsame j hj v hv
      · exact h.agree j hj j' hj' k hk v v' hv hv'
  · intro j hj k hk hsome
    rw [record_logs] at hsome ⊢
    split
    · rfl
    · split at hsome
      · rename_i hjk
        rw [hjk.1, hjk.2]
        exact hprev (hjk.2 ▸ hk)
      · exact h.closed j hj k hk hsome

omit [DecidableEq V] [ToString V] in
theorem kept_record (hsame : ∀ j < n, ∀ old, s.logs j m.commandIndex = some old → old = m.command) :
    Kept n s (s.record i m) := by
  intro p _ j hj k _ _ v hv
  refine ⟨j, hj, ?_⟩
  rw [record_logs]
  split
  · rename_i hjk
    rw [hjk.2] at hv
    rw [hsame j hj v hv]
  · exact hv

theorem Good.checkLogs (h : Good G n s) (herr : (s.checkLogs n i m).1 = "") {l : Loop V B}
    (hok : LoopOk (s.record i m) i l) : Good G n ((s.checkLogs n i m).2.setLoop i l) := by
  obtain ⟨hprev, hsame⟩ := checkLogs_spec herr
  have hrec := h.logs.record hprev hsame
  show Good G n ((s.record i m).setLoop i l)
  refine h.keep (kept_record hsame) ⟨hrec.agree, hrec.closed⟩ rfl h.applied fun j hj => ?_
  show LoopOk _ j (Function.update s.loops i l j)
  rw [Function.update_apply]
  split
  · rename_i hji
    rw [hji]
    exact hok
  · rename_i hji
    refine LoopOk.congr (h.loops j hj) ?_
    funext k
    show (s.record i m).logs j k = _
    rw [record_logs, if_neg fun hjk => hji hjk.1]

end

/-! ## Snapshots -/

/-- Before a snapshot takes entries of server `i` back, another server has recorded
them, as far as some snapshot reaches. -/
def Covered (n : Nat) (s : Tester V B) : Apply V B → Prop
  | .deliver i true m => m.snapshotValid = true → ∀ p ∈ s.snapshots, ∀ k, m.snapshotIndex < k →
  k ≤ p.1 →
      (s.logs i k).isSome → ∃ i' < n, i' ≠ i ∧ (s.logs i' k).isSome
  | _ => True

theorem Agreement.of_recorded (h : Agreement n s)
    (hrec : ∀ i < n, ∀ k ≥ 1, ∀ v, s'.logs i k = some v → ∃ i' < n, s.logs i' k = some v)
    (hclosed : ∀ i < n, ∀ k > 1, (s'.logs i k).isSome → (s'.logs i (k - 1)).isSome) :
    Agreement n s' := by
  refine ⟨fun i hi i' hi' k hk v v' hv hv' => ?_, hclosed⟩
  obtain ⟨j, hj, hjv⟩ := hrec i hi k hk v hv
  obtain ⟨j', hj', hjv'⟩ := hrec i' hi' k hk v' hv'
  exact h.agree j hj j' hj' k hk v v' hjv hjv'

theorem restored_isSome (xlog : List (Option V)) {k : Int} (hk : 0 ≤ k) :
    (Tester.restored xlog k).isSome ↔ k.toNat < xlog.length := by
  simp [Tester.restored, hk]

theorem Good.restore (h : Good G n s) {p : Int × B} {xlog : List (Option V)} (hpos : 1 ≤ p.1)
    (hlen : xlog.length = (p.1 + 1).toNat)
    (hentries : ∀ j : Nat, 1 ≤ j → j < xlog.length → ∃ i < n, s.logs i j = xlog[j]?)
    (hcov : ∀ q ∈ s.snapshots, ∀ k, p.1 < k → k ≤ q.1 → (s.logs i k).isSome → ∃ i' < n, i' ≠ i ∧
      (s.logs i' k).isSome) :
    Good G n ({ s with
      logs := Function.update s.logs i (Tester.restored xlog)
      lastApplied := Function.update s.lastApplied i p.1 }.setLoop i (.ending "")) := by
  have hback : ∀ k ≥ 1, k.toNat < xlog.length → ∃ j < n, s.logs j k = Tester.restored xlog k := by
    intro k hk hlt
    obtain ⟨j, hj, heq⟩ := hentries k.toNat (by omega) hlt
    rw [Int.toNat_of_nonneg (by omega)] at heq
    refine ⟨j, hj, ?_⟩
    rw [heq, Tester.restored, if_pos (by omega)]
  refine h.keep ?_ (h.logs.of_recorded ?_ ?_) rfl ?_ ?_
  · intro q hq j hj k hk hkq v hv
    by_cases hji : j = i
    · subst hji
      by_cases hkp : k ≤ p.1
      · obtain ⟨j', hj', heq⟩ := hback k hk (by omega)
        have hsome := (restored_isSome xlog (k := k) (by omega)).mpr (by omega)
        obtain ⟨w, hw⟩ := Option.isSome_iff_exists.mp hsome
        refine ⟨j, hj, ?_⟩
        show Function.update s.logs j (Tester.restored xlog) j k = some v
        rw [Function.update_self, hw, h.logs.agree j' hj' j hj k hk w v (heq.trans hw) hv]
      · obtain ⟨j', hj', hne, hsome⟩ := hcov q hq k (by omega) hkq (by rw [hv]; rfl)
        obtain ⟨w, hw⟩ := Option.isSome_iff_exists.mp hsome
        refine ⟨j', hj', ?_⟩
        show Function.update s.logs j (Tester.restored xlog) j' k = some v
        rw [Function.update_of_ne hne, hw, h.logs.agree j' hj' j hj k hk w v hw hv]
    · refine ⟨j, hj, ?_⟩
      show Function.update s.logs i (Tester.restored xlog) j k = some v
      rw [Function.update_of_ne hji]
      exact hv
  · intro j hj k hk v hv
    change Function.update s.logs i (Tester.restored xlog) j k = some v at hv
    by_cases hji : j = i
    · rw [hji, Function.update_self] at hv
      have hlt := (restored_isSome xlog (k := k) (by omega)).mp (by rw [hv]; rfl)
      obtain ⟨j', hj', heq⟩ := hback k hk hlt
      exact ⟨j', hj', heq.trans hv⟩
    · rw [Function.update_of_ne hji] at hv
      exact ⟨j, hj, hv⟩
  · intro j hj k hk hsome
    change (Function.update s.logs i (Tester.restored xlog) j k).isSome at hsome
    show (Function.update s.logs i (Tester.restored xlog) j (k - 1)).isSome
    by_cases hji : j = i
    · rw [hji, Function.update_self] at hsome ⊢
      rw [restored_isSome _ (by omega)] at hsome ⊢
      omega
    · rw [Function.update_of_ne hji] at hsome ⊢
      exact h.logs.closed j hj k hk hsome
  · intro j hj
    show 0 ≤ Function.update s.lastApplied i p.1 j
    rw [Function.update_apply]
    split
    · omega
    · exact h.applied j hj
  · intro j hj
    show LoopOk _ j (Function.update s.loops i (.ending "") j)
    by_cases hji : j = i
    · rw [hji, Function.update_self]
      rfl
    · rw [Function.update_of_ne hji]
      refine (h.loops j hj).congr ?_
      show Function.update s.logs i (Tester.restored xlog) j = s.logs j
      rw [Function.update_of_ne hji]

theorem takeSnapshot_getElem? (s : Tester V B) (i j : Nat) (k : Int) (hj : (j : Int) ≤ k)
    (hsome : (s.logs i j).isSome) :
    (s.takeSnapshot i k)[j]? = s.logs i j := by
  obtain ⟨v, hv⟩ := Option.isSome_iff_exists.mp hsome
  have hlt : j < (k + 1).toNat := by omega
  simp [Tester.takeSnapshot, hlt, hv]

theorem Good.snapshot (hG : G.Lawful) (h : Good G n s) (hi : i < n) {k : Int} (hk : 1 ≤ k)
    (hsome : (s.logs i k).isSome) :
    Good G n ({ s with snapshots := s.snapshots ++ [(k, G.encode k (s.takeSnapshot i k))] }.setLoop
        i (.ending "")) := by
  refine ⟨⟨h.logs.agree, h.logs.closed⟩, fun p hp => ?_, h.applied, fun j hj => ?_⟩
  · rcases List.mem_append.mp hp with hp | hp
    · exact h.snapshots p hp
    · rw [List.mem_singleton.mp hp]
      have hlen : (s.takeSnapshot i k).length = (k + 1).toNat := by simp [Tester.takeSnapshot]
      refine ⟨s.takeSnapshot i k, hG _ _, hk, hlen, fun j hj hlt => ⟨i, hi, ?_⟩⟩
      rw [← Int.toNat_of_nonneg (by omega : 0 ≤ k)] at hsome
      exact (takeSnapshot_getElem? s i j k (by omega) (h.logs.below hi hsome j hj (by omega))).symm
  · show LoopOk s j (Function.update s.loops i (.ending "") j)
    rw [Function.update_apply]
    split
    · rfl
    · exact h.loops j hj

/-! ## Steps and runs -/

theorem produce_errors {err : String} (h : (s.produce err).errors = []) :
    s.errors = [] ∧ err = "" := by
  unfold Tester.produce at h
  split at h
  · rename_i herr
    exact ⟨h, herr⟩
  · simp at h

theorem produce_empty (s : Tester V B) : s.produce "" = s := rfl

theorem ingestSnap_good (h : Good G n s) {p : Int × B} (hp : p ∈ s.snapshots)
    (hcov : ∀ q ∈ s.snapshots, ∀ k, p.1 < k → k ≤ q.1 → (s.logs i k).isSome → ∃ i' < n, i' ≠ i ∧
      (s.logs i' k).isSome) :
    (s.ingestSnap G i (some p.2) p.1).1 = "" ∧ Good G n
    ((s.ingestSnap G i (some p.2) p.1).2.setLoop i (.ending "")) := by
  obtain ⟨xlog, hdec, hpos, hlen, hentries⟩ := h.snapshots p hp
  simp only [Tester.ingestSnap, hdec, ne_eq, not_true, and_false, if_false, true_and]
  exact h.restore hpos hlen hentries hcov

theorem makeTester_good : Good G n (makeTester : Tester V B) := by
  refine ⟨⟨?_, ?_⟩, ?_, ?_, ?_⟩ <;> simp [makeTester, LoopOk]

section
variable [DecidableEq V] [ToString V] {m : ApplyMsg V B}

theorem deliver_good {snap : Bool} (hi : i < n) (h : s.errors = [] → Good G n s)
    (hfrom : snap = true → m.snapshotValid = true → ∃ p ∈ s.snapshots, m.snapshot = some p.2 ∧
      m.snapshotIndex = p.1)
    (hcov : Covered n s (.deliver i snap m)) (herr : (s.deliver G n i snap m).errors = []) :
    Good G n (s.deliver G n i snap m) := by
  unfold Tester.deliver at herr ⊢
  by_cases hsnap : snap = true
  · subst hsnap
    by_cases hvalid : m.snapshotValid = true
    · obtain ⟨p, hp, hm, hidx⟩ := hfrom rfl hvalid
      simp only [hvalid, if_true, hm, hidx] at herr ⊢
      obtain ⟨hs, hempty⟩ := produce_errors herr
      have hs' : s.errors = [] := by
        unfold Tester.ingestSnap at hs
        split at hs
        · exact hs
        · split at hs
          · exact hs
          · split at hs <;> exact hs
      obtain ⟨-, hgood⟩ := ingestSnap_good (i := i) (h hs') hp
        (by simpa only [Covered, hidx] using hcov hvalid)
      rw [hempty, produce_empty]
      exact hgood
    · simp only [hvalid, if_true] at herr ⊢
      by_cases hcmd : m.commandValid = true
      · simp only [hcmd, if_true] at herr ⊢
        obtain ⟨hs, hempty⟩ := produce_errors herr
        rw [hempty, produce_empty]
        refine (h hs).loop rfl rfl (h hs).applied rfl fun _ => ⟨rfl, ?_⟩
        by_cases hnext : m.commandIndex = s.lastApplied i + 1
        · have := (h hs).applied i hi
          omega
        · rw [if_pos hnext] at hempty
          simp at hempty
      · simp only [hcmd] at herr ⊢
        exact h herr
  · simp only [hsnap] at herr ⊢
    by_cases hcmd : m.commandValid = true
    · simp only [hcmd, if_true] at herr ⊢
      obtain ⟨hs, hempty⟩ := produce_errors herr
      rw [hempty, produce_empty]
      exact (h hs).checkLogs hempty rfl
    · simp only [hcmd] at herr ⊢
      exact h herr

theorem advance_good (hG : G.Lawful) (hi : i < n) (h : s.errors = [] → Good G n s)
    (ha : s.advance G n i = some s') (herr : s'.errors = []) : Good G n s' := by
  unfold Tester.advance at ha
  cases hl : s.loops i with
  | idle => simp [hl] at ha
  | ordered m err =>
    simp only [hl] at ha
    by_cases hempty : err = ""
    · simp only [hempty, if_true, Option.some.injEq] at ha
      subst ha
      obtain ⟨hs, hnone⟩ := produce_errors herr
      have hok := (h hs).loops i hi
      rw [hl] at hok
      rw [hnone, produce_empty]
      exact (h hs).checkLogs hnone ⟨rfl, hok.2, by rw [record_logs, if_pos ⟨rfl, rfl⟩]; rfl⟩
    · simp only [hempty, if_false, Option.some.injEq] at ha
      subst ha
      have hok := (h herr).loops i hi
      rw [hl] at hok
      exact absurd hok.1 hempty
  | checked m err =>
    simp only [hl, Option.some.injEq] at ha
    subst ha
    have hok := (h herr).loops i hi
    rw [hl] at hok
    refine (h herr).loop rfl rfl (fun j hj => ?_) rfl fun _ => hok
    show 0 ≤ Function.update s.lastApplied i m.commandIndex j
    rw [Function.update_apply]
    split
    · have := hok.2.1
      omega
    · exact (h herr).applied j hj
  | counted m err =>
    simp only [hl] at ha
    have hs : s.errors = [] := by
      split at ha <;> simp only [Option.some.injEq] at ha <;> subst ha <;> exact herr
    have hok := (h hs).loops i hi
    rw [hl] at hok
    rw [hok.1] at ha
    split at ha
    · simp only [Option.some.injEq] at ha
      subst ha
      exact (h hs).snapshot hG hi hok.2.1 hok.2.2
    · simp only [Option.some.injEq] at ha
      subst ha
      exact (h hs).loop rfl rfl (h hs).applied rfl fun _ => rfl
  | ending err =>
    simp only [hl, Option.some.injEq] at ha
    have hs : s.errors = [] := by
      split at ha <;> subst ha <;> exact herr
    have hok := (h hs).loops i hi
    rw [hl] at hok
    rw [if_pos (show err = "" from hok)] at ha
    subst ha
    exact (h hs).loop rfl rfl (h hs).applied rfl fun _ => trivial

variable [DecidableEq B]

theorem step_good (hG : G.Lawful) {l : Apply V B} (h : s.errors = [] → Good G n s)
    (hstep : s.step G n l = some s') (hcov : Covered n s l) : s'.errors = [] → Good G n s' := by
  intro herr
  cases l with
  | deliver i snap m =>
    simp only [Tester.step] at hstep
    split at hstep
    · split at hstep
      · rename_i hm
        simp only [Option.some.injEq] at hstep
        subst hstep
        exact deliver_good hm.1 h hm.2 hcov herr
      · simp at hstep
    · simp at hstep
  | advance i =>
    simp only [Tester.step] at hstep
    split at hstep
    · rename_i hi
      exact advance_good hG hi.2 h hstep herr
    · simp at hstep

/-- If no snapshot takes back an entry that a snapshot reaches and nobody else has
recorded, then without an error the recorded logs agree and have no gap. -/
theorem apply_checks_sound (hG : G.Lawful) {ls : List (Apply V B)}
    (hr : Run (fun s l s' => s.step G n l = some s' ∧ Covered n s l) makeTester ls s)
    (herr : s.errors = []) :
    Agreement n s := by
  have hinv : s.errors = [] → Good G n s :=
    Run.invariant (I := fun s => s.errors = [] → Good G n s) (fun h hs => step_good hG h hs.1 hs.2)
      (fun _ => makeTester_good) hr
  exact (hinv herr).logs

end

end

/-! ## Runs of two servers -/

/-- Snapshots that are not encoded at all. -/
def plainGob : SnapGob Nat (Int × List (Option Nat)) := ⟨Prod.mk, some⟩

theorem plainGob_lawful : plainGob.Lawful := fun _ _ => rfl

/-- `applierSnap` of server `i` takes the commands `vs` from index `k` on. -/
def commands (i : Nat) (k : Int) (vs : List Nat) : List (Apply Nat (Int × List (Option Nat))) :=
  vs.zipIdx.flatMap fun (v, j) =>
    [.deliver i true ⟨true, some v, k + j, false, none, 0⟩, .advance i, .advance i, .advance i,
      .advance i]

/-- `applierSnap` of server `i` takes the snapshot of `vs`, which starts at index 1. -/
def snapshotOf (i : Nat) (vs : List Nat) : List (Apply Nat (Int × List (Option Nat))) :=
  [.deliver i true ⟨false, none, 0, true, some (vs.length, none :: vs.map some), vs.length⟩,
    .advance i]

theorem covered_commands (n i : Nat) (k : Int) (vs : List Nat)
    (s : Tester Nat (Int × List (Option Nat))) :
    ∀ l ∈ commands i k vs, Covered n s l := by
  intro l hl
  simp only [commands, List.mem_flatMap, List.mem_cons, List.not_mem_nil, or_false] at hl
  obtain ⟨⟨v, j⟩, -, rfl | rfl | rfl | rfl | rfl⟩ := hl
  · intro hvalid
    simp at hvalid
  all_goals trivial

theorem apply_checks_sound_snapshot : ∃ ls s,
    Run (fun s l s' => s.step plainGob 2 l = some s' ∧ Covered 2 s l) makeTester ls s ∧
    s.errors = [] ∧
      s.logs 1 9 = some (some 0) ∧ Agreement 2 s := by
  have hfirst :
    (((commands 0 1 (List.replicate 9 0)).foldlM (Tester.step plainGob 2) makeTester).any fun s =>
      decide (s.snapshots.map Prod.fst = [9])) = true := by
    decide +kernel
  have hlast : (((commands 0 1 (List.replicate 9 0) ++ snapshotOf 1 (List.replicate 9 0)).foldlM
    (Tester.step plainGob 2) makeTester).any fun s => decide (s.errors = [] ∧ s.logs 1 9 = some (some 0))) = true := by
    decide +kernel
  obtain ⟨s, hs, hsnap⟩ := (Option.any_eq_true _ _).mp hfirst
  obtain ⟨t, ht, hend⟩ := (Option.any_eq_true _ _).mp hlast
  obtain ⟨herr, hlog⟩ := of_decide_eq_true hend
  obtain ⟨u, hu, hrest⟩ := (Run.of_foldlM ht).split
  have hus : u = s := Run.functional (fun _ _ _ _ h₁ h₂ => Option.some.inj (h₁.symm.trans h₂)) hu
    (Run.of_foldlM hs)
  subst hus
  obtain ⟨v, hv, hrest⟩ := hrest.cons_inv
  obtain ⟨w, hw, hrest⟩ := hrest.cons_inv
  have htw := hrest.nil_inv
  subst htw
  have hcov : Covered 2 u (.deliver 1 true ⟨false, none, 0, true,
      some (9, none :: List.replicate 9 (some 0)), 9⟩) := by
    intro _ p hp k (hk : 9 < k) hkp
    have hp9 : p.1 ∈ u.snapshots.map Prod.fst := List.mem_map_of_mem hp
    rw [of_decide_eq_true hsnap, List.mem_singleton] at hp9
    omega
  have hrun :=
    ((hu.strengthen fun a => covered_commands 2 0 1 _ a).snoc ⟨hv, hcov⟩).snoc ⟨hw, trivial⟩
  exact ⟨_, t, hrun, herr, hlog, apply_checks_sound plainGob_lawful hrun herr⟩

/-- Server 0 applies 19 commands, goes back to its snapshot of nine and applies another
command at index 10. Server 1 gets the snapshot of 19, and nothing is compared. -/
def rollback : List (Apply Nat (Int × List (Option Nat))) :=
  commands 0 1 (List.replicate 19 0) ++ snapshotOf 0 (List.replicate 9 0) ++ commands 0 10 [1] ++
    snapshotOf 1 (List.replicate 19 0)

theorem rollback_end : ((rollback.foldlM (Tester.step plainGob 2) makeTester).any fun s =>
    decide (s.errors = [] ∧ s.logs 0 10 = some (some 1) ∧ s.logs 1 10 = some (some 0))) = true := by
  decide +kernel

theorem apply_checks_unsound :
    ¬ ∀ ls s, Run (fun s l s' => s.step plainGob 2 l = some s') makeTester ls s →
    s.errors = [] → Agreement 2 s := by
  intro h
  obtain ⟨s, hs, hend⟩ := (Option.any_eq_true _ _).mp rollback_end
  obtain ⟨herr, h₀, h₁⟩ := of_decide_eq_true hend
  have hagree := (h rollback s (Run.of_foldlM hs) herr).agree 0 (by omega) 1 (by omega) 10
    (by omega) _ _ h₀ h₁
  simp at hagree

end Csc412.Raft
