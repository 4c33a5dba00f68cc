import Csc412.Lib.Run
import Csc412.MapReduce.Worker

/-!
# When intermediate files are published atomically

All executions of a job use the same temporary names. While nobody opens the temporary
file of a bucket between another execution's open and its rename, what is renamed is
complete and is there. Otherwise the file that one of them has truncated can be renamed
by the other, which leaves nothing for its own rename.
-/

namespace Csc412.MapReduce

open Lib

/-! ## File names -/

theorem toString_nat_toList (r : Nat) : (toString r).toList = Nat.toDigits 10 r := Nat.toList_repr

theorem toDigits_inj {r r' : Nat} (h : Nat.toDigits 10 r = Nat.toDigits 10 r') : r = r' := by
  rw [← Nat.ofDigitChars_ten_toDigits (n := r), h, Nat.ofDigitChars_ten_toDigits]

theorem finalName_inj {j : Int} {r r' : Nat} (h : finalName j r = finalName j r') : r = r' := by
  apply toDigits_inj
  have hl := congrArg String.toList h
  simpa [finalName, toString_nat_toList] using hl

theorem tmpName_inj {j : Int} {r r' : Nat} (h : tmpName j r = tmpName j r') : r = r' := by
  apply toDigits_inj
  have hl := congrArg String.toList h
  simpa [tmpName, toString_nat_toList] using hl

theorem tmpName_ne_finalName (j : Int) (r r' : Nat) : tmpName j r ≠ finalName j r' := by
  intro h
  have hl := congrArg String.toList h
  have hdigits : Nat.toDigits 10 r ++ ".tmp".toList = Nat.toDigits 10 r' := by
    simpa [tmpName, finalName, toString_nat_toList] using hl
  have hdot : '.' ∈ Nat.toDigits 10 r' := by
    rw [← hdigits]
    exact List.mem_append_right _ (by decide)
  have hdigit := Nat.isDigit_of_mem_toDigits (by omega) (by omega) hdot
  simp at hdigit

def Owned (j : Int) (n : String) : Prop := ∃ r, n = tmpName j r ∨ n = finalName j r

theorem owned_tmp (j : Int) (r : Nat) : Owned j (tmpName j r) := ⟨r, .inl rfl⟩

theorem Vacant.ok {j : Int} {files : Files String UInt8} (h : Vacant j files) :
    files.Ok (Owned j) := by
  refine ⟨h.bound, fun n n' i hn hi _ => ?_⟩
  obtain ⟨r, rfl | rfl⟩ := hn
  · rw [h.tmp] at hi
    cases hi
  · rw [h.final] at hi
    cases hi

/-! ## The invariant -/

/-- The bucket whose temporary file an execution has opened and not yet renamed. -/
def DoMap.holds : DoMap → Option Nat
  | .writing r _ _ | .publishing r => some r
  | _ => none

/-- Nobody else holds the temporary file that the call opens. -/
def Alone (s : Workers) : SysCall → Prop
  | .create e => ∀ e' r, e' ≠ e → s.execs e = .creating r → (s.execs e').holds ≠ some r
  | _ => True

section
variable {encode : Option (List KeyValue) → List UInt8} {buckets : BucketMap} {reply : JobReply}

/-- What an execution may rely on for its next call. -/
def DoMapOk (encode : Option (List KeyValue) → List UInt8) (buckets : BucketMap) (reply : JobReply)
    (files : Files String UInt8) : DoMap → Prop
  | .writing r i off => files.dir (tmpName reply.jobId r) = some i ∧
  files.data i = (encode (buckets r)).take off ∧
      off ≤ (encode (buckets r)).length
  | .publishing r => files.read (tmpName reply.jobId r) = some (encode (buckets r))
  | .returned err => err = none
  | _ => True

structure Published (encode : Option (List KeyValue) → List UInt8) (buckets : BucketMap)
    (reply : JobReply) (s : Workers) :
    Prop where
  files : s.files.Ok (Owned reply.jobId)
  final : ∀ r, s.files.read (finalName reply.jobId r) = none ∨
    s.files.read (finalName reply.jobId r) = some (encode (buckets r))
  execs : ∀ e, DoMapOk encode buckets reply s.files (s.execs e)
  alone : ∀ e e' r, (s.execs e).holds = some r → (s.execs e').holds = some r → e = e'

variable {s s' : Workers} {files : Files String UInt8} {e : Nat} {d : DoMap}

theorem DoMapOk.frame (h : DoMapOk encode buckets reply s.files d)
    (hdir : ∀ r, d.holds = some r → files.dir (tmpName reply.jobId r) =
      s.files.dir (tmpName reply.jobId r))
    (hdata : ∀ r i, d.holds = some r → s.files.dir (tmpName reply.jobId r) = some i →
      files.data i = s.files.data i) :
    DoMapOk encode buckets reply files d := by
  cases d with
  | writing r i off =>
    obtain ⟨hi, hd, hoff⟩ := h
    exact ⟨(hdir r rfl).trans hi, (hdata r i rfl hi).trans hd, hoff⟩
  | publishing r =>
    change files.read (tmpName reply.jobId r) = some (encode (buckets r))
    rw [← show s.files.read (tmpName reply.jobId r) = some (encode (buckets r)) from h]
    unfold Files.read
    rw [hdir r rfl]
    cases hi : s.files.dir (tmpName reply.jobId r) with
    | none => rfl
    | some i => simp [hdata r i rfl hi]
  | _ => exact h

/-- A step of execution `e`: what the others hold is not touched, and `e` holds nothing
that others do. -/
theorem Published.move (h : Published encode buckets reply s)
    (hfiles : files.Ok (Owned reply.jobId))
    (hfinal : ∀ r, files.read (finalName reply.jobId r) = none ∨
      files.read (finalName reply.jobId r) = some (encode (buckets r)))
    (hd : DoMapOk encode buckets reply files d)
    (hdir : ∀ e' r, e' ≠ e → (s.execs e').holds = some r →
      files.dir (tmpName reply.jobId r) = s.files.dir (tmpName reply.jobId r))
    (hdata : ∀ e' r i, e' ≠ e → (s.execs e').holds = some r → s.files.dir (tmpName reply.jobId r) =
      some i →
      files.data i = s.files.data i)
    (halone : ∀ e' r, e' ≠ e → (s.execs e').holds = some r → d.holds ≠ some r) :
    Published encode buckets reply (s.setExec files e d) := by
  have hother : ∀ e', e' ≠ e → (s.setExec files e d).execs e' = s.execs e' :=
    fun e' he' => Function.update_of_ne he' _ _
  have hself : (s.setExec files e d).execs e = d := Function.update_self _ _ _
  refine ⟨hfiles, hfinal, fun e' => ?_, fun e₁ e₂ r h₁ h₂ => ?_⟩
  · by_cases he' : e' = e
    · rw [he', hself]
      exact hd
    · rw [hother e' he']
      exact (h.execs e').frame (fun r => hdir e' r he') fun r i => hdata e' r i he'
  · by_cases he₁ : e₁ = e
    · by_cases he₂ : e₂ = e
      · rw [he₁, he₂]
      · rw [he₁, hself] at h₁
        rw [hother e₂ he₂] at h₂
        exact absurd h₁ (halone e₂ r he₂ h₂)
    · rw [hother e₁ he₁] at h₁
      by_cases he₂ : e₂ = e
      · rw [he₂, hself] at h₂
        exact absurd h₂ (halone e₁ r he₁ h₁)
      · rw [hother e₂ he₂] at h₂
        exact h.alone e₁ e₂ r h₁ h₂

/-! ## One call -/

variable {r i off n : Nat}

theorem Published.create (h : Published encode buckets reply s) (he : s.execs e = .creating r)
    (ha : Alone s (.create e)) :
    Published encode buckets reply (s.setExec (s.files.create (tmpName reply.jobId r)).2 e
      (.writing r (s.files.create (tmpName reply.jobId r)).1 0)) := by
  obtain ⟨hdir, hdata⟩ := s.files.create_self (tmpName reply.jobId r)
  have hne : ∀ e' r', e' ≠ e → (s.execs e').holds = some r' → r' ≠ r := by
    intro e' r' he' hr' hrr
    exact ha e' r he' he (hrr ▸ hr')
  apply h.move (h.files.create _)
  · intro r'
    rw [h.files.create_read (owned_tmp _ _) (tmpName_ne_finalName _ _ _).symm]
    exact h.final r'
  · exact ⟨hdir, by rw [hdata]; rfl, Nat.zero_le _⟩
  · intro e' r' he' hr'
    exact Files.create_dir_of_ne _ fun heq => hne e' r' he' hr' (tmpName_inj heq)
  · intro e' r' i he' hr' hi
    exact h.files.create_data (owned_tmp _ _) (fun heq => hne e' r' he' hr' (tmpName_inj heq)) hi
  · intro e' r' he' hr' heq
    exact hne e' r' he' hr' (Option.some.inj heq).symm

theorem Published.write (h : Published encode buckets reply s) (he : s.execs e = .writing r i off)
    (hn : off + n ≤ (encode (buckets r)).length) :
    Published encode buckets reply
      (s.setExec (s.files.write 0 i off (((encode (buckets r)).drop off).take n)) e
      (if off + n = (encode (buckets r)).length then .publishing r
          else .writing r i (off + n))) := by
  have hok := h.execs e
  rw [he] at hok
  obtain ⟨hdir, hdata, hoff⟩ := hok
  have halone : ∀ e' r', e' ≠ e → (s.execs e').holds = some r' → r' ≠ r := by
    intro e' r' he' hr' hrr
    apply he'
    exact h.alone e' e r (hrr ▸ hr') (by rw [he]; rfl)
  have hwritten : (s.files.write 0 i off (((encode (buckets r)).drop off).take n)).data i =
      (encode (buckets r)).take (off + n) := by
    simp only [Files.write, Function.update_self, hdata]
    rw [writeAt_end _ _ (List.length_take_of_le hoff), List.take_add]
  apply h.move h.files.write
  · intro r'
    rw [Files.write_read]
    · exact h.final r'
    · intro hi
      exact tmpName_ne_finalName _ _ _ (h.files.single _ _ i (owned_tmp _ _) hdir hi).symm
  · split
    · rename_i hall
      show Option.map _ (s.files.dir (tmpName reply.jobId r)) = _
      rw [hdir, Option.map_some, hwritten, hall, List.take_length]
    · exact ⟨hdir, hwritten, hn⟩
  · intro e' r' he' hr'
    rfl
  · intro e' r' j he' hr' hj
    have hji : j ≠ i := by
      intro hji
      apply halone e' r' he' hr'
      exact tmpName_inj (h.files.single _ _ i (owned_tmp _ _) hdir (hji ▸ hj))
    simp [Files.write, hji]
  · intro e' r' he' hr' heq
    apply halone e' r' he' hr'
    split at heq
    · exact (Option.some.inj heq).symm
    · exact (Option.some.inj heq).symm

theorem enterBucket_holds (reply : JobReply) (r : Nat) : (enterBucket reply r).holds = none := by
  unfold enterBucket
  split <;> rfl

theorem enterBucket_ok (files : Files String UInt8) (r : Nat) :
    DoMapOk encode buckets reply files (enterBucket reply r) := by
  unfold enterBucket
  split
  · trivial
  · rfl

theorem Published.rename (h : Published encode buckets reply s) (he : s.execs e = .publishing r) :
    ∃ files, s.files.rename (tmpName reply.jobId r) (finalName reply.jobId r) = some files ∧
      Published encode buckets reply (s.setExec files e (enterBucket reply (r + 1))) := by
  have hread := h.execs e
  rw [he] at hread
  cases hren : s.files.rename (tmpName reply.jobId r) (finalName reply.jobId r) with
  | none =>
    rw [Files.rename_eq_none] at hren
    simp [DoMapOk, Files.read, hren] at hread
  | some files =>
    refine ⟨files, rfl, h.move (h.files.rename (owned_tmp _ _) hren) ?_
      (enterBucket_ok _ _) ?_ ?_ ?_⟩
    · intro r'
      rw [Files.rename_read hren, if_neg (tmpName_ne_finalName _ _ _).symm]
      split
      · rename_i heq
        rw [finalName_inj heq]
        exact .inr hread
      · exact h.final r'
    · intro e' r' he' hr'
      have hrr : r' ≠ r := by
        intro hrr
        apply he'
        exact h.alone e' e r (hrr ▸ hr') (by rw [he]; rfl)
      rw [Files.rename_dir hren, if_neg (tmpName_ne_finalName _ _ _),
        if_neg fun heq => hrr (tmpName_inj heq)]
    · intro e' r' j _ _ _
      rw [Files.rename_data hren]
    · intro e' r' _ _ heq
      rw [enterBucket_holds] at heq
      cases heq

theorem Published.kill (h : Published encode buckets reply s) :
    Published encode buckets reply (s.setExec s.files e .killed) := by
  apply h.move h.files h.final
  · trivial
  · intros
    rfl
  · intros
    rfl
  · intro e' r' _ _ heq
    cases heq

/-- The execution that a call moves. -/
def SysCall.exec : SysCall → Nat
  | .create e | .write e _ | .rename e | .kill e => e

/-- What a call can do to the files and to its execution. -/
inductive Moves (encode : Option (List KeyValue) → List UInt8) (buckets : BucketMap)
    (reply : JobReply) (s : Workers) :
    SysCall → Files String UInt8 → DoMap → Prop
  | create {e r : Nat} (he : s.execs e = .creating r) :
    Moves encode buckets reply s (.create e) (s.files.create (tmpName reply.jobId r)).2
      (.writing r (s.files.create (tmpName reply.jobId r)).1 0)
  | write {e n r i off : Nat} (he : s.execs e = .writing r i off)
    (hn : off + n ≤ (encode (buckets r)).length)
    (hpos : 0 < n ∨ off = (encode (buckets r)).length) :
    Moves encode buckets reply s (.write e n)
      (s.files.write 0 i off (((encode (buckets r)).drop off).take n))
      (if off + n = (encode (buckets r)).length then .publishing r else .writing r i (off + n))
  | rename {e r : Nat} {files : Files String UInt8} (he : s.execs e = .publishing r)
    (hren : s.files.rename (tmpName reply.jobId r) (finalName reply.jobId r) = some files) :
    Moves encode buckets reply s (.rename e) files (enterBucket reply (r + 1))
  | lost {e r : Nat} (he : s.execs e = .publishing r)
    (hren : s.files.rename (tmpName reply.jobId r) (finalName reply.jobId r) = none) :
    Moves encode buckets reply s (.rename e) s.files (.returned (some (renameError reply.jobId r)))
  | kill {e : Nat} : Moves encode buckets reply s (.kill e) s.files .killed

theorem step_moves {c : SysCall} (hs : s.step encode buckets reply c = some s') :
    ∃ files d, s' = s.setExec files c.exec d ∧ Moves encode buckets reply s c files d := by
  cases c with
  | create e =>
    simp only [Workers.step] at hs
    split at hs
    · rename_i r he
      cases hs
      exact ⟨_, _, rfl, .create he⟩
    · cases hs
  | write e n =>
    simp only [Workers.step] at hs
    split at hs
    · rename_i r i off he
      split at hs
      · rename_i hn
        cases hs
        exact ⟨_, _, rfl, .write he hn.1 hn.2⟩
      · cases hs
    · cases hs
  | rename e =>
    simp only [Workers.step] at hs
    split at hs
    · rename_i r he
      split at hs
      · rename_i files hren
        cases hs
        exact ⟨_, _, rfl, .rename he hren⟩
      · rename_i hren
        cases hs
        exact ⟨_, _, rfl, .lost he hren⟩
    · cases hs
  | kill e =>
    simp only [Workers.step] at hs
    split at hs
    · cases hs
    · cases hs
    · cases hs
      exact ⟨_, _, rfl, .kill⟩

theorem Published.step {c : SysCall} (h : Published encode buckets reply s)
    (hs : s.step encode buckets reply c = some s') (ha : Alone s c) :
    Published encode buckets reply s' := by
  obtain ⟨files, d, rfl, hm⟩ := step_moves hs
  cases hm with
  | create he => exact h.create he ha
  | write he hn _ => exact h.write he hn
  | rename he hren =>
    obtain ⟨files', hren', hfiles⟩ := h.rename he
    rw [hren] at hren'
    cases hren'
    exact hfiles
  | lost he hren =>
    obtain ⟨files', hren', -⟩ := h.rename he
    rw [hren] at hren'
    cases hren'
  | kill => exact h.kill

theorem published_start (hv : Vacant reply.jobId files) :
    Published encode buckets reply (startWorkers reply files) := by
  refine ⟨hv.ok, fun r => .inl ?_, fun e => enterBucket_ok _ _, fun e e' r h => ?_⟩
  · simp [startWorkers, Files.read, hv.final]
  · rw [show (startWorkers reply files).execs e = enterBucket reply 0 from rfl,
      enterBucket_holds] at h
    cases h

/-! ## Every execution comes to its end -/

/-- The calls for the buckets from `r` on, at most. -/
def bucketCalls (encode : Option (List KeyValue) → List UInt8) (buckets : BucketMap)
    (reply : JobReply) (r : Nat) : Nat :=
  ((List.range reply.nReduce.toNat).drop r).foldr (fun r k => (encode (buckets r)).length + 3 + k) 0

/-- The calls that are left, at most. -/
def callsLeft (encode : Option (List KeyValue) → List UInt8) (buckets : BucketMap)
    (reply : JobReply) : DoMap → Nat
  | .creating r => (encode (buckets r)).length + 3 + bucketCalls encode buckets reply (r + 1)
  | .writing r _ off => (encode (buckets r)).length - off + 2 +
    bucketCalls encode buckets reply (r + 1)
  | .publishing r => 1 + bucketCalls encode buckets reply (r + 1)
  | _ => 0

theorem bucketCalls_of_lt (h : (r : Int) < reply.nReduce) : bucketCalls encode buckets reply r =
    (encode (buckets r)).length + 3 + bucketCalls encode buckets reply (r + 1) := by
  unfold bucketCalls
  have hlt : r < (List.range reply.nReduce.toNat).length := by
    rw [List.length_range]
    omega
  rw [List.drop_eq_getElem_cons hlt, List.foldr_cons, List.getElem_range]

theorem callsLeft_enterBucket (r : Nat) :
    callsLeft encode buckets reply (enterBucket reply r) ≤ bucketCalls encode buckets reply r := by
  unfold enterBucket
  split
  · rename_i hr
    rw [bucketCalls_of_lt hr]
    exact Nat.le_refl _
  · exact Nat.zero_le _

theorem Moves.callsLeft_lt {c : SysCall} (h : Moves encode buckets reply s c files d)
    (hc : c.caller = some e) :
    callsLeft encode buckets reply d < callsLeft encode buckets reply (s.execs e) := by
  cases h with
  | create he =>
    cases hc
    rw [he]
    simp only [callsLeft]
    omega
  | write he hn hpos =>
    cases hc
    rw [he]
    split <;> simp only [callsLeft] <;> omega
  | @rename _ r _ he _ =>
    cases hc
    rw [he]
    exact Nat.lt_of_le_of_lt (callsLeft_enterBucket (r + 1)) (by simp only [callsLeft]; omega)
  | lost he _ =>
    cases hc
    rw [he]
    simp only [callsLeft]
    omega
  | kill => cases hc

theorem calls_step {c : SysCall} {k N : Nat} (hs : s.step encode buckets reply c = some s')
    (h : callsLeft encode buckets reply (s.execs e) + k ≤ N) :
    callsLeft encode buckets reply (s'.execs e) + (k + [c].countP (·.caller = some e)) ≤ N := by
  obtain ⟨files, d, rfl, hm⟩ := step_moves hs
  by_cases hc : c.caller = some e
  · have hlt := hm.callsLeft_lt hc
    have he : c.exec = e := by
      cases hm with
      | kill => cases hc
      | _ =>
        cases hc
        rfl
    have hd : (s.setExec files c.exec d).execs e = d := by
      rw [he]
      exact Function.update_self _ _ _
    simp only [hd, List.countP_cons, List.countP_nil, hc, decide_true, if_true]
    omega
  · have hle : callsLeft encode buckets reply ((s.setExec files c.exec d).execs e) ≤
        callsLeft encode buckets reply (s.execs e) := by
      by_cases he : e = c.exec
      · -- only a kill moves an execution that does not call
        cases hm with
        | kill =>
          rw [he]
          simp [Workers.setExec, callsLeft]
        | _ => exact absurd (congrArg some he.symm) hc
      · exact Nat.le_of_eq (congrArg _ (Function.update_of_ne he _ _))
    simp only [List.countP_cons, List.countP_nil, hc, decide_false]
    simpa using Nat.le_trans (Nat.add_le_add_right hle k) h

theorem calls_run {cs : List SysCall}
    (hr : Run (fun s c s' => s.step encode buckets reply c = some s' ∧
      Alone s c) (startWorkers reply files) cs s) (e : Nat) :
    callsLeft encode buckets reply (s.execs e) + cs.countP (·.caller = some e) ≤
        bucketCalls encode buckets reply 0 := by
  induction hr with
  | nil =>
    show callsLeft encode buckets reply (enterBucket reply 0) + 0 ≤ _
    exact callsLeft_enterBucket 0
  | snoc _ hs ih =>
    rw [List.countP_append]
    exact calls_step hs.1 ih

theorem next_call (h : Published encode buckets reply s) :
    s.execs e = .killed ∨ s.execs e = .returned none ∨
      ∃ c : SysCall, c.caller = some e ∧ (s.step encode buckets reply c).isSome := by
  have hok := h.execs e
  cases he : s.execs e with
  | creating r => exact .inr (.inr ⟨.create e, rfl, by simp [Workers.step, he]⟩)
  | writing r i off =>
    rw [he] at hok
    refine .inr (.inr ⟨.write e ((encode (buckets r)).length - off), rfl, ?_⟩)
    have hoff := hok.2.2
    simp only [Workers.step, he]
    rw [if_pos (by omega)]
    rfl
  | publishing r =>
    refine .inr (.inr ⟨.rename e, rfl, ?_⟩)
    simp only [Workers.step, he]
    split <;> rfl
  | returned err =>
    rw [he] at hok
    exact .inr (.inl (congrArg DoMap.returned hok))
  | killed => exact .inl rfl

/-- After the calls `cs`: a final file is absent or complete, and an execution that is not
killed has returned nil or is on its way, with a next call and a bound on all of its calls. -/
def Atomic (encode : Option (List KeyValue) → List UInt8) (buckets : BucketMap) (reply : JobReply)
    (cs : List SysCall) (s : Workers) : Prop :=
  (∀ r, s.files.read (finalName reply.jobId r) = none ∨
    s.files.read (finalName reply.jobId r) = some (encode (buckets r))) ∧
  ∀ e, s.execs e = .killed ∨ s.execs e = .returned none ∨
    (∃ c : SysCall, c.caller = some e ∧ (s.step encode buckets reply c).isSome) ∧
      cs.countP (·.caller = some e) < bucketCalls encode buckets reply 0

/-- While no execution opens a temporary file that another one holds, files appear
complete and every execution returns nil. -/
theorem publication_atomic (hv : Vacant reply.jobId files) {cs : List SysCall}
    (hr : Run (fun s c s' => s.step encode buckets reply c = some s' ∧
      Alone s c) (startWorkers reply files) cs s) :
    Atomic encode buckets reply cs s := by
  have hinv : Published encode buckets reply s :=
    Run.invariant (I := Published encode buckets reply) (fun h hs => h.step hs.1 hs.2)
      (published_start hv) hr
  refine ⟨hinv.final, fun e => ?_⟩
  rcases next_call hinv (e := e) with he | he | ⟨c, hc, hnext⟩
  · exact .inl he
  · exact .inr (.inl he)
  · refine .inr (.inr ⟨⟨c, hc, hnext⟩, ?_⟩)
    obtain ⟨s', hs'⟩ := Option.isSome_iff_exists.mp hnext
    obtain ⟨files, d, -, hm⟩ := step_moves hs'
    have hlt := hm.callsLeft_lt hc
    have hle := calls_run hr e
    omega

end

/-! ## Two executions with one bucket -/

def oneBucket : JobReply := ⟨1, 1⟩

/-- The encoding of a nil bucket. -/
def encodeNull : Option (List KeyValue) → List UInt8 := fun _ => [110, 117, 108, 108, 10]

def noFiles : Files String UInt8 := ⟨fun _ => none, fun _ => [], 0⟩

theorem noFiles_vacant : Vacant 1 noFiles := by
  constructor <;> simp [noFiles]

theorem untouched_run {encode : Option (List KeyValue) → List UInt8} {buckets : BucketMap}
    {reply : JobReply}
    {files : Files String UInt8} {cs : List SysCall} {s : Workers} {e : Nat}
    (hr : Run (fun s c s' => s.step encode buckets reply c = some s')
      (startWorkers reply files) cs s)
    (he : ∀ c ∈ cs, c.exec ≠ e) : s.execs e = enterBucket reply 0 := by
  induction hr with
  | nil => rfl
  | @snoc cs t c u _ hs ih =>
    obtain ⟨files', d, rfl, -⟩ := step_moves hs
    rw [← ih fun c' hc' => he c' (List.mem_append_left _ hc')]
    exact Function.update_of_ne (he c (by simp)).symm _ _

/-- The first execution is killed while it writes, the second one publishes the file. -/
theorem publication_atomic_killed : ∃ cs s,
    Run (fun s c s' => s.step encodeNull (fun _ => none) oneBucket c = some s' ∧
      Alone s c) (startWorkers oneBucket noFiles) cs s ∧
      s.files.read (finalName 1 0) = some [110, 117, 108, 108, 10] ∧
      Atomic encodeNull (fun _ => none) oneBucket cs s := by
  have hfirst :
    (([.create 0, .write 0 2, .kill 0].foldlM (Workers.step encodeNull (fun _ => none) oneBucket)
      (startWorkers oneBucket noFiles)).any fun s => (s.execs 0).holds == none) = true := by
    decide +kernel
  have hlast : (([.create 0, .write 0 2, .kill 0, .create 1, .write 1 5, .rename 1].foldlM
      (Workers.step encodeNull (fun _ => none) oneBucket) (startWorkers oneBucket noFiles)).any
        fun s => s.files.read (finalName 1 0) == some [110, 117, 108, 108, 10]) = true := by
    decide +kernel
  obtain ⟨s, hs, hkilled⟩ := (Option.any_eq_true _ _).mp hfirst
  obtain ⟨t, ht, hend⟩ := (Option.any_eq_true _ _).mp hlast
  obtain ⟨a₁, h₁, hr⟩ := (Run.of_foldlM ht).cons_inv
  obtain ⟨a₂, h₂, hr⟩ := hr.cons_inv
  obtain ⟨a₃, h₃, hr⟩ := hr.cons_inv
  obtain ⟨a₄, h₄, hr⟩ := hr.cons_inv
  obtain ⟨a₅, h₅, hr⟩ := hr.cons_inv
  obtain ⟨a₆, h₆, hr⟩ := hr.cons_inv
  have hta := hr.nil_inv
  subst hta
  have hthree : Run (fun s c s' => s.step encodeNull (fun _ => none) oneBucket c = some s')
      (startWorkers oneBucket noFiles) _ a₃ :=
    ((Run.single h₁).snoc h₂).snoc h₃
  have hsa : a₃ = s := Run.functional (fun _ _ _ _ e₁ e₂ => Option.some.inj (e₁.symm.trans e₂))
    hthree (Run.of_foldlM hs)
  have hstart : Alone (startWorkers oneBucket noFiles) (.create 0) := by
    intro e' r _ _ hholds
    rw [show (startWorkers oneBucket noFiles).execs e' = enterBucket oneBucket 0 from rfl,
      enterBucket_holds] at hholds
    cases hholds
  have halone : Alone a₃ (.create 1) := by
    intro e' r _ _ hholds
    by_cases he' : e' = 0
    · rw [he', hsa, eq_of_beq hkilled] at hholds
      cases hholds
    · rw [untouched_run hthree (e := e') (by simp [SysCall.exec, Ne.symm he']), enterBucket_holds]
        at hholds
      cases hholds
  have hrun : Run (fun s c s' => s.step encodeNull (fun _ => none) oneBucket c = some s' ∧
    Alone s c)
      (startWorkers oneBucket noFiles) _ t :=
    (((((Run.single ⟨h₁, hstart⟩).snoc ⟨h₂, trivial⟩).snoc ⟨h₃, trivial⟩).snoc ⟨h₄, halone⟩).snoc
      ⟨h₅, trivial⟩).snoc
      ⟨h₆, trivial⟩
  exact ⟨_, t, hrun, eq_of_beq hend, publication_atomic noFiles_vacant hrun⟩

/-- The first execution publishes the file that the second one has just emptied. -/
theorem publication_torn : ¬ ∀ cs s,
    Run (fun s c s' => s.step encodeNull (fun _ => none) oneBucket c = some s')
      (startWorkers oneBucket noFiles) cs s →
      Atomic encodeNull (fun _ => none) oneBucket cs s := by
  intro h
  have hrun : (([.create 0, .write 0 5, .create 1, .rename 0].foldlM
    (Workers.step encodeNull (fun _ => none) oneBucket)
      (startWorkers oneBucket noFiles)).any fun s => s.files.read (finalName 1 0) == some []) =
          true := by
    decide +kernel
  obtain ⟨s, hs, hend⟩ := (Option.any_eq_true _ _).mp hrun
  have hempty : s.files.read (finalName oneBucket.jobId 0) = some [] := eq_of_beq hend
  have hfinal := (h _ s (Run.of_foldlM hs)).1 0
  rw [hempty] at hfinal
  simp [encodeNull] at hfinal

end Csc412.MapReduce
