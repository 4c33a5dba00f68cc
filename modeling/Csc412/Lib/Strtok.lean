import Csc412.Lib.CString

/-!
# Words of a line, and `strtok`

`words` is the specification: the maximal stretches of a list without the separator, and
`wordsAt` has each with its position. `Strtok.next` is `strtok(NULL, delim)` on a buffer,
with the zero bytes it writes and the position it saves; it hands out the words one after
the other (`next_token`, `next_none`) and leaves alone what lies before its position.
-/

namespace Lib

section
variable {α : Type*}

/-- The pieces of a split list with the positions they start at, from `i` on. -/
def offsets : Nat → List (List α) → List (Nat × List α)
  | _, [] => []
  | i, w :: ws => (i, w) :: offsets (i + w.length + 1) ws

theorem map_offsets (i : Nat) (ws : List (List α)) : (offsets i ws).map Prod.snd = ws := by
  induction ws generalizing i with
  | nil => rfl
  | cons w ws ih => rw [offsets, List.map_cons, ih]

variable [BEq α] {sep : α}

def words (sep : α) (l : List α) : List (List α) := (l.splitOn sep).filter fun w => !w.isEmpty

theorem ne_nil_of_mem_words {l w : List α} (h : w ∈ words sep l) : w ≠ [] := by
  have hw := (List.mem_filter.mp h).2
  rintro rfl
  cases hw

def wordsAt (sep : α) (i : Nat) (l : List α) : List (Nat × List α) :=
  (offsets i (l.splitOn sep)).filter fun t => !t.2.isEmpty

theorem map_wordsAt (i : Nat) (l : List α) : (wordsAt sep i l).map Prod.snd = words sep l := by
  have hfilter : wordsAt sep i l =
    (offsets i (l.splitOn sep)).filter ((fun w => !w.isEmpty) ∘ Prod.snd) := rfl
  rw [hfilter, ← List.filter_map, map_offsets]
  rfl

theorem ne_nil_of_mem_wordsAt {i : Nat} {l : List α} {t : Nat × List α} (h : t ∈ wordsAt sep i l) :
    t.2 ≠ [] := by
  have hmem : t.2 ∈ words sep l := by
    rw [← map_wordsAt i]
    exact List.mem_map_of_mem h
  exact ne_nil_of_mem_words hmem

theorem wordsAt_nil (i : Nat) : wordsAt sep i ([] : List α) = [] := by
  rw [wordsAt, List.splitOn_nil]
  rfl

variable [LawfulBEq α]

theorem wordsAt_word (i : Nat) {w : List α} (hne : w ≠ []) (hw : sep ∉ w) (rest : List α) :
    wordsAt sep i (w ++ sep :: rest) = (i, w) :: wordsAt sep (i + w.length + 1) rest := by
  rw [wordsAt, List.splitOn_append_cons_self_of_not_mem hw, offsets, List.filter_cons_of_pos]
  · rfl
  · simpa using hne

theorem wordsAt_last (i : Nat) {w : List α} (hne : w ≠ []) (hw : sep ∉ w) :
    wordsAt sep i w = [(i, w)] := by
  rw [wordsAt, List.splitOn_eq_singleton hw, offsets, List.filter_cons_of_pos]
  · rfl
  · simpa using hne

theorem wordsAt_sep (i : Nat) (rest : List α) :
    wordsAt sep i (sep :: rest) = wordsAt sep (i + 1) rest := by
  have hsplit := List.splitOn_append_cons_self_of_not_mem (a := sep) List.not_mem_nil rest
  rw [List.nil_append] at hsplit
  rw [wordsAt, hsplit]
  rfl

theorem wordsAt_skip (i : Nat) {l : List α} (h : ∀ c ∈ l, (c == sep) = true) (rest : List α) :
    wordsAt sep i (l ++ rest) = wordsAt sep (i + l.length) rest := by
  induction l generalizing i with
  | nil => rfl
  | cons c l ih =>
    have hc : c = sep := eq_of_beq (h c List.mem_cons_self)
    rw [hc, List.cons_append, wordsAt_sep, ih _ fun d hd => h d (List.mem_cons_of_mem _ hd),
      List.length_cons]
    congr 1
    omega

theorem words_word {w : List α} (hne : w ≠ []) (hw : sep ∉ w) (rest : List α) :
    words sep (w ++ sep :: rest) = w :: words sep rest := by
  rw [← map_wordsAt 0, wordsAt_word 0 hne hw, List.map_cons, map_wordsAt]

theorem words_last {w : List α} (hne : w ≠ []) (hw : sep ∉ w) : words sep w = [w] := by
  rw [← map_wordsAt 0, wordsAt_last 0 hne hw]
  rfl

theorem words_sep (rest : List α) : words sep (sep :: rest) = words sep rest := by
  rw [← map_wordsAt 0, wordsAt_sep, map_wordsAt]

end

namespace CString

/-! ## The tokenizer -/

/-- The delimiters before the first token of `r`. -/
def delims (delim : UInt8) (r : Bytes) : Bytes := r.takeWhile (· == delim)

def token (delim : UInt8) (r : Bytes) : Bytes := (r.dropWhile (· == delim)).takeWhile (!· == delim)

def afterToken (delim : UInt8) (r : Bytes) : Bytes :=
  (r.dropWhile (· == delim)).dropWhile (!· == delim)

/-- A buffer and the position `strtok` goes on from. -/
structure Strtok where
  buffer : Bytes
  saved : Nat

/-- `strtok(NULL, delim)` for one delimiter: a pointer to the next token, or `NULL`. -/
def Strtok.next (delim : UInt8) (s : Strtok) : Option Nat × Strtok :=
  let r := cstr (s.buffer.drop s.saved)
  let start := s.saved + (delims delim r).length
  let stop := start + (token delim r).length
  if (token delim r).isEmpty then (none, ⟨s.buffer, start⟩)
  else if s.buffer.getD stop 0 = 0 then (some start, ⟨s.buffer, stop⟩)
  else (some start, ⟨s.buffer.set stop 0, stop + 1⟩)

section
variable {delim : UInt8}

theorem delims_append (delim : UInt8) (r : Bytes) :
    delims delim r ++ (token delim r ++ afterToken delim r) = r := by
  unfold delims token afterToken
  rw [List.takeWhile_append_dropWhile, List.takeWhile_append_dropWhile]

theorem delim_notMem_token (delim : UInt8) (r : Bytes) : delim ∉ token delim r := by
  intro hmem
  have hfree := List.mem_takeWhile_imp (p := fun c => !c == delim) hmem
  simp at hfree

theorem afterToken_cases (delim : UInt8) (r : Bytes) :
    afterToken delim r = [] ∨ ∃ r', afterToken delim r = delim :: r' := by
  have hhead := List.head?_dropWhile_not (!· == delim) (r.dropWhile (· == delim))
  unfold afterToken
  cases hr : (r.dropWhile (· == delim)).dropWhile (!· == delim) with
  | nil => exact .inl rfl
  | cons c r' =>
    rw [hr] at hhead
    have hc : c = delim := by simpa using hhead
    exact .inr ⟨r', by rw [hc]⟩

theorem afterToken_nil {r : Bytes} (h : token delim r = []) : afterToken delim r = [] := by
  unfold token at h
  unfold afterToken
  have hhead := List.head?_dropWhile_not (· == delim) r
  cases hr : r.dropWhile (· == delim) with
  | nil => rfl
  | cons c l =>
    rw [hr] at hhead h
    have hc : (!c == delim) = true := by simpa using hhead
    rw [List.takeWhile_cons_of_pos (p := fun c => !c == delim) hc] at h
    cases h

theorem wordsAt_token (delim : UInt8) (i : Nat) (r : Bytes) :
    wordsAt delim i r = wordsAt delim (i + (delims delim r).length)
        (token delim r ++ afterToken delim r) := by
  have hskip := wordsAt_skip i (l := delims delim r)
    (fun c hc => List.mem_takeWhile_imp (p := (· == delim)) hc)
    (token delim r ++ afterToken delim r)
  rw [delims_append] at hskip
  exact hskip

theorem token_ne_nil {i : Nat} {r : Bytes} (h : wordsAt delim i r ≠ []) : token delim r ≠ [] := by
  intro hnil
  rw [wordsAt_token, hnil, afterToken_nil hnil, List.nil_append, wordsAt_nil] at h
  exact h rfl

theorem wordsAt_ne_nil {i : Nat} {r : Bytes} (h : token delim r ≠ []) : wordsAt delim i r ≠ [] := by
  have hfree := delim_notMem_token delim r
  rw [wordsAt_token]
  rcases afterToken_cases delim r with hr | ⟨r', hr⟩
  · rw [hr, List.append_nil, wordsAt_last _ h hfree]
    exact List.cons_ne_nil _ _
  · rw [hr, wordsAt_word _ h hfree]
    exact List.cons_ne_nil _ _

/-- What is still to be cut into tokens is `r`. -/
structure Strtok.Ahead (s : Strtok) (r : Bytes) : Prop where
  ended : 0 ∉ r
  here : ∃ tail, s.buffer.drop s.saved = r ++ 0 :: tail

variable {s : Strtok} {r : Bytes}

theorem cstr_terminated {w : Bytes} (hw : 0 ∉ w) (tail : Bytes) : cstr (w ++ 0 :: tail) = w := by
  rw [cstr_append hw]
  exact List.append_nil w

structure StrAt (buffer : Bytes) (p : Nat) (w : Bytes) : Prop where
  ended : 0 ∉ w
  here : ∃ tail, buffer.drop p = w ++ 0 :: tail

section
variable {buffer buffer' v w : Bytes} {p q : Nat}

theorem StrAt.cstr_eq (h : StrAt buffer p w) : cstr (buffer.drop p) = w := by
  obtain ⟨tail, htail⟩ := h.here
  rw [htail, cstr_terminated h.ended]

theorem StrAt.getElem? (h : StrAt buffer p w) {j : Nat} (hj : j ≤ w.length) :
    buffer[p + j]? = (w ++ [0])[j]? := by
  obtain ⟨tail, htail⟩ := h.here
  have hshort : j < (w ++ [0]).length := by
    rw [List.length_append, List.length_singleton]
    exact Nat.lt_succ_of_le hj
  rw [← List.getElem?_drop, htail, ← List.singleton_append, ← List.append_assoc,
    List.getElem?_append_left hshort]

theorem StrAt.of_getElem? (hended : 0 ∉ w) (h : ∀ j ≤ w.length, buffer[p + j]? = (w ++ [0])[j]?) :
    StrAt buffer p w := by
  have hhead : (buffer.drop p).take (w.length + 1) = w ++ [0] := by
    apply List.ext_getElem?
    intro j
    by_cases hj : j ≤ w.length
    · rw [List.getElem?_take, if_pos (Nat.lt_succ_of_le hj), List.getElem?_drop, h j hj]
    · rw [List.getElem?_eq_none (by simp; omega), List.getElem?_eq_none (by simp; omega)]
  refine ⟨hended, (buffer.drop p).drop (w.length + 1), ?_⟩
  rw [← List.singleton_append, ← List.append_assoc, ← hhead, List.take_append_drop]

theorem StrAt.frame (h : StrAt buffer p w)
    (hsame : ∀ j ≤ w.length, buffer'[p + j]? = buffer[p + j]?) : StrAt buffer' p w :=
  .of_getElem? h.ended fun j hj => (hsame j hj).trans (h.getElem? hj)

theorem StrAt.tail {b : UInt8} (h : StrAt buffer p (b :: w)) : StrAt buffer (p + 1) w := by
  obtain ⟨tail, htail⟩ := h.here
  refine ⟨fun hmem => h.ended (List.mem_cons_of_mem _ hmem), tail, ?_⟩
  rw [← List.drop_drop, htail]
  rfl

/-- Its last byte is overwritten. -/
theorem StrAt.cut {b : UInt8} (h : StrAt buffer p (w ++ [b])) :
    StrAt (buffer.set (p + w.length) 0) p w := by
  have hended : 0 ∉ w := fun hmem => h.ended (List.mem_append_left _ hmem)
  refine .of_getElem? hended fun j hj => ?_
  have hget := h.getElem? (j := j) (by simp; omega)
  by_cases heq : j = w.length
  · subst heq
    have hlt : p + w.length < buffer.length := by
      by_contra hge
      rw [List.getElem?_eq_none (Nat.le_of_not_lt hge)] at hget
      simp at hget
    simp [hlt]
  · rw [List.getElem?_set_ne (by omega), hget, List.getElem?_append_left (by simp; omega),
      List.getElem?_append_left (by omega), List.getElem?_append_left (by omega)]

theorem StrAt.dropLast (h : StrAt buffer p w) (hne : w ≠ []) :
    StrAt (buffer.set (p + (w.length - 1)) 0) p w.dropLast := by
  rw [← List.dropLast_append_getLast hne] at h
  rw [← List.length_dropLast]
  exact h.cut

/-- One byte may be the first and the last of a string. -/
theorem StrAt.dropLast_tail (h : StrAt buffer p w) (hne : w ≠ []) :
    StrAt (buffer.set (p + (w.length - 1)) 0) (p + 1) w.dropLast.tail := by
  obtain ⟨b, w, rfl⟩ := List.exists_cons_of_ne_nil hne
  cases w with
  | nil =>
    apply h.tail.frame
    intro j _
    exact List.getElem?_set_ne (by simp; omega)
  | cons d w =>
    have hend : p + ((b :: d :: w).length - 1) = p + 1 + ((d :: w).length - 1) := by
      rw [List.length_cons, List.length_cons]
      omega
    rw [hend]
    exact h.tail.dropLast (List.cons_ne_nil _ _)

/-- The last byte of another string is overwritten. -/
theorem StrAt.set_apart (h : StrAt buffer p w) (hv : StrAt buffer q v) (hne : v ≠ [])
    (hapart : p + w.length ≤ q ∨ q + v.length ≤ p) :
    StrAt (buffer.set (q + (v.length - 1)) 0) p w := by
  have hpos : 0 < v.length := List.length_pos_iff.mpr hne
  apply h.frame
  intro j hj
  apply List.getElem?_set_ne
  rcases hapart with hlt | hlt
  · -- the string ends with a zero byte, and the other one does not start with one
    intro heq
    obtain ⟨b, v, rfl⟩ := List.exists_cons_of_ne_nil hne
    have hend : buffer[p + w.length]? = some 0 := by
      rw [h.getElem? (Nat.le_refl _)]
      simp
    have hstart : buffer[q + 0]? = some b := hv.getElem? (Nat.zero_le _)
    rw [show q + 0 = p + w.length by omega, hend, Option.some.injEq] at hstart
    exact hv.ended (by simp [hstart])
  · omega

theorem StrAt.getD (h : StrAt buffer p w) {j : Nat} (hj : j < w.length) :
    buffer.getD (p + j) 0 = w[j] := by
  rw [List.getD_eq_getElem?_getD, h.getElem? (Nat.le_of_lt hj), List.getElem?_append_left hj,
    List.getElem?_eq_getElem hj]
  rfl

end

theorem Strtok.Ahead.cstr_eq (h : s.Ahead r) : cstr (s.buffer.drop s.saved) = r := by
  obtain ⟨tail, htail⟩ := h.here
  rw [htail, cstr_terminated h.ended]

theorem Strtok.Ahead.saved_lt (h : s.Ahead r) : s.saved < s.buffer.length := by
  obtain ⟨tail, htail⟩ := h.here
  have hlen := congrArg List.length htail
  rw [List.length_drop, List.length_append, List.length_cons] at hlen
  omega

theorem next_none (h : s.Ahead r) (hwords : words delim r = []) :
    ∃ s', s.next delim = (none, s') ∧ s'.buffer = s.buffer ∧ s.saved ≤ s'.saved ∧ s'.Ahead [] := by
  obtain ⟨tail, htail⟩ := h.here
  have hcut := delims_append delim r
  have htoken : token delim r = [] := by
    by_contra hne
    apply wordsAt_ne_nil (i := 0) hne
    rw [← List.map_eq_nil_iff, map_wordsAt]
    exact hwords
  rw [htoken, afterToken_nil htoken] at hcut
  have hdelims : delims delim r = r := (List.append_nil _).symm.trans hcut
  refine ⟨⟨s.buffer, s.saved + r.length⟩, ?_, rfl, Nat.le_add_right _ _, List.not_mem_nil, tail, ?_⟩
  · unfold Strtok.next
    simp only [h.cstr_eq, htoken, hdelims, List.isEmpty_nil, ite_true]
  · dsimp only
    rw [← List.drop_drop, htail]
    exact List.drop_left

theorem getD_of_drop {l : Bytes} {i : Nat} {c : UInt8} {l' : Bytes} (h : l.drop i = c :: l') :
    l.getD i 0 = c := by
  have hget : (l.drop i)[0]? = some c := by rw [h]; rfl
  rw [List.getElem?_drop, Nat.add_zero] at hget
  rw [List.getD_eq_getElem?_getD, hget]
  rfl

/-- What a call that finds a token does: the token is a string of its own, and nothing
before the old position changes. -/
structure Found (s : Strtok) (w : Bytes) (p : Nat) (s' : Strtok) : Prop where
  le : s.saved ≤ p
  lt : p < s'.saved
  token : cstr (s'.buffer.drop p) = w
  before : ∀ i < s.saved, s'.buffer[i]? = s.buffer[i]?
  length : s'.buffer.length = s.buffer.length

/-- What a call does that finds the word `t.2` at `t.1`. -/
structure Cut (s : Strtok) (t : Nat × Bytes) (s' : Strtok) : Prop where
  le : s.saved ≤ t.1
  stop_le : t.1 + t.2.length ≤ s'.saved
  str : StrAt s'.buffer t.1 t.2
  before : ∀ i ≤ s.saved, s'.buffer[i]? = s.buffer[i]?
  length : s'.buffer.length = s.buffer.length

theorem Cut.saved_le {t : Nat × Bytes} {s' : Strtok} (h : Cut s t s') : s.saved ≤ s'.saved :=
  Nat.le_trans h.le (Nat.le_trans (Nat.le_add_right _ _) h.stop_le)

theorem Cut.found {t : Nat × Bytes} {s' : Strtok} (h : Cut s t s') (hne : t.2 ≠ []) :
    Found s t.2 t.1 s' where
  le := h.le
  lt := Nat.lt_of_lt_of_le (Nat.lt_add_of_pos_right (List.length_pos_iff.mpr hne)) h.stop_le
  token := h.str.cstr_eq
  before i hi := h.before i (Nat.le_of_lt hi)
  length := h.length

/-- Where the next token starts, and where it ends. -/
def Strtok.start (delim : UInt8) (s : Strtok) (r : Bytes) : Nat := s.saved + (delims delim r).length

def Strtok.stop (delim : UInt8) (s : Strtok) (r : Bytes) : Nat :=
  s.start delim r + (token delim r).length

theorem zero_notMem_token (hended : 0 ∉ r) : 0 ∉ token delim r := by
  rw [← delims_append delim r, List.mem_append, List.mem_append, not_or, not_or] at hended
  exact hended.2.1

theorem start_lt_stop (s : Strtok) (hne : token delim r ≠ []) :
    s.start delim r < s.stop delim r := by
  have hlen : 0 < (token delim r).length := List.length_pos_iff.mpr hne
  unfold Strtok.stop
  omega

section
variable {tail : Bytes} (htail : s.buffer.drop s.saved = r ++ 0 :: tail)
include htail

theorem drop_start :
    s.buffer.drop (s.start delim r) = token delim r ++ (afterToken delim r ++ 0 :: tail) := by
  have hcut := delims_append delim r
  rw [Strtok.start, ← List.drop_drop, htail]
  nth_rewrite 2 [← hcut]
  rw [List.append_assoc, List.drop_left, List.append_assoc]

theorem drop_stop : s.buffer.drop (s.stop delim r) = afterToken delim r ++ 0 :: tail := by
  rw [Strtok.stop, ← List.drop_drop, drop_start htail, List.drop_left]

variable (hended : 0 ∉ r) (hne : token delim r ≠ [])
include hended hne

theorem next_last (hlast : afterToken delim r = []) :
    s.next delim = (some (s.start delim r), ⟨s.buffer, s.stop delim r⟩) ∧
      Cut s (s.start delim r, token delim r) ⟨s.buffer, s.stop delim r⟩ ∧
      Strtok.Ahead ⟨s.buffer, s.stop delim r⟩ [] := by
  have hstart : s.buffer.drop (s.start delim r) =
    token delim r ++ (afterToken delim r ++ 0 :: tail) := drop_start htail
  have hstop : s.buffer.drop (s.stop delim r) = afterToken delim r ++ 0 :: tail := drop_stop htail
  rw [hlast] at hstart hstop
  refine ⟨?_, ⟨Nat.le_add_right _ _, Nat.le_refl _, ⟨zero_notMem_token hended, tail, hstart⟩,
    fun _ _ => rfl, rfl⟩,
    ⟨List.not_mem_nil, tail, hstop⟩⟩
  · have hempty : (token delim r).isEmpty = false := by simpa using hne
    have hget : s.buffer.getD (s.saved + (delims delim r).length + (token delim r).length) 0 = 0 :=
      getD_of_drop hstop
    unfold Strtok.next
    simp only [htail, cstr_terminated hended, hempty, hget]
    rfl

theorem next_cut (hdelim : delim ≠ 0) {r' : Bytes} (hafter : afterToken delim r = delim :: r') :
    s.next delim = (some (s.start delim r), ⟨s.buffer.set (s.stop delim r) 0, s.stop delim r + 1⟩) ∧
      Cut s (s.start delim r, token delim r) ⟨s.buffer.set (s.stop delim r) 0, s.stop delim r + 1⟩ ∧
      Strtok.Ahead ⟨s.buffer.set (s.stop delim r) 0, s.stop delim r + 1⟩ r' := by
  have hstart : s.buffer.drop (s.start delim r) =
    token delim r ++ (afterToken delim r ++ 0 :: tail) := drop_start htail
  have hstop : s.buffer.drop (s.stop delim r) = afterToken delim r ++ 0 :: tail := drop_stop htail
  have hlt := start_lt_stop s hne
  have hle : s.saved ≤ s.start delim r := Nat.le_add_right _ _
  have hmem : 0 ∉ r' := by
    intro hzero
    apply hended
    rw [← delims_append delim r, hafter]
    exact List.mem_append_right _ (List.mem_append_right _ (List.mem_cons_of_mem _ hzero))
  rw [hafter] at hstart hstop
  refine ⟨?_, ⟨hle, Nat.le_succ _, ⟨zero_notMem_token hended, r' ++ 0 :: tail, ?_⟩, fun i hi => ?_,
    List.length_set⟩,
    ⟨hmem, tail, ?_⟩⟩
  · have hempty : (token delim r).isEmpty = false := by simpa using hne
    have hget : s.buffer.getD (s.saved + (delims delim r).length + (token delim r).length) 0 =
        delim :=
      getD_of_drop hstop
    unfold Strtok.next
    simp only [htail, cstr_terminated hended, hempty, hget, hdelim, ite_false]
    rfl
  · dsimp only
    rw [List.drop_set, if_neg (Nat.not_lt.mpr (Nat.le_of_lt hlt)), hstart, Strtok.stop,
      Nat.add_sub_cancel_left, List.set_append_right _ _ (le_refl _), Nat.sub_self]
    rfl
  · dsimp only
    rw [List.getElem?_set_ne (by omega)]
  · dsimp only
    rw [List.drop_set_of_lt (Nat.lt_add_one _), ← List.drop_drop, hstop]
    rfl

end

theorem next_token (hdelim : delim ≠ 0) (h : s.Ahead r) {t : Nat × Bytes} {ts : List (Nat × Bytes)}
    (hwords : wordsAt delim s.saved r = t :: ts) :
    ∃ s' r', s.next delim = (some t.1, s') ∧ Cut s t s' ∧ s'.Ahead r' ∧
    wordsAt delim s'.saved r' = ts := by
  obtain ⟨tail, htail⟩ := h.here
  have hfree := delim_notMem_token delim r
  have hne : token delim r ≠ [] := by
    apply token_ne_nil (i := s.saved)
    rw [hwords]
    exact List.cons_ne_nil _ _
  rw [wordsAt_token] at hwords
  rcases afterToken_cases delim r with hr | ⟨r', hr⟩
  · rw [hr, List.append_nil, wordsAt_last _ hne hfree] at hwords
    obtain ⟨rfl, rfl⟩ := List.cons.inj hwords
    obtain ⟨hnext, hC, hA⟩ := next_last htail h.ended hne hr
    exact ⟨_, [], hnext, hC, hA, wordsAt_nil _⟩
  · rw [hr, wordsAt_word _ hne hfree] at hwords
    obtain ⟨rfl, rfl⟩ := List.cons.inj hwords
    obtain ⟨hnext, hC, hA⟩ := next_cut htail h.ended hne hdelim hr
    exact ⟨_, r', hnext, hC, hA, rfl⟩

end

end CString

end Lib
