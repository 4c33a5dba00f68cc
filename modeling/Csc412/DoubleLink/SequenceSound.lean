import Csc412.DoubleLink.LinkedListSound

/-!
# Runs of the linked list functions

The functions are called one after another on one list. A call meets its contract when it
returns, when its result is what the sequence says and when the list is the sequence after
it. Which calls do is decided by the sequence alone.
-/

namespace Csc412.DoubleLink

inductive Call where
  | insertLast (bytes : List UInt8)
  | removeFirst
  | removeElement (bytes : List UInt8)
  | reverse
  | lengthList
  | getFirst
  | getLast

structure State where
  heap : Heap
  head : Ptr

/-- A call with what it returns; a function without a result returns 0. -/
def run (malloc : Malloc) (fuel : Nat) (s : State) : Call → Except Fault (Nat × State)
  | .insertLast bytes => do
    let (head, h) ← insertLast malloc fuel s.heap s.head (some bytes) bytes.length
    .ok (0, ⟨h, head⟩)
  | .removeFirst => do
    let (data, head, h) ← removeFirst s.heap s.head
    .ok (data, ⟨h, head⟩)
  | .removeElement bytes => do
    let (result, head, h) ← removeElement fuel s.heap s.head bytes bytes.length
    .ok (result, ⟨h, head⟩)
  | .reverse => do
    let (head, h) ← reverse fuel s.heap s.head
    .ok (0, ⟨h, head⟩)
  | .lengthList => do .ok (← lengthList fuel s.head, s)
  | .getFirst => do .ok (← getFirst s.heap s.head, s)
  | .getLast => do .ok (← getLast fuel s.heap s.head, s)

/-- The call comes to an end with this result and state. -/
def Returns (malloc : Malloc) (s : State) (c : Call) (result : Nat) (s' : State) : Prop :=
  ∃ rounds, ∀ fuel, rounds ≤ fuel → run malloc fuel s c = .ok (result, s')

/-! ## Sequences -/

/-- The list is well formed and its blocks hold the sequence. -/
def Represents (s : State) (xs : List (List UInt8)) : Prop :=
  ∃ cs, Shape s.heap s.head cs ∧ cs.map Cell.bytes = xs

def Call.after (xs : List (List UInt8)) : Call → List (List UInt8)
  | .insertLast bytes => xs ++ [bytes]
  | .removeFirst => xs.tail
  | .removeElement bytes => xs.eraseP (isMatch bytes)
  | .reverse => xs.reverse
  | .lengthList => xs
  | .getFirst => xs
  | .getLast => xs

/-- A pointer to an element, or the null pointer if there is none. -/
def PointsTo (h : Heap) (p : Ptr) : Option (List UInt8) → Prop
  | some x => p ≠ 0 ∧ h.blocks p = some (x.map some)
  | none => p = 0

/-- What a call on the sequence `xs` has to return, with the heap after it. -/
def Call.ResultOk (xs : List (List UInt8)) (h : Heap) (result : Nat) : Call → Prop
  | .insertLast _ => True
  | .removeFirst => PointsTo h result xs.head?
  | .removeElement bytes => result = if xs.any (isMatch bytes) then 1 else 0
  | .reverse => True
  | .lengthList => result = xs.length
  | .getFirst => PointsTo h result xs.head?
  | .getLast => PointsTo h result xs.getLast?

/-- The call returns, with the right result and the right list. -/
def Meets (malloc : Malloc) (s : State) (xs : List (List UInt8)) (c : Call) (s' : State) : Prop :=
  ∃ result, Returns malloc s c result s' ∧ c.ResultOk xs s'.heap result ∧ Represents s' (c.after xs)

def MeetsAll (malloc : Malloc) : List Call → State → List (List UInt8) → Prop
  | [], _, _ => True
  | c :: cs, s, xs => ∃ s', Meets malloc s xs c s' ∧ MeetsAll malloc cs s' (c.after xs)

/-- The calls that the code gets right on the sequence. -/
def Call.Fine (xs : List (List UInt8)) : Call → Prop
  | .insertLast _ => False
  | .removeFirst => xs = []
  | .removeElement bytes => ∀ x ∈ xs.takeWhile (!isMatch bytes ·), bytes.length ≤ x.length
  | .reverse => xs ≠ []
  | .lengthList => xs = []
  | .getFirst => xs ≠ []
  | .getLast => True

def AllFine : List Call → List (List UInt8) → Prop
  | [], _ => True
  | c :: cs, xs => c.Fine xs ∧ AllFine cs (c.after xs)

section
variable {malloc : Malloc} {s s' : State} {xs : List (List UInt8)} {c : Call}

/-! ## The calls that are right -/

theorem Shape.head_zero {h : Heap} {head : Ptr} (hs : Shape h head []) : head = 0 := hs.head_eq

theorem Represents.first (hs : Represents s xs) (hxs : xs ≠ []) :
    ∃ d, s.heap.getData s.head = .ok d ∧ PointsTo s.heap d xs.head? := by
  obtain ⟨cs, hs, rfl⟩ := hs
  cases cs with
  | nil => exact absurd rfl hxs
  | cons c cs =>
    obtain ⟨hne, hnode, -⟩ := hs.links
    refine ⟨c.data, ?_, hs.blocks c List.mem_cons_self⟩
    rw [hs.head_eq]
    exact getData_eq hne hnode

theorem Represents.last (hs : Represents s xs) :
    ∃ d rounds, (∀ fuel, rounds ≤ fuel → getLast fuel s.heap s.head = .ok d) ∧
    PointsTo s.heap d xs.getLast? := by
  obtain ⟨cs, hs, rfl⟩ := hs
  obtain rfl | ⟨as, c, rfl⟩ := cs.eq_nil_or_concat'
  · refine ⟨0, 0, ?_, rfl⟩
    intro fuel _
    rw [getLast, if_pos hs.head_zero]
  · refine ⟨c.data, as.length + 1, ?_, ?_⟩
    · intro fuel hfuel
      exact getLast_shape hs hfuel
    · rw [List.map_append, List.map_singleton, List.getLast?_concat]
      exact hs.blocks c (by simp)

theorem Represents.reversed (hs : Represents s xs) (hxs : xs ≠ []) :
    ∃ s' rounds, (∀ fuel, rounds ≤ fuel → reverse fuel s.heap s.head = .ok (s'.head, s'.heap)) ∧
    Represents s' xs.reverse := by
  obtain ⟨cs, hs, rfl⟩ := hs
  have hcs : cs ≠ [] := by
    intro hcs
    exact hxs (by rw [hcs]; rfl)
  obtain ⟨h', hrun, hs'⟩ := reverse_shape hs hcs
  exact ⟨⟨h', DoubleLink.first cs.reverse 0⟩, cs.length + 1, hrun, cs.reverse, hs',
    List.map_reverse⟩

theorem Represents.removed {bytes : List UInt8} (hs : Represents s xs)
    (hlen : ∀ x ∈ xs.takeWhile (!isMatch bytes ·), bytes.length ≤ x.length) :
    ∃ s' rounds, (∀ fuel, rounds ≤ fuel → removeElement fuel s.heap s.head bytes bytes.length =
        .ok (if xs.any (isMatch bytes) then 1 else 0, s'.head, s'.heap)) ∧
      Represents s' (xs.eraseP (isMatch bytes)) := by
  obtain ⟨cs, hs, rfl⟩ := hs
  obtain ⟨head', h', cs', hrun, hs', hcs'⟩ := @removeLoop_shape _ _ [] cs bytes hs hlen
  refine ⟨⟨h', head'⟩, cs.length + 1, ?_, cs', hs', hcs'⟩
  intro fuel hfuel
  rw [removeElement, ← hrun fuel hfuel, ← hs.head_eq]
  by_cases hhead : s.head = 0
  · obtain ⟨k, rfl⟩ := Nat.exists_eq_add_of_le' hfuel
    rw [if_pos hhead, removeLoop.eq_def]
    exact (if_pos hhead).symm
  · rw [if_neg hhead]

theorem meets_of_fine (hs : Represents s xs) (hfine : c.Fine xs) :
    ∃ s', Meets malloc s xs c s' := by
  cases c with
  | insertLast bytes => exact hfine.elim
  | removeFirst =>
    obtain rfl : xs = [] := hfine
    obtain ⟨cs, hcs, hxs⟩ := hs
    obtain rfl := List.map_eq_nil_iff.mp hxs
    refine ⟨s, 0, ⟨0, ?_⟩, rfl, [], hcs, rfl⟩
    intro fuel _
    rw [run, removeFirst, if_pos hcs.head_zero]
    rfl
  | removeElement bytes =>
    obtain ⟨s', rounds, hrun, hs'⟩ := hs.removed hfine
    refine ⟨s', _, ⟨rounds, ?_⟩, rfl, hs'⟩
    intro fuel hfuel
    rw [run, hrun fuel hfuel]
    rfl
  | reverse =>
    obtain ⟨s', rounds, hrun, hs'⟩ := hs.reversed hfine
    refine ⟨s', 0, ⟨rounds, ?_⟩, trivial, hs'⟩
    intro fuel hfuel
    rw [run, hrun fuel hfuel]
    rfl
  | lengthList =>
    obtain rfl : xs = [] := hfine
    obtain ⟨cs, hcs, hxs⟩ := hs
    obtain rfl := List.map_eq_nil_iff.mp hxs
    refine ⟨s, 0, ⟨0, ?_⟩, rfl, [], hcs, rfl⟩
    intro fuel _
    rw [run, lengthList, if_pos hcs.head_zero]
    rfl
  | getFirst =>
    obtain ⟨d, hrun, hpoints⟩ := hs.first hfine
    refine ⟨s, d, ⟨0, ?_⟩, hpoints, hs⟩
    intro fuel _
    rw [run, getFirst, hrun]
    rfl
  | getLast =>
    obtain ⟨d, rounds, hrun, hpoints⟩ := hs.last
    refine ⟨s, d, ⟨rounds, ?_⟩, hpoints, hs⟩
    intro fuel hfuel
    rw [run, hrun fuel hfuel]
    rfl

/-! ## The calls that are wrong -/

theorem Represents.head_ne (hs : Represents s xs) (hxs : xs ≠ []) : s.head ≠ 0 := by
  obtain ⟨cs, hs, rfl⟩ := hs
  exact hs.head_ne fun hcs => hxs (by rw [hcs]; rfl)

theorem Represents.head_zero (hs : Represents s []) : s.head = 0 := by
  obtain ⟨cs, hs, hcs⟩ := hs
  obtain rfl := List.map_eq_nil_iff.mp hcs
  exact hs.head_zero

theorem lengthLoop_rounds {p : Ptr} (hp : p ≠ 0) (fuel len : Nat) :
    lengthLoop fuel p len = .error .rounds := by
  induction fuel generalizing len with
  | zero => rw [lengthLoop, if_neg hp]
  | succ fuel ih => rw [lengthLoop, if_neg hp, ih]

theorem insertLast_empty {bytes : List UInt8} (hs : Represents s []) {fuel result : Nat}
    (hrun : run malloc fuel s (.insertLast bytes) = .ok (result, s')) :
    ¬ Represents s' [bytes] := by
  by_cases hsize : sizePred bytes.length ≤ bytes.length
  · obtain ⟨e, d, h₁, -, -, -, hblock, heq⟩ :=
      @insertLast_eq malloc s.heap s.head bytes bytes.length hsize
    rw [run, heq, if_pos hs.head_zero] at hrun
    obtain rfl : _ = s' := (Prod.mk.inj (Except.ok.inj hrun)).2
    intro ⟨cs, hcs, hbytes⟩
    obtain ⟨c, rfl, rfl⟩ := List.map_eq_singleton_iff.mp hbytes
    obtain ⟨-, hnode, -⟩ := hcs.links
    obtain ⟨-, hdata⟩ := hcs.blocks c List.mem_cons_self
    have he : e = c.node := hcs.head_eq
    rw [← he, store_nodes, if_pos rfl] at hnode
    have hd : d = c.data := Option.some.inj (Node.mk.inj (Option.some.inj hnode)).1
    rw [← hd, store_blocks, store_blocks, hblock] at hdata
    have hlen := congrArg List.length (Option.some.inj hdata)
    rw [List.length_map, List.length_map, List.length_take, Nat.min_eq_left hsize] at hlen
    exact sizePred_ne _ hlen
  · rw [run, insertLast_error (by omega) fuel] at hrun
    cases hrun

theorem insertLast_unlinked {bytes : List UInt8} (hs : Represents s xs) (hxs : xs ≠ [])
    {result : Nat} (hreturns : Returns malloc s (.insertLast bytes) result s') :
    ¬ Represents s' (xs ++ [bytes]) := by
  obtain ⟨cs, hcs, rfl⟩ := hs
  obtain rfl | ⟨as, c, rfl⟩ := cs.eq_nil_or_concat'
  · exact absurd rfl hxs
  obtain ⟨rounds, hreturns⟩ := hreturns
  have hrun := hreturns (rounds + as.length + 1) (by omega)
  by_cases hsize : sizePred bytes.length ≤ bytes.length
  · obtain ⟨e, h', heq, hene, hlinks, hnext⟩ := @insertLast_seg malloc _ _ _ _ as c hcs hsize
    rw [run, heq _ (by omega)] at hrun
    obtain rfl : _ = s' := (Prod.mk.inj (Except.ok.inj hrun)).2
    intro ⟨cs', hcs', hbytes⟩
    obtain rfl | ⟨as', c', rfl⟩ := cs'.eq_nil_or_concat'
    · simp at hbytes
    have hlast := lastLoop_last hcs'.links (Nat.lt_of_lt_of_le (Nat.lt_succ_self _)
      (Nat.le_add_left (as'.length + 1) (as ++ [c]).length))
    -- the walk comes to the new node
    rw [← hcs'.head_eq] at hlast
    have hhead : s.head = DoubleLink.first (as ++ [c]) e := by
      rw [hcs.head_eq, first_append, first_append]
      rfl
    rw [hhead, lastLoop_walk hlinks hene, lastLoop, hnext] at hlast
    cases hlast
  · rw [run, insertLast_error (by omega)] at hrun
    cases hrun

theorem fine_of_meets (hs : Represents s xs) (hmeets : Meets malloc s xs c s') : c.Fine xs := by
  obtain ⟨result, hreturns, hresult, hs'⟩ := hmeets
  cases c with
  | insertLast bytes =>
    by_cases hxs : xs = []
    · subst hxs
      obtain ⟨rounds, hreturns⟩ := hreturns
      exact insertLast_empty hs (hreturns rounds (Nat.le_refl _)) hs'
    · exact insertLast_unlinked hs hxs hreturns hs'
  | removeFirst =>
    obtain ⟨rounds, hreturns⟩ := hreturns
    have hrun := hreturns rounds (Nat.le_refl _)
    obtain ⟨cs, hcs, rfl⟩ := hs
    cases cs with
    | nil => rfl
    | cons c cs =>
      rw [run, removeFirst_freed hcs] at hrun
      cases hrun
  | removeElement bytes =>
    obtain ⟨rounds, hreturns⟩ := hreturns
    have hrun := hreturns rounds (Nat.le_refl _)
    obtain ⟨cs, hcs, rfl⟩ := hs
    intro x hx
    by_contra hlen
    rw [run, removeElement] at hrun
    by_cases hhead : s.head = 0
    · have hnil : cs = [] := by
        by_contra hne
        exact hcs.head_ne hne hhead
      subst hnil
      cases hx
    · rw [if_neg hhead] at hrun
      have hshort := @removeLoop_short _ _ [] cs bytes hcs ⟨x, hx, Nat.lt_of_not_le hlen⟩ rounds
      rw [← hcs.head_eq] at hshort
      cases heq : removeLoop s.heap s.head bytes bytes.length rounds s.head with
      | ok r => exact hshort r heq
      | error fault =>
        rw [heq] at hrun
        cases hrun
  | reverse =>
    rintro rfl
    obtain ⟨rounds, hreturns⟩ := hreturns
    have hrun := hreturns rounds (Nat.le_refl _)
    rw [run, hs.head_zero] at hrun
    cases hrun
  | lengthList =>
    obtain ⟨rounds, hreturns⟩ := hreturns
    have hrun := hreturns rounds (Nat.le_refl _)
    by_contra hxs
    have hhead := hs.head_ne hxs
    rw [run, lengthList, if_neg hhead, lengthLoop_rounds hhead] at hrun
    cases hrun
  | getFirst =>
    rintro rfl
    obtain ⟨rounds, hreturns⟩ := hreturns
    have hrun := hreturns rounds (Nat.le_refl _)
    rw [run, hs.head_zero] at hrun
    cases hrun
  | getLast => trivial

/-! ## Runs -/

theorem Meets.represents (hmeets : Meets malloc s xs c s') : Represents s' (c.after xs) := by
  obtain ⟨_, -, -, hs'⟩ := hmeets
  exact hs'

theorem meetsAll_iff (cs : List Call) (hs : Represents s xs) :
    MeetsAll malloc cs s xs ↔ AllFine cs xs := by
  induction cs generalizing s xs with
  | nil => exact Iff.rfl
  | cons c cs ih =>
    constructor
    · intro ⟨s', hmeets, hrest⟩
      exact ⟨fine_of_meets hs hmeets, (ih hmeets.represents).mp hrest⟩
    · intro ⟨hfine, hrest⟩
      obtain ⟨s', hmeets⟩ := meets_of_fine hs hfine
      exact ⟨s', hmeets, (ih hmeets.represents).mpr hrest⟩

/-- The list is read in every way after the call. -/
def observed (c : Call) : List Call := [c, .lengthList, .getFirst, .getLast]

theorem observed_not_fine (c : Call) (cs : List Call) (xs : List (List UInt8)) :
    ¬ AllFine (observed c ++ cs) xs := by
  intro ⟨_, hlength, hfirst, _⟩
  exact hfirst hlength

theorem calls_right_exactly (hs : Represents s xs) (cs : List Call) :
    (MeetsAll malloc cs s xs ↔ AllFine cs xs) ∧
    (MeetsAll malloc (cs.flatMap observed) s xs ↔ cs = []) := by
  refine ⟨meetsAll_iff cs hs, ?_⟩
  rw [meetsAll_iff _ hs]
  cases cs with
  | nil => exact ⟨fun _ => rfl, fun _ => trivial⟩
  | cons c cs =>
    rw [List.flatMap_cons]
    constructor
    · intro hfine
      exact absurd hfine (observed_not_fine c _ xs)
    · intro hnil
      cases hnil

end

/-- Memory is handed out upwards. -/
def bump : Malloc where
  addr h := max 1 h.top
  ne_null := by
    intro h
    exact Nat.ne_of_gt (Nat.lt_of_lt_of_le Nat.one_pos (Nat.le_max_left _ _))
  unused := by
    intro h
    exact h.bounded _ (Nat.le_max_right _ _)

def noHeap : Heap := ⟨fun _ => none, fun _ => none, 0, fun _ _ => ⟨rfl, rfl⟩⟩

def twoNodes : State where
  heap := ((noHeap.store 1 (some ⟨some 3, some 2, some 0⟩)).store 2
    (some ⟨some 4, some 0, some 1⟩)).storeBlock 3 (some [some 7])
    |>.storeBlock 4 (some [some 8])
  head := 1

theorem twoNodes_shape : Shape twoNodes.heap twoNodes.head [⟨1, 3, [7]⟩, ⟨2, 4, [8]⟩] := by
  refine ⟨rfl, ?_, ?_, by decide, by decide⟩
  · refine ⟨by decide, ?_, by decide, ?_, trivial⟩ <;> rfl
  · intro c hc
    simp only [List.mem_cons, List.not_mem_nil, or_false] at hc
    obtain rfl | rfl := hc
    · exact ⟨by decide, rfl⟩
    · exact ⟨by decide, rfl⟩

theorem twoNodes_represents : Represents twoNodes [[7], [8]] := ⟨_, twoNodes_shape, rfl⟩

theorem calls_right_twoNodes :
    MeetsAll bump [.reverse, .getFirst, .removeElement [7], .getLast] twoNodes [[7], [8]] := by
  apply (calls_right_exactly twoNodes_represents _).1.mpr
  simp [AllFine, Call.Fine, Call.after, isMatch]

/-- The first element that is inserted loses its last byte. -/
theorem insertLast_not_met : ¬ MeetsAll bump [.insertLast [7, 8]] ⟨noHeap, 0⟩ [] := by
  intro ⟨s', hmeets, _⟩
  have hs : Represents ⟨noHeap, 0⟩ [] :=
    ⟨[], ⟨rfl, trivial, fun c hc => absurd hc List.not_mem_nil, List.nodup_nil, List.nodup_nil⟩,
      rfl⟩
  exact fine_of_meets hs hmeets

end Csc412.DoubleLink
