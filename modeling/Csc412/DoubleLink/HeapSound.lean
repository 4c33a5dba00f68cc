import Csc412.DoubleLink.SequenceSound

/-!
# Linked lists in the heap

What reversing a list and removing an element of it do to the heap as a whole. Reversing
twice gives the heap back, and removing frees a node and its block and leaves all others.
-/

namespace Csc412.DoubleLink

open Lib

section
variable {h h' : Heap} {head : Ptr} {cs : List Cell}

/-! ## Reversing -/

theorem heap_ext (hnodes : h'.nodes = h.nodes) (hblocks : h'.blocks = h.blocks)
    (htop : h'.top = h.top) : h' = h := by
  obtain ⟨nodes, blocks, top, _⟩ := h
  obtain ⟨nodes', blocks', top', _⟩ := h'
  obtain rfl : nodes' = nodes := hnodes
  obtain rfl : blocks' = blocks := hblocks
  obtain rfl : top' = top := htop
  rfl

/-- The links of a list are all that a heap with the list can differ in. -/
theorem Linked.heap_eq (hl : Linked h head cs) (hl' : Linked h' head cs) (hkept : Kept h h' cs) :
    h' = h := by
  apply heap_ext ?_ hkept.blocks hkept.top
  funext p
  by_cases hp : ∃ c ∈ cs, c.node = p
  · obtain ⟨c, hc, rfl⟩ := hp
    exact hl.links.nodes_eq hl'.links hc
  · exact hkept.nodes p fun c hc heq => hp ⟨c, hc, heq⟩

/-- A list of the same nodes in the other order, and the old heap after a second time. -/
theorem reverse_involutive (hl : Linked h head cs) (hcs : cs ≠ []) :
    ∃ h', (∀ fuel, cs.length < fuel → reverse fuel h head = .ok (last 0 cs, h')) ∧
      Linked h' (last 0 cs) cs.reverse ∧ Kept h h' cs ∧
      ∀ fuel, cs.length < fuel → reverse fuel h' (last 0 cs) = .ok (head, h) := by
  obtain ⟨h₁, hrun₁, hl₁, hkept₁⟩ := reverse_linked hl hcs
  obtain ⟨h₂, hrun₂, hl₂, hkept₂⟩ := reverse_linked hl₁ (mt List.reverse_eq_nil_iff.mp hcs)
  have hhead : last 0 cs.reverse = head := by
    rw [← first_reverse, List.reverse_reverse, hl.head_eq]
  rw [List.reverse_reverse, hhead] at hl₂
  have hsame : h₂ = h := hl.heap_eq hl₂ (hkept₁.trans (hkept₂.mono fun _ => List.mem_reverse.mp))
  rw [List.length_reverse, hhead, hsame] at hrun₂
  exact ⟨h₁, hrun₁, hl₁, hkept₁, hrun₂⟩

/-! ## Removing -/

/-- The bytes of each cell are the first `size` bytes of its block. -/
def Readable (h : Heap) (size : Nat) (cs : List Cell) : Prop :=
  ∀ c ∈ cs, c.data ≠ 0 ∧ c.bytes.length = size ∧ ∃ rest,
    h.blocks c.data = some (c.bytes.map some ++ rest)

variable {toRemove : List UInt8} {size : Nat}

theorem Readable.memcmp {c : Cell} (hr : Readable h size cs) (hc : c ∈ cs)
    (hsize : size ≤ toRemove.length) :
    h.memcmp c.data toRemove size = .ok (c.bytes == toRemove.take size) := by
  obtain ⟨hne, hlen, rest, hblock⟩ := hr c hc
  rw [← hlen] at hsize ⊢
  exact memcmp_initial hne hblock hsize

/-- The loop passes over cells with other bytes. -/
theorem removeLoop_walk {pre as rest : List Cell} (hl : Linked h head (pre ++ as ++ rest))
    (hr : Readable h size as) (hsize : size ≤ toRemove.length)
    (hother : ∀ a ∈ as, a.bytes ≠ toRemove.take size) (fuel : Nat) :
    removeLoop h head toRemove size (as.length + fuel) (first as (first rest 0)) =
      removeLoop h head toRemove size fuel (first rest 0) := by
  induction as generalizing pre with
  | nil => rw [List.length_nil, Nat.zero_add, first]
  | cons a as ih =>
    have hcmp := hr.memcmp List.mem_cons_self hsize
    rw [beq_eq_false_iff_ne.mpr (hother a List.mem_cons_self)] at hcmp
    have hla : Linked h head (pre ++ a :: (as ++ rest)) := by simpa using hl
    have hlas : Linked h head (pre ++ [a] ++ as ++ rest) := by simpa using hl
    rw [List.length_cons, Nat.add_right_comm, first, removeLoop_step hla hcmp,
      if_neg Bool.false_ne_true, first_append]
    exact ih hlas (fun c hc => hr c (List.mem_cons_of_mem _ hc))
      fun c hc => hother c (List.mem_cons_of_mem _ hc)

theorem removeElement_eq (hl : Linked h head cs) (fuel : Nat) (hfuel : cs.length < fuel) :
    removeElement fuel h head toRemove size =
        removeLoop h head toRemove size fuel (first cs 0) := by
  obtain ⟨k, rfl⟩ := Nat.exists_eq_add_of_le' (Nat.lt_of_le_of_lt (Nat.zero_le _) hfuel)
  rw [hl.head_eq, removeElement]
  by_cases hzero : first cs 0 = 0
  · rw [if_pos hzero, removeLoop, if_pos hzero]
  · rw [if_neg hzero]

theorem removeElement_absent (hl : Linked h head cs) (hr : Readable h size cs)
    (hsize : size ≤ toRemove.length) (hother : ∀ c ∈ cs, c.bytes ≠ toRemove.take size) (fuel : Nat)
    (hfuel : cs.length < fuel) :
    removeElement fuel h head toRemove size = .ok (0, head, h) := by
  obtain ⟨k, rfl⟩ : ∃ k, fuel = cs.length + (k + 1) := ⟨fuel - cs.length - 1, by omega⟩
  have hwalk := @removeLoop_walk h head toRemove size [] cs [] (by simpa using hl) hr hsize
    hother (k + 1)
  rw [removeElement_eq hl _ hfuel]
  exact hwalk

theorem removeElement_present {as bs : List Cell} {c : Cell} (hl : Linked h head (as ++ c :: bs))
    (hr : Readable h size (as ++ c :: bs)) (hsize : size ≤ toRemove.length)
    (hother : ∀ a ∈ as, a.bytes ≠ toRemove.take size) (hbytes : c.bytes = toRemove.take size) :
    ∃ h', (∀ fuel, (as ++ c :: bs).length < fuel → removeElement fuel h head toRemove size =
      .ok (1, first (as ++ bs) 0, h')) ∧
      Linked h' (first (as ++ bs) 0) (as ++ bs) ∧ Freed h h' c (as ++ bs) := by
  have hc : c ∈ as ++ c :: bs := List.mem_append_right _ List.mem_cons_self
  obtain ⟨hdne, -, rest, hblock⟩ := hr c hc
  obtain ⟨h', hunlink, hl', hfreed⟩ := unlink_linked hl hdne hblock
  refine ⟨h', ?_, hl', hfreed⟩
  intro fuel hfuel
  obtain ⟨k, hk⟩ : ∃ k, fuel = as.length + (k + 1) :=
    ⟨fuel - as.length - 1, by simp at hfuel; omega⟩
  have hwalk := @removeLoop_walk h head toRemove size [] as (c :: bs) (by simpa using hl)
    (fun a ha => hr a (List.mem_append_left _ ha)) hsize hother (k + 1)
  have hcmp := hr.memcmp hc hsize
  rw [beq_iff_eq.mpr hbytes] at hcmp
  rw [removeElement_eq hl _ hfuel, hk, first_append, hwalk, first, removeLoop_step hl hcmp,
    if_pos rfl, hunlink]
  rfl

/-- The first node with the bytes is taken out and freed, and without one the heap stays as
it is. -/
theorem removeElement_first (hl : Linked h head cs) (hr : Readable h size cs)
    (hsize : size ≤ toRemove.length) :
    (∃ as c bs h', cs = as ++ c :: bs ∧ (∀ a ∈ as, a.bytes ≠ toRemove.take size) ∧
      c.bytes = toRemove.take size ∧
      (∀ fuel, cs.length < fuel → removeElement fuel h head toRemove size =
        .ok (1, first (as ++ bs) 0, h')) ∧
      Linked h' (first (as ++ bs) 0) (as ++ bs) ∧ Freed h h' c (as ++ bs)) ∨
    (∀ c ∈ cs, c.bytes ≠ toRemove.take size) ∧
      ∀ fuel, cs.length < fuel → removeElement fuel h head toRemove size = .ok (0, head, h) := by
  cases hfind : cs.find? fun c => c.bytes = toRemove.take size with
  | none =>
    have hother : ∀ c ∈ cs, c.bytes ≠ toRemove.take size := by simpa using hfind
    exact .inr ⟨hother, removeElement_absent hl hr hsize hother⟩
  | some c =>
    obtain ⟨hbytes, as, bs, rfl, hother⟩ := List.find?_eq_some_iff_append.mp hfind
    have hother : ∀ a ∈ as, a.bytes ≠ toRemove.take size := by simpa using hother
    have hbytes : c.bytes = toRemove.take size := by simpa using hbytes
    obtain ⟨h', hrun, hl', hfreed⟩ := removeElement_present hl hr hsize hother hbytes
    exact .inl ⟨as, c, bs, h', rfl, hother, hbytes, hrun, hl', hfreed⟩

end

/-! ## Two nodes -/

theorem reverse_involutive_twoNodes :
    ∃ h', reverse 3 twoNodes.heap 1 = .ok (2, h') ∧ reverse 3 h' 2 = .ok (1, twoNodes.heap) := by
  obtain ⟨h', hrun, -, -, hback⟩ := reverse_involutive twoNodes_shape.linked (List.cons_ne_nil _ _)
  exact ⟨h', hrun 3 (by decide), hback 3 (by decide)⟩

theorem twoNodes_readable : Readable twoNodes.heap 1 [⟨1, 3, [7]⟩, ⟨2, 4, [8]⟩] := by
  intro c hc
  simp only [List.mem_cons, List.not_mem_nil, or_false] at hc
  rcases hc with rfl | rfl
  · exact ⟨by decide, rfl, [], rfl⟩
  · exact ⟨by decide, rfl, [], rfl⟩

/-- The second byte is not compared. -/
theorem removeElement_first_twoNodes :
    ∃ head' h', removeElement 3 twoNodes.heap 1 [8, 9] 1 = .ok (1, head', h') := by
  have hsize : 1 ≤ ([8, 9] : List UInt8).length := by decide
  rcases removeElement_first twoNodes_shape.linked twoNodes_readable hsize with ⟨_, _, _, h', _, _,
    _, hrun, _⟩ | ⟨hother, _⟩
  · exact ⟨_, h', hrun 3 (by decide)⟩
  · exact absurd rfl (hother ⟨2, 4, [8]⟩ (by simp))

end Csc412.DoubleLink
