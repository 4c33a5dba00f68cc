import Mathlib.Data.List.Induction
import Mathlib.Data.List.Nodup
import Csc412.Lib.Fallible
import Csc412.DoubleLink.LinkedList

/-!
# Linked lists as sequences

A heap represents a sequence when its nodes are linked both ways and their blocks hold the
elements. Reading the last element, removing an element and reversing a list that is not
empty do what they do to sequences. The other functions do so for some lists only.
-/

namespace Csc412.DoubleLink

open Lib

/-! ## Nodes -/

section
variable {h : Heap} {p v : Ptr} {d n q : Option Ptr}

theorem load_some (v : Ptr) : load (some v) = .ok v := rfl

theorem node_eq (hp : p ≠ 0) {m : Node} (hm : h.nodes p = some m) : h.node p = .ok m := by
  simp [Heap.node, hp, hm]

theorem block_eq (hp : p ≠ 0) {b : List (Option UInt8)} (hb : h.blocks p = some b) :
    h.block p = .ok b := by
  simp [Heap.block, hp, hb]

theorem getData_eq (hp : p ≠ 0) (hm : h.nodes p = some ⟨d, n, q⟩) : h.getData p = load d := by
  rw [Heap.getData, node_eq hp hm]
  rfl

theorem getNext_eq (hp : p ≠ 0) (hm : h.nodes p = some ⟨d, n, q⟩) : h.getNext p = load n := by
  rw [Heap.getNext, node_eq hp hm]
  rfl

theorem getPrev_eq (hp : p ≠ 0) (hm : h.nodes p = some ⟨d, n, q⟩) : h.getPrev p = load q := by
  rw [Heap.getPrev, node_eq hp hm]
  rfl

theorem setData_eq (hp : p ≠ 0) (hm : h.nodes p = some ⟨d, n, q⟩) :
    h.setData p v = .ok (h.store p (some ⟨some v, n, q⟩)) := by
  rw [Heap.setData, node_eq hp hm]
  rfl

theorem setNext_eq (hp : p ≠ 0) (hm : h.nodes p = some ⟨d, n, q⟩) :
    h.setNext p v = .ok (h.store p (some ⟨d, some v, q⟩)) := by
  rw [Heap.setNext, node_eq hp hm]
  rfl

theorem setPrev_eq (hp : p ≠ 0) (hm : h.nodes p = some ⟨d, n, q⟩) :
    h.setPrev p v = .ok (h.store p (some ⟨d, n, some v⟩)) := by
  rw [Heap.setPrev, node_eq hp hm]
  rfl

theorem freeNode_eq (hp : p ≠ 0) {m : Node} (hm : h.nodes p = some m) :
    h.freeNode p = .ok (h.store p none) := by
  rw [Heap.freeNode, node_eq hp hm]
  rfl

theorem freeBlock_eq (hp : p ≠ 0) {b : List (Option UInt8)} (hb : h.blocks p = some b) :
    h.freeBlock p = .ok (h.storeBlock p none) := by
  rw [Heap.freeBlock, block_eq hp hb]
  rfl

@[simp] theorem store_nodes (h : Heap) (p r : Ptr) (m : Option Node) :
    (h.store p m).nodes r = if r = p then m else h.nodes r := by
  simp [Heap.store, Function.update_apply]

@[simp] theorem store_blocks (h : Heap) (p : Ptr) (m : Option Node) :
    (h.store p m).blocks = h.blocks := rfl

@[simp] theorem storeBlock_nodes (h : Heap) (p : Ptr) (b : Option (List (Option UInt8))) :
    (h.storeBlock p b).nodes = h.nodes := rfl

@[simp] theorem storeBlock_blocks (h : Heap) (p r : Ptr) (b : Option (List (Option UInt8))) :
    (h.storeBlock p b).blocks r = if r = p then b else h.blocks r := by
  simp [Heap.storeBlock, Function.update_apply]

end

/-! ## Segments -/

/-- A node, its data block and what the block holds. -/
structure Cell where
  node : Ptr
  data : Ptr
  bytes : List UInt8

/-- The first node, or `next` if there is none. -/
def first : List Cell → Ptr → Ptr
  | [], next => next
  | c :: _, _ => c.node

/-- The last node, or `prev` if there is none. -/
def last : Ptr → List Cell → Ptr
  | prev, [] => prev
  | _, c :: cs => last c.node cs

/-- The cells are linked one after another, between `prev` and `next`. -/
def Seg (h : Heap) : Ptr → List Cell → Ptr → Prop
  | _, [], _ => True
  | prev, c :: cs, next => c.node ≠ 0 ∧
    h.nodes c.node = some ⟨some c.data, some (first cs next), some prev⟩ ∧ Seg h c.node cs next

section
variable {h h' : Heap} {prev next : Ptr} {as bs cs : List Cell} {c : Cell}

theorem first_append (as bs : List Cell) (next : Ptr) :
    first (as ++ bs) next = first as (first bs next) := by
  cases as <;> rfl

theorem last_append (prev : Ptr) (as bs : List Cell) :
    last prev (as ++ bs) = last (last prev as) bs := by
  induction as generalizing prev with
  | nil => rfl
  | cons a as ih => exact ih a.node

theorem seg_append :
    Seg h prev (as ++ bs) next ↔ Seg h prev as (first bs next) ∧ Seg h (last prev as) bs next := by
  induction as generalizing prev with
  | nil => simp [Seg, last]
  | cons a as ih =>
    simp only [List.cons_append, Seg, ih, first_append, last]
    exact ⟨fun ⟨h₁, h₂, h₃, h₄⟩ => ⟨⟨h₁, h₂, h₃⟩, h₄⟩, fun ⟨⟨h₁, h₂, h₃⟩, h₄⟩ => ⟨h₁, h₂, h₃, h₄⟩⟩

theorem Seg.frame (hseg : Seg h prev cs next) (heq : ∀ c ∈ cs, h'.nodes c.node = h.nodes c.node) :
    Seg h' prev cs next := by
  induction cs generalizing prev with
  | nil => trivial
  | cons c cs ih =>
    obtain ⟨hne, hnode, hrest⟩ := hseg
    refine ⟨hne, ?_, ih hrest fun c' hc' => heq c' (List.mem_cons_of_mem _ hc')⟩
    rw [heq c List.mem_cons_self]
    exact hnode

theorem Seg.store {p : Ptr} {m : Option Node} (hseg : Seg h prev cs next)
    (hp : ∀ c ∈ cs, c.node ≠ p) :
    Seg (h.store p m) prev cs next := by
  apply hseg.frame
  intro c hc
  rw [store_nodes, if_neg (hp c hc)]

theorem Seg.first_ne (hseg : Seg h prev cs next) (hcs : cs ≠ []) : first cs next ≠ 0 := by
  cases cs with
  | nil => exact absurd rfl hcs
  | cons c cs => exact hseg.1

theorem Seg.allocated (hseg : Seg h prev cs next) (hc : c ∈ cs) : h.nodes c.node ≠ none := by
  obtain ⟨as, bs, rfl⟩ := List.append_of_mem hc
  rw [(seg_append.mp hseg).2.2.1]
  exact Option.some_ne_none _

theorem Seg.ne_zero (hseg : Seg h prev cs next) (hc : c ∈ cs) : c.node ≠ 0 := by
  obtain ⟨as, bs, rfl⟩ := List.append_of_mem hc
  exact (seg_append.mp hseg).2.1

theorem Seg.nodes_eq (hseg : Seg h prev cs next) (hseg' : Seg h' prev cs next) (hc : c ∈ cs) :
    h'.nodes c.node = h.nodes c.node := by
  obtain ⟨as, bs, rfl⟩ := List.append_of_mem hc
  rw [(seg_append.mp hseg).2.2.1, (seg_append.mp hseg').2.2.1]

theorem Seg.relink (hseg : Seg h prev (as ++ [c]) next) (hc : ∀ a ∈ as, a.node ≠ c.node) (v : Ptr) :
    Seg (h.store c.node (some ⟨some c.data, some v, some (last prev as)⟩)) prev (as ++ [c]) v := by
  rw [seg_append] at hseg ⊢
  obtain ⟨has, hne, -, -⟩ := hseg
  refine ⟨has.store hc, hne, ?_, trivial⟩
  rw [store_nodes, if_pos rfl]
  rfl

theorem Seg.reprev (hseg : Seg h prev (c :: cs) next) (hc : ∀ a ∈ cs, a.node ≠ c.node) (v : Ptr) :
    Seg (h.store c.node (some ⟨some c.data, some (first cs next), some v⟩)) v (c :: cs) next := by
  obtain ⟨hne, -, hrest⟩ := hseg
  refine ⟨hne, ?_, hrest.store hc⟩
  rw [store_nodes, if_pos rfl]

theorem nodup_middle {f : Cell → Ptr} (hnodup : ((as ++ c :: bs).map f).Nodup) :
    (∀ a ∈ as ++ bs, f a ≠ f c) ∧ ((as ++ bs).map f).Nodup := by
  rw [List.map_append, List.map_cons, List.nodup_middle, List.nodup_cons, ← List.map_append]
    at hnodup
  refine ⟨fun a ha heq => hnodup.1 ?_, hnodup.2⟩
  rw [← heq]
  exact List.mem_map_of_mem ha

theorem last_mem {p : Ptr} (hcs : cs ≠ []) : ∃ c ∈ cs, last p cs = c.node := by
  obtain ⟨cs, c, rfl⟩ := cs.eq_nil_or_concat'.resolve_left hcs
  exact ⟨c, by simp, by rw [last_append]; rfl⟩

theorem first_reverse (cs : List Cell) (next : Ptr) : first cs.reverse next = last next cs := by
  induction cs generalizing next with
  | nil => rfl
  | cons c cs ih =>
    rw [List.reverse_cons, first_append, ih]
    rfl

/-- No node occurs twice, as the nodes before it would, up to the first one. -/
theorem Seg.nodup (hseg : Seg h 0 cs next) : (cs.map Cell.node).Nodup := by
  induction cs using List.reverseRecOn generalizing next with
  | nil => exact .nil
  | append_singleton as c ih =>
    obtain ⟨has, -, hnode, -⟩ := seg_append.mp hseg
    have hnodup := ih has
    rw [List.map_append, List.map_singleton, ← List.concat_eq_append]
    refine hnodup.concat fun hmem => ?_
    obtain ⟨a, ha, heq⟩ := List.mem_map.mp hmem
    obtain ⟨xs, ys, rfl⟩ := List.append_of_mem ha
    obtain ⟨hxs, -, hanode, hys⟩ := seg_append.mp has
    rw [heq, hnode, Option.some.injEq, Node.mk.injEq, Option.some.injEq, Option.some.injEq,
      Option.some.injEq] at hanode
    have hprev := hanode.2.2
    rw [last_append] at hprev
    obtain ⟨y, hy, hlast⟩ : ∃ y ∈ a :: ys, last (last 0 xs) (a :: ys) = y.node :=
      last_mem (List.cons_ne_nil _ _)
    rw [hlast] at hprev
    by_cases hx : xs = []
    · rw [hx, last] at hprev
      exact has.ne_zero (List.mem_append_right _ hy) hprev
    · obtain ⟨x, hx, hlast⟩ := @last_mem xs 0 hx
      rw [hlast] at hprev
      rw [List.map_append, List.nodup_append] at hnodup
      exact hnodup.2.2 _ (List.mem_map_of_mem hx) _ (List.mem_map_of_mem hy) hprev.symm

end

/-! ## Lists -/

/-- The cells `cs` are linked both ways from `head` on. -/
structure Linked (h : Heap) (head : Ptr) (cs : List Cell) : Prop where
  head_eq : head = first cs 0
  links : Seg h 0 cs 0

/-- Only the links of the cells `cs` may have changed. -/
structure Kept (h h' : Heap) (cs : List Cell) : Prop where
  nodes : ∀ p, (∀ c ∈ cs, c.node ≠ p) → h'.nodes p = h.nodes p
  blocks : h'.blocks = h.blocks
  top : h'.top = h.top

/-- The node of `c` and its data block are freed, and only the links of the cells `cs` may
have changed. -/
structure Freed (h h' : Heap) (c : Cell) (cs : List Cell) : Prop where
  node : h'.nodes c.node = none
  nodes : ∀ p, p ≠ c.node → (∀ a ∈ cs, a.node ≠ p) → h'.nodes p = h.nodes p
  blocks : h'.blocks = Function.update h.blocks c.data none

/-- The heap holds the list of the cells `cs` at `head`. -/
structure Shape (h : Heap) (head : Ptr) (cs : List Cell) : Prop where
  head_eq : head = first cs 0
  links : Seg h 0 cs 0
  blocks : ∀ c ∈ cs, c.data ≠ 0 ∧ h.blocks c.data = some (c.bytes.map some)
  nodes : (cs.map Cell.node).Nodup
  datas : (cs.map Cell.data).Nodup

section
variable {h : Heap} {head prev next : Ptr} {as bs cs : List Cell} {c : Cell}

theorem Shape.head_ne (hs : Shape h head cs) (hcs : cs ≠ []) : head ≠ 0 := by
  rw [hs.head_eq]
  exact hs.links.first_ne hcs

theorem Shape.linked (hs : Shape h head cs) : Linked h head cs := ⟨hs.head_eq, hs.links⟩

theorem Linked.nodup (hl : Linked h head cs) : (cs.map Cell.node).Nodup := hl.links.nodup

theorem Kept.refl (h : Heap) (cs : List Cell) : Kept h h cs := ⟨fun _ _ => rfl, rfl, rfl⟩

theorem Kept.trans {h₁ h₂ h₃ : Heap} (hk : Kept h₁ h₂ cs) (hk' : Kept h₂ h₃ cs) : Kept h₁ h₃ cs :=
  ⟨fun p hp => (hk'.nodes p hp).trans (hk.nodes p hp), hk'.blocks.trans hk.blocks,
    hk'.top.trans hk.top⟩

theorem Kept.mono (hk : Kept h h' cs) (hsub : ∀ c ∈ cs, c ∈ bs) : Kept h h' bs :=
  ⟨fun p hp => hk.nodes p fun c hc => hp c (hsub c hc), hk.blocks, hk.top⟩

/-- A node that is allocated is below `top`. -/
theorem Kept.store (halloc : h.nodes c.node ≠ none) (hc : c ∈ cs) (m : Option Node) :
    Kept h (h.store c.node m) cs := by
  refine ⟨fun p hp => ?_, rfl, Nat.max_eq_left ?_⟩
  · rw [store_nodes, if_neg (hp c hc).symm]
  · by_contra htop
    exact halloc (h.bounded c.node (Nat.le_of_not_lt htop)).1

/-! ## The last node -/

theorem lastLoop_walk (hseg : Seg h prev as next) (hnext : next ≠ 0) (fuel : Nat) :
    lastLoop h (as.length + fuel) (first as next) = lastLoop h fuel next := by
  induction as generalizing prev with
  | nil => rw [List.length_nil, Nat.zero_add, first]
  | cons a as ih =>
    obtain ⟨hne, hnode, hrest⟩ := hseg
    have hfirst : first as next ≠ 0 := by
      by_cases has : as = []
      · rw [has]
        exact hnext
      · exact hrest.first_ne has
    rw [List.length_cons, show as.length + 1 + fuel = as.length + fuel + 1 by omega, lastLoop,
      first, getNext_eq hne hnode, load_some, ok_bind, if_pos hfirst, ih hrest]

theorem lastLoop_last (hseg : Seg h prev (as ++ [c]) 0) {fuel : Nat} (hfuel : as.length < fuel) :
    lastLoop h fuel (first (as ++ [c]) 0) = .ok c.node := by
  obtain ⟨k, rfl⟩ : ∃ k, fuel = as.length + (k + 1) := ⟨fuel - as.length - 1, by omega⟩
  rw [seg_append] at hseg
  obtain ⟨has, hne, hnode, -⟩ := hseg
  rw [first_append, lastLoop_walk has hne, lastLoop, first, getNext_eq hne hnode, load_some,
    ok_bind]
  exact if_neg (not_not.mpr rfl)

theorem getLast_shape (hs : Shape h head (as ++ [c])) {fuel : Nat} (hfuel : as.length < fuel) :
    getLast fuel h head = .ok c.data := by
  have hseg := hs.links
  rw [seg_append] at hseg
  obtain ⟨-, hne, hnode, -⟩ := hseg
  rw [getLast, if_neg (hs.head_ne (by simp)), hs.head_eq, lastLoop_last hs.links hfuel]
  exact getData_eq hne hnode

/-! ## Reversing -/

/-- The nodes before `rest` are linked the other way. -/
theorem reverseLoop_spec (rest : List Cell) : ∀ (h : Heap) (head : Ptr) (done : List Cell),
    Seg h (first rest 0) done 0 → Seg h (first done 0) rest 0 →
    ((done ++ rest).map Cell.node).Nodup →
    ∃ h', (∀ fuel, rest.length < fuel → reverseLoop fuel h head (first rest 0) (first done 0) =
        .ok (if rest = [] then head else first (rest.reverse ++ done) 0, h')) ∧
      Seg h' 0 (rest.reverse ++ done) 0 ∧ Kept h h' rest := by
  induction rest with
  | nil =>
    intro h head done hdone _ _
    refine ⟨h, ?_, hdone, .refl _ _⟩
    intro fuel hfuel
    obtain ⟨k, rfl⟩ := Nat.exists_eq_add_of_le' hfuel
    simp [reverseLoop, first]
  | cons c rest ih =>
    intro h head done hdone hseg hnodup
    obtain ⟨hne, hnode, hrest⟩ := hseg
    obtain ⟨hnot, -⟩ := nodup_middle hnodup
    -- the node is turned around
    obtain ⟨h₁, hh₁⟩ : ∃ h₁, h₁ =
      (h.store c.node (some ⟨some c.data, some (first rest 0), some (first rest 0)⟩)).store c.node
        (some ⟨some c.data, some (first done 0), some (first rest 0)⟩) := ⟨_, rfl⟩
    have hnode₁ : h₁.nodes c.node = some ⟨some c.data, some (first done 0),
        some (first rest 0)⟩ := by
      rw [hh₁, store_nodes, if_pos rfl]
    have hkept₁ : Kept h h₁ [c] := by
      rw [hh₁]
      apply (Kept.store _ List.mem_cons_self _).trans (Kept.store _ List.mem_cons_self _)
      · rw [hnode]
        exact Option.some_ne_none _
      · rw [store_nodes, if_pos rfl]
        exact Option.some_ne_none _
    have hother : ∀ a ∈ done ++ rest, h₁.nodes a.node = h.nodes a.node := by
      intro a ha
      apply hkept₁.nodes
      simpa using (hnot a ha).symm
    have hloop : ∀ k, reverseLoop (k + 1) h head c.node (first done 0) =
        reverseLoop k h₁ (if first rest 0 = 0 then c.node else head) (first rest 0) c.node := by
      intro k
      rw [reverseLoop, if_neg hne, getNext_eq hne hnode, load_some, ok_bind]
      dsimp only
      rw [setPrev_eq hne hnode, ok_bind, setNext_eq hne (by rw [store_nodes, if_pos rfl]), ← hh₁,
        ok_bind, getPrev_eq hne hnode₁, load_some, ok_bind]
    obtain ⟨h', hh', hseg, hkept⟩ := ih h₁ (if first rest 0 = 0 then c.node else head) (c :: done)
      ⟨hne, hnode₁, hdone.frame fun a ha => hother a (List.mem_append_left _ ha)⟩
      (hrest.frame fun a ha => hother a (List.mem_append_right _ ha))
      ((List.perm_middle.map Cell.node).nodup_iff.mp hnodup)
    refine ⟨h', ?_, by simpa using hseg,
      (hkept₁.mono (by simp)).trans (hkept.mono fun a ha => List.mem_cons_of_mem _ ha)⟩
    intro fuel hfuel
    obtain ⟨k, rfl⟩ := Nat.exists_eq_add_of_le' (Nat.lt_of_le_of_lt (Nat.zero_le _) hfuel)
    rw [show first (c :: rest) 0 = c.node from rfl, hloop]
    refine (hh' k (Nat.lt_of_succ_lt_succ hfuel)).trans ?_
    by_cases hr : rest = []
    · simp [hr, first]
    · simp [hr]

theorem reverse_linked (hl : Linked h head cs) (hcs : cs ≠ []) :
    ∃ h', (∀ fuel, cs.length < fuel → reverse fuel h head = .ok (last 0 cs, h')) ∧
      Linked h' (last 0 cs) cs.reverse ∧ Kept h h' cs := by
  obtain ⟨c, rest, rfl⟩ := List.exists_cons_of_ne_nil hcs
  obtain ⟨hne, hnode, -⟩ := hl.links
  have hnext : h.getNext head = .ok (first rest 0) := by
    rw [hl.head_eq]
    exact getNext_eq hne hnode
  by_cases hrest : rest = []
  · subst hrest
    refine ⟨h, ?_, ⟨rfl, hl.links⟩, .refl _ _⟩
    intro fuel _
    rw [reverse, reverseHelper, hnext, hl.head_eq]
    rfl
  · obtain ⟨h', hh', hseg', hkept⟩ :=
      reverseLoop_spec (c :: rest) h head [] trivial hl.links hl.nodup
    have hne' : first rest 0 ≠ 0 := hl.links.2.2.first_ne hrest
    rw [List.append_nil] at hh' hseg'
    rw [if_neg (List.cons_ne_nil _ _), first_reverse] at hh'
    refine ⟨h', ?_, ⟨(first_reverse _ _).symm, hseg'⟩, hkept⟩
    intro fuel hfuel
    rw [reverse, reverseHelper, hnext, ok_bind, if_pos hne']
    rw [← hl.head_eq] at hh'
    exact hh' fuel hfuel

theorem reverse_shape (hs : Shape h head cs) (hcs : cs ≠ []) :
    ∃ h', (∀ fuel, cs.length < fuel → reverse fuel h head = .ok (first cs.reverse 0, h')) ∧
      Shape h' (first cs.reverse 0) cs.reverse := by
  obtain ⟨h', hrun, hl', hkept⟩ := reverse_linked hs.linked hcs
  rw [← first_reverse] at hrun hl'
  have hdatas := hs.datas
  rw [← List.nodup_reverse, ← List.map_reverse] at hdatas
  refine ⟨h', hrun, hl'.head_eq, hl'.links, ?_, hl'.nodup, hdatas⟩
  intro c hc
  rw [hkept.blocks]
  exact hs.blocks c (List.mem_reverse.mp hc)

/-! ## Removing -/

def isMatch (bytes block : List UInt8) : Bool := block.take bytes.length == bytes

theorem memcmp_short {p : Ptr} {bytes block : List UInt8} (hp : p ≠ 0)
    (hb : h.blocks p = some (block.map some)) (hlen : block.length < bytes.length) :
    h.memcmp p bytes bytes.length = .error .outOfBounds := by
  rw [Heap.memcmp, block_eq hp hb, ok_bind, if_neg]
  rw [List.length_map]
  omega

theorem memcmp_initial {p : Ptr} {bytes src : List UInt8} {rest : List (Option UInt8)} (hp : p ≠ 0)
    (hb : h.blocks p = some (bytes.map some ++ rest)) (hsrc : bytes.length ≤ src.length) :
    h.memcmp p src bytes.length = .ok (bytes == src.take bytes.length) := by
  have htake : (bytes.map some ++ rest).take bytes.length = bytes.map some := by
    rw [← List.length_map some, List.take_left]
  have hsome : (bytes.map some).all Option.isSome = true := by simp
  rw [Heap.memcmp, block_eq hp hb, ok_bind, if_pos ⟨by simp, hsrc⟩, htake, if_pos hsome]
  congr 1
  rw [Bool.eq_iff_iff, beq_iff_eq, beq_iff_eq]
  exact List.map_inj_right fun _ _ => Option.some_inj.mp

theorem memcmp_eq {p : Ptr} {bytes block : List UInt8} (hp : p ≠ 0)
    (hb : h.blocks p = some (block.map some)) (hlen : bytes.length ≤ block.length) :
    h.memcmp p bytes bytes.length = .ok (isMatch bytes block) := by
  have hlength : (block.take bytes.length).length = bytes.length := List.length_take_of_le hlen
  rw [← List.take_append_drop bytes.length block, List.map_append] at hb
  have hcmp := @memcmp_initial h p _ bytes _ hp hb (Nat.le_of_eq hlength)
  rw [hlength, List.take_length] at hcmp
  exact hcmp

theorem unlink_next (hseg : Seg h 0 (as ++ c :: bs) 0)
    (hnodup : ((as ++ c :: bs).map Cell.node).Nodup) :
    ∃ h', unlinkNext h c.node = .ok h' ∧
      Seg h' (last 0 as) bs 0 ∧ Kept h h' bs := by
  rw [seg_append] at hseg
  obtain ⟨-, hne, hnode, hbs⟩ := hseg
  cases bs with
  | nil =>
    refine ⟨h, ?_, trivial, .refl _ _⟩
    rw [unlinkNext, getNext_eq hne hnode]
    rfl
  | cons b bs =>
    have hb : ∀ a ∈ bs, a.node ≠ b.node := by
      intro a ha
      rw [show as ++ c :: b :: bs = (as ++ [c]) ++ b :: bs by simp] at hnodup
      exact (nodup_middle hnodup).1 a (List.mem_append_right _ ha)
    refine ⟨h.store b.node (some ⟨some b.data, some (first bs 0), some (last 0 as)⟩), ?_,
      hbs.reprev hb _,
      .store (hbs.allocated List.mem_cons_self) List.mem_cons_self _⟩
    rw [unlinkNext, getNext_eq hne hnode, load_some, ok_bind, first, if_pos hbs.1,
      getPrev_eq hne hnode, load_some, ok_bind]
    exact setPrev_eq hbs.1 hbs.2.1

theorem unlink_prev (hne : c.node ≠ 0)
    (hnode : h.nodes c.node = some ⟨some c.data, some next, some (last 0 as)⟩)
    (hseg : Seg h 0 as c.node) (hnodup : (as.map Cell.node).Nodup)
    (hc : ∀ a ∈ as, a.node ≠ c.node) :
    ∃ h', unlinkPrev h (first as c.node) c.node = .ok (first as next, h') ∧
      Seg h' 0 as next ∧ Kept h h' as := by
  obtain rfl | ⟨as, a, rfl⟩ := as.eq_nil_or_concat'
  · refine ⟨h, ?_, trivial, .refl _ _⟩
    rw [unlinkPrev, first, if_pos rfl, getNext_eq hne hnode]
    rfl
  · have hfirst : ∀ q, first (as ++ [a]) q = first as a.node := fun q => first_append as [a] q
    have hhead : c.node ≠ first as a.node := by
      cases as with
      | nil => exact (hc a List.mem_cons_self).symm
      | cons a' as => exact (hc a' List.mem_cons_self).symm
    have ha : ∀ a' ∈ as, a'.node ≠ a.node := by
      intro a' ha'
      exact (nodup_middle hnodup).1 a' (List.mem_append_left _ ha')
    have hlast := seg_append.mp hseg
    refine ⟨h.store a.node (some ⟨some a.data, some next, some (last 0 as)⟩), ?_,
      hseg.relink ha next,
      .store (hseg.allocated (by simp)) (by simp) _⟩
    rw [last_append] at hnode
    rw [unlinkPrev, hfirst, hfirst, if_neg hhead, getPrev_eq hne hnode, getNext_eq hne hnode,
      load_some, load_some, ok_bind, ok_bind, last, last, setNext_eq hlast.2.1 hlast.2.2.1, ok_bind]

/-- The four cases of the source: a node at the head, in the middle, at the end and alone. -/
theorem unlink_linked (hl : Linked h head (as ++ c :: bs)) (hdne : c.data ≠ 0)
    {b : List (Option UInt8)} (hblock : h.blocks c.data = some b) :
    ∃ h', unlink h head c.node = .ok (first (as ++ bs) 0, h') ∧
    Linked h' (first (as ++ bs) 0) (as ++ bs) ∧
      Freed h h' c (as ++ bs) := by
  obtain ⟨has, hne, hnode, -⟩ := seg_append.mp hl.links
  obtain ⟨hother, hnodup⟩ := nodup_middle hl.nodup
  rw [List.map_append, List.nodup_append] at hnodup
  have hc₁ : ∀ b ∈ bs, b.node ≠ c.node := fun b hb => hother b (List.mem_append_right _ hb)
  have hcas : ∀ a ∈ as, a.node ≠ c.node := fun a ha => hother a (List.mem_append_left _ ha)
  have hdisj : ∀ a ∈ as, ∀ b ∈ bs, b.node ≠ a.node := by
    intro a ha b hb
    exact (hnodup.2.2 _ (List.mem_map_of_mem ha) _ (List.mem_map_of_mem hb)).symm
  obtain ⟨h₁, hstep₁, hbs₁, hkept₁⟩ := unlink_next hl.links hl.nodup
  have hnode₁ : h₁.nodes c.node = some ⟨some c.data, some (first bs 0), some (last 0 as)⟩ := by
    rw [hkept₁.nodes _ hc₁]
    exact hnode
  have has₁ : Seg h₁ 0 as c.node := has.frame fun a ha => hkept₁.nodes _ (hdisj a ha)
  obtain ⟨h₂, hstep₂, has₂, hkept₂⟩ := unlink_prev hne hnode₁ has₁ hnodup.1 hcas
  have hbs₂ : Seg h₂ (last 0 as) bs 0 :=
    hbs₁.frame fun b hb => hkept₂.nodes _ fun a ha => (hdisj a ha b hb).symm
  have hnode₂ : h₂.nodes c.node = some ⟨some c.data, some (first bs 0), some (last 0 as)⟩ := by
    rw [hkept₂.nodes _ hcas]
    exact hnode₁
  have hblocks₂ : h₂.blocks = h.blocks := hkept₂.blocks.trans hkept₁.blocks
  have hblock₂ : h₂.blocks c.data = some b := by
    rw [hblocks₂]
    exact hblock
  have hhead : head = first as c.node := by
    rw [hl.head_eq, first_append]
    rfl
  refine ⟨(h₂.storeBlock c.data none).store c.node none, ?_, ⟨rfl, ?_⟩, ?_, ?_, ?_⟩
  · have hfree : (h₂.storeBlock c.data none).nodes c.node = h₂.nodes c.node := rfl
    rw [hhead, unlink, hstep₁, ok_bind, hstep₂, ok_bind]
    dsimp only
    rw [getData_eq hne hnode₂, load_some, ok_bind, freeBlock_eq hdne hblock₂, ok_bind,
      freeNode_eq hne (hfree.trans hnode₂), ok_bind, first_append]
  · rw [seg_append]
    constructor
    · have hfree : Seg (h₂.storeBlock c.data none) 0 as (first bs 0) := has₂.frame fun _ _ => rfl
      exact hfree.store hcas
    · have hfree : Seg (h₂.storeBlock c.data none) (last 0 as) bs 0 := hbs₂.frame fun _ _ => rfl
      exact hfree.store hc₁
  · rw [store_nodes, if_pos rfl]
  · intro p hp hout
    rw [store_nodes, if_neg hp, storeBlock_nodes,
      hkept₂.nodes _ fun a ha => hout a (List.mem_append_left _ ha),
      hkept₁.nodes _ fun a ha => hout a (List.mem_append_right _ ha)]
  · rw [store_blocks, ← hblocks₂]
    rfl

theorem unlink_shape (hs : Shape h head (as ++ c :: bs)) :
    ∃ h', unlink h head c.node = .ok (first (as ++ bs) 0, h') ∧
    Shape h' (first (as ++ bs) 0) (as ++ bs) := by
  obtain ⟨hdne, hblock⟩ := hs.blocks c (by simp)
  obtain ⟨hdother, hdnodup⟩ := nodup_middle hs.datas
  obtain ⟨h', hrun, hl', hfreed⟩ := unlink_linked hs.linked hdne hblock
  refine ⟨h', hrun, hl'.head_eq, hl'.links, ?_, hl'.nodup, hdnodup⟩
  intro a ha
  obtain ⟨hane, hablock⟩ := hs.blocks a (by simp at ha ⊢; tauto)
  refine ⟨hane, ?_⟩
  rw [hfreed.blocks, Function.update_of_ne (hdother a ha)]
  exact hablock

theorem removeLoop_step (hl : Linked h head (as ++ c :: bs)) {toRemove : List UInt8} {size : Nat}
    {found : Bool} (hcmp : h.memcmp c.data toRemove size = .ok found) (fuel : Nat) :
    removeLoop h head toRemove size (fuel + 1) c.node =
      if found then (do .ok (1, ← unlink h head c.node))
          else removeLoop h head toRemove size fuel (first bs 0) := by
  obtain ⟨-, hne, hnode, -⟩ := seg_append.mp hl.links
  rw [removeLoop, if_neg hne, getData_eq hne hnode, load_some, ok_bind, hcmp, ok_bind,
    getNext_eq hne hnode, load_some, ok_bind]

theorem removeLoop_shape (bytes : List UInt8) (hs : Shape h head (as ++ bs))
    (hlen : ∀ x ∈ (bs.map Cell.bytes).takeWhile (!isMatch bytes ·), bytes.length ≤ x.length) :
    ∃ head' h' cs, (∀ fuel, bs.length < fuel →
      removeLoop h head bytes bytes.length fuel (first bs 0) =
        .ok (if (bs.map Cell.bytes).any (isMatch bytes) then 1 else 0, head', h')) ∧
      Shape h' head' cs ∧ cs.map Cell.bytes = as.map Cell.bytes ++
          (bs.map Cell.bytes).eraseP (isMatch bytes) := by
  induction bs generalizing as with
  | nil =>
    refine ⟨head, h, as, ?_, by simpa using hs, by simp⟩
    intro fuel hfuel
    obtain ⟨k, rfl⟩ := Nat.exists_eq_add_of_le' hfuel
    rfl
  | cons c bs ih =>
    have hround : ∀ fuel, (c :: bs).length < fuel → ∃ k, fuel = k + 1 ∧ bs.length < k := by
      intro fuel hfuel
      exact ⟨fuel - 1, by simp at hfuel; omega, by simp at hfuel; omega⟩
    have hcmp (hc : bytes.length ≤ c.bytes.length) : h.memcmp c.data bytes bytes.length =
        .ok (isMatch bytes c.bytes) := by
      obtain ⟨hdne, hblock⟩ := hs.blocks c (by simp)
      exact memcmp_eq hdne hblock hc
    rw [show first (c :: bs) 0 = c.node from rfl]
    by_cases hmatch : isMatch bytes c.bytes = true
    · have hc : bytes.length ≤ c.bytes.length := by
        rw [isMatch, beq_iff_eq] at hmatch
        rw [← hmatch, List.length_take]
        exact Nat.min_le_right _ _
      obtain ⟨h', hunlink, hs'⟩ := unlink_shape hs
      refine ⟨_, h', as ++ bs, ?_, hs', by simp [hmatch]⟩
      intro fuel hfuel
      obtain ⟨k, rfl, -⟩ := hround fuel hfuel
      rw [removeLoop_step hs.linked (hcmp hc), if_pos hmatch, hunlink]
      simp [hmatch]
      rfl
    · have hc : bytes.length ≤ c.bytes.length := hlen _ (by simp [hmatch])
      have hs₁ : Shape h head ((as ++ [c]) ++ bs) := by simpa using hs
      obtain ⟨head', h', cs, hrun, hs', hcs⟩ := @ih (as ++ [c]) hs₁
        (fun x hx => hlen x (by simp [hmatch]; exact .inr hx))
      refine ⟨head', h', cs, ?_, hs', by simp [hcs, hmatch]⟩
      intro fuel hfuel
      obtain ⟨k, rfl, hk⟩ := hround fuel hfuel
      rw [removeLoop_step hs.linked (hcmp hc), if_neg hmatch, hrun k hk]
      simp [hmatch]

theorem removeLoop_short (bytes : List UInt8) (hs : Shape h head (as ++ bs))
    (hshort : ∃ x ∈ (bs.map Cell.bytes).takeWhile (!isMatch bytes ·), x.length < bytes.length)
    (fuel : Nat) (r : Nat × Ptr × Heap) :
    removeLoop h head bytes bytes.length fuel (first bs 0) ≠ .ok r := by
  induction bs generalizing as fuel with
  | nil => simp at hshort
  | cons c bs ih =>
    obtain ⟨-, hne, hnode, -⟩ := seg_append.mp hs.links
    obtain ⟨hdne, hblock⟩ := hs.blocks c (by simp)
    cases fuel with
    | zero => simp [removeLoop]
    | succ fuel =>
      by_cases hc : bytes.length ≤ c.bytes.length
      · rw [show first (c :: bs) 0 = c.node from rfl,
          removeLoop_step hs.linked (memcmp_eq hdne hblock hc)]
        by_cases hmatch : isMatch bytes c.bytes = true
        · simp [hmatch] at hshort
        · rw [if_neg hmatch]
          refine @ih (as ++ [c]) (by simpa using hs) ?_ fuel
          obtain ⟨x, hx, hxlen⟩ := hshort
          rw [List.map_cons, List.takeWhile_cons_of_pos (by simpa using hmatch),
            List.mem_cons] at hx
          obtain rfl | hx := hx
          · omega
          · exact ⟨x, hx, hxlen⟩
      · rw [show first (c :: bs) 0 = c.node from rfl, removeLoop, if_neg hne, getData_eq hne hnode,
          load_some, ok_bind, memcmp_short hdne hblock (by omega), error_bind]
        intro hok
        cases hok

theorem removeFirst_freed (hs : Shape h head (c :: cs)) :
    removeFirst h head = .error .dangling := by
  obtain ⟨hne, hnode, hrest⟩ := hs.links
  obtain ⟨hdne, hblock⟩ := hs.blocks c List.mem_cons_self
  obtain rfl : head = c.node := hs.head_eq
  obtain ⟨h', hstep, hnode', hblock'⟩ : ∃ h', clearPrev h (first cs 0) = .ok h' ∧
      h'.nodes c.node = some ⟨some c.data, some (first cs 0), some 0⟩ ∧
      h'.blocks c.data = some (c.bytes.map some) := by
    cases cs with
    | nil => exact ⟨h, rfl, hnode, hblock⟩
    | cons b bs =>
      obtain ⟨hbne, hbnode, -⟩ := hrest
      have hbc : c.node ≠ b.node := by
        have hnodes := hs.nodes
        simp at hnodes
        exact hnodes.1.1
      refine ⟨h.store b.node (some ⟨some b.data, some (first bs 0), some 0⟩), ?_, ?_, hblock⟩
      · rw [clearPrev, first, if_pos hbne]
        exact setPrev_eq hbne hbnode
      · rw [store_nodes, if_neg hbc]
        exact hnode
  have hfree : (h'.storeBlock c.data none).nodes c.node = h'.nodes c.node := rfl
  have hgone : ((h'.storeBlock c.data none).store c.node none).getData c.node =
      .error .dangling := by
    have hnode : ((h'.storeBlock c.data none).store c.node none).node c.node =
        .error .dangling := by
      simp [Heap.node, hne]
    rw [Heap.getData, hnode, error_bind]
  rw [removeFirst, if_neg hne]
  dsimp only
  rw [getNext_eq hne hnode, load_some, ok_bind, hstep, ok_bind, getData_eq hne hnode', load_some,
    ok_bind, freeBlock_eq hdne hblock', ok_bind, freeNode_eq hne (hfree.trans hnode'), ok_bind]
  -- the node is read after it is freed
  rw [hgone, error_bind]

end

/-! ## Inserting -/

theorem sizePred_ne (size : Nat) : sizePred size ≠ size := by
  rw [sizePred]
  omega

section
variable {malloc : Malloc} {h : Heap} {head : Ptr} {bytes : List UInt8} {size : Nat}

theorem memcpy_eq {p : Ptr} {n : Nat} (hp : p ≠ 0) (hb : h.blocks p = some (List.replicate n none))
    (hn : n ≤ bytes.length) :
    h.memcpy p bytes n = .ok (h.storeBlock p (some ((bytes.take n).map some))) := by
  have hlen : (List.replicate n (none : Option UInt8)).length = n := List.length_replicate
  rw [Heap.memcpy, block_eq hp hb, ok_bind, if_pos ⟨Nat.le_of_eq hlen.symm, hn⟩,
    List.drop_of_length_le (Nat.le_of_eq hlen), List.append_nil]

theorem memcpy_over {p : Ptr} {n : Nat} (hp : p ≠ 0) {b : List (Option UInt8)}
    (hb : h.blocks p = some b) (hn : bytes.length < n) :
    h.memcpy p bytes n = .error .outOfBounds := by
  rw [Heap.memcpy, block_eq hp hb, ok_bind, if_neg (by omega)]

theorem insertLast_error (hsize : bytes.length < sizePred size) (fuel : Nat) :
    insertLast malloc fuel h head (some bytes) size = .error .outOfBounds := by
  rw [insertLast, memcpy_over (malloc.ne_null _) (by rw [storeBlock_blocks, if_pos rfl]) hsize]
  rfl

theorem insertLast_eq (hsize : sizePred size ≤ bytes.length) :
    ∃ e d h₁, e ≠ 0 ∧ h.nodes e = none ∧
      (∀ p, h₁.nodes p = if p = e then some ⟨some d, none, none⟩ else h.nodes p) ∧
      h₁.blocks d = some ((bytes.take (sizePred size)).map some) ∧
      ∀ fuel, insertLast malloc fuel h head (some bytes) size =
        if head = 0 then .ok (e, (h₁.store e (some ⟨some d, none, some 0⟩)).store e
          (some ⟨some d, some 0, some 0⟩))
        else (do
          let curr ← lastLoop h₁ fuel head
          let h₁ ← h₁.setNext curr e
          let h₁ ← h₁.setPrev e curr
          .ok (head, h₁)) := by
  obtain ⟨e, he⟩ : ∃ e, e = malloc.addr h := ⟨_, rfl⟩
  obtain ⟨d, hd⟩ : ∃ d, d = malloc.addr (h.store e (some ⟨none, none, none⟩)) := ⟨_, rfl⟩
  obtain ⟨h₀, hh₀⟩ : ∃ h₀, h₀ = (h.store e (some ⟨none, none, none⟩)).storeBlock d
      (some (List.replicate (sizePred size) none)) :=
    ⟨_, rfl⟩
  have hene : e ≠ 0 := by
    rw [he]
    exact malloc.ne_null h
  have hcopy : h₀.memcpy d bytes (sizePred size) =
      .ok (h₀.storeBlock d (some ((bytes.take (sizePred size)).map some))) := by
    have hdne : d ≠ 0 := by
      rw [hd]
      exact malloc.ne_null _
    exact memcpy_eq hdne (by rw [hh₀, storeBlock_blocks, if_pos rfl]) hsize
  obtain ⟨h₁, hh₁⟩ : ∃ h₁, h₁ =
      (h₀.storeBlock d (some ((bytes.take (sizePred size)).map some))).store e
          (some ⟨some d, none, none⟩) :=
    ⟨_, rfl⟩
  have hnode : h₁.nodes e = some ⟨some d, none, none⟩ := by
    rw [hh₁, store_nodes, if_pos rfl]
  refine ⟨e, d, h₁, hene, ?_, ?_, ?_, ?_⟩
  · rw [he]
    exact (malloc.unused h).1
  · intro p
    rw [hh₁, store_nodes, storeBlock_nodes, hh₀, storeBlock_nodes, store_nodes]
    by_cases hp : p = e
    · rw [if_pos hp, if_pos hp]
    · rw [if_neg hp, if_neg hp, if_neg hp]
  · rw [hh₁, store_blocks, storeBlock_blocks, if_pos rfl]
  · have hset : (h₀.storeBlock d (some ((bytes.take (sizePred size)).map some))).setData e d =
        .ok h₁ := by
      rw [hh₁]
      apply setData_eq hene
      rw [hh₀, storeBlock_nodes, storeBlock_nodes, store_nodes, if_pos rfl]
    intro fuel
    rw [insertLast, ← he, ← hd, ← hh₀, hcopy, ok_bind, hset, ok_bind, setPrev_eq hene hnode,
      ok_bind, setNext_eq hene (by rw [store_nodes, if_pos rfl]), ok_bind]

/-- The new node comes after the last one, but where it leads was never written. -/
theorem insertLast_seg {as : List Cell} {c : Cell} (hs : Shape h head (as ++ [c]))
    (hsize : sizePred size ≤ bytes.length) :
    ∃ e h', (∀ fuel, as.length < fuel → insertLast malloc fuel h head (some bytes) size =
      .ok (head, h')) ∧
      e ≠ 0 ∧ Seg h' 0 (as ++ [c]) e ∧ h'.getNext e = .error .uninitialised := by
  obtain ⟨e, d, h₁, hene, hfresh, hnodes, -, heq⟩ := @insertLast_eq malloc h head bytes size hsize
  have hother : ∀ c' ∈ as ++ [c], c'.node ≠ e := by
    intro c' hc' he
    rw [← he] at hfresh
    exact hs.links.allocated hc' hfresh
  have hlinks : Seg h₁ 0 (as ++ [c]) 0 := by
    apply hs.links.frame
    intro c' hc'
    rw [hnodes, if_neg (hother c' hc')]
  have hc : ∀ a ∈ as, a.node ≠ c.node := by
    intro a ha
    exact (nodup_middle hs.nodes).1 a (List.mem_append_left _ ha)
  obtain ⟨-, hne, hnode, -⟩ := seg_append.mp hlinks
  obtain ⟨h₂, hh₂⟩ : ∃ h₂, h₂ = h₁.store c.node (some ⟨some c.data, some e, some (last 0 as)⟩) :=
    ⟨_, rfl⟩
  have hnew : h₂.nodes e = some ⟨some d, none, none⟩ := by
    rw [hh₂, store_nodes, if_neg (hother c (by simp)).symm, hnodes, if_pos rfl]
  have hlinks₂ : Seg h₂ 0 (as ++ [c]) e := by
    rw [hh₂]
    exact hlinks.relink hc e
  refine ⟨e, h₂.store e (some ⟨some d, none, some c.node⟩), ?_, hene, hlinks₂.store hother, ?_⟩
  · intro fuel hfuel
    rw [heq, if_neg (hs.head_ne (by simp)), hs.head_eq, lastLoop_last hlinks hfuel]
    rw [ok_bind, setNext_eq hne hnode, ← hh₂, ok_bind, setPrev_eq hene hnew, ok_bind]
  · rw [getNext_eq hene (by rw [store_nodes, if_pos rfl])]
    rfl

end

end Csc412.DoubleLink
