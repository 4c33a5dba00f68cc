import Csc412.Kernel.PagingSound

/-!
# Ranges anywhere in the address space

`virtual_memory_map` keeps the table of the last page under the low 32 bits of its
2 MiB region, and starts with the number -1 and a null table. So a range that starts in
a region whose low 32 bits are all ones takes the null table for its own.
-/

namespace Csc412.Kernel

open Lib

/-! ## Regions -/

def region (v : Word) : Nat := v.toNat / 2 ^ 21

/-- Two addresses lie on the same page in the low 48 bits. -/
def Alias (v w : Word) : Prop := v.toNat / 4096 % 2 ^ 36 = w.toNat / 4096 % 2 ^ 36

instance (v w : Word) : Decidable (Alias v w) := inferInstanceAs (Decidable (_ = _))

theorem Alias.symm {v w : Word} (h : Alias v w) : Alias w v := Eq.symm h

theorem path_eq {v w : Word} (h : region v % 2 ^ 27 = region w % 2 ^ 27) : path v = path w := by
  simp only [path, levels, List.cons.injEq, and_true, Fin.ext_iff, pageindex_val]
  unfold region at h
  simp only [Nat.reduceSub, Nat.reduceMul, Nat.reduceAdd, Nat.reducePow] at h ⊢
  omega

theorem alias_iff (v w : Word) : (path v = path w ∧ pageindex v 3 = pageindex w 3) ↔ Alias v w := by
  simp only [path, levels, List.cons.injEq, and_true, Fin.ext_iff, pageindex_val, Alias]
  simp only [Nat.reduceSub, Nat.reduceMul, Nat.reduceAdd, Nat.reducePow]
  omega

theorem index123_toNat (v : Word) : ((v >>> 21).setWidth 32).toNat = region v % 2 ^ 32 := by
  rw [BitVec.toNat_setWidth, BitVec.toNat_ushiftRight, Nat.shiftRight_eq_div_pow, region]

theorem index123_eq_iff (v w : Word) :
    index123 v = index123 w ↔ region v % 2 ^ 32 = region w % 2 ^ 32 := by
  rw [index123, index123, BitVec.toInt_inj, ← index123_toNat, ← index123_toNat]
  exact ⟨congrArg _, BitVec.eq_of_toNat_eq⟩

theorem index123_eq_neg_one (v : Word) : index123 v = -1 ↔ region v % 2 ^ 32 = 2 ^ 32 - 1 := by
  have hneg : (-1 : Int) = (BitVec.allOnes 32).toInt := by decide
  rw [index123, hneg, BitVec.toInt_inj, ← index123_toNat]
  constructor
  · intro h
    rw [h]
    rfl
  · intro h
    apply BitVec.eq_of_toNat_eq
    rw [h]
    rfl

theorem path_of_index123 {v w : Word} (h : index123 v = index123 w) : path v = path w := by
  apply path_eq
  rw [index123_eq_iff] at h
  omega

theorem add_pages (va : Word) (k : Nat) :
    va + 4096 + BitVec.ofNat 64 (k * 4096) = va + BitVec.ofNat 64 ((k + 1) * 4096) := by
  rw [BitVec.add_assoc]
  congr 1
  apply BitVec.eq_of_toNat_eq
  have hpage : (4096 : Word).toNat = 4096 := rfl
  simp only [BitVec.toNat_add, BitVec.toNat_ofNat, hpage]
  omega

/-! ## Present mappings -/

section
variable {σ : Type} {root : Word} {perm : BitVec 32} {allocator : Option (σ → Word × σ)}
    {I : Set Word → σ → Prop}
  {Null : σ → Prop} (hperm : perm.signExtend 64 &&& pteP ≠ 0) (halloc : ∀ f, allocator = some f →
    AllocatorOk f I)
  (hnull : ∀ f, allocator = some f → ∀ s, (f s).1 = 0 → Null (f s).2)
include hperm halloc hnull

/-- Once the kept table is the right one, the loop fails only where a table is missing. -/
theorem mapPages_fails (n : Nat) : ∀ (va pa : Word) (last : Int) (l4 : Word) (m : Mem) (s : σ),
    WellFormed m root → 0 ∉ tables m root → I (tables m root) s →
    (index123 va = last → l4 ≠ 0 ∧ Radix.walk tableOf m root (path va) = some l4) →
    ∃ r m' s', mapPages root perm allocator n va pa last l4 m s = .ok (r, m', s') ∧
      (r = 0 ∨ r = -1 ∧ (∃ k < n,
        Radix.walk tableOf m root (path (va + BitVec.ofNat 64 (k * 4096))) = none) ∧
        (allocator = none ∨ Null s')) := by
  induction n with
  | zero =>
    intro va pa last l4 m s _ _ _ _
    exact ⟨0, m, s, rfl, .inl rfl⟩
  | succ n ih =>
    intro va pa last l4 m s hwf hno hI hc
    obtain ⟨r, m₁, s₁, hr, hI₁, hf⟩ := nextTable_spec hperm halloc Null hnull hwf hI hc
    rw [mapPages]
    simp only [hr]
    by_cases h0 : r = 0
    · obtain ⟨hmissing, hrefused⟩ := hf.missing h0 hno
      refine ⟨-1, m₁, s₁, ?_, .inr ⟨rfl, ⟨0, Nat.succ_pos n, ?_⟩, hrefused⟩⟩
      · rw [if_neg fun hh => hh.2 h0, if_neg (not_not.mpr h0), if_pos hperm]
      · rw [Nat.zero_mul, show va + BitVec.ofNat 64 0 = va from BitVec.add_zero va]
        exact hmissing
    · have hwalk := hf.found h0
      have hwrite : ∀ v, Radix.walk tableOf
        (m₁.setEntry r (pageindex va 3) (pa ||| perm.signExtend 64)) root (path v) =
          Radix.walk tableOf m₁ root (path v) :=
            fun v => walk_write hf.grown.wf hwalk (by rw [path, levels_length]) _
      have hnext : index123 (va + 4096) = index123 va → r ≠ 0 ∧
          Radix.walk tableOf (m₁.setEntry r (pageindex va 3) (pa ||| perm.signExtend 64)) root
              (path (va + 4096)) = some r := by
        intro hidx
        refine ⟨h0, ?_⟩
        rw [hwrite, path_of_index123 hidx]
        exact hwalk
      obtain ⟨r', m', s', hr', hres⟩ :=
        ih (va + 4096) (pa + 4096) (index123 va) r _ s₁ (hf.grown.wf.write hwalk _)
        (by rw [tables_write hf.grown.wf hwalk]; exact fun h => hno (hf.null h))
        (by rw [tables_write hf.grown.wf hwalk]; exact hI₁) hnext
      refine ⟨r', m', s', ?_, ?_⟩
      · rw [if_pos ⟨hperm, h0⟩]
        exact hr'
      · rcases hres with hz | ⟨hneg, ⟨k, hk, hmissing⟩, hrefused⟩
        · exact .inl hz
        · refine .inr ⟨hneg, ⟨k + 1, by omega, ?_⟩, hrefused⟩
          rw [add_pages, hwrite] at hmissing
          -- tables that were there at the start are still there
          cases hw : Radix.walk tableOf m root (path (va + BitVec.ofNat 64 ((k + 1) * 4096))) with
          | none => rfl
          | some x =>
            rw [hf.grown.walk _ x (by rw [path, levels_length]) hw] at hmissing
            cases hmissing

end

/-- An allocator that keeps the list of what it has returned. -/
def logged {σ : Type} (f : σ → Word × σ) : σ × List Word → Word × (σ × List Word) :=
  fun s => ((f s.1).1, ((f s.1).2, s.2 ++ [(f s.1).1]))

theorem logged_ok {σ : Type} {f : σ → Word × σ} {I : Set Word → σ → Prop} (h : AllocatorOk f I) :
    AllocatorOk (logged f) fun T s => I T s.1 := fun T s hI => h T s.1 hI

/-- A call returns -1 only if a table of the range is missing and the allocator is null or
has returned null last. If all tables are there it returns 0. -/
def FailsForTables {σ : Type} (m : Mem) (s : σ) (root va pa sz : Word) (perm : BitVec 32)
    (allocator : Option (σ → Word × σ)) :
    Prop :=
  (∀ m' s' calls, virtualMemoryMap root va pa sz perm (allocator.map logged) m (s, []) =
    .ok (-1, m', (s', calls)) →
    (∃ X : Word, X.toNat < sz.toNat ∧ Radix.walk tableOf m root (path (va + X)) = none) ∧
      (allocator = none ∨ calls.getLast? = some 0)) ∧
  ((∀ X : Word, X.toNat < sz.toNat → (Radix.walk tableOf m root (path (va + X))).isSome) →
    ∃ m' s', virtualMemoryMap root va pa sz perm allocator m s = .ok (0, m', s'))

section
variable {σ : Type} {I : Set Word → σ → Prop} {allocator : Option (σ → Word × σ)} {m : Mem} {s : σ}
  {root va pa sz : Word} {perm : BitVec 32}

theorem virtualMemoryMap_eq {τ : Type} {allocator : Option (τ → Word × τ)} {s : τ}
    (hasserts : mapAsserts root va pa sz perm = .ok ()) :
    virtualMemoryMap root va pa sz perm allocator m s =
      mapPages root perm allocator (sz.toNat / 4096) va pa (-1) 0 m s := by
  unfold virtualMemoryMap
  rw [hasserts]
  rfl

theorem page_of_range {k : Nat} (hk : k < sz.toNat / 4096) :
    (BitVec.ofNat 64 (k * 4096)).toNat < sz.toNat := by
  rw [BitVec.toNat_ofNat]
  have := sz.isLt
  omega

/-- In a region with all ones the first page fails before anything is looked up. -/
theorem virtualMemoryMap_skipped {τ : Type} {allocator : Option (τ → Word × τ)} {s : τ}
    (hperm : perm.signExtend 64 &&& pteP ≠ 0) (hasserts : mapAsserts root va pa sz perm = .ok ())
    (hsz : sz ≠ 0) (hidx : index123 va = -1) :
    virtualMemoryMap root va pa sz perm allocator m s = .ok (-1, m, s) := by
  have hr := mapAsserts_range hperm hasserts
  have hpos : sz.toNat ≠ 0 := fun h => hsz (BitVec.eq_of_toNat_eq h)
  obtain ⟨n, hn⟩ : ∃ n, sz.toNat / 4096 = n + 1 :=
    ⟨sz.toNat / 4096 - 1, by have := hr.sz_aligned; omega⟩
  rw [virtualMemoryMap_eq hasserts, hn, mapPages, nextTable, if_neg (not_not.mpr hidx)]
  simp only
  rw [if_neg fun h => h.2 rfl, if_neg (not_not.mpr rfl), if_pos hperm]

/-- A first region whose low 32 bits are not all ones is looked up. -/
theorem virtualMemoryMap_fails (Null : σ → Prop) (h : WellFormed m root) (hno : 0 ∉ tables m root)
    (hperm : perm.signExtend 64 &&& pteP ≠ 0) (hasserts : mapAsserts root va pa sz perm = .ok ())
    (halloc : ∀ f, allocator = some f → AllocatorOk f I)
    (hnull : ∀ f, allocator = some f → ∀ s, (f s).1 = 0 → Null (f s).2) (hI : I (tables m root) s)
    (hidx : sz = 0 ∨ index123 va ≠ -1) :
    ∃ r m' s', virtualMemoryMap root va pa sz perm allocator m s = .ok (r, m', s') ∧
      (r = 0 ∨ r = -1 ∧ (∃ X : Word, X.toNat < sz.toNat ∧
        Radix.walk tableOf m root (path (va + X)) = none) ∧
        (allocator = none ∨ Null s')) := by
  rw [virtualMemoryMap_eq hasserts]
  rcases hidx with rfl | hidx
  · exact ⟨0, m, s, rfl, .inl rfl⟩
  · obtain ⟨r, m', s', hr, hres⟩ :=
      mapPages_fails hperm halloc hnull (sz.toNat / 4096) va pa (-1) 0 m s h hno hI
      fun hbad => absurd hbad hidx
    refine ⟨r, m', s', hr, ?_⟩
    rcases hres with hz | ⟨hneg, ⟨k, hk, hmissing⟩, hrefused⟩
    · exact .inl hz
    · exact .inr ⟨hneg, ⟨_, page_of_range hk, hmissing⟩, hrefused⟩

theorem failsForTables_of_index (h : WellFormed m root) (hno : 0 ∉ tables m root)
    (hperm : perm.signExtend 64 &&& pteP ≠ 0) (hasserts : mapAsserts root va pa sz perm = .ok ())
    (halloc : ∀ f, allocator = some f → AllocatorOk f I) (hI : I (tables m root) s)
    (hidx : sz = 0 ∨ index123 va ≠ -1) :
    FailsForTables m s root va pa sz perm allocator := by
  constructor
  · intro m' s' calls hres
    have hlogged : ∀ f, allocator.map logged = some f → AllocatorOk f fun T s => I T s.1 := by
      intro f hf
      obtain ⟨g, hg, rfl⟩ := Option.map_eq_some_iff.mp hf
      exact logged_ok (halloc g hg)
    have hnull : ∀ f, allocator.map logged = some f → ∀ s, (f s).1 = 0 →
        (f s).2.2.getLast? = some 0 := by
      intro f hf s hz
      obtain ⟨g, hg, rfl⟩ := Option.map_eq_some_iff.mp hf
      simpa [logged] using hz
    obtain ⟨r, m'', s'', hr, hcase⟩ :=
      virtualMemoryMap_fails (s := (s, [])) (fun s => s.2.getLast? = some 0) h hno hperm
      hasserts hlogged hnull hI hidx
    rw [hr] at hres
    cases hres
    rcases hcase with hz | ⟨-, hmissing, hrefused⟩
    · exact absurd hz (by decide)
    · exact ⟨hmissing, hrefused.imp_left fun hn => Option.map_eq_none_iff.mp hn⟩
  · intro hall
    obtain ⟨r, m', s', hr, hcase⟩ :=
      virtualMemoryMap_fails (fun _ => True) h hno hperm hasserts halloc
      (fun _ _ _ _ => trivial) hI hidx
    rcases hcase with rfl | ⟨-, ⟨X, hX, hmissing⟩, -⟩
    · exact ⟨m', s', hr⟩
    · have hsome := hall X hX
      rw [hmissing] at hsome
      cases hsome

/-- The exact condition: the first region is looked up, or a table is missing indeed and
there is no allocator to ask for it. -/
theorem map_fails_for_tables (h : WellFormed m root) (hno : 0 ∉ tables m root)
    (hperm : perm.signExtend 64 &&& pteP ≠ 0) (hasserts : mapAsserts root va pa sz perm = .ok ())
    (halloc : ∀ f, allocator = some f → AllocatorOk f I) (hI : I (tables m root) s) :
    FailsForTables m s root va pa sz perm allocator ↔ sz = 0 ∨
    va.toNat / 2 ^ 21 % 2 ^ 32 ≠ 2 ^ 32 - 1 ∨
      allocator = none ∧ ∃ X : Word, X.toNat < sz.toNat ∧
      Radix.walk tableOf m root (path (va + X)) = none := by
  have hindex : va.toNat / 2 ^ 21 % 2 ^ 32 ≠ 2 ^ 32 - 1 ↔ index123 va ≠ -1 :=
    (index123_eq_neg_one va).not.symm
  rw [hindex]
  by_cases hok : sz = 0 ∨ index123 va ≠ -1
  · exact ⟨fun _ => by rwa [← or_assoc, or_iff_left_of_imp fun _ => hok],
      fun _ => failsForTables_of_index h hno hperm hasserts halloc hI hok⟩
  · obtain ⟨hsz, hidx⟩ := not_or.mp hok
    rw [not_not] at hidx
    constructor
    · intro hfails
      obtain ⟨hmissing, hrefused⟩ :=
        hfails.1 m s [] (virtualMemoryMap_skipped hperm hasserts hsz hidx)
      exact .inr (.inr ⟨hrefused.resolve_right (by simp), hmissing⟩)
    · intro hcond
      obtain ⟨hnone, X, hX, hmissing⟩ := (hcond.resolve_left hsz).resolve_left (not_not.mpr hidx)
      refine ⟨fun m' s' calls _ => ⟨⟨X, hX, hmissing⟩, .inl hnone⟩, fun hall => ?_⟩
      have hsome := hall X hX
      rw [hmissing] at hsome
      cases hsome

end

theorem tables_empty (root : Word) : tables (fun _ _ => 0) root = {root} := by
  ext x
  constructor
  · intro hx
    obtain ⟨p, -, hp⟩ := hx
    exact (emptyTable_walk hp).2
  · intro hx
    exact ⟨[], by simp, congrArg some hx.symm⟩

theorem nextPageInv_empty : NextPageInv (tables (fun _ _ => 0) 0x1000) 2 := by
  refine ⟨by decide, fun pt hpt => ?_⟩
  rw [tables_empty, Set.mem_singleton_iff] at hpt
  rw [hpt]
  decide

theorem nextPage_allocator : ∀ f, some nextPage = some f → AllocatorOk f NextPageInv := by
  intro f hf
  rw [← Option.some.inj hf]
  exact nextPage_ok

theorem map_fails_for_tables_low :
    FailsForTables (fun _ _ => 0) 2 0x1000 0x200000 0x3000 0x1000 3 (some nextPage) := by
  have hiff := map_fails_for_tables (wellFormed_empty 0x1000) (by rw [tables_empty]; decide)
    (show (3 : BitVec 32).signExtend 64 &&& pteP ≠ 0 by decide)
    (show mapAsserts 0x1000 0x200000 0x3000 0x1000 3 = .ok () by rfl) nextPage_allocator
      nextPageInv_empty
  exact hiff.mpr (.inr (.inl (by decide)))

/-- The last page of the address space is refused, though nobody has asked the allocator. -/
theorem map_fails_at_top : WellFormed (fun _ _ => 0) 0x1000 ∧ 0 ∉ tables (fun _ _ => 0) 0x1000 ∧
    mapAsserts 0x1000 0xFFFFFFFFFFFFF000 0x3000 0x1000 3 = .ok () ∧
    ¬ FailsForTables (fun _ _ => 0) 2 0x1000 0xFFFFFFFFFFFFF000 0x3000 0x1000 3
        (some nextPage) := by
  refine ⟨wellFormed_empty 0x1000, by rw [tables_empty]; decide, by rfl, fun hfails => ?_⟩
  have hskip : virtualMemoryMap 0x1000 0xFFFFFFFFFFFFF000 0x3000 0x1000 3
    ((some nextPage).map logged) (fun _ _ => 0) (2, []) =
      .ok (-1, fun _ _ => 0, (2, [])) :=
        virtualMemoryMap_skipped (by decide) (by rfl) (by decide) (by decide)
  obtain ⟨-, hrefused⟩ := hfails.1 _ _ _ hskip
  simp at hrefused

end Csc412.Kernel
