import Csc412.Kernel.RangeSound

/-!
# A mapping that fails

A new table is needed only where a 2 MiB region begins, so `virtual_memory_map` stops
there: the pages before are mapped, and the tables it has linked on the way to the
missing one are empty.
-/

namespace Csc412.Kernel

open Lib

/-- The number of pages from `va` on to `v`, round the low 48 bits. -/
def pageDistance (va v : Word) : Nat := (v.toNat / 4096 + (2 ^ 52 - va.toNat / 4096)) % 2 ^ 36

theorem pageDistance_zero (va v : Word) : pageDistance va v = 0 ↔ Alias v va := by
  unfold pageDistance Alias
  have := va.isLt
  omega

theorem next_page_toNat {v : Word} {n : Nat} (h : v.toNat + (n + 1) * 4096 ≤ 2 ^ 64) (hn : 0 < n) :
    (v + 4096).toNat = v.toNat + 4096 := by
  rw [BitVec.toNat_add]
  have : (4096 : Word).toNat = 4096 := rfl
  omega

theorem pageDistance_next {va v : Word} (h : (va + 4096).toNat = va.toNat + 4096) :
    pageDistance (va + 4096) v =
      if pageDistance va v = 0 then 2 ^ 36 - 1 else pageDistance va v - 1 := by
  unfold pageDistance
  rw [h]
  have := va.isLt
  split <;> omega

theorem pageDistance_range {va X : Word} (hal : va.toNat % 4096 = 0)
    (h : va.toNat + X.toNat < 2 ^ 64) (hX : X.toNat < 2 ^ 48) :
    pageDistance va (va + X) = X.toNat / 4096 := by
  have hsum : (va + X).toNat = va.toNat + X.toNat := by rw [BitVec.toNat_add]; omega
  unfold pageDistance
  rw [hsum]
  have := va.isLt
  omega

theorem region_next {va : Word} (hal : va.toNat % 4096 = 0)
    (h : (va + 4096).toNat = va.toNat + 4096) (hidx : index123 (va + 4096) ≠ index123 va) :
    (va.toNat + 4096) % 2 ^ 21 = 0 := by
  rw [Ne, index123_eq_iff, region, region, h] at hidx
  have := va.isLt
  omega

theorem pageEntry_write_alias {m : Mem} {root l4 va e : Word} (h : WellFormed m root)
    (hl4 : Radix.walk tableOf m root (path va) = some l4) (v : Word) :
    pageEntry (m.setEntry l4 (pageindex va 3) e) root v =
      if pageDistance va v = 0 then e else pageEntry m root v := by
  unfold pageEntry Mem.setEntry
  rw [Radix.entry_set_deep h.tree hl4 (levels_length va 3) 0 e (by rw [path, levels_length])]
  simp only [alias_iff, pageDistance_zero]

/-! ## The loop -/

/-- The loop over `n` pages has stopped after `k`: the page that fails begins a region,
or is the first and is looked up. -/
structure Stopped (m m' : Mem) (root va pa : Word) (perm : BitVec 32) (last : Int) (n k : Nat) :
    Prop where
  lt : k < n
  wf : WellFormed m' root
  region : k = 0 ∧ index123 va ≠ last ∨ (va.toNat + k * 4096) % 2 ^ 21 = 0
  entry : ∀ v, pageEntry m' root v =
    if pageDistance va v < k then BitVec.ofNat 64 (pa.toNat + pageDistance va v * 4096) |||
      perm.signExtend 64
    else pageEntry m root v

section
variable {σ : Type} {root : Word} {perm : BitVec 32} {allocator : Option (σ → Word × σ)}
    {I : Set Word → σ → Prop}
  (hperm : perm.signExtend 64 &&& pteP ≠ 0) (halloc : ∀ f, allocator = some f → AllocatorOk f I)
include hperm halloc

theorem mapPages_stopped (n : Nat) :
    ∀ (va pa : Word) (last : Int) (l4 : Word) (m m' : Mem) (s s' : σ),
    WellFormed m root → I (tables m root) s →
    (index123 va = last → l4 ≠ 0 ∧ Radix.walk tableOf m root (path va) = some l4) →
    va.toNat % 4096 = 0 → va.toNat + n * 4096 ≤ 2 ^ 64 → pa.toNat + n * 4096 ≤ memsizePhysical →
    mapPages root perm allocator n va pa last l4 m s = .ok (-1, m', s') →
    ∃ k, Stopped m m' root va pa perm last n k := by
  induction n with
  | zero =>
    intro va pa last l4 m m' s s' _ _ _ _ _ _ hres
    cases hres
  | succ n ih =>
    intro va pa last l4 m m' s s' hwf hI hc hal hva hpa hres
    obtain ⟨r, m₁, s₁, hr, hI₁, hf⟩ :=
      nextTable_spec hperm halloc (fun _ => True) (fun _ _ _ _ => trivial) hwf hI hc
    have hold : ∀ v, pageEntry m₁ root v = pageEntry m root v :=
      fun v => hf.grown.entry _ _ (levels_length v 3)
    rw [mapPages] at hres
    simp only [hr] at hres
    by_cases h0 : r = 0
    · rw [if_neg fun hh => hh.2 h0, if_neg (not_not.mpr h0), if_pos hperm] at hres
      cases hres
      refine ⟨0, Nat.succ_pos n, hf.grown.wf, .inl ⟨rfl, fun hidx => ?_⟩, fun v => ?_⟩
      · -- a kept table is not null
        rw [nextTable, if_neg (not_not.mpr hidx)] at hr
        cases hr
        exact (hc hidx).1 h0
      · rw [if_neg (Nat.not_lt_zero _)]
        exact hold v
    · rw [if_pos ⟨hperm, h0⟩] at hres
      have hwalk := hf.found h0
      have hn : 0 < n := by
        rcases n with _ | n
        · cases hres
        · exact Nat.succ_pos n
      have hva' : (va + 4096).toNat = va.toNat + 4096 := next_page_toNat hva hn
      have hpa' : (pa + 4096).toNat = pa.toNat + 4096 :=
        add_page_toNat (n := n) (by unfold memsizePhysical at hpa; omega)
      have hnext : index123 (va + 4096) = index123 va → r ≠ 0 ∧
          Radix.walk tableOf (m₁.setEntry r (pageindex va 3) (pa ||| perm.signExtend 64)) root
              (path (va + 4096)) = some r := by
        intro hidx
        refine ⟨h0, ?_⟩
        rw [walk_write hf.grown.wf hwalk (by rw [path, levels_length]), path_of_index123 hidx]
        exact hwalk
      obtain ⟨k, hk⟩ := ih (va + 4096) (pa + 4096) (index123 va) r _ m' s₁ s'
        (hf.grown.wf.write hwalk _)
        (by rw [tables_write hf.grown.wf hwalk]; exact hI₁) hnext (by omega) (by omega)
          (by omega) hres
      refine ⟨k + 1, Nat.succ_lt_succ hk.lt, hk.wf, .inr ?_, fun v => ?_⟩
      · rcases hk.region with ⟨rfl, hidx⟩ | hreg
        · have := region_next hal hva' hidx
          omega
        · omega
      · have hsmall := hk.lt
        unfold memsizePhysical at hpa
        rw [hk.entry v, pageEntry_write_alias hf.grown.wf hwalk v, hold v,
          pageDistance_next hva', hpa']
        by_cases hd : pageDistance va v = 0
        · have hpa0 : BitVec.ofNat 64 (pa.toNat + 0 * 4096) = pa := by simp
          rw [if_pos hd, if_neg (by omega), if_pos hd, if_pos (by omega), hd, hpa0]
        · rw [if_neg hd, if_neg hd]
          have hsum : pa.toNat + 4096 + (pageDistance va v - 1) * 4096 =
            pa.toNat + pageDistance va v * 4096 := by omega
          by_cases hlt : pageDistance va v - 1 < k
          · rw [if_pos hlt, if_pos (by omega), hsum]
          · rw [if_neg hlt, if_neg (by omega)]

end

/-! ## The whole call -/

theorem mapAsserts_wrap {root va pa sz : Word} {perm : BitVec 32}
    (h : mapAsserts root va pa sz perm = .ok ()) :
    va.toNat + sz.toNat ≤ 2 ^ 64 := by
  unfold mapAsserts at h
  obtain ⟨-, h⟩ := check_ok h
  obtain ⟨-, h⟩ := check_ok h
  obtain ⟨hwrap, -⟩ := check_ok h
  rw [Bool.or_eq_true, decide_eq_true_eq, decide_eq_true_eq, BitVec.le_def] at hwrap
  have hva := va.isLt
  have hsz := sz.isLt
  rcases hwrap with hle | hzero
  · rw [BitVec.toNat_add] at hle
    omega
  · have hsum := congrArg BitVec.toNat hzero
    rw [BitVec.toNat_add, show (0 : Word).toNat = 0 from rfl] at hsum
    omega

section
variable {σ : Type} {I : Set Word → σ → Prop} {allocator : Option (σ → Word × σ)} {m m' : Mem}
    {s s' : σ}
  {root va pa sz : Word} {perm : BitVec 32}

theorem virtualMemoryMap_stopped (h : WellFormed m root) (hperm : perm.signExtend 64 &&& pteP ≠ 0)
    (hasserts : mapAsserts root va pa sz perm = .ok ())
    (halloc : ∀ f, allocator = some f → AllocatorOk f I) (hI : I (tables m root) s)
    (hfail : virtualMemoryMap root va pa sz perm allocator m s = .ok (-1, m', s')) :
    ∃ k < sz.toNat / 4096, WellFormed m' root ∧ (k = 0 ∨ (va.toNat + k * 4096) % 2 ^ 21 = 0) ∧
      ∀ v, pageEntry m' root v =
        if pageDistance va v < k then BitVec.ofNat 64 (pa.toNat + pageDistance va v * 4096) |||
          perm.signExtend 64
        else pageEntry m root v := by
  have hr := mapAsserts_range hperm hasserts
  have hwrap := mapAsserts_wrap hasserts
  have hpa := hr.pa_le
  by_cases hidx : index123 va = -1
  · by_cases hsz : sz = 0
    · rw [virtualMemoryMap_eq hasserts, hsz] at hfail
      cases hfail
    · -- the first page is refused before anything is written
      rw [virtualMemoryMap_skipped hperm hasserts hsz hidx] at hfail
      cases hfail
      have hpos : sz.toNat ≠ 0 := fun h0 => hsz (BitVec.eq_of_toNat_eq h0)
      refine ⟨0, by have := hr.sz_aligned; omega, h, .inl rfl, fun v => ?_⟩
      rw [if_neg (Nat.not_lt_zero _)]
  · rw [virtualMemoryMap_eq hasserts] at hfail
    obtain ⟨k, hk⟩ := mapPages_stopped hperm halloc _ va pa (-1) 0 m m' s s' h hI
      (fun hbad => absurd hbad hidx)
      hr.va_aligned (by omega) (by omega) hfail
    exact ⟨k, hk.lt, hk.wf, hk.region.imp_left And.left, hk.entry⟩

end

/-- A failed call has mapped exactly the addresses below some `B`, and no others look
up otherwise than before. -/
theorem virtualMemoryMap_prefix {σ : Type} {I : Set Word → σ → Prop}
    {allocator : Option (σ → Word × σ)} {m m' : Mem} {s s' : σ} {root va pa sz : Word}
    {perm : BitVec 32} (h : WellFormed m root) (hperm : perm.signExtend 64 &&& pteP ≠ 0)
    (hasserts : mapAsserts root va pa sz perm = .ok ())
    (halloc : ∀ f, allocator = some f → AllocatorOk f I) (hI : I (tables m root) s)
    (hfail : virtualMemoryMap root va pa sz perm allocator m s = .ok (-1, m', s')) :
    WellFormed m' root ∧ ∃ B : Word, va ≤ B ∧ B.toNat < va.toNat + sz.toNat ∧
    (B = va ∨ B.toNat % 2 ^ 21 = 0) ∧
      (∀ v, va ≤ v → v < B → virtualMemoryLookup m' root v =
        ⟨pagenumber (pa + (v - va)), pa + (v - va),
          perm.signExtend 64 &&& (pteP ||| pteW ||| pteU)⟩) ∧
      (∀ v, (∀ w, va ≤ w → w < B → ¬ Alias w v) → virtualMemoryLookup m' root v =
        virtualMemoryLookup m root v) ∧
      (va.toNat + sz.toNat ≤ 2 ^ 48 → ∀ v : Word, v.toNat < 2 ^ 48 → ¬ (va ≤ v ∧ v < B) →
        virtualMemoryLookup m' root v = virtualMemoryLookup m root v) := by
  have hr := mapAsserts_range hperm hasserts
  have hwrap := mapAsserts_wrap hasserts
  have hsz := hr.sz_aligned
  have hal := hr.va_aligned
  obtain ⟨k, hlt, hwf, hregion, hentry⟩ := virtualMemoryMap_stopped h hperm hasserts halloc hI hfail
  have hB : (va + BitVec.ofNat 64 (k * 4096)).toNat = va.toNat + k * 4096 := by
    rw [BitVec.toNat_add, BitVec.toNat_ofNat]
    omega
  have hother : ∀ v, (∀ w, va ≤ w → w < va + BitVec.ofNat 64 (k * 4096) → ¬ Alias w v) →
      virtualMemoryLookup m' root v = virtualMemoryLookup m root v := by
    intro v hv
    rw [lookup_eq hwf, lookup_eq h, hentry, if_neg]
    intro hd
    have hw : (va + BitVec.ofNat 64 (pageDistance va v * 4096)).toNat =
        va.toNat + pageDistance va v * 4096 := by
      rw [BitVec.toNat_add, BitVec.toNat_ofNat]
      omega
    apply hv (va + BitVec.ofNat 64 (pageDistance va v * 4096))
    · rw [BitVec.le_def, hw]
      omega
    · rw [BitVec.lt_def, hw, hB]
      omega
    · rw [Alias, hw]
      unfold pageDistance
      have := va.isLt
      omega
  refine ⟨hwf, va + BitVec.ofNat 64 (k * 4096), ?_, ?_, ?_, fun v hlo hhi => ?_, hother,
    fun h48 v hv hout => ?_⟩
  · rw [BitVec.le_def, hB]
    omega
  · rw [hB]
    omega
  · rw [hB]
    rcases hregion with rfl | hreg
    · exact .inl (BitVec.add_zero va)
    · exact .inr hreg
  · rw [BitVec.le_def] at hlo
    rw [BitVec.lt_def, hB] at hhi
    obtain ⟨X, rfl⟩ : ∃ X, v = va + X := ⟨v - va, by rw [BitVec.add_comm, BitVec.sub_add_cancel]⟩
    have hX : X.toNat < k * 4096 := by
      have := X.isLt
      have := va.isLt
      rw [BitVec.toNat_add] at hlo hhi
      omega
    have hvX : (va + X).toNat = va.toNat + X.toNat := by rw [BitVec.toNat_add]; omega
    have hd : pageDistance va (va + X) = (va + X).toNat / 4096 - va.toNat / 4096 := by
      have := hr.pa_le
      unfold memsizePhysical at this
      rw [pageDistance_range hal (by omega) (by omega), hvX]
      omega
    have hsub : va + X - va = X := by rw [BitVec.add_comm, BitVec.add_sub_cancel]
    rw [lookup_eq hwf, hentry, hd, if_pos (by omega), hsub]
    exact mappingOf_mapped hr hperm hwrap (by omega)
  · apply hother
    intro w hlo hhi halias
    apply hout
    rw [BitVec.le_def] at hlo
    rw [BitVec.lt_def, hB] at hhi
    unfold Alias at halias
    rw [BitVec.le_def, BitVec.lt_def, hB]
    omega

/-- Three free pages serve the first region of two. -/
theorem virtualMemoryMap_prefix_short :
    ∃ m' s', virtualMemoryMap 0x1000 0x1FF000 0x3000 0x2000 3 (some nextPage) (fun _ _ => 0) 509 =
      .ok (-1, m', s') ∧
      WellFormed m' 0x1000 ∧ ∃ B : Word, 0x1FF000 ≤ B ∧ B.toNat < 0x201000 ∧
      (B = 0x1FF000 ∨ B.toNat % 2 ^ 21 = 0) ∧
        ∀ v : Word, v.toNat < 2 ^ 48 → ¬ (0x1FF000 ≤ v ∧ v < B) →
          virtualMemoryLookup m' 0x1000 v = virtualMemoryLookup (fun _ _ => 0) 0x1000 v := by
  have hI : NextPageInv (tables (fun _ _ => 0) 0x1000) 509 := by
    refine ⟨by decide, fun pt hpt => ?_⟩
    rw [tables_empty, Set.mem_singleton_iff] at hpt
    rw [hpt]
    decide
  have hres : (virtualMemoryMap 0x1000 0x1FF000 0x3000 0x2000 3 (some nextPage)
    (fun _ _ => 0) 509).toOption.map (fun x => x.1) = some (-1) := by decide
  cases hcall : virtualMemoryMap 0x1000 0x1FF000 0x3000 0x2000 3 (some nextPage)
    (fun _ _ => 0) 509 with
  | error e =>
    rw [hcall] at hres
    cases hres
  | ok x =>
    obtain ⟨r, m', s'⟩ := x
    rw [hcall] at hres
    cases hres
    obtain ⟨hwf, B, hlo, hhi, hB, -, -, hsame⟩ := virtualMemoryMap_prefix (wellFormed_empty 0x1000)
      (show (3 : BitVec 32).signExtend 64 &&& pteP ≠ 0 by decide)
      (show mapAsserts 0x1000 0x1FF000 0x3000 0x2000 3 = .ok () by rfl) nextPage_allocator hI hcall
    exact ⟨m', s', rfl, hwf, B, hlo, hhi, hB, hsame (by decide)⟩

end Csc412.Kernel
