import Csc412.Kernel.RangeSound

/-!
# Unmapping

Without `PTE_P`, `virtual_memory_map` clears the entries of the pages whose tables are
there. Nothing is allocated and nothing fails, but in a first region whose low 32 bits are
all ones the null table is kept, and its pages are passed over.
-/

namespace Csc412.Kernel

open Lib

section
variable {σ : Type} {root : Word} {perm : BitVec 32} {allocator : Option (σ → Word × σ)}

/-! ## One page -/

theorem lookupLevels_absent (hperm : perm.signExtend 64 &&& pteP = 0) {va : Word} {m : Mem} {s : σ}
    (hwf : WellFormed m root) (n : Nat) (p : List (Fin 512)) (pt : Word)
    (hpt : Radix.walk tableOf m root p = some pt) (hlen : p.length + n = 3) :
    lookupLevels va perm allocator n pt m s =
        .ok ((Radix.walk tableOf m root (p ++ levels va n)).getD 0, m, s) :=
  lookupLevels_silent (if_pos hperm) hwf n p pt hpt hlen

theorem mappingOf_absent {pe : Word} (h : pe &&& pteP = 0) (va : Word) :
    mappingOf pe va = .unmapped := if_neg (not_not.mpr h)

theorem lookup_missing {m : Mem} (hwf : WellFormed m root) {v : Word}
    (h : Radix.walk tableOf m root (path v) = none) :
    virtualMemoryLookup m root v = .unmapped := by
  rw [lookup_eq hwf]
  apply mappingOf_absent
  simp [pageEntry, Radix.entry, h]

theorem lookup_cleared {m : Mem} {l4 va v : Word} (hwf : WellFormed m root)
    (hl4 : Radix.walk tableOf m root (path va) = some l4) {pe : Word} (hpe : pe &&& pteP = 0) :
    (Alias va v → virtualMemoryLookup (m.setEntry l4 (pageindex va 3) pe) root v = .unmapped) ∧
      (¬ Alias va v → virtualMemoryLookup (m.setEntry l4 (pageindex va 3) pe) root v =
          virtualMemoryLookup m root v) := by
  have hentry : pageEntry (m.setEntry l4 (pageindex va 3) pe) root v =
      if Alias v va then pe else pageEntry m root v := by
    unfold pageEntry Mem.setEntry
    rw [Radix.entry_set_deep hwf.tree hl4 (levels_length va 3) 0 pe (by rw [path, levels_length])]
    exact if_congr (alias_iff v va) rfl rfl
  rw [lookup_eq (hwf.write hl4 _), lookup_eq hwf, hentry]
  constructor
  · intro halias
    rw [if_pos halias.symm]
    exact mappingOf_absent hpe v
  · intro hne
    rw [if_neg fun h => hne h.symm]

/-! ## The loop -/

/-- The pages of `[va, va + n * PAGESIZE)` that `P` holds of are cleared, and all others
are left alone. -/
structure Cleared (m m' : Mem) (root va : Word) (n : Nat) (P : Word → Prop) : Prop where
  wf : WellFormed m' root
  unmapped : ∀ v, (∃ k < n, P (va + BitVec.ofNat 64 (k * 4096)) ∧
    Alias (va + BitVec.ofNat 64 (k * 4096)) v) →
    virtualMemoryLookup m' root v = .unmapped
  kept : ∀ v, (∀ k < n, P (va + BitVec.ofNat 64 (k * 4096)) →
    ¬ Alias (va + BitVec.ofNat 64 (k * 4096)) v) →
    virtualMemoryLookup m' root v = virtualMemoryLookup m root v

theorem add_page_zero (va : Word) : va + BitVec.ofNat 64 (0 * 4096) = va := by
  rw [Nat.zero_mul]
  exact BitVec.add_zero va

theorem mapPages_clears (hperm : perm.signExtend 64 &&& pteP = 0) (n : Nat) :
    ∀ (va pa : Word) (last : Int) (l4 : Word) (m : Mem) (s : σ), WellFormed m root →
    0 ∉ tables m root →
      (index123 va = last → l4 = (Radix.walk tableOf m root (path va)).getD 0) →
      ∃ m', mapPages root perm allocator n va pa last l4 m s = .ok (0, m', s) ∧
      Cleared m m' root va n fun _ => True := by
  induction n with
  | zero =>
    intro va pa last l4 m s hwf _ _
    exact ⟨m, rfl, hwf, fun v h => absurd h (by simp), fun v _ => rfl⟩
  | succ n ih =>
    intro va pa last l4 m s hwf hno hc
    have htable : nextTable root perm allocator va last l4 m s =
        .ok ((Radix.walk tableOf m root (path va)).getD 0, m, s) := by
      unfold nextTable
      by_cases hlast : index123 va = last
      · rw [if_neg (not_not.mpr hlast), hc hlast]
      · rw [if_pos hlast]
        exact lookupLevels_absent hperm hwf 3 [] root rfl rfl
    -- the memory after this page
    have hpage : ∃ m₁, mapPages root perm allocator (n + 1) va pa last l4 m s =
          mapPages root perm allocator n (va + 4096) (pa + 4096) (index123 va)
            ((Radix.walk tableOf m root (path va)).getD 0) m₁ s ∧
        WellFormed m₁ root ∧ tables m₁ root = tables m root ∧
        (∀ v, Radix.walk tableOf m₁ root (path v) = Radix.walk tableOf m root (path v)) ∧
        ∀ v, (Alias va v → virtualMemoryLookup m₁ root v = .unmapped) ∧
          (¬ Alias va v → virtualMemoryLookup m₁ root v = virtualMemoryLookup m root v) := by
      rw [mapPages]
      simp only [htable]
      rw [if_neg fun h => h.1 hperm]
      cases hw : Radix.walk tableOf m root (path va) with
      | none =>
        refine ⟨m, ?_, hwf, rfl, fun _ => rfl, fun v => ⟨fun halias => ?_, fun _ => rfl⟩⟩
        · rw [if_neg (by simp), if_neg (not_not.mpr hperm)]
        · apply lookup_missing hwf
          rw [← ((alias_iff va v).mpr halias).1]
          exact hw
      | some t =>
        have ht : t ≠ 0 := fun h0 => hno ⟨path va, by rw [path, levels_length], h0 ▸ hw⟩
        refine ⟨m.setEntry t (pageindex va 3) (perm.signExtend 64), ?_, hwf.write hw _,
          tables_write hwf hw _, fun v => ?_,
          fun v => lookup_cleared hwf hw hperm⟩
        · rw [if_pos (by simpa using ht)]
          rfl
        · exact walk_write hwf hw (by rw [path, levels_length]) _
    obtain ⟨m₁, heq, hwf₁, htables, hwalk, hlook⟩ := hpage
    obtain ⟨m', hm', hcleared⟩ :=
      ih (va + 4096) (pa + 4096) (index123 va) _ m₁ s hwf₁ (by rw [htables]; exact hno)
      fun hidx => by rw [hwalk, path_of_index123 hidx]
    refine ⟨m', heq.trans hm', hcleared.wf, fun v hv => ?_, fun v hv => ?_⟩
    · by_cases hrest : ∃ k < n, True ∧ Alias (va + 4096 + BitVec.ofNat 64 (k * 4096)) v
      · exact hcleared.unmapped v hrest
      · rw [hcleared.kept v fun k hk _ halias => hrest ⟨k, hk, trivial, halias⟩]
        apply (hlook v).1
        obtain ⟨k, hk, -, halias⟩ := hv
        cases k with
        | zero => rwa [add_page_zero] at halias
        | succ k =>
          rw [← add_pages] at halias
          exact absurd ⟨k, by omega, trivial, halias⟩ hrest
    · rw [hcleared.kept v fun k hk _ => by rw [add_pages]; exact hv (k + 1) (by omega) trivial]
      apply (hlook v).2
      have hfirst := hv 0 (Nat.succ_pos n) trivial
      rwa [add_page_zero] at hfirst

theorem mapPages_skips (hperm : perm.signExtend 64 &&& pteP = 0) (m : Mem) (s : σ) (n' n : Nat) :
    ∀ va pa : Word,
    (∀ k < n, index123 (va + BitVec.ofNat 64 (k * 4096)) = -1) →
    mapPages root perm allocator (n + n') va pa (-1) 0 m s =
      mapPages root perm allocator n' (va + BitVec.ofNat 64 (n * 4096))
          (pa + BitVec.ofNat 64 (n * 4096)) (-1) 0 m s := by
  induction n with
  | zero =>
    intro va pa _
    rw [Nat.zero_add, add_page_zero, add_page_zero]
  | succ n ih =>
    intro va pa h
    have hfirst := h 0 (Nat.succ_pos n)
    rw [add_page_zero] at hfirst
    rw [show n + 1 + n' = n + n' + 1 by omega, mapPages, nextTable, if_neg (not_not.mpr hfirst)]
    simp only
    rw [if_neg fun hh => hh.2 rfl, if_neg (not_not.mpr rfl), if_neg (not_not.mpr hperm), hfirst,
      ih (va + 4096) (pa + 4096) fun k hk => by rw [add_pages]; exact h (k + 1) (by omega),
      add_pages, add_pages]

end

/-! ## The whole call -/

theorem mapAsserts_va {pagetable va pa sz : Word} {perm : BitVec 32}
    (h : mapAsserts pagetable va pa sz perm = .ok ()) :
    va.toNat % 4096 = 0 ∧ sz.toNat % 4096 = 0 ∧ va.toNat + sz.toNat ≤ 2 ^ 64 := by
  unfold mapAsserts at h
  obtain ⟨hva, h⟩ := check_ok h
  obtain ⟨hsz, h⟩ := check_ok h
  obtain ⟨hwrap, -⟩ := check_ok h
  simp only [decide_eq_true_eq, Bool.or_eq_true, BitVec.le_def] at hva hsz hwrap
  refine ⟨hva, hsz, ?_⟩
  have hva64 := va.isLt
  have hsz64 := sz.isLt
  rcases hwrap with hle | hzero
  · rw [BitVec.toNat_add] at hle
    omega
  · have hmod := congrArg BitVec.toNat hzero
    rw [BitVec.toNat_add, show (0 : Word).toNat = 0 from rfl] at hmod
    omega

section
variable {σ : Type} {m : Mem} {root va pa sz : Word} {perm : BitVec 32}
    {allocator : Option (σ → Word × σ)}

theorem page_toNat {n k : Nat} (h : va.toNat + n * 4096 ≤ 2 ^ 64) (hk : k < n) :
    (va + BitVec.ofNat 64 (k * 4096)).toNat = va.toNat + k * 4096 := by
  rw [BitVec.toNat_add, BitVec.toNat_ofNat]
  omega

theorem mapPages_clears_first (hperm : perm.signExtend 64 &&& pteP = 0) (hwf : WellFormed m root)
    (hno : 0 ∉ tables m root) {n : Nat} (hal : va.toNat % 4096 = 0)
    (hn : va.toNat + n * 4096 ≤ 2 ^ 64) (hidx : index123 va = -1) (s : σ) :
    ∃ m', mapPages root perm allocator n va pa (-1) 0 m s = .ok (0, m', s) ∧
      Cleared m m' root va n fun a => region a ≠ region va := by
  -- the pages of the first region
  obtain ⟨K, hK⟩ : ∃ K, K = (2 ^ 21 - va.toNat % 2 ^ 21) / 4096 := ⟨_, rfl⟩
  have hregion : ∀ k < n, region (va + BitVec.ofNat 64 (k * 4096)) = region va ↔ k < K := by
    intro k hk
    rw [region, region, page_toNat hn hk]
    omega
  by_cases hle : n ≤ K
  · refine ⟨m, ?_, hwf, fun v hv => ?_, fun v _ => rfl⟩
    · apply mapPages_skips hperm m s 0 n va pa
      intro k hk
      rw [index123_eq_neg_one, (hregion k hk).mpr (by omega), ← index123_eq_neg_one]
      exact hidx
    · obtain ⟨k, hk, hne, -⟩ := hv
      exact absurd ((hregion k hk).mpr (by omega)) hne
  · obtain ⟨n', rfl⟩ : ∃ n', n = K + n' := ⟨n - K, by omega⟩
    have hfirst : ∀ k < K, index123 (va + BitVec.ofNat 64 (k * 4096)) = -1 := by
      intro k hk
      rw [index123_eq_neg_one, (hregion k (by omega)).mpr hk, ← index123_eq_neg_one]
      exact hidx
    have hnext : index123 (va + BitVec.ofNat 64 (K * 4096)) ≠ -1 := by
      rw [Ne, index123_eq_neg_one, region, page_toNat hn (by omega)]
      rw [index123_eq_neg_one, region] at hidx
      omega
    obtain ⟨m', hm', hc⟩ := mapPages_clears hperm n' (va + BitVec.ofNat 64 (K * 4096))
      (pa + BitVec.ofNat 64 (K * 4096)) (-1) 0
      m s hwf hno fun h => absurd h hnext
    have hshift : ∀ k, va + BitVec.ofNat 64 (K * 4096) + BitVec.ofNat 64 (k * 4096) =
        va + BitVec.ofNat 64 ((K + k) * 4096) := by
      intro k
      rw [BitVec.add_assoc, ← BitVec.ofNat_add, ← Nat.add_mul]
    refine ⟨m', (mapPages_skips hperm m s n' K va pa hfirst).trans hm', hc.wf, fun v hv => ?_,
      fun v hv => ?_⟩
    · obtain ⟨k, hk, hne, halias⟩ := hv
      rw [Ne, hregion k hk] at hne
      refine hc.unmapped v ⟨k - K, by omega, trivial, ?_⟩
      rw [hshift, show K + (k - K) = k by omega]
      exact halias
    · refine hc.kept v fun k hk _ => ?_
      rw [hshift]
      refine hv (K + k) (by omega) ?_
      rw [Ne, hregion (K + k) (by omega)]
      omega

/-- What unmapping does: a first region whose low 32 bits are all ones is left out. -/
theorem virtualMemoryMap_clears (hperm : perm.signExtend 64 &&& pteP = 0) (hwf : WellFormed m root)
    (hno : 0 ∉ tables m root) (hasserts : mapAsserts root va pa sz perm = .ok ()) (s : σ) :
    ∃ m', virtualMemoryMap root va pa sz perm allocator m s = .ok (0, m', s) ∧
      Cleared m m' root va (sz.toNat / 4096) fun a => index123 va = -1 → region a ≠ region va := by
  obtain ⟨hal, hsz, hend⟩ := mapAsserts_va hasserts
  rw [virtualMemoryMap_eq hasserts]
  by_cases hidx : index123 va = -1
  · obtain ⟨m', hm', hc⟩ := mapPages_clears_first hperm hwf hno hal (n := sz.toNat / 4096)
      (by omega) hidx s
    exact ⟨m', hm', hc.wf, fun v hv => hc.unmapped v (by simpa only [hidx, forall_const] using hv),
      fun v hv => hc.kept v (by simpa only [hidx, forall_const] using hv)⟩
  · obtain ⟨m', hm', hc⟩ := mapPages_clears hperm (sz.toNat / 4096) va pa (-1) 0 m s hwf hno
      fun h => absurd h hidx
    exact ⟨m', hm', hc.wf, fun v hv => hc.unmapped v (by simpa only [hidx, false_implies] using hv),
      fun v hv => hc.kept v (by simpa only [hidx, false_implies] using hv)⟩

/-- The call returns 0 and asks the allocator for nothing, the range is unmapped, and what
does not alias it is as before. -/
def Unmaps (m : Mem) (s : σ) (root va pa sz : Word) (perm : BitVec 32)
    (allocator : Option (σ → Word × σ)) : Prop :=
  ∃ m', virtualMemoryMap root va pa sz perm (allocator.map logged) m (s, []) =
    .ok (0, m', (s, [])) ∧
    (∀ X : Word, X.toNat < sz.toNat → virtualMemoryLookup m' root (va + X) = .unmapped) ∧
    ∀ v : Word, (∀ X : Word, X.toNat < sz.toNat → ¬ Alias (va + X) v) →
    virtualMemoryLookup m' root v = virtualMemoryLookup m root v

theorem page_of_address (hasserts : mapAsserts root va pa sz perm = .ok ()) {X : Word}
    (hX : X.toNat < sz.toNat) :
    ∃ k < sz.toNat / 4096, (va + BitVec.ofNat 64 (k * 4096)).toNat / 4096 =
        (va + X).toNat / 4096 := by
  obtain ⟨hal, hsz, hend⟩ := mapAsserts_va hasserts
  refine ⟨X.toNat / 4096, by omega, ?_⟩
  rw [page_toNat (n := sz.toNat / 4096) (by omega) (by omega), BitVec.toNat_add]
  omega

theorem region_of_page {a b : Word} (h : a.toNat / 4096 = b.toNat / 4096) :
    region a = region b := by
  unfold region
  omega

theorem alias_of_page {a b : Word} (h : a.toNat / 4096 = b.toNat / 4096) (v : Word) :
    Alias a v ↔ Alias b v := by
  unfold Alias
  rw [h]

theorem unmaps_iff_cleared (hasserts : mapAsserts root va pa sz perm = .ok ())
    (hperm : perm.signExtend 64 &&& pteP = 0) (hwf : WellFormed m root) (hno : 0 ∉ tables m root)
    (s : σ) (allocator : Option (σ → Word × σ)) :
    Unmaps m s root va pa sz perm allocator ↔ ∀ X : Word, X.toNat < sz.toNat → index123 va = -1 →
    region (va + X) = region va →
      virtualMemoryLookup m root (va + X) = .unmapped ∨
        ∃ Y : Word, Y.toNat < sz.toNat ∧ region (va + Y) ≠ region va ∧ Alias (va + Y) (va + X) := by
  obtain ⟨m', hm', hc⟩ : ∃ m', virtualMemoryMap root va pa sz perm (allocator.map logged) m (s,
    []) = .ok (0, m', (s, [])) ∧
      Cleared m m' root va (sz.toNat / 4096) fun a => index123 va = -1 → region a ≠ region va :=
    virtualMemoryMap_clears hperm hwf hno hasserts (s, [])
  -- an address that no cleared page aliases is as before, all others are unmapped
  have hcases : ∀ v, virtualMemoryLookup m' root v = .unmapped ∨ virtualMemoryLookup m' root v =
    virtualMemoryLookup m root v ∧
      ∀ Y : Word, Y.toNat < sz.toNat → (index123 va = -1 → region (va + Y) ≠ region va) →
      ¬ Alias (va + Y) v := by
    intro v
    by_cases hv : ∃ k < sz.toNat / 4096,
      (index123 va = -1 → region (va + BitVec.ofNat 64 (k * 4096)) ≠ region va) ∧
        Alias (va + BitVec.ofNat 64 (k * 4096)) v
    · exact .inl (hc.unmapped v hv)
    · refine .inr ⟨hc.kept v fun k hk hP halias => hv ⟨k, hk, hP, halias⟩, fun Y hY hP halias => ?_⟩
      obtain ⟨k, hk, hpage⟩ := page_of_address hasserts hY
      exact hv ⟨k, hk, fun hidx => by rw [region_of_page hpage]; exact hP hidx,
        (alias_of_page hpage v).mpr halias⟩
  constructor
  · intro hunmaps X hX hidx hregion
    obtain ⟨m'', hm'', hun, -⟩ := hunmaps
    rw [hm'] at hm''
    cases hm''
    by_cases hY : ∃ Y : Word, Y.toNat < sz.toNat ∧ region (va + Y) ≠ region va ∧
      Alias (va + Y) (va + X)
    · exact .inr hY
    · left
      have hkept : virtualMemoryLookup m' root (va + X) = virtualMemoryLookup m root (va + X) := by
        apply hc.kept
        intro k hk hP halias
        exact hY ⟨_, page_of_range hk, hP hidx, halias⟩
      rw [← hkept]
      exact hun X hX
  · intro hcond
    refine ⟨m', hm', fun X hX => ?_, fun v hv => ?_⟩
    · rcases hcases (va + X) with hun | ⟨hsame, hnot⟩
      · exact hun
      · by_cases hfirst : index123 va = -1 ∧ region (va + X) = region va
        · rcases hcond X hX hfirst.1 hfirst.2 with hun | ⟨Y, hY, hne, halias⟩
          · rw [hsame]
            exact hun
          · exact absurd halias (hnot Y hY fun _ => hne)
        · exact absurd rfl (hnot X hX fun hidx hregion => hfirst ⟨hidx, hregion⟩)
    · apply hc.kept
      intro k hk _ halias
      exact hv _ (page_of_range hk) halias

/-- The exact condition: the first region is looked up, or everything of the range in it is
unmapped already or aliases a part of the range outside of it. -/
theorem unmap_clears_range (hwf : WellFormed m root) (hno : 0 ∉ tables m root)
    (hperm : perm.signExtend 64 &&& pteP = 0) (hasserts : mapAsserts root va pa sz perm = .ok ())
    (s : σ) (allocator : Option (σ → Word × σ)) :
    Unmaps m s root va pa sz perm allocator ↔ va.toNat / 2 ^ 21 % 2 ^ 32 ≠ 2 ^ 32 - 1 ∨
      ∀ X : Word, X.toNat < sz.toNat → (va + X).toNat / 2 ^ 21 = va.toNat / 2 ^ 21 →
        virtualMemoryLookup m root (va + X) = .unmapped ∨
          ∃ Y : Word, Y.toNat < sz.toNat ∧ (va + Y).toNat / 2 ^ 21 ≠ va.toNat / 2 ^ 21 ∧
            (va + Y).toNat / 4096 % 2 ^ 36 = (va + X).toNat / 4096 % 2 ^ 36 := by
  rw [unmaps_iff_cleared hasserts hperm hwf hno]
  have hindex : va.toNat / 2 ^ 21 % 2 ^ 32 ≠ 2 ^ 32 - 1 ↔ index123 va ≠ -1 :=
    (index123_eq_neg_one va).not.symm
  rw [hindex]
  by_cases hidx : index123 va = -1
  · constructor
    · intro h
      exact .inr fun X hX hregion => h X hX hidx hregion
    · intro h X hX _ hregion
      exact (h.resolve_left (not_not.mpr hidx)) X hX hregion
  · exact ⟨fun _ => .inl hidx, fun _ X _ hbad => absurd hbad hidx⟩

end

/-! ## A page at the top -/

/-- Three tables below the root at `0x1000`, and a page at the top of 48 bits. -/
def topTables :
    Mem :=
      (((((Mem.setEntry (fun _ _ => 0) 0x1000 511 (linkEntry 0x2000)).clearPage 0x2000).setEntry
        0x2000 511
  (linkEntry 0x3000)).clearPage 0x3000).setEntry 0x3000 511 (linkEntry 0x4000)).clearPage 0x4000

def topPage : Mem := topTables.setEntry 0x4000 511 0x5007

theorem topTables_wf : WellFormed topTables 0x1000 ∧ Radix.walk tableOf topTables 0x1000
    [511, 511, 511] = some 0x4000 ∧
    0 ∉ tables topTables 0x1000 := by
  obtain ⟨hg₁, hw₁, ht₁⟩ :=
    grown_link (c := 0x2000) (p := []) (i := 511) (wellFormed_empty 0x1000) rfl (by decide)
      (by decide)
    (by decide) (by decide) (by rw [tables_empty]; decide)
  rw [tables_empty] at ht₁
  obtain ⟨hg₂, hw₂, ht₂⟩ :=
    grown_link (c := 0x3000) (i := 511) hg₁.wf hw₁ (by decide) (by decide) (by decide) (by decide)
    (by rw [ht₁]; simp)
  rw [ht₁] at ht₂
  obtain ⟨hg₃, hw₃, ht₃⟩ :=
    grown_link (c := 0x4000) (i := 511) hg₂.wf hw₂ (by decide) (by decide) (by decide) (by decide)
    (by rw [ht₂]; simp)
  rw [ht₂] at ht₃
  refine ⟨hg₃.wf, hw₃, ?_⟩
  have htables : tables topTables 0x1000 = _ := ht₃
  rw [htables]
  simp

theorem topPage_wf : WellFormed topPage 0x1000 ∧ 0 ∉ tables topPage 0x1000 := by
  obtain ⟨hwf, hwalk, hno⟩ := topTables_wf
  have hl4 : Radix.walk tableOf topTables 0x1000 (path 0xFFFFFFFFF000) = some 0x4000 := by
    rw [show path 0xFFFFFFFFF000 = [511, 511, 511] by decide]
    exact hwalk
  refine ⟨hwf.write hl4 511, ?_⟩
  rw [topPage, tables_write hwf hl4]
  exact hno

theorem unmap_clears_range_low :
    Unmaps topPage 0 0x1000 0xFFFFFFFFF000 0 0x1000 0 (some nextPage) := by
  have hiff := unmap_clears_range topPage_wf.1 topPage_wf.2
    (show (0 : BitVec 32).signExtend 64 &&& pteP = 0 by decide)
    (show mapAsserts 0x1000 0xFFFFFFFFF000 0 0x1000 0 = .ok () by rfl) 0 (some nextPage)
  exact hiff.mpr (.inl (by decide))

theorem unmap_misses_top : WellFormed topPage 0x1000 ∧ 0 ∉ tables topPage 0x1000 ∧
    mapAsserts 0x1000 0xFFFFFFFFFFFFF000 0 0x1000 0 = .ok () ∧
    ¬ Unmaps topPage 0 0x1000 0xFFFFFFFFFFFFF000 0 0x1000 0 (some nextPage) := by
  refine ⟨topPage_wf.1, topPage_wf.2, by rfl, fun hunmaps => ?_⟩
  obtain ⟨m', hm', hun, -⟩ := hunmaps
  have hsame : virtualMemoryMap 0x1000 0xFFFFFFFFFFFFF000 0 0x1000 0 ((some nextPage).map logged)
    topPage (0, []) =
      .ok (0, topPage, (0, [])) := by rfl
  rw [hsame] at hm'
  cases hm'
  have hpage : virtualMemoryLookup topPage 0x1000 (0xFFFFFFFFFFFFF000 + 0) = ⟨5, 0x5000, 7⟩ := by
    decide
  have hlook := hun 0 (by decide)
  rw [hpage] at hlook
  cases hlook

end Csc412.Kernel
