import Csc412.Kernel.Paging
import Csc412.Lib.Mask
import Mathlib.Data.Set.Insert

/-!
# Mapping and lookup agree

A page table is a radix tree of depth 3 over physical memory, and a lookup depends
only on the entry that the tree stores for the address's page. `virtual_memory_map`
changes what is stored for the pages of its range and nothing else: the tables it
links on the way are empty.
-/

namespace Csc412.Kernel

open Lib

/-! ## Bits of an entry -/

theorem getLsbD_fff (i : Nat) : (0xFFF : Word).getLsbD i = decide (i < 12) :=
  getLsbD_mask (w := 64) (k := 12) (by decide) i

theorem pageoffset_toNat (a : Word) : (pageoffset a).toNat = a.toNat % 4096 := by
  unfold pageoffset
  rw [BitVec.toNat_and]
  exact Nat.and_two_pow_sub_one_eq_mod a.toNat 12

theorem pteFlags_toNat (e : Word) : (pteFlags e).toNat = e.toNat % 4096 := pageoffset_toNat e

theorem pteAddr_toNat (e : Word) : (pteAddr e).toNat = e.toNat / 4096 * 4096 :=
  clearLow_toNat (w := 64) (k := 12) (by decide) e

theorem pteAddr_of_aligned {a : Word} (h : a.toNat % 4096 = 0) : pteAddr a = a := by
  apply BitVec.eq_of_toNat_eq
  rw [pteAddr_toNat]
  omega

section
variable {a f : Word} (ha : a.toNat % 4096 = 0) (hf : f.toNat < 4096)
include ha hf

theorem toNat_or_flags : (a ||| f).toNat = a.toNat + f.toNat := by
  rw [BitVec.toNat_or]
  have h := Nat.two_pow_add_eq_or_of_lt (i := 12) hf (a.toNat / 4096)
  rw [show 2 ^ 12 * (a.toNat / 4096) = a.toNat by omega] at h
  exact h.symm

theorem pteAddr_or : pteAddr (a ||| f) = a := by
  apply BitVec.eq_of_toNat_eq
  rw [pteAddr_toNat, toNat_or_flags ha hf]
  omega

theorem pteFlags_or : pteFlags (a ||| f) = f := by
  apply BitVec.eq_of_toNat_eq
  rw [pteFlags_toNat, toNat_or_flags ha hf]
  omega

end

theorem and_flag_ne_zero (e : Word) (k : Nat) (hk : k < 64) :
    e &&& BitVec.ofNat 64 (2 ^ k) ≠ 0 ↔ e.getLsbD k = true := by
  constructor
  · intro h
    by_contra hb
    apply h
    apply BitVec.eq_of_getLsbD_eq
    intro i hi
    rw [BitVec.getLsbD_and, BitVec.getLsbD_ofNat, Nat.testBit_two_pow]
    by_cases hik : k = i
    · subst hik; simp [hb]
    · simp [hik]
  · intro h h0
    have hbit : (e &&& BitVec.ofNat 64 (2 ^ k)).getLsbD k = false := by
      rw [h0]
      exact BitVec.getLsbD_zero
    rw [BitVec.getLsbD_and, BitVec.getLsbD_ofNat, Nat.testBit_two_pow, h] at hbit
    simp [hk] at hbit

theorem pteP_iff (e : Word) : e &&& pteP ≠ 0 ↔ e.getLsbD 0 = true :=
  and_flag_ne_zero e 0 (by decide)
theorem pteW_iff (e : Word) : e &&& pteW ≠ 0 ↔ e.getLsbD 1 = true :=
  and_flag_ne_zero e 1 (by decide)
theorem pteU_iff (e : Word) : e &&& pteU ≠ 0 ↔ e.getLsbD 2 = true :=
  and_flag_ne_zero e 2 (by decide)

def ptePWU : Word := pteP ||| pteW ||| pteU

theorem getLsbD_ptePWU (i : Nat) : ptePWU.getLsbD i = decide (i < 3) :=
  getLsbD_mask (w := 64) (k := 3) (by decide) i

theorem getLsbD_pteFlags (e : Word) (i : Nat) :
    (pteFlags e).getLsbD i = (e.getLsbD i && decide (i < 12)) := by
  unfold pteFlags
  rw [BitVec.getLsbD_and, getLsbD_fff]

theorem ptePWU_and_full {e : Word} (hP : e &&& pteP ≠ 0) (hW : e &&& pteW ≠ 0)
    (hU : e &&& pteU ≠ 0) :
    ptePWU &&& pteFlags e = ptePWU := by
  rw [pteP_iff] at hP
  rw [pteW_iff] at hW
  rw [pteU_iff] at hU
  apply BitVec.eq_of_getLsbD_eq
  intro i hi
  rw [BitVec.getLsbD_and, getLsbD_ptePWU, getLsbD_pteFlags]
  by_cases h : i < 3
  · have : i = 0 ∨ i = 1 ∨ i = 2 := by omega
    rcases this with rfl | rfl | rfl <;> simp [hP, hW, hU]
  · simp [h]

theorem perms_present (e : Word) : (ptePWU &&& pteFlags e) &&& pteP ≠ 0 ↔ e &&& pteP ≠ 0 := by
  rw [pteP_iff, pteP_iff, BitVec.getLsbD_and, getLsbD_ptePWU, getLsbD_pteFlags]
  simp

/-! ## The tree -/

def tableOf (e : Word) : Option Word := if e &&& pteP = 0 then none else some (pteAddr e)

theorem tableOf_absent {e : Word} (h : e &&& pteP = 0) : tableOf e = none := if_pos h

theorem tableOf_present {e : Word} (h : e &&& pteP ≠ 0) : tableOf e = some (pteAddr e) := if_neg h

/-- A present entry above level 3 allows everything and points into memory. -/
structure FullEntry (e : Word) : Prop where
  w : e &&& pteW ≠ 0
  u : e &&& pteU ≠ 0
  addr : (pteAddr e).toNat < memsizePhysical

structure WellFormed (m : Mem) (root : Word) : Prop where
  full : ∀ p pt i, p.length ≤ 2 → Radix.walk tableOf m root p = some pt → m pt i &&& pteP ≠ 0 →
    FullEntry (m pt i)
  tree : Radix.Tree tableOf 3 m root

def levels (va : Word) : Nat → List (Fin 512)
  | 0 => []
  | n + 1 => pageindex va (2 - n) :: levels va n

def path (va : Word) : List (Fin 512) := levels va 3

theorem levels_length (va : Word) : ∀ n, (levels va n).length = n
  | 0 => rfl
  | n + 1 => by rw [levels, List.length_cons, levels_length va n]

def pageEntry (m : Mem) (root va : Word) : Word :=
  Radix.entry tableOf 0 m root (path va) (pageindex va 3)

def mappingOf (pe va : Word) : Vamapping :=
  if pe &&& pteP ≠ 0 then ⟨pagenumber pe, pteAddr pe + pageoffset va, ptePWU &&& pteFlags pe⟩
    else .unmapped

theorem lookupLoop_spec (va : Word) (m : Mem) (n : Nat) (pt pe₀ : Word)
    (hfull : ∀ q x i, q.length < n → Radix.walk tableOf m pt q = some x → m x i &&& pteP ≠ 0 →
      FullEntry (m x i)) :
    let e := Radix.entry tableOf 0 m pt (levels va n) (pageindex va 3)
    let r := lookupLoop va m (n + 1) pt pe₀ ptePWU
    (r.2 &&& pteP ≠ 0 ↔ e &&& pteP ≠ 0) ∧ (e &&& pteP ≠ 0 → r = (e, ptePWU &&& pteFlags e)) := by
  have hstart : ptePWU &&& pteP ≠ 0 := by decide
  induction n generalizing pt pe₀ with
  | zero =>
    simp only [levels, Radix.entry, Radix.walk, lookupLoop, if_pos hstart]
    exact ⟨perms_present _, fun _ => trivial⟩
  | succ n ih =>
    rw [lookupLoop, if_pos hstart]
    simp only [show 3 - (n + 1) = 2 - n by omega]
    by_cases hP : m pt (pageindex va (2 - n)) &&& pteP = 0
    · -- the loop ends at an absent entry, and the tree stores nothing below it
      have habs : ¬ (ptePWU &&& pteFlags (m pt (pageindex va (2 - n)))) &&& pteP ≠ 0 := by
        rw [perms_present]
        exact not_not.mpr hP
      have hentry : Radix.entry tableOf 0 m pt (levels va (n + 1)) (pageindex va 3) = 0 := by
        simp [Radix.entry, levels, Radix.walk, tableOf_absent hP]
      rw [hentry, lookupLoop, if_neg habs]
      exact ⟨⟨fun h => absurd h habs, fun h => absurd rfl h⟩, fun h => absurd rfl h⟩
    · have hF := hfull [] pt _ (by simp) rfl hP
      rw [ptePWU_and_full hP hF.w hF.u]
      have hentry : Radix.entry tableOf 0 m pt (levels va (n + 1)) (pageindex va 3) =
          Radix.entry tableOf 0 m (pteAddr (m pt (pageindex va (2 - n)))) (levels va n)
              (pageindex va 3) := by
        simp [Radix.entry, levels, Radix.walk, tableOf_present hP]
      rw [hentry]
      apply ih
      intro q x i hq hx
      exact hfull (pageindex va (2 - n) :: q) x i (by simpa using hq)
        (by simpa [Radix.walk, tableOf_present hP] using hx)

theorem lookup_eq {m : Mem} {root : Word} (h : WellFormed m root) (va : Word) :
    virtualMemoryLookup m root va = mappingOf (pageEntry m root va) va := by
  have hspec := lookupLoop_spec va m 3 root 0 fun q x i hq hx => h.full q x i (by omega) hx
  simp only at hspec
  obtain ⟨hiff, heq⟩ := hspec
  unfold virtualMemoryLookup mappingOf pageEntry path
  rw [show pteW ||| pteU ||| pteP = ptePWU from rfl]
  by_cases hP : Radix.entry tableOf 0 m root (levels va 3) (pageindex va 3) &&& pteP = 0
  · rw [if_neg (not_not.mpr hP)]
    simp only
    rw [if_neg fun hr => hiff.mp hr hP]
  · rw [if_pos hP, heq hP]
    simp only
    rw [if_pos ((perms_present _).mpr hP)]

/-! ## Growing the tree -/

def tables (m : Mem) (root : Word) : Set Word :=
  {pt | ∃ p, p.length ≤ 3 ∧ Radix.walk tableOf m root p = some pt}

/-- An allocator that returns null or a page-aligned page below `MEMSIZE_PHYSICAL`
that is not yet part of the tree. `I T s` holds of the allocator's states `s` from
which it does so when `T` are the tables of the tree. -/
def AllocatorOk {σ : Type} (alloc : σ → Word × σ) (I : Set Word → σ → Prop) : Prop :=
  ∀ T s, I T s → (alloc s).1 = 0 ∧ I T (alloc s).2 ∨
    (alloc s).1 ≠ 0 ∧ (alloc s).1.toNat % 4096 = 0 ∧ (alloc s).1.toNat < memsizePhysical ∧
    (alloc s).1 ∉ T ∧
      I (insert (alloc s).1 T) (alloc s).2

/-- `m'` is `m` with some empty tables added. -/
structure Grown (m m' : Mem) (root : Word) : Prop where
  wf : WellFormed m' root
  entry : ∀ p i, p.length = 3 → Radix.entry tableOf 0 m' root p i = Radix.entry tableOf 0 m root p i
  walk : ∀ p pt, p.length ≤ 3 → Radix.walk tableOf m root p = some pt →
    Radix.walk tableOf m' root p = some pt

theorem Grown.refl {m : Mem} {root : Word} (h : WellFormed m root) : Grown m m root :=
  ⟨h, fun _ _ _ => rfl, fun _ _ _ h => h⟩

theorem Grown.trans {m₁ m₂ m₃ : Mem} {root : Word} (h₁ : Grown m₁ m₂ root) (h₂ : Grown m₂ m₃ root) :
    Grown m₁ m₃ root :=
  ⟨h₂.wf, fun p i hp => (h₂.entry p i hp).trans (h₁.entry p i hp),
    fun p pt hp h => h₂.walk p pt hp (h₁.walk p pt hp h)⟩

theorem checkEntry_full {e : Word} (h : FullEntry e) (perm : BitVec 32) :
    checkEntry perm e = .ok () := by
  have hw : (e &&& pteW != 0) = true := by simpa using h.w
  have hu : (e &&& pteU != 0) = true := by simpa using h.u
  unfold checkEntry check
  simp only [h.addr, hw, hu, decide_true, ite_true]
  split <;> split <;> rfl

section
variable {m : Mem} {root pt c : Word} {p : List (Fin 512)} {i : Fin 512}

def linkEntry (c : Word) : Word := pteAddr c ||| pteP ||| pteW ||| pteU

theorem linkEntry_addr (hc : c.toNat % 4096 = 0) : pteAddr (linkEntry c) = c := by
  have h : linkEntry c = c ||| ptePWU := by
    unfold linkEntry ptePWU
    rw [pteAddr_of_aligned hc, BitVec.or_assoc, BitVec.or_assoc, BitVec.or_assoc]
  rw [h]
  exact pteAddr_or hc (by decide)

theorem linkEntry_bit (c : Word) {k : Nat} (hk : k < 3) : (linkEntry c).getLsbD k = true := by
  have h : linkEntry c = pteAddr c ||| ptePWU := by
    unfold linkEntry ptePWU
    rw [BitVec.or_assoc, BitVec.or_assoc, BitVec.or_assoc]
  rw [h, BitVec.getLsbD_or, getLsbD_ptePWU]
  simp [hk]

theorem linkEntry_present (c : Word) : linkEntry c &&& pteP ≠ 0 :=
  (pteP_iff _).mpr (linkEntry_bit c (by decide))

theorem linkEntry_full (hc : c.toNat % 4096 = 0) (hlt : c.toNat < memsizePhysical) :
    FullEntry (linkEntry c) :=
  ⟨(pteW_iff _).mpr (linkEntry_bit c (by decide)), (pteU_iff _).mpr (linkEntry_bit c (by decide)),
    by rw [linkEntry_addr hc]; exact hlt⟩

theorem grown_link (h : WellFormed m root) (hpt : Radix.walk tableOf m root p = some pt)
    (hp : p.length ≤ 2) (habs : m pt i &&& pteP = 0) (hc : c.toNat % 4096 = 0)
    (hlt : c.toNat < memsizePhysical) (hfresh : c ∉ tables m root) :
    let m' := (m.setEntry pt i (linkEntry c)).clearPage c
    Grown m m' root ∧ Radix.walk tableOf m' root (p ++ [i]) = some c ∧
      tables m' root = insert c (tables m root) := by
  intro m'
  have hm' : m' = Radix.link m pt i (linkEntry c) c fun _ => 0 := rfl
  have htab : tableOf (linkEntry c) = some c := by
    rw [tableOf_present (linkEntry_present c), linkEntry_addr hc]
  have hzero : ∀ j : Fin 512, tableOf ((fun _ => 0 : Fin 512 → Word) j) = none :=
    fun _ => tableOf_absent BitVec.zero_and
  have hfr : ∀ q, q.length ≤ 3 → Radix.walk tableOf m root q ≠ some c :=
    fun q hq hw => hfresh ⟨q, hq, hw⟩
  have hlen : p.length < 3 := by omega
  have hwalk : ∀ q, q.length ≤ 3 → Radix.walk tableOf m' root q =
      if q = p ++ [i] then some c else Radix.walk tableOf m root q := fun q hq =>
    hm' ▸ Radix.walk_link h.tree hpt hlen (tableOf_absent habs) htab hzero hfr hq
  have hgone : Radix.walk tableOf m root (p ++ [i]) = none := by
    rw [Radix.walk_snoc, hpt]
    exact tableOf_absent habs
  refine ⟨⟨⟨fun q x j hq hx hpres => ?_, ?_⟩, fun q j hq => ?_, fun q x hq hx => ?_⟩, ?_, ?_⟩
  · rw [hwalk q (by omega)] at hx
    by_cases hqp : q = p ++ [i]
    · -- the new table has no present entry
      rw [if_pos hqp] at hx
      cases hx
      exact absurd (by simp [m', Mem.clearPage]) hpres
    · rw [if_neg hqp] at hx
      have hxc : x ≠ c := fun e => hfr q (by omega) (e ▸ hx)
      have hm'x : m' x j = if x = pt ∧ j = i then linkEntry c else m x j := by
        simp only [m', Mem.clearPage, Function.update_of_ne hxc, Mem.setEntry, Radix.set_apply]
      rw [hm'x] at hpres ⊢
      split
      · exact linkEntry_full hc hlt
      · rename_i hne
        rw [if_neg hne] at hpres
        exact h.full q x j hq hx hpres
  · exact hm' ▸ h.tree.link hpt hlen (tableOf_absent habs) htab hzero hfr
  · exact hm' ▸ Radix.entry_link h.tree hpt hlen (tableOf_absent habs) htab hzero hfr
      (fun _ => rfl) hq j
  · rw [hwalk q hq, if_neg (by intro e; rw [e, hgone] at hx; cases hx)]
    exact hx
  · rw [hwalk _ (by simp; omega), if_pos rfl]
  · ext x
    constructor
    · rintro ⟨q, hq, hx⟩
      rw [hwalk q hq] at hx
      split at hx
      · cases hx
        exact Set.mem_insert _ _
      · exact Set.mem_insert_of_mem _ ⟨q, hq, hx⟩
    · rintro (rfl | ⟨q, hq, hx⟩)
      · exact ⟨p ++ [i], by simp; omega, by rw [hwalk _ (by simp; omega), if_pos rfl]⟩
      · refine ⟨q, hq, ?_⟩
        rw [hwalk q hq, if_neg (by intro e; rw [e, hgone] at hx; cases hx)]
        exact hx

end

section
variable {σ : Type} {root va : Word} {perm : BitVec 32} {allocator : Option (σ → Word × σ)}
    {I : Set Word → σ → Prop}

/-- What a lookup along the path `p` leaves: only empty tables are added, and what it
returns is the table that `p` leads to or null. It is null for a table that is not
there and that nobody provides. -/
structure Found (m m' : Mem) (root : Word) (p : List (Fin 512)) (r : Word) (refused : Prop) :
    Prop where
  grown : Grown m m' root
  null : 0 ∈ tables m' root → 0 ∈ tables m root
  found : r ≠ 0 → Radix.walk tableOf m' root p = some r
  missing : r = 0 → 0 ∉ tables m root → Radix.walk tableOf m root p = none ∧ refused

variable {Null : σ → Prop}

/-- `Null` holds of the allocator's states after it has returned null. -/
theorem lookupLevels_spec (hperm : perm.signExtend 64 &&& pteP ≠ 0)
    (halloc : ∀ f, allocator = some f → AllocatorOk f I)
    (hnull : ∀ f, allocator = some f → ∀ s, (f s).1 = 0 → Null (f s).2) (n : Nat) :
    ∀ (p : List (Fin 512)) (pt : Word) (m : Mem) (s : σ), WellFormed m root →
      Radix.walk tableOf m root p = some pt → p.length + n = 3 → I (tables m root) s →
      ∃ r m' s', lookupLevels va perm allocator n pt m s = .ok (r, m', s') ∧ I (tables m' root) s' ∧
        Found m m' root (p ++ levels va n) r (allocator = none ∨ Null s') := by
  induction n with
  | zero =>
    intro p pt m s hwf hpt hlen hI
    rw [levels, List.append_nil]
    refine ⟨pt, m, s, rfl, hI, .refl hwf, id, fun _ => hpt,
      fun h0 hno => absurd ⟨p, by omega, ?_⟩ hno⟩
    rw [← h0]
    exact hpt
  | succ n ih =>
    intro p pt m s hwf hpt hlen hI
    have hpath : p ++ levels va (n + 1) = (p ++ [pageindex va (2 - n)]) ++ levels va n := by
      simp [levels]
    have hlen' : (p ++ [pageindex va (2 - n)]).length + n = 3 := by simp; omega
    rw [lookupLevels]
    simp only
    by_cases hP : m pt (pageindex va (2 - n)) &&& pteP = 0
    · have hgone : Radix.walk tableOf m root (p ++ levels va (n + 1)) = none := by
        rw [Radix.walk_append, hpt]
        simp [levels, Radix.walk, tableOf_absent hP]
      rw [if_pos hP, if_neg hperm]
      cases hal : allocator with
      | none =>
        exact ⟨0, m, s, rfl, hI, .refl hwf, id, fun h => absurd rfl h, fun _ _ => ⟨hgone, .inl rfl⟩⟩
      | some f =>
        simp only
        rcases halloc f hal _ s hI with ⟨h0, hI'⟩ | ⟨h0, hal₁, hlt, hfresh, hI'⟩
        · rw [if_pos h0]
          exact ⟨0, m, _, rfl, hI', .refl hwf, id, fun h => absurd rfl h,
            fun _ _ => ⟨hgone, .inr (hnull f hal s h0)⟩⟩
        · obtain ⟨hgrown, hnext, htables⟩ := grown_link hwf hpt (by omega) hP hal₁ hlt hfresh
          rw [if_neg h0, check, if_pos (decide_eq_true hal₁)]
          change ∃ r m' s', (checkEntry perm (linkEntry (f s).1) >>= fun _ =>
            lookupLevels va perm (some f) n (pteAddr (linkEntry (f s).1)) _ (f s).2) =
              .ok (r, m', s') ∧ _
          rw [checkEntry_full (linkEntry_full hal₁ hlt), linkEntry_addr hal₁, ← hal]
          have hold : ∀ x, x ≠ (f s).1 → x ∈ insert (f s).1 (tables m root) → x ∈ tables m root :=
            fun x hx h => (Set.mem_insert_iff.mp h).resolve_left hx
          obtain ⟨r, m', s', hr, hI'', hf⟩ :=
            ih _ _ _ (f s).2 hgrown.wf hnext hlen' (by rw [htables]; exact hI')
          refine ⟨r, m', s', hr, hI'', hgrown.trans hf.grown, fun h => ?_, fun h => ?_,
            fun hr0 hno => ⟨hgone, ?_⟩⟩
          · have h₁ := hf.null h
            rw [htables] at h₁
            exact hold 0 h0.symm h₁
          · rw [hpath]
            exact hf.found h
          · exact (hf.missing hr0 fun h => hno (hold 0 h0.symm (by rwa [htables] at h))).2
    · rw [if_neg hP, checkEntry_full (hwf.full p pt _ (by omega) hpt hP)]
      have hnext : Radix.walk tableOf m root (p ++ [pageindex va (2 - n)]) =
          some (pteAddr (m pt (pageindex va (2 - n)))) := by
        rw [Radix.walk_snoc, hpt]
        exact tableOf_present hP
      rw [hpath]
      exact ih _ _ m s hwf hnext hlen' hI

end

theorem lookupLevels_silent {σ : Type} {root va : Word} {perm : BitVec 32}
    {allocator : Option (σ → Word × σ)}
    (hsilent : (if perm.signExtend 64 &&& pteP = 0 then none else allocator) = none) {m : Mem}
    {s : σ} (hwf : WellFormed m root) (n : Nat) :
    ∀ (p : List (Fin 512)) (pt : Word), Radix.walk tableOf m root p = some pt →
      p.length + n = 3 →
      lookupLevels va perm allocator n pt m s =
          .ok ((Radix.walk tableOf m root (p ++ levels va n)).getD 0, m, s) := by
  induction n with
  | zero =>
    intro p pt hpt _
    rw [levels, List.append_nil, hpt]
    rfl
  | succ n ih =>
    intro p pt hpt hlen
    have hpath : p ++ levels va (n + 1) = (p ++ [pageindex va (2 - n)]) ++ levels va n := by
      simp [levels]
    rw [lookupLevels]
    simp only
    by_cases hP : m pt (pageindex va (2 - n)) &&& pteP = 0
    · have hgone : Radix.walk tableOf m root (p ++ levels va (n + 1)) = none := by
        rw [Radix.walk_append, hpt]
        simp [levels, Radix.walk, tableOf_absent hP]
      rw [if_pos hP, hsilent, hgone]
      rfl
    · rw [if_neg hP, checkEntry_full (hwf.full p pt _ (by omega) hpt hP), hpath]
      apply ih
      · rw [Radix.walk_snoc, hpt]
        exact tableOf_present hP
      · simp
        omega

/-! ## Addresses -/

theorem pageindex_val (va : Word) (k : Nat) :
    (pageindex va k).val = va.toNat / 2 ^ (12 + (3 - k) * 9) % 512 := by
  simp only [pageindex, BitVec.toNat_ushiftRight, Nat.shiftRight_eq_div_pow]

theorem path_eq_iff {v w : Word} (hv : v.toNat < 2 ^ 48) (hw : w.toNat < 2 ^ 48) :
    path v = path w ↔ v.toNat / 2 ^ 21 = w.toNat / 2 ^ 21 := by
  simp only [path, levels, List.cons.injEq, and_true, Fin.ext_iff, pageindex_val]
  simp only [Nat.reduceSub, Nat.reduceMul, Nat.reduceAdd, Nat.reducePow] at hv hw ⊢
  omega

theorem same_page_iff {v w : Word} (hv : v.toNat < 2 ^ 48) (hw : w.toNat < 2 ^ 48) :
    (path v = path w ∧ pageindex v 3 = pageindex w 3) ↔ v.toNat / 4096 = w.toNat / 4096 := by
  rw [path_eq_iff hv hw]
  simp only [Fin.ext_iff, pageindex_val]
  simp only [Nat.reduceSub, Nat.reduceMul, Nat.reduceAdd, Nat.reducePow] at hv hw ⊢
  omega

theorem index123_eq {v : Word} (hv : v.toNat < 2 ^ 48) : index123 v = (v.toNat / 2 ^ 21 : Nat) := by
  have hlt : v.toNat / 2 ^ 21 < 2 ^ 31 := by omega
  have hw : ((v >>> 21).setWidth 32).toNat = v.toNat / 2 ^ 21 := by
    rw [BitVec.toNat_setWidth, BitVec.toNat_ushiftRight, Nat.shiftRight_eq_div_pow]
    omega
  unfold index123
  rw [BitVec.toInt_eq_toNat_of_lt (by rw [hw]; omega), hw]

theorem add_page_toNat {v : Word} {n : Nat} (h : v.toNat + (n + 1) * 4096 ≤ 2 ^ 48) :
    (v + 4096).toNat = v.toNat + 4096 := by
  rw [BitVec.toNat_add]
  have : (4096 : Word).toNat = 4096 := rfl
  omega

/-! ## The loop over the pages -/

section
variable {m : Mem} {root l4 va e : Word} (h : WellFormed m root)
    (hl4 : Radix.walk tableOf m root (path va) = some l4)
include h hl4

theorem walk_write {p : List (Fin 512)} (hp : p.length ≤ 3) (i : Fin 512) :
    Radix.walk tableOf (m.setEntry l4 i e) root p = Radix.walk tableOf m root p :=
  Radix.walk_set_deep h.tree hl4 (levels_length va 3) e hp

theorem WellFormed.write (i : Fin 512) : WellFormed (m.setEntry l4 i e) root := by
  refine ⟨fun p pt j hp hpt hP => ?_, h.tree.set_deep hl4 (levels_length va 3) e⟩
  rw [walk_write h hl4 (by omega)] at hpt
  have hne : pt ≠ l4 := by
    intro hpt'
    rw [hpt'] at hpt
    have := congrArg List.length
      (h.tree p (path va) l4 (by omega) (by rw [path, levels_length]) hpt hl4)
    rw [path, levels_length] at this
    omega
  have heq : m.setEntry l4 i e pt j = m pt j := by simp [Mem.setEntry, Radix.set_apply, hne]
  rw [heq] at hP ⊢
  exact h.full p pt j hp hpt hP

theorem tables_write (i : Fin 512) : tables (m.setEntry l4 i e) root = tables m root := by
  ext x
  constructor
  · rintro ⟨q, hq, hx⟩
    exact ⟨q, hq, by rwa [walk_write h hl4 hq] at hx⟩
  · rintro ⟨q, hq, hx⟩
    exact ⟨q, hq, by rwa [walk_write h hl4 hq]⟩

theorem pageEntry_write (hva : va.toNat < 2 ^ 48) {v : Word} (hv : v.toNat < 2 ^ 48) :
    pageEntry (m.setEntry l4 (pageindex va 3) e) root v =
      if v.toNat / 4096 = va.toNat / 4096 then e else pageEntry m root v := by
  unfold pageEntry Mem.setEntry
  rw [Radix.entry_set_deep h.tree hl4 (levels_length va 3) 0 e (by rw [path, levels_length])]
  simp only [same_page_iff hv hva]

end

/-- The table kept from the page before is the one for every address with the same
`index123`. -/
def Cached (m : Mem) (root : Word) (last : Int) (l4 : Word) : Prop :=
  ∀ v : Word, v.toNat < 2 ^ 48 → index123 v = last → l4 ≠ 0 ∧
    Radix.walk tableOf m root (path v) = some l4

def mappedEntry (va pa : Word) (perm : BitVec 32) (v : Word) : Word :=
  BitVec.ofNat 64 (pa.toNat + (v.toNat / 4096 - va.toNat / 4096) * 4096) ||| perm.signExtend 64

section
variable {σ : Type} {root : Word} {perm : BitVec 32} {allocator : Option (σ → Word × σ)}
    {I : Set Word → σ → Prop}
  (hperm : perm.signExtend 64 &&& pteP ≠ 0) (halloc : ∀ f, allocator = some f → AllocatorOk f I)
include hperm halloc

theorem nextTable_spec (Null : σ → Prop)
    (hnull : ∀ f, allocator = some f → ∀ s, (f s).1 = 0 → Null (f s).2) {m : Mem} {s : σ}
    {va l4 : Word} {last : Int} (h : WellFormed m root) (hI : I (tables m root) s)
    (hc : index123 va = last → l4 ≠ 0 ∧ Radix.walk tableOf m root (path va) = some l4) :
    ∃ r m' s', nextTable root perm allocator va last l4 m s = .ok (r, m', s') ∧
    I (tables m' root) s' ∧
      Found m m' root (path va) r (allocator = none ∨ Null s') := by
  unfold nextTable
  by_cases hlast : index123 va = last
  · obtain ⟨h0, hw⟩ := hc hlast
    rw [if_neg (not_not.mpr hlast)]
    exact ⟨l4, m, s, rfl, hI, .refl h, id, fun _ => hw, fun hz => absurd hz h0⟩
  · rw [if_pos hlast]
    exact lookupLevels_spec hperm halloc hnull 3 [] root m s h rfl rfl hI

theorem mapPages_spec (n : Nat) : ∀ (va pa : Word) (last : Int) (l4 : Word) (m : Mem) (s : σ),
    WellFormed m root → I (tables m root) s → Cached m root last l4 →
    va.toNat % 4096 = 0 → va.toNat + n * 4096 ≤ 2 ^ 48 → pa.toNat + n * 4096 ≤ memsizePhysical →
    ∃ r m' s', mapPages root perm allocator n va pa last l4 m s = .ok (r, m', s') ∧
    WellFormed m' root ∧
      (r = 0 → ∀ v : Word, v.toNat < 2 ^ 48 → pageEntry m' root v =
        if va.toNat ≤ v.toNat ∧ v.toNat < va.toNat + n * 4096 then mappedEntry va pa perm v
        else pageEntry m root v) := by
  induction n with
  | zero =>
    intro va pa last l4 m s h hI hc hal hva hpa
    refine ⟨0, m, s, rfl, h, fun _ v hv => ?_⟩
    rw [if_neg (by omega)]
  | succ n ih =>
    intro va pa last l4 m s h hI hc hal hva hpa
    have hva48 : va.toNat < 2 ^ 48 := by omega
    obtain ⟨r, m₁, s₁, hr, hI₁, hf⟩ :=
      nextTable_spec hperm halloc (fun _ => True) (fun _ _ _ _ => trivial) h hI
      (hc va hva48)
    have hg := hf.grown
    rw [mapPages]
    simp only [hr]
    by_cases h0 : r = 0
    · refine ⟨-1, m₁, s₁, ?_, hg.wf, fun h => absurd h (by decide)⟩
      rw [if_neg fun hh => hh.2 h0, if_neg (not_not.mpr h0), if_pos hperm]
    · have hwalk := hf.found h0
      have hva' : (va + 4096).toNat = va.toNat + 4096 := add_page_toNat hva
      have hpa' : (pa + 4096).toNat = pa.toNat + 4096 :=
        add_page_toNat (n := n) (by unfold memsizePhysical at hpa; omega)
      have hc' : Cached (m₁.setEntry r (pageindex va 3) (pa ||| perm.signExtend 64)) root
          (index123 va) r := by
        intro v hv hidx
        refine ⟨h0, ?_⟩
        have hpath : path v = path va := by
          rw [path_eq_iff hv hva48]
          rw [index123_eq hv, index123_eq hva48] at hidx
          exact_mod_cast hidx
        rw [walk_write hg.wf hwalk (by rw [path, levels_length]), hpath, hwalk]
      obtain ⟨r', m', s', hr', hwf', hent⟩ := ih (va + 4096) (pa + 4096) (index123 va) r _ s₁
        (hg.wf.write hwalk (pageindex va 3)) (by rw [tables_write hg.wf hwalk]; exact hI₁) hc'
        (by omega) (by omega) (by omega)
      refine ⟨r', m', s', ?_, hwf', fun hz v hv => ?_⟩
      · rw [if_pos ⟨hperm, h0⟩]
        exact hr'
      · rw [hent hz v hv, pageEntry_write hg.wf hwalk hva48 hv]
        have hold : pageEntry m₁ root v = pageEntry m root v := hg.entry _ _ (levels_length v 3)
        rw [hold]
        by_cases hpage : v.toNat / 4096 = va.toNat / 4096
        · have hpa0 : BitVec.ofNat 64 (pa.toNat + (v.toNat / 4096 - va.toNat / 4096) * 4096) =
              pa := by
            rw [hpage]
            simp
          rw [if_neg (by omega), if_pos hpage, if_pos (by omega), mappedEntry, hpa0]
        · rw [if_neg hpage]
          by_cases hin : (va + 4096).toNat ≤ v.toNat ∧ v.toNat < (va + 4096).toNat + n * 4096
          · have hsum : pa.toNat + 4096 + (v.toNat / 4096 - (va.toNat + 4096) / 4096) * 4096 =
                pa.toNat + (v.toNat / 4096 - va.toNat / 4096) * 4096 := by omega
            rw [if_pos hin, if_pos (by omega), mappedEntry, mappedEntry, hva', hpa', hsum]
          · rw [if_neg hin, if_neg (by omega)]

end

/-! ## The whole call -/

theorem check_ok {b : Bool} {msg : String} {α : Type} {f : Unit → Except String α} {a : α}
    (h : (check b msg >>= f) = .ok a) : b = true ∧ f () = .ok a := by
  unfold check at h
  split at h
  · exact ⟨by assumption, h⟩
  · cases h

/-- What the assertions at the head of `virtual_memory_map` promise of a present
mapping. -/
structure MapRange (va pa sz : Word) (perm : BitVec 32) : Prop where
  va_aligned : va.toNat % 4096 = 0
  sz_aligned : sz.toNat % 4096 = 0
  pa_aligned : pa.toNat % 4096 = 0
  pa_le : pa.toNat + sz.toNat ≤ memsizePhysical
  perm_lt : (perm.signExtend 64).toNat < 4096

theorem signExtend_toNat {perm : BitVec 32} (h₀ : 0 ≤ perm.toInt) :
    (perm.signExtend 64).toNat = perm.toNat := by
  have hmsb : perm.msb = false := by
    by_contra h
    have := BitVec.toInt_neg_of_msb_true (by simpa using h)
    omega
  rw [BitVec.signExtend_eq_setWidth_of_msb_false hmsb, BitVec.toNat_setWidth]
  have := perm.isLt
  omega

theorem mapAsserts_range {pagetable va pa sz : Word} {perm : BitVec 32}
    (hperm : perm.signExtend 64 &&& pteP ≠ 0) (h : mapAsserts pagetable va pa sz perm = .ok ()) :
    MapRange va pa sz perm := by
  unfold mapAsserts at h
  obtain ⟨hva, h⟩ := check_ok h
  obtain ⟨hsz, h⟩ := check_ok h
  obtain ⟨-, h⟩ := check_ok h
  rw [if_pos hperm] at h
  obtain ⟨hpa, h⟩ := check_ok h
  obtain ⟨hwrap, h⟩ := check_ok h
  obtain ⟨hle, h⟩ := check_ok h
  obtain ⟨hrange, -⟩ := check_ok h
  simp only [decide_eq_true_eq, Bool.and_eq_true, BitVec.le_def] at hva hsz hpa hwrap hle hrange
  have hsum : (pa + sz).toNat = pa.toNat + sz.toNat := by
    rw [BitVec.toNat_add] at hwrap hle ⊢
    have := pa.isLt
    have := sz.isLt
    omega
  refine ⟨hva, hsz, hpa, by omega, ?_⟩
  rw [signExtend_toNat hrange.1]
  have := BitVec.toInt_eq_toNat_cond perm
  have := hrange.2
  have := hrange.1
  split at * <;> omega

theorem pagenumber_eq {a : Word} (h : a.toNat < memsizePhysical + 4096) :
    pagenumber a = (a.toNat / 4096 : Nat) := by
  unfold memsizePhysical at h
  have hw : ((a >>> 12).setWidth 32).toNat = a.toNat / 4096 := by
    rw [BitVec.toNat_setWidth, BitVec.toNat_ushiftRight, Nat.shiftRight_eq_div_pow]
    omega
  unfold pagenumber
  rw [BitVec.toInt_eq_toNat_of_lt (by rw [hw]; omega), hw]

theorem mappingOf_mapped {va pa sz X : Word} {perm : BitVec 32} (hr : MapRange va pa sz perm)
    (hperm : perm.signExtend 64 &&& pteP ≠ 0) (hwrap : va.toNat + sz.toNat ≤ 2 ^ 64)
    (hX : X.toNat < sz.toNat) :
    mappingOf (mappedEntry va pa perm (va + X)) (va + X) =
      ⟨pagenumber (pa + X), pa + X, perm.signExtend 64 &&& ptePWU⟩ := by
  obtain ⟨hva, hsz, hpa, hle, hlt⟩ := hr
  have hle' := hle
  unfold memsizePhysical at hle'
  have hvX : (va + X).toNat = va.toNat + X.toNat := by rw [BitVec.toNat_add]; omega
  have hpX : (pa + X).toNat = pa.toNat + X.toNat := by rw [BitVec.toNat_add]; omega
  -- the page that holds `pa + X`
  have hpage : pa.toNat + ((va + X).toNat / 4096 - va.toNat / 4096) * 4096 =
      pa.toNat + X.toNat / 4096 * 4096 := by
    rw [hvX]
    omega
  have hbase : (BitVec.ofNat 64 (pa.toNat + X.toNat / 4096 * 4096)).toNat =
      pa.toNat + X.toNat / 4096 * 4096 := by
    rw [BitVec.toNat_ofNat]
    omega
  unfold mappedEntry
  rw [hpage]
  generalize BitVec.ofNat 64 (pa.toNat + X.toNat / 4096 * 4096) = base at hbase ⊢
  have hal : base.toNat % 4096 = 0 := by omega
  have hsum := toNat_or_flags hal hlt
  have hP : (base ||| perm.signExtend 64) &&& pteP ≠ 0 := by
    rw [pteP_iff] at hperm ⊢
    rw [BitVec.getLsbD_or, hperm, Bool.or_true]
  unfold mappingOf
  rw [if_pos hP, pteAddr_or hal hlt, pteFlags_or hal hlt, BitVec.and_comm]
  have haddr : base + pageoffset (va + X) = pa + X := by
    apply BitVec.eq_of_toNat_eq
    rw [BitVec.toNat_add, pageoffset_toNat, hvX, hpX]
    omega
  rw [haddr, pagenumber_eq (by omega), pagenumber_eq (by unfold memsizePhysical; omega)]
  congr 2
  omega

/-- Mapping and lookup agree, and no other address is touched. -/
theorem virtualMemoryMap_lookup {σ : Type} {I : Set Word → σ → Prop}
    {allocator : Option (σ → Word × σ)} {m : Mem} {s : σ} {root va pa sz : Word} {perm : BitVec 32}
    (h : WellFormed m root) (hperm : perm.signExtend 64 &&& pteP ≠ 0)
    (hasserts : mapAsserts root va pa sz perm = .ok ()) (h48 : va.toNat + sz.toNat ≤ 2 ^ 48)
    (halloc : ∀ f, allocator = some f → AllocatorOk f I) (hI : I (tables m root) s) :
    ∃ r m' s', virtualMemoryMap root va pa sz perm allocator m s = .ok (r, m', s') ∧
    WellFormed m' root ∧
      (r = 0 →
        (∀ X : Word, X.toNat < sz.toNat → virtualMemoryLookup m' root (va + X) =
          ⟨pagenumber (pa + X), pa + X, perm.signExtend 64 &&& (pteP ||| pteW ||| pteU)⟩) ∧
        ∀ v : Word, v.toNat < 2 ^ 48 → ¬ (va.toNat ≤ v.toNat ∧ v.toNat < va.toNat + sz.toNat) →
          virtualMemoryLookup m' root v = virtualMemoryLookup m root v) := by
  have hr := mapAsserts_range hperm hasserts
  have hsz : sz.toNat / 4096 * 4096 = sz.toNat := by have := hr.sz_aligned; omega
  have hnone : Cached m root (-1) 0 := by
    intro v hv hidx
    rw [index123_eq hv] at hidx
    omega
  obtain ⟨r, m', s', hmap, hwf, hent⟩ :=
    mapPages_spec hperm halloc (sz.toNat / 4096) va pa (-1) 0 m s h hI hnone
    hr.va_aligned (by omega) (by have := hr.pa_le; omega)
  refine ⟨r, m', s', ?_, hwf, fun hz => ⟨fun X hX => ?_, fun v hv hout => ?_⟩⟩
  · unfold virtualMemoryMap
    rw [hasserts]
    exact hmap
  · have hvX : (va + X).toNat = va.toNat + X.toNat := by rw [BitVec.toNat_add]; omega
    rw [lookup_eq hwf, hent hz (va + X) (by omega), if_pos (by omega)]
    exact mappingOf_mapped hr hperm (by omega) hX
  · rw [lookup_eq hwf, lookup_eq h, hent hz v hv, if_neg (by omega)]

def nextPage (k : Nat) : Word × Nat :=
  if k < 512 then (BitVec.ofNat 64 (k * 4096), k + 1) else (0, k)

def NextPageInv (T : Set Word) (k : Nat) : Prop := 0 < k ∧ ∀ pt ∈ T, pt.toNat < k * 4096

theorem nextPage_ok : AllocatorOk nextPage NextPageInv := by
  rintro T k ⟨hk, hT⟩
  unfold nextPage
  split
  · rename_i hlt
    have hnat : (BitVec.ofNat 64 (k * 4096)).toNat = k * 4096 := by rw [BitVec.toNat_ofNat]; omega
    refine .inr ⟨?_, ?_, ?_, ?_, by simp, ?_⟩ <;> simp only
    · intro h0
      have := congrArg BitVec.toNat h0
      rw [hnat] at this
      simp at this
      omega
    · omega
    · unfold memsizePhysical
      omega
    · intro hmem
      have := hT _ hmem
      omega
    · intro pt hpt
      rcases Set.mem_insert_iff.mp hpt with rfl | hpt
      · omega
      · exact Nat.lt_of_lt_of_le (hT pt hpt) (Nat.mul_le_mul_right _ (Nat.le_succ k))
  · exact .inl ⟨rfl, hk, hT⟩

theorem emptyTable_walk {p : List (Fin 512)} {root pt : Word}
    (h : Radix.walk tableOf (fun _ _ => 0) root p = some pt) :
    p = [] ∧ pt = root := by
  cases p with
  | nil => exact ⟨rfl, (Option.some.inj h).symm⟩
  | cons i p => simp [Radix.walk, tableOf] at h

theorem wellFormed_empty (root : Word) : WellFormed (fun _ _ => 0) root :=
  ⟨fun _ _ _ _ _ hP => absurd BitVec.zero_and hP,
    fun p q n _ _ hp hq => by rw [(emptyTable_walk hp).1, (emptyTable_walk hq).1]⟩

theorem virtualMemoryMap_lookup_empty :
    ∃ m' s', virtualMemoryMap 0x1000 0x200000 0x3000 0x1000 3 (some nextPage) (fun _ _ => 0) 2 =
      .ok (0, m', s') ∧
      WellFormed m' 0x1000 ∧ virtualMemoryLookup m' 0x1000 (0x200000 + 5) = ⟨3, 0x3005, 3⟩ := by
  have hI : NextPageInv (tables (fun _ _ => 0) 0x1000) 2 := by
    refine ⟨by decide, ?_⟩
    rintro pt ⟨p, -, hp⟩
    rw [(emptyTable_walk hp).2]
    decide
  have halloc : ∀ f, some nextPage = some f → AllocatorOk f NextPageInv := by
    intro f hf
    rw [← Option.some.inj hf]
    exact nextPage_ok
  obtain ⟨r, m', s', hr, hwf, hmap⟩ := virtualMemoryMap_lookup (wellFormed_empty 0x1000)
    (show (3 : BitVec 32).signExtend 64 &&& pteP ≠ 0 by decide)
    (show mapAsserts 0x1000 0x200000 0x3000 0x1000 3 = .ok () by rfl) (by decide)
    halloc hI
  have hres : (virtualMemoryMap 0x1000 0x200000 0x3000 0x1000 3 (some nextPage)
    (fun _ _ => 0) 2).toOption.map (fun x => x.1) = some 0 := by decide
  have h0 : r = 0 := by
    rw [hr] at hres
    exact Option.some.inj hres
  subst h0
  exact ⟨m', s', hr, hwf, (hmap rfl).1 5 (by decide)⟩

end Csc412.Kernel
