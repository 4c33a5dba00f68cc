import Csc412.Kernel.PagingSound
import Csc412.Kernel.Exception

/-!
# The kernel's page table

The kernel keeps one page table, five pages that map all of physical memory onto
itself. `Tables b m` says that they stand in memory `m` as `virtual_memory_init`
leaves them, up to the marks of the processor; lookups follow from that, and every
mapping the kernel makes keeps it.
-/

namespace Csc412.Kernel

open Lib

/-! ## Marks -/

/-- `e` is `x`, or a present `x` with accessed or dirtied marks. -/
def Marked (e x : Word) : Prop := e = x ∨ x &&& pteP ≠ 0 ∧ e &&& ~~~pteAD = x &&& ~~~pteAD

theorem getLsbD_pteAD (i : Nat) : pteAD.getLsbD i = (decide (i = 5) || decide (i = 6)) := by
  by_cases hi : i < 8
  · have : i = 0 ∨ i = 1 ∨ i = 2 ∨ i = 3 ∨ i = 4 ∨ i = 5 ∨ i = 6 ∨ i = 7 := by omega
    rcases this with rfl | rfl | rfl | rfl | rfl | rfl | rfl | rfl <;> decide
  · have h5 : i ≠ 5 := by omega
    have h6 : i ≠ 6 := by omega
    have hlt : pteAD.toNat < 2 ^ i := by
      calc pteAD.toNat = 96 := rfl
        _ < 2 ^ 8 := by decide
        _ ≤ 2 ^ i := Nat.pow_le_pow_right (by decide) (by omega)
    simp [h5, h6, BitVec.getLsbD, Nat.testBit_lt_two_pow hlt]

section
variable {e x : Word} (h : Marked e x)
include h

theorem Marked.bit {i : Nat} (h5 : i ≠ 5) (h6 : i ≠ 6) : e.getLsbD i = x.getLsbD i := by
  rcases h with rfl | ⟨-, h⟩
  · rfl
  · by_cases hi : i < 64
    · have hbit : (e &&& ~~~pteAD).getLsbD i = (x &&& ~~~pteAD).getLsbD i := by rw [h]
      simp only [BitVec.getLsbD_and, BitVec.getLsbD_not, getLsbD_pteAD, h5, h6, hi] at hbit
      simpa using hbit
    · rw [BitVec.getLsbD_of_ge e i (by omega), BitVec.getLsbD_of_ge x i (by omega)]

theorem Marked.present : e &&& pteP ≠ 0 ↔ x &&& pteP ≠ 0 := by
  rw [pteP_iff, pteP_iff, h.bit (by decide) (by decide)]

theorem Marked.addr : pteAddr e = pteAddr x := by
  apply BitVec.eq_of_getLsbD_eq
  intro i hi
  unfold pteAddr
  rw [BitVec.getLsbD_and, BitVec.getLsbD_and, BitVec.getLsbD_not, getLsbD_fff]
  by_cases h12 : i < 12
  · simp [h12]
  · rw [h.bit (by omega) (by omega)]

theorem Marked.perms : ptePWU &&& pteFlags e = ptePWU &&& pteFlags x := by
  apply BitVec.eq_of_getLsbD_eq
  intro i hi
  rw [BitVec.getLsbD_and, BitVec.getLsbD_and, getLsbD_ptePWU, getLsbD_pteFlags, getLsbD_pteFlags]
  by_cases h3 : i < 3
  · rw [h.bit (by omega) (by omega)]
  · simp [h3]

theorem Marked.tableOf : tableOf e = tableOf x := by
  unfold Csc412.Kernel.tableOf
  rw [h.addr]
  by_cases hx : x &&& pteP = 0
  · rw [if_pos hx, if_pos (by by_contra he; exact (h.present.mp he) hx)]
  · rw [if_neg hx, if_neg (h.present.mpr hx)]

theorem Marked.eq_zero : e = 0 ↔ x = 0 := by
  rcases h with rfl | ⟨hx, h'⟩
  · rfl
  · have he : e &&& pteP ≠ 0 := (Marked.present (.inr ⟨hx, h'⟩)).mpr hx
    constructor
    · intro h0
      exact absurd (by rw [h0]; exact BitVec.zero_and) he
    · intro h0
      exact absurd (by rw [h0]; exact BitVec.zero_and) hx

theorem Marked.mark {e' : Word} (h' : e' = e ∨ e &&& pteP ≠ 0 ∧ e' &&& ~~~pteAD = e &&& ~~~pteAD) :
    Marked e' x := by
  rcases h' with rfl | ⟨hP, h'⟩
  · exact h
  · have hx := h.present.mp hP
    rcases h with rfl | ⟨-, h⟩
    · exact .inr ⟨hx, h'⟩
    · exact .inr ⟨hx, h'.trans h⟩

end

/-! ## The five tables -/

section
variable (b : Build)

theorem table_toNat {k : Nat} (hk : k < 5) : (b.table k).toNat = b.kernelPagetables + k * 4096 := by
  have := b.tables_le
  have := b.end_le
  unfold Build.table
  rw [BitVec.toNat_ofNat]
  unfold kernelStackTop at *
  omega

theorem table_aligned {k : Nat} (hk : k < 5) : (b.table k).toNat % 4096 = 0 := by
  rw [table_toNat b hk]
  have := b.tables_aligned
  omega

theorem table_bounds {k : Nat} (hk : k < 5) :
    kernelStartAddr ≤ (b.table k).toNat ∧ (b.table k).toNat + 4096 ≤ b.endAddr := by
  rw [table_toNat b hk]
  have := b.tables_le
  have := b.tables_ge
  have := b.start_ge
  omega

theorem table_lt {k : Nat} (hk : k < 5) : (b.table k).toNat < memsizePhysical := by
  have := table_bounds b hk
  have := b.end_le
  unfold memsizePhysical kernelStackTop at *
  omega

theorem table_inj {j k : Nat} (hj : j < 5) (hk : k < 5) (h : b.table j = b.table k) : j = k := by
  have := congrArg BitVec.toNat h
  rw [table_toNat b hj, table_toNat b hk] at this
  omega

theorem table_ne_zero {k : Nat} (hk : k < 5) : b.table k ≠ 0 := by
  intro h
  have := congrArg BitVec.toNat h
  have := (table_bounds b hk).1
  unfold kernelStartAddr at this
  simp at *
  omega

def tableEntry (k : Nat) : Word := b.table k ||| ptePWU

/-- The entries of the tables above level 3, and of the table for the memory that
does not exist. -/
def upperEntry (k : Nat) (i : Fin 512) : Word :=
  if k = 0 ∧ i = 0 then tableEntry b 1
  else if k = 1 ∧ i = 0 then tableEntry b 2
  else if k = 2 ∧ i = 0 then tableEntry b 3
  else if k = 2 ∧ i = 1 then tableEntry b 4
  else 0

def pageEntryOf (i : Fin 512) : Word := BitVec.ofNat 64 (i.val * 4096) ||| ptePWU

def Upper (m : Mem) : Prop := ∀ k < 5, k ≠ 3 → ∀ i, Marked (m (b.table k) i) (upperEntry b k i)

/-- All of physical memory is mapped onto itself. -/
structure Tables (m : Mem) : Prop where
  upper : Upper b m
  leaf : ∀ i, Marked (m (b.table 3) i) (pageEntryOf i)

end

section
variable {b : Build} {m : Mem}

theorem tableEntry_present (k : Nat) : tableEntry b k &&& pteP ≠ 0 := by
  rw [pteP_iff, tableEntry, BitVec.getLsbD_or, getLsbD_ptePWU]
  simp

theorem tableOf_tableEntry {k : Nat} (hk : k < 5) :
    tableOf (tableEntry b k) = some (b.table k) := by
  rw [tableOf_present (tableEntry_present k), tableEntry,
    pteAddr_or (table_aligned b hk) (by decide)]

theorem tableEntry_full {k : Nat} (hk : k < 5) : FullEntry (tableEntry b k) := by
  refine ⟨?_, ?_, ?_⟩
  · rw [pteW_iff, tableEntry, BitVec.getLsbD_or, getLsbD_ptePWU]
    simp
  · rw [pteU_iff, tableEntry, BitVec.getLsbD_or, getLsbD_ptePWU]
    simp
  · rw [tableEntry, pteAddr_or (table_aligned b hk) (by decide)]
    exact table_lt b hk

theorem Marked.full {e x : Word} (h : Marked e x) (hx : FullEntry x) : FullEntry e := by
  refine ⟨?_, ?_, by rw [h.addr]; exact hx.addr⟩
  · rw [pteW_iff, h.bit (by decide) (by decide), ← pteW_iff]
    exact hx.w
  · rw [pteU_iff, h.bit (by decide) (by decide), ← pteU_iff]
    exact hx.u

theorem Upper.child_zero (h : Upper b m) (i : Fin 512) :
    tableOf (m (b.table 0) i) = if i = 0 then some (b.table 1) else none := by
  rw [(h 0 (by decide) (by decide) i).tableOf]
  by_cases hi : i = 0
  · simp [upperEntry, hi, tableOf_tableEntry]
  · simp [upperEntry, hi, tableOf]

theorem Upper.child_one (h : Upper b m) (i : Fin 512) :
    tableOf (m (b.table 1) i) = if i = 0 then some (b.table 2) else none := by
  rw [(h 1 (by decide) (by decide) i).tableOf]
  by_cases hi : i = 0
  · simp [upperEntry, hi, tableOf_tableEntry]
  · simp [upperEntry, hi, tableOf]

theorem Upper.child_two (h : Upper b m) (i : Fin 512) :
    tableOf (m (b.table 2) i) =
      if i = 0 then some (b.table 3) else if i = 1 then some (b.table 4) else none := by
  rw [(h 2 (by decide) (by decide) i).tableOf]
  by_cases hi : i = 0
  · simp [upperEntry, hi, tableOf_tableEntry]
  · by_cases hi' : i = 1
    · simp [upperEntry, hi', tableOf_tableEntry]
    · simp [upperEntry, hi, hi', tableOf]

theorem Upper.walk_cases (h : Upper b m) {p : List (Fin 512)} {pt : Word} (hp : p.length ≤ 3)
    (hw : Radix.walk tableOf m (b.table 0) p = some pt) :
    p = [] ∧ pt = b.table 0 ∨ p = [0] ∧ pt = b.table 1 ∨ p = [0, 0] ∧ pt = b.table 2 ∨
      p = [0, 0, 0] ∧ pt = b.table 3 ∨ p = [0, 0, 1] ∧ pt = b.table 4 := by
  match p, hp with
  | [], _ => exact .inl ⟨rfl, (Option.some.inj hw).symm⟩
  | [i], _ =>
    simp only [Radix.walk, h.child_zero] at hw
    split at hw
    · rename_i hi
      exact .inr (.inl ⟨by rw [hi], (Option.some.inj hw).symm⟩)
    · cases hw
  | [i, j], _ =>
    simp only [Radix.walk, h.child_zero] at hw
    split at hw
    · rename_i hi
      simp only [Option.bind_some, h.child_one] at hw
      split at hw
      · rename_i hj
        exact .inr (.inr (.inl ⟨by rw [hi, hj], (Option.some.inj hw).symm⟩))
      · cases hw
    · cases hw
  | [i, j, k], _ =>
    simp only [Radix.walk, h.child_zero] at hw
    split at hw
    · rename_i hi
      simp only [Option.bind_some, h.child_one] at hw
      split at hw
      · rename_i hj
        simp only [Option.bind_some, h.child_two] at hw
        split at hw
        · rename_i hk
          exact .inr (.inr (.inr (.inl ⟨by rw [hi, hj, hk], (Option.some.inj hw).symm⟩)))
        · split at hw
          · rename_i hk
            exact .inr (.inr (.inr (.inr ⟨by rw [hi, hj, hk], (Option.some.inj hw).symm⟩)))
          · cases hw
      · cases hw
    · cases hw
  | _ :: _ :: _ :: _ :: _, hp => simp only [List.length_cons] at hp; omega

theorem Upper.wellFormed (h : Upper b m) : WellFormed m (b.table 0) := by
  refine ⟨fun p pt i hp hw hP => ?_, fun p q pt hp hq hwp hwq => ?_⟩
  · -- above level 3, present entries are those that point to the tables
    have key : ∀ k, k < 3 → pt = b.table k → FullEntry (m pt i) := by
      rintro k hk rfl
      have hM := h k (by omega) (by omega) i
      have hx := hM.present.mp hP
      refine hM.full ?_
      unfold upperEntry at hx ⊢
      split_ifs at hx ⊢
      · exact tableEntry_full (by decide)
      · exact tableEntry_full (by decide)
      · exact tableEntry_full (by decide)
      · exact tableEntry_full (by decide)
      · exact absurd BitVec.zero_and hx
    rcases h.walk_cases (by omega) hw with ⟨-, e⟩ | ⟨-, e⟩ | ⟨-, e⟩ | ⟨rfl, -⟩ | ⟨rfl, -⟩
    · exact key 0 (by decide) e
    · exact key 1 (by decide) e
    · exact key 2 (by decide) e
    · simp at hp
    · simp at hp
  · have hne : ∀ {j k : Nat}, j < 5 → k < 5 → j ≠ k → b.table j ≠ b.table k := fun hj hk hjk h =>
      hjk (table_inj b hj hk h)
    rcases h.walk_cases hp hwp with ⟨rfl, e⟩ | ⟨rfl, e⟩ | ⟨rfl, e⟩ | ⟨rfl, e⟩ | ⟨rfl, e⟩ <;>
      rcases h.walk_cases hq hwq with ⟨rfl, e'⟩ | ⟨rfl, e'⟩ | ⟨rfl, e'⟩ | ⟨rfl, e'⟩ | ⟨rfl, e'⟩ <;>
      first
        | rfl
        | exact absurd (e.symm.trans e') (hne (by decide) (by decide) (by decide))

def kernelMapping (va : Word) : Vamapping :=
  if va.toNat % 2 ^ 48 < memsizePhysical then
    ⟨(va.toNat % 2 ^ 48 / 4096 : Nat), BitVec.ofNat 64 (va.toNat % 2 ^ 48), ptePWU⟩
  else .unmapped

theorem mappingOf_page {e va : Word} {i : Fin 512} (h : Marked e (pageEntryOf i))
    (hi : va.toNat % 2 ^ 48 / 4096 = i.val) : mappingOf e va = kernelMapping va := by
  have hlt := i.isLt
  have hbase : (BitVec.ofNat 64 (i.val * 4096)).toNat = i.val * 4096 := by
    rw [BitVec.toNat_ofNat]
    omega
  have hal : (BitVec.ofNat 64 (i.val * 4096)).toNat % 4096 = 0 := by rw [hbase]; omega
  have hf : ptePWU.toNat < 4096 := by decide
  have hP : pageEntryOf i &&& pteP ≠ 0 := by
    rw [pteP_iff, pageEntryOf, BitVec.getLsbD_or, getLsbD_ptePWU]
    simp
  have haddr : pteAddr e = BitVec.ofNat 64 (i.val * 4096) := by
    rw [h.addr, pageEntryOf, pteAddr_or hal hf]
  have hpn : pagenumber e = i.val := by
    have heq : e.toNat / 4096 = i.val := by
      have := congrArg BitVec.toNat haddr
      rw [pteAddr_toNat, hbase] at this
      omega
    rw [pagenumber_eq (by unfold memsizePhysical; omega), heq]
  unfold mappingOf kernelMapping
  rw [if_pos (h.present.mpr hP), if_pos (by unfold memsizePhysical; omega), haddr, hpn, hi, h.perms,
    pageEntryOf, pteFlags_or hal hf]
  congr 1
  apply BitVec.eq_of_toNat_eq
  rw [BitVec.toNat_add, hbase, pageoffset_toNat, BitVec.toNat_ofNat]
  omega

theorem Tables.lookup (h : Tables b m) (va : Word) :
    virtualMemoryLookup m (b.table 0) va = kernelMapping va := by
  rw [lookup_eq h.upper.wellFormed]
  have habs : ∀ {e : Word}, e = 0 → memsizePhysical ≤ va.toNat % 2 ^ 48 →
      mappingOf e va = kernelMapping va := by
    rintro e rfl hge
    have h0 : ¬ (0 : Word) &&& pteP ≠ 0 := by decide
    unfold mappingOf kernelMapping
    rw [if_neg h0, if_neg (by omega)]
  have hval := pageindex_val va
  unfold pageEntry Radix.entry path
  simp only [levels, Radix.walk, h.upper.child_zero, Nat.sub_self]
  have h0 := hval 0
  have h1 := hval 1
  have h2 := hval 2
  have h3 := hval 3
  simp only [Nat.reduceSub, Nat.reduceMul, Nat.reduceAdd, Nat.reducePow] at h0 h1 h2 h3
  have hva := va.isLt
  unfold memsizePhysical at habs
  by_cases e0 : pageindex va 0 = 0
  · rw [if_pos e0]
    simp only [Option.bind_some, h.upper.child_one]
    by_cases e1 : pageindex va 1 = 0
    · rw [if_pos e1]
      simp only [Option.bind_some, h.upper.child_two, Nat.sub_zero]
      by_cases e2 : pageindex va 2 = 0
      · rw [if_pos e2]
        refine mappingOf_page (h.leaf _) ?_
        rw [Fin.ext_iff] at e0 e1 e2
        simp only [Fin.val_zero] at e0 e1 e2
        omega
      · rw [if_neg e2]
        have hge : 0x200000 ≤ va.toNat % 2 ^ 48 := by
          rw [Fin.ext_iff] at e2
          simp only [Fin.val_zero] at e2
          omega
        by_cases e2' : pageindex va 2 = 1
        · rw [if_pos e2']
          have hz := h.upper 4 (by decide) (by decide) (pageindex va 3)
          exact habs (hz.eq_zero.mpr (by simp [upperEntry])) hge
        · rw [if_neg e2']
          exact habs rfl hge
    · rw [if_neg e1]
      refine habs rfl ?_
      rw [Fin.ext_iff] at e1
      simp only [Fin.val_zero] at e1
      omega
  · rw [if_neg e0]
    refine habs rfl ?_
    rw [Fin.ext_iff] at e0
    simp only [Fin.val_zero] at e0
    omega

theorem kernelMapping_of_lt {va : Word} (h : va.toNat < memsizePhysical) :
    kernelMapping va = ⟨(va.toNat / 4096 : Nat), va, ptePWU⟩ := by
  have hmod : va.toNat % 2 ^ 48 = va.toNat :=
    Nat.mod_eq_of_lt (by unfold memsizePhysical at h; omega)
  unfold kernelMapping
  rw [hmod, if_pos h, BitVec.ofNat_toNat, BitVec.setWidth_eq]

end

/-! ## Mapping physical memory -/

section
variable {b : Build} {m : Mem} {σ : Type} {allocator : Option (σ → Word × σ)} {s : σ} {va : Word}

theorem Upper.lookupL4 (h : Upper b m) (hva : va.toNat < memsizePhysical) (perm : BitVec 32) :
    lookupL4pagetable (b.table 0) va perm allocator m s = .ok (b.table 3, m, s) := by
  unfold memsizePhysical at hva
  have hidx : ∀ k < 3, pageindex va k = 0 := by
    intro k hk
    rw [Fin.ext_iff, pageindex_val]
    have : k = 0 ∨ k = 1 ∨ k = 2 := by omega
    rcases this with rfl | rfl | rfl <;>
      simp only [Nat.reduceSub, Nat.reduceMul, Nat.reduceAdd, Nat.reducePow, Fin.val_zero] <;> omega
  have key : ∀ k n, k < 3 → n = 2 - k → lookupLevels va perm allocator (n + 1) (b.table k) m s =
      lookupLevels va perm allocator n (b.table (k + 1)) m s := by
    intro k n hk hn
    have hM : Marked (m (b.table k) 0) (tableEntry b (k + 1)) := by
      have := h k (by omega) (by omega) 0
      have hk' : k = 0 ∨ k = 1 ∨ k = 2 := by omega
      rcases hk' with rfl | rfl | rfl <;> simpa [upperEntry] using this
    have hP := hM.present.mpr (tableEntry_present (k + 1))
    have haddr : pteAddr (m (b.table k) 0) = b.table (k + 1) := by
      rw [hM.addr, tableEntry, pteAddr_or (table_aligned b (by omega)) (by decide)]
    rw [lookupLevels]
    simp only [show 2 - n = k by omega, hidx k hk]
    rw [if_neg hP, checkEntry_full (hM.full (tableEntry_full (by omega))), haddr]
    rfl
  unfold lookupL4pagetable
  rw [key 0 2 (by decide) rfl, key 1 1 (by decide) rfl, key 2 0 (by decide) rfl]
  rfl

theorem permPWU_signExtend : permPWU.signExtend 64 = ptePWU := by decide

structure MappedUp (b : Build) (m m' : Mem) (a n : Nat) : Prop where
  leaf : ∀ i : Fin 512, m' (b.table 3) i =
    if a ≤ i.val ∧ i.val < a + n then pageEntryOf i else m (b.table 3) i
  frame : ∀ pt, pt ≠ b.table 3 → m' pt = m pt

theorem Upper.of_frame {m' : Mem} (h : Upper b m) (hf : ∀ pt, pt ≠ b.table 3 → m' pt = m pt) :
    Upper b m' := by
  intro k hk hk3 i
  rw [hf (b.table k) fun e => hk3 (table_inj b hk (by decide) e)]
  exact h k hk hk3 i

theorem setEntry_leaf (m : Mem) (i j : Fin 512) (e : Word) :
    m.setEntry (b.table 3) i e (b.table 3) j = if j = i then e else m (b.table 3) j := by
  simp [Mem.setEntry, Radix.set_apply]

theorem setEntry_frame (m : Mem) {pt pt' : Word} (h : pt' ≠ pt) (i : Fin 512) (e : Word) :
    m.setEntry pt i e pt' = m pt' := by
  funext j
  simp [Mem.setEntry, Radix.set_apply, h]

theorem Upper.mapPages_ok (n : Nat) : ∀ {m : Mem} {va : Word} {a : Nat} {last : Int} {l4 : Word},
    Upper b m →
    va.toNat = a * 4096 → a + n ≤ 512 → (last = -1 ∨ last = 0 ∧ l4 = b.table 3) →
    ∃ m', mapPages (b.table 0) permPWU allocator n va va last l4 m s = .ok (0, m', s) ∧
    MappedUp b m m' a n := by
  induction n with
  | zero =>
    intro m va a last l4 h hva ha hlast
    exact ⟨m, rfl, fun i => by rw [if_neg (by omega)], fun _ _ => rfl⟩
  | succ n ih =>
    intro m va a last l4 h hva ha hlast
    have hlt : va.toNat < memsizePhysical := by unfold memsizePhysical; omega
    have hidx : index123 va = 0 := by
      rw [index123_eq (by omega)]
      omega
    have hnext : nextTable (b.table 0) permPWU allocator va last l4 m s =
        .ok (b.table 3, m, s) := by
      unfold nextTable
      rw [hidx]
      rcases hlast with rfl | ⟨rfl, rfl⟩
      · rw [if_pos (by decide)]
        exact h.lookupL4 hlt permPWU
      · rw [if_neg (by decide)]
    have hpi : (pageindex va 3).val = a := by
      rw [pageindex_val]
      simp only [Nat.reduceSub, Nat.reduceMul, Nat.reduceAdd, Nat.reducePow]
      omega
    have hentry : va ||| permPWU.signExtend 64 = pageEntryOf (pageindex va 3) := by
      rw [permPWU_signExtend, pageEntryOf, hpi, ← hva, BitVec.ofNat_toNat, BitVec.setWidth_eq]
    have hva' : (va + 4096).toNat = (a + 1) * 4096 := by
      rw [BitVec.toNat_add]
      have : (4096 : Word).toNat = 4096 := rfl
      omega
    have hframe : ∀ pt, pt ≠ b.table 3 →
        m.setEntry (b.table 3) (pageindex va 3) (va ||| permPWU.signExtend 64) pt = m pt :=
          fun pt hpt =>
      setEntry_frame m hpt _ _
    obtain ⟨m', hm', hleaf, hfr⟩ := ih (h.of_frame hframe) hva' (by omega) (.inr ⟨rfl, rfl⟩)
    refine ⟨m', ?_, fun i => ?_, fun pt hpt => (hfr pt hpt).trans (hframe pt hpt)⟩
    · rw [mapPages, hnext]
      simp only
      rw [if_pos ⟨by decide, table_ne_zero b (by decide)⟩, hidx]
      exact hm'
    · rw [hleaf, setEntry_leaf, hentry]
      by_cases hi : i = pageindex va 3
      · subst hi
        rw [if_neg (by omega), if_pos rfl, if_pos (by omega)]
      · rw [if_neg hi]
        have hne : i.val ≠ a := fun e => hi (Fin.ext (e.trans hpi.symm))
        by_cases hin : a + 1 ≤ i.val ∧ i.val < a + 1 + n
        · rw [if_pos hin, if_pos (by omega)]
        · rw [if_neg hin, if_neg (by omega)]

theorem Upper.map_ok (h : Upper b m) {a n : Nat} (ha : a + n ≤ 512) :
    ∃ m', virtualMemoryMap (b.table 0) (BitVec.ofNat 64 (a * 4096)) (BitVec.ofNat 64 (a * 4096))
        (BitVec.ofNat 64 (n * 4096)) permPWU allocator m s = .ok (0, m', s) ∧
        MappedUp b m m' a n := by
  have hva : (BitVec.ofNat 64 (a * 4096)).toNat = a * 4096 := by rw [BitVec.toNat_ofNat]; omega
  have hsz : (BitVec.ofNat 64 (n * 4096)).toNat = n * 4096 := by rw [BitVec.toNat_ofNat]; omega
  have hsum : (BitVec.ofNat 64 (a * 4096) + BitVec.ofNat 64 (n * 4096)).toNat = (a + n) * 4096 := by
    rw [BitVec.toNat_add, hva, hsz]
    omega
  obtain ⟨m', hm', hmap⟩ : ∃ m',
    mapPages (b.table 0) permPWU allocator n (BitVec.ofNat 64 (a * 4096))
      (BitVec.ofNat 64 (a * 4096)) (-1) 0 m s = .ok (0, m', s) ∧ MappedUp b m m' a n :=
    h.mapPages_ok n hva ha (.inl rfl)
  refine ⟨m', ?_, hmap⟩
  have hassert : mapAsserts (b.table 0) (BitVec.ofNat 64 (a * 4096)) (BitVec.ofNat 64 (a * 4096))
      (BitVec.ofNat 64 (n * 4096)) permPWU = .ok () := by
    have hperm : permPWU.signExtend 64 &&& pteP ≠ 0 := by decide
    unfold mapAsserts check
    rw [if_pos hperm]
    simp only [hva, hsz, hsum, BitVec.le_def, memsizePhysical,
      table_aligned b (show 0 < 5 by decide)]
    rw [show (decide (a * 4096 % 4096 = 0)) = true from decide_eq_true (by omega),
      show (decide (n * 4096 % 4096 = 0)) = true from decide_eq_true (by omega),
      show (decide (a * 4096 ≤ (a + n) * 4096)) = true from decide_eq_true (by omega),
      show (decide ((a + n) * 4096 ≤ 2097152)) = true from decide_eq_true (by omega)]
    rfl
  unfold virtualMemoryMap
  rw [hassert, hsz, show n * 4096 / 4096 = n by omega]
  exact hm'

theorem Tables.mappedUp {m' : Mem} {a n : Nat} (h : Tables b m) (hm : MappedUp b m m' a n) :
    Tables b m' := by
  refine ⟨h.upper.of_frame hm.frame, fun i => ?_⟩
  rw [hm.leaf]
  split
  · exact .inl rfl
  · exact h.leaf i

end

end Csc412.Kernel
