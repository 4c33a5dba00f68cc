import Mathlib.Data.Finite.Prod
import Csc412.Lib.DepthFirst
import Csc412.Bootloader.Partition

/-!
# The search for a partition

The tables of a disk form a graph, and the recursion is a depth-first search in it. Nothing
keeps it from a table that it is in already, so it returns exactly on the disks where every
loop of extended partitions comes after a kernel partition: `findPartition_decides_iff`.
-/

namespace Csc412.Bootloader
open Lib.DepthFirst

/-- The sector of a table, and where the extended partition with it starts (zero for the
first table). -/
abbrev Table := BitVec 32 × BitVec 32

instance : Finite Table :=
  have : Finite (BitVec 32) := Finite.of_injective BitVec.toFin fun _ _ h => BitVec.eq_of_toFin_eq h
  inferInstance

def tableItem (extendedSect : BitVec 32) (desc : Partitiondesc) : Item Table :=
  if desc.lba_length = 0 then .skip
  else if desc.type = ptypeJosKern then .goal
  else if desc.isExtended then .child (desc.lba_start + extendedSect, if extendedSect = 0
    then desc.lba_start else extendedSect)
  else .skip

section
variable (content : BitVec 32 → Sector)

/-- What the entries of a table lead to; a sector without the magic number has none. -/
def tableItems (t : Table) : List (Item Table) :=
  if (content t.1).isTable then (content t.1).ptable.map (tableItem t.2) else []

def KernelReachable : Prop := ∃ p, Goal (tableItems content) (0, 0) p

/-- Before the search comes back to a table that it is in, it finds a kernel partition. -/
def LoopsLate : Prop :=
  ∀ p q t, At (tableItems content) (0, 0) p t → At (tableItems content) t q t → q ≠ [] →
    ∃ g, Goal (tableItems content) (0, 0) g ∧ g < p ++ q

def returnValue : Option Partition → Int
  | some _ => 1
  | none => 0

/-- The calls go to some depth, and the value says whether there is a kernel partition. -/
def Decides : Prop :=
  ∃ depth, ∀ n, depth ≤ n → ∃ r,
    findPartition (.ofSectors content) n 0 0 0 = some (.ok r) ∧
      (returnValue r = 1 ↔ KernelReachable content) ∧
      (returnValue r = 0 ↔ ¬ KernelReachable content)

end

/-! ## The recursion is the search -/

inductive Agrees : Option (Except NoImage (Option Partition)) → Option Bool → Prop
  | deeper : Agrees none none
  | returned (r : Option Partition) : Agrees (some (.ok r)) (some r.isSome)

variable {content : BitVec 32 → Sector}

theorem start_add (s : BitVec 32) (e : BitVec 32) :
    BitVec.ofNat 32 (s.toNat + e.toNat) = s + e := by
  rw [BitVec.ofNat_add, BitVec.ofNat_toNat, BitVec.ofNat_toNat, BitVec.setWidth_eq,
    BitVec.setWidth_eq]

theorem searchTable_agrees {find : Nat → Nat → Nat → Option (Except NoImage (Option Partition))}
    {visit : Table → Option Bool}
    (hfind : ∀ s (e : BitVec 32) partoff,
      Agrees (find s e.toNat partoff) (visit (BitVec.ofNat 32 s, e)))
    (partitionSect : Nat) (e : BitVec 32) (partoff i : Nat) (ptable : List Partitiondesc) :
    Agrees (searchTable (.ofSectors content) find partitionSect e.toNat partoff i ptable)
        (scan visit (ptable.map (tableItem e))) := by
  induction ptable generalizing i with
  | nil => exact .returned none
  | cons desc ptable ih =>
    rw [searchTable, List.map_cons, tableItem]
    by_cases hlen : desc.lba_length = 0
    · rw [if_pos hlen, if_pos hlen]
      exact ih (i + 1)
    · rw [if_neg hlen, if_neg hlen]
      by_cases hkern : desc.type = ptypeJosKern
      · rw [if_pos hkern, if_pos hkern]
        exact .returned (some _)
      · rw [if_neg hkern, if_neg hkern]
        by_cases hext : desc.isExtended
        · rw [if_pos hext, if_pos hext, scan]
          have hinner : (if e.toNat = 0 then desc.lba_start.toNat else e.toNat) =
              (if e = 0 then desc.lba_start else e).toNat := by
            by_cases he : e = 0
            · rw [if_pos he, if_pos (by rw [he]; rfl)]
            · have hpos : e.toNat ≠ 0 := fun hzero => he (BitVec.eq_of_toNat_eq hzero)
              rw [if_neg he, if_neg hpos]
          have hcall := hfind (desc.lba_start.toNat + e.toNat) (if e = 0 then desc.lba_start else e)
            (if partoff = 0 then 4 else partoff + 1)
          rw [start_add] at hcall
          simp only [hinner]
          generalize find _ _ _ = r at hcall
          generalize visit _ = b at hcall
          cases hcall with
          | deeper => exact .deeper
          | returned r =>
            cases r with
            | none => exact ih (i + 1)
            | some p => exact .returned (some p)
        · rw [if_neg hext, if_neg hext]
          exact ih (i + 1)

theorem findPartition_agrees (k partitionSect : Nat) (e : BitVec 32) (partoff : Nat) :
    Agrees (findPartition (.ofSectors content) k partitionSect e.toNat partoff)
      (search (tableItems content) k (BitVec.ofNat 32 partitionSect, e)) := by
  induction k generalizing partitionSect e partoff with
  | zero => exact .deeper
  | succ k ih =>
    have hread : (DiskFile.ofSectors content).readsect (BitVec.ofNat 32 partitionSect) =
      .ok (content (BitVec.ofNat 32 partitionSect)) := rfl
    rw [findPartition, hread, search, tableItems]
    by_cases htable : (content (BitVec.ofNat 32 partitionSect)).isTable
    · rw [if_pos htable]
      simp only [if_pos htable]
      exact searchTable_agrees ih _ _ _ _ _
    · rw [if_neg htable]
      simp only [if_neg htable]
      exact .returned none

theorem findPartition_root (content : BitVec 32 → Sector) (k : Nat) :
    Agrees (findPartition (.ofSectors content) k 0 0 0) (search (tableItems content) k (0, 0)) :=
  findPartition_agrees k 0 0 0

theorem Agrees.eq_ok {r : Option Partition} {b : Option Bool} (h : Agrees (some (.ok r)) b) :
    b = some r.isSome := by
  cases h
  rfl

theorem Agrees.of_some {x : Option (Except NoImage (Option Partition))} {b : Bool}
    (h : Agrees x (some b)) :
    ∃ r, x = some (.ok r) ∧ r.isSome = b := by
  cases h with
  | returned r => exact ⟨r, rfl, rfl⟩

theorem returnValue_iff (r : Option Partition) :
    (returnValue r = 1 ↔ r.isSome = true) ∧ (returnValue r = 0 ↔ ¬ r.isSome = true) := by
  cases r <;> simp [returnValue]

/-! ## Disks on which it returns -/

theorem findPartition_decides_iff (content : BitVec 32 → Sector) :
    Decides content ↔ LoopsLate content := by
  rw [LoopsLate, ← search_ends_iff]
  constructor
  · rintro ⟨depth, h⟩
    obtain ⟨r, hr, -⟩ := h depth (Nat.le_refl depth)
    have hagrees := findPartition_root content depth
    rw [hr] at hagrees
    exact ⟨depth, r.isSome, hagrees.eq_ok⟩
  · rintro ⟨depth, b, hsearch⟩
    refine ⟨depth, fun n hn => ?_⟩
    have hagrees := findPartition_root content n
    rw [search_mono hn hsearch] at hagrees
    obtain ⟨r, hr, rfl⟩ := hagrees.of_some
    have hreach := search_iff hsearch
    have hvalue := returnValue_iff r
    exact ⟨r, hr, hvalue.1.trans hreach, hvalue.2.trans (not_congr hreach)⟩

def extendedTable (start : UInt8) : Sector := fun i =>
  if i.val = ptableOffset + 4 then ptypeDosExtended
  else if i.val = ptableOffset + 8 then start
  else if i.val = ptableOffset + 12 then 1
  else if i.val = ptableMagicOffset then ptableMagic1
  else if i.val = ptableMagicOffset + 1 then ptableMagic2
  else 0

/-- An extended partition at sector 1, whose table has itself as the next one. -/
def loopDisk (sectno : BitVec 32) : Sector := extendedTable (if sectno = 0 then 1 else 0)

theorem searchTable_extended {d : DiskFile}
    {find : Nat → Nat → Nat → Option (Except NoImage (Option Partition))} {s e partoff : Nat}
    {start : BitVec 32} {ptable : List Partitiondesc}
    (hfind : find (start.toNat + e) (if e = 0 then start.toNat else e)
      (if partoff = 0 then 4 else partoff + 1) = none) :
    searchTable d find s e partoff 0 (⟨ptypeDosExtended, start, 1⟩ :: ptable) = none := by
  have hkern : ptypeDosExtended ≠ ptypeJosKern := by decide
  have hext : (Partitiondesc.mk ptypeDosExtended start 1).isExtended = true := rfl
  have hlen : (1 : BitVec 32) ≠ 0 := by decide
  simp only [searchTable, if_neg hlen, if_neg hkern, if_pos hext, hfind]

theorem loopDisk_none (k partoff : Nat) :
    findPartition (.ofSectors loopDisk) k 1 1 partoff = none := by
  induction k generalizing partoff with
  | zero => rfl
  | succ k ih =>
    have hptable : (loopDisk 1).ptable = ⟨ptypeDosExtended, 0, 1⟩ :: (loopDisk 1).ptable.tail := rfl
    show searchTable _ _ 1 1 partoff 0 (loopDisk 1).ptable = none
    rw [hptable]
    exact searchTable_extended (ih _)

/-- The second table is read again and again. -/
theorem findPartition_loops :
    (∀ depth, findPartition (.ofSectors loopDisk) depth 0 0 0 = none) ∧ ¬ Decides loopDisk := by
  have hnone : ∀ depth, findPartition (.ofSectors loopDisk) depth 0 0 0 = none := by
    intro depth
    cases depth with
    | zero => rfl
    | succ k =>
      have hptable : (loopDisk 0).ptable = ⟨ptypeDosExtended, 1, 1⟩ :: (loopDisk 0).ptable.tail :=
        rfl
      show searchTable _ _ 0 0 0 0 (loopDisk 0).ptable = none
      rw [hptable]
      exact searchTable_extended (loopDisk_none k _)
  refine ⟨hnone, ?_⟩
  rintro ⟨depth, h⟩
  obtain ⟨r, hr, -⟩ := h depth (Nat.le_refl depth)
  rw [hnone] at hr
  cases hr

end Csc412.Bootloader
