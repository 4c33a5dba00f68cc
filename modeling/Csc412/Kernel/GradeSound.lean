import Csc412.Kernel.AssignSound
import Csc412.Kernel.DumpSound
import Csc412.Kernel.ExceptionSound
import Csc412.Kernel.Grade
import Mathlib.Data.Nat.Count

/-!
# What the checks say of a state

The items of a timeline are the items of its dictionaries, by the lines that were read.
On the dump of a state each check decides a property of the state's page tables and of
`pageinfo[]`, whatever tables the processes have (`checks_dumped`).
-/

namespace Csc412.Kernel.Log

open Lib Lib.CString

/-! ## Keys -/

section
variable {t t' : Timeline} {line : Bytes} {lines : List Bytes}

theorem put_memData (t : Timeline) (tick : Int) (inst : MemMapInstance) (k : Int) :
    ((t.put tick inst).memData k).isSome ↔ tick = k ∨ (t.memData k).isSome := by
  unfold Timeline.put
  by_cases hk : k = tick
  · simp [hk]
  · simp [hk, Ne.symm hk]

theorem put_at_ne (t : Timeline) {tick k : Int} (inst : MemMapInstance) (hk : k ≠ tick) :
    (t.put tick inst).at k = t.at k := by
  simp [Timeline.at, Timeline.put, hk]

/-- What one line does: it adds to the entry of its tick. -/
theorem parseLine_cases (h : parseLine t line = .ok t') :
    (lineTick line = none ∧ t'.memData = t.memData ∧ ∀ k, lineProcess k line = none) ∨
      (∃ tick inst, lineTick line = some tick ∧ t' = t.put tick inst ∧
        inst.vmState = (t.at tick).vmState ∧
        ∀ k, lineProcess k line = none) ∨
      ∃ tick pid data, lineTick line = some tick ∧ t' = t.put tick { t.at tick with
          vmState := Function.update (t.at tick).vmState pid (some data) } ∧
            lineProcess tick line = some pid ∧
        ∀ k, k ≠ tick → lineProcess k line = none := by
  unfold parseLine at h
  by_cases hpm : pmPrefix.isPrefixOf line = true
  · rw [if_pos hpm] at h
    obtain ⟨_, -, h⟩ := bind_eq_ok h
    obtain ⟨tick, htick, h⟩ := bind_eq_ok h
    obtain ⟨data, -, h⟩ := bind_eq_ok h
    obtain ⟨inst, hset, h⟩ := bind_eq_ok h
    obtain ⟨_, -, hset⟩ := bind_eq_ok hset
    cases hset
    cases h
    refine .inr (.inl ⟨tick, _, ?_, rfl, rfl, fun k => by simp [lineProcess, hpm]⟩)
    rw [lineTick, if_pos hpm, htick]
    rfl
  · rw [if_neg hpm] at h
    by_cases hvm : vmPrefix.isPrefixOf line = true
    · rw [if_pos hvm] at h
      obtain ⟨_, -, h⟩ := bind_eq_ok h
      obtain ⟨pid, hpid, h⟩ := bind_eq_ok h
      obtain ⟨tick, htick, h⟩ := bind_eq_ok h
      obtain ⟨data, -, h⟩ := bind_eq_ok h
      obtain ⟨inst, hadd, h⟩ := bind_eq_ok h
      obtain ⟨_, -, hadd⟩ := bind_eq_ok hadd
      cases hadd
      cases h
      have hline : lineTick line = some tick := by
        rw [lineTick, if_neg hpm, if_pos hvm, htick]
        rfl
      refine .inr (.inr ⟨tick, pid, data, hline, rfl, ?_, fun k hk => ?_⟩)
      · rw [lineProcess, if_neg hpm, if_pos ⟨hvm, hline⟩, hpid]
        rfl
      · simp [lineProcess, hpm, hline, hk.symm]
    · rw [if_neg hvm] at h
      refine .inl ⟨by simp [lineTick, hpm, hvm], ?_, fun k => by simp [lineProcess, hpm, hvm]⟩
      split_ifs at h <;> cases h <;> rfl

theorem parseLine_tick (h : parseLine t line = .ok t') (k : Int) :
    (t'.memData k).isSome ↔ lineTick line = some k ∨ (t.memData k).isSome := by
  rcases parseLine_cases h with ⟨hnone, hsame, -⟩ | ⟨tick, inst, htick, rfl, -, -⟩ |
    ⟨tick, pid, data, htick, rfl, -, -⟩
  · rw [hsame, hnone]
    simp
  · rw [put_memData, htick, Option.some.injEq]
  · rw [put_memData, htick, Option.some.injEq]

theorem parseLine_process (h : parseLine t line = .ok t') (k p : Int) :
    ((t'.at k).vmState p).isSome ↔ lineProcess k line = some p ∨ ((t.at k).vmState p).isSome := by
  rcases parseLine_cases h with ⟨-, hsame, hnone⟩ | ⟨tick, inst, -, rfl, hvm, hnone⟩ |
    ⟨tick, pid, data, -, rfl, hpid, hnone⟩
  · simp [Timeline.at, hsame, hnone]
  · rw [hnone]
    by_cases hk : k = tick
    · simp [hk, put_at, hvm]
    · simp [put_at_ne t inst hk]
  · by_cases hk : k = tick
    · rw [hk, put_at, hpid]
      by_cases hp : p = pid
      · simp [hp]
      · simp [hp, Ne.symm hp]
    · rw [put_at_ne t _ hk, hnone k hk]
      simp

theorem parseLines_tick (h : parseLines t lines = .ok t') (k : Int) :
    (t'.memData k).isSome ↔ k ∈ lines.filterMap lineTick ∨ (t.memData k).isSome := by
  induction lines generalizing t with
  | nil =>
    cases h
    simp
  | cons line lines ih =>
    obtain ⟨u, hu, h⟩ := bind_eq_ok h
    rw [ih h, parseLine_tick hu]
    simp only [List.mem_filterMap, List.mem_cons, exists_eq_or_imp]
    rw [or_assoc, or_left_comm]

theorem parseLines_process (h : parseLines t lines = .ok t') (k p : Int) :
    ((t'.at k).vmState p).isSome ↔ p ∈ lines.filterMap (lineProcess k) ∨
    ((t.at k).vmState p).isSome := by
  induction lines generalizing t with
  | nil =>
    cases h
    simp
  | cons line lines ih =>
    obtain ⟨u, hu, h⟩ := bind_eq_ok h
    rw [ih h, parseLine_process hu]
    simp only [List.mem_filterMap, List.mem_cons, exists_eq_or_imp]
    rw [or_assoc, or_left_comm]

end

/-- The items of a snapshot are those of the dictionaries. -/
structure Snapshot.Of (inst : Snapshot) (m : MemMapInstance) : Prop where
  pmState : inst.pmState = m.pmState
  vmItems : ∀ pid entries, (pid, entries) ∈ inst.vmItems ↔ m.vmState pid = some entries

section
variable {log : Bytes} {t : Timeline} (h : memMapTimeline log = .ok t)
include h

theorem snapshot_of (tick : Int) :
    (t.snapshot (readlines (universal false log)) tick).Of (t.at tick) := by
  refine ⟨rfl, fun pid entries => ?_⟩
  have hpid : ((t.at tick).vmState pid).isSome ↔
      pid ∈ (readlines (universal false log)).filterMap (lineProcess tick) :=
    (parseLines_process h tick pid).trans (or_iff_left Bool.false_ne_true)
  simp only [Timeline.snapshot, List.mem_map, Prod.mk.injEq]
  constructor
  · intro hmem
    obtain ⟨p, hp, rfl, rfl⟩ := hmem
    obtain ⟨data, hdata⟩ := Option.isSome_iff_exists.mp (hpid.mpr hp)
    rw [hdata, Option.getD_some]
  · intro hsome
    refine ⟨pid, hpid.mp ?_, rfl, by rw [hsome, Option.getD_some]⟩
    rw [hsome, Option.isSome_some]

theorem mem_items (tick : Int) (inst : Snapshot) :
    (tick, inst) ∈ t.items (readlines (universal false log)) ↔
    (t.memData tick).isSome ∧ inst = t.snapshot (readlines (universal false log)) tick := by
  have htick := parseLines_tick h tick
  simp only [Timeline.empty, Option.isSome_none, Bool.false_eq_true, or_false] at htick
  simp only [Timeline.items, List.mem_map, List.mem_insertionSort, List.mem_dedup,
    Prod.mk.injEq, htick]
  constructor
  · rintro ⟨k, hk, rfl, rfl⟩
    exact ⟨hk, rfl⟩
  · rintro ⟨hk, rfl⟩
    exact ⟨tick, hk, rfl, rfl⟩

omit h in
theorem items_sorted (t : Timeline) (lines : List Bytes) :
    (t.items lines).Pairwise fun x y => x.1 < y.1 := by
  have hsorted := List.pairwise_insertionSort (· ≤ ·) (lines.filterMap lineTick).dedup
  have hnodup := (List.perm_insertionSort (· ≤ ·) (lines.filterMap lineTick).dedup).nodup_iff.mpr
    (List.nodup_dedup _)
  rw [Timeline.items, List.pairwise_map]
  exact (hsorted.and hnodup).imp fun h => lt_of_le_of_ne h.1 h.2

end
/-! ## Loops -/

/-- A check runs to its end and returns whether `P` holds. -/
def Decides (r : Except GradeError Bool) (P : Prop) : Prop := ∃ v, r = .ok v ∧ (v = true ↔ P)

section
variable {r : Except GradeError Bool} {P Q : Prop}

theorem Decides.congr (h : Decides r P) (hPQ : P ↔ Q) : Decides r Q := by
  obtain ⟨v, hr, hv⟩ := h
  exact ⟨v, hr, hv.trans hPQ⟩

theorem Decides.of (h : Decides r P) (hP : P) : r = .ok true := by
  obtain ⟨v, hr, hv⟩ := h
  rw [hr, hv.mpr hP]

theorem Decides.of_not (h : Decides r P) (hP : ¬ P) : r = .ok false := by
  obtain ⟨v, hr, hv⟩ := h
  cases v with
  | true => exact absurd (hv.mp rfl) hP
  | false => exact hr

end

theorem forItems_decides {items : List (Int × List VMEntry)}
    {f : Int → List VMEntry → Except GradeError Bool} {Q : Int × List VMEntry → Prop}
    (hf : ∀ x ∈ items, Decides (f x.1 x.2) (Q x)) :
    Decides (forItems items f) (∀ x ∈ items, Q x) := by
  induction items with
  | nil => exact ⟨true, rfl, by simp⟩
  | cons x items ih =>
    obtain ⟨v, hv, hQ⟩ := hf x List.mem_cons_self
    rw [List.forall_mem_cons, forItems, hv]
    cases v with
    | false =>
      exact ⟨false, rfl, by simpa using fun h : Q x => absurd (hQ.mpr h) Bool.false_ne_true⟩
    | true =>
      refine (ih fun y hy => hf y (List.mem_cons_of_mem x hy)).congr ?_
      rw [and_iff_right (hQ.mp rfl)]

theorem takeWhile_range {α : Type} (g : Nat → α) {m n : Nat} (h : m ≤ n) :
    ((List.range n).map fun k => (g k, k)).takeWhile
    (fun x => x.2 < m) = (List.range m).map fun k => (g k, k) := by
  obtain ⟨d, rfl⟩ := Nat.exists_eq_add_of_le h
  rw [List.range_add, List.map_append, List.takeWhile_append_of_pos]
  · rw [List.append_right_eq_self]
    cases d with
    | zero => rfl
    | succ d => simp [List.range_succ_eq_map]
  · simp

theorem countP_range (f : Nat → Bool) (n : Nat) :
    (List.range n).countP f = ((Finset.range n).filter fun k => f k = true).card := by
  rw [← Nat.count_eq_card_filter_range, Nat.count]
  apply List.countP_congr
  simp

/-! ## The dump of a state -/

/-- Process `i` can reach its page `k` in user mode. -/
def UserAccess (s : State) (i k : Nat) : Prop :=
  lookupPage s i k ≠ .unmapped ∧ (lookupPage s i k).perm &&& pteU ≠ 0

def pageOwner (s : State) (i k : Nat) : Int := (s.pageinfo (lookupPage s i k).pn).owner

/-- The owners of pages are of type `int8_t`. -/
def OwnersFit (s : State) : Prop :=
  ∀ pn : Nat, pn < npages → -128 ≤ (s.pageinfo pn).owner ∧ (s.pageinfo pn).owner < 128

/-- What each check says of the state that was dumped. -/
structure Checked (s : State) (inst : Snapshot) : Prop where
  kernelIsolated : Decides inst.isKernelIsolated
    (∀ p < nproc, Alive s p → ∀ k < kernelLimit, k ≠ cgaBlock → ¬ UserAccess s p k)
  processesIsolated : Decides inst.areProcessesIsolated
    (∀ p < nproc, Alive s p → ∀ k < 768, kernelLimit ≤ k → UserAccess s p k →
      pageOwner s p k = 0 ∨ pageOwner s p k = p)
  vpaUsed : Decides inst.isVPAUsed
    (∃ pn : Nat, physicalUnallocatedOffset ≤ pn ∧ pn < kernelLimit ∧ 1 ≤ (s.pageinfo pn).owner ∧
      (s.pageinfo pn).owner ≤ 4)
  overlapping : Decides inst.areProcessAddressesOverlapping
    (∃ p < nproc, Alive s p ∧ ∃ pages : Finset Nat, 64 < pages.card ∧ ∀ k ∈ pages, k < 768 ∧
      kernelLimit ≤ k ∧
      UserAccess s p k ∧ pageOwner s p k ≠ 0 ∧ pageOwner s p k = p)
  ownership : Decides inst.checkOwnershipInvariant
    (∀ p < nproc, Alive s p → ∀ k < 768, kernelLimit ≤ k → lookupPage s p k ≠ .unmapped →
      pageOwner s p k ≠ 0 →
      pageOwner s p k = p → UserAccess s p k)
  cgaAccess : Decides inst.checkCGAAccessInvariant (∀ p < nproc, Alive s p →
    UserAccess s p cgaBlock)
  fork : Decides inst.isForkOK
    (∀ p < nproc, Alive s p → lookupPage s p kernelLimit ≠ .unmapped ∧
      pageOwner s p kernelLimit ≠ 0 ∧
      (pageOwner s p kernelLimit = p ∨ (lookupPage s p kernelLimit).perm &&& pteW = 0))

section
variable {s : State} {i k : Nat}

theorem zipIdx_pages (s : State) (i : Nat) :
    (pagesOf s i).zipIdx = (List.range 768).map fun k => (vmEntry s (lookupPage s i k), k) := by
  apply List.ext_getElem
  · simp [pagesOf]
  · simp [pagesOf]

theorem getElem?_pages (s : State) (i : Nat) (hk : k < 768) :
    (pagesOf s i)[k]? = some (vmEntry s (lookupPage s i k)) := by
  simp [pagesOf, hk]

theorem getElem?_physical (s : State) {pn : Nat} (hpn : pn < npages) :
    ((List.range npages).map fun (pn : Nat) =>
      (⟨(s.pageinfo pn).owner % 256, (s.pageinfo pn).refcount⟩ : PMEntry))[pn]? =
      some ⟨(s.pageinfo pn).owner % 256, (s.pageinfo pn).refcount⟩ := by
  simp [hpn]

theorem vmEntry_ua (s : State) (i k : Nat) :
    (vmEntry s (lookupPage s i k)).ua ≠ 0 ↔ UserAccess s i k := by
  unfold vmEntry UserAccess
  by_cases hun : lookupPage s i k = .unmapped
  · simp [hun]
  · rw [if_neg hun, and_iff_right hun]
    have hzero : ((lookupPage s i k).perm &&& pteU).toNat = 0 ↔
        (lookupPage s i k).perm &&& pteU = 0 := by
      rw [← BitVec.toNat_inj]
      rfl
    exact not_congr (Int.natCast_eq_zero.trans hzero)

theorem pages_decides {f : VMEntry × Nat → Bool} {Q : Nat → Prop}
    (hf : ∀ k < 768, f (vmEntry s (lookupPage s i k), k) = true ↔ Q k) :
    Decides (.ok ((pagesOf s i).zipIdx.all f)) (∀ k < 768, Q k) := by
  refine ⟨_, rfl, ?_⟩
  rw [zipIdx_pages, List.all_map, List.all_eq_true]
  exact forall_congr' fun k => ⟨fun hk hlt => (hf k hlt).mp (hk (List.mem_range.mpr hlt)),
    fun hk hmem => (hf k (List.mem_range.mp hmem)).mpr (hk (List.mem_range.mp hmem))⟩

variable (h : Dumpable s) (howners : OwnersFit s)
include h howners

theorem vmEntry_cases (hi : i < nproc) (hlive : Alive s i) (k : Nat) :
    lookupPage s i k = .unmapped ∧ (vmEntry s (lookupPage s i k)).owner = 0 ∧ ¬ UserAccess s i k ∨
      lookupPage s i k ≠ .unmapped ∧
      ((vmEntry s (lookupPage s i k)).owner = 0 ↔ pageOwner s i k = 0) ∧
        ((vmEntry s (lookupPage s i k)).owner = i ↔ pageOwner s i k = i) := by
  rcases lookupPage_cases h hi hlive k with hun | ⟨hne, -, pn, hpn, heq⟩
  · refine .inl ⟨hun, ?_, fun hua => hua.1 hun⟩
    rw [hun]
    rfl
  · have hfit := howners pn hpn
    rw [nproc] at hi
    rw [vmEntry, if_neg hne, pageOwner, heq]
    refine .inr ⟨hne, ?_⟩
    dsimp only
    omega

omit howners in
theorem vmEntry_perm (hi : i < nproc) (hlive : Alive s i) (k : Nat) :
    pteWriteBit (vmEntry s (lookupPage s i k)).perm ≠ 0 ↔ (lookupPage s i k).perm &&& pteW ≠ 0 := by
  have hbit : ∀ k : Fin 8, pteWriteBit (k : Nat) ≠ 0 ↔ (BitVec.ofNat 64 k) &&& pteW ≠ 0 := by decide
  rcases lookupPage_cases h hi hlive k with hun | ⟨hne, hperm, -⟩
  · simp [hun, vmEntry, pteWriteBit, Vamapping.unmapped]
  · have hbit := hbit ⟨(lookupPage s i k).perm.toNat, hperm⟩
    rw [BitVec.ofNat_toNat, BitVec.setWidth_eq] at hbit
    rw [vmEntry, if_neg hne]
    exact hbit

end

section
variable {s : State} {inst : Snapshot} (h : Dumpable s) (howners : OwnersFit s)
    (hinst : inst.Of (dumped s))
include hinst

theorem items_dumped (pid : Int) (entries : List VMEntry) : (pid, entries) ∈ inst.vmItems ↔
    ∃ p : Nat, p < nproc ∧ Alive s p ∧ pid = p ∧ entries = pagesOf s p := by
  rw [hinst.vmItems]
  unfold dumped
  rw [Option.ite_none_right_eq_some, Option.some.injEq]
  constructor
  · intro hpid
    obtain ⟨⟨hpos, hlt, hlive⟩, heq⟩ := hpid
    exact ⟨pid.toNat, by omega, hlive, by omega, heq.symm⟩
  · intro hp
    obtain ⟨p, hp, hlive, hpid, hentries⟩ := hp
    rw [hpid, hentries]
    exact ⟨⟨Int.natCast_nonneg p, Int.ofNat_lt.mpr hp, hlive⟩,
      congrArg (pagesOf s) (Int.toNat_natCast p)⟩

/-- A check of every process. -/
theorem forItems_dumped {f : Int → List VMEntry → Except GradeError Bool} {Q : Nat → Prop}
    (hf : ∀ p < nproc, Alive s p → Decides (f p (pagesOf s p)) (Q p)) :
    Decides (forItems inst.vmItems f) (∀ p < nproc, Alive s p → Q p) := by
  refine (forItems_decides (Q := fun x => Q x.1.toNat) ?_).congr ⟨fun hQ p hp hlive => ?_,
    fun hQ x hx => ?_⟩
  · intro x hx
    obtain ⟨p, hp, hlive, hpid, hentries⟩ := (items_dumped hinst x.1 x.2).mp hx
    rw [hpid, hentries]
    exact hf p hp hlive
  · exact hQ (p, pagesOf s p) ((items_dumped hinst _ _).mpr ⟨p, hp, hlive, rfl, rfl⟩)
  · obtain ⟨p, hp, hlive, hpid, -⟩ := (items_dumped hinst x.1 x.2).mp hx
    rw [hpid]
    exact hQ p hp hlive

theorem kernelIsolated_dumped : Decides inst.isKernelIsolated
    (∀ p < nproc, Alive s p → ∀ k < kernelLimit, k ≠ cgaBlock → ¬ UserAccess s p k) := by
  apply forItems_dumped hinst
  intro p hp hlive
  refine ⟨_, rfl, ?_⟩
  have hrange := takeWhile_range (fun k => vmEntry s (lookupPage s p k))
    (show kernelLimit ≤ 768 by decide)
  rw [zipIdx_pages, hrange]
  simp [← vmEntry_ua, or_iff_not_imp_left]

include h howners

theorem processesIsolated_dumped : Decides inst.areProcessesIsolated
    (∀ p < nproc, Alive s p → ∀ k < 768, kernelLimit ≤ k → UserAccess s p k →
      pageOwner s p k = 0 ∨ pageOwner s p k = p) := by
  apply forItems_dumped hinst
  intro p hp hlive
  apply pages_decides
  intro k _
  by_cases hlt : k < kernelLimit
  · simp [hlt, Nat.not_le.mpr hlt]
  · rw [← vmEntry_ua]
    rcases vmEntry_cases h howners hp hlive k with ⟨-, hzero, hun⟩ | ⟨-, hzero, heq⟩
    · rw [← vmEntry_ua, not_not] at hun
      simp [hzero, hun]
    · simp [hlt, Nat.not_lt.mp hlt, hzero, heq, imp_iff_or_not]

theorem ownership_dumped : Decides inst.checkOwnershipInvariant
    (∀ p < nproc, Alive s p → ∀ k < 768, kernelLimit ≤ k → lookupPage s p k ≠ .unmapped →
      pageOwner s p k ≠ 0 →
      pageOwner s p k = p → UserAccess s p k) := by
  apply forItems_dumped hinst
  intro p hp hlive
  apply pages_decides
  intro k _
  by_cases hlt : k < kernelLimit
  · simp [hlt, Nat.not_le.mpr hlt]
  · rw [← vmEntry_ua]
    rcases vmEntry_cases h howners hp hlive k with ⟨hun, hzero, -⟩ | ⟨hne, hzero, heq⟩
    · simp [hzero, eq_true hun]
    · simp [hlt, Nat.not_lt.mp hlt, hzero, heq, hne, imp_iff_not_or, or_assoc]

omit h howners in
/-- A check of one page of every process. -/
theorem pageCheck_dumped {g : Int → VMEntry → Bool} {Q : Nat → Prop} {n : Nat} (hn : n < 768)
    (hg : ∀ p < nproc, Alive s p → (g p (vmEntry s (lookupPage s p n)) = true ↔ Q p)) :
    Decides (forItems inst.vmItems fun pid entries =>
      match entries[n]? with
      | none => .error .index
      | some entry => .ok (g pid entry)) (∀ p < nproc, Alive s p → Q p) := by
  apply forItems_dumped hinst
  intro p hp hlive
  rw [getElem?_pages s p hn]
  exact ⟨_, rfl, hg p hp hlive⟩

omit h howners in
theorem cgaAccess_dumped :
    Decides inst.checkCGAAccessInvariant (∀ p < nproc, Alive s p → UserAccess s p cgaBlock) := by
  apply pageCheck_dumped hinst (by decide)
  intro p _ _
  rw [decide_eq_true_eq, vmEntry_ua]

theorem fork_dumped : Decides inst.isForkOK
    (∀ p < nproc, Alive s p → lookupPage s p kernelLimit ≠ .unmapped ∧
      pageOwner s p kernelLimit ≠ 0 ∧
      (pageOwner s p kernelLimit = p ∨ (lookupPage s p kernelLimit).perm &&& pteW = 0)) := by
  apply pageCheck_dumped hinst (by decide)
  intro p hp hlive
  have hperm := not_congr (vmEntry_perm h hp hlive kernelLimit)
  rw [not_not, not_not] at hperm
  rcases vmEntry_cases h howners hp hlive kernelLimit with ⟨hun, hzero, -⟩ | ⟨hne, hzero, heq⟩
  · simp [hzero, eq_true hun]
  · simp [hzero, heq, hne, hperm]

omit hinst in
theorem occupancy_dumped {p : Nat} (hp : p < nproc) (hlive : Alive s p) :
    64 < Snapshot.occupancy p (pagesOf s p) ↔ ∃ pages : Finset Nat, 64 < pages.card ∧ ∀ k ∈ pages,
      k < 768 ∧ kernelLimit ≤ k ∧ UserAccess s p k ∧ pageOwner s p k ≠ 0 ∧ pageOwner s p k = p := by
  let f : Nat → Bool := fun k => kernelLimit ≤ k && ((vmEntry s (lookupPage s p k)).owner ≠ 0 &&
    (vmEntry s (lookupPage s p k)).owner = p && (vmEntry s (lookupPage s p k)).ua ≠ 0)
  have hf (k : Nat) : f k = true ↔
      kernelLimit ≤ k ∧ UserAccess s p k ∧ pageOwner s p k ≠ 0 ∧ pageOwner s p k = p := by
    rw [← vmEntry_ua]
    rcases vmEntry_cases h howners hp hlive k with ⟨-, hzero, hun⟩ | ⟨-, hzero, heq⟩
    · rw [← vmEntry_ua, not_not] at hun
      simp [f, hzero, hun]
    · simp [f, hzero, heq, and_assoc, and_comm]
  have hcount : Snapshot.occupancy p (pagesOf s p) =
      ((Finset.range 768).filter fun k => f k = true).card := by
    rw [Snapshot.occupancy, zipIdx_pages, List.countP_map, ← countP_range]
    apply List.countP_congr
    intro k _
    exact Iff.rfl
  rw [hcount]
  constructor
  · intro hcard
    refine ⟨_, hcard, fun k hk => ?_⟩
    rw [Finset.mem_filter, Finset.mem_range, hf] at hk
    exact hk
  · intro hpages
    obtain ⟨pages, hcard, hpages⟩ := hpages
    refine hcard.trans_le (Finset.card_le_card fun k hk => ?_)
    rw [Finset.mem_filter, Finset.mem_range, hf]
    exact hpages k hk

theorem overlapping_dumped : Decides inst.areProcessAddressesOverlapping
    (∃ p < nproc, Alive s p ∧ ∃ pages : Finset Nat, 64 < pages.card ∧ ∀ k ∈ pages, k < 768 ∧
      kernelLimit ≤ k ∧
      UserAccess s p k ∧ pageOwner s p k ≠ 0 ∧ pageOwner s p k = p) := by
  refine ⟨_, rfl, ?_⟩
  simp only [List.any_eq_true, decide_eq_true_eq, Prod.exists]
  constructor
  · intro hany
    obtain ⟨pid, entries, hmem, hlt⟩ := hany
    obtain ⟨p, hp, hlive, hpid, hentries⟩ := (items_dumped hinst pid entries).mp hmem
    rw [hpid, hentries] at hlt
    exact ⟨p, hp, hlive, (occupancy_dumped h howners hp hlive).mp hlt⟩
  · intro hpages
    obtain ⟨p, hp, hlive, hpages⟩ := hpages
    have hmem := (items_dumped hinst p (pagesOf s p)).mpr ⟨p, hp, hlive, rfl, rfl⟩
    exact ⟨p, pagesOf s p, hmem, (occupancy_dumped h howners hp hlive).mpr hpages⟩

omit h howners hinst in
theorem vpaLoop_eq (entries : List PMEntry) (i : Nat) :
    Snapshot.vpaLoop i entries = true ↔ ∃ k entry, entries[k]? = some entry ∧
    physicalUnallocatedOffset ≤ i + k ∧
      i + k < kernelLimit ∧ entry.owner ≠ 0 ∧ entry.owner ≤ 4 := by
  induction entries generalizing i with
  | nil => simp [Snapshot.vpaLoop]
  | cons entry entries ih =>
    have hstep : (∃ k e, (entry :: entries)[k]? = some e ∧ physicalUnallocatedOffset ≤ i + k ∧
      i + k < kernelLimit ∧
        e.owner ≠ 0 ∧ e.owner ≤ 4) ↔
        (physicalUnallocatedOffset ≤ i ∧ i < kernelLimit ∧ entry.owner ≠ 0 ∧ entry.owner ≤ 4) ∨
        ∃ k e, entries[k]? = some e ∧ physicalUnallocatedOffset ≤ i + 1 + k ∧
        i + 1 + k < kernelLimit ∧
          e.owner ≠ 0 ∧ e.owner ≤ 4 := by
      rw [← Nat.or_exists_add_one]
      simp [Nat.add_assoc, Nat.add_comm 1]
    rw [hstep, Snapshot.vpaLoop]
    split_ifs with hlo hhi howner
    · rw [ih, or_iff_right fun hhere => absurd hhere.1 (Nat.not_le.mpr hlo)]
    · refine iff_of_false id fun hor => ?_
      rcases hor with hhere | ⟨k, e, -, -, hk, -⟩ <;> omega
    · exact iff_of_true rfl (.inl ⟨Nat.not_lt.mp hlo, Nat.not_le.mp hhi, howner⟩)
    · rw [ih, or_iff_right fun hhere => howner hhere.2.2]

omit h in
theorem vpaUsed_dumped : Decides inst.isVPAUsed
    (∃ pn : Nat, physicalUnallocatedOffset ≤ pn ∧ pn < kernelLimit ∧ 1 ≤ (s.pageinfo pn).owner ∧
      (s.pageinfo pn).owner ≤ 4) := by
  rw [Snapshot.isVPAUsed, hinst.pmState]
  refine ⟨_, rfl, ?_⟩
  rw [vpaLoop_eq]
  constructor
  · intro hused
    obtain ⟨k, entry, hk, hlo, hhi, howner⟩ := hused
    rw [Nat.zero_add] at hlo hhi
    have hpage : k < npages := hhi.trans (by decide)
    have hfit := howners k hpage
    rw [getElem?_physical s hpage] at hk
    cases hk
    dsimp only at howner
    exact ⟨k, hlo, hhi, by omega, by omega⟩
  · intro hpn
    obtain ⟨pn, hlo, hhi, howner⟩ := hpn
    have hpage : pn < npages := hhi.trans (by decide)
    refine ⟨pn, _, getElem?_physical s hpage, by omega, by omega, ?_⟩
    dsimp only
    omega

theorem checked_dumped : Checked s inst where
  kernelIsolated := kernelIsolated_dumped hinst
  processesIsolated := processesIsolated_dumped h howners hinst
  vpaUsed := vpaUsed_dumped howners hinst
  overlapping := overlapping_dumped h howners hinst
  ownership := ownership_dumped h howners hinst
  cgaAccess := cgaAccess_dumped hinst
  fork := fork_dumped h howners hinst

end

/-! ## Reachable states -/

section
variable {b : Build} {s : State}

theorem pageOk_refcount {info : Int → PageInfo} {users : Int} {alive : Nat → Prop} {pn : Nat}
    (h : PageOk b info users alive pn) (h₀ : 0 ≤ users) (h₁ : users ≤ 16) :
    0 ≤ (info pn).refcount ∧ (info pn).refcount ≤ 127 := by
  rcases initialOwner_cases b (pn * 4096) with hk | hr | hf
  · rw [h.kernel hk]
    dsimp only
    split <;> omega
  · rw [h.reserved hr]
    decide
  · rcases h.free hf with hz | ⟨p, -, -, hp⟩
    · rw [hz]
      decide
    · rw [hp]
      simp

theorem lookupPage_eq (h : MemInv b s) {p k : Nat} (hp : Alive s p) (hk : k < 768) :
    lookupPage s p k =
      if k < npages then ⟨k, BitVec.ofNat 64 (k * 4096), ptePWU⟩ else .unmapped := by
  have hva : (BitVec.ofNat 64 (k * 4096)).toNat % 2 ^ 48 = k * 4096 := by
    rw [BitVec.toNat_ofNat]
    omega
  rw [lookupPage, h.procs.pagetable p hp, h.tables.lookup, kernelMapping, hva]
  unfold memsizePhysical npages
  by_cases hlt : k < 512
  · rw [if_pos hlt, if_pos (by omega), Nat.mul_div_cancel k (by decide)]
  · rw [if_neg hlt, if_neg (by omega)]

theorem memInv_dumpable (h : MemInv b s) : Dumpable s := by
  refine ⟨fun pn hpn => ?_, fun i _ hlive => ?_, fun i _ hlive va hne => ?_⟩
  · have husers := kernelTableUsers_le s
    rw [nproc] at husers
    exact pageOk_refcount (h.pages pn hpn) (by omega) (by omega)
  · rw [h.procs.pagetable i hlive]
    exact pteAddr_table (by decide)
  · rw [h.procs.pagetable i hlive, h.tables.lookup, kernelMapping] at hne ⊢
    split
    · rename_i hlt
      dsimp only
      rw [BitVec.toNat_ofNat, Nat.mod_eq_of_lt (by omega)]
      exact hlt
    · rename_i hge
      rw [if_neg hge] at hne
      exact absurd rfl hne

theorem homed_fit {command : Option String} (h : Homed b command s.pageinfo) : OwnersFit s := by
  intro pn hpn
  rcases h pn hpn with ⟨hlo, hhi⟩ | ⟨e, he, howner, -⟩
  · omega
  · have := (startup_placed b _ e he).pid_le
    omega

end

end Csc412.Kernel.Log
