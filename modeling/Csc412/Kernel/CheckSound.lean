import Csc412.Kernel.TablesSound
import Csc412.Lib.Fallible
import Mathlib.Data.List.FinRange

/-!
# The self-checks pass

`MemInv b s` is the kernel's memory invariant: the five tables stand in memory, each
page of physical memory is reserved, the kernel's, free or a live process's, and
the processes in use share the kernel's page table. Under it none of the kernel's
assertions about memory fails.
-/

namespace Csc412.Kernel

open Lib

/-! ## The invariant -/

def rootPage (b : Build) : Nat := b.kernelPagetables / 4096

/-- What `pageinfo[]` says of page `pn`: `users` more references to the root table,
`alive` the processes that may own pages. -/
structure PageOk (b : Build) (info : Int → PageInfo) (users : Int) (alive : Nat → Prop) (pn : Nat) :
    Prop where
  kernel : initialOwner b (pn * 4096) = poKernel →
    info pn = ⟨poKernel, if pn = rootPage b then 1 + users else 1⟩
  reserved : initialOwner b (pn * 4096) = poReserved → info pn = ⟨poReserved, 1⟩
  free : initialOwner b (pn * 4096) = poFree →
    (info pn).refcount = 0 ∨ ∃ p, p < nproc ∧ alive p ∧ info pn = ⟨p, 1⟩

def Alive (s : State) (p : Nat) : Prop := (s.procs p).state ≠ .free

structure ProcsOk (b : Build) (s : State) : Prop where
  root : s.kernelPagetable = b.table 0
  pid : ∀ p < nproc, (s.procs p).pid = p
  pagetable : ∀ p, Alive s p → (s.procs p).pagetable = b.table 0
  zero : (s.procs 0).state = .free

def ControlOk (s : State) : Control → Prop
  | .user => s.current < nproc ∧ (s.procs s.current).state = .runnable
  | .handling => s.current < nproc ∧ (s.procs s.current).state = .runnable
  | .scheduling pid => pid < nproc ∧ s.current < nproc ∧ Alive s s.current
  | .polling pid => pid < nproc ∧ s.current < nproc ∧ Alive s s.current
  | .failing _ => True
  | .off => True

structure MemInv (b : Build) (s : State) : Prop where
  tables : Tables b s.mem
  procs : ProcsOk b s
  pages : ∀ pn < npages, PageOk b s.pageinfo (kernelTableUsers s) (Alive s) pn

structure Inv (b : Build) (s : State) : Prop extends MemInv b s where
  control : ControlOk s s.control

/-! ## Loops of checks -/

theorem checkAll_ok {α : Type} {l : List α} {f : α → Except String Unit}
    (h : ∀ a ∈ l, f a = .ok ()) :
    checkAll l f = .ok () := by
  induction l with
  | nil => rfl
  | cons a l ih =>
    rw [checkAll, h a (by simp)]
    exact ih fun x hx => h x (by simp [hx])

theorem check_bind {α : Type} {c : Bool} (h : c = true) (msg : String)
    (f : Unit → Except String α) :
    (check c msg >>= f) = f () := by
  rw [check, if_pos h]
  rfl

theorem check_true {c : Bool} (h : c = true) (msg : String) : check c msg = .ok () := by
  rw [check, if_pos h]

/-! ## Checks of page tables -/

section
variable {b : Build} {s : State}

theorem pteAddr_table {k : Nat} (hk : k < 5) : pteAddr (b.table k) = b.table k :=
  pteAddr_of_aligned (table_aligned b hk)

theorem lookup_physical (h : Tables b s.mem) {a : Nat} (ha : a < memsizePhysical) :
    virtualMemoryLookup s.mem (b.table 0) (BitVec.ofNat 64 a) =
        ⟨(a / 4096 : Nat), BitVec.ofNat 64 a, ptePWU⟩ := by
  have hn : (BitVec.ofNat 64 a).toNat = a := by
    rw [BitVec.toNat_ofNat]
    unfold memsizePhysical at ha
    omega
  rw [h.lookup, kernelMapping_of_lt (by rw [hn]; exact ha), hn]

theorem Build.lt_memsize (b : Build) {a : Nat} (h : a < b.endAddr) : a < memsizePhysical := by
  have := b.end_le
  unfold kernelStackTop at this
  unfold memsizePhysical
  omega

theorem setPagetable_ok (h : Tables b s.mem) (hroot : s.kernelPagetable = b.table 0) {pt : Word}
    (hpt : pt = b.table 0) : setPagetable b s pt = .ok () := by
  subst hpt
  have hself : (virtualMemoryLookup s.mem (b.table 0) (b.table 0)).pa = b.table 0 := by
    rw [h.lookup, kernelMapping_of_lt (table_lt b (by decide))]
  have hoff : pageoffset (b.table 0) = 0 := by
    apply BitVec.eq_of_toNat_eq
    rw [pageoffset_toNat, table_aligned b (by decide)]
    rfl
  unfold setPagetable
  simp only
  rw [hroot, lookup_physical h (b.lt_memsize b.handler_mem.2),
    lookup_physical h (b.lt_memsize b.map_mem.2)]
  simp only [hself, hoff, check, beq_self_eq_true, ite_true]
  rfl

theorem checkPageTableMappings_ok (h : Tables b s.mem) :
    checkPageTableMappings b s (b.table 0) = .ok () := by
  have hend := b.end_le
  unfold kernelStackTop at hend
  unfold checkPageTableMappings
  rw [check_bind (by rw [pteAddr_table (by decide)]; exact beq_self_eq_true _)]
  rw [bind_of_ok]
  · simp only
    rw [lookup_physical h (by unfold kernelStackTop memsizePhysical; omega)]
    rw [check_bind (beq_self_eq_true _)]
    exact check_true (by decide) _
  · apply checkAll_ok
    intro k hk
    rw [List.mem_range] at hk
    have hva : kernelStartAddr + k * 4096 < memsizePhysical := by
      unfold kernelStartAddr memsizePhysical at *
      omega
    simp only
    rw [lookup_physical h hva, check_bind (beq_self_eq_true _)]
    split
    · exact check_true (show (ptePWU &&& pteW != 0) = true by decide) _
    · rfl

theorem pagenumber_table {k : Nat} (hk : k < 5) :
    pagenumber (b.table k) = (rootPage b + k : Nat) := by
  rw [pagenumber_eq (Nat.lt_add_right _ (table_lt b hk)), table_toNat b hk]
  unfold rootPage
  congr 1
  omega

theorem initialOwner_table {k : Nat} (hk : k < 5) :
    initialOwner b ((rootPage b + k) * 4096) = poKernel := by
  have haddr : (rootPage b + k) * 4096 = (b.table k).toNat := by
    rw [table_toNat b hk]
    unfold rootPage
    have := b.tables_aligned
    omega
  have hb := table_bounds b hk
  have hend := b.end_le
  rw [haddr]
  unfold initialOwner physicalMemoryIsreserved kernelStackTop kernelStartAddr at *
  rw [if_neg (by simp; omega), if_pos (.inl ⟨hb.1, by omega⟩)]

theorem rootPage_lt {k : Nat} (hk : k < 5) : rootPage b + k < npages := by
  have h := table_lt b hk
  rw [table_toNat b hk] at h
  unfold rootPage npages memsizePhysical at *
  omega

theorem pageinfo_table {info : Int → PageInfo} {users : Int} {alive : Nat → Prop}
    (h : ∀ pn < npages, PageOk b info users alive pn) {k : Nat} (hk : k < 5) :
    info (pagenumber (b.table k)) = ⟨poKernel, if k = 0 then 1 + users else 1⟩ := by
  rw [pagenumber_table hk, (h _ (rootPage_lt hk)).kernel (initialOwner_table hk)]
  simp

theorem checkOwnershipLevel_ok {users : Int} {alive : Nat → Prop} (h : Tables b s.mem)
    (hp : ∀ pn < npages, PageOk b s.pageinfo users alive pn) :
    checkPageTableOwnershipLevel s poKernel 3 (b.table 0) (1 + users) = .ok () := by
  have hU := h.upper
  -- a table passes if the tables below it do
  have node : ∀ n k refcount, k < 5 → refcount = (if k = 0 then 1 + users else 1) →
      (∀ i, s.mem (b.table k) i ≠ 0 → ∀ n', n = n' + 1 →
        checkPageTableOwnershipLevel s poKernel n' (pteAddr (s.mem (b.table k) i)) 1 = .ok ()) →
      checkPageTableOwnershipLevel s poKernel n (b.table k) refcount = .ok () := by
    intro n k refcount hk hr hbelow
    have hinfo := pageinfo_table hp hk
    have hpn : pagenumber (b.table k) < npages := by
      rw [pagenumber_table hk]
      exact_mod_cast rootPage_lt hk
    unfold checkPageTableOwnershipLevel
    rw [check_bind (decide_eq_true hpn), hinfo, check_bind (beq_self_eq_true _), ← hr,
      check_bind (beq_self_eq_true _)]
    cases n with
    | zero => rfl
    | succ n =>
      apply checkAll_ok
      intro i _
      split
      · rename_i hne
        exact hbelow i hne n rfl
      · rfl
  have addr : ∀ {k j : Nat} {i : Fin 512}, k < 5 → k ≠ 3 → j < 5 →
    upperEntry b k i = tableEntry b j →
      pteAddr (s.mem (b.table k) i) = b.table j := by
    intro k j i hk hk3 hj he
    rw [(hU k hk hk3 i).addr, he, tableEntry, pteAddr_or (table_aligned b hj) (by decide)]
  have present : ∀ {k : Nat} {i : Fin 512}, k < 5 → k ≠ 3 → s.mem (b.table k) i ≠ 0 →
      upperEntry b k i ≠ 0 :=
    fun hk hk3 hne hz => hne ((hU _ hk hk3 _).eq_zero.mpr hz)
  have leafOk : ∀ k, k = 3 ∨ k = 4 → checkPageTableOwnershipLevel s poKernel 0 (b.table k) 1 =
      .ok () := by
    intro k hk
    refine node 0 k 1 (by omega) (by rw [if_neg (by omega)]) fun i _ n' hn => ?_
    omega
  refine node 3 0 _ (by decide) rfl fun i hi n' hn => ?_
  obtain rfl : n' = 2 := by omega
  have hi0 : i = 0 := by
    by_contra hne
    exact present (by decide) (by decide) hi (by simp [upperEntry, hne])
  rw [addr (k := 0) (j := 1) (by decide) (by decide) (by decide) (by simp [upperEntry, hi0])]
  refine node 2 1 _ (by decide) rfl fun i hi n' hn => ?_
  obtain rfl : n' = 1 := by omega
  have hi0 : i = 0 := by
    by_contra hne
    exact present (by decide) (by decide) hi (by simp [upperEntry, hne])
  rw [addr (k := 1) (j := 2) (by decide) (by decide) (by decide) (by simp [upperEntry, hi0])]
  refine node 1 2 _ (by decide) rfl fun i hi n' hn => ?_
  obtain rfl : n' = 0 := by omega
  by_cases hi0 : i = 0
  · rw [addr (k := 2) (j := 3) (by decide) (by decide) (by decide) (by simp [upperEntry, hi0])]
    exact leafOk 3 (.inl rfl)
  · have hi1 : i = 1 := by
      by_contra hne
      exact present (by decide) (by decide) hi (by simp [upperEntry, hi0, hne])
    rw [addr (k := 2) (j := 4) (by decide) (by decide) (by decide) (by simp [upperEntry, hi1])]
    exact leafOk 4 (.inr rfl)

/-! ## The whole check -/

theorem initialOwner_cases (b : Build) (addr : Nat) :
    initialOwner b addr = poKernel ∨ initialOwner b addr = poReserved ∨
    initialOwner b addr = poFree := by
  unfold initialOwner
  split_ifs <;> simp

theorem PageOk.owner {info : Int → PageInfo} {users : Int} {alive : Nat → Prop} {pn : Nat}
    (h : PageOk b info users alive pn) (hr : 0 < (info pn).refcount) (ho : 0 ≤ (info pn).owner) :
    ∃ p, p < nproc ∧ alive p ∧ info pn = ⟨p, 1⟩ := by
  rcases initialOwner_cases b (pn * 4096) with hk | hk | hk
  · rw [h.kernel hk] at ho
    simp [poKernel] at ho
  · rw [h.reserved hk] at ho
    simp [poReserved] at ho
  · rcases h.free hk with h0 | hex
    · omega
    · exact hex

theorem checkVirtualMemory_ok (h : MemInv b s) : checkVirtualMemory b s = .ok () := by
  unfold checkVirtualMemory
  rw [check_bind (decide_eq_true h.procs.zero), h.procs.root,
    bind_of_ok (checkPageTableMappings_ok h.tables)]
  rw [bind_of_ok, bind_of_ok]
  · apply checkAll_ok
    intro pn hpn
    rw [List.mem_range] at hpn
    split
    · rename_i hc
      obtain ⟨p, -, hlive, hinfo⟩ := (h.pages pn hpn).owner hc.1 hc.2
      exact check_true (decide_eq_true (by rw [hinfo]; exact hlive)) _
    · rfl
  · apply checkAll_ok
    intro pid _
    rw [if_neg fun hc => hc.2 (h.procs.pagetable pid hc.1)]
  · unfold checkPageTableOwnership
    rw [if_pos h.procs.root.symm]
    exact checkOwnershipLevel_ok h.tables h.pages

theorem memshowVirtual_ok (h : Tables b s.mem) : memshowVirtual s (b.table 0) = .ok () := by
  unfold memshowVirtual
  rw [check_bind (by rw [pteAddr_table (by decide)]; exact beq_self_eq_true _)]
  apply checkAll_ok
  intro k hk
  rw [List.mem_range] at hk
  simp only
  split
  · rfl
  · rename_i hpn
    apply check_true
    rw [h.lookup] at hpn ⊢
    unfold kernelMapping at hpn ⊢
    split
    · rename_i hlt
      refine decide_eq_true ?_
      simp only [BitVec.toNat_ofNat] at hlt ⊢
      unfold memsizePhysical at hlt ⊢
      omega
    · rename_i hlt
      rw [if_neg hlt] at hpn
      exact absurd (by decide) hpn

theorem memshowVirtualAnimate_ok (h : MemInv b s) :
    ∃ last showing, memshowVirtualAnimate s =
        .ok { s with lastTicks := last, showing := showing } := by
  unfold memshowVirtualAnimate
  simp only
  generalize hs₁ : (if s.lastTicks = 0 ∨ 50 ≤ (s.ticks - s.lastTicks).toNat then
    { s with lastTicks := s.ticks, showing := s.showing + 1 } else s) = s₁
  obtain ⟨last, showing, rfl⟩ : ∃ last showing,
      s₁ = { s with lastTicks := last, showing := showing } := by
    rw [← hs₁]
    split
    · exact ⟨_, _, rfl⟩
    · exact ⟨s.lastTicks, s.showing, rfl⟩
  generalize skipFree _ _ _ % nproc = showing'
  simp only
  split
  · rename_i hne
    rw [h.procs.pagetable showing' hne,
      bind_of_ok
        (memshowVirtual_ok (s := { s with lastTicks := last, showing := showing' }) h.tables)]
    exact ⟨_, _, rfl⟩
  · exact ⟨_, _, rfl⟩

theorem memdumpVirtualAll_ok (h : ProcsOk b s) : memdumpVirtualAll s = .ok () := by
  apply checkAll_ok
  intro p _
  split
  · rename_i hne
    rw [h.pagetable p hne]
    exact check_true (by rw [pteAddr_table (by decide)]; exact beq_self_eq_true _) _
  · rfl

end

end Csc412.Kernel
