import Csc412.Kernel.CheckSound

/-!
# Booting establishes the invariant

From whatever is in memory, `kernel` ends in user mode with the invariant in place:
the images fit their slots, so no page is assigned twice and no store of the loader
reaches a page of the kernel.
-/

namespace Csc412.Kernel

open Lib

/-! ## The initial tables -/

section
variable {b : Build}

theorem table_eq_iff {j k : Nat} (hj : j < 5) (hk : k < 5) : b.table j = b.table k ↔ j = k :=
  ⟨table_inj b hj hk, fun h => by rw [h]⟩

theorem clearTables (m : Mem) {k : Nat} (hk : k < 5) (i : Fin 512) :
    (List.range 5).foldl (fun m k => Mem.clearPage m (b.table k)) m (b.table k) i = 0 := by
  have hk' : k = 0 ∨ k = 1 ∨ k = 2 ∨ k = 3 ∨ k = 4 := by omega
  simp only [List.range, List.range.loop, List.foldl_cons, List.foldl_nil, Mem.clearPage,
    Function.update_apply]
  rcases hk' with rfl | rfl | rfl | rfl | rfl <;> simp [table_eq_iff]

theorem initialTables_apply (m : Mem) {k : Nat} (hk : k < 5) (i : Fin 512) :
    initialTables b m (b.table k) i = upperEntry b k i := by
  unfold initialTables
  simp only [Mem.setEntry, Radix.set_apply, clearTables m hk,
    table_eq_iff hk (show 0 < 5 by decide),
    table_eq_iff hk (show 1 < 5 by decide), table_eq_iff hk (show 2 < 5 by decide)]
  unfold upperEntry tableEntry
  rw [show pteP ||| pteW ||| pteU = ptePWU from rfl]
  have hk' : k = 0 ∨ k = 1 ∨ k = 2 ∨ k = 3 ∨ k = 4 := by omega
  rcases hk' with rfl | rfl | rfl | rfl | rfl
  · simp
  · simp
  · by_cases hi : i = 1
    · simp [hi]
    · simp [hi]
  · simp
  · simp

theorem initialTables_upper (b : Build) (m : Mem) : Upper b (initialTables b m) :=
  fun _ hk _ i => .inl (initialTables_apply m hk i)

theorem virtualMemoryInit_ok (b : Build) (s : State) :
    ∃ m, virtualMemoryInit b s = .ok { s with mem := m, kernelPagetable := b.table 0 } ∧
    Tables b m := by
  obtain ⟨m, hm, hmap⟩ : ∃ m,
    virtualMemoryMap (b.table 0) (BitVec.ofNat 64 (0 * 4096)) (BitVec.ofNat 64 (0 * 4096))
      (BitVec.ofNat 64 (512 * 4096)) permPWU (none : Option (Unit → Word × Unit))
        (initialTables b s.mem) () =
        .ok (0, m, ()) ∧ MappedUp b (initialTables b s.mem) m 0 512 :=
    (initialTables_upper b s.mem).map_ok (by decide)
  refine ⟨m, ?_, (initialTables_upper b s.mem).of_frame hmap.frame, fun i => ?_⟩
  · have hinit : virtualMemoryMap (b.table 0) 0 0 (BitVec.ofNat 64 memsizePhysical) permPWU
        (none : Option (Unit → Word × Unit)) (initialTables b s.mem) () = .ok (0, m, ()) := hm
    unfold virtualMemoryInit
    dsimp only
    rw [hinit]
  · have := i.isLt
    rw [hmap.leaf, if_pos (by omega)]
    exact .inl rfl

end

/-! ## Stores outside the tables -/

section
variable {b : Build} {m : Mem}

theorem Tables.setEntry (h : Tables b m) {pt : Word} (hpt : ∀ k < 5, pt ≠ b.table k) (i : Fin 512)
    (e : Word) :
    Tables b (m.setEntry pt i e) := by
  have hsame : ∀ k < 5, m.setEntry pt i e (b.table k) = m (b.table k) := fun k hk =>
    setEntry_frame m (hpt k hk).symm i e
  refine ⟨fun k hk hk3 j => ?_, fun j => ?_⟩
  · rw [hsame k hk]
    exact h.upper k hk hk3 j
  · rw [hsame 3 (by decide)]
    exact h.leaf j

theorem pteAddr_ne_table {va : Word} (hva : procStartAddr ≤ va.toNat) {k : Nat} (hk : k < 5) :
    pteAddr va ≠ b.table k := by
  intro h
  have h' := congrArg BitVec.toNat h
  have hb := table_bounds b hk
  have he := b.end_le
  rw [pteAddr_toNat] at h'
  unfold procStartAddr kernelStackTop at *
  omega

theorem Tables.storeByte_ok (h : Tables b m) {va : Word} (hlo : procStartAddr ≤ va.toNat)
    (hhi : va.toNat < memsizePhysical) (v : BitVec 8) :
    ∃ m', storeByte (b.table 0) m va v = .ok m' ∧ Tables b m' := by
  refine ⟨m.setByte va v, ?_, h.setEntry (fun k hk => pteAddr_ne_table hlo hk) _ _⟩
  unfold storeByte
  simp only [h.lookup, kernelMapping_of_lt hhi]
  rw [if_pos (by decide)]

theorem Tables.storeBytes_ok (f : Nat → BitVec 8) (n : Nat) :
    ∀ {m : Mem} {k : Nat} {va : Word}, Tables b m →
    procStartAddr ≤ va.toNat → va.toNat + n ≤ memsizePhysical →
    ∃ m', storeBytes (b.table 0) f n k va m = .ok m' ∧ Tables b m' := by
  induction n with
  | zero =>
    intro m k va h hlo hhi
    exact ⟨m, rfl, h⟩
  | succ n ih =>
    intro m k va h hlo hhi
    obtain ⟨m₁, hm₁, h₁⟩ := h.storeByte_ok hlo (by omega) (f k)
    have hva : (va + 1).toNat = va.toNat + 1 := by
      rw [BitVec.toNat_add]
      have : (1 : Word).toNat = 1 := rfl
      unfold memsizePhysical at hhi
      omega
    obtain ⟨m', hm', h'⟩ := ih (k := k + 1) h₁ (show procStartAddr ≤ (va + 1).toNat by omega)
      (by omega)
    refine ⟨m', ?_, h'⟩
    rw [storeBytes, hm₁]
    exact hm'

end

/-! ## Assigning pages -/

def Assigned (info info' : Int → PageInfo) (owner : Int) (lo hi : Nat) : Prop :=
  ∀ pn : Int, info' pn = info pn ∨ (lo : Int) ≤ pn ∧ pn < hi ∧ info' pn = ⟨owner, 1⟩

section
variable {info info₁ info₂ : Int → PageInfo} {owner : Int} {lo hi lo' hi' : Nat}

theorem Assigned.refl : Assigned info info owner lo hi := fun _ => .inl rfl

theorem Assigned.mono (h : Assigned info info₁ owner lo hi) (hlo : lo' ≤ lo) (hhi : hi ≤ hi') :
    Assigned info info₁ owner lo' hi' := by
  intro pn
  rcases h pn with h | ⟨h₁, h₂, h₃⟩
  · exact .inl h
  · exact .inr ⟨by omega, by omega, h₃⟩

theorem Assigned.trans (h₁ : Assigned info info₁ owner lo hi)
    (h₂ : Assigned info₁ info₂ owner lo hi) :
    Assigned info info₂ owner lo hi := by
  intro pn
  rcases h₂ pn with h | h
  · rw [h]
    exact h₁ pn
  · exact .inr h

theorem Assigned.outside (h : Assigned info info₁ owner lo hi) {pn : Nat}
    (hpn : pn < lo ∨ hi ≤ pn) :
    info₁ pn = info pn := by
  rcases h pn with h | ⟨h₁, h₂, -⟩
  · exact h
  · omega

end

section
variable {b : Build}

theorem pagenumber_page {addr : Word} {a : Nat} (h : addr.toNat = a * 4096) (ha : a < 512) :
    pagenumber addr = a := by
  rw [pagenumber_eq (by unfold memsizePhysical; omega), h]
  congr 1
  omega

theorem and_fff_iff (addr : Word) : addr &&& 0xFFF = 0 ↔ addr.toNat % 4096 = 0 := by
  rw [← pageoffset_toNat]
  constructor
  · intro h
    change (addr &&& 0xFFF).toNat = 0
    rw [h]
    rfl
  · intro h
    exact BitVec.eq_of_toNat_eq h

theorem assignPhysicalPage_assigned (s : State) (addr : Word) (owner : Int) {a : Nat}
    (h : addr.toNat = a * 4096) :
    ∃ r info, assignPhysicalPage s addr owner = (r, { s with pageinfo := info }) ∧
      Assigned s.pageinfo info owner a (a + 1) ∧
      (a < 512 → (s.pageinfo a).refcount = 0 → r = 0) := by
  unfold assignPhysicalPage
  split
  · rename_i hc
    refine ⟨-1, s.pageinfo, rfl, .refl, fun ha hr => ?_⟩
    rw [pagenumber_page h ha] at hc
    unfold memsizePhysical at hc
    rcases hc with hc | hc | hc
    · exact absurd ((and_fff_iff addr).mpr (by omega)) hc
    · omega
    · exact absurd hr hc
  · rename_i hc
    push Not at hc
    have ha : a < 512 := by
      have := hc.2.1
      unfold memsizePhysical at this
      omega
    refine ⟨0, _, rfl, fun pn => ?_, fun _ _ => rfl⟩
    rw [pagenumber_page h ha, Function.update_apply]
    split
    · rename_i hpn
      exact .inr ⟨by omega, by omega, rfl⟩
    · exact .inl rfl

theorem mapPage_of_map {s : State} {pagetable addr : Word} {r : Int} {m : Mem}
    (h : virtualMemoryMap pagetable addr addr 4096 permPWU (none : Option (Unit → Word × Unit))
      s.mem () = .ok (r, m, ())) :
    mapPage s pagetable addr = .ok (r, { s with mem := m }) := by
  unfold mapPage
  rw [h]

theorem Tables.mapPage_ok {s : State} (h : Tables b s.mem) {addr : Word} {a : Nat}
    (ha : addr.toNat = a * 4096) (hlt : a < 512) :
    ∃ m, mapPage s (b.table 0) addr = .ok (0, { s with mem := m }) ∧
    Tables b m := by
  have haddr : addr = BitVec.ofNat 64 (a * 4096) := by
    rw [← ha, BitVec.ofNat_toNat, BitVec.setWidth_eq]
  obtain ⟨m, hm, hmap⟩ : ∃ m,
    virtualMemoryMap (b.table 0) (BitVec.ofNat 64 (a * 4096)) (BitVec.ofNat 64 (a * 4096))
      (BitVec.ofNat 64 (1 * 4096)) permPWU (none : Option (Unit → Word × Unit)) s.mem () =
        .ok (0, m, ()) ∧
        MappedUp b s.mem m a 1 := h.upper.map_ok (by omega)
  rw [← haddr] at hm
  exact ⟨m, mapPage_of_map hm, h.mappedUp hmap⟩

theorem Tables.loadPages_ok (pid : Int) (n : Nat) :
    ∀ {s : State} {addr : Word} {a : Nat}, Tables b s.mem →
    addr.toNat = a * 4096 → a + n ≤ 512 →
    (∀ pn : Nat, a ≤ pn → pn < a + n → (s.pageinfo pn).refcount = 0) →
    ∃ m info, loadPages pid (b.table 0) n addr s = .ok (0, { s with mem := m, pageinfo := info }) ∧
    Tables b m ∧
      Assigned s.pageinfo info (int8 pid) a (a + n) := by
  induction n with
  | zero =>
    intro s addr a h ha hle hfree
    exact ⟨s.mem, s.pageinfo, rfl, h, .refl⟩
  | succ n ih =>
    intro s addr a h ha hle hfree
    obtain ⟨r, info₁, hr, has, hz⟩ := assignPhysicalPage_assigned s addr (int8 pid) ha
    have hr0 := hz (by omega) (hfree a (by omega) (by omega))
    subst hr0
    obtain ⟨m₁, hm₁, h₁⟩ := Tables.mapPage_ok (s := { s with pageinfo := info₁ }) h ha (by omega)
    have haddr : (addr + 4096).toNat = (a + 1) * 4096 := by
      rw [BitVec.toNat_add]
      have : (4096 : Word).toNat = 4096 := rfl
      omega
    obtain ⟨m, info, hload, hT, has'⟩ :=
      ih (s := { s with mem := m₁, pageinfo := info₁ }) h₁ haddr (by omega)
      (fun pn h₁ h₂ => by
        simp only
        rw [has.outside (by omega)]
        exact hfree pn (by omega) (by omega))
    refine ⟨m, info, ?_, hT, (has.mono (le_refl a) (by omega)).trans
      (has'.mono (by omega) (by omega))⟩
    rw [loadPages, hr]
    simp only
    rw [if_neg (by decide), hm₁]
    simp only
    rw [if_neg (by decide)]
    exact hload

end

/-! ## Programs -/

/-- The kernel while it loads process `p`. -/
structure Loading (b : Build) (s : State) (p : Nat) : Prop where
  tables : Tables b s.mem
  root : s.kernelPagetable = b.table 0
  pid : (s.procs p).pid = p
  pagetable : (s.procs p).pagetable = b.table 0

theorem Loading.with {b : Build} {s : State} {p : Nat} (h : Loading b s p) {m : Mem}
    (hm : Tables b m) (info : Int → PageInfo) : Loading b { s with mem := m, pageinfo := info } p :=
  ⟨hm, h.root, h.pid, h.pagetable⟩

structure Segment.Inside (ph : Segment) : Prop where
  lo : procStartAddr ≤ ph.va.toNat
  hi : ph.va.toNat + ph.memsz.toNat ≤ memsizePhysical
  filesz : ph.filesz.toNat ≤ ph.memsz.toNat

section
variable {b : Build} {s : State} {p : Nat}

theorem Loading.segment (h : Loading b s p) {ph : Segment} (hin : ph.Inside)
    (hfree : ∀ pn : Nat, ph.first ≤ pn → pn < ph.last → (s.pageinfo pn).refcount = 0) :
    ∃ m info, programLoadSegment b s p ph = .ok (0, { s with mem := m, pageinfo := info }) ∧
    Tables b m ∧
      Assigned s.pageinfo info (int8 p) ph.first ph.last := by
  obtain ⟨hlo, hhi, hfs⟩ := hin
  unfold memsizePhysical at hhi
  have hmem : (ph.va + ph.memsz).toNat = ph.va.toNat + ph.memsz.toNat := by
    rw [BitVec.toNat_add]; omega
  have hfile : (ph.va + ph.filesz).toNat = ph.va.toNat + ph.filesz.toNat := by
    rw [BitVec.toNat_add]; omega
  have hva : (pteAddr ph.va).toNat = ph.first * 4096 := pteAddr_toNat ph.va
  have hfirst : ph.first * 4096 ≤ ph.va.toNat := by unfold Segment.first; omega
  have hcopied : ph.first * 4096 + (ph.va.toNat + ph.filesz.toNat - ph.first * 4096) ≤
      memsizePhysical := by
    rw [Nat.add_sub_of_le (Nat.le_trans hfirst (Nat.le_add_right _ _))]
    exact Nat.le_trans (Nat.add_le_add_left hfs _) hhi
  have hpages : ((ph.va + ph.memsz).toNat - (pteAddr ph.va).toNat + 4095) / 4096 =
      ph.last - ph.first := by
    rw [hmem, hva]
    unfold Segment.first Segment.last
    omega
  have hle : ph.first ≤ ph.last := by unfold Segment.first Segment.last; omega
  have hlast : ph.last ≤ 512 := by unfold Segment.last; omega
  obtain ⟨m₁, info, hload, hT₁, has⟩ :=
    h.tables.loadPages_ok p (ph.last - ph.first) (s := s) hva (by omega)
    fun pn h₁ h₂ => hfree pn h₁ (by omega)
  have hcopy : (ph.va + ph.filesz - pteAddr ph.va).toNat =
      ph.va.toNat + ph.filesz.toNat - ph.first * 4096 := by
    rw [BitVec.toNat_sub_of_le (by rw [BitVec.le_def]; omega), hfile, hva]
  have hclear : (ph.va + ph.memsz - (ph.va + ph.filesz)).toNat =
      ph.memsz.toNat - ph.filesz.toNat := by
    rw [BitVec.toNat_sub_of_le (by rw [BitVec.le_def]; omega), hmem, hfile]
    omega
  have hslot : procStartAddr ≤ (pteAddr ph.va).toNat := by
    rw [hva]
    unfold Segment.first procStartAddr at *
    omega
  obtain ⟨m₂, hm₂, hT₂⟩ := hT₁.storeBytes_ok ph.data (ph.va + ph.filesz - pteAddr ph.va).toNat
    (k := 0) hslot
    (by rw [hcopy, hva]; exact hcopied)
  obtain ⟨m₃, hm₃, hT₃⟩ := hT₂.storeBytes_ok (fun _ => 0)
    (ph.va + ph.memsz - (ph.va + ph.filesz)).toNat (k := 0)
    (show procStartAddr ≤ (ph.va + ph.filesz).toNat by omega)
      (by rw [hclear, hfile]; unfold memsizePhysical; omega)
  refine ⟨m₃, info, ?_, hT₃, has.mono (le_refl _) (by omega)⟩
  unfold programLoadSegment
  simp only
  rw [h.pagetable, h.pid, hpages, hload]
  simp only
  rw [if_neg (by decide), bind_of_ok
    (setPagetable_ok (s := { s with mem := m₁, pageinfo := info }) hT₁ h.root rfl), hm₂]
  change (storeBytes (b.table 0) (fun _ => 0) _ 0 _ m₂ >>= _) = _
  rw [hm₃]
  change (setPagetable b { s with mem := m₃, pageinfo := info } s.kernelPagetable >>= _) = _
  rw [bind_of_ok (setPagetable_ok (s := { s with mem := m₃, pageinfo := info }) hT₃ h.root h.root)]

theorem Loading.segments (phs : List Segment) : ∀ {s : State}, Loading b s p →
    (∀ ph ∈ phs, ph.isLoad → ph.Inside) →
    (phs.Pairwise fun p q => p.isLoad → q.isLoad → p.last ≤ q.first ∨ q.last ≤ p.first) →
    ∀ {lo hi : Nat}, (∀ ph ∈ phs, ph.isLoad → lo ≤ ph.first ∧ ph.last ≤ hi) →
    (∀ ph ∈ phs, ph.isLoad → ∀ pn : Nat, ph.first ≤ pn → pn < ph.last →
      (s.pageinfo pn).refcount = 0) →
    ∃ m info, loadSegments b p phs s = .ok (0, { s with mem := m, pageinfo := info }) ∧ Tables b m ∧
      Assigned s.pageinfo info (int8 p) lo hi := by
  induction phs with
  | nil =>
    intro s h _ _ lo hi _ _
    exact ⟨s.mem, s.pageinfo, rfl, h.tables, .refl⟩
  | cons ph phs ih =>
    intro s h hin hdis lo hi hr hfree
    rw [List.pairwise_cons] at hdis
    rw [loadSegments]
    by_cases hl : ph.isLoad = true
    · obtain ⟨m₁, info₁, hseg, hT₁, has₁⟩ := h.segment (hin ph (by simp) hl) (hfree ph (by simp) hl)
      -- the pages of the segments to come are still free
      have hfree' : ∀ q ∈ phs, q.isLoad → ∀ pn : Nat, q.first ≤ pn → pn < q.last →
          (info₁ pn).refcount = 0 := by
        intro q hq hql pn h₁ h₂
        have hd := hdis.1 q hq hl hql
        rw [has₁.outside (by omega)]
        exact hfree q (by simp [hq]) hql pn h₁ h₂
      obtain ⟨m, info, hload, hT, has⟩ :=
        ih (h.with hT₁ info₁) (fun q hq => hin q (by simp [hq])) hdis.2
        (fun q hq => hr q (by simp [hq])) hfree'
      have hrange := hr ph (by simp) hl
      refine ⟨m, info, ?_, hT, (has₁.mono hrange.1 hrange.2).trans has⟩
      rw [if_pos hl, hseg]
      simp only
      rw [if_neg (by decide)]
      exact hload
    · rw [if_neg hl]
      exact ih h (fun q hq => hin q (by simp [hq])) hdis.2 (fun q hq => hr q (by simp [hq]))
        fun q hq => hfree q (by simp [hq])

theorem slotOf_bounds (program : Nat) :
    procStartAddr ≤ slotOf program ∧ slotOf program + procSize ≤ memsizePhysical ∧
    slotOf program % 4096 = 0 := by
  unfold slotOf procStartAddr procSize memsizePhysical
  split <;> omega

theorem Loading.program (h : Loading b s p) {program : Nat} (hprog : program < 6)
    (hfree : ∀ pn : Nat, slotOf program ≤ pn * 4096 → pn * 4096 < slotOf program + procSize →
      (s.pageinfo pn).refcount = 0) :
    ∃ m info, programLoad b s p program = .ok (0, State.setRegisters { s with
        mem := m, pageinfo := info } p ((s.procs p).registers.setRip (b.images program).entry)) ∧
      Tables b m ∧ Assigned s.pageinfo info (int8 p) (slotOf program / 4096)
          ((slotOf program + procSize) / 4096) := by
  have hfit := b.images_fit program hprog
  obtain ⟨hs₁, hs₂, hs₃⟩ := slotOf_bounds program
  have hpages : ∀ ph ∈ (b.images program).segments, ph.isLoad →
      slotOf program / 4096 ≤ ph.first ∧ ph.last ≤ (slotOf program + procSize) / 4096 := by
    intro ph hph hl
    have hin := hfit.inside ph hph hl
    unfold Segment.first Segment.last procSize at *
    omega
  obtain ⟨m, info, hload, hT, has⟩ := h.segments (b.images program).segments
    (fun ph hph hl => by
      have hin := hfit.inside ph hph hl
      exact ⟨by omega, by unfold procSize at *; omega, hin.2.2⟩)
    hfit.disjoint hpages
    (fun ph hph hl pn h₁ h₂ => by
      have hp := hpages ph hph hl
      apply hfree pn
      · omega
      · have : pn < (slotOf program + procSize) / 4096 := by omega
        unfold procSize at *
        omega)
  refine ⟨m, info, ?_, hT, has⟩
  unfold programLoad
  rw [check_bind (decide_eq_true hprog), check_bind (by rw [hfit.magic]; decide), hload]
  rfl

end

/-! ## Processes -/

theorem int8_of_small {x : Int} (h₀ : 0 ≤ x) (h : x < 128) : int8 x = x := by
  unfold int8
  rw [BitVec.toInt_ofInt, Int.bmod_def]
  split <;> omega

def setupRegisters (b : Build) (pid program : Nat) : Registers :=
  ((processInit 0).setRip (b.images program).entry).setRsp (stackTop pid)

def setupProc (b : Build) (pid program : Nat) : Proc :=
  ⟨pid, setupRegisters b pid program, .runnable, b.table 0⟩

/-- Process `pid` may run `program`: the program is linked for its slot. -/
structure Placed (pid program : Nat) : Prop where
  pid_pos : 1 ≤ pid
  pid_le : pid ≤ 4
  program_lt : program < 6
  slot : slotOf program = procStartAddr + procSize * (pid - 1)

theorem startup_placed (b : Build) (command : Option String) :
    ∀ e ∈ startup b command, Placed e.1 e.2 := by
  unfold startup
  split_ifs <;> simp only [List.mem_cons, List.not_mem_nil, or_false] <;> rintro e he
  · subst he; exact ⟨by decide, by decide, by decide, by decide⟩
  · subst he; exact ⟨by decide, by decide, by decide, by decide⟩
  · subst he; exact ⟨by decide, by decide, by decide, by decide⟩
  · rcases he with rfl | rfl | rfl | rfl <;> exact ⟨by decide, by decide, by decide, by decide⟩

theorem startup_nodup (b : Build) (command : Option String) :
    ((startup b command).map Prod.fst).Nodup := by
  unfold startup
  split_ifs <;> decide

theorem startup_one (b : Build) (command : Option String) :
    ∃ program, (1, program) ∈ startup b command := by
  unfold startup
  split_ifs
  · exact ⟨4, by simp⟩
  · exact ⟨4, by simp⟩
  · exact ⟨5, by simp⟩
  · exact ⟨0, by simp⟩

section
variable {b : Build}

theorem initialOwner_slot (program : Nat) {pn : Nat} (h : slotOf program / 4096 ≤ pn)
    (hpn : pn < npages) :
    initialOwner b (pn * 4096) = poFree := by
  have hs := slotOf_bounds program
  have he := b.end_le
  unfold initialOwner physicalMemoryIsreserved kernelStackTop kernelStartAddr procStartAddr
    npages at *
  rw [if_neg (by simp; omega), if_neg (by omega)]

def retainRoot (b : Build) (info : Int → PageInfo) : Int → PageInfo :=
  Function.update info (rootPage b) { info (rootPage b) with
      refcount := int8 ((info (rootPage b)).refcount + 1) }

theorem pageOk_setup {info info' : Int → PageInfo} {users : Int} {alive alive' : Nat → Prop}
    {pid program pn : Nat}
    (h : ∀ pn < npages, PageOk b info users alive pn) (hu₀ : 0 ≤ users) (hu : users < 100)
    (hpid : Placed pid program)
    (has : Assigned (retainRoot b info) info' pid (slotOf program / 4096)
      ((slotOf program + procSize) / 4096))
    (halive : ∀ p, alive p → alive' p) (hself : alive' pid) (hpn : pn < npages) :
    PageOk b info' (users + 1) alive' pn := by
  have hroot := initialOwner_table (b := b) (show 0 < 5 by decide)
  rw [Nat.add_zero] at hroot
  have hinfo : info (rootPage b) = ⟨poKernel, 1 + users⟩ := by
    have := (h _ (rootPage_lt (b := b) (show 0 < 5 by decide))).kernel (by simpa using hroot)
    simpa using this
  have hcases := has pn
  rw [retainRoot, Function.update_apply, hinfo] at hcases
  simp only [Int.natCast_inj] at hcases
  -- a page of the slot starts out free
  have hslot : initialOwner b (pn * 4096) ≠ poFree → pn < slotOf program / 4096 := fun hne => by
    by_contra hge
    exact hne (initialOwner_slot program (by omega) hpn)
  refine ⟨fun hk => ?_, fun hr => ?_, fun hf => ?_⟩
  · have hout := hslot (by rw [hk]; decide)
    rcases hcases with hc | ⟨hlo, -, -⟩
    · rw [hc, (h pn hpn).kernel hk]
      by_cases hroot : pn = rootPage b
      · rw [if_pos hroot, if_pos hroot, int8_of_small (by omega) (by omega), Int.add_assoc]
      · simp only [if_neg hroot]
    · omega
  · have hout := hslot (by rw [hr]; decide)
    have hne : pn ≠ rootPage b := by
      rintro rfl
      rw [hroot] at hr
      exact absurd hr (by decide)
    rcases hcases with hc | ⟨hlo, -, -⟩
    · rw [hc, if_neg hne, (h pn hpn).reserved hr]
    · omega
  · have hne : pn ≠ rootPage b := by
      rintro rfl
      rw [hroot] at hf
      exact absurd hf (by decide)
    rcases hcases with hc | ⟨-, -, hc⟩
    · rw [hc, if_neg hne]
      rcases (h pn hpn).free hf with h0 | ⟨p, hp, hal, hi⟩
      · exact .inl h0
      · exact .inr ⟨p, hp, halive p hal, hi⟩
    · have := hpid.pid_le
      exact .inr ⟨pid, by unfold nproc; omega, hself, hc⟩

theorem stackTop_toNat {pid program : Nat} (h : Placed pid program) :
    (stackTop pid - 4096).toNat = (slotOf program / 4096 + 63) * 4096 := by
  obtain ⟨hp₁, hp₂, -, hslot⟩ := h
  have htop : (stackTop pid).toNat = procStartAddr + procSize * pid := by
    unfold stackTop
    rw [BitVec.toNat_ofNat]
    unfold procStartAddr procSize
    omega
  have hpage : (4096 : Word).toNat = 4096 := rfl
  unfold procStartAddr procSize at *
  rw [BitVec.toNat_sub_of_le (by rw [BitVec.le_def]; omega)]
  omega

theorem setupStack_ok {s : State} {pid program : Nat} (htab : Tables b s.mem)
    (hpt : (s.procs pid).pagetable = b.table 0) (hpl : Placed pid program) :
    ∃ m info, setupStack s pid =
      .ok (State.setProc { s with mem := m, pageinfo := info } pid { s.procs pid with
        registers := (s.procs pid).registers.setRsp (stackTop pid), state := .runnable }) ∧
          Tables b m ∧
      Assigned s.pageinfo info pid (slotOf program / 4096)
          ((slotOf program + procSize) / 4096) := by
  have hstack := stackTop_toNat hpl
  have hsb := slotOf_bounds program
  have hint8 : int8 pid = pid := int8_of_small (by omega) (by have := hpl.pid_le; omega)
  let s₁ := s.setRegisters pid ((s.procs pid).registers.setRsp (stackTop pid))
  obtain ⟨r, info, hassign, has, -⟩ :=
    assignPhysicalPage_assigned s₁ (stackTop pid - 4096) pid hstack
  obtain ⟨m, hmap, hT⟩ := Tables.mapPage_ok (s := { s₁ with pageinfo := info }) htab hstack
    (by unfold memsizePhysical procSize at hsb; omega)
  refine ⟨m, info, ?_, hT, has.mono (by omega) (by unfold procSize; omega)⟩
  have hpt₁ : (s₁.procs pid).pagetable = b.table 0 := by
    simp [s₁, State.setRegisters, State.setProc, hpt]
  have hstep : mapPage (assignPhysicalPage s₁ (stackTop pid - 4096) (int8 pid)).2
    (s₁.procs pid).pagetable
      (stackTop pid - 4096) = .ok (0, { s₁ with mem := m, pageinfo := info }) := by
    rw [hint8, hassign, hpt₁]
    exact hmap
  unfold setupStack
  simp only
  rw [hstep]
  simp [s₁, State.setRegisters, State.setProc]

theorem processSetup_ok {s : State} {pid program : Nat} (htab : Tables b s.mem)
    (hroot : s.kernelPagetable = b.table 0)
    (hpid : (s.procs pid).pid = pid) (hpl : Placed pid program)
    (hfree : ∀ pn : Nat, slotOf program ≤ pn * 4096 → pn * 4096 < slotOf program + procSize →
      (s.pageinfo pn).refcount = 0) :
    ∃ m info, processSetup b s pid program =
        .ok (State.setProc { s with mem := m, pageinfo := info } pid (setupProc b pid program)) ∧
        Tables b m ∧
      Assigned (retainRoot b s.pageinfo) info pid (slotOf program / 4096)
          ((slotOf program + procSize) / 4096) := by
  have hrp : pagenumber (b.table 0) = rootPage b := pagenumber_table (by decide)
  have hint8 : int8 pid = pid := int8_of_small (by omega) (by have := hpl.pid_le; omega)
  have hproc : (setupEntry s pid).procs pid =
      { s.procs pid with registers := processInit 0, pagetable := b.table 0 } := by
    simp [setupEntry, State.setProc, hroot]
  have hinfo : (setupEntry s pid).pageinfo = retainRoot b s.pageinfo := by
    simp only [setupEntry, State.setProc, hroot, hrp, retainRoot]
  have hL : Loading b (setupEntry s pid) pid :=
    ⟨htab, hroot, by rw [hproc]; exact hpid, by rw [hproc]⟩
  have hnot : ∀ pn : Nat, slotOf program ≤ pn * 4096 → (pn : Int) ≠ rootPage b := by
    intro pn hlo he
    have hsb := slotOf_bounds program
    have hb := table_bounds b (show 0 < 5 by decide)
    have hend := b.end_le
    rw [table_toNat b (by decide)] at hb
    unfold rootPage kernelStackTop procStartAddr at *
    omega
  obtain ⟨m₁, info₁, hload, hT₁, has₁⟩ := hL.program hpl.program_lt fun pn h₁ h₂ => by
    rw [hinfo, retainRoot, Function.update_apply, if_neg (hnot pn h₁)]
    exact hfree pn h₁ h₂
  rw [hproc] at hload
  let s₂ := State.setRegisters { setupEntry s pid with mem := m₁, pageinfo := info₁ } pid
    ((processInit 0).setRip (b.images program).entry)
  have hproc₂ : s₂.procs pid = { s.procs pid with
      registers := (processInit 0).setRip (b.images program).entry, pagetable := b.table 0 } := by
    simp only [s₂, State.setRegisters, State.setProc, Function.update_self, hproc]
  obtain ⟨m, info, hstk, hT, has⟩ := setupStack_ok (s := s₂) hT₁ (by rw [hproc₂]) hpl
  refine ⟨m, info, ?_, hT, ?_⟩
  · unfold processSetup
    rw [hload, ok_bind]
    simp only
    rw [check_bind (decide_eq_true (Int.le_refl 0))]
    refine hstk.trans ?_
    rw [hproc₂]
    simp only [s₂, State.setRegisters, State.setProc, setupEntry, Function.update_idem, setupProc,
      setupRegisters, hpid]
  · rw [hinfo, hint8] at has₁
    exact has₁.trans has

end

/-! ## Counting the users of the kernel's page table -/

theorem countP_range_insert {f : Nat → Bool} {p : Nat} (hp : f p = false) (n : Nat) :
    (List.range n).countP (fun q => decide (q = p) || f q) = (List.range n).countP f + if p < n
        then 1 else 0 := by
  induction n with
  | zero => rfl
  | succ n ih =>
    rw [List.range_succ, List.countP_append, List.countP_append, ih, List.countP_singleton,
      List.countP_singleton]
    by_cases hn : n = p
    · subst hn
      simp [hp]
    · have hlt : p < n + 1 ↔ p < n := by omega
      simp only [hn, decide_false, Bool.false_or, hlt]
      omega

theorem kernelTableUsers_setup {s : State} {m : Mem} {info : Int → PageInfo} {p : Nat} {proc : Proc}
    (hp : p < nproc) (hfree : (s.procs p).state = .free) (hstate : proc.state ≠ .free)
    (hpt : proc.pagetable = s.kernelPagetable) :
    kernelTableUsers (State.setProc { s with mem := m, pageinfo := info } p proc) =
        kernelTableUsers s + 1 := by
  have h := countP_range_insert (p := p) (n := nproc)
    (f := fun q => decide ((s.procs q).state ≠ .free) &&
      decide ((s.procs q).pagetable = s.kernelPagetable))
    (by simp [hfree])
  rw [if_pos hp] at h
  unfold kernelTableUsers
  rw [← h]
  congr 1
  funext q
  simp only [State.setProc, Function.update_apply]
  by_cases hq : q = p
  · simp [hq, hstate, hpt]
  · simp [hq]

theorem kernelTableUsers_le (s : State) : kernelTableUsers s ≤ nproc := by
  have := List.countP_le_length (p := fun p =>
    decide ((s.procs p).state ≠ .free) && decide ((s.procs p).pagetable = s.kernelPagetable)) (l :=
      List.range nproc)
  rwa [List.length_range] at this

/-! ## The whole boot -/

structure Waiting (b : Build) (s : State) (l : List (Nat × Nat)) : Prop where
  placed : ∀ e ∈ l, Placed e.1 e.2
  nodup : (l.map Prod.fst).Nodup
  state : ∀ e ∈ l, (s.procs e.1).state = .free
  slot : ∀ e ∈ l, ∀ pn : Nat, slotOf e.2 ≤ pn * 4096 → pn * 4096 < slotOf e.2 + procSize →
    (s.pageinfo pn).refcount = 0

section
variable {b : Build}

theorem MemInv.process {s : State} {pid program : Nat} {l : List (Nat × Nat)} (h : MemInv b s)
    (hw : Waiting b s ((pid, program) :: l)) :
    ∃ s', processSetup b s pid program = .ok s' ∧ MemInv b s' ∧ Waiting b s' l ∧
      s'.procs = Function.update s.procs pid (setupProc b pid program) := by
  have hpl := hw.placed (pid, program) (by simp)
  have hfree := hw.state (pid, program) (by simp)
  simp only at hpl hfree
  have hlt : pid < nproc := by
    have := hpl.pid_le
    unfold nproc
    omega
  obtain ⟨m, info, hok, hT, has⟩ := processSetup_ok h.tables h.procs.root (h.procs.pid pid hlt) hpl
    (hw.slot (pid, program) (by simp))
  have husers : kernelTableUsers
    (State.setProc { s with mem := m, pageinfo := info } pid (setupProc b pid program)) =
      kernelTableUsers s + 1 :=
        kernelTableUsers_setup hlt hfree (by simp [setupProc]) (by simp [setupProc, h.procs.root])
  have hnd := hw.nodup
  simp only [List.map_cons, List.nodup_cons, List.mem_map, not_exists, not_and] at hnd
  have hother : ∀ e ∈ l, e.1 ≠ pid := fun e he => hnd.1 e he
  refine ⟨_, hok, ⟨hT, ⟨h.procs.root, fun p hp => ?_, fun p hp => ?_, ?_⟩, fun pn hpn => ?_⟩,
    ⟨fun e he => hw.placed e (by simp [he]), hnd.2, fun e he => ?_, fun e he pn h₁ h₂ => ?_⟩, rfl⟩
  · simp only [State.setProc, Function.update_apply]
    split
    · rename_i hpp
      rw [hpp]
      rfl
    · exact h.procs.pid p hp
  · simp only [Alive, State.setProc, Function.update_apply] at hp ⊢
    split
    · rfl
    · rename_i hpp
      rw [if_neg hpp] at hp
      exact h.procs.pagetable p hp
  · have hne : (0 : Nat) ≠ pid := by
      have := hpl.pid_pos
      omega
    simp only [State.setProc, Function.update_apply, if_neg hne]
    exact h.procs.zero
  · rw [husers]
    have hle := kernelTableUsers_le s
    unfold nproc at hle
    refine pageOk_setup h.pages (by omega) (by omega) hpl has (fun p hp => ?_) ?_ hpn
    · simp only [Alive, State.setProc, Function.update_apply] at hp ⊢
      split
      · simp [setupProc]
      · exact hp
    · simp [Alive, State.setProc, setupProc]
  · simp only [State.setProc, Function.update_apply, if_neg (hother e he)]
    exact hw.state e (by simp [he])
  · -- another slot: the pages of this one were not touched
    have hpl' := hw.placed e (by simp [he])
    have hne := hother e he
    have hs := hpl.slot
    have hs' := hpl'.slot
    have hp₁ := hpl.pid_pos
    have hp₂ := hpl'.pid_pos
    have hp₃ := hpl.pid_le
    have hp₄ := hpl'.pid_le
    have hb := table_bounds b (show 0 < 5 by decide)
    have hend := b.end_le
    rw [table_toNat b (by decide)] at hb
    have hout : info pn = retainRoot b s.pageinfo pn := by
      refine has.outside ?_
      unfold procSize procStartAddr at *
      omega
    have hroot : (pn : Int) ≠ rootPage b := by
      unfold rootPage kernelStackTop procStartAddr at *
      omega
    change (info pn).refcount = 0
    rw [hout, retainRoot, Function.update_apply, if_neg hroot]
    exact hw.slot e (by simp [he]) pn h₁ h₂

theorem MemInv.setupAll_ok (l : List (Nat × Nat)) : ∀ {s : State}, MemInv b s → Waiting b s l →
    ∃ s', setupAll b l s = .ok s' ∧ MemInv b s' ∧ (∀ e ∈ l, s'.procs e.1 = setupProc b e.1 e.2) ∧
      ∀ p, p ∉ l.map Prod.fst → s'.procs p = s.procs p := by
  induction l with
  | nil =>
    intro s h _
    exact ⟨s, rfl, h, fun e he => by simp at he, fun _ _ => rfl⟩
  | cons e l ih =>
    intro s h hw
    obtain ⟨pid, program⟩ := e
    have hnd := hw.nodup
    simp only [List.map_cons, List.nodup_cons] at hnd
    obtain ⟨s₁, hok, h₁, hw₁, hprocs⟩ := h.process hw
    obtain ⟨s', hall, h', hset, hframe⟩ := ih h₁ hw₁
    refine ⟨s', ?_, h', fun e he => ?_, fun p hp => ?_⟩
    · rw [setupAll, hok]
      exact hall
    · rcases List.mem_cons.mp he with rfl | he
      · rw [hframe pid hnd.1, hprocs, Function.update_self]
      · exact hset e he
    · simp only [List.map_cons, List.mem_cons, not_or] at hp
      rw [hframe p hp.2, hprocs, Function.update_of_ne hp.1]

theorem memInv_init {s : State} {m : Mem} (hm : Tables b m) :
    MemInv b { pageinfoInit b { s with mem := m, kernelPagetable := b.table 0 } with
        procs := freeProc } := by
  have hinfo : ∀ pn < npages,
    (pageinfoInit b { s with mem := m, kernelPagetable := b.table 0 }).pageinfo (pn : Nat) =
      ⟨initialOwner b (pn * 4096), if initialOwner b (pn * 4096) = poFree then 0 else 1⟩ := by
    intro pn hpn
    simp only [pageinfoInit]
    rw [if_pos ⟨by omega, by exact_mod_cast hpn⟩, Int.toNat_natCast]
  have husers : kernelTableUsers
      { pageinfoInit b { s with mem := m, kernelPagetable := b.table 0 } with
          procs := freeProc } = 0 := by
    simp [kernelTableUsers, freeProc]
  refine ⟨hm, ⟨rfl, fun _ _ => rfl, fun p hp => absurd rfl hp, rfl⟩, fun pn hpn => ?_⟩
  rw [husers]
  refine ⟨fun hk => ?_, fun hr => ?_, fun hf => .inl ?_⟩
  · rw [hinfo pn hpn, hk]
    simp [poKernel, poFree]
  · rw [hinfo pn hpn, hr]
    simp [poReserved, poFree]
  · rw [hinfo pn hpn, hf]
    simp

theorem waiting_init {s : State} {m : Mem} (command : Option String) :
    Waiting b { pageinfoInit b { s with mem := m, kernelPagetable := b.table 0 } with
        procs := freeProc }
      (startup b command) := by
  refine ⟨startup_placed b command, startup_nodup b command, fun _ _ => rfl, fun e _ pn h₁ h₂ => ?_⟩
  have hs := slotOf_bounds e.2
  have hpn : pn < npages := by
    unfold procSize memsizePhysical at *
    unfold npages
    omega
  simp only [pageinfoInit]
  rw [if_pos ⟨by omega, by exact_mod_cast hpn⟩, Int.toNat_natCast,
    initialOwner_slot e.2 (by omega) hpn]
  rfl

theorem run_ok {s : State} (ht : Tables b s.mem) (hp : ProcsOk b s) {p : Nat}
    (hrun : (s.procs p).state = .runnable) :
    run b s p = .ok { s with current := p, control := .user } := by
  unfold run
  rw [check_bind (decide_eq_true hrun)]
  simp only
  rw [bind_of_ok (setPagetable_ok (s := { s with current := p }) ht hp.root
    (hp.pagetable p (by simp [Alive, hrun])))]

/-- What `kernel` leaves, whatever was there before. -/
theorem kernel_ok (b : Build) (command : Option String) (s : State) :
    Inv b (kernel b command s) ∧ (kernel b command s).control = .user ∧
    (kernel b command s).current = 1 ∧
      (∀ e ∈ startup b command, (kernel b command s).procs e.1 = setupProc b e.1 e.2) ∧
      ∀ p, p ∉ (startup b command).map Prod.fst → (kernel b command s).procs p = freeProc p := by
  obtain ⟨m, hinit, hm⟩ := virtualMemoryInit_ok b s
  obtain ⟨s', hall, hS, hset, hframe⟩ :=
    (memInv_init (s := s) hm).setupAll_ok (startup b command) (waiting_init command)
  obtain ⟨program, hone⟩ := startup_one b command
  have hrunnable : (s'.procs 1).state = .runnable := by rw [hset _ hone]; rfl
  have hkernel : kernel b command s = { s' with current := 1, control := .user } := by
    unfold kernel boot
    rw [hinit, ok_bind]
    simp only
    rw [hall, ok_bind, run_ok hS.tables hS.procs hrunnable]
  rw [hkernel]
  exact ⟨⟨⟨hS.tables, ⟨hS.procs.root, hS.procs.pid, hS.procs.pagetable, hS.procs.zero⟩, hS.pages⟩,
    show 1 < nproc by decide, hrunnable⟩, rfl, rfl, hset, hframe⟩

end

end Csc412.Kernel
