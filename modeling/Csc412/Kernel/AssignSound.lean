import Csc412.Kernel.BootSound
import Csc412.Kernel.LoadSound

/-!
# The pages that a boot assigns

`kernel` gives a process the pages of its segments and one stack page, all of them.
Whatever else lies in the slot of a program is free after the boot (`kernel_pages`).
-/

namespace Csc412.Kernel

open Lib

/-- From `info` to `info'` some free pages among `P` were assigned. -/
def Assigns (info info' : Int → PageInfo) (owner : Int) (P : Nat → Prop) : Prop :=
  ∀ pn : Nat, info' pn = info pn ∨ P pn ∧ (info pn).refcount = 0 ∧ info' pn = ⟨owner, 1⟩

section
variable {info info₁ info₂ : Int → PageInfo} {owner : Int} {P Q : Nat → Prop} {pn : Nat}

theorem Assigns.refl : Assigns info info owner P := fun _ => .inl rfl

theorem Assigns.mono (h : Assigns info info₁ owner P) (hPQ : ∀ pn, P pn → Q pn) :
    Assigns info info₁ owner Q :=
  fun pn => (h pn).imp_right fun hp => ⟨hPQ pn hp.1, hp.2⟩

theorem Assigns.trans (h₁ : Assigns info info₁ owner P) (h₂ : Assigns info₁ info₂ owner P) :
    Assigns info info₂ owner P := by
  intro pn
  rcases h₂ pn with h | ⟨hP, hfree, h⟩
  · rw [h]
    exact h₁ pn
  · rcases h₁ pn with h' | ⟨-, -, h'⟩
    · exact .inr ⟨hP, by rw [← h']; exact hfree, h⟩
    · rw [h'] at hfree
      simp at hfree

theorem Assigns.other (h : Assigns info info₁ owner P) (hP : ¬ P pn) : info₁ pn = info pn :=
  (h pn).resolve_right fun hp => hP hp.1

/-- A page in use stays as it is. -/
theorem Assigns.used (h : Assigns info info₁ owner P) (hu : (info pn).refcount ≠ 0) :
    info₁ pn = info pn :=
  (h pn).resolve_right fun hp => hu hp.2.1

end

/-! ## The loader -/

section
variable {s s' : State}

theorem assignPhysicalPage_pages (s : State) {addr : Word} {a : Nat} (owner : Int)
    (h : addr.toNat = a * 4096) :
    Assigns s.pageinfo (assignPhysicalPage s addr owner).2.pageinfo owner (· = a) ∧
      (assignPhysicalPage s addr owner).2.procs = s.procs ∧
      (0 ≤ (assignPhysicalPage s addr owner).1 → (assignPhysicalPage s addr owner).2.pageinfo a =
          ⟨owner, 1⟩) := by
  rw [assignPhysicalPage_eq s owner h]
  by_cases hroom : a < npages ∧ (s.pageinfo a).refcount = 0
  · rw [if_pos hroom]
    refine ⟨fun pn => ?_, rfl, fun _ => Function.update_self ..⟩
    by_cases hpn : pn = a
    · subst hpn
      exact .inr ⟨rfl, hroom.2, Function.update_self ..⟩
    · exact .inl (Function.update_of_ne (by exact_mod_cast hpn) ..)
  · rw [if_neg hroom]
    exact ⟨.refl, rfl, by simp⟩

theorem mapPage_frame {pagetable addr : Word} {r : Int}
    (h : mapPage s pagetable addr = .ok (r, s')) :
    s'.pageinfo = s.pageinfo ∧ s'.procs = s.procs := by
  unfold mapPage at h
  split at h
  · cases h
  · cases h
    exact ⟨rfl, rfl⟩

theorem loadPages_pages (pid : Int) (pagetable : Word) (n : Nat) :
    ∀ {s : State} {addr : Word} {a : Nat} {r : Int},
    addr.toNat = a * 4096 → a + n ≤ npages → loadPages pid pagetable n addr s = .ok (r, s') →
    Assigns s.pageinfo s'.pageinfo (int8 pid) (fun pn => a ≤ pn ∧ pn < a + n) ∧ s'.procs = s.procs ∧
      (0 ≤ r → ∀ pn : Nat, a ≤ pn → pn < a + n → s'.pageinfo pn = ⟨int8 pid, 1⟩) := by
  induction n with
  | zero =>
    intro s addr a r _ _ h
    cases h
    exact ⟨.refl, rfl, fun _ pn h₁ h₂ => by omega⟩
  | succ n ih =>
    intro s addr a r ha hle h
    obtain ⟨hassign, hprocs, hgot⟩ := assignPhysicalPage_pages s (int8 pid) ha
    have hassign' := hassign.mono (Q := fun pn => a ≤ pn ∧ pn < a + (n + 1)) fun pn hpn => by omega
    rw [loadPages] at h
    simp only at h
    split at h
    · cases h
      exact ⟨hassign', hprocs, by simp⟩
    · rename_i hr
      split at h
      · cases h
      · rename_i hmap
        obtain ⟨hinfo, hp⟩ := mapPage_frame hmap
        split at h
        · cases h
          rw [hinfo, hp]
          exact ⟨hassign', hprocs, by simp⟩
        · have hnext : (addr + 4096).toNat = (a + 1) * 4096 := next_page ha (by omega)
          obtain ⟨hrest, hp', hgot'⟩ := ih hnext (by omega) h
          rw [hinfo] at hrest
          have hrest' := hrest.mono (Q := fun pn => a ≤ pn ∧ pn < a + (n + 1)) fun pn hpn => by
            omega
          refine ⟨hassign'.trans hrest', hp'.trans (hp.trans hprocs), fun h0 pn h₁ h₂ => ?_⟩
          by_cases hpn : pn = a
          · have hself := hgot (by omega)
            rw [hpn, hrest.used (by simp [hself]), hself]
          · exact hgot' h0 pn (by omega) (by omega)

theorem programLoadSegment_pages {b : Build} {p : Nat} {ph : Segment} {r : Int} (hin : ph.Inside)
    (h : programLoadSegment b s p ph = .ok (r, s')) :
    Assigns s.pageinfo s'.pageinfo (int8 (s.procs p).pid) (fun pn => ph.first ≤ pn ∧ pn < ph.last) ∧
      s'.procs = s.procs ∧
      (0 ≤ r → ∀ pn : Nat, ph.first ≤ pn → pn < ph.last →
          s'.pageinfo pn = ⟨int8 (s.procs p).pid, 1⟩) := by
  obtain ⟨hlo, hhi, hfs⟩ := hin
  unfold memsizePhysical at hhi
  have hva : (pteAddr ph.va).toNat = ph.first * 4096 := pteAddr_toNat ph.va
  have hmem : (ph.va + ph.memsz).toNat = ph.va.toNat + ph.memsz.toNat := by
    rw [BitVec.toNat_add]
    omega
  have hpages : ((ph.va + ph.memsz).toNat - (pteAddr ph.va).toNat + 4095) / 4096 =
      ph.last - ph.first := by
    rw [hmem, hva]
    unfold Segment.first Segment.last
    omega
  have hle : ph.first ≤ ph.last ∧ ph.last ≤ npages := by
    unfold Segment.first Segment.last npages
    omega
  unfold programLoadSegment at h
  simp only at h
  rw [hpages] at h
  split at h
  · cases h
  · rename_i hload
    obtain ⟨hassign, hprocs, hgot⟩ := loadPages_pages _ _ _ hva (by omega) hload
    rw [Nat.add_sub_of_le hle.1] at hassign hgot
    split at h
    · cases h
      exact ⟨hassign, hprocs, by simp⟩
    · obtain ⟨_, -, h⟩ := bind_eq_ok h
      obtain ⟨m₁, -, h⟩ := bind_eq_ok h
      obtain ⟨m₂, -, h⟩ := bind_eq_ok h
      obtain ⟨_, -, h⟩ := bind_eq_ok h
      cases h
      exact ⟨hassign, hprocs, fun _ => hgot (by omega)⟩

/-- The pages of the loadable segments among `phs`. -/
def Covered (phs : List Segment) (pn : Nat) : Prop :=
  ∃ ph ∈ phs, ph.isLoad ∧ ph.first ≤ pn ∧ pn < ph.last

theorem Covered.cons {ph : Segment} {phs : List Segment} {pn : Nat} (h : Covered phs pn) :
    Covered (ph :: phs) pn := by
  obtain ⟨q, hq, h⟩ := h
  exact ⟨q, by simp [hq], h⟩

theorem loadSegments_pages {b : Build} {p : Nat} (phs : List Segment) : ∀ {s : State} {r : Int},
    (∀ ph ∈ phs, ph.isLoad → ph.Inside) → loadSegments b p phs s = .ok (r, s') →
    Assigns s.pageinfo s'.pageinfo (int8 (s.procs p).pid) (Covered phs) ∧ s'.procs = s.procs ∧
      (0 ≤ r → ∀ pn, Covered phs pn → s'.pageinfo pn = ⟨int8 (s.procs p).pid, 1⟩) := by
  induction phs with
  | nil =>
    intro s r _ h
    cases h
    exact ⟨.refl, rfl, fun _ pn hc => by simp [Covered] at hc⟩
  | cons ph phs ih =>
    intro s r hin h
    have hrest : ∀ q ∈ phs, q.isLoad → q.Inside := fun q hq => hin q (by simp [hq])
    rw [loadSegments] at h
    by_cases hl : ph.isLoad = true
    · rw [if_pos hl] at h
      split at h
      · cases h
      · rename_i hseg
        obtain ⟨hassign, hprocs, hgot⟩ := programLoadSegment_pages (hin ph (by simp) hl) hseg
        have hassign' := hassign.mono (Q := Covered (ph :: phs)) fun pn hpn => ⟨ph, by simp,
          hl, hpn⟩
        split at h
        · cases h
          exact ⟨hassign', hprocs, by simp⟩
        · obtain ⟨hassign₂, hprocs₂, hgot₂⟩ := ih hrest h
          rw [hprocs] at hassign₂ hgot₂
          refine ⟨hassign'.trans (hassign₂.mono fun pn => .cons), hprocs₂.trans hprocs,
            fun h0 pn hc => ?_⟩
          obtain ⟨q, hq, hql, h₁, h₂⟩ := hc
          rcases List.mem_cons.mp hq with rfl | hq
          · have hself := hgot (by omega) pn h₁ h₂
            rw [hassign₂.used (by simp [hself]), hself]
          · exact hgot₂ h0 pn ⟨q, hq, hql, h₁, h₂⟩
    · rw [if_neg hl] at h
      obtain ⟨hassign, hprocs, hgot⟩ := ih hrest h
      refine ⟨hassign.mono fun pn => .cons, hprocs, fun h0 pn hc => hgot h0 pn ?_⟩
      obtain ⟨q, hq, hql, hq'⟩ := hc
      rcases List.mem_cons.mp hq with rfl | hq
      · exact absurd hql hl
      · exact ⟨q, hq, hql, hq'⟩

end

/-! ## A process -/

def Image.covers (im : Image) (pn : Nat) : Prop := Covered im.segments pn

def stackPage (program : Nat) : Nat := slotOf program / 4096 + 63

/-- The pages that setting up a process for `program` takes. -/
def Takes (b : Build) (program pn : Nat) : Prop :=
  (b.images program).covers pn ∨ pn = stackPage program

section
variable {b : Build} {s s' : State} {pid program pn : Nat}

theorem Image.Fits.segment {im : Image} (h : im.Fits (slotOf program)) {ph : Segment}
    (hph : ph ∈ im.segments) (hl : ph.isLoad) : ph.Inside ∧ slotOf program / 4096 ≤ ph.first ∧
    ph.last ≤ stackPage program := by
  obtain ⟨hlo, hhi, hfs⟩ := h.inside ph hph hl
  obtain ⟨hs₁, hs₂, hs₃⟩ := slotOf_bounds program
  unfold procSize at *
  refine ⟨⟨by omega, by omega, hfs⟩, ?_, ?_⟩
  · unfold Segment.first
    omega
  · unfold Segment.last stackPage
    omega

theorem Placed.image (h : Placed pid program) (b : Build) :
    (b.images program).Fits (slotOf program) :=
  b.images_fit program h.program_lt

theorem Image.covers_slot (h : Placed pid program) (hc : (b.images program).covers pn) :
    slotOf program / 4096 ≤ pn ∧ pn < stackPage program := by
  obtain ⟨ph, hph, hl, h₁, h₂⟩ := hc
  have hin := (h.image b).segment hph hl
  omega

theorem rootPage_lt_slot (b : Build) : rootPage b < 256 := by
  have hb := table_bounds b (show 0 < 5 by decide)
  have hend := b.end_le
  rw [table_toNat b (by decide)] at hb
  unfold rootPage kernelStackTop at *
  omega

theorem slot_page (program : Nat) :
    256 ≤ slotOf program / 4096 ∧ slotOf program / 4096 + 64 ≤ npages := by
  have := slotOf_bounds program
  unfold procStartAddr procSize memsizePhysical npages at *
  omega

theorem Takes.slot (h : Placed pid program) (ht : Takes b program pn) :
    slotOf program / 4096 ≤ pn ∧ pn ≤ stackPage program ∧ pn ≠ rootPage b := by
  have h₁ := rootPage_lt_slot b
  have h₂ := slot_page program
  rcases ht with hc | rfl
  · have := Image.covers_slot h hc
    omega
  · unfold stackPage
    omega

theorem retainRoot_other (b : Build) (info : Int → PageInfo) {pn : Nat} (h : pn ≠ rootPage b) :
    retainRoot b info pn = info pn := Function.update_of_ne (by exact_mod_cast h) ..

theorem setupEntry_pageinfo (hroot : s.kernelPagetable = b.table 0) :
    (setupEntry s pid).pageinfo = retainRoot b s.pageinfo := by
  simp only [setupEntry, State.setProc, hroot, retainRoot, pagenumber_table (show 0 < 5 by decide),
    Nat.add_zero]

theorem setupStack_pages (hpl : Placed pid program) (h : setupStack s pid = .ok s') :
    Assigns s.pageinfo s'.pageinfo pid (· = stackPage program) ∧
      ((s.pageinfo (stackPage program)).refcount = 0 → s'.pageinfo (stackPage program) =
          ⟨pid, 1⟩) := by
  have hstack : (stackTop pid - 4096).toNat = stackPage program * 4096 := stackTop_toNat hpl
  have hint8 : int8 pid = pid := int8_of_small (by omega) (by have := hpl.pid_le; omega)
  have hlt : stackPage program < npages := by
    have := slot_page program
    unfold stackPage
    omega
  unfold setupStack at h
  simp only at h
  split at h
  · cases h
  · rename_i hmap
    cases h
    let s₁ := s.setRegisters pid ((s.procs pid).registers.setRsp (stackTop pid))
    obtain ⟨hassign, -, -⟩ := assignPhysicalPage_pages s₁ (int8 pid) hstack
    rw [← (mapPage_frame hmap).1, hint8] at hassign
    refine ⟨hassign, fun hfree => ?_⟩
    refine (congrFun (mapPage_frame hmap).1 _).trans ?_
    have hgrant := assignPhysicalPage_eq s₁ (int8 pid) hstack
    rw [if_pos ⟨hlt, hfree⟩] at hgrant
    rw [hgrant, hint8]
    exact Function.update_self ..

theorem processSetup_pages (hroot : s.kernelPagetable = b.table 0) (hpid : (s.procs pid).pid = pid)
    (hpl : Placed pid program) (h : processSetup b s pid program = .ok s') :
    Assigns (retainRoot b s.pageinfo) s'.pageinfo pid (Takes b program) ∧
      ((s.pageinfo (stackPage program)).refcount = 0 → ∀ pn, Takes b program pn →
          s'.pageinfo pn = ⟨pid, 1⟩) := by
  have hint8 : int8 ((setupEntry s pid).procs pid).pid = pid := by
    simp only [setupEntry, State.setProc, Function.update_self, hpid]
    exact int8_of_small (by omega) (by have := hpl.pid_le; omega)
  obtain ⟨⟨r, s₁⟩, hload, h⟩ := bind_eq_ok h
  obtain ⟨_, hcheck, h⟩ := bind_eq_ok h
  have hr : 0 ≤ r := by
    simp only [check] at hcheck
    split at hcheck
    · rename_i hd
      simpa using hd
    · cases hcheck
  obtain ⟨_, -, hload⟩ := bind_eq_ok hload
  obtain ⟨_, -, hload⟩ := bind_eq_ok hload
  obtain ⟨⟨r₁, s₂⟩, hsegs, hload⟩ := bind_eq_ok hload
  obtain ⟨hassign, -, hgot⟩ :=
    loadSegments_pages _ (fun ph hph hl => ((hpl.image b).segment hph hl).1) hsegs
  rw [hint8, setupEntry_pageinfo hroot] at hassign
  rw [hint8] at hgot
  simp only at hload
  split at hload
  · cases hload
    omega
  · rename_i hr₁
    cases hload
    obtain ⟨hassign₂, hgot₂⟩ := setupStack_pages hpl h
    change Assigns s₂.pageinfo s'.pageinfo _ _ at hassign₂
    refine ⟨(hassign.mono fun pn hc => .inl hc).trans (hassign₂.mono fun pn hs => .inr hs),
      fun hfree pn ht => ?_⟩
    rcases ht with hc | rfl
    · have hself := hgot (by omega) pn hc
      rw [hassign₂.used (by simp [hself]), hself]
    · have hslot := Takes.slot (b := b) hpl (.inr rfl)
      apply hgot₂
      change (s₂.pageinfo _).refcount = 0
      rw [hassign.other fun hc => by have := Image.covers_slot hpl hc; omega,
        retainRoot_other b _ hslot.2.2]
      exact hfree

end

/-! ## The whole boot -/

section
variable {b : Build}

theorem Placed.apart {pid program pid' program' : Nat} (h : Placed pid program)
    (h' : Placed pid' program') (hne : pid ≠ pid') : stackPage program < slotOf program' / 4096 ∨
    stackPage program' < slotOf program / 4096 := by
  have h₁ := h.slot
  have h₂ := h'.slot
  have h₃ := h.pid_pos
  have h₄ := h'.pid_pos
  unfold stackPage procSize procStartAddr at *
  omega

theorem setupAll_other {pn : Nat} (hr : pn ≠ rootPage b) (l : List (Nat × Nat)) :
    ∀ {s s' : State}, MemInv b s →
    Waiting b s l → setupAll b l s = .ok s' → (∀ e ∈ l, ¬ Takes b e.2 pn) →
    s'.pageinfo pn = s.pageinfo pn := by
  induction l with
  | nil =>
    intro s s' _ _ h _
    cases h
    rfl
  | cons e l ih =>
    intro s s' hM hw h hout
    obtain ⟨pid, program⟩ := e
    have hpl : Placed pid program := hw.placed (pid, program) (by simp)
    obtain ⟨s₁, hok, hM₁, hw₁, -⟩ := hM.process hw
    obtain ⟨s₂, hok₂, hrest⟩ := bind_eq_ok h
    rw [hok] at hok₂
    cases hok₂
    have hpid := hM.procs.pid pid (by have := hpl.pid_le; unfold nproc; omega)
    rw [ih hM₁ hw₁ hrest fun e he => hout e (by simp [he]),
      (processSetup_pages hM.procs.root hpid hpl hok).1.other (hout (pid, program) (by simp)),
      retainRoot_other b _ hr]

theorem setupAll_takes (l : List (Nat × Nat)) : ∀ {s s' : State}, MemInv b s → Waiting b s l →
    setupAll b l s = .ok s' → ∀ e ∈ l, ∀ pn, Takes b e.2 pn → s'.pageinfo pn = ⟨e.1, 1⟩ := by
  induction l with
  | nil => simp
  | cons e l ih =>
    intro s s' hM hw h
    obtain ⟨pid, program⟩ := e
    obtain ⟨s₁, hok, hM₁, hw₁, -⟩ := hM.process hw
    obtain ⟨s₂, hok₂, hrest⟩ := bind_eq_ok h
    rw [hok] at hok₂
    cases hok₂
    have hpl : Placed pid program := hw.placed (pid, program) (by simp)
    have hpid := hM.procs.pid pid (by have := hpl.pid_le; unfold nproc; omega)
    intro e he pn ht
    rcases List.mem_cons.mp he with rfl | he
    · have hsb := slotOf_bounds program
      have hfree := hw.slot (pid, program) (by simp) (stackPage program)
        (by simp only; unfold stackPage; omega) (by simp only; unfold stackPage procSize; omega)
      have hslot := ht.slot hpl
      have hnd := hw.nodup
      simp only [List.map_cons, List.nodup_cons, List.mem_map, not_exists, not_and] at hnd
      -- the processes after it have other slots
      rw [setupAll_other hslot.2.2 l hM₁ hw₁ hrest fun e he ht' => ?_]
      · exact (processSetup_pages hM.procs.root hpid hpl hok).2 hfree pn ht
      · have hpl' := hw₁.placed e he
        have hslot' := ht'.slot hpl'
        have hsep := hpl.apart hpl' fun heq => hnd.1 e he heq.symm
        omega
    · exact ih hM₁ hw₁ hrest e he pn ht

theorem setupAll_ticks (l : List (Nat × Nat)) : ∀ {s s' : State}, MemInv b s → Waiting b s l →
    setupAll b l s = .ok s' → s'.ticks = s.ticks := by
  induction l with
  | nil =>
    intro s s' _ _ h
    cases h
    rfl
  | cons e l ih =>
    intro s s' hM hw h
    obtain ⟨pid, program⟩ := e
    have hpl : Placed pid program := hw.placed (pid, program) (by simp)
    have hpid := hM.procs.pid pid (by have := hpl.pid_le; unfold nproc; omega)
    obtain ⟨m, info, hform, -⟩ :=
      processSetup_ok hM.tables hM.procs.root hpid hpl (hw.slot (pid, program) (by simp))
    obtain ⟨s₁, hok, hM₁, hw₁, -⟩ := hM.process hw
    obtain ⟨s₂, hok₂, hrest⟩ := bind_eq_ok h
    rw [hok] at hok₂ hform
    cases hok₂
    rw [ih hM₁ hw₁ hrest]
    cases hform
    rfl

theorem pageinfoInit_eq (s : State) {pn : Nat} (h : pn < npages) : (pageinfoInit b s).pageinfo pn =
    ⟨initialOwner b (pn * 4096), if initialOwner b (pn * 4096) = poFree then 0 else 1⟩ := by
  simp only [pageinfoInit]
  rw [if_pos ⟨by omega, by exact_mod_cast h⟩, Int.toNat_natCast]

/-- A boot sets up the processes one after the other, from fresh `pageinfo[]`. -/
theorem kernel_setup (b : Build) (command : Option String) (s : State) : ∃ s₁ s₂, MemInv b s₁ ∧
    Waiting b s₁ (startup b command) ∧ setupAll b (startup b command) s₁ = .ok s₂ ∧
      (kernel b command s).pageinfo = s₂.pageinfo ∧ (kernel b command s).ticks = s.ticks ∧
      ∀ pn : Nat, pn < npages → s₁.pageinfo pn =
        ⟨initialOwner b (pn * 4096), if initialOwner b (pn * 4096) = poFree then 0 else 1⟩ := by
  obtain ⟨m, hinit, hm⟩ := virtualMemoryInit_ok b s
  have hM := memInv_init (s := s) hm
  have hw := waiting_init (b := b) (s := s) (m := m) command
  obtain ⟨s', hall, hS, hset, hframe⟩ := hM.setupAll_ok (startup b command) hw
  obtain ⟨program, hone⟩ := startup_one b command
  have hrunnable : (s'.procs 1).state = .runnable := by
    rw [hset _ hone]
    rfl
  have hkernel : kernel b command s = { s' with current := 1, control := .user } := by
    unfold kernel boot
    rw [hinit, ok_bind]
    simp only
    rw [hall, ok_bind, run_ok hS.tables hS.procs hrunnable]
  have hticks := setupAll_ticks _ hM hw hall
  refine ⟨_, s', hM, hw, hall, by rw [hkernel], ?_, fun pn hpn => ?_⟩
  · rw [hkernel]
    exact hticks
  have hfresh := pageinfoInit_eq (b := b) { s with mem := m, kernelPagetable := b.table 0 } hpn
  dsimp only
  exact hfresh

/-- After a boot a process owns the pages of its segments and its stack page, and the
other pages of its slot are free. -/
theorem kernel_pages (b : Build) (command : Option String) (s : State) :
    ∀ e ∈ startup b command, ∀ pn : Nat,
    (Takes b e.2 pn → (kernel b command s).pageinfo pn = ⟨e.1, 1⟩) ∧
      (slotOf e.2 / 4096 ≤ pn → pn ≤ stackPage e.2 → ¬ Takes b e.2 pn →
        ((kernel b command s).pageinfo pn).refcount = 0) := by
  obtain ⟨s₁, s₂, hM, hw, hall, hinfo, -, -⟩ := kernel_setup b command s
  rw [hinfo]
  intro e he pn
  refine ⟨fun ht => setupAll_takes _ hM hw hall e he pn ht, fun hlo hhi ht => ?_⟩
  have hpl := hw.placed e he
  have hsb := slotOf_bounds e.2
  have h₁ := rootPage_lt_slot b
  have h₂ := slot_page e.2
  rw [setupAll_other (by omega) _ hM hw hall fun e' he' ht' => ?_]
  · apply hw.slot e he pn
    · omega
    · unfold stackPage procSize at *
      omega
  · have hpl' := hw.placed e' he'
    have hslot' := ht'.slot hpl'
    by_cases hpid : e'.1 = e.1
    · rw [List.inj_on_of_nodup_map (startup_nodup b command) he' he hpid] at ht'
      exact ht ht'
    · have hsep := hpl'.apart hpl hpid
      omega

/-- A process owns no page outside its slot. -/
def Homed (b : Build) (command : Option String) (info : Int → PageInfo) : Prop :=
  ∀ pn : Nat, pn < npages →
    -2 ≤ (info pn).owner ∧ (info pn).owner ≤ 0 ∨
      ∃ e ∈ startup b command, (info pn).owner = e.1 ∧ slotOf e.2 / 4096 ≤ pn ∧
        pn ≤ stackPage e.2

theorem kernel_homed (b : Build) (command : Option String) (s : State) :
    Homed b command (kernel b command s).pageinfo := by
  obtain ⟨s₁, s₂, hM, hw, hall, hinfo, -, hfresh⟩ := kernel_setup b command s
  rw [hinfo]
  intro pn hpn
  by_cases htake : ∃ e ∈ startup b command, Takes b e.2 pn
  · obtain ⟨e, he, ht⟩ := htake
    have hslot := ht.slot (hw.placed e he)
    refine .inr ⟨e, he, ?_, hslot.1, hslot.2.1⟩
    rw [setupAll_takes _ hM hw hall e he pn ht]
  · by_cases hr : pn = rootPage b
    · have hkernel := (kernel_ok b command s).1.pages pn hpn
      have howner : initialOwner b (pn * 4096) = poKernel := by
        rw [hr]
        exact initialOwner_table (k := 0) (by decide)
      rw [← hinfo, hkernel.kernel howner]
      exact .inl ⟨by simp [poKernel], by simp [poKernel]⟩
    · rw [setupAll_other hr _ hM hw hall fun e he ht => htake ⟨e, he, ht⟩, hfresh pn hpn]
      rcases initialOwner_cases b (pn * 4096) with ho | ho | ho
      · exact .inl (by simp [ho, poKernel])
      · exact .inl (by simp [ho, poReserved])
      · exact .inl (by simp [ho, poFree])

end

end Csc412.Kernel
