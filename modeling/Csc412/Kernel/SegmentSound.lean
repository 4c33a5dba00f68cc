import Mathlib.Data.Set.BooleanAlgebra
import Mathlib.Order.CompletePartialOrder
import Csc412.Kernel.LoadSound
import Csc412.Kernel.ExceptionSound

/-!
# A loaded segment

`program_load_segment` does what its comment says exactly if the segment starts a page.
Otherwise it copies from the rounded address on, and so more bytes than the file has for
the segment.
-/

namespace Csc412.Kernel

open Lib

/-! ## The kernel's tables stay usable -/

theorem setPagetable_iff (b : Build) (s : State) (pt : Word) : setPagetable b s pt = .ok () ↔
    pageoffset pt = 0 ∧
    (virtualMemoryLookup s.mem pt (BitVec.ofNat 64 b.defaultIntHandler)).pa =
      BitVec.ofNat 64 b.defaultIntHandler ∧
    (virtualMemoryLookup s.mem s.kernelPagetable pt).pa = pt ∧
    (virtualMemoryLookup s.mem pt s.kernelPagetable).pa = s.kernelPagetable ∧
    (virtualMemoryLookup s.mem pt (BitVec.ofNat 64 b.virtualMemoryMap)).pa =
        BitVec.ofNat 64 b.virtualMemoryMap := by
  unfold setPagetable
  constructor
  · intro h
    obtain ⟨h₁, h⟩ := check_ok h
    obtain ⟨h₂, h⟩ := check_ok h
    obtain ⟨h₃, h⟩ := check_ok h
    obtain ⟨h₄, h⟩ := check_ok h
    have h₅ : ((virtualMemoryLookup s.mem pt (BitVec.ofNat 64 b.virtualMemoryMap)).pa ==
        BitVec.ofNat 64 b.virtualMemoryMap) = true := by
      by_contra hne
      rw [check, if_neg hne] at h
      cases h
    exact ⟨beq_iff_eq.mp h₁, beq_iff_eq.mp h₂, beq_iff_eq.mp h₃, beq_iff_eq.mp h₄, beq_iff_eq.mp h₅⟩
  · rintro ⟨h₁, h₂, h₃, h₄, h₅⟩
    simp only
    rw [check_bind (beq_iff_eq.mpr h₁), check_bind (beq_iff_eq.mpr h₂),
      check_bind (beq_iff_eq.mpr h₃), check_bind (beq_iff_eq.mpr h₄)]
    exact check_true (beq_iff_eq.mpr h₅) _

/-- What was its own physical address still is. -/
def Keeps (m m' : Mem) (root : Word) : Prop :=
  ∀ x : Word, x.toNat < memsizePhysical → (virtualMemoryLookup m root x).pa = x →
    (virtualMemoryLookup m' root x).pa = x

theorem Keeps.trans {m₁ m₂ m₃ : Mem} {root : Word} (h₁ : Keeps m₁ m₂ root) (h₂ : Keeps m₂ m₃ root) :
    Keeps m₁ m₃ root :=
  fun x hx h => h₂ x hx (h₁ x hx h)

theorem keeps_of_same {m m' : Mem} {root : Word} (h : ∀ pt ∈ tables m root, m' pt = m pt) :
    Keeps m m' root := by
  intro x _ hpa
  rw [lookup_congr h]
  exact hpa

theorem setPagetable_keeps {b : Build} {s s' : State} {pt : Word} (h : setPagetable b s pt = .ok ())
    (hk : s'.kernelPagetable = s.kernelPagetable) (hpt : pt.toNat < memsizePhysical)
    (hkpt : s.kernelPagetable.toNat < memsizePhysical) (h₁ : Keeps s.mem s'.mem pt)
    (h₂ : Keeps s.mem s'.mem s.kernelPagetable) : setPagetable b s' pt = .ok () := by
  have hsmall : ∀ a, a < b.endAddr → (BitVec.ofNat 64 a).toNat < memsizePhysical := by
    intro a ha
    have := b.lt_memsize ha
    rw [BitVec.toNat_ofNat]
    exact Nat.lt_of_le_of_lt (Nat.mod_le _ _) this
  rw [setPagetable_iff] at h ⊢
  obtain ⟨hoff, hhandler, hself, hkernel, hmap⟩ := h
  rw [hk]
  exact ⟨hoff, h₁ _ (hsmall _ b.handler_mem.2) hhandler, h₂ _ hpt hself, h₁ _ hkpt hkernel,
    h₁ _ (hsmall _ b.map_mem.2) hmap⟩

/-! ## Loaded pages -/

section
variable {s s' : State} {root : Word} {owner : Int} {a n : Nat}
    (h : PagesLoaded s s' root owner a n)
include h

theorem PagesLoaded.lookup_inside {v : Word} (hlo : a ≤ v.toNat / 4096)
    (hhi : v.toNat / 4096 < a + n) :
    virtualMemoryLookup s'.mem root v = ⟨(v.toNat / 4096 : Nat), v, ptePWU⟩ := by
  have hlt := (h.room _ hlo hhi).below
  unfold npages at hlt
  have hentry : pageEntry s'.mem root v = pageEntryOf ⟨v.toNat / 4096, hlt⟩ := by
    rw [h.entry v (by omega), if_pos ⟨hlo, hhi⟩, pageEntryOf]
  rw [lookup_eq h.wf, hentry, mappingOf_page (.inl rfl) (by simp only; omega),
    kernelMapping_of_lt (by unfold memsizePhysical; omega)]

theorem PagesLoaded.keeps (hwf : WellFormed s.mem root) : Keeps s.mem s'.mem root := by
  intro x hx hpa
  unfold memsizePhysical at hx
  by_cases hin : a ≤ x.toNat / 4096 ∧ x.toNat / 4096 < a + n
  · rw [h.lookup_inside hin.1 hin.2]
  · rw [lookup_eq h.wf, h.entry x (by omega), if_neg hin, ← lookup_eq hwf]
    exact hpa

end

/-! ## Process and segment -/

/-- The kernel can run under its own page table and the process's, and the pages of both
are in use. Two page tables have no page in common. -/
structure Loader (b : Build) (s : State) (p : Nat) : Prop where
  slot : p < nproc
  pid : (s.procs p).pid = p
  wf : WellFormed s.mem (s.procs p).pagetable
  apart : (s.procs p).pagetable = s.kernelPagetable ∨
    Disjoint (tables s.mem (s.procs p).pagetable) (tables s.mem s.kernelPagetable)
  held : ∀ pt ∈ tables s.mem (s.procs p).pagetable ∪ tables s.mem s.kernelPagetable,
    pt.toNat < memsizePhysical ∧ (s.pageinfo (pagenumber pt)).refcount ≠ 0
  runs : setPagetable b s (s.procs p).pagetable = .ok ()
  kernelRuns : setPagetable b s s.kernelPagetable = .ok ()

def Segment.Overlaps (ph : Segment) (k : Nat) : Prop :=
  ∃ i < ph.memsz.toNat, (ph.va.toNat + i) / 4096 = k

/-- The segment's pages are free, in physical memory and mappable. -/
structure Segment.Ready (ph : Segment) (s : State) (root : Word) : Prop where
  filesz_le : ph.filesz.toNat ≤ ph.memsz.toNat
  nowrap : ph.va.toNat + ph.memsz.toNat < 2 ^ 64
  room : ∀ k, ph.Overlaps k → Room s root k

def loadByte (m : Mem) (root va : Word) : BitVec 8 := m.getByte (virtualMemoryLookup m root va).pa

/-- What the segment looks like once it is loaded. -/
structure SegmentLoaded (s : State) (p : Nat) (ph : Segment) : Prop where
  data : ∀ i < ph.filesz.toNat, loadByte s.mem (s.procs p).pagetable (ph.va + BitVec.ofNat 64 i) =
    ph.data i
  zero : ∀ i, ph.filesz.toNat ≤ i → i < ph.memsz.toNat →
    loadByte s.mem (s.procs p).pagetable (ph.va + BitVec.ofNat 64 i) = 0
  owned : ∀ k : Nat, ph.Overlaps k → s.pageinfo k = ⟨p, 1⟩
  mapped : ∀ v : Word, ph.Overlaps (v.toNat / 4096) →
    virtualMemoryLookup s.mem (s.procs p).pagetable v =
      ⟨(v.toNat / 4096 : Nat), v, pteP ||| pteW ||| pteU⟩

/-- The segment is loaded, and nothing of the image beyond the `p_filesz` bytes matters. -/
def MeetsLoad (b : Build) (s : State) (p : Nat) (ph : Segment) : Prop :=
  ∃ s', programLoadSegment b s p ph = .ok (0, s') ∧ SegmentLoaded s' p ph ∧
    ∀ data, (∀ i < ph.filesz.toNat, data i = ph.data i) →
      programLoadSegment b s p { ph with data := data } = .ok (0, s')

def Segment.offset (ph : Segment) : Nat := ph.va.toNat % 4096

/-- The number of pages that the loop allocates. -/
def Segment.pages (ph : Segment) : Nat := (ph.offset + ph.memsz.toNat + 4095) / 4096

section
variable {b : Build} {s : State} {p : Nat} {ph : Segment} (hl : Loader b s p)
  (hfs : ph.filesz.toNat ≤ ph.memsz.toNat) (hwrap : ph.va.toNat + ph.memsz.toNat < 2 ^ 64)

theorem Segment.first_toNat (ph : Segment) : (pteAddr ph.va).toNat = ph.first * 4096 :=
  pteAddr_toNat ph.va

theorem Segment.va_toNat (ph : Segment) : ph.va.toNat = ph.first * 4096 + ph.offset := by
  unfold Segment.first Segment.offset
  omega

include hwrap

theorem Segment.endMem_toNat :
    (ph.va + ph.memsz).toNat = ph.first * 4096 + ph.offset + ph.memsz.toNat := by
  rw [BitVec.toNat_add, ← ph.va_toNat]
  omega

theorem Segment.pages_eq :
    ((ph.va + ph.memsz).toNat - (pteAddr ph.va).toNat + 4095) / 4096 = ph.pages := by
  rw [Segment.endMem_toNat hwrap, ph.first_toNat, Segment.pages]
  congr 2
  omega

include hfs

theorem Segment.endFile_toNat :
    (ph.va + ph.filesz).toNat = ph.first * 4096 + ph.offset + ph.filesz.toNat := by
  rw [BitVec.toNat_add, ← ph.va_toNat]
  omega

theorem Segment.copied_toNat :
    (ph.va + ph.filesz - pteAddr ph.va).toNat = ph.offset + ph.filesz.toNat := by
  have hend := Segment.endFile_toNat hfs hwrap
  rw [BitVec.toNat_sub_of_le (by rw [BitVec.le_def, ph.first_toNat, hend]; omega), hend,
    ph.first_toNat]
  omega

theorem Segment.cleared_toNat :
    (ph.va + ph.memsz - (ph.va + ph.filesz)).toNat = ph.memsz.toNat - ph.filesz.toNat := by
  have hfile := Segment.endFile_toNat hfs hwrap
  have hmem := Segment.endMem_toNat hwrap
  rw [BitVec.toNat_sub_of_le (by rw [BitVec.le_def, hfile, hmem]; omega), hfile, hmem]
  omega

end

def Segment.InPages (ph : Segment) (v : Word) : Prop :=
  ph.first ≤ v.toNat / 4096 ∧ v.toNat / 4096 < ph.first + ph.pages

/-- The bytes of the image lie from the rounded address on, and zeros after them. -/
structure Copied (m m' : Mem) (ph : Segment) : Prop where
  data : ∀ v, Within (ph.first * 4096) (ph.offset + ph.filesz.toNat) v →
    m'.getByte v = ph.data (v.toNat - ph.first * 4096)
  zero : ∀ v, Within (ph.first * 4096 + ph.offset + ph.filesz.toNat)
    (ph.memsz.toNat - ph.filesz.toNat) v → m'.getByte v = 0
  other : ∀ pt, (∀ v, ph.InPages v → pteAddr v ≠ pt) → m' pt = m pt

section
variable {b : Build} {s s₁ : State} {p : Nat} {ph : Segment}
    (hfs : ph.filesz.toNat ≤ ph.memsz.toNat)
  (hwrap : ph.va.toNat + ph.memsz.toNat < 2 ^ 64)
include hfs hwrap

theorem copy_ok {m : Mem} {root : Word} (hw : ∀ v, ph.InPages v → Writable m root v) :
    ∃ m₁ m', storeBytes root ph.data (ph.va + ph.filesz - pteAddr ph.va).toNat 0 (pteAddr ph.va) m =
      .ok m₁ ∧
      storeBytes root (fun _ => 0) (ph.va + ph.memsz - (ph.va + ph.filesz)).toNat 0
        (ph.va + ph.filesz) m₁ = .ok m' ∧
      Copied m m' ph := by
  have hfirst := ph.first_toNat
  have hend := Segment.endFile_toNat hfs hwrap
  have hva := ph.va_toNat
  have hoff : ph.offset < 4096 := Nat.mod_lt _ (by decide)
  have hpages : ph.offset + ph.memsz.toNat ≤ ph.pages * 4096 := by unfold Segment.pages; omega
  have hin₁ : ∀ v, Within (ph.first * 4096) (ph.offset + ph.filesz.toNat) v → ph.InPages v := by
    intro v ⟨hlo, hhi⟩
    unfold Segment.InPages
    omega
  have hin₂ : ∀ v, Within (ph.first * 4096 + ph.offset + ph.filesz.toNat)
    (ph.memsz.toNat - ph.filesz.toNat) v →
      ph.InPages v := by
    intro v ⟨hlo, hhi⟩
    unfold Segment.InPages
    omega
  obtain ⟨m₁, hm₁, hst₁⟩ :=
    storeBytes_stored root ph.data (ph.offset + ph.filesz.toNat) 0 (pteAddr ph.va) m
    (by omega) (by rw [hfirst]; exact fun v hv => hw v (hin₁ v hv))
  rw [hfirst] at hst₁
  have hsame : ∀ pt ∈ tables m root, m₁ pt = m pt := by
    intro pt hpt
    apply hst₁.other
    intro v hv he
    rw [← he] at hpt
    exact (hw v (hin₁ v hv)).beside hpt
  obtain ⟨m', hm', hst₂⟩ := storeBytes_stored root (fun _ => 0) (ph.memsz.toNat - ph.filesz.toNat) 0
    (ph.va + ph.filesz) m₁ (by omega)
      (by rw [hend]; exact fun v hv => (hw v (hin₂ v hv)).congr hsame)
  rw [hend] at hst₂
  refine ⟨m₁, m', ?_, ?_, fun v hv => ?_, fun v hv => ?_, fun pt hpt => ?_⟩
  · rw [Segment.copied_toNat hfs hwrap]
    exact hm₁
  · rw [Segment.cleared_toNat hfs hwrap]
    exact hm'
  · rw [hst₂.bytes, if_neg, hst₁.bytes, if_pos hv, Nat.zero_add]
    unfold Within at hv ⊢
    omega
  · rw [hst₂.bytes, if_pos hv]
  · rw [hst₂.other pt fun v hv => hpt v (hin₂ v hv), hst₁.other pt fun v hv => hpt v (hin₁ v hv)]

variable (hl : Loader b s p)
    (hp : PagesLoaded s s₁ (s.procs p).pagetable (int8 p) ph.first ph.pages)
include hl hp

omit hfs hwrap in
theorem Loader.beside {pt : Word}
    (hpt : pt ∈ tables s.mem (s.procs p).pagetable ∪ tables s.mem s.kernelPagetable) {v : Word}
    (hv : ph.InPages v) : pteAddr v ≠ pt := by
  intro he
  have hroom := hp.room _ hv.1 hv.2
  have hpage : pagenumber (pteAddr v) = (v.toNat / 4096 : Nat) :=
    pagenumber_page (pteAddr_toNat v) hroom.below
  have hheld := (hl.held pt hpt).2
  rw [← he, hpage] at hheld
  exact hheld hroom.free

omit hfs hwrap in
theorem Loader.writable {v : Word} (hv : ph.InPages v) :
    Writable s₁.mem (s.procs p).pagetable v := by
  have hlookup := hp.lookup_inside hv.1 hv.2
  constructor
  · rw [hlookup]
  · rw [hlookup]
    exact show ptePWU &&& pteW ≠ 0 by decide
  · rw [hp.tables]
    intro hmem
    exact hl.beside hp (.inl hmem) hv rfl

omit hfs hwrap in
theorem Loader.keeps :
    Keeps s.mem s₁.mem (s.procs p).pagetable ∧ Keeps s.mem s₁.mem s.kernelPagetable := by
  have hroot := hp.keeps hl.wf
  refine ⟨hroot, ?_⟩
  rcases hl.apart with heq | hdis
  · rw [← heq]
    exact hroot
  · apply keeps_of_same
    intro pt hpt
    exact hp.beside pt fun h => Set.disjoint_left.mp hdis h hpt

theorem Loader.copies
    (hload : loadPages p (s.procs p).pagetable ph.pages (pteAddr ph.va) s = .ok (0, s₁)) :
    ∃ m', programLoadSegment b s p ph = .ok (0, { s₁ with mem := m' }) ∧ Copied s₁.mem m' ph := by
  obtain ⟨hkeep, hkeepK⟩ := hl.keeps hp
  obtain ⟨m₁, m', hm₁, hm', hcopied⟩ := copy_ok hfs hwrap fun v hv => hl.writable hp hv
  have hroot : (s.procs p).pagetable.toNat < memsizePhysical :=
    (hl.held _ (.inl ⟨[], by simp, rfl⟩)).1
  have hkernel : s.kernelPagetable.toNat < memsizePhysical :=
    (hl.held _ (.inr ⟨[], by simp, rfl⟩)).1
  have hkpt : s₁.kernelPagetable = s.kernelPagetable := by rw [hp.frame]
  have hset : setPagetable b s₁ (s.procs p).pagetable = .ok () :=
    setPagetable_keeps hl.runs hkpt hroot hkernel hkeep hkeepK
  have htables : tables s₁.mem s.kernelPagetable = tables s.mem s.kernelPagetable := by
    rcases hl.apart with heq | hdis
    · rw [← heq]
      exact hp.tables
    · exact tables_congr fun pt hpt => hp.beside pt fun h => Set.disjoint_left.mp hdis h hpt
  have hcopyK : Keeps s₁.mem m' s.kernelPagetable := by
    apply keeps_of_same
    intro pt hpt
    rw [htables] at hpt
    exact hcopied.other pt fun v hv => hl.beside hp (.inr hpt) hv
  have hback : ∀ k, k = s.kernelPagetable → setPagetable b { s₁ with mem := m' } k = .ok () := by
    intro k hk
    rw [hk]
    have hkpt' : ({ s₁ with mem := m' } : State).kernelPagetable = s.kernelPagetable := hkpt
    exact setPagetable_keeps hl.kernelRuns hkpt' hkernel hkernel (hkeepK.trans hcopyK)
      (hkeepK.trans hcopyK)
  refine ⟨m', ?_, hcopied⟩
  unfold programLoadSegment
  simp only
  rw [hl.pid, Segment.pages_eq hwrap, hload]
  simp only
  rw [if_neg (by decide), bind_of_ok hset, hm₁, ok_bind, hm', ok_bind,
    bind_of_ok (hback _ hkpt)]

end

/-! ## The whole call -/

theorem storeBytes_congr {root : Word} {f g : Nat → BitVec 8} (n : Nat) :
    ∀ (k : Nat) (va : Word) (m : Mem),
    (∀ j < n, f (k + j) = g (k + j)) → storeBytes root f n k va m = storeBytes root g n k va m := by
  induction n with
  | zero =>
    intro k va m _
    rfl
  | succ n ih =>
    intro k va m h
    rw [storeBytes, storeBytes, show f k = g k from h 0 (by omega)]
    congr 1
    funext m₁
    apply ih
    intro j hj
    have := h (j + 1) (by omega)
    rwa [Nat.add_comm j 1, ← Nat.add_assoc] at this

section
variable {b : Build} {s : State} {p : Nat} {ph : Segment}

theorem programLoadSegment_congr {data : Nat → BitVec 8}
    (h : ∀ j < (ph.va + ph.filesz - pteAddr ph.va).toNat, data j = ph.data j) :
    programLoadSegment b s p { ph with data := data } = programLoadSegment b s p ph := by
  have hcopy : ∀ m, storeBytes (s.procs p).pagetable data (ph.va + ph.filesz - pteAddr ph.va).toNat
    0 (pteAddr ph.va) m =
      storeBytes (s.procs p).pagetable ph.data (ph.va + ph.filesz - pteAddr ph.va).toNat 0
          (pteAddr ph.va) m := by
    intro m
    apply storeBytes_congr
    intro j hj
    rw [Nat.zero_add]
    exact h j hj
  unfold programLoadSegment
  simp only [hcopy]

variable (hl : Loader b s p) (hfs : ph.filesz.toNat ≤ ph.memsz.toNat)
    (hwrap : ph.va.toNat + ph.memsz.toNat < 2 ^ 64)
include hl hfs hwrap

theorem programLoadSegment_spec :
    (∃ s', programLoadSegment b s p ph = .ok (-1, s') ∧ ∃ k, ph.first ≤ k ∧
      k < ph.first + ph.pages ∧
      ¬ Room s (s.procs p).pagetable k) ∨
    ∃ s₁ m', programLoadSegment b s p ph = .ok (0, { s₁ with mem := m' }) ∧
      PagesLoaded s s₁ (s.procs p).pagetable (int8 p) ph.first ph.pages ∧ Copied s₁.mem m' ph := by
  have hroot : (s.procs p).pagetable.toNat % 4096 = 0 := by
    rw [← pageoffset_toNat, ((setPagetable_iff b s _).mp hl.runs).1]
    rfl
  obtain ⟨r, s₁, hload, hcase⟩ := loadPages_spec hroot p ph.pages hl.wf ph.first_toNat
  rcases hcase with ⟨rfl, hp⟩ | ⟨rfl, hk⟩
  · obtain ⟨m', hres, hcopied⟩ := hl.copies hfs hwrap hp hload
    exact .inr ⟨s₁, m', hres, hp, hcopied⟩
  · refine .inl ⟨s₁, ?_, hk⟩
    unfold programLoadSegment
    simp only
    rw [hl.pid, Segment.pages_eq hwrap, hload]
    simp only
    rw [if_pos (by decide)]

/-- A segment that does not start a page takes more bytes than it has. -/
theorem overread (hoff : ph.offset ≠ 0) : ¬ MeetsLoad b s p ph := by
  intro ⟨s', hres, _, hread⟩
  have hlast : ph.offset + ph.filesz.toNat - 1 < ph.offset + ph.filesz.toNat := by omega
  have hva := ph.va_toNat
  have hv : (BitVec.ofNat 64 (ph.first * 4096 + (ph.offset + ph.filesz.toNat - 1))).toNat =
      ph.first * 4096 + (ph.offset + ph.filesz.toNat - 1) := by
    rw [BitVec.toNat_ofNat]
    omega
  -- the byte at the end of the copy
  have hbyte : ∀ data, programLoadSegment b s p { ph with data := data } = .ok (0, s') →
      s'.mem.getByte (BitVec.ofNat 64 (ph.first * 4096 + (ph.offset + ph.filesz.toNat - 1))) =
        data (ph.offset + ph.filesz.toNat - 1) := by
    intro data hdata
    have hfs' : ({ ph with data := data } : Segment).filesz.toNat ≤
      ({ ph with data := data } : Segment).memsz.toNat := hfs
    rcases programLoadSegment_spec hl hfs' hwrap with ⟨s'', hfail, -⟩ | ⟨s₁, m', hok, -, hcopied⟩
    · rw [hdata] at hfail
      cases hfail
    · rw [hdata] at hok
      cases hok
      have hcopy := hcopied.data
        (BitVec.ofNat 64 (ph.first * 4096 + (ph.offset + ph.filesz.toNat - 1)))
      have hin : Within (ph.first * 4096) (ph.offset + ph.filesz.toNat)
          (BitVec.ofNat 64 (ph.first * 4096 + (ph.offset + ph.filesz.toNat - 1))) := by
        unfold Within
        omega
      have hj := hcopy hin
      rw [hv] at hj
      rw [hj]
      change data (_ - ph.first * 4096) = _
      congr 1
      omega
  have hchanged := hread (Function.update ph.data (ph.offset + ph.filesz.toNat - 1)
    (ph.data (ph.offset + ph.filesz.toNat - 1) + 1)) (by
      intro i hi
      rw [Function.update_of_ne (by omega)])
  have h₁ := hbyte ph.data hres
  have h₂ := hbyte _ hchanged
  rw [h₁, Function.update_self] at h₂
  simp at h₂

omit hfs hwrap in
theorem segmentLoaded_of_copied {s₁ : State} {m' : Mem} (hready : ph.Ready s (s.procs p).pagetable)
    (hoff : ph.offset = 0) (hp : PagesLoaded s s₁ (s.procs p).pagetable (int8 p) ph.first ph.pages)
    (hcopied : Copied s₁.mem m' ph) :
    SegmentLoaded { s₁ with mem := m' } p ph := by
  have hva := ph.va_toNat
  have hfs := hready.filesz_le
  have hwrap := hready.nowrap
  have hprocs : (s₁.procs p).pagetable = (s.procs p).pagetable := by rw [hp.frame]
  have howner : int8 p = p :=
    int8_of_small (by omega) (by have := hl.slot; unfold nproc at this; omega)
  have hin : ∀ v, ph.Overlaps (v.toNat / 4096) → ph.InPages v := by
    intro v ⟨i, hi, hk⟩
    unfold Segment.InPages Segment.pages
    omega
  have hsame : ∀ pt ∈ tables s₁.mem (s.procs p).pagetable, m' pt = s₁.mem pt := by
    intro pt hpt
    rw [hp.tables] at hpt
    exact hcopied.other pt fun v hv => hl.beside hp (.inl hpt) hv
  have hlookup : ∀ v, ph.InPages v → virtualMemoryLookup m' (s.procs p).pagetable v =
      ⟨(v.toNat / 4096 : Nat), v, ptePWU⟩ := by
    intro v hv
    rw [lookup_congr hsame]
    exact hp.lookup_inside hv.1 hv.2
  have hbyte : ∀ i < ph.memsz.toNat, loadByte m' (s.procs p).pagetable (ph.va + BitVec.ofNat 64 i) =
      m'.getByte (ph.va + BitVec.ofNat 64 i) ∧ (ph.va + BitVec.ofNat 64 i).toNat =
          ph.va.toNat + i := by
    intro i hi
    have hsum : (ph.va + BitVec.ofNat 64 i).toNat = ph.va.toNat + i := by
      rw [BitVec.toNat_add, BitVec.toNat_ofNat]
      omega
    refine ⟨?_, hsum⟩
    rw [loadByte, hlookup _ (hin _ ⟨i, hi, by rw [hsum]⟩)]
  constructor
  · intro i hi
    obtain ⟨heq, hsum⟩ := hbyte i (by omega)
    simp only [hprocs]
    rw [heq, hcopied.data _ (by unfold Within; omega), hsum]
    congr 1
    omega
  · intro i hlo hhi
    obtain ⟨heq, hsum⟩ := hbyte i hhi
    simp only [hprocs]
    rw [heq, hcopied.zero _ (by unfold Within; omega)]
  · intro k hk
    have hpage : ph.first ≤ k ∧ k < ph.first + ph.pages := by
      obtain ⟨i, hi, hk⟩ := hk
      unfold Segment.pages
      omega
    rw [hp.info k, if_pos (by omega), howner]
  · intro v hv
    simp only [hprocs]
    exact hlookup v (hin v hv)

omit hfs hwrap in
/-- The exact condition: the segment starts a page. -/
theorem load_segment_iff (hready : ph.Ready s (s.procs p).pagetable) :
    MeetsLoad b s p ph ↔ ph.va.toNat % 4096 = 0 := by
  have hfs := hready.filesz_le
  have hwrap := hready.nowrap
  have hva := ph.va_toNat
  constructor
  · intro h
    by_contra hoff
    exact overread hl hfs hwrap hoff h
  · intro hoff
    replace hoff : ph.offset = 0 := hoff
    rcases programLoadSegment_spec hl hfs hwrap with ⟨s', -, k, hlo, hhi, hk⟩ |
      ⟨s₁, m', hok, hp, hcopied⟩
    · -- every page the loop asks for overlaps the segment
      have hover : ph.Overlaps k := by
        unfold Segment.pages at hhi
        exact ⟨k * 4096 - ph.va.toNat, by omega, by omega⟩
      exact absurd (hready.room k hover) hk
    · refine ⟨_, hok, segmentLoaded_of_copied hl hready hoff hp hcopied, fun data hdata => ?_⟩
      rw [programLoadSegment_congr, hok]
      intro j hj
      rw [Segment.copied_toNat hfs hwrap] at hj
      exact hdata j (by omega)

end

/-! ## The kernel's own page table -/

section
variable {b : Build} {s : State} {p : Nat}

theorem Tables.pageTable (h : Tables b s.mem) {k : Nat} (hk : k < npages) :
    pageTable s.mem (b.table 0) k = b.table 3 := by
  unfold npages at hk
  have hpage : (BitVec.ofNat 64 (k * 4096)).toNat < memsizePhysical := by
    rw [BitVec.toNat_ofNat]
    unfold memsizePhysical
    omega
  have h₁ : lookupL4pagetable (b.table 0) (BitVec.ofNat 64 (k * 4096)) permPWU
    (none : Option (Unit → Word × Unit)) s.mem
      () = .ok (b.table 3, s.mem, ()) := h.upper.lookupL4 hpage permPWU
  have h₂ : lookupL4pagetable (b.table 0) (BitVec.ofNat 64 (k * 4096)) permPWU
    (none : Option (Unit → Word × Unit)) s.mem () =
      .ok (Kernel.pageTable s.mem (b.table 0) k, s.mem, ()) :=
        lookupLevels_silent rfl h.upper.wellFormed 3 [] _ rfl rfl
  rw [h₂] at h₁
  simpa using h₁

theorem Tables.room (h : Tables b s.mem) {k : Nat} (hk : k < npages)
    (hfree : (s.pageinfo k).refcount = 0) :
    Room s (b.table 0) k := by
  refine ⟨hk, hfree, ?_⟩
  rw [h.pageTable hk]
  exact table_ne_zero b (by decide)

theorem Loading.loader (h : Loading b s p) (hp : p < nproc)
    (hheld : ∀ k < 5, (s.pageinfo (pagenumber (b.table k))).refcount ≠ 0) : Loader b s p := by
  refine ⟨hp, h.pid, ?_, .inl (h.pagetable.trans h.root.symm), ?_, ?_, ?_⟩
  · rw [h.pagetable]
    exact h.tables.upper.wellFormed
  · rw [h.pagetable, h.root, Set.union_self]
    intro pt ⟨q, hq, hw⟩
    obtain ⟨k, hk, rfl⟩ : ∃ k < 5, pt = b.table k := by
      rcases h.tables.upper.walk_cases hq hw with ⟨-, e⟩ | ⟨-, e⟩ | ⟨-, e⟩ | ⟨-, e⟩ | ⟨-, e⟩
      · exact ⟨0, by decide, e⟩
      · exact ⟨1, by decide, e⟩
      · exact ⟨2, by decide, e⟩
      · exact ⟨3, by decide, e⟩
      · exact ⟨4, by decide, e⟩
    exact ⟨table_lt b hk, hheld k hk⟩
  · exact setPagetable_ok h.tables h.root h.pagetable
  · exact setPagetable_ok h.tables h.root h.root

end

/-! ## An example -/

def loadMem (b : Build) : Mem := fun pt i =>
  if pt = b.table 3 then pageEntryOf i
  else if pt = b.table 0 then upperEntry b 0 i
  else if pt = b.table 1 then upperEntry b 1 i
  else if pt = b.table 2 then upperEntry b 2 i
  else 0

/-- The kernel's tables stand and no program is loaded yet. -/
def loadState (b : Build) : State :=
  { pageinfoInit b { blank with mem := loadMem b, kernelPagetable := b.table 0 } with
    procs := fun p => ⟨p, .zero, .free, b.table 0⟩ }

theorem loadState_pageinfo (b : Build) {k : Nat} (hk : k < npages) :
    (loadState b).pageinfo k = ⟨initialOwner b (k * 4096), if initialOwner b (k * 4096) = poFree
        then 0 else 1⟩ := by
  unfold loadState pageinfoInit
  simp only
  rw [if_pos ⟨by omega, by exact_mod_cast hk⟩, Int.toNat_natCast]

theorem loadMem_tables (b : Build) : Tables b (loadMem b) := by
  have hne : ∀ {j k : Nat}, j < 5 → k < 5 → j ≠ k → b.table j ≠ b.table k :=
    fun hj hk hjk h => hjk (table_inj b hj hk h)
  constructor
  · intro k hk hk3 i
    apply Or.inl
    unfold loadMem
    have hcases : k = 0 ∨ k = 1 ∨ k = 2 ∨ k = 4 := by omega
    rcases hcases with rfl | rfl | rfl | rfl <;> simp [table_eq_iff, upperEntry]
  · intro i
    exact .inl (if_pos rfl)

theorem loadState_loader (b : Build) {p : Nat} (hp : p < nproc) : Loader b (loadState b) p := by
  apply Loading.loader ⟨loadMem_tables b, rfl, rfl, rfl⟩ hp
  intro k hk
  rw [pagenumber_table hk, loadState_pageinfo b (rootPage_lt hk), initialOwner_table hk]
  decide

/-- 16 bytes of a file in 32 bytes of memory, from `va` on. -/
def shortSegment (va : Word) : Segment := ⟨1, va, 16, 32, fun i => BitVec.ofNat 8 (i + 1)⟩

theorem shortSegment_ready {va : Word} (h : va.toNat / 4096 = 0x100)
    (hoff : va.toNat % 4096 + 32 ≤ 4096) :
    (shortSegment va).Ready (loadState demoBuild) ((loadState demoBuild).procs 1).pagetable := by
  have hmem : (shortSegment va).memsz.toNat = 32 := rfl
  have hva : (shortSegment va).va = va := rfl
  refine ⟨show 16 ≤ 32 by decide, by rw [hmem, hva]; omega, ?_⟩
  intro k ⟨i, hi, hk⟩
  rw [hmem] at hi
  rw [hva] at hk
  obtain rfl : k = 0x100 := by omega
  exact (loadMem_tables demoBuild).room (s := loadState demoBuild) (by decide)
    (by rw [loadState_pageinfo _ (by decide)]; decide)

theorem load_segment_iff_page :
    MeetsLoad demoBuild (loadState demoBuild) 1 (shortSegment 0x100000) :=
  (load_segment_iff (loadState_loader demoBuild (by decide))
    (shortSegment_ready (by decide) (by decide))).mpr (by decide)

/-- 16 bytes into a page, the copy starts at the page and reads 32 bytes of the image. -/
theorem load_segment_overread : Loader demoBuild (loadState demoBuild) 1 ∧
    (shortSegment 0x100010).Ready (loadState demoBuild) ((loadState demoBuild).procs 1).pagetable ∧
    ¬ MeetsLoad demoBuild (loadState demoBuild) 1 (shortSegment 0x100010) :=
  ⟨loadState_loader demoBuild (by decide), shortSegment_ready (by decide) (by decide),
    overread (loadState_loader demoBuild (by decide)) (by decide) (by decide) (by decide)⟩

end Csc412.Kernel
