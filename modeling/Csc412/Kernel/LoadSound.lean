import Csc412.Kernel.BootSound
import Csc412.Kernel.RangeSound

/-!
# Loading a segment

`program_load_segment` rounds the segment's address down before it copies, so the bytes
of the file land below where they belong unless the segment starts a page. What is
proved of the copy is stated from the rounded address on.
-/

namespace Csc412.Kernel

open Lib

/-! ## Bytes -/

def byteIndex (pa : Word) : Fin 512 := ⟨pa.toNat % 4096 / 8, byteSlot_lt pa⟩

def Mem.getByte (m : Mem) (pa : Word) : BitVec 8 :=
  (m (pteAddr pa) (byteIndex pa) >>> (pa.toNat % 8 * 8)).setWidth 8

theorem getLsbD_ff (i : Nat) : (0xFF : Word).getLsbD i = decide (i < 8) :=
  getLsbD_mask (w := 64) (k := 8) (by decide) i

theorem getByte_word (w : Word) (v : BitVec 8) {a b : Nat} (hb : b < 8) :
    (((w &&& ~~~((0xFF : Word) <<< (a * 8))) ||| (v.setWidth 64 <<< (a * 8))) >>>
      (b * 8)).setWidth 8 =
      if b = a then v else (w >>> (b * 8)).setWidth 8 := by
  apply BitVec.eq_of_getLsbD_eq
  intro i hi
  simp only [BitVec.getLsbD_setWidth, BitVec.getLsbD_ushiftRight, BitVec.getLsbD_or,
    BitVec.getLsbD_and, BitVec.getLsbD_not, BitVec.getLsbD_shiftLeft, getLsbD_ff]
  have hlt : b * 8 + i < 64 := by omega
  by_cases hab : b = a
  · subst hab
    have hlo : ¬ b * 8 + i < b * 8 := by omega
    simp [hi, hlt, hlo, show i < 64 by omega]
  · rw [if_neg hab]
    simp only [BitVec.getLsbD_setWidth, BitVec.getLsbD_ushiftRight]
    by_cases hlo : b * 8 + i < a * 8
    · simp [hi, hlt, hlo]
    · have h8 : ¬ b * 8 + i - a * 8 < 8 := by omega
      have hv : v.getLsbD (b * 8 + i - a * 8) = false := BitVec.getLsbD_of_ge v _ (by omega)
      simp [hi, hlt, hlo, h8, hv]

theorem setByte_eq (m : Mem) (pa : Word) (v : BitVec 8) :
    m.setByte pa v = m.setEntry (pteAddr pa) (byteIndex pa)
    ((m (pteAddr pa) (byteIndex pa) &&& ~~~((0xFF : Word) <<< (pa.toNat % 8 * 8))) |||
        (v.setWidth 64 <<< (pa.toNat % 8 * 8))) :=
  rfl

theorem getByte_setByte (m : Mem) (pa pa' : Word) (v : BitVec 8) :
    (m.setByte pa v).getByte pa' = if pa' = pa then v else m.getByte pa' := by
  rw [setByte_eq]
  unfold Mem.getByte Mem.setEntry
  rw [Radix.set_apply]
  by_cases hsame : pteAddr pa' = pteAddr pa ∧ byteIndex pa' = byteIndex pa
  · rw [if_pos hsame, getByte_word _ _ (by omega)]
    obtain ⟨haddr, hidx⟩ := hsame
    have h₁ := congrArg BitVec.toNat haddr
    have h₂ := congrArg Fin.val hidx
    rw [pteAddr_toNat, pteAddr_toNat] at h₁
    simp only [byteIndex] at h₂
    have hiff : pa'.toNat % 8 = pa.toNat % 8 ↔ pa' = pa := by
      constructor
      · intro h
        apply BitVec.eq_of_toNat_eq
        omega
      · intro h
        rw [h]
    simp only [hiff, ← haddr, ← hidx]
  · rw [if_neg hsame, if_neg]
    intro h
    subst h
    exact hsame ⟨rfl, rfl⟩
/-! ## Memory beside the tables -/

section
variable {m m' : Mem} {root : Word}

theorem walk_congr (h : ∀ pt ∈ tables m root, m' pt = m pt) {p : List (Fin 512)}
    (hp : p.length ≤ 3) :
    Radix.walk tableOf m' root p = Radix.walk tableOf m root p := by
  induction p using List.reverseRecOn with
  | nil => rfl
  | append_singleton p i ih =>
    rw [List.length_append, List.length_singleton] at hp
    rw [Radix.walk_snoc, Radix.walk_snoc, ih (by omega)]
    cases hw : Radix.walk tableOf m root p with
    | none => rfl
    | some pt => rw [Option.bind_some, Option.bind_some, h pt ⟨p, by omega, hw⟩]

theorem tables_congr (h : ∀ pt ∈ tables m root, m' pt = m pt) : tables m' root = tables m root := by
  ext x
  constructor
  · intro ⟨p, hp, hx⟩
    exact ⟨p, hp, by rwa [walk_congr h hp] at hx⟩
  · intro ⟨p, hp, hx⟩
    exact ⟨p, hp, by rwa [walk_congr h hp]⟩

theorem lookupLoop_congr (h : ∀ pt ∈ tables m root, m' pt = m pt) (va : Word) (n : Nat) :
    ∀ (p : List (Fin 512)) (pt pe perms : Word), Radix.walk tableOf m root p = some pt →
    p.length + n ≤ 4 →
      lookupLoop va m' n pt pe perms = lookupLoop va m n pt pe perms := by
  induction n with
  | zero =>
    intro p pt pe perms _ _
    rfl
  | succ n ih =>
    intro p pt pe perms hpt hlen
    rw [lookupLoop, lookupLoop, h pt ⟨p, by omega, hpt⟩]
    by_cases hP : perms &&& pteP ≠ 0
    · rw [if_pos hP, if_pos hP]
      simp only
      by_cases hnext : m pt (pageindex va (3 - n)) &&& pteP = 0
      · -- the loop ends here
        have hstop : ¬ (perms &&& pteFlags (m pt (pageindex va (3 - n)))) &&& pteP ≠ 0 := by
          have hoff : (m pt (pageindex va (3 - n))).getLsbD 0 = false := by
            by_contra hb
            exact (pteP_iff _).mpr (by simpa using hb) hnext
          rw [pteP_iff, BitVec.getLsbD_and, getLsbD_pteFlags, hoff]
          simp
        cases n with
        | zero => rfl
        | succ n => rw [lookupLoop, lookupLoop, if_neg hstop, if_neg hstop]
      · apply ih (p ++ [pageindex va (3 - n)])
        · rw [Radix.walk_snoc, hpt]
          exact tableOf_present hnext
        · rw [List.length_append, List.length_singleton]
          omega
    · rw [if_neg hP, if_neg hP]

theorem lookup_congr (h : ∀ pt ∈ tables m root, m' pt = m pt) (va : Word) :
    virtualMemoryLookup m' root va = virtualMemoryLookup m root va := by
  unfold virtualMemoryLookup
  rw [lookupLoop_congr h va 4 [] root 0 _ rfl (by simp)]

theorem WellFormed.congr (hwf : WellFormed m root) (h : ∀ pt ∈ tables m root, m' pt = m pt) :
    WellFormed m' root := by
  constructor
  · intro p pt i hp hpt hpres
    rw [walk_congr h (by omega)] at hpt
    rw [h pt ⟨p, by omega, hpt⟩] at hpres ⊢
    exact hwf.full p pt i hp hpt hpres
  · intro p q n hp hq hpn hqn
    rw [walk_congr h hp] at hpn
    rw [walk_congr h hq] at hqn
    exact hwf.tree p q n hp hq hpn hqn

end

/-! ## Stores -/

/-- The address may be written, is its own physical address and lies in no table. -/
structure Writable (m : Mem) (root v : Word) : Prop where
  pa : (virtualMemoryLookup m root v).pa = v
  w : (virtualMemoryLookup m root v).perm &&& pteW ≠ 0
  beside : pteAddr v ∉ tables m root

theorem Writable.congr {m m' : Mem} {root v : Word} (hv : Writable m root v)
    (h : ∀ pt ∈ tables m root, m' pt = m pt) :
    Writable m' root v := by
  constructor
  · rw [lookup_congr h]
    exact hv.pa
  · rw [lookup_congr h]
    exact hv.w
  · rw [tables_congr h]
    exact hv.beside

def Within (lo n : Nat) (v : Word) : Prop := lo ≤ v.toNat ∧ v.toNat < lo + n

instance (lo n : Nat) (v : Word) : Decidable (Within lo n v) := inferInstanceAs (Decidable (_ ∧ _))

theorem storeByte_ok {m : Mem} {root v : Word} (hv : Writable m root v) (c : BitVec 8) :
    storeByte root m v c = .ok (m.setByte v c) := by
  unfold storeByte
  simp only
  rw [if_pos hv.w, hv.pa]

theorem setByte_other (m : Mem) {pt v : Word} (h : pteAddr v ≠ pt) (c : BitVec 8) :
    m.setByte v c pt = m pt := by
  rw [setByte_eq, Mem.setEntry, Radix.set, Function.update_of_ne h.symm]

/-- What `n` stores from `lo` on leave. -/
structure Stored (m m' : Mem) (lo n : Nat) (f : Nat → BitVec 8) : Prop where
  bytes : ∀ v, m'.getByte v = if Within lo n v then f (v.toNat - lo) else m.getByte v
  other : ∀ pt, (∀ v, Within lo n v → pteAddr v ≠ pt) → m' pt = m pt

theorem storeBytes_stored (root : Word) (f : Nat → BitVec 8) (n : Nat) :
    ∀ (k : Nat) (va : Word) (m : Mem),
    va.toNat + n < 2 ^ 64 → (∀ v, Within va.toNat n v → Writable m root v) →
    ∃ m', storeBytes root f n k va m = .ok m' ∧ Stored m m' va.toNat n fun j => f (k + j) := by
  induction n with
  | zero =>
    intro k va m _ _
    refine ⟨m, rfl, fun v => ?_, fun _ _ => rfl⟩
    rw [if_neg]
    unfold Within
    omega
  | succ n ih =>
    intro k va m hwrap hw
    have hfirst : Within va.toNat (n + 1) va := by unfold Within; omega
    have hva : (va + 1).toNat = va.toNat + 1 := by
      rw [BitVec.toNat_add]
      have : (1 : Word).toNat = 1 := rfl
      omega
    have htail : ∀ v, Within (va + 1).toNat n v ↔ Within va.toNat (n + 1) v ∧ v ≠ va := by
      intro v
      rw [hva, Ne, ← BitVec.toNat_inj]
      unfold Within
      omega
    have hsame : ∀ pt ∈ tables m root, m.setByte va (f k) pt = m pt := by
      intro pt hpt
      apply setByte_other
      intro he
      rw [← he] at hpt
      exact (hw va hfirst).beside hpt
    obtain ⟨m', hm', hst⟩ := ih (k + 1) (va + 1) (m.setByte va (f k)) (by omega)
      (fun v hv => (hw v ((htail v).mp hv).1).congr hsame)
    refine ⟨m', ?_, fun v => ?_, fun pt hpt => ?_⟩
    · rw [storeBytes, storeByte_ok (hw va hfirst)]
      exact hm'
    · rw [hst.bytes, getByte_setByte]
      by_cases hv : v = va
      · subst hv
        rw [if_neg fun h => ((htail v).mp h).2 rfl, if_pos rfl, if_pos hfirst, Nat.sub_self,
          Nat.add_zero]
      · rw [if_neg hv]
        by_cases hin : Within va.toNat (n + 1) v
        · have hlo := hin.1
          have hne : v.toNat ≠ va.toNat := fun h => hv (BitVec.eq_of_toNat_eq h)
          rw [if_pos ((htail v).mpr ⟨hin, hv⟩), if_pos hin, hva]
          congr 1
          omega
        · rw [if_neg fun h => hin ((htail v).mp h).1, if_neg hin]
    · rw [hst.other pt fun v hv => hpt v ((htail v).mp hv).1]
      exact setByte_other m (hpt va hfirst) _

/-! ## Pages -/

section
variable {root : Word}

theorem assignPhysicalPage_eq (s : State) (owner : Int) {addr : Word} {a : Nat}
    (h : addr.toNat = a * 4096) :
    assignPhysicalPage s addr owner = if a < npages ∧ (s.pageinfo a).refcount = 0 then
      (0, { s with pageinfo := Function.update s.pageinfo a ⟨owner, 1⟩ }) else (-1, s) := by
  have hal : addr &&& 0xFFF = 0 := (and_fff_iff addr).mpr (by omega)
  unfold assignPhysicalPage npages memsizePhysical
  by_cases ha : a < 512
  · rw [pagenumber_page h ha]
    by_cases hfree : (s.pageinfo a).refcount = 0
    · rw [if_neg, if_pos ⟨ha, hfree⟩]
      simp only [hal, hfree, ne_eq, not_true_eq_false, false_or, or_false]
      omega
    · rw [if_pos (.inr (.inr hfree)), if_neg fun hh => hfree hh.2]
  · rw [if_pos (.inr (.inl (by omega))), if_neg fun hh => ha hh.1]

theorem mapAsserts_page {addr : Word} {a : Nat} (hroot : root.toNat % 4096 = 0)
    (h : addr.toNat = a * 4096) (ha : a < npages) :
    mapAsserts root addr addr 4096 permPWU = .ok () := by
  unfold npages at ha
  have hpage : (4096 : Word).toNat = 4096 := rfl
  have hsum : (addr + 4096).toNat = addr.toNat + 4096 := by
    rw [BitVec.toNat_add]
    omega
  have hle : addr ≤ addr + 4096 := by rw [BitVec.le_def]; omega
  unfold mapAsserts
  rw [check_bind (by simp; omega), check_bind (by decide),
    check_bind (by rw [decide_eq_true hle, Bool.true_or])]
  rw [if_pos (by decide), check_bind (by simp; omega), check_bind (decide_eq_true hle),
    check_bind (by rw [decide_eq_true_eq, hsum]; unfold memsizePhysical; omega),
    check_bind (by decide)]
  exact check_true (by simpa using hroot) _

theorem mapPage_eq {s : State} {addr : Word} {a : Nat} (hwf : WellFormed s.mem root)
    (hroot : root.toNat % 4096 = 0) (h : addr.toNat = a * 4096) (ha : a < npages) :
    let l4 := (Radix.walk tableOf s.mem root (path addr)).getD 0
    mapPage s root addr = .ok (if l4 = 0 then (-1, s) else
      (0, { s with mem := s.mem.setEntry l4 (pageindex addr 3) (addr ||| ptePWU) })) := by
  intro l4
  have hidx : index123 addr ≠ -1 := by
    rw [index123_eq (by unfold npages at ha; omega)]
    omega
  have hlookup : lookupL4pagetable root addr permPWU (none : Option (Unit → Word × Unit)) s.mem () =
      .ok (l4, s.mem, ()) :=
    lookupLevels_silent rfl hwf 3 [] root rfl rfl
  unfold mapPage
  rw [virtualMemoryMap_eq (mapAsserts_page hroot h ha), show (4096 : Word).toNat / 4096 =
    1 from rfl, mapPages, nextTable,
    if_pos hidx, hlookup]
  simp only [permPWU_signExtend]
  by_cases h0 : l4 = 0
  · rw [if_pos h0, if_neg fun hh => hh.2 h0, if_neg (not_not.mpr h0), if_pos (by decide)]
  · rw [if_neg h0, if_pos ⟨by decide, h0⟩, mapPages]

/-- The table of page `a`; null if there is none. -/
def pageTable (m : Mem) (root : Word) (a : Nat) : Word :=
  (Radix.walk tableOf m root (path (BitVec.ofNat 64 (a * 4096)))).getD 0

structure Room (s : State) (root : Word) (a : Nat) : Prop where
  below : a < npages
  free : (s.pageinfo a).refcount = 0
  table : pageTable s.mem root a ≠ 0

theorem page_eq {addr : Word} {a : Nat} (h : addr.toNat = a * 4096) :
    addr = BitVec.ofNat 64 (a * 4096) := by
  rw [← h, BitVec.ofNat_toNat, BitVec.setWidth_eq]

def loadPage (s : State) (root : Word) (owner : Int) (a : Nat) : State :=
  { s with
    mem := s.mem.setEntry (pageTable s.mem root a) (pageindex (BitVec.ofNat 64 (a * 4096)) 3)
      (BitVec.ofNat 64 (a * 4096) ||| ptePWU)
    pageinfo := Function.update s.pageinfo a ⟨owner, 1⟩ }

@[simp] theorem loadPage_mem (s : State) (owner : Int) (a : Nat) : (loadPage s root owner a).mem =
    s.mem.setEntry (pageTable s.mem root a) (pageindex (BitVec.ofNat 64 (a * 4096)) 3)
      (BitVec.ofNat 64 (a * 4096) ||| ptePWU) := rfl

@[simp] theorem loadPage_pageinfo (s : State) (owner : Int) (a : Nat) :
    (loadPage s root owner a).pageinfo = Function.update s.pageinfo a ⟨owner, 1⟩ := rfl

theorem loadPages_room {s : State} {addr : Word} {a : Nat} (pid : Int) (n : Nat)
    (hwf : WellFormed s.mem root) (hroot : root.toNat % 4096 = 0) (h : addr.toNat = a * 4096)
    (hr : Room s root a) :
    loadPages pid root (n + 1) addr s =
        loadPages pid root n (addr + 4096) (loadPage s root (int8 pid) a) := by
  have hmap := mapPage_eq (s := { s with pageinfo := Function.update s.pageinfo a ⟨int8 pid, 1⟩ })
    hwf hroot h hr.below
  simp only at hmap
  have htable := hr.table
  unfold pageTable at htable
  rw [← page_eq h] at htable
  rw [if_neg htable] at hmap
  rw [loadPages, assignPhysicalPage_eq s (int8 pid) h, if_pos ⟨hr.below, hr.free⟩]
  simp only
  rw [if_neg (by decide), hmap]
  simp only
  rw [if_neg (by decide), loadPage, pageTable, ← page_eq h]

theorem loadPages_no_room {s : State} {addr : Word} {a : Nat} (pid : Int) (n : Nat)
    (hwf : WellFormed s.mem root) (hroot : root.toNat % 4096 = 0) (h : addr.toNat = a * 4096)
    (hr : ¬ Room s root a) :
    ∃ s', loadPages pid root (n + 1) addr s = .ok (-1, s') := by
  rw [loadPages, assignPhysicalPage_eq s (int8 pid) h]
  by_cases hfree : a < npages ∧ (s.pageinfo a).refcount = 0
  · have hmap := mapPage_eq (s := { s with pageinfo := Function.update s.pageinfo a ⟨int8 pid, 1⟩ })
      hwf hroot h hfree.1
    simp only at hmap
    have htable : pageTable s.mem root a = 0 := by
      by_contra hne
      exact hr ⟨hfree.1, hfree.2, hne⟩
    unfold pageTable at htable
    rw [← page_eq h] at htable
    rw [if_pos htable] at hmap
    rw [if_pos hfree]
    simp only
    rw [if_neg (by decide), hmap]
    simp only
    rw [if_pos (by decide)]
    exact ⟨_, rfl⟩
  · rw [if_neg hfree]
    simp only
    rw [if_pos (by decide)]
    exact ⟨_, rfl⟩

end

/-- Pages `a` to `a + n - 1` are the owner's, and mapped to themselves. -/
structure PagesLoaded (s s' : State) (root : Word) (owner : Int) (a n : Nat) : Prop where
  frame : s' = { s with mem := s'.mem, pageinfo := s'.pageinfo }
  room : ∀ k, a ≤ k → k < a + n → Room s root k
  wf : WellFormed s'.mem root
  tables : tables s'.mem root = tables s.mem root
  beside : ∀ pt, pt ∉ Kernel.tables s.mem root → s'.mem pt = s.mem pt
  entry : ∀ v : Word, v.toNat < 2 ^ 48 → pageEntry s'.mem root v =
    if a ≤ v.toNat / 4096 ∧ v.toNat / 4096 < a + n
      then BitVec.ofNat 64 (v.toNat / 4096 * 4096) ||| ptePWU
    else pageEntry s.mem root v
  info : ∀ pn : Int, s'.pageinfo pn =
    if (a : Int) ≤ pn ∧ pn < (a + n : Nat) then ⟨owner, 1⟩ else s.pageinfo pn

section
variable {root : Word} {s : State} {a : Nat} (hwf : WellFormed s.mem root) (hr : Room s root a)
include hr

theorem Room.page_toNat : (BitVec.ofNat 64 (a * 4096)).toNat = a * 4096 := by
  have := hr.below
  unfold npages at this
  rw [BitVec.toNat_ofNat]
  omega

theorem Room.walk :
    Radix.walk tableOf s.mem root (path (BitVec.ofNat 64 (a * 4096))) =
      some (pageTable s.mem root a) := by
  have h := hr.table
  unfold pageTable at h ⊢
  cases hw : Radix.walk tableOf s.mem root (path (BitVec.ofNat 64 (a * 4096))) with
  | none =>
    rw [hw] at h
    exact absurd rfl h
  | some x => rfl

include hwf

theorem Room.loaded (owner : Int) : PagesLoaded s (loadPage s root owner a) root owner a 1 := by
  have hpage := hr.page_toNat
  have hbelow := hr.below
  unfold npages at hbelow
  refine ⟨rfl, fun k h₁ h₂ => ?_, hwf.write hr.walk _, tables_write hwf hr.walk _, fun pt hpt => ?_,
    fun v hv => ?_, fun pn => ?_⟩
  · obtain rfl : k = a := by omega
    exact hr
  · apply setEntry_frame
    intro he
    rw [he] at hpt
    exact hpt ⟨_, by rw [path, levels_length], hr.walk⟩
  · rw [loadPage_mem, pageEntry_write hwf hr.walk (by omega) hv, hpage,
      Nat.mul_div_cancel _ (by decide)]
    by_cases hva : v.toNat / 4096 = a
    · rw [if_pos hva, if_pos (by omega), hva]
    · rw [if_neg hva, if_neg (by omega)]
  · rw [loadPage_pageinfo, Function.update_apply]
    by_cases hpn : pn = a
    · rw [if_pos hpn, if_pos (by omega)]
    · rw [if_neg hpn, if_neg (by omega)]

theorem Room.next (owner : Int) {k : Nat} (hk : k ≠ a) :
    Room (loadPage s root owner a) root k ↔ Room s root k := by
  have hinfo : (loadPage s root owner a).pageinfo k = s.pageinfo k := by
    rw [loadPage_pageinfo, Function.update_of_ne (by omega)]
  have htable : pageTable (loadPage s root owner a).mem root k = pageTable s.mem root k := by
    rw [pageTable, loadPage_mem, walk_write hwf hr.walk (by rw [path, levels_length])]
    rfl
  constructor
  · intro h
    exact ⟨h.below, hinfo ▸ h.free, htable ▸ h.table⟩
  · intro h
    exact ⟨h.below, hinfo.symm ▸ h.free, htable.symm ▸ h.table⟩

end

theorem PagesLoaded.refl {s : State} {root : Word} (hwf : WellFormed s.mem root) (owner : Int)
    (a : Nat) :
    PagesLoaded s s root owner a 0 := by
  refine ⟨rfl, fun k h₁ h₂ => ?_, hwf, rfl, fun _ _ => rfl, fun v _ => ?_, fun pn => ?_⟩
  · omega
  · rw [if_neg (by omega)]
  · rw [if_neg (by omega)]

theorem PagesLoaded.cons {s s' : State} {root : Word} {owner : Int} {a n : Nat}
    (hwf : WellFormed s.mem root) (hr : Room s root a)
    (h : PagesLoaded (loadPage s root owner a) s' root owner (a + 1) n) :
    PagesLoaded s s' root owner a (n + 1) := by
  have h₁ := hr.loaded hwf owner
  refine ⟨?_, fun k hlo hhi => ?_, h.wf, h.tables.trans h₁.tables, fun pt hpt => ?_, fun v hv => ?_,
    fun pn => ?_⟩
  · rw [h.frame, loadPage]
  · by_cases hk : k = a
    · rw [hk]
      exact hr
    · exact (hr.next hwf owner hk).mp (h.room k (by omega) (by omega))
  · rw [h.beside pt (by rwa [h₁.tables]), h₁.beside pt hpt]
  · rw [h.entry v hv, h₁.entry v hv]
    by_cases hlater : a + 1 ≤ v.toNat / 4096 ∧ v.toNat / 4096 < a + 1 + n
    · rw [if_pos hlater, if_pos (by omega)]
    · rw [if_neg hlater]
      exact if_congr (by omega) rfl rfl
  · rw [h.info pn, h₁.info pn]
    by_cases hlater : ((a + 1 : Nat) : Int) ≤ pn ∧ pn < (a + 1 + n : Nat)
    · rw [if_pos hlater, if_pos (by omega)]
    · rw [if_neg hlater]
      exact if_congr (by omega) rfl rfl

theorem next_page {addr : Word} {a : Nat} (h : addr.toNat = a * 4096) (ha : a < npages) :
    (addr + 4096).toNat = (a + 1) * 4096 := by
  rw [BitVec.toNat_add]
  have : (4096 : Word).toNat = 4096 := rfl
  unfold npages at ha
  omega

theorem loadPages_spec {root : Word} (hroot : root.toNat % 4096 = 0) (pid : Int) (n : Nat) :
    ∀ {s : State} {addr : Word} {a : Nat},
    WellFormed s.mem root → addr.toNat = a * 4096 → ∃ r s',
    loadPages pid root n addr s = .ok (r, s') ∧
      (r = 0 ∧ PagesLoaded s s' root (int8 pid) a n ∨ r = -1 ∧ ∃ k, a ≤ k ∧ k < a + n ∧
          ¬ Room s root k) := by
  induction n with
  | zero =>
    intro s addr a hwf _
    exact ⟨0, s, rfl, .inl ⟨rfl, .refl hwf _ a⟩⟩
  | succ n ih =>
    intro s addr a hwf h
    by_cases hr : Room s root a
    · rw [loadPages_room pid n hwf hroot h hr]
      obtain ⟨r, s', hres, hcase⟩ := ih (hr.loaded hwf (int8 pid)).wf (next_page h hr.below)
      refine ⟨r, s', hres, ?_⟩
      rcases hcase with ⟨hz, hloaded⟩ | ⟨hneg, k, hlo, hhi, hk⟩
      · exact .inl ⟨hz, .cons hwf hr hloaded⟩
      · exact .inr ⟨hneg, k, by omega, by omega,
          fun hroom => hk ((hr.next hwf _ (by omega)).mpr hroom)⟩
    · obtain ⟨s', hres⟩ := loadPages_no_room pid n hwf hroot h hr
      exact ⟨-1, s', hres, .inr ⟨rfl, a, le_refl a, by omega, hr⟩⟩

end Csc412.Kernel
