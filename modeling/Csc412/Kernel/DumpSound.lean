import Csc412.Kernel.PagingSound
import Csc412.Kernel.TimelineSound
import Csc412.Printer.BufferSound

/-!
# Dumps decode to the dumped state

What `memdump_physical` and `memdump_virtual_all` log is a line of numerals for physical
memory and one for each process that is not free. Reading the lines puts the state of the
pages, and nothing else, under the tick.
-/

namespace Csc412.Kernel.Log

open Lib Lib.CString Printer

/-! ## What the kernel logs -/

theorem word_toNat {x : Nat} (hx : x < 2 ^ 32) : ((word x).word.setWidth 32).toNat = x := by
  rw [word, BitVec.ofInt_natCast, BitVec.toNat_setWidth, BitVec.toNat_ofNat]
  omega

theorem uint8_eq (x : Int) : uint8 x = x % 256 := by
  rw [uint8, BitVec.toNat_ofInt]
  exact Int.toNat_of_nonneg (Int.emod_nonneg x (by decide))

theorem logPrintf_plain {args : List Arg} (hstr : ∀ n, (cstr (argsOf args n).str).length < 2 ^ 31)
    (items : List Plain) : logPrintf (items.flatMap Plain.text) args =
        .ok (plainText (argsOf args) 0 items) := by
  rw [logPrintf, printerVprintf_plain hstr items 0]
  dsimp only
  rw [List.map_map]
  exact congrArg Except.ok (List.map_id _)

theorem logAll_ok {α : Type} {l : List α} {f : α → Except Failure Bytes} {g : α → Bytes}
    (h : ∀ a ∈ l, f a = .ok (g a)) : logAll l f = .ok (l.flatMap g) := by
  induction l with
  | nil => rfl
  | cons a l ih =>
    rw [logAll, h a List.mem_cons_self, ih fun b hb => h b (List.mem_cons_of_mem a hb)]
    rfl

/-- `%u ` for each of some values. -/
def rowItems (vs : List Nat) : List Plain :=
  vs.flatMap fun _ => [.unsigned, .lits [ch ' '] (by decide)]

theorem plainText_row {args : Args} {n : Nat} {vs : List Nat} (hvs : ∀ v ∈ vs, v < 2 ^ 32)
    (hargs : ∀ j, (hj : j < vs.length) → args (n + j) = word (vs[j] : Nat)) :
    plainText args n (rowItems vs) = row vs := by
  induction vs generalizing n with
  | nil => rfl
  | cons v vs ih =>
    have hv : args n = word v := hargs 0 (Nat.zero_lt_succ _)
    have hrest := ih (n := n + 1) (fun w hw => hvs w (List.mem_cons_of_mem v hw)) fun j hj => by
      rw [Nat.add_assoc, Nat.add_comm 1]
      exact hargs (j + 1) (Nat.succ_lt_succ hj)
    change numeralText 10 ((args n).word.setWidth 32).toNat ++
      (ch ' ' :: plainText args (n + 1) (rowItems vs)) = _
    rw [hv, word_toNat (hvs v List.mem_cons_self), hrest, row_cons]
    rfl

theorem logPrintf_row (vs : List Nat) (hvs : ∀ v ∈ vs, v < 2 ^ 32) :
    logPrintf ((rowItems vs).flatMap Plain.text) (vs.map fun (v : Nat) => word v) =
        .ok (row vs) := by
  have hget (j : Nat) (hj : j < vs.length) : argsOf (vs.map fun (v : Nat) => word v) j =
      word (vs[j] : Nat) := by
    rw [argsOf, List.getD_eq_getElem?_getD, List.getElem?_map, List.getElem?_eq_getElem hj]
    rfl
  have hstr (n : Nat) : (argsOf (vs.map fun (v : Nat) => word v) n).str = [] := by
    by_cases hn : n < vs.length
    · rw [hget n hn]
      rfl
    · rw [argsOf, List.getD_eq_getElem?_getD,
        List.getElem?_eq_none (by rw [List.length_map]; omega)]
      rfl
  rw [logPrintf_plain (fun n => by rw [hstr]; decide), plainText_row hvs]
  intro j hj
  rw [Nat.zero_add]
  exact hget j hj

theorem logPrintf_pair {a b : Nat} (ha : a < 2 ^ 32) (hb : b < 2 ^ 32) :
    logPrintf (['%', 'u', ' ', '%', 'u', ' '].map ch) [word a, word b] = .ok (row [a, b]) := by
  have hrow := logPrintf_row [a, b] (by
    intro v hv
    rcases List.mem_pair.mp hv with rfl | rfl
    · exact ha
    · exact hb)
  exact hrow

theorem logPrintf_triple {a b c : Nat} (ha : a < 2 ^ 32) (hb : b < 2 ^ 32) (hc : c < 2 ^ 32) :
    logPrintf (['%', 'u', ' ', '%', 'u', ' ', '%', 'u', ' '].map ch) [word a, word b, word c] =
      .ok (row [a, b, c]) := by
  have hrow := logPrintf_row [a, b, c] (by
    intro v hv
    simp only [List.mem_cons, List.not_mem_nil, or_false] at hv
    rcases hv with rfl | rfl | rfl
    · exact ha
    · exact hb
    · exact hc)
  exact hrow

theorem logPrintf_newline : logPrintf [newline] [] = .ok [newline] := rfl

/-! ## Physical memory -/

theorem uint8_toNat (x : Int) : uint8 x = (uint8 x).toNat ∧ (uint8 x).toNat < 256 := by
  have hlo := Int.emod_nonneg x (by decide : (256 : Int) ≠ 0)
  have hhi := Int.emod_lt_of_pos x (by decide : (0 : Int) < 256)
  rw [uint8_eq]
  omega

theorem logPrintf_pmHead (tick : BitVec 32) :
    logPrintf (['P', 'M', '_', 'D', 'U', 'M', 'P', ' ', '%', 'u', ' '].map ch) [word tick.toNat] =
      .ok (pmPrefix ++ ch ' ' :: row [tick.toNat]) := by
  have hstr (n : Nat) : (argsOf [word tick.toNat] n).str = [] := by
    cases n <;> rfl
  have hplain := logPrintf_plain (fun n => by rw [hstr]; decide)
    [.lits (pmPrefix ++ [ch ' ']) (by decide), .unsigned, .lits [ch ' '] (by decide)]
  refine hplain.trans (congrArg Except.ok ?_)
  change (pmPrefix ++ [ch ' ']) ++ (field ((word tick.toNat).word.setWidth 32).toNat ++ [ch ' ']) =
    _
  rw [word_toNat tick.isLt, List.append_assoc, row_cons]
  rfl

theorem memdumpPhysical_eq {s : State}
    (hrefs : ∀ pn : Nat, pn < npages → 0 ≤ (s.pageinfo pn).refcount ∧
    (s.pageinfo pn).refcount ≤ 127) :
    memdumpPhysical s = .ok (pmLine s.ticks.toNat fun (pn : Nat) =>
      [(uint8 (s.pageinfo pn).owner).toNat, (s.pageinfo pn).refcount.toNat]) := by
  have hpages : logAll (List.range npages) (fun (pn : Nat) =>
      logPrintf (['%', 'u', ' ', '%', 'u', ' '].map ch)
        [word (uint8 (s.pageinfo pn).owner), word (s.pageinfo pn).refcount]) =
      .ok ((List.range npages).flatMap fun (pn : Nat) =>
        row [(uint8 (s.pageinfo pn).owner).toNat, (s.pageinfo pn).refcount.toNat]) := by
    apply logAll_ok
    intro pn hpn
    have hrefs := hrefs pn (List.mem_range.mp hpn)
    obtain ⟨howner, hlt⟩ := uint8_toNat (s.pageinfo pn).owner
    have hpair := logPrintf_pair (a := (uint8 (s.pageinfo pn).owner).toNat)
      (b := (s.pageinfo pn).refcount.toNat)
      (by omega) (by omega)
    rw [← howner, Int.toNat_of_nonneg hrefs.1] at hpair
    exact hpair
  rw [memdumpPhysical, logPrintf_pmHead, hpages, logPrintf_newline, pmLine, ← List.singleton_append,
    row_flatMap]
  change Except.ok _ = _
  rw [List.append_assoc, List.append_assoc, List.cons_append, List.append_assoc]
  rfl

/-! ## Virtual memory -/

/-- The states that the dumps are about: reference counts are not negative, and page tables
are pages and map pages of physical memory. -/
structure Dumpable (s : State) : Prop where
  refcount : ∀ pn : Nat, pn < npages → 0 ≤ (s.pageinfo pn).refcount ∧ (s.pageinfo pn).refcount ≤ 127
  aligned : ∀ i < nproc, (s.procs i).state ≠ .free → pteAddr (s.procs i).pagetable =
    (s.procs i).pagetable
  mapped : ∀ i < nproc, (s.procs i).state ≠ .free → ∀ va,
    virtualMemoryLookup s.mem (s.procs i).pagetable va ≠ .unmapped →
      (virtualMemoryLookup s.mem (s.procs i).pagetable va).pa.toNat < memsizePhysical

theorem lookupLoop_perm_le (va : BitVec 64) (m : Mem) (n : Nat) (pt pe perms : BitVec 64) :
    (lookupLoop va m n pt pe perms).2.toNat ≤ perms.toNat := by
  induction n generalizing pt pe perms with
  | zero => exact Nat.le_refl _
  | succ n ih =>
    rw [lookupLoop]
    split
    · refine Nat.le_trans (ih _ _ _) ?_
      rw [BitVec.toNat_and]
      exact Nat.and_le_left
    · exact Nat.le_refl _

theorem lookup_cases {m : Mem} {pt va : BitVec 64}
    (h : virtualMemoryLookup m pt va ≠ .unmapped →
      (virtualMemoryLookup m pt va).pa.toNat < memsizePhysical) :
    virtualMemoryLookup m pt va = .unmapped ∨
      virtualMemoryLookup m pt va ≠ .unmapped ∧ (virtualMemoryLookup m pt va).perm.toNat < 8 ∧
        ∃ pn : Nat, pn < npages ∧ (virtualMemoryLookup m pt va).pn = pn := by
  have hperm := lookupLoop_perm_le va m 4 pt 0 (pteW ||| pteU ||| pteP)
  rw [virtualMemoryLookup] at h ⊢
  generalize lookupLoop va m 4 pt 0 (pteW ||| pteU ||| pteP) = r at h hperm ⊢
  obtain ⟨pe, perms⟩ := r
  dsimp only at h hperm ⊢
  by_cases hpresent : perms &&& pteP ≠ 0
  · rw [if_pos hpresent] at h ⊢
    have hne : (⟨pagenumber pe, pteAddr pe + pageoffset va, perms⟩ : Vamapping) ≠ .unmapped := by
      intro heq
      have hzero : perms = 0 := congrArg Vamapping.perm heq
      rw [hzero] at hpresent
      exact hpresent (BitVec.zero_and)
    have hpa := h hne
    dsimp only at hpa
    rw [BitVec.toNat_add, pteAddr_toNat, pageoffset_toNat, memsizePhysical] at hpa
    have hpe := pe.isLt
    have hlt : pe.toNat < memsizePhysical := by
      rw [memsizePhysical]
      omega
    refine .inr ⟨hne, Nat.lt_succ_of_le hperm, pe.toNat / 4096, ?_,
      pagenumber_eq (Nat.lt_add_right _ hlt)⟩
    rw [memsizePhysical] at hlt
    rw [npages]
    omega
  · rw [if_neg hpresent]
    exact .inl rfl

/-- What is logged of a page: nothing but zeros if it is not mapped. -/
def mappedOr (vam : Vamapping) (x : Nat) : Nat := if vam.pn < 0 then 0 else x

def virtualFields (s : State) (vam : Vamapping) : List Nat :=
  [mappedOr vam (uint8 (s.pageinfo vam.pn).owner).toNat,
    mappedOr vam (uint8 (s.pageinfo vam.pn).refcount).toNat, mappedOr vam vam.perm.toNat]

theorem logPrintf_page {s : State} {vam : Vamapping} (hperm : vam.perm.toNat < 2 ^ 32) :
    (if vam.pn < 0 then logPrintf (['0', ' ', '0', ' ', '0', ' '].map ch) []
      else
        logPrintf (['%', 'u', ' ', '%', 'u', ' ', '%', 'u', ' '].map ch)
          [word (uint8 (s.pageinfo vam.pn).owner), word (uint8 (s.pageinfo vam.pn).refcount),
            word vam.perm.toNat]) =
      .ok (row (virtualFields s vam)) := by
  rw [virtualFields, mappedOr, mappedOr, mappedOr]
  split
  · rfl
  · obtain ⟨howner, howner'⟩ := uint8_toNat (s.pageinfo vam.pn).owner
    obtain ⟨hrefs, hrefs'⟩ := uint8_toNat (s.pageinfo vam.pn).refcount
    have htriple := logPrintf_triple (a := (uint8 (s.pageinfo vam.pn).owner).toNat)
      (b := (uint8 (s.pageinfo vam.pn).refcount).toNat) (by omega) (by omega) hperm
    rw [← howner, ← hrefs] at htriple
    exact htriple

theorem logPrintf_vmHead (tick : BitVec 32) {name : Bytes} {pid : Nat}
    (hname : cstr name = field pid ++ [ch ' ']) (hpid : pid < 2 ^ 64) :
    logPrintf (['V', 'M', '_', 'D', 'U', 'M', 'P', ' ', '%', 's', ' ', '%', 'u', ' '].map ch)
      [⟨0, name⟩, word tick.toNat] =
      .ok (vmPrefix ++ ch ' ' :: (field pid ++ ch ' ' :: ch ' ' :: row [tick.toNat])) := by
  have hlen : (field pid).length ≤ 20 := numeralText_length base_ten hpid
  have hstr (n : Nat) : (cstr (argsOf [⟨0, name⟩, word tick.toNat] n).str).length < 2 ^ 31 := by
    match n with
    | 0 =>
      change (cstr name).length < _
      rw [hname, List.length_append, List.length_singleton]
      omega
    | 1 => exact Nat.two_pow_pos 31
    | n + 2 => exact Nat.two_pow_pos 31
  have hplain := logPrintf_plain hstr [.lits (vmPrefix ++ [ch ' ']) (by decide), .str,
    .lits [ch ' '] (by decide), .unsigned, .lits [ch ' '] (by decide)]
  refine hplain.trans (congrArg Except.ok ?_)
  change (vmPrefix ++ [ch ' ']) ++
    (cstr name ++ ([ch ' '] ++ (field ((word tick.toNat).word.setWidth 32).toNat ++
    [ch ' ']))) = _
  rw [hname, word_toNat tick.isLt, List.append_assoc, List.append_assoc, row_cons]
  rfl

theorem vsnprintf_pid (m : Nat → UInt8) (buf : Nat) {pid : Nat} (hpid : pid < nproc) :
    ∃ stores n, vsnprintf buf 4 (['%', 'd', ' '].map ch) (argsOf [word pid]) = .ok (stores, n) ∧
      cstr ((List.range 4).map fun k => Stores.apply m stores (buf + k)) =
          field pid ++ [ch ' '] := by
  rw [nproc] at hpid
  have hlen : (field pid).length ≤ 2 := by
    rw [field, numeralText, List.length_map]
    exact Lib.Numeral.numeral_length_le (by decide) pid (by decide) (Nat.lt_trans hpid (by decide))
  have hstr (n : Nat) : (argsOf [word pid] n).str = [] := by
    cases n <;> rfl
  have hword : ((word pid).word.setWidth 32).toInt = pid := by
    rw [BitVec.toInt_eq_toNat_of_lt (by rw [word_toNat (by omega)]; omega), word_toNat (by omega)]
  have hcalls : printerVprintf 0 (['%', 'd', ' '].map ch) (argsOf [word pid]) =
      .ok ((field pid ++ [ch ' ']).map (⟨·, 0⟩)) := by
    have hplain := printerVprintf_plain (fun n => by rw [hstr n]; decide) [.int,
      .lits [ch ' '] (by decide)] 0
    refine hplain.trans (congrArg (fun text : Bytes => Except.ok (text.map (Call.mk · 0))) ?_)
    change intText ((word pid).word.setWidth 32).toInt ++ [ch ' '] = _
    rw [hword, intText, if_neg (by omega), Int.natAbs_natCast]
    rfl
  have htake : (((field pid ++ [ch ' ']).map (⟨·, 0⟩ : UInt8 → Call)).take 3).map Call.c =
      field pid ++ [ch ' '] := by
    rw [List.take_of_length_le, List.map_map]
    · exact List.map_id _
    · rw [List.length_map, List.length_append, List.length_singleton]
      omega
  have hstores := vsnprintf_eq hcalls buf 3
  rw [htake] at hstores
  refine ⟨_, _, hstores, cstr_range ?_ ?_ ?_ ?_⟩
  · rw [List.mem_append, not_or]
    exact ⟨notMem_field (by decide) pid, by decide⟩
  · intro k hk
    rw [Stores.apply_block m buf (by rw [List.length_append]; exact Nat.lt_succ_of_lt hk),
      List.getElem_append_left hk]
  · rw [Stores.apply_block m buf (by simp only [List.length_append, List.length_singleton]; omega)]
    simp
  · rw [List.length_append, List.length_singleton]
    omega

section
variable {s : State} (h : Dumpable s)

/-- What a process's page number `k` is mapped to. -/
def lookupPage (s : State) (i k : Nat) : Vamapping :=
  virtualMemoryLookup s.mem (s.procs i).pagetable (BitVec.ofNat 64 (k * 4096))

include h

theorem lookupPage_cases {i : Nat} (hi : i < nproc) (hlive : (s.procs i).state ≠ .free) (k : Nat) :
    lookupPage s i k = .unmapped ∨ lookupPage s i k ≠ .unmapped ∧
    (lookupPage s i k).perm.toNat < 8 ∧
      ∃ pn : Nat, pn < npages ∧ (lookupPage s i k).pn = pn :=
  lookup_cases (h.mapped i hi hlive _)

theorem memdumpVirtual_eq {i : Nat} (hi : i < nproc) (hlive : (s.procs i).state ≠ .free)
    {name : Bytes} (hname : cstr name = field i ++ [ch ' ']) :
    memdumpVirtual s (s.procs i).pagetable name =
      .ok (vmLine i s.ticks.toNat fun k => virtualFields s (lookupPage s i k)) := by
  have hpages : logAll (List.range (memsizeVirtual / 4096)) (fun k =>
      let vam := virtualMemoryLookup s.mem (s.procs i).pagetable (BitVec.ofNat 64 (k * 4096))
      if vam.pn < 0 then logPrintf (['0', ' ', '0', ' ', '0', ' '].map ch) []
      else
        logPrintf (['%', 'u', ' ', '%', 'u', ' ', '%', 'u', ' '].map ch)
          [word (uint8 (s.pageinfo vam.pn).owner), word (uint8 (s.pageinfo vam.pn).refcount),
            word vam.perm.toNat]) =
      .ok ((List.range 768).flatMap fun k => row (virtualFields s (lookupPage s i k))) := by
    apply logAll_ok
    intro k _
    apply logPrintf_page
    rcases lookupPage_cases h hi hlive k with hun | ⟨-, hperm, -⟩
    · rw [lookupPage] at hun
      rw [hun]
      decide
    · exact Nat.lt_trans hperm (by decide)
  have haligned : ¬pteAddr (s.procs i).pagetable ≠ (s.procs i).pagetable :=
    not_not.mpr (h.aligned i hi hlive)
  have hpid : i < 2 ^ 64 := Nat.lt_trans hi (by decide)
  rw [memdumpVirtual, logPrintf_vmHead s.ticks hname hpid]
  refine (if_neg haligned).trans ?_
  rw [hpages, logPrintf_newline, vmLine, row_flatMap]
  change Except.ok _ = _
  simp only [List.append_assoc, List.cons_append]

theorem memdumpVirtualAll_eq (m : Nat → UInt8) (buf : Nat) :
    memdumpVirtualAll s m buf = .ok ((List.range nproc).flatMap fun i =>
      if (s.procs i).state ≠ .free
        then vmLine i s.ticks.toNat fun k => virtualFields s (lookupPage s i k)
      else []) := by
  apply logAll_ok
  intro i hi
  rw [List.mem_range] at hi
  by_cases hlive : (s.procs i).state ≠ .free
  · obtain ⟨stores, n, hprintf, hname⟩ := vsnprintf_pid m buf hi
    rw [if_pos hlive, if_pos hlive, hprintf]
    exact memdumpVirtual_eq h hi hlive hname
  · rw [if_neg hlive, if_neg hlive]

end

/-! ## Reading the log back -/

def vmEntry (s : State) (vam : Vamapping) : VMEntry :=
  if vam = .unmapped then ⟨0, 0, 0, 0⟩
  else
    ⟨(s.pageinfo vam.pn).owner % 256, (s.pageinfo vam.pn).refcount, (vam.perm &&& pteU).toNat,
      vam.perm.toNat⟩

def pagesOf (s : State) (i : Nat) : List VMEntry :=
  (List.range 768).map fun k => vmEntry s (lookupPage s i k)

/-- What a dump says of a state. -/
def dumped (s : State) : MemMapInstance where
  pmState := some ((List.range npages).map fun (pn : Nat) =>
    ⟨(s.pageinfo pn).owner % 256, (s.pageinfo pn).refcount⟩)
  vmState i :=
    if 0 ≤ i ∧ i < nproc ∧ (s.procs i.toNat).state ≠ .free then some (pagesOf s i.toNat) else none

theorem pteUserBit_eq {perm : BitVec 64} (h : perm.toNat < 8) :
    pteUserBit perm.toNat = (perm &&& pteU).toNat := by
  have hall : ∀ k : Fin 8, pteUserBit (k : Nat) = ((BitVec.ofNat 64 k) &&& pteU).toNat := by decide
  have hperm := hall ⟨perm.toNat, h⟩
  rw [BitVec.ofNat_toNat, BitVec.setWidth_eq] at hperm
  exact hperm

/-- The entries of the processes of a list beside those that are there. -/
def withPages (s : State) (l : List Nat) (v : Int → Option (List VMEntry)) :
    Int → Option (List VMEntry) := fun x =>
  if 0 ≤ x ∧ x.toNat ∈ l ∧ (s.procs x.toNat).state ≠ .free then some (pagesOf s x.toNat) else v x

section
variable {s : State} (h : Dumpable s)
include h

theorem vmEntry_eq {i : Nat} (hi : i < nproc) (hlive : (s.procs i).state ≠ .free) (k : Nat) :
    let vam := lookupPage s i k
    (⟨mappedOr vam (uint8 (s.pageinfo vam.pn).owner).toNat,
      mappedOr vam (uint8 (s.pageinfo vam.pn).refcount).toNat,
      pteUserBit (mappedOr vam vam.perm.toNat), mappedOr vam vam.perm.toNat⟩ : VMEntry) =
          vmEntry s vam := by
  intro vam
  rcases lookupPage_cases h hi hlive k with hun | ⟨hne, hperm, pn, hpn, heq⟩
  · have hvam : vam = .unmapped := hun
    rw [hvam]
    rfl
  · have hmapped (x : Nat) : mappedOr vam x = x := if_neg (by rw [show vam.pn = pn from heq]; omega)
    have hrefs := h.refcount pn hpn
    rw [← heq] at hrefs
    obtain ⟨howner, -⟩ := uint8_toNat (s.pageinfo vam.pn).owner
    obtain ⟨href, -⟩ := uint8_toNat (s.pageinfo vam.pn).refcount
    rw [hmapped, hmapped, hmapped, vmEntry, if_neg hne, pteUserBit_eq hperm, ← howner, ← href,
      uint8_eq, uint8_eq, Int.emod_eq_of_lt hrefs.1 (by omega)]

theorem parseLine_vmDump {t : Timeline} {inst : MemMapInstance} {i : Nat} (hi : i < nproc)
    (hlive : (s.procs i).state ≠ .free) (hfresh : inst.vmState i = none) :
    parseLine (t.put s.ticks.toNat inst)
      (vmLine i s.ticks.toNat fun k => virtualFields s (lookupPage s i k)) =
      .ok (t.put s.ticks.toNat { inst with
          vmState := Function.update inst.vmState i (some (pagesOf s i)) }) := by
  have hpages : ((List.range 768).map fun k =>
      let vam := lookupPage s i k
      (⟨mappedOr vam (uint8 (s.pageinfo vam.pn).owner).toNat,
        mappedOr vam (uint8 (s.pageinfo vam.pn).refcount).toNat,
        pteUserBit (mappedOr vam vam.perm.toNat), mappedOr vam vam.perm.toNat⟩ : VMEntry)) =
            pagesOf s i :=
    List.map_congr_left fun k _ => vmEntry_eq h hi hlive k
  have hfresh' : ((t.put s.ticks.toNat inst).at s.ticks.toNat).vmState i = none := by
    rw [put_at]
    exact hfresh
  have hparse := parseLine_vm hfresh'
    (fun k => mappedOr (lookupPage s i k) (uint8 (s.pageinfo (lookupPage s i k).pn).owner).toNat)
    (fun k => mappedOr (lookupPage s i k) (uint8 (s.pageinfo (lookupPage s i k).pn).refcount).toNat)
    (fun k => mappedOr (lookupPage s i k) (lookupPage s i k).perm.toNat)
  rw [put_put, put_at, hpages] at hparse
  exact hparse

omit h in
theorem withPages_nil (v : Int → Option (List VMEntry)) : withPages s [] v = v := by
  funext x
  rw [withPages, if_neg fun hx => List.not_mem_nil hx.2.1]

omit h in
theorem withPages_live (v : Int → Option (List VMEntry)) {i : Nat}
    (hlive : (s.procs i).state ≠ .free) (l : List Nat) :
    withPages s l (Function.update v i (some (pagesOf s i))) = withPages s (i :: l) v := by
  funext x
  rw [withPages, withPages]
  by_cases hl : 0 ≤ x ∧ x.toNat ∈ l ∧ (s.procs x.toNat).state ≠ .free
  · rw [if_pos hl, if_pos ⟨hl.1, List.mem_cons_of_mem i hl.2.1, hl.2.2⟩]
  · rw [if_neg hl]
    by_cases hx : x = i
    · rw [hx, Function.update_self, if_pos ⟨Int.natCast_nonneg i, List.mem_cons_self, hlive⟩]
      rfl
    · rw [Function.update_of_ne hx, if_neg]
      intro hcons
      rcases List.mem_cons.mp hcons.2.1 with hi | hi
      · exact hx (by omega)
      · exact hl ⟨hcons.1, hi, hcons.2.2⟩

omit h in
theorem withPages_free (v : Int → Option (List VMEntry)) {i : Nat}
    (hfree : ¬(s.procs i).state ≠ .free) (l : List Nat) :
    withPages s l v = withPages s (i :: l) v := by
  funext x
  rw [withPages, withPages]
  apply if_congr _ rfl rfl
  constructor
  · rintro ⟨hpos, hl, hlive⟩
    exact ⟨hpos, List.mem_cons_of_mem i hl, hlive⟩
  · rintro ⟨hpos, hl, hlive⟩
    rcases List.mem_cons.mp hl with hi | hi
    · rw [hi] at hlive
      exact absurd hlive hfree
    · exact ⟨hpos, hi, hlive⟩

/-- The lines of the processes in a list add their entries one after the other. -/
theorem parseLines_vmDump {t : Timeline} (inst : MemMapInstance) {l : List Nat}
    (hl : ∀ i ∈ l, i < nproc) (hnodup : l.Nodup) (hfresh : ∀ i ∈ l, inst.vmState i = none) :
    parseLines (t.put s.ticks.toNat inst) (readlines (l.flatMap fun i =>
      if (s.procs i).state ≠ .free
        then vmLine i s.ticks.toNat fun k => virtualFields s (lookupPage s i k) else [])) =
      .ok (t.put s.ticks.toNat { inst with vmState := withPages s l inst.vmState }) := by
  induction l generalizing inst with
  | nil =>
    rw [withPages_nil]
    rfl
  | cons i l ih =>
    rw [List.nodup_cons] at hnodup
    have hi := hl i List.mem_cons_self
    have hl' := fun j hj => hl j (List.mem_cons_of_mem i hj)
    have hfresh' := fun j hj => hfresh j (List.mem_cons_of_mem i hj)
    rw [List.flatMap_cons]
    by_cases hlive : (s.procs i).state ≠ .free
    · rw [if_pos hlive, (isLine_vmLine _ _ _).readlines, parseLines,
        parseLine_vmDump h hi hlive (hfresh i List.mem_cons_self),
        ← withPages_live inst.vmState hlive]
      refine ih { inst with vmState := Function.update inst.vmState i (some (pagesOf s i)) } hl'
        hnodup.2 ?_
      intro j hj
      have hne : (j : Int) ≠ i := by
        intro hji
        rw [Int.ofNat_inj.mp hji] at hj
        exact hnodup.1 hj
      exact (Function.update_of_ne hne _ _).trans (hfresh' j hj)
    · rw [if_neg hlive, List.nil_append, ih inst hl' hnodup.2 hfresh',
        withPages_free inst.vmState hlive]

theorem dumped_pmState : some ((List.range 512).map fun (pn : Nat) =>
    (⟨(uint8 (s.pageinfo pn).owner).toNat, (s.pageinfo pn).refcount.toNat⟩ : PMEntry)) =
        (dumped s).pmState := by
  apply congrArg some
  apply List.map_congr_left
  intro pn hpn
  obtain ⟨howner, -⟩ := uint8_toNat (s.pageinfo pn).owner
  rw [← howner, uint8_eq, Int.toNat_of_nonneg (h.refcount pn (List.mem_range.mp hpn)).1]

omit h in
theorem dumped_vmState : (dumped s).vmState = withPages s (List.range nproc) fun _ => none := by
  funext x
  rw [withPages]
  apply if_congr _ rfl rfl
  rw [List.mem_range]
  constructor
  · rintro ⟨hpos, hlt, hlive⟩
    exact ⟨hpos, by omega, hlive⟩
  · rintro ⟨hpos, hlt, hlive⟩
    exact ⟨hpos, by omega, hlive⟩

theorem memMapTimeline_dump (m : Nat → UInt8) (buf : Nat) :
    ∃ pm vm, memdumpPhysical s = .ok pm ∧ memdumpVirtualAll s m buf = .ok vm ∧
      memMapTimeline (pm ++ vm) = .ok (Timeline.empty.put s.ticks.toNat (dumped s)) ∧
      ∀ t : Timeline, t.at s.ticks.toNat = .empty →
        parseLines t (readlines (universal false (pm ++ vm))) =
            .ok (t.put s.ticks.toNat (dumped s)) := by
  have hphysical := memdumpPhysical_eq h.refcount
  have hvirtual := memdumpVirtualAll_eq h m buf
  generalize hvm : ((List.range nproc).flatMap fun i =>
      if (s.procs i).state ≠ .free
        then vmLine i s.ticks.toNat fun k => virtualFields s (lookupPage s i k)
      else []) = vm at hvirtual
  have hreturn : 13 ∉ vm := by
    rw [← hvm, List.mem_flatMap]
    rintro ⟨i, -, hmem⟩
    split at hmem
    · exact (isLine_vmLine i _ _).noReturn hmem
    · exact List.not_mem_nil hmem
  have hparse (t : Timeline) (hfresh : t.at s.ticks.toNat = .empty) :
      parseLines t (readlines (universal false (pmLine s.ticks.toNat (fun (pn : Nat) =>
        [(uint8 (s.pageinfo pn).owner).toNat, (s.pageinfo pn).refcount.toNat]) ++ vm))) =
        .ok (t.put s.ticks.toNat (dumped s)) := by
    rw [universal_eq
      (by rw [List.mem_append, not_or]; exact ⟨(isLine_pmLine _ _).noReturn, hreturn⟩),
      (isLine_pmLine _ _).readlines, parseLines, parseLine_pm (by rw [hfresh]; rfl), ← hvm]
    have hvm := parseLines_vmDump h (t := t) ⟨(dumped s).pmState, fun _ => none⟩
      (fun i => List.mem_range.mp) List.nodup_range fun _ _ => rfl
    rw [← dumped_vmState] at hvm
    rw [hfresh, dumped_pmState h]
    exact hvm
  exact ⟨_, vm, hphysical, hvirtual, hparse .empty rfl, hparse⟩

end

/-- Process 1 with every virtual page at the page of its page table. -/
def looped : State where
  mem := fun _ _ => 0x1007
  pageinfo := fun _ => ⟨1, 1⟩
  procs := fun i => ⟨i, Registers.zero, if i = 1 then .runnable else .free, 0x1000⟩
  current := 1
  kernelPagetable := 0x1000
  ticks := 100
  lastTicks := 0
  showing := 0
  control := .user

theorem memMapTimeline_dump_looped : ∃ pm vm, memdumpPhysical looped = .ok pm ∧
    memdumpVirtualAll looped (fun _ => 0) 0 = .ok vm ∧
      memMapTimeline (pm ++ vm) = .ok (Timeline.empty.put 100 (dumped looped)) := by
  have hflags : (7 : BitVec 64) &&& pteFlags 0x1007 = 7 := by decide
  have hstep (va pt pe : BitVec 64) (n : Nat) :
      lookupLoop va looped.mem (n + 1) pt pe 7 =
          lookupLoop va looped.mem n (pteAddr 0x1007) 0x1007 7 := by
    rw [lookupLoop, if_pos (by decide)]
    exact congrArg (lookupLoop va looped.mem n _ _) hflags
  have hlookup (va : BitVec 64) : virtualMemoryLookup looped.mem 0x1000 va =
      ⟨1, 0x1000 + pageoffset va, 7⟩ := by
    have hloop : lookupLoop va looped.mem 4 0x1000 0 (pteW ||| pteU ||| pteP) = (0x1007, 7) := by
      rw [show pteW ||| pteU ||| pteP = 7 from rfl, hstep, hstep, hstep, hstep]
      rfl
    rw [virtualMemoryLookup, hloop]
    rfl
  have hdumpable : Dumpable looped := by
    have hrefs : (0 : Int) ≤ 1 ∧ (1 : Int) ≤ 127 := by decide
    have haligned : pteAddr 0x1000 = 0x1000 := by decide
    refine ⟨fun _ _ => hrefs, fun _ _ _ => haligned, ?_⟩
    intro i _ _ va _
    change (virtualMemoryLookup looped.mem 0x1000 va).pa.toNat < _
    rw [hlookup, BitVec.toNat_add, pageoffset_toNat, memsizePhysical]
    have hpage : (0x1000 : BitVec 64).toNat = 0x1000 := rfl
    omega
  obtain ⟨pm, vm, hpm, hvm, htimeline, -⟩ := memMapTimeline_dump hdumpable (fun _ => 0) 0
  exact ⟨pm, vm, hpm, hvm, htimeline⟩

end Csc412.Kernel.Log
