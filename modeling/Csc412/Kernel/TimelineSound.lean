import Csc412.Kernel.Dump
import Csc412.Lib.Fallible
import Csc412.Lib.Strtok
import Csc412.Printer.PlainSound

/-!
# Reading a dump

The lines of a dump are a label, numerals with a space behind each and a newline. The
parser's fields are the label, the numerals and the newline, however many spaces stand
between two of them, and `int` gives the numbers back.
-/

namespace Csc412.Kernel.Log

open Lib Lib.CString Lib.Numeral Printer

def field (v : Nat) : Bytes := numeralText 10 v

def row (vs : List Nat) : Bytes := vs.flatMap fun v => field v ++ [ch ' ']

theorem row_cons (v : Nat) (vs : List Nat) : row (v :: vs) = field v ++ ch ' ' :: row vs := by
  rw [row, List.flatMap_cons, List.append_assoc]
  rfl

theorem row_flatMap (v : Nat) {α : Type} (l : List α) (f : α → List Nat) :
    row (v :: l.flatMap f) = row [v] ++ l.flatMap fun a => row (f a) := by
  rw [row_cons, row_cons, row, List.flatMap_assoc, List.append_assoc]
  rfl

/-! ## Numerals -/

theorem base_ten : Base 10 := .inl rfl

theorem isdigit_field {v : Nat} {c : UInt8} (hc : c ∈ field v) : isdigit c = true := by
  obtain ⟨d, hd, rfl⟩ := List.mem_map.mp hc
  have hdigit : ∀ k : Fin 10, isdigit ((digitsOf 10).getD k 0) = true := by decide
  exact hdigit ⟨d, numeral_lt (by decide) v hd⟩

theorem field_ne_nil (v : Nat) : field v ≠ [] := by
  rw [field, numeralText, ne_eq, List.map_eq_nil_iff]
  exact numeral_ne_nil v

theorem notMem_field {c : UInt8} (hc : isdigit c = false) (v : Nat) : c ∉ field v := by
  intro hmem
  rw [isdigit_field hmem] at hc
  exact Bool.noConfusion hc

theorem pyDigits_eq {ds : Bytes} (hds : ∀ c ∈ ds, isdigit c = true) (v : Nat) {b : Bool}
    (hb : b = true ∨ ds ≠ []) :
    pyDigits ds v b = some (ds.foldl (fun v c => 10 * v + (c.toNat - 48)) v) := by
  induction ds generalizing v b with
  | nil =>
    obtain rfl : b = true := hb.resolve_right fun h => h rfl
    rfl
  | cons c ds ih =>
    rw [pyDigits, if_pos (hds c List.mem_cons_self),
      ih (fun x hx => hds x (List.mem_cons_of_mem c hx)) _ (.inl rfl)]
    rfl

theorem foldl_field (v : Nat) : (field v).foldl (fun v c => 10 * v + (c.toNat - 48)) 0 = v := by
  have hmap : (field v).map (fun c => c.toNat - 48) = numeral 10 v := by
    have hval : (field v).map digitVal = numeral 10 v := numeralText_val base_ten v
    rw [← hval]
    apply List.map_congr_left
    intro c hc
    rw [digitVal, if_pos (isdigit_field hc)]
  have hvalue := value_numeral (b := 10) (by decide) v
  rw [← hmap, value, List.foldl_map] at hvalue
  exact hvalue

theorem dropWhile_digits {ds : Bytes} (hds : ∀ c ∈ ds, isdigit c = true) :
    ds.dropWhile isPySpace = ds := by
  cases ds with
  | nil => rfl
  | cons c ds =>
    have hdigit := (isdigit_iff c).mp (hds c List.mem_cons_self)
    have hspace : isPySpace c = false := by
      rw [isPySpace, Bool.or_eq_false_iff, Bool.and_eq_false_iff, Bool.and_eq_false_iff,
        decide_eq_false_iff_not, decide_eq_false_iff_not, decide_eq_false_iff_not,
        decide_eq_false_iff_not, UInt8.le_iff_toNat_le, UInt8.le_iff_toNat_le,
        UInt8.le_iff_toNat_le, UInt8.le_iff_toNat_le]
      have h13 : (13 : UInt8).toNat = 13 := rfl
      have h32 : (32 : UInt8).toNat = 32 := rfl
      omega
    rw [List.dropWhile_cons_of_neg (by rw [hspace]; exact Bool.false_ne_true)]

theorem pyInt_field (v : Nat) : pyInt (field v) = .ok v := by
  have hdigits : ∀ c ∈ field v, isdigit c = true := fun c hc => isdigit_field hc
  have hstrip : ((field v).dropWhile isPySpace).rdropWhile isPySpace = field v := by
    have hreverse : ∀ c ∈ (field v).reverse, isdigit c = true :=
      fun c hc => hdigits c (List.mem_reverse.mp hc)
    rw [dropWhile_digits hdigits, List.rdropWhile, dropWhile_digits hreverse, List.reverse_reverse]
  have hread := pyDigits_eq hdigits 0 (b := false) (.inr (field_ne_nil v))
  rw [foldl_field] at hread
  rw [pyInt, hstrip]
  cases hfield : field v with
  | nil => exact absurd hfield (field_ne_nil v)
  | cons c ds =>
    rw [hfield] at hread
    have hc : isdigit c = true := hdigits c (by rw [hfield]; exact List.mem_cons_self)
    have hminus : c ≠ ch '-' := by
      intro h
      rw [h] at hc
      exact absurd hc (by decide)
    have hplus : c ≠ ch '+' := by
      intro h
      rw [h] at hc
      exact absurd hc (by decide)
    dsimp only
    rw [if_neg hminus, if_neg hplus, hread]
    rfl

/-! ## Fields -/

theorem lineSplit_word {w : Bytes} (hne : w ≠ []) (hw : ch ' ' ∉ w) (rest : Bytes) :
    lineSplit (w ++ ch ' ' :: rest) = w :: lineSplit rest := words_word hne hw rest

theorem lineSplit_space (rest : Bytes) : lineSplit (ch ' ' :: rest) = lineSplit rest :=
  words_sep rest

theorem lineSplit_row (vs : List Nat) (rest : Bytes) :
    lineSplit (row vs ++ rest) = vs.map field ++ lineSplit rest := by
  induction vs with
  | nil => rfl
  | cons v vs ih =>
    rw [row_cons, List.append_assoc, List.cons_append,
      lineSplit_word (field_ne_nil v) (notMem_field (by decide) v), ih]
    rfl

theorem lineSplit_newline : lineSplit [newline] = [[newline]] :=
  words_last (List.cons_ne_nil _ _) (by decide)

theorem getElem?_flatMap {α β : Type} {f : α → List β} {w : Nat} (hf : ∀ x, (f x).length = w)
    (l : List α) (i : Nat) {j : Nat} (hj : j < w) :
    (l.flatMap f)[w * i + j]? = l[i]?.bind fun x => (f x)[j]? := by
  induction l generalizing i with
  | nil => rfl
  | cons x l ih =>
    rw [List.flatMap_cons]
    cases i with
    | zero =>
      rw [Nat.mul_zero, Nat.zero_add, List.getElem?_append_left (by rw [hf]; exact hj)]
      rfl
    | succ i =>
      have hindex : w * (i + 1) + j = w + (w * i + j) := by
        rw [Nat.mul_succ]
        omega
      rw [hindex, ← hf x, List.getElem?_append_right (Nat.le_add_right _ _),
        Nat.add_sub_cancel_left, hf x, ih]
      rfl

theorem getD_chunk {w n : Nat} {f : Nat → List Nat} (hf : ∀ i, (f i).length = w) {i : Nat}
    (hi : i < n) {j : Nat} (hj : j < w) (tail : List Bytes) :
    (((List.range n).flatMap f).map field ++ tail).getD (w * i + j) [] = field
    ((f i).getD j 0) := by
  have hsome : (((List.range n).flatMap f).map field)[w * i + j]? =
      some (field ((f i).getD j 0)) := by
    rw [List.getElem?_map, getElem?_flatMap hf _ _ hj, List.getElem?_range hi, Option.bind_some,
      List.getElem?_eq_getElem (by rw [hf]; exact hj), List.getD_eq_getElem?_getD,
      List.getElem?_eq_getElem (by rw [hf]; exact hj)]
    rfl
  obtain ⟨hlt, -⟩ := List.getElem?_eq_some_iff.mp hsome
  rw [List.getD_eq_getElem?_getD, List.getElem?_append_left hlt, hsome]
  rfl

/-! ## Lines -/

def pmLine (tick : Nat) (f : Nat → List Nat) : Bytes :=
  pmPrefix ++ ch ' ' :: (row (tick :: (List.range 512).flatMap f) ++ [newline])

def vmLine (pid tick : Nat) (f : Nat → List Nat) : Bytes :=
  vmPrefix ++ ch ' ' :: (field pid ++
    ch ' ' :: ch ' ' :: (row (tick :: (List.range 768).flatMap f) ++ [newline]))

theorem lineSplit_pmLine (tick : Nat) (f : Nat → List Nat) :
    lineSplit (pmLine tick f) =
        pmPrefix :: field tick :: (((List.range 512).flatMap f).map field ++ [[newline]]) := by
  rw [pmLine, lineSplit_word (by decide) (by decide), lineSplit_row, lineSplit_newline]
  rfl

theorem lineSplit_vmLine (pid tick : Nat) (f : Nat → List Nat) :
    lineSplit (vmLine pid tick f) =
      vmPrefix :: field pid :: field tick :: (((List.range 768).flatMap f).map field ++
          [[newline]]) := by
  rw [vmLine, lineSplit_word (by decide) (by decide),
    lineSplit_word (field_ne_nil pid) (notMem_field (by decide) pid),
    lineSplit_space, lineSplit_row, lineSplit_newline]
  rfl

theorem length_chunks {w : Nat} {f : Nat → List Nat} (hf : ∀ i, (f i).length = w) (n : Nat) :
    (((List.range n).flatMap f).map field ++ [[newline]]).length = n * w + 1 := by
  have hsum : ((List.range n).map fun i => (f i).length).sum = n * w := by
    rw [List.map_congr_left fun i _ => hf i, List.map_const', List.length_range,
      List.sum_replicate_nat]
  rw [List.length_append, List.length_map, List.length_flatMap, hsum]
  rfl

theorem pmEntries_eq {fields : List Bytes} {a b : Nat → Nat} {l : List Nat}
    (h : ∀ i ∈ l, fields.getD (2 * i + 2) [] = field (a i) ∧
      fields.getD (2 * i + 3) [] = field (b i)) :
    pmEntries fields l = .ok (l.map fun i => ⟨a i, b i⟩) := by
  induction l with
  | nil => rfl
  | cons i l ih =>
    obtain ⟨ha, hb⟩ := h i List.mem_cons_self
    rw [pmEntries, ha, hb, pyInt_field, pyInt_field, ih fun j hj => h j (List.mem_cons_of_mem i hj)]
    rfl

theorem vmEntries_eq {fields : List Bytes} {a b c : Nat → Nat} {l : List Nat}
    (h : ∀ i ∈ l, fields.getD (3 * i + 3) [] = field (a i) ∧
      fields.getD (3 * i + 4) [] = field (b i) ∧
      fields.getD (3 * i + 5) [] = field (c i)) :
    vmEntries fields l = .ok (l.map fun i => ⟨a i, b i, pteUserBit (c i), c i⟩) := by
  induction l with
  | nil => rfl
  | cons i l ih =>
    obtain ⟨ha, hb, hc⟩ := h i List.mem_cons_self
    rw [vmEntries, ha, hb, hc, pyInt_field, pyInt_field, pyInt_field,
      ih fun j hj => h j (List.mem_cons_of_mem i hj)]
    rfl

theorem parseLine_pm {t : Timeline} {tick : Nat} (hfresh : (t.at tick).pmState = none)
    (a b : Nat → Nat) :
    parseLine t (pmLine tick fun i => [a i, b i]) =
      .ok (t.put tick { t.at tick with
          pmState := some ((List.range 512).map fun i => ⟨a i, b i⟩) }) := by
  generalize hf : (fun i => [a i, b i]) = f
  have hwidth (i : Nat) : (f i).length = 2 := by
    rw [← hf]
    rfl
  have hlabel : pmPrefix.isPrefixOf (pmLine tick f) = true := by
    rw [List.isPrefixOf_iff_prefix]
    exact List.prefix_append _ _
  have hdata : pmEntries (lineSplit (pmLine tick f)) (List.range 512) =
      .ok ((List.range 512).map fun i => ⟨a i, b i⟩) := by
    apply pmEntries_eq
    intro i hi
    rw [List.mem_range] at hi
    have hchunk (j : Nat) (hj : j < 2) := getD_chunk hwidth hi hj [[newline]]
    rw [lineSplit_pmLine]
    refine ⟨?_, ?_⟩
    · rw [List.getD_cons_succ, List.getD_cons_succ, ← Nat.add_zero (2 * i),
        hchunk 0 (by decide), ← hf]
      rfl
    · rw [List.getD_cons_succ, List.getD_cons_succ, hchunk 1 (by decide), ← hf]
      rfl
  have hlength : pyAssert (((lineSplit (pmLine tick f)).length : Int) - 3 = 512 * 2) = .ok () := by
    rw [lineSplit_pmLine, List.length_cons, List.length_cons, length_chunks hwidth]
    rfl
  have htick : (lineSplit (pmLine tick f)).getD 1 [] = field tick := by
    rw [lineSplit_pmLine]
    rfl
  have hset (data : List PMEntry) : (t.at tick).setPmState data =
      .ok { t.at tick with pmState := some data } := by
    rw [MemMapInstance.setPmState, hfresh]
    rfl
  rw [parseLine, if_pos hlabel]
  simp only [hlength, htick, pyInt_field, hdata, hset, ok_bind]

theorem parseLine_vm {t : Timeline} {pid tick : Nat} (hfresh : (t.at tick).vmState pid = none)
    (a b c : Nat → Nat) :
    parseLine t (vmLine pid tick fun i => [a i, b i, c i]) =
      .ok (t.put tick { t.at tick with
        vmState := Function.update (t.at tick).vmState pid
          (some ((List.range 768).map fun i => ⟨a i, b i, pteUserBit (c i), c i⟩)) }) := by
  generalize hf : (fun i => [a i, b i, c i]) = f
  have hwidth (i : Nat) : (f i).length = 3 := by
    rw [← hf]
    rfl
  have hlabel : vmPrefix.isPrefixOf (vmLine pid tick f) = true := by
    rw [List.isPrefixOf_iff_prefix]
    exact List.prefix_append _ _
  have hdata : vmEntries (lineSplit (vmLine pid tick f)) (List.range 768) =
      .ok ((List.range 768).map fun i => ⟨a i, b i, pteUserBit (c i), c i⟩) := by
    apply vmEntries_eq
    intro i hi
    rw [List.mem_range] at hi
    have hchunk (j : Nat) (hj : j < 3) := getD_chunk hwidth hi hj [[newline]]
    rw [lineSplit_vmLine]
    refine ⟨?_, ?_, ?_⟩
    · rw [List.getD_cons_succ, List.getD_cons_succ, List.getD_cons_succ, ← Nat.add_zero (3 * i),
        hchunk 0 (by decide), ← hf]
      rfl
    · rw [List.getD_cons_succ, List.getD_cons_succ, List.getD_cons_succ, hchunk 1 (by decide), ← hf]
      rfl
    · rw [List.getD_cons_succ, List.getD_cons_succ, List.getD_cons_succ, hchunk 2 (by decide), ← hf]
      rfl
  have hlength : pyAssert (((lineSplit (vmLine pid tick f)).length : Int) - 4 = 768 * 3) =
      .ok () := by
    rw [lineSplit_vmLine, List.length_cons, List.length_cons, List.length_cons,
      length_chunks hwidth]
    rfl
  have hpid : (lineSplit (vmLine pid tick f)).getD 1 [] = field pid := by
    rw [lineSplit_vmLine]
    rfl
  have htick : (lineSplit (vmLine pid tick f)).getD 2 [] = field tick := by
    rw [lineSplit_vmLine]
    rfl
  have hset (data : List VMEntry) : (t.at tick).addVmState pid data =
      .ok { t.at tick with vmState := Function.update (t.at tick).vmState pid (some data) } := by
    rw [MemMapInstance.addVmState, hfresh]
    rfl
  have hother : ¬pmPrefix.isPrefixOf (vmLine pid tick f) = true := Bool.false_ne_true
  rw [parseLine, if_neg hother, if_pos hlabel]
  simp only [hlength, hpid, htick, pyInt_field, hdata, hset, ok_bind]

/-! ## The lines of a log -/

theorem universal_eq {text : Bytes} (h : 13 ∉ text) : universal false text = text := by
  induction text with
  | nil => rfl
  | cons c text ih =>
    rw [List.mem_cons, not_or] at h
    rw [universal, if_neg fun hc => h.1 hc.symm, if_neg fun hc => Bool.false_ne_true hc.1, ih h.2]

theorem readlines_line {line : Bytes} (h : newline ∉ line) (rest : Bytes) :
    readlines (line ++ newline :: rest) = (line ++ [newline]) :: readlines rest := by
  induction line with
  | nil => rfl
  | cons c line ih =>
    rw [List.mem_cons, not_or] at h
    rw [List.cons_append, readlines, if_neg fun hc => h.1 hc.symm, ih h.2]
    rfl

theorem notMem_row {c : UInt8} (hc : isdigit c = false) (hspace : c ≠ ch ' ') (vs : List Nat) :
    c ∉ row vs := by
  induction vs with
  | nil => exact List.not_mem_nil
  | cons v vs ih =>
    rw [row_cons, List.mem_append, List.mem_cons, not_or, not_or]
    exact ⟨notMem_field hc v, hspace, ih⟩

/-- A line of the log: its only newline ends it, and it has no carriage return. -/
structure IsLine (line : Bytes) : Prop where
  ended : ∃ body, line = body ++ [newline] ∧ newline ∉ body
  noReturn : 13 ∉ line

theorem IsLine.readlines {line : Bytes} (h : IsLine line) (rest : Bytes) :
    readlines (line ++ rest) = line :: readlines rest := by
  obtain ⟨body, rfl, hbody⟩ := h.ended
  rw [List.append_assoc]
  exact readlines_line hbody rest

theorem isLine_of_body {body : Bytes} (hnewline : newline ∉ body) (hreturn : 13 ∉ body) :
    IsLine (body ++ [newline]) := by
  refine ⟨⟨body, rfl, hnewline⟩, ?_⟩
  rw [List.mem_append, not_or]
  exact ⟨hreturn, by decide⟩

theorem isLine_pmLine (tick : Nat) (f : Nat → List Nat) : IsLine (pmLine tick f) := by
  have hbody {c : UInt8} (hdigit : isdigit c = false) (hspace : c ≠ ch ' ')
    (hlabel : c ∉ pmPrefix) :
      c ∉ pmPrefix ++ ch ' ' :: row (tick :: (List.range 512).flatMap f) := by
    rw [List.mem_append, List.mem_cons, not_or, not_or]
    exact ⟨hlabel, hspace, notMem_row hdigit hspace _⟩
  have hline := isLine_of_body (hbody (by decide) (by decide) (by decide))
    (hbody (by decide) (by decide) (by decide))
  rw [List.append_assoc] at hline
  exact hline

theorem isLine_vmLine (pid tick : Nat) (f : Nat → List Nat) : IsLine (vmLine pid tick f) := by
  have hbody {c : UInt8} (hdigit : isdigit c = false) (hspace : c ≠ ch ' ')
    (hlabel : c ∉ vmPrefix) :
      c ∉ vmPrefix ++ ch ' ' ::
          (field pid ++ ch ' ' :: ch ' ' :: row (tick :: (List.range 768).flatMap f)) := by
    simp only [List.mem_append, List.mem_cons, not_or]
    exact ⟨hlabel, hspace, notMem_field hdigit pid, hspace, hspace, notMem_row hdigit hspace _⟩
  have hline := isLine_of_body (hbody (by decide) (by decide) (by decide))
    (hbody (by decide) (by decide) (by decide))
  simp only [List.append_assoc, List.cons_append] at hline
  exact hline

/-! ## The entry of a tick -/

theorem put_at (t : Timeline) (tick : Int) (inst : MemMapInstance) :
    (t.put tick inst).at tick = inst := by
  unfold Timeline.at Timeline.put
  dsimp only
  rw [Function.update_self]
  rfl

theorem put_put (t : Timeline) (tick : Int) (inst inst' : MemMapInstance) :
    (t.put tick inst).put tick inst' = t.put tick inst' := by
  unfold Timeline.put
  dsimp only
  rw [Function.update_idem]

end Csc412.Kernel.Log
