import Csc412.Inklings.Layout

/-!
# The lines of a file in the layout

A line of an item is read as its key and value, and the other lines change nothing. So the
file is loaded as its items are applied one after another.
-/

namespace Csc412.Inklings
open Lib.CString

/-! ## Trimming -/

def Trimmed (s : Bytes) : Prop :=
  (∀ c ∈ s.head?, isspace c = false) ∧ ∀ c ∈ s.getLast?, isspace c = false

theorem Blank.dropWhile {a : Bytes} (ha : Blank a) (s : Bytes) :
    (a ++ s).dropWhile isspace = s.dropWhile isspace := by
  rw [List.dropWhile_append_of_pos]
  intro c hc
  exact (ha c hc).1

theorem Blank.rdropWhile {b : Bytes} (hb : ∀ c ∈ b, isspace c) (s : Bytes) :
    (s ++ b).rdropWhile isspace = s.rdropWhile isspace := by
  rw [List.rdropWhile, List.rdropWhile, List.reverse_append, List.dropWhile_append_of_pos]
  intro c hc
  exact hb c (List.mem_reverse.mp hc)

theorem Trimmed.dropWhile {s : Bytes} (hs : Trimmed s) (t : Bytes) (hne : s ≠ []) :
    (s ++ t).dropWhile isspace = s ++ t := by
  obtain ⟨c, s, rfl⟩ := List.exists_cons_of_ne_nil hne
  rw [List.cons_append, List.dropWhile_cons, hs.1 c rfl]
  rfl

theorem Trimmed.rdropWhile {s : Bytes} (hs : Trimmed s) : s.rdropWhile isspace = s := by
  rw [List.rdropWhile_eq_self_iff]
  intro hne
  rw [hs.2 _ (List.getLast?_eq_getLast_of_ne_nil hne)]
  exact Bool.false_ne_true

theorem trim_pad {a s b : Bytes} (ha : Blank a) (hb : ∀ c ∈ b, isspace c) (hs : Trimmed s) :
    trim (a ++ (s ++ b)) = s := by
  rw [trim, ha.dropWhile]
  by_cases hne : s = []
  · rw [hne, List.nil_append, List.dropWhile_eq_nil_iff.mpr hb, List.rdropWhile_nil]
  · rw [hs.dropWhile b hne, Blank.rdropWhile hb, hs.rdropWhile]

theorem trim_blank {a : Bytes} (ha : ∀ c ∈ a, isspace c) : trim a = [] := by
  rw [trim, List.dropWhile_eq_nil_iff.mpr ha, List.rdropWhile_nil]

/-! ## Lines -/

theorem Blank.zero_notMem {a : Bytes} (ha : Blank a) : 0 ∉ a := by
  intro hmem
  exact absurd (ha 0 hmem).1 (by decide)

def keyOk (key : Bytes) : Bool := !key.isEmpty && key.all fun c => (97 ≤ c && c ≤ 122) || c == 95

section
variable {key : Bytes} (hkey : keyOk key = true)
include hkey

theorem key_ne_nil : key ≠ [] := by
  rintro rfl
  cases hkey

theorem key_char {c : UInt8} (hc : c ∈ key) : isspace c = false ∧ c ≠ 58 ∧ c ≠ 35 ∧ c ≠ 0 := by
  rw [keyOk, Bool.and_eq_true, List.all_eq_true] at hkey
  have hchar := hkey.2 c hc
  rw [Bool.or_eq_true, Bool.and_eq_true, decide_eq_true_eq, decide_eq_true_eq, beq_iff_eq] at hchar
  obtain ⟨hlow, -⟩ | rfl := hchar
  · refine ⟨isspace_digit (UInt8.le_trans (by decide) hlow), ?_, ?_, ?_⟩ <;> rintro rfl <;>
      exact absurd hlow (by decide)
  · decide

theorem key_colon : 58 ∉ key := fun h => (key_char hkey h).2.1 rfl

theorem key_zero : 0 ∉ key := fun h => (key_char hkey h).2.2.2 rfl

theorem key_trimmed : Trimmed key :=
  ⟨fun _ hc => (key_char hkey (List.mem_of_mem_head? hc)).1,
    fun _ hc => (key_char hkey (List.mem_of_mem_getLast? hc)).1⟩

theorem key_colon_trimmed {tail : Bytes} (htail : ∀ c ∈ tail.getLast?, isspace c = false) :
    Trimmed (key ++ 58 :: tail) := by
  obtain ⟨k, ks, rfl⟩ := List.exists_cons_of_ne_nil (key_ne_nil hkey)
  refine ⟨(key_trimmed hkey).1, fun c hc => ?_⟩
  rw [List.getLast?_append_of_ne_nil _ (List.cons_ne_nil _ _), List.getLast?_cons] at hc
  cases htl : tail.getLast? with
  | none =>
    rw [htl] at hc
    obtain rfl : 58 = c := Option.some.inj hc
    rfl
  | some d =>
    rw [htl] at hc
    obtain rfl : d = c := Option.some.inj hc
    exact htail d htl

end

theorem trim_item {i : Item} {line : Bytes} (hline : ItemLine i line) (hkey : keyOk i.key = true)
    (hvalue : Trimmed i.value) (hzero : 0 ∉ i.value) :
    ∃ tail, trim (cstr line) = i.key ++ 58 :: tail ∧ trim tail = i.value := by
  obtain ⟨indent, gap, trail, hindent, hgap, htrail, rfl⟩ := hline
  have hbuffer : 0 ∉ indent ++ (i.key ++ 58 :: (gap ++ (i.value ++ trail))) := by
    have hindent' := hindent.zero_notMem
    have hgap' := hgap.zero_notMem
    have htrail' := htrail.zero_notMem
    have hkey' := key_zero hkey
    simp [hindent', hgap', htrail', hkey', hzero]
  have hend : ∀ c ∈ trail, isspace c := fun c hc => (htrail c hc).1
  rw [cstr_eq hbuffer]
  by_cases hv : i.value = []
  · refine ⟨[], ?_, by rw [hv]; rfl⟩
    have hrest : ∀ c ∈ gap ++ trail, isspace c := by
      intro c hc
      obtain hc | hc := List.mem_append.mp hc
      · exact (hgap c hc).1
      · exact hend c hc
    have hpad := trim_pad hindent hrest
      (key_colon_trimmed hkey (by simp : ∀ c ∈ ([] : Bytes).getLast?, isspace c = false))
    rw [hv]
    simpa using hpad
  · refine ⟨gap ++ i.value, ?_, ?_⟩
    · have hlast : ∀ c ∈ (gap ++ i.value).getLast?, isspace c = false := by
        rw [List.getLast?_append_of_ne_nil _ hv]
        exact hvalue.2
      have hpad := trim_pad hindent hend (key_colon_trimmed hkey hlast)
      simpa using hpad
    · have hpad := @trim_pad gap i.value [] hgap (by simp) hvalue
      simpa using hpad

/-! ## Items -/

theorem takeWhile_colon {key : Bytes} (hkey : 58 ∉ key) (tail : Bytes) :
    (key ++ 58 :: tail).takeWhile (· ≠ 58) = key := by
  rw [List.takeWhile_append_of_pos]
  · simp
  · intro c hc
    rw [decide_eq_true_eq]
    rintro rfl
    exact hkey hc

theorem dropWhile_colon {key : Bytes} (hkey : 58 ∉ key) (tail : Bytes) :
    (key ++ 58 :: tail).dropWhile (· ≠ 58) = 58 :: tail := by
  rw [List.dropWhile_append_of_pos]
  · simp
  · intro c hc
    rw [decide_eq_true_eq]
    rintro rfl
    exact hkey hc

theorem prefix_colon {name key tail : Bytes} (hname : 58 ∉ name) (hkey : 58 ∉ key) :
    name ++ [58] <+: key ++ 58 :: tail ↔ name = key := by
  constructor
  · intro ⟨rest, h⟩
    rw [List.append_assoc, List.singleton_append] at h
    rw [← takeWhile_colon hname rest, h, takeWhile_colon hkey]
  · rintro rfl
    exact ⟨tail, by simp⟩

def topLevelKey (key : Bytes) : Option Section := topLevel (key ++ [58])

def nestedKey (current : Section) (key : Bytes) : Option Section := nested current (key ++ [58])

theorem topLevel_colon {key : Bytes} (hkey : 58 ∉ key) (tail : Bytes) :
    topLevel (key ++ 58 :: tail) = topLevelKey key := by
  have hsame : ∀ name, 58 ∉ name →
      (name ++ [58] <+: key ++ 58 :: tail ↔ name ++ [58] <+: key ++ [58]) := by
    intro name hname
    rw [prefix_colon hname hkey, prefix_colon hname hkey]
  rw [topLevelKey, topLevel, topLevel]
  simp only [show str "logs:" = str "logs" ++ [58] from rfl,
    show str "simulation:" = str "simulation" ++ [58] from rfl,
    show str "ink:" = str "ink" ++ [58] from rfl,
    show str "timing:" = str "timing" ++ [58] from rfl,
    show str "event_loop:" = str "event_loop" ++ [58] from rfl,
    show str "producers:" = str "producers" ++ [58] from rfl,
    show str "io:" = str "io" ++ [58] from rfl, show str "ui:" = str "ui" ++ [58] from rfl]
  simp only [hsame (str "logs") (by decide), hsame (str "simulation") (by decide),
    hsame (str "ink") (by decide), hsame (str "timing") (by decide),
    hsame (str "event_loop") (by decide), hsame (str "producers") (by decide),
    hsame (str "io") (by decide), hsame (str "ui") (by decide)]

theorem nested_colon {key : Bytes} (hkey : 58 ∉ key) (current : Section) (tail : Bytes) :
    nested current (key ++ 58 :: tail) = nestedKey current key := by
  have hsame : ∀ name, 58 ∉ name →
      (name ++ [58] <+: key ++ 58 :: tail ↔ name ++ [58] <+: key ++ [58]) := by
    intro name hname
    rw [prefix_colon hname hkey, prefix_colon hname hkey]
  rw [nestedKey, nested, nested]
  simp only [show str "icon_directions:" = str "icon_directions" ++ [58] from rfl,
    show str "messages:" = str "messages" ++ [58] from rfl]
  simp only [hsame (str "icon_directions") (by decide), hsame (str "messages") (by decide)]

def applyItem (st : Loader) (i : Item) : Loader :=
  match topLevelKey i.key with
  | some opened => { st with current := opened }
  | none =>
    match nestedKey st.current i.key with
    | some opened => { st with current := opened }
    | none => { st with cfg := dispatch st.cfg st.current i.key (stripQuotes i.value) }

structure Item.Ok (i : Item) : Prop where
  key : keyOk i.key = true
  trimmed : Trimmed i.value
  ended : 0 ∉ i.value

theorem processLine_item {i : Item} {line : Bytes} (hline : ItemLine i line) (hi : i.Ok)
    (st : Loader) :
    processLine st line = applyItem st i := by
  obtain ⟨tail, hp, htail⟩ := trim_item hline hi.key hi.trimmed hi.ended
  have hkey := key_colon hi.key
  obtain ⟨k, ks, hk⟩ := List.exists_cons_of_ne_nil (key_ne_nil hi.key)
  have hhead : (i.key ++ 58 :: tail).head? ≠ some 35 := by
    rw [hk, List.cons_append, List.head?_cons]
    intro h
    exact (key_char hi.key (by rw [hk]; exact List.mem_cons_self)).2.2.1 (Option.some.inj h)
  have hne : i.key ++ 58 :: tail ≠ [] := by simp
  have htrim : trim i.key = i.key := by
    have hpad := @trim_pad [] i.key [] (by simp [Blank]) (by simp) (key_trimmed hi.key)
    simpa using hpad
  have hcolon : 58 ∈ i.key ++ 58 :: tail := by simp
  rw [processLine, hp, applyItem]
  simp only [if_neg (not_or.mpr ⟨hne, hhead⟩), topLevel_colon hkey, nested_colon hkey]
  cases topLevelKey i.key with
  | some opened => rfl
  | none =>
    cases nestedKey st.current i.key with
    | some opened => rfl
    | none =>
      simp only [if_pos hcolon, takeWhile_colon hkey, dropWhile_colon hkey, List.tail_cons,
        htrim, htail]

theorem Inert.trim_cstr {line : Bytes} (hline : Inert line) :
    trim (cstr line) = [] ∨ (trim (cstr line)).head? = some 35 := by
  obtain ⟨indent, rest, hindent, hrest, rfl⟩ := hline
  rw [cstr_append hindent.zero_notMem]
  obtain rfl | hrest := hrest
  · left
    apply trim_blank
    intro c hc
    rw [show cstr [] = [] from rfl, List.append_nil] at hc
    exact (hindent c hc).1
  · right
    obtain ⟨rest, rfl⟩ : ∃ r, rest = 35 :: r := by
      cases rest with
      | nil => cases hrest
      | cons c r => exact ⟨r, by rw [Option.some.inj hrest]⟩
    have hcut : cstr (35 :: rest) = 35 :: cstr rest := rfl
    rw [hcut, trim, hindent.dropWhile]
    show ((35 :: cstr rest).rdropWhile isspace).head? = some 35
    rw [← List.singleton_append, List.rdropWhile, List.reverse_append, List.dropWhile_append]
    split
    · rfl
    · rw [List.reverse_append]
      rfl

theorem processLine_inert {line : Bytes} (hline : Inert line) (st : Loader) :
    processLine st line = st := by
  rw [processLine]
  exact if_pos hline.trim_cstr

/-! ## Files -/

theorem trim_newline (line : Bytes) : trim (cstr (line ++ [newline])) = trim (cstr line) := by
  by_cases hzero : 0 ∈ line
  · obtain ⟨a, b, rfl, ha⟩ := List.eq_append_cons_of_mem hzero
    have hcut : ∀ c, cstr (a ++ 0 :: c) = a := fun c => by
      rw [cstr_append ha]
      exact List.append_nil a
    rw [List.append_assoc, List.cons_append, hcut, hcut]
  · have hended : 0 ∉ line ++ [newline] := by simp [hzero, newline]
    have hspace : ∀ c ∈ [newline], isspace c := by simp; rfl
    rw [cstr_eq hended, cstr_eq hzero]
    by_cases hblank : ∀ c ∈ line, isspace c
    · rw [trim_blank hblank, trim_blank]
      intro c hc
      exact (List.mem_append.mp hc).elim (hblank c) (hspace c)
    · rw [trim, List.dropWhile_append, if_neg, Blank.rdropWhile hspace, trim]
      rw [List.isEmpty_iff, List.dropWhile_eq_nil_iff]
      exact hblank

theorem processLine_newline (st : Loader) (line : Bytes) :
    processLine st (line ++ [newline]) = processLine st line := by
  rw [processLine, processLine, trim_newline]

theorem loadLoop_file {lines : List Bytes}
    (hlines : ∀ line ∈ lines, newline ∉ line ∧ line.length < 511) (st : Loader) :
    loadLoop st (fileOf lines) = lines.foldl processLine st := by
  induction lines generalizing st with
  | nil => rw [fileOf, List.flatMap_nil, loadLoop, dif_pos rfl, List.foldl_nil]
  | cons line lines ih =>
    obtain ⟨hline, hlen⟩ := hlines line List.mem_cons_self
    have hfile : fileOf (line :: lines) = line ++ newline :: fileOf lines := by simp [fileOf]
    rw [loadLoop, dif_neg (by simp [hfile]), hfile, fgets_line hline _ hlen, processLine_newline,
      List.foldl_cons]
    exact ih (fun l hl => hlines l (List.mem_cons_of_mem _ hl)) _

theorem foldl_laid {is : List Item} {lines : List Bytes} (hlaid : Laid is lines)
    (his : ∀ i ∈ is, i.Ok) (st : Loader) :
    lines.foldl processLine st = is.foldl applyItem st := by
  induction hlaid generalizing st with
  | nil => rfl
  | item hline _ ih =>
    rw [List.foldl_cons, List.foldl_cons, processLine_item hline (his _ List.mem_cons_self)]
    exact ih (fun i hi => his i (List.mem_cons_of_mem _ hi)) _
  | inert hline _ ih =>
    rw [List.foldl_cons, processLine_inert hline]
    exact ih his st

end Csc412.Inklings
