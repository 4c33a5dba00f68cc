import Csc412.Inklings.ConfigSound
import Csc412.Inklings.Source

/-!
# Quoted strings in C and in Go

Go gets the value of a double-quoted scalar, and C what the last piece that it takes for the
key has between the quotes, as far as the buffer of the field goes. When that piece is the
line of the key, the two are the same exactly when the piece ends with the closing quote and
nothing is escaped, or it ends with some quote and the text is cut where the value ends:
`quoted_agree_iff`.
-/

namespace Csc412.Inklings
open Lib.CString Lib.Yaml

/-! ## The key of a line -/

theorem rdropWhile_stop {c : UInt8} (hc : isspace c = false) (a b : Bytes) :
    (a ++ c :: b).rdropWhile isspace = a ++ c :: b.rdropWhile isspace := by
  induction b using List.reverseRecOn with
  | nil =>
    rw [List.rdropWhile_nil, List.rdropWhile_concat_neg
      _ _ _ (by rw [hc]; exact Bool.false_ne_true)]
  | append_singleton b d ih =>
    rw [← List.cons_append, ← List.append_assoc]
    by_cases hd : isspace d = true
    · rw [List.rdropWhile_concat_pos _ _ _ hd, List.rdropWhile_concat_pos _ _ _ hd, ih]
    · rw [List.rdropWhile_concat_neg _ _ _ hd, List.rdropWhile_concat_neg _ _ _ hd,
        List.append_assoc, List.cons_append]

theorem lineKey_colon {key : Bytes} (hkey : 58 ∉ key) (htrim : trim key = key) (tail : Bytes) :
    lineKey (key ++ 58 :: tail) = key := by
  rw [lineKey, takeWhile_colon hkey, htrim]

theorem lineKey_of_stem {name p : Bytes} (hname : 58 ∉ name) (htrim : trim name = name)
    (h : name ++ [58] <+: p) :
    lineKey p = name := by
  obtain ⟨rest, rfl⟩ := h
  rw [List.append_assoc]
  exact lineKey_colon hname htrim rest

def headers : List Bytes :=
  [str "logs", str "simulation", str "ink", str "timing", str "event_loop", str "producers",
    str "io", str "ui", str "icon_directions", str "messages"]

theorem Header.key_mem {piece : Bytes} (h : Header piece) :
    lineKey (trim (cstr piece)) ∈ headers := by
  have hnames : ∀ name ∈ headers, name ++ [58] <+: trim (cstr piece) →
      lineKey (trim (cstr piece)) ∈ headers := by
    intro name hname hpre
    have hok : ∀ name ∈ headers, 58 ∉ name ∧ trim name = name := by decide
    rw [lineKey_of_stem (hok name hname).1 (hok name hname).2 hpre]
    exact hname
  obtain htop | hicon | hmessages := h
  · rw [topLevel] at htop
    split_ifs at htop with h₁ h₂ h₃ h₄ h₅ h₆ h₇ h₈
    · exact hnames (str "logs") (by decide) h₁
    · exact hnames (str "simulation") (by decide) h₂
    · exact hnames (str "ink") (by decide) h₃
    · exact hnames (str "timing") (by decide) h₄
    · exact hnames (str "event_loop") (by decide) h₅
    · exact hnames (str "producers") (by decide) h₆
    · exact hnames (str "io") (by decide) h₇
    · exact hnames (str "ui") (by decide) h₈
    · cases htop
  · exact hnames (str "icon_directions") (by decide) hicon
  · exact hnames (str "messages") (by decide) hmessages

theorem lineKey_head {c : UInt8} (hspace : isspace c = false) (hcolon : c ≠ 58) (p : Bytes) :
    (lineKey (c :: p)).head? = some c := by
  rw [lineKey, List.takeWhile_cons_of_pos (by simpa using hcolon), trim,
    List.dropWhile_cons_of_neg (by rw [hspace]; exact Bool.false_ne_true)]
  exact congrArg List.head? (rdropWhile_stop hspace [] _)

theorem lineKey_trim {a : Bytes} (ha : 58 ∉ a) (b : Bytes) :
    lineKey (trim (a ++ 58 :: b)) = trim a := by
  have hdrop : (a ++ 58 :: b).dropWhile isspace = a.dropWhile isspace ++ 58 :: b := by
    rw [List.dropWhile_append]
    split
    · rename_i hempty
      rw [List.isEmpty_iff.mp hempty]
      rfl
    · rfl
  have hcolon : 58 ∉ a.dropWhile isspace := fun hmem => ha ((List.dropWhile_sublist _).subset hmem)
  rw [trim, hdrop, rdropWhile_stop rfl, lineKey, takeWhile_colon hcolon, trim, trim,
    List.dropWhile_idempotent]

/-! ## What is stored for a key -/

theorem processLine_enter (st : Loader) (piece : Bytes) :
    (processLine st piece).current = enter st.current piece := by
  rw [enter, processLine, processLine]
  simp only []
  split
  · rfl
  · split
    · rfl
    · split
      · rfl
      · split <;> rfl

theorem foldl_runLine (lines : List Bytes) (st : Loader) :
    lines.foldl runLine st = (lines.flatMap pieces).foldl processLine st := by
  induction lines generalizing st with
  | nil => rfl
  | cons line lines ih => rw [List.foldl_cons, ih, List.flatMap_cons, List.foldl_append, runLine]

namespace StringKey
variable (k : StringKey)

theorem loaded_config (doc : Go.Document) : k.loaded doc.config = doc.text k.path := by
  cases k <;> rfl

theorem key_ok : keyOk (str k.key) = true := by
  cases k <;> decide

theorem stored_zero : k.stored .zero = [] := by
  cases k <;> rfl

theorem stored_dispatch (c : AppConfig) (s : Section) (key value : Bytes) :
    k.stored (dispatch c s key value) =
      if s = k.sect ∧ key = str k.key then k.cut value else k.stored c := by
  by_cases hs : s = k.sect
  · subst hs
    by_cases hkey : key = str k.key
    · rw [if_pos ⟨rfl, hkey⟩, hkey]
      cases k <;> rfl
    · rw [if_neg fun h => hkey h.2]
      cases k <;> simp only [sect, stored, dispatch, logsKey, ioKey, iconKey] <;> split_ifs <;>
        first | rfl | exact absurd ‹_› hkey
  · rw [if_neg fun h => hs h.1]
    cases k <;> cases s <;> first | rfl | exact absurd rfl hs

/-- A piece with the key before its first colon is neither a header nor a comment. -/
theorem Takes.plain {k : StringKey} {s : Section} {piece : Bytes} (h : k.Takes s piece) :
    ¬ Header piece ∧ KeyIn s piece := by
  obtain ⟨rfl, hcolon, hkey⟩ := h
  refine ⟨fun hheader => ?_, fun hhash => ?_, hcolon, ?_⟩
  · have hmem := hheader.key_mem
    rw [hkey] at hmem
    revert hmem
    cases k <;> decide
  · obtain ⟨p, hp⟩ := List.head?_eq_some_iff.mp hhash
    have hhead := lineKey_head (c := 35) rfl (by decide) p
    rw [← hp, hkey] at hhead
    revert hhead
    cases k <;> decide
  · rw [hkey]
    cases k <;> decide

theorem stored_piece (st : Loader) (piece : Bytes) :
    k.stored (processLine st piece).cfg =
      if k.Takes st.current piece then k.cut (lineValue (trim (cstr piece)))
          else k.stored st.cfg := by
  by_cases h : k.Takes st.current piece
  · rw [if_pos h, processLine_key h.plain.1 h.plain.2, stored_dispatch, if_pos ⟨h.1, h.2.2⟩]
  · rw [if_neg h]
    obtain hsame | ⟨hcolon, hset⟩ := processLine_cfg st piece
    · rw [hsame]
    · rw [hset, stored_dispatch, if_neg fun hboth => h ⟨hboth.1, hcolon, hboth.2⟩]

theorem taken_append (s : Section) (ps qs : List Bytes) :
    k.taken s (ps ++ qs) = k.taken s ps ++ k.taken (ps.foldl enter s) qs := by
  induction ps generalizing s with
  | nil => rfl
  | cons piece ps ih =>
    rw [List.cons_append, taken, taken, ih, List.foldl_cons]
    split <;> rfl

/-- The last value counts. -/
theorem stored_pieces (ps : List Bytes) (st : Loader) :
    k.stored (ps.foldl processLine st).cfg = ((k.taken st.current ps).getLast?.map k.cut).getD
        (k.stored st.cfg) := by
  induction ps generalizing st with
  | nil => rfl
  | cons piece ps ih =>
    rw [List.foldl_cons, ih, processLine_enter, stored_piece, taken]
    split
    · rw [List.getLast?_cons]
      cases (k.taken (enter st.current piece) ps).getLast? <;> rfl
    · rfl

end StringKey

/-! ## The first piece of the line -/

theorem stripQuotes_open {v : Bytes} (h : v.getLast? ≠ some 34) :
    stripQuotes (34 :: v) = 34 :: v := by
  rw [stripQuotes, if_neg]
  rintro ⟨hlen, -, hlast⟩
  have hne : v ≠ [] := by
    rintro rfl
    exact absurd hlen (by decide)
  rw [List.getLast?_cons_of_ne_nil hne] at hlast
  exact h hlast

theorem Blank.notMem {a : Bytes} (ha : Blank a) {b : UInt8} (hb : isspace b = false) : b ∉ a := by
  intro hmem
  rw [(ha b hmem).1] at hb
  cases hb

theorem trim_sublist (s : Bytes) : (trim s).Sublist s :=
  (List.rdropWhile_prefix _ _).sublist.trans (List.dropWhile_sublist _)

theorem text_zero (s : Scalar) : 0 ∉ s.text := fun hmem => (Scalar.text_range hmem).1 rfl

theorem text_quote (s : Scalar) : 34 ∉ s.text := fun hmem => (Scalar.text_range hmem).2.2 rfl

theorem text_newline (s : Scalar) : newline ∉ s.text := fun hmem => (Scalar.text_range hmem).2.1 rfl

theorem pieces_append {a : Bytes} {n : Nat} (ha : a.length = n * 511) (b : Bytes) :
    pieces (a ++ b) = pieces a ++ pieces b := by
  induction n generalizing a with
  | zero =>
    obtain rfl : a = [] := List.eq_nil_of_length_eq_zero (by omega)
    rw [pieces_nil]
    rfl
  | succ n ih =>
    have hne : a ≠ [] := by
      rintro rfl
      rw [List.length_nil] at ha
      omega
    have hlen : 511 ≤ a.length := by omega
    rw [pieces_cons hne, pieces_cons (List.append_ne_nil_of_left_ne_nil hne b),
      List.take_append_of_le_length hlen,
      List.drop_append_of_le_length hlen, ih (by rw [List.length_drop]; omega), List.cons_append]

namespace KeyFile
variable {k : StringKey} {s : Scalar} (f : KeyFile k s)

theorem lead_free {b : UInt8} (hb : b = 0 ∨ b = newline) : b ∉ f.lead := by
  have hkey : b ∉ str k.key := by
    obtain rfl | rfl := hb <;> cases k <;> decide
  have hblank : ∀ a : Bytes, Blank a → b ∉ a := by
    intro a ha hmem
    obtain rfl | rfl := hb
    · exact ha.zero_notMem hmem
    · exact (ha _ hmem).2 rfl
  have hcolon : b ≠ 58 := by
    obtain rfl | rfl := hb <;> decide
  rw [lead, List.mem_append, List.mem_append, List.mem_append, List.mem_cons, not_or, not_or,
    not_or, not_or]
  exact ⟨hblank _ f.indent_blank, hkey, hblank _ f.space_blank, hcolon, hblank _ f.gap_blank⟩

theorem line_newline : newline ∉ f.line := by
  have htail : newline ∉ f.tail.bytes := f.free f.tail.bytes (by simp)
  have hlead := f.lead_free (.inr rfl)
  have htext := text_newline s
  rw [line, List.mem_append, List.mem_cons, List.mem_append]
  simp only [hlead, htext, htail, or_false, false_or]
  decide

theorem start_le : f.start ≤ f.lead.length ∧ f.lead.length - f.start ≤ 510 := by
  rw [start]
  omega

theorem own_eq : cstr f.own = f.lead.drop f.start ++ 34 :: cstr
    ((s.text ++ f.tail.bytes).take (510 - (f.lead.length - f.start))) := by
  obtain ⟨hstart, hlen⟩ := f.start_le
  have hzero : 0 ∉ f.lead.drop f.start ++ [34] := by
    rw [List.mem_append, not_or]
    exact ⟨fun hmem => f.lead_free (.inl rfl) (List.mem_of_mem_drop hmem), by decide⟩
  have hown : f.own = (f.lead.drop f.start ++ [34]) ++ (s.text ++ f.tail.bytes).take
      (510 - (f.lead.length - f.start)) := by
    rw [own, line, List.drop_append_of_le_length hstart, List.take_append,
      List.take_of_length_le (by rw [List.length_drop]; omega), List.length_drop,
      show 511 - (f.lead.length - f.start) = 510 - (f.lead.length - f.start) + 1 by omega,
      List.take_succ_cons, List.append_assoc]
    rfl
  rw [hown, cstr_append hzero, List.append_assoc]
  rfl

theorem name_colon : 58 ∉ str k.key ++ f.space := by
  rw [List.mem_append, not_or]
  exact ⟨key_colon k.key_ok, f.space_blank.notMem rfl⟩

section
variable (h : f.start ≤ f.indent.length)
include h

theorem trim_own : trim (cstr f.own) = (str k.key ++ f.space) ++ 58 :: (f.gap ++ 34 :: f.held) := by
  have hindent : Blank (f.indent.drop f.start) :=
    fun c hc => f.indent_blank c (List.mem_of_mem_drop hc)
  have hne : str k.key ≠ [] := key_ne_nil k.key_ok
  rw [own_eq, held]
  generalize cstr ((s.text ++ f.tail.bytes).take (510 - (f.lead.length - f.start))) = w
  rw [lead, List.drop_append_of_le_length h, List.append_assoc, trim, hindent.dropWhile,
    List.append_assoc,
    (key_trimmed k.key_ok).dropWhile _ hne, ← List.append_assoc, rdropWhile_stop rfl]
  simp

theorem takes_own : k.Takes k.sect f.own := by
  have hspace : ∀ c ∈ f.space, isspace c := fun c hc => (f.space_blank c hc).1
  have hname : trim (str k.key ++ f.space) = str k.key :=
    trim_pad (a := []) nofun hspace (key_trimmed k.key_ok)
  refine ⟨rfl, ?_, ?_⟩
  · rw [f.trim_own h]
    simp
  · rw [f.trim_own h, lineKey, takeWhile_colon f.name_colon, hname]

theorem value_own : lineValue (trim (cstr f.own)) = stripQuotes (34 :: f.held) := by
  have hheld : (34 :: f.held).rdropWhile isspace = 34 :: f.held := by
    have hstop := rdropWhile_stop (c := 34) rfl [] f.held
    rw [List.nil_append, List.nil_append] at hstop
    rw [hstop, held, List.rdropWhile_idempotent]
  rw [f.trim_own h, lineValue, dropWhile_colon f.name_colon, List.tail_cons, trim,
    f.gap_blank.dropWhile, List.dropWhile_cons_of_neg (by decide), hheld]

end

/-- A piece that starts within the key or behind it is not taken for the key. -/
theorem not_takes_own (h : ¬ f.start ≤ f.indent.length) (t : Section) : ¬ k.Takes t f.own := by
  rintro ⟨-, -, hkey⟩
  obtain ⟨w, hw⟩ : ∃ w, cstr f.own = f.lead.drop f.start ++ 34 :: w := ⟨_, f.own_eq⟩
  obtain ⟨j, hj⟩ := Nat.exists_eq_add_of_lt (Nat.lt_of_not_le h)
  rw [hw, lead, hj, Nat.add_assoc, List.drop_length_add_append, ← List.append_assoc] at hkey
  by_cases hname : j + 1 ≤ (str k.key ++ f.space).length
  · rw [List.drop_append_of_le_length hname, List.append_assoc, List.cons_append,
      lineKey_trim fun hmem => f.name_colon (List.mem_of_mem_drop hmem)] at hkey
    -- the first letter of the key is missing
    have hsub : (str k.key).Sublist ((str k.key ++ f.space).drop 1) := by
      have hdrop := List.drop_sublist_drop_left (str k.key ++ f.space) (Nat.le_add_left 1 j)
      exact (hkey ▸ trim_sublist ((str k.key ++ f.space).drop (j + 1))).trans hdrop
    have hletters : (str k.key).filter (!isspace ·) = str k.key :=
      List.filter_eq_self.mpr fun c hc => by rw [(key_char k.key_ok hc).1]; rfl
    have hspaces : f.space.filter (!isspace ·) = [] :=
      List.filter_eq_nil_iff.mpr fun c hc => by
        rw [(f.space_blank c hc).1]; exact Bool.false_ne_true
    have hlen := (hsub.filter (!isspace ·)).length_le
    have hpos : 1 ≤ (str k.key).length := List.length_pos_iff.mpr (key_ne_nil k.key_ok)
    rw [List.drop_append_of_le_length hpos, List.filter_append, hspaces, hletters,
      List.append_nil] at hlen
    have hfewer := List.length_filter_le (!isspace ·) ((str k.key).drop 1)
    rw [List.length_drop] at hfewer
    omega
  · obtain ⟨i, hi⟩ := Nat.exists_eq_add_of_lt (Nat.lt_of_not_le hname)
    have hblank : Blank (f.gap.drop i) := fun c hc => f.gap_blank c (List.mem_of_mem_drop hc)
    rw [hi, Nat.add_assoc, List.drop_length_add_append, List.drop_succ_cons, trim, hblank.dropWhile,
      List.dropWhile_cons_of_neg (by decide)] at hkey
    have hhead := lineKey_head (c := 34) rfl (by decide) (w.rdropWhile isspace)
    have hstop : (34 :: w).rdropWhile isspace = 34 :: w.rdropWhile isspace :=
      rdropWhile_stop rfl [] w
    rw [← hstop, hkey] at hhead
    revert hhead
    cases k <;> decide

theorem held_start : f.held <+: s.text ++ f.tail.bytes :=
  (List.rdropWhile_prefix _ _).trans ((List.takeWhile_prefix _).trans (List.take_prefix _ _))

/-- A scalar that goes on in the next line has no quote in this one. -/
theorem closed_of_ends (h : f.Ends) : f.tail.IsClosed := by
  have hmem := f.held_start.subset (List.mem_of_getLast? h)
  cases htail : f.tail with
  | closed rest => trivial
  | goesOn rest unquoted =>
    rw [htail, List.mem_append] at hmem
    obtain htext | hrest := hmem
    · exact text_quote s htext
    · exact unquoted hrest

/-- What is held and ends with a quote goes up to the closing one at least. -/
theorem held_ends (h : f.Ends) : f.Whole ∨ ∃ more, f.held = s.text ++ 34 :: more ++ [34] := by
  obtain ⟨rest, htail⟩ : ∃ rest, f.tail = .closed rest := by
    have hclosed := f.closed_of_ends h
    cases htail : f.tail with
    | closed rest => exact ⟨rest, rfl⟩
    | goesOn rest unquoted =>
      rw [htail] at hclosed
      cases hclosed
  have hpre : f.held <+: s.text ++ 34 :: rest := by
    have hheld := f.held_start
    rwa [htail] at hheld
  obtain ⟨u, hu⟩ := List.getLast?_eq_some_iff.mp h
  obtain ⟨t, ht⟩ := hpre
  rw [hu, List.append_assoc, List.singleton_append] at ht
  obtain ⟨z, htext, hrest⟩ | ⟨z, hu', hrest⟩ := List.append_eq_append_iff.mp ht
  · cases z with
    | nil =>
      rw [List.append_nil] at htext
      exact .inl (by rw [Whole, hu, htext])
    | cons c z =>
      obtain rfl := (List.cons.inj hrest).1
      exact absurd (htext ▸ List.mem_append_right u List.mem_cons_self) (text_quote s)
  · cases z with
    | nil => exact .inl (by rw [Whole, hu, hu', List.append_nil])
    | cons c z =>
      obtain rfl := (List.cons.inj hrest).1
      exact .inr ⟨z, by rw [hu, hu']⟩

theorem held_zero : 0 ∉ f.held := by
  intro hmem
  have hcut := (List.rdropWhile_prefix _ _).subset hmem
  exact absurd (List.mem_takeWhile_imp hcut) (by decide)

end KeyFile

/-! ## What is loaded -/

theorem text_take_iff {s : Scalar} {size : Nat} (hfits : s.value.length < size) :
    s.text.take (size - 1) = s.value ↔ 92 ∉ s.text ∨ Full size s := by
  constructor
  · intro h
    by_cases hlen : s.text.length ≤ size - 1
    · rw [List.take_of_length_le hlen] at h
      exact .inl (s.text_eq_value_iff.mp h)
    · have htake := congrArg List.length h
      rw [List.length_take_of_le (Nat.le_of_not_le hlen)] at htake
      exact .inr ⟨htake.symm, h ▸ List.take_prefix _ _⟩
  · intro h
    obtain hplain | ⟨hfull, hstart⟩ := h
    · have hsame := s.text_eq_value_iff.mpr hplain
      rw [← hsame] at hfits ⊢
      exact List.take_of_length_le (Nat.le_sub_one_of_lt hfits)
    · rw [← hfull]
      exact (List.prefix_iff_eq_take.mp hstart).symm

/-- A value without a quote is not taken from behind the text. -/
theorem more_take_iff {s : Scalar} (hquote : 34 ∉ s.value) (more : Bytes) {size : Nat} :
    (s.text ++ 34 :: more).take (size - 1) = s.value ↔ Full size s := by
  constructor
  · intro h
    have hlen : size - 1 ≤ s.text.length := by
      by_contra hlong
      apply hquote
      obtain ⟨n, hn⟩ := Nat.exists_eq_add_of_lt (Nat.lt_of_not_le hlong)
      rw [← h, hn, Nat.add_assoc, List.take_length_add_append, List.take_succ_cons]
      exact List.mem_append_right _ List.mem_cons_self
    rw [List.take_append_of_le_length hlen] at h
    have htake := congrArg List.length h
    rw [List.length_take_of_le hlen] at htake
    exact ⟨htake.symm, h ▸ List.take_prefix _ _⟩
  · rintro ⟨hfull, hstart⟩
    rw [← hfull]
    exact (List.prefix_iff_eq_take.mp (hstart.trans (List.prefix_append _ _))).symm

namespace KeyFile
variable {k : StringKey} {s : Scalar} (f : KeyFile k s)

theorem load : loadConfig (some f.bytes) =
    some ((f.earlier ++ f.own :: f.later).foldl processLine ⟨.none, .zero⟩).cfg := by
  have hfree : ∀ l ∈ f.before ++ f.line :: f.after, newline ∉ l := by
    intro l hl
    obtain hl | hl := List.mem_append.mp hl
    · exact f.free l (List.mem_append_left _ hl)
    · obtain rfl | hl := List.mem_cons.mp hl
      · exact f.line_newline
      · exact f.free l (List.mem_append_right _ (List.mem_cons_of_mem _ hl))
  have hpieces : pieces f.line = pieces (f.line.take f.start) ++
      f.own :: pieces (f.line.drop (f.start + 511)) := by
    have hstart : f.start < f.line.length := by
      have hle := f.start_le.1
      rw [line, List.length_append, List.length_cons]
      omega
    have htake : (f.line.take f.start).length = f.lead.length / 511 * 511 :=
      List.length_take_of_le (Nat.le_of_lt hstart)
    have hne : f.line.drop f.start ≠ [] := List.drop_eq_nil_iff.not.mpr (Nat.not_le_of_lt hstart)
    calc
      pieces f.line = pieces (f.line.take f.start ++ f.line.drop f.start) := by
        rw [List.take_append_drop]
      _ = _ := by rw [pieces_append htake, pieces_cons hne, List.drop_drop, own]
  rw [bytes, loadConfig_join hfree, foldl_runLine, List.flatMap_append, List.flatMap_cons, hpieces,
    earlier, later]
  simp only [List.append_assoc, List.cons_append]

theorem stored_file :
    k.stored ((f.earlier ++ f.own :: f.later).foldl processLine ⟨.none, .zero⟩).cfg =
      ((k.taken .none f.earlier ++ k.taken f.sect (f.own :: f.later)).getLast?.map k.cut).getD
      [] := by
  rw [k.stored_pieces, k.taken_append]
  exact congrArg (Option.getD _) k.stored_zero

theorem stored_last (hlast : f.Last) :
    k.stored ((f.earlier ++ f.own :: f.later).foldl processLine ⟨.none, .zero⟩).cfg =
        k.cut (stripQuotes (34 :: f.held)) := by
  obtain ⟨hstart, hsect, hlater⟩ := hlast
  have htakes : k.Takes f.sect f.own := hsect ▸ f.takes_own hstart
  rw [stored_file, StringKey.taken, if_pos htakes, hlater, List.getLast?_concat, f.value_own hstart]
  rfl

theorem stored_other (hlast : ¬ f.Last) :
    k.stored ((f.earlier ++ f.own :: f.later).foldl processLine ⟨.none, .zero⟩).cfg = f.other := by
  rw [stored_file, StringKey.taken, other]
  by_cases hlater : k.taken (enter f.sect f.own) f.later = []
  · rw [if_neg]
    intro htakes
    by_cases hstart : f.start ≤ f.indent.length
    · exact hlast ⟨hstart, htakes.1, hlater⟩
    · exact f.not_takes_own hstart _ htakes
  · split
    · rw [List.getLast?_append_of_ne_nil _ (List.cons_ne_nil _ _),
        List.getLast?_append_of_ne_nil _ hlater, List.getLast?_cons_of_ne_nil hlater]
    · rfl

/-! ## Agreement -/

theorem cut_held {value : Bytes} (hscalar : f.tail.IsClosed → value = s.value)
    (hfits : value.length < k.size) (hquote : f.Whole ∨ 34 ∉ value) :
    k.cut (stripQuotes (34 :: f.held)) = value ↔ f.Kept := by
  by_cases hends : f.Ends
  · have hvalue := hscalar (f.closed_of_ends hends)
    subst hvalue
    obtain hwhole | ⟨more, hmore⟩ := f.held_ends hends
    · have hcut : k.cut (stripQuotes (34 :: f.held)) = s.text.take (k.size - 1) := by
        rw [hwhole, ← List.cons_append, stripQuotes_quoted, StringKey.cut, cstr_eq (text_zero s)]
      rw [hcut, text_take_iff hfits, Kept, and_iff_right hwhole, and_iff_right hends]
    · have hnot : ¬ f.Whole := by
        intro hwhole
        have hlen := congrArg List.length (hmore.symm.trans hwhole)
        simp only [List.length_append, List.length_cons, List.length_nil] at hlen
        omega
      have hzero : 0 ∉ s.text ++ 34 :: more :=
        fun hmem => f.held_zero (hmore ▸ List.mem_append_left _ hmem)
      have hcut : k.cut (stripQuotes (34 :: f.held)) =
          (s.text ++ 34 :: more).take (k.size - 1) := by
        rw [hmore, ← List.cons_append, stripQuotes_quoted, StringKey.cut, cstr_eq hzero]
      rw [hcut, more_take_iff (hquote.resolve_left hnot), Kept, and_iff_right hends]
      exact ⟨.inr, fun h => h.resolve_left fun hwhole => hnot hwhole.1⟩
  · have hnot : ¬ f.Whole := fun hwhole => hends (by rw [Ends, hwhole, List.getLast?_concat])
    refine iff_of_false ?_ fun h => h.elim (fun hwhole => hnot hwhole.1) fun hfull => hends hfull.1
    -- the opening quote is stored
    intro h
    apply hquote.resolve_left hnot
    have hsize : ∃ n, k.size - 1 = n + 1 := by cases k <;> exact ⟨_, rfl⟩
    obtain ⟨n, hn⟩ := hsize
    rw [← h, stripQuotes_open hends, StringKey.cut, cstr, List.takeWhile_cons_of_pos (by decide),
      hn, List.take_succ_cons]
    exact List.mem_cons_self

end KeyFile

theorem join_ended (lines : List Bytes) : join (lines ++ [[]]) = fileOf lines := by
  induction lines with
  | nil => rfl
  | cons line lines ih =>
    have hne : lines ++ [[]] ≠ [] := by simp
    rw [List.cons_append, join, List.intercalate_cons_of_ne_nil hne, ← join, ih]
    simp [fileOf]

/-- The directions as they are written in `inklings_config.yaml`, and everything else zero
or empty. -/
def arrows : AppConfig :=
  { AppConfig.zero with
    ui := ⟨⟨⟨str "\\u2191", by decide, by decide⟩, ⟨str "\\u2190", by decide, by decide⟩,
      ⟨str "\\u2193", by decide, by decide⟩, ⟨str "\\u2192", by decide, by decide⟩,
      ⟨str " ", by decide, by decide⟩⟩, .zero⟩ }

def arrow : Scalar :=
  [.coded 117 (str "2191") (Char.ofNat 0x2191) (by decide) (by decide) (by decide)]

/-- The file of the arrows at the line of the first. -/
def arrowsFile : KeyFile .north arrow where
  before := ((items arrows).take 40).map Item.line
  indent := List.replicate 4 32
  space := []
  gap := [32]
  tail := .closed []
  after := ((items arrows).drop 41).map Item.line ++ [[]]
  indent_blank c hc := by rw [List.eq_of_mem_replicate hc]; decide
  space_blank := nofun
  gap_blank c hc := by rw [List.mem_singleton.mp hc]; decide
  free := by decide

/-- What the library gives for the file. -/
def arrowsDocument : Go.Document where
  text
    | ["ui", "icon_directions", "north"] => [0xE2, 0x86, 0x91]
    | ["ui", "icon_directions", "west"] => [0xE2, 0x86, 0x90]
    | ["ui", "icon_directions", "south"] => [0xE2, 0x86, 0x93]
    | ["ui", "icon_directions", "east"] => [0xE2, 0x86, 0x92]
    | ["ui", "icon_directions", "none"] => [32]
    | _ => []
  int _ := 0
  bool _ := false

theorem arrowsFile_render : arrowsFile.bytes = render arrows := by
  rw [KeyFile.bytes, render, ← join_ended]
  rfl

end Csc412.Inklings
