import Csc412.Printer.FormatSound

/-!
# Formats without flags and fields

`%u`, `%d` and `%s` between characters that stand for themselves: each takes the next
argument and prints it with nothing around it.
-/

namespace Csc412.Printer

open Lib.CString

inductive Plain where
  | lits (s : Bytes) (h : ch '%' ∉ s)
  | unsigned
  | int
  | str

def Plain.text : Plain → Bytes
  | .lits s _ => s
  | .unsigned => [ch '%', ch 'u']
  | .int => [ch '%', ch 'd']
  | .str => [ch '%', ch 's']

def intText (x : Int) : Bytes := (if x < 0 then [ch '-'] else []) ++ numeralText 10 x.natAbs

/-- What is printed from the `n`-th argument on. -/
def plainText (args : Args) : Nat → List Plain → Bytes
  | _, [] => []
  | n, .lits s _ :: items => s ++ plainText args n items
  | n, .unsigned :: items => numeralText 10 ((args n).word.setWidth 32).toNat ++
    plainText args (n + 1) items
  | n, .int :: items => intText ((args n).word.setWidth 32).toInt ++ plainText args (n + 1) items
  | n, .str :: items => cstr (args n).str ++ plainText args (n + 1) items

theorem pad_plain {flags : Flags} (hflags : flags.numeric = true) {pre data : Bytes}
    (hpre : pre.length ≤ 2) (hzero : 0 ∉ data) (hdata : data.length ≤ 20) :
    pad flags (-1) (-1) pre data = pre ++ data := by
  have hfield : |(-1 : Int)| < 2 ^ 30 := by decide
  obtain ⟨left, zeros, right, htext, hlength, -⟩ := pad_number hflags hfield hfield hpre hzero hdata
  obtain ⟨rfl, rfl, rfl⟩ : left = 0 ∧ zeros = 0 ∧ right = 0 := by omega
  rw [htext]
  exact List.append_nil _

theorem directive_numeric (args : Args) (n : Nat) (color : BitVec 32) {c : UInt8}
    (hc : c ∈ conversions)
    {p : Bytes} (hdirective : directive args n color (c :: p) =
      convert args {} (-1) (-1) false n color (c :: p)) :
    directive args n color (c :: p) =
      .ok ⟨(prefixText {} c (argVal c false (args n).word) ++
        numeralText (baseOf c) (argVal c false (args n).word).natAbs).map (⟨·, color⟩), c :: p,
            false, n + 1, color⟩ := by
  have hsigned : Flags.signed {} = false := rfl
  obtain ⟨flags, hnumeric, -, hconvert⟩ :=
    convert_number args (-1) (-1) false n color p hsigned rfl hc
  have hbase := baseOf_base c
  rw [hdirective, hconvert,
    pad_plain hnumeric (prefixText_length _ c _) (zero_notMem_numeralText hbase _)
    (numeralText_length hbase (argVal_bound c false _))]

theorem directive_unsigned (args : Args) (n : Nat) (color : BitVec 32) (p : Bytes) :
    directive args n color (ch 'u' :: p) =
      .ok ⟨(numeralText 10 ((args n).word.setWidth 32).toNat).map (⟨·, color⟩), ch 'u' :: p, false,
          n + 1, color⟩ := by
  have hval : argVal (ch 'u') false (args n).word = ((args n).word.setWidth 32).toNat := rfl
  rw [directive_numeric args n color (by decide) rfl, hval]
  rfl

theorem directive_int (args : Args) (n : Nat) (color : BitVec 32) (p : Bytes) :
    directive args n color (ch 'd' :: p) =
      .ok ⟨(intText ((args n).word.setWidth 32).toInt).map (⟨·, color⟩),
        ch 'd' :: p, false, n + 1, color⟩ :=
  directive_numeric args n color (by decide) rfl

theorem directive_str (args : Args) (n : Nat) (color : BitVec 32) (p : Bytes)
    (hstr : (cstr (args n).str).length < 2 ^ 31) :
    directive args n color (ch 's' :: p) =
      .ok ⟨(cstr (args n).str).map (⟨·, color⟩), ch 's' :: p, false, n + 1, color⟩ := by
  have hstep : directive args n color (ch 's' :: p) =
      .ok (putText {} (-1) (-1) (args n).str (n + 1) color (ch 's' :: p) false) := rfl
  rw [hstep, putText, pad_str _ hstr]

theorem vprintfLoop_conv {args : Args} {n fuel : Nat} {color : BitVec 32} {c : UInt8}
    {p t r : Bytes}
    (hstep : directive args n color (c :: p) = .ok ⟨t.map (⟨·, color⟩), c :: p, false,
      n + 1, color⟩)
    (hrest : vprintfLoop args fuel (n + 1) color p = .ok (r.map (⟨·, color⟩))) :
    vprintfLoop args (fuel + 1) n color (ch '%' :: c :: p) = .ok ((t ++ r).map (⟨·, color⟩)) := by
  rw [vprintfLoop_directive hstep ⟨c, rfl⟩, hrest, List.map_append]
  rfl

theorem vprintfLoop_lits {args : Args} {n fuel : Nat} {color : BitVec 32} {s : Bytes}
    (h : ch '%' ∉ s) {p r : Bytes}
    (hrest : vprintfLoop args fuel n color p = .ok (r.map (⟨·, color⟩))) :
    vprintfLoop args (fuel + s.length) n color (s ++ p) = .ok ((s ++ r).map (⟨·, color⟩)) := by
  induction s with
  | nil => exact hrest
  | cons c s ih =>
    rw [List.mem_cons, not_or] at h
    rw [List.length_cons, ← Nat.add_assoc, List.cons_append, vprintfLoop,
      if_pos fun hc => h.1 hc.symm, ih h.2]
    rfl

theorem vprintfLoop_plain {args : Args} (hstr : ∀ n, (cstr (args n).str).length < 2 ^ 31)
    (items : List Plain) {fuel : Nat} (hfuel : (items.flatMap Plain.text).length < fuel) (n : Nat)
    (color : BitVec 32) :
    vprintfLoop args fuel n color (items.flatMap Plain.text) =
        .ok ((plainText args n items).map (⟨·, color⟩)) := by
  induction items generalizing fuel n with
  | nil =>
    obtain ⟨fuel, rfl⟩ := Nat.exists_eq_add_of_lt hfuel
    rfl
  | cons item items ih =>
    rw [List.flatMap_cons, List.length_append] at hfuel
    rw [List.flatMap_cons]
    cases item with
    | lits s h =>
      obtain ⟨k, rfl⟩ : ∃ k, fuel = k + s.length :=
        Nat.exists_eq_add_of_le' (Nat.le_of_lt (Nat.lt_of_le_of_lt
        (Nat.le_add_right _ _) hfuel))
      exact vprintfLoop_lits h (ih (by rw [Plain.text] at hfuel; omega) n)
    | unsigned =>
      obtain ⟨k, rfl⟩ := Nat.exists_eq_add_of_le' (Nat.zero_lt_of_lt hfuel)
      rw [Plain.text, List.length_cons] at hfuel
      exact vprintfLoop_conv (directive_unsigned args n color _) (ih (by omega) (n + 1))
    | int =>
      obtain ⟨k, rfl⟩ := Nat.exists_eq_add_of_le' (Nat.zero_lt_of_lt hfuel)
      rw [Plain.text, List.length_cons] at hfuel
      exact vprintfLoop_conv (directive_int args n color _) (ih (by omega) (n + 1))
    | str =>
      obtain ⟨k, rfl⟩ := Nat.exists_eq_add_of_le' (Nat.zero_lt_of_lt hfuel)
      rw [Plain.text, List.length_cons] at hfuel
      exact vprintfLoop_conv (directive_str args n color _ (hstr n)) (ih (by omega) (n + 1))

theorem printerVprintf_plain {args : Args} (hstr : ∀ n, (cstr (args n).str).length < 2 ^ 31)
    (items : List Plain) (color : BitVec 32) :
    printerVprintf color (items.flatMap Plain.text) args =
        .ok ((plainText args 0 items).map (⟨·, color⟩)) :=
  vprintfLoop_plain hstr items (Nat.lt_succ_self _) 0 color

end Csc412.Printer
