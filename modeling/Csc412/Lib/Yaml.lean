import Csc412.Lib.CString
import Csc412.Lib.Escapes

/-!
# Double-quoted scalars of YAML

What stands between the quotes of a double-quoted scalar on one line, without a double
quote in it, and its value in UTF-8.
-/

namespace Lib.Yaml
open Lib.CString

/-- A printable character that stands for itself. -/
def isPlain (c : Char) : Bool :=
  c.toNat == 9 || (32 ≤ c.toNat && c.toNat ≤ 126 && c.toNat != 34 && c.toNat != 92) ||
    (160 ≤ c.toNat && c.toNat != 0x2028 && c.toNat != 0x2029 && c.toNat != 0xFFFE &&
      c.toNat != 0xFFFF)

/-- `\0 \a \b \t \n \v \f \r \e`, a tab, a space, `\/ \\ \N \_ \L \P`. -/
def names : List (UInt8 × Nat) :=
  [(48, 0), (97, 7), (98, 8), (116, 9), (110, 10), (118, 11), (102, 12), (114, 13), (101, 27),
    (9, 9), (32, 32), (47, 47), (92, 92), (78, 0x85), (95, 0xA0), (76, 0x2028), (80, 0x2029)]

/-- `\x`, `\u` and `\U` with the number of their digits. -/
def codes : List (UInt8 × Nat) := [(120, 2), (117, 4), (85, 8)]

def isHex (d : UInt8) : Bool := isdigit d || (65 ≤ d && d ≤ 70) || (97 ≤ d && d ≤ 102)

def hexDigit (d : UInt8) : Nat :=
  if d ≤ 57 then d.toNat - 48 else if d ≤ 70 then d.toNat - 55 else d.toNat - 87

def hexVal (ds : Bytes) : Nat := ds.foldl (fun n d => 16 * n + hexDigit d) 0

inductive Token where
  | plain (c : Char) (h : isPlain c = true)
  | named (letter : UInt8) (c : Char) (h : (letter, c.toNat) ∈ names)
  | coded (kind : UInt8) (digits : Bytes) (c : Char) (hkind : (kind, digits.length) ∈ codes)
    (hdigits : digits.all isHex = true)
      (hval : hexVal digits = c.toNat)

def Token.raw : Token → Bytes
  | .plain c _ => String.utf8EncodeChar c
  | .named letter _ _ => [92, letter]
  | .coded kind digits _ _ _ _ => 92 :: kind :: digits

def Token.char : Token → Char
  | .plain c _ => c
  | .named _ c _ => c
  | .coded _ _ c _ _ _ => c

/-! ## UTF-8 -/

/-- Only a character that is an ASCII byte has one in its encoding. -/
theorem utf8_ascii {c : Char} {b : UInt8} (hb : b ∈ String.utf8EncodeChar c) (hascii : b < 128) :
    String.utf8EncodeChar c = [b] ∧ c.toNat = b.toNat := by
  have hsmall : b.toNat < 128 := UInt8.lt_iff_toNat_lt.mp hascii
  have hhigh : ∀ n, 128 ≤ n → n < 256 → b ≠ UInt8.ofNat n := by
    intro n hlo hhi heq
    rw [heq, UInt8.toNat_ofNat_of_lt' hhi] at hsmall
    omega
  unfold String.utf8EncodeChar at hb ⊢
  simp only at hb ⊢
  split at hb
  · rename_i hone
    obtain rfl := List.mem_singleton.mp hb
    refine ⟨if_pos hone, ?_⟩
    rw [UInt8.toNat_ofNat_of_lt' (Nat.lt_of_le_of_lt hone (by decide))]
    rfl
  · exfalso
    split at hb
    · simp only [List.mem_cons, List.not_mem_nil, or_false] at hb
      obtain hb | hb := hb <;> exact hhigh _ (by omega) (by omega) hb
    · split at hb
      · simp only [List.mem_cons, List.not_mem_nil, or_false] at hb
        obtain hb | hb | hb := hb <;> exact hhigh _ (by omega) (by omega) hb
      · simp only [List.mem_cons, List.not_mem_nil, or_false] at hb
        obtain hb | hb | hb | hb := hb <;> exact hhigh _ (by omega) (by omega) hb

/-! ## Scalars -/

/-- Not a byte of an escape: the end of a string, a newline and a double quote. -/
def outside : List UInt8 := [0, newline, 34]

theorem names_letters : ∀ name ∈ names, name.1 ∉ outside := by decide

theorem codes_letters : ∀ code ∈ codes, code.1 ∉ outside := by decide

theorem isHex_outside : ∀ b ∈ outside, isHex b = false := by
  simp only [outside, List.forall_mem_cons, List.not_mem_nil, false_imp_iff, implies_true, and_true]
  decide

theorem Token.escape_outside {t : Token} {b : UInt8} (hb : b ∈ outside) (hmem : b ∈ t.raw) :
    ∃ c h, t = .plain c h := by
  have hmark : b ≠ 92 := by
    rintro rfl
    exact absurd hb (by decide)
  cases t with
  | plain c h => exact ⟨c, h, rfl⟩
  | named letter c h =>
    obtain rfl := List.mem_singleton.mp (List.mem_of_ne_of_mem hmark hmem)
    exact absurd hb (names_letters _ h)
  | coded kind digits c hkind hdigits hval =>
    obtain rfl | hmem := List.mem_cons.mp (List.mem_of_ne_of_mem hmark hmem)
    · exact absurd hb (codes_letters _ hkind)
    · have hhex := List.all_eq_true.mp hdigits b hmem
      rw [isHex_outside b hb] at hhex
      cases hhex

theorem isPlain_free {c : Char} (h : isPlain c = true) {b : UInt8} (hb : b ∈ [0, newline, 34, 92]) :
    b ∉ String.utf8EncodeChar c := by
  intro hmem
  have hplain : ∀ b : UInt8, b < 128 → b ∈ String.utf8EncodeChar c →
      isPlain (Char.ofNat b.toNat) = true := by
    intro b hascii hmem
    rw [← (utf8_ascii hmem hascii).2, Char.ofNat_toNat]
    exact h
  simp only [List.mem_cons, List.not_mem_nil, or_false] at hb
  obtain rfl | rfl | rfl | rfl := hb <;> exact absurd (hplain _ (by decide) hmem) (by decide)

theorem Token.raw_range {t : Token} {b : UInt8} (hb : b ∈ t.raw) :
    b ≠ 0 ∧ b ≠ newline ∧ b ≠ 34 := by
  have hnot : ∀ b ∈ outside, b ∉ t.raw := by
    intro b hlow hmem
    obtain ⟨c, h, rfl⟩ := Token.escape_outside hlow hmem
    exact isPlain_free h (List.mem_append_left [92] hlow) hmem
  simp only [outside, List.forall_mem_cons] at hnot
  refine ⟨?_, ?_, ?_⟩
  · rintro rfl
    exact hnot.1 hb
  · rintro rfl
    exact hnot.2.1 hb
  · rintro rfl
    exact hnot.2.2.1 hb

theorem Token.written (t : Token) : Escapes.Written 92 t.raw (String.utf8EncodeChar t.char) := by
  have hnone : ∀ c : Char, 92 ∈ String.utf8EncodeChar c → String.utf8EncodeChar c = [92] :=
    fun c hmem =>
    (utf8_ascii hmem (by decide)).1
  cases t with
  | plain c h => exact .plain (isPlain_free h (by decide))
  | named letter c h => exact .escape (List.cons_ne_nil _ _) String.utf8EncodeChar_ne_nil (hnone c)
  | coded kind digits c hkind hdigits hval =>
    exact .escape (List.cons_ne_nil _ _) String.utf8EncodeChar_ne_nil (hnone c)

def escaping : Escapes.Escaping Token UInt8 92 :=
  ⟨Token.raw, fun t => String.utf8EncodeChar t.char, Token.written⟩

abbrev Scalar := List Token

namespace Scalar

def text (s : Scalar) : Bytes := escaping.text s

def value (s : Scalar) : Bytes := escaping.read s

theorem text_range {s : Scalar} {b : UInt8} (hb : b ∈ s.text) : b ≠ 0 ∧ b ≠ newline ∧ b ≠ 34 := by
  obtain ⟨t, _, ht⟩ := List.mem_flatMap.mp hb
  exact t.raw_range ht

theorem text_eq_value_iff (s : Scalar) : s.text = s.value ↔ 92 ∉ s.text :=
  escaping.text_eq_read_iff s

end Scalar

end Lib.Yaml
