import Mathlib.Algebra.Group.Int.Defs
import Mathlib.Algebra.GroupWithZero.Nat
import Mathlib.Data.List.DropRight
import Mathlib.Data.List.TakeWhile

/-!
# Strings of the C library

A string is the list of the bytes before its end, so it holds no zero byte. The functions
are those of the `C` locale. A number that is written in decimal is read back, and a line
that is not too long is read whole.
-/

namespace Lib.CString

abbrev Bytes := List UInt8

/-- An ASCII literal. -/
def str (s : String) : Bytes := s.toList.map fun c => UInt8.ofNat c.toNat

def newline : UInt8 := 10

/-- The string that starts a buffer. -/
def cstr (buffer : Bytes) : Bytes := buffer.takeWhile (· ≠ 0)

def isspace (c : UInt8) : Bool := c == 32 || (9 ≤ c && c ≤ 13)

def isdigit (c : UInt8) : Bool := 48 ≤ c && c ≤ 57

def tolower (c : UInt8) : UInt8 := if 65 ≤ c ∧ c ≤ 90 then c + 32 else c

def strcaseeq (a b : Bytes) : Bool := a.map tolower == b.map tolower

/-! ## Lines -/

/-- What `fgets` reads with room for `n` bytes, and the rest of the file. -/
def fgets : Nat → Bytes → Bytes × Bytes
  | 0, file => ([], file)
  | _ + 1, [] => ([], [])
  | n + 1, c :: file =>
    if c = newline then ([c], file)
    else
      let (line, rest) := fgets n file
      (c :: line, rest)

theorem fgets_append (n : Nat) (file : Bytes) : (fgets n file).1 ++ (fgets n file).2 = file := by
  induction n generalizing file with
  | zero => rfl
  | succ n ih =>
    cases file with
    | nil => rfl
    | cons c file =>
      rw [fgets]
      split
      · rfl
      · exact congrArg (c :: ·) (ih file)

theorem fgets_lt (n : Nat) {file : Bytes} (hfile : file ≠ []) :
    (fgets (n + 1) file).2.length < file.length := by
  cases file with
  | nil => exact absurd rfl hfile
  | cons c file =>
    rw [fgets]
    split
    · exact Nat.lt_succ_self _
    · have hlen := congrArg List.length (fgets_append n file)
      rw [List.length_append] at hlen
      simp only [List.length_cons]
      omega

theorem fgets_line {line : Bytes} (hline : newline ∉ line) (rest : Bytes) {n : Nat}
    (hn : line.length < n) :
    fgets n (line ++ newline :: rest) = (line ++ [newline], rest) := by
  induction line generalizing n with
  | nil =>
    obtain ⟨k, rfl⟩ := Nat.exists_eq_add_of_le' (Nat.zero_lt_of_lt hn)
    rw [List.nil_append, fgets, if_pos rfl, List.nil_append]
  | cons c line ih =>
    obtain ⟨k, rfl⟩ := Nat.exists_eq_add_of_le' (Nat.zero_lt_of_lt hn)
    rw [List.mem_cons, not_or] at hline
    rw [List.cons_append, fgets, if_neg fun h => hline.1 h.symm,
      ih hline.2 (Nat.lt_of_succ_lt_succ hn)]
    rfl

/-- Without a newline the buffer is filled, or the file ends. -/
theorem fgets_free {file : Bytes} (hfile : newline ∉ file) (n : Nat) :
    fgets n file = (file.take n, file.drop n) := by
  induction file generalizing n with
  | nil => cases n <;> rfl
  | cons c file ih =>
    rw [List.mem_cons, not_or] at hfile
    cases n with
    | zero => rfl
    | succ n =>
      rw [fgets, if_neg fun h => hfile.1 h.symm, ih hfile.2]
      rfl

theorem fgets_full {line : Bytes} (hline : newline ∉ line) (rest : Bytes) {n : Nat}
    (hn : n ≤ line.length) :
    fgets n (line ++ rest) = (line.take n, line.drop n ++ rest) := by
  induction line generalizing n with
  | nil =>
    obtain rfl : n = 0 := Nat.le_zero.mp hn
    rfl
  | cons c line ih =>
    rw [List.mem_cons, not_or] at hline
    cases n with
    | zero => rfl
    | succ n =>
      rw [List.cons_append, fgets, if_neg fun h => hline.1 h.symm,
        ih hline.2 (Nat.le_of_succ_le_succ hn)]
      rfl

/-! ## Strings -/

theorem cstr_append {s : Bytes} (hs : 0 ∉ s) (rest : Bytes) :
    cstr (s ++ rest) = s ++ cstr rest := by
  apply List.takeWhile_append_of_pos
  intro c hc
  simp only [ne_eq, decide_not, Bool.not_eq_eq_eq_not, Bool.not_true, decide_eq_false_iff_not]
  intro hzero
  exact hs (hzero ▸ hc)

theorem cstr_eq {s : Bytes} (hs : 0 ∉ s) : cstr s = s := by
  have happend := cstr_append hs []
  rw [List.append_nil] at happend
  exact happend.trans (List.append_nil s)

theorem zero_notMem_cstr (buffer : Bytes) : 0 ∉ cstr buffer := by
  intro hmem
  have hpos := List.mem_takeWhile_imp hmem
  simp at hpos

theorem cstr_range {s : Bytes} (hzero : 0 ∉ s) {f : Nat → UInt8}
    (hchars : ∀ i, (h : i < s.length) → f i = s[i]) (hend : f s.length = 0) {n : Nat}
    (hn : s.length < n) : cstr ((List.range n).map f) = s := by
  obtain ⟨n, rfl⟩ := Nat.exists_eq_add_of_le' (Nat.zero_lt_of_lt hn)
  rw [List.range_succ_eq_map, List.map_cons, List.map_map]
  induction s generalizing f n with
  | nil =>
    have hf : f 0 = 0 := hend
    rw [hf]
    rfl
  | cons c s ih =>
    rw [List.mem_cons, not_or] at hzero
    have hf : f 0 = c := hchars 0 (Nat.zero_lt_succ _)
    have hn' := Nat.lt_of_succ_lt_succ hn
    obtain ⟨k, rfl⟩ := Nat.exists_eq_add_of_le' (Nat.zero_lt_of_lt hn')
    have htail := ih hzero.2 (f := f ∘ Nat.succ) (fun i h => hchars (i + 1) (Nat.succ_lt_succ h))
      hend k hn'
    rw [hf, List.range_succ_eq_map, List.map_cons, List.map_map]
    have hcons : cstr (c :: ((f ∘ Nat.succ) 0 :: List.map ((f ∘ Nat.succ) ∘ Nat.succ)
      (List.range k))) =
        c :: cstr ((f ∘ Nat.succ) 0 :: List.map ((f ∘ Nat.succ) ∘ Nat.succ) (List.range k)) :=
      List.takeWhile_cons_of_pos (by simpa using fun h => hzero.1 h.symm)
    exact hcons.trans (congrArg (c :: ·) htail)

/-- A `char` array that holds a string. -/
structure Buffer (size : Nat) where
  bytes : Bytes
  fits : bytes.length < size
  ended : 0 ∉ bytes
deriving DecidableEq

def Buffer.empty {size : Nat} [NeZero size] : Buffer size :=
  ⟨[], Nat.pos_of_ne_zero (NeZero.ne size), List.not_mem_nil⟩

/-- `snprintf` of a `%s`. -/
def snprintf {size : Nat} [NeZero size] (v : Bytes) : Buffer size where
  bytes := (cstr v).take (size - 1)
  fits := by
    have hsize := Nat.pos_of_ne_zero (NeZero.ne size)
    have hlen := List.length_take_le (size - 1) (cstr v)
    omega
  ended := by
    intro hmem
    exact zero_notMem_cstr v (List.mem_of_mem_take hmem)

theorem snprintf_bytes {size : Nat} [NeZero size] (b : Buffer size) :
    (snprintf b.bytes : Buffer size) = b := by
  obtain ⟨bytes, fits, ended⟩ := b
  simp only [snprintf, Buffer.mk.injEq]
  rw [cstr_eq ended]
  exact List.take_of_length_le (Nat.le_sub_one_of_lt fits)

/-! ## Numbers -/

def digitsVal (ds : Bytes) : Nat := ds.foldl (fun n c => 10 * n + (c.toNat - 48)) 0

/-- Whether there is a minus sign, and what comes after the sign. -/
def sign (s : Bytes) : Bool × Bytes :=
  if s.head? = some 45 then (true, s.tail)
  else if s.head? = some 43 then (false, s.tail)
  else (false, s)

/-- `(int) strtol(s, NULL, 10)`: the value is brought into the range of `long` and cut off
to the width of `int`. -/
def atoi (s : Bytes) : Int32 :=
  let (negative, digits) := sign (s.dropWhile isspace)
  let value := digitsVal (digits.takeWhile isdigit)
  let value : Int := if negative then -value else value
  Int32.ofInt (max (-(2 ^ 63)) (min value (2 ^ 63 - 1)))

def decimalNat (n : Nat) : Bytes := (Nat.toDigits 10 n).map fun c => UInt8.ofNat c.toNat

def decimal (n : Int) : Bytes := if n < 0 then 45 :: decimalNat n.natAbs else decimalNat n.natAbs

theorem toDigits_range {n : Nat} {c : Char} (hc : c ∈ Nat.toDigits 10 n) :
    48 ≤ c.toNat ∧ c.toNat ≤ 57 := by
  have hdigit := Nat.isDigit_of_mem_toDigits (by omega) (by omega) hc
  simp only [Char.isDigit, Bool.and_eq_true, decide_eq_true_eq] at hdigit
  exact ⟨hdigit.1, hdigit.2⟩

theorem decimalNat_range {n : Nat} {b : UInt8} (hb : b ∈ decimalNat n) : 48 ≤ b ∧ b ≤ 57 := by
  obtain ⟨c, hc, rfl⟩ := List.mem_map.mp hb
  have hrange := toDigits_range hc
  rw [UInt8.le_iff_toNat_le, UInt8.le_iff_toNat_le, UInt8.toNat_ofNat', Nat.mod_eq_of_lt (by omega)]
  exact hrange

theorem decimalNat_ne_nil (n : Nat) : decimalNat n ≠ [] := by
  rw [decimalNat, ne_eq, List.map_eq_nil_iff]
  exact Nat.toDigits_ne_nil

theorem digitsVal_decimalNat (n : Nat) : digitsVal (decimalNat n) = n := by
  rw [digitsVal, decimalNat, List.foldl_map]
  conv_rhs => rw [← Nat.ofDigitChars_ten_toDigits (n := n), Nat.ofDigitChars_eq_foldl]
  apply List.foldl_ext
  intro m c hc
  have hrange := toDigits_range hc
  rw [UInt8.toNat_ofNat', Nat.mod_eq_of_lt (by omega)]
  rfl

theorem takeWhile_decimalNat (n : Nat) : (decimalNat n).takeWhile isdigit = decimalNat n := by
  apply List.takeWhile_eq_self_iff.mpr
  intro b hb
  have hrange := decimalNat_range hb
  rw [isdigit, Bool.and_eq_true, decide_eq_true_eq, decide_eq_true_eq]
  exact hrange

theorem decimalNat_head (n : Nat) : ∃ d ds, decimalNat n = d :: ds ∧ 48 ≤ d ∧ d ≤ 57 := by
  cases hd : decimalNat n with
  | nil => exact absurd hd (decimalNat_ne_nil n)
  | cons d ds => exact ⟨d, ds, rfl, decimalNat_range (by rw [hd]; exact List.mem_cons_self)⟩

theorem isspace_digit {d : UInt8} (h : 48 ≤ d) : isspace d = false := by
  rw [UInt8.le_iff_toNat_le] at h
  simp only [isspace, Bool.or_eq_false_iff, beq_eq_false_iff_ne, Bool.and_eq_false_iff,
    decide_eq_false_iff_not]
  constructor
  · rintro rfl
    exact absurd h (by decide)
  · right
    rw [UInt8.le_iff_toNat_le]
    intro hle
    exact absurd (Nat.le_trans h hle) (by decide)

theorem dropWhile_decimal (n : Int) : (decimal n).dropWhile isspace = decimal n := by
  obtain ⟨d, ds, hd, hrange, -⟩ := decimalNat_head n.natAbs
  rw [decimal, hd]
  split
  · rfl
  · rw [List.dropWhile_cons, isspace_digit hrange]
    rfl

theorem sign_decimal (n : Int) : sign (decimal n) = (decide (n < 0), decimalNat n.natAbs) := by
  obtain ⟨d, ds, hd, hrange, -⟩ := decimalNat_head n.natAbs
  rw [UInt8.le_iff_toNat_le] at hrange
  rw [decimal]
  by_cases hn : n < 0
  · rw [if_pos hn, sign, List.head?_cons, if_pos rfl, decide_eq_true hn, List.tail_cons]
  · have hminus : (decimalNat n.natAbs).head? ≠ some 45 := by
      rw [hd, List.head?_cons]
      rintro ⟨⟩
      exact absurd hrange (by decide)
    have hplus : (decimalNat n.natAbs).head? ≠ some 43 := by
      rw [hd, List.head?_cons]
      rintro ⟨⟩
      exact absurd hrange (by decide)
    rw [if_neg hn, sign, if_neg hminus, if_neg hplus, decide_eq_false hn]

theorem atoi_decimal (n : Int32) : atoi (decimal n.toInt) = n := by
  have hlo := n.le_toInt
  have hhi := n.toInt_lt
  have hvalue : (if n.toInt < 0 then -(n.toInt.natAbs : Int) else n.toInt.natAbs) = n.toInt := by
    split <;> omega
  rw [atoi, dropWhile_decimal, sign_decimal]
  simp only [takeWhile_decimalNat, digitsVal_decimalNat, decide_eq_true_eq, hvalue]
  rw [Int.min_eq_left (by omega), Int.max_eq_right (by omega), Int32.ofInt_toInt]

end Lib.CString
