import Csc412.Printer.ScanSound

/-!
# Printing numbers

`fill_numbuf` writes the numeral of its argument, which fits the buffer. A numeric
directive puts the sign or the prefix and the zeros in front of it, spaces on one side, and
is as wide as the width and the precision ask for.
-/

namespace Csc412.Printer

open Lib.CString Lib.Numeral

/-! ## `fill_numbuf` -/

theorem fillLoop_eq (digits : Bytes) {base : Nat} (hb : 2 ≤ base) {room val : Nat}
    (h : (numeral base val).length ≤ room) (numbuf : Bytes) :
    fillLoop digits base room val numbuf =
        .ok ((numeral base val).map (digits.getD · 0) ++ numbuf) := by
  induction room generalizing val numbuf with
  | zero => exact absurd (List.length_eq_zero_iff.mp (Nat.le_zero.mp h)) (numeral_ne_nil val)
  | succ room ih =>
    rw [fillLoop]
    rw [numeral_step hb] at h ⊢
    by_cases hdiv : val / base ≠ 0
    · rw [if_pos hdiv, List.length_append, List.length_singleton] at h
      rw [if_pos hdiv, if_pos hdiv, ih (Nat.le_of_succ_le_succ h), List.map_append,
        List.append_assoc]
      rfl
    · rw [if_neg hdiv, if_neg hdiv]
      rfl

/-- The digit characters of a base, as `fill_numbuf` takes it. -/
def digitsOf (base : Int) : Bytes := if base < 0 then lowerDigits else upperDigits

def numeralText (base : Int) (m : Nat) : Bytes :=
  (numeral base.natAbs m).map ((digitsOf base).getD · 0)

/-- The bases that `printer_vprintf` uses. -/
def Base (base : Int) : Prop := base = 10 ∨ base = 16 ∨ base = -16

theorem Base.bounds {base : Int} (h : Base base) : 10 ≤ base.natAbs ∧ base.natAbs ≤ 16 := by
  rcases h with rfl | rfl | rfl <;> decide

theorem numeralText_length {base : Int} (h : Base base) {m : Nat} (hm : m < 2 ^ 64) :
    (numeralText base m).length ≤ 20 := by
  have hpow : 10 ^ 20 ≤ base.natAbs ^ 20 := Nat.pow_le_pow_left h.bounds.1 20
  rw [numeralText, List.length_map]
  exact numeral_length_le (by have := h.bounds; omega) m (by decide) (by omega)

theorem fillNumbuf_eq {base : Int} (h : Base base) (val : BitVec 64) :
    fillNumbuf val base = .ok (numeralText base val.toNat) := by
  have hlen := numeralText_length h val.isLt
  rw [numeralText, List.length_map] at hlen
  rw [fillNumbuf, fillLoop_eq _ (by have := h.bounds; omega) (by rw [numbufSiz]; omega),
    List.append_nil]
  rfl

/-! ## Digits -/

def digitVal (c : UInt8) : Nat := if isdigit c then c.toNat - 48 else (tolower c).toNat - 87

theorem digitVal_digit {base : Int} {d : Nat} (hd : d < 16) :
    digitVal ((digitsOf base).getD d 0) = d := by
  have hupper : ∀ k : Fin 16, digitVal (upperDigits.getD k 0) = k := by decide
  have hlower : ∀ k : Fin 16, digitVal (lowerDigits.getD k 0) = k := by decide
  rw [digitsOf]
  split
  · exact hlower ⟨d, hd⟩
  · exact hupper ⟨d, hd⟩

def isNumeral (c : UInt8) : Bool := decide (c ∈ upperDigits ++ lowerDigits)

theorem isNumeral_digit {base : Int} {d : Nat} (hd : d < 16) :
    isNumeral ((digitsOf base).getD d 0) = true := by
  have hupper : ∀ k : Fin 16, isNumeral (upperDigits.getD k 0) = true := by decide
  have hlower : ∀ k : Fin 16, isNumeral (lowerDigits.getD k 0) = true := by decide
  rw [digitsOf]
  split
  · exact hlower ⟨d, hd⟩
  · exact hupper ⟨d, hd⟩

section
variable {base : Int} (h : Base base) (m : Nat)
include h

theorem numeralText_val : (numeralText base m).map digitVal = numeral base.natAbs m := by
  rw [numeralText, List.map_map]
  have hdigit (d : Nat) (hd : d ∈ numeral base.natAbs m) :
      digitVal ((digitsOf base).getD d 0) = d := by
    have hlt := numeral_lt (by have := h.bounds; omega) m hd
    exact digitVal_digit (by have := h.bounds; omega)
  exact (List.map_congr_left hdigit).trans (List.map_id _)

theorem numeralText_kind {c : UInt8} (hc : c ∈ numeralText base m) : isNumeral c = true := by
  obtain ⟨d, hd, rfl⟩ := List.mem_map.mp hc
  have hlt := numeral_lt (by have := h.bounds; omega) m hd
  exact isNumeral_digit (by have := h.bounds; omega)

theorem zero_notMem_numeralText : 0 ∉ numeralText base m := by
  intro hzero
  exact absurd (numeralText_kind h m hzero) (by decide)

theorem numeralText_head (hhead : (numeralText base m).head? = some (ch '0')) : m = 0 := by
  have hval : (numeral base.natAbs m).head? = some 0 := by
    rw [← numeralText_val h m, List.head?_map, hhead]
    rfl
  exact (numeral_head m hval).1

end

/-! ## Reading a number back -/

/-- The sign of a number and its text after the sign or the prefix. -/
def strip : Bytes → Int × Bytes
  | [] => (1, [])
  | c :: t =>
    if c = ch '-' then (-1, t)
    else if c = ch '+' ∨ c = ch ' ' then (1, t)
    else if c = ch '0' ∧ (t.head? = some (ch 'x') ∨ t.head? = some (ch 'X')) then (1, t.tail)
    else (1, c :: t)

def readNumber (b : Nat) (t : Bytes) : Int := (strip t).1 * value b ((strip t).2.map digitVal)

theorem strip_numeral {t : Bytes} (ht : ∀ c ∈ t, isNumeral c = true) : strip t = (1, t) := by
  have hkinds : isNumeral (ch '-') = false ∧ isNumeral (ch '+') = false ∧
    isNumeral (ch ' ') = false ∧
      isNumeral (ch 'x') = false ∧ isNumeral (ch 'X') = false := by decide
  obtain ⟨hminus, hplus, hspace, hx, hX⟩ := hkinds
  cases t with
  | nil => rfl
  | cons c t =>
    have hne (x : UInt8) (hx : isNumeral x = false) (y : UInt8) (hy : y ∈ c :: t) : y ≠ x := by
      intro hyx
      rw [hyx] at hy
      rw [ht x hy] at hx
      exact Bool.noConfusion hx
    have hhead (x : UInt8) (hx : isNumeral x = false) : t.head? ≠ some x := by
      intro hhead
      exact hne x hx x (List.mem_cons_of_mem c (List.mem_of_mem_head? hhead)) rfl
    rw [strip, if_neg (hne _ hminus c List.mem_cons_self),
      if_neg (not_or.mpr ⟨hne _ hplus c List.mem_cons_self, hne _ hspace c List.mem_cons_self⟩),
      if_neg (fun hzero => hzero.2.elim (hhead _ hx) (hhead _ hX))]

/-- What a numeric directive prints before its numeral and the zeros that extend it. -/
def prefixText (flags : Flags) (c : UInt8) (x : Int) : Bytes :=
  if c = ch 'd' ∨ c = ch 'i' then
    if x < 0 then [ch '-']
    else if flags.pluspositive then [ch '+']
    else if flags.spacepositive then [ch ' ']
    else []
  else if c = ch 'p' ∨ (c = ch 'x' ∧ flags.alt ∧ x ≠ 0) then [ch '0', ch 'x']
  else if c = ch 'X' ∧ flags.alt ∧ x ≠ 0 then [ch '0', ch 'X']
  else []

theorem strip_prefixText (flags : Flags) {c : UInt8} {x : Int}
    (hneg : x < 0 → c = ch 'd' ∨ c = ch 'i') {t : Bytes} (ht : ∀ y ∈ t, isNumeral y = true) :
    strip (prefixText flags c x ++ t) = (if x < 0 then -1 else 1, t) := by
  have hpos (hc : ¬(c = ch 'd' ∨ c = ch 'i')) : ¬x < 0 := fun hx => hc (hneg hx)
  rw [prefixText]
  split
  · split
    · rfl
    · split
      · rfl
      · split
        · rfl
        · exact strip_numeral ht
  · rename_i hc
    rw [if_neg (hpos hc)]
    split
    · rfl
    · split
      · rfl
      · exact strip_numeral ht

theorem readNumber_prefixText {base : Int} (h : Base base) (flags : Flags) {c : UInt8} {x : Int}
    (hneg : x < 0 → c = ch 'd' ∨ c = ch 'i') (zeros : Nat) :
    readNumber base.natAbs (prefixText flags c x ++
      (List.replicate zeros (ch '0') ++ numeralText base x.natAbs)) =
      x := by
  have hkind : ∀ y ∈ List.replicate zeros (ch '0') ++ numeralText base x.natAbs,
      isNumeral y = true := by
    intro y hy
    rcases List.mem_append.mp hy with hy | hy
    · rw [(List.mem_replicate.mp hy).2]
      decide
    · exact numeralText_kind h _ hy
  have hvalue : value base.natAbs
    ((List.replicate zeros (ch '0') ++ numeralText base x.natAbs).map digitVal) =
      x.natAbs := by
    rw [List.map_append, List.map_replicate, numeralText_val h]
    exact (value_zeros _ zeros _).trans (value_numeral (by have := h.bounds; omega) _)
  rw [readNumber, strip_prefixText flags hneg hkind, hvalue]
  dsimp only
  split <;> omega

/-! ## The layout -/

theorem int32_eq {x : Int} (hlo : -2 ^ 31 ≤ x) (hhi : x < 2 ^ 31) : int32 x = x :=
  BitVec.toInt_ofInt_eq_self (by decide) hlo hhi

theorem zerosOf_number {flags : Flags} (hflags : flags.numeric = true)
    {width precision len pre : Int} (hwidth : |width| < 2 ^ 30) (hprec : |precision| < 2 ^ 30)
    (hpre : 0 ≤ pre ∧ pre ≤ 2) (hlen : 0 ≤ len ∧ len ≤ 20) :
    ∃ zeros : Nat, zerosOf flags width precision len pre = zeros ∧
      max width (pre + (zeros + len)) = max width (pre + max precision len) ∧ zeros < 2 ^ 30 := by
  rw [abs_lt] at hwidth hprec
  rw [zerosOf]
  by_cases hp : 0 ≤ precision
  · rw [if_pos ⟨hflags, hp⟩]
    exact ⟨(if len < precision then precision - len else 0).toNat, by split <;> omega,
      by split <;> omega,
      by split <;> omega⟩
  · rw [if_neg (fun h => hp h.2)]
    by_cases hfill : flags.numeric = true ∧ flags.zero = true ∧ ¬flags.leftjustify = true ∧
      len + pre < width
    · have hfits := hfill.2.2.2
      rw [if_pos hfill, int32_eq (by omega) (by omega)]
      exact ⟨(width - len - pre).toNat, by omega, by omega, by omega⟩
    · rw [if_neg hfill]
      exact ⟨0, rfl, by omega, by decide⟩

/-- The columns of a number: spaces on one side only, and the width and the precision that
are asked for. -/
theorem pad_number {flags : Flags} (hflags : flags.numeric = true) {width precision : Int}
    (hwidth : |width| < 2 ^ 30) (hprec : |precision| < 2 ^ 30) {pre data : Bytes}
    (hpre : pre.length ≤ 2) (hzero : 0 ∉ data) (hdata : data.length ≤ 20) :
    ∃ left zeros right : Nat,
      pad flags width precision pre data =
        List.replicate left (ch ' ') ++ (pre ++ (List.replicate zeros (ch '0') ++ data)) ++
          List.replicate right (ch ' ') ∧
      (left + (pre.length + (zeros + data.length)) + right : Int) =
        max width (pre.length + max precision data.length) ∧
      (if flags.leftjustify then left = 0 else right = 0) := by
  have hlen : int32 (if 0 ≤ precision ∧ ¬flags.numeric then min data.length precision.toNat
    else data.length : Nat) =
      data.length := by
    rw [if_neg (fun h => h.2 hflags)]
    exact int32_eq (by omega) (by omega)
  have hpre' : (0 : Int) ≤ pre.length ∧ (pre.length : Int) ≤ 2 := by omega
  have hdata' : (0 : Int) ≤ data.length ∧ (data.length : Int) ≤ 20 := by omega
  obtain ⟨zeros, hzeros, hsum, hbound⟩ := zerosOf_number hflags hwidth hprec hpre' hdata'
  rw [abs_lt] at hwidth hprec
  have hrest : int32 (width - (data.length + zeros + pre.length)) =
      width - (data.length + zeros + pre.length) :=
    int32_eq (by omega) (by omega)
  generalize hspaces : width - (data.length + zeros + pre.length) = spaces at hrest
  have htext : pad flags width precision pre data =
      List.replicate (if flags.leftjustify then 0 else spaces.toNat) (ch ' ') ++ pre ++
        List.replicate zeros (ch '0') ++ data ++
        List.replicate (spaces - (if flags.leftjustify then 0 else spaces.toNat : Nat)).toNat
            (ch ' ') := by
    rw [pad]
    simp only [cstr_eq hzero, hlen, hzeros, hspaces, hrest, Int.toNat_natCast, List.take_length]
  cases hleft : flags.leftjustify with
  | true =>
    refine ⟨0, zeros, spaces.toNat, ?_, by omega, rfl⟩
    rw [htext, hleft]
    simp
  | false =>
    refine ⟨spaces.toNat, zeros, 0, ?_, by omega, rfl⟩
    have hright : (spaces - (spaces.toNat : Nat)).toNat = 0 := by omega
    rw [htext, hleft, if_neg Bool.false_ne_true, hright]
    simp

/-! ## The conversions -/

def conversions : Bytes := ['d', 'i', 'u', 'x', 'X', 'p'].map ch

def baseOf (c : UInt8) : Int :=
  if c = ch 'x' ∨ c = ch 'p' then -16 else if c = ch 'X' then 16 else 10

/-- The argument that a conversion prints. -/
def argVal (c : UInt8) (long : Bool) (word : BitVec 64) : Int :=
  if c = ch 'd' ∨ c = ch 'i' then if long then word.toInt else (word.setWidth 32).toInt
  else if c = ch 'p' ∨ long then word.toNat
  else (word.setWidth 32).toNat

theorem baseOf_base (c : UInt8) : Base (baseOf c) := by
  rw [baseOf]
  split
  · exact .inr (.inr rfl)
  · split
    · exact .inr (.inl rfl)
    · exact .inl rfl

theorem prefixText_length (flags : Flags) (c : UInt8) (x : Int) :
    (prefixText flags c x).length ≤ 2 := by
  rw [prefixText]
  repeat' split
  all_goals decide

theorem flagSet_unset (s : Spec) :
    s.flagSet.numeric = false ∧ s.flagSet.signed = false ∧ s.flagSet.alt2 = false := by
  have hset (flags : Flags) (k : Nat) : (flags.set k).numeric = flags.numeric ∧
    (flags.set k).signed = flags.signed ∧
      (flags.set k).alt2 = flags.alt2 := by
    rw [Flags.set.eq_def]
    split <;> exact ⟨rfl, rfl, rfl⟩
  have hfold (fl : Bytes) (flags : Flags) :
      (fl.foldl (fun flags c => flags.set (flagChars.idxOf c)) flags).numeric = flags.numeric ∧
      (fl.foldl (fun flags c => flags.set (flagChars.idxOf c)) flags).signed = flags.signed ∧
      (fl.foldl (fun flags c => flags.set (flagChars.idxOf c)) flags).alt2 = flags.alt2 := by
    induction fl generalizing flags with
    | nil => exact ⟨rfl, rfl, rfl⟩
    | cons c fl ih =>
      obtain ⟨hnum, hsigned, halt⟩ := ih (flags.set (flagChars.idxOf c))
      obtain ⟨hnum', hsigned', halt'⟩ := hset flags (flagChars.idxOf c)
      exact ⟨hnum.trans hnum', hsigned.trans hsigned', halt.trans halt'⟩
  exact hfold s.flags {}

/-- `negative ? -x : x` is the magnitude, also of the least number. -/
theorem magnitude (x : BitVec 64) :
    (if decide (x.toInt < 0) then -x else x).toNat = x.toInt.natAbs := by
  have hx := x.isLt
  rw [BitVec.toInt_eq_toNat_cond]
  split <;> split
  · rename_i hlt hneg
    have hneg := of_decide_eq_true hneg
    omega
  · omega
  · rename_i hlt hneg
    rw [BitVec.toNat_neg]
    omega
  · rename_i hlt hneg
    rw [decide_eq_true_eq] at hneg
    omega

theorem signedArg_toInt (long : Bool) (word : BitVec 64) :
    (signedArg long word).toInt = if long then word.toInt else (word.setWidth 32).toInt := by
  rw [signedArg]
  split
  · rfl
  · exact BitVec.toInt_signExtend_of_le (by decide)

theorem unsignedArg_toNat (long : Bool) (word : BitVec 64) :
    (unsignedArg long word).toNat = if long then word.toNat else (word.setWidth 32).toNat := by
  rw [unsignedArg]
  split
  · rfl
  · rw [BitVec.toNat_setWidth, Nat.mod_eq_of_lt]
    have := (word.setWidth 32).isLt
    omega

section
variable (args : Args) (flags : Flags) (width precision : Int) (long : Bool) (n : Nat)
    (color : BitVec 32)
  (p : Bytes)

theorem putNumber_eq {base : Int} (h : Base base) (num : BitVec 64) :
    putNumber flags width precision base num n color p =
      .ok ⟨(pad flags width precision (prefixOf flags base num) (numeralText base num.toNat)).map
        (⟨·, color⟩), p, false, n, color⟩ := by
  rw [putNumber, fillNumbuf_eq h]
  rfl

theorem prefixOf_signed {c : UInt8} (hc : c = ch 'd' ∨ c = ch 'i') (base x : Int)
    (num : BitVec 64) :
    prefixOf { flags with numeric := true, signed := true, negative := decide (x < 0) } base num =
      prefixText flags c x := by
  rw [prefixOf, if_pos ⟨rfl, rfl⟩, prefixText, if_pos hc]
  simp only [decide_eq_true_eq]

theorem prefixOf_unsigned {flags : Flags} (hsigned : flags.signed = false)
    (halt2 : flags.alt2 = false) {c : UInt8} (hc : c = ch 'u' ∨ c = ch 'x' ∨ c = ch 'X')
    (num : BitVec 64) :
    prefixOf { flags with numeric := true } (baseOf c) num = prefixText flags c num.toNat := by
  have hnum : num ≠ 0 ↔ (num.toNat : Int) ≠ 0 := by
    rw [ne_eq, ← BitVec.toNat_inj]
    exact not_congr Int.natCast_eq_zero.symm
  have hunsigned : ¬({ flags with numeric := true }.numeric = true ∧
      { flags with numeric := true }.signed = true) := by
    intro h
    exact Bool.false_ne_true (hsigned.symm.trans h.2)
  have halt : ({ flags with numeric := true }.numeric = true ∧
    { flags with numeric := true }.alt = true ∧
      (baseOf c = 16 ∨ baseOf c = -16) ∧ (num ≠ 0 ∨ { flags with numeric := true }.alt2 = true)) ↔
      (baseOf c = 16 ∨ baseOf c = -16) ∧ flags.alt = true ∧ (num.toNat : Int) ≠ 0 := by
    rw [← hnum]
    simp only [halt2, Bool.false_eq_true, or_false, true_and]
    exact and_left_comm
  rw [prefixOf, if_neg hunsigned, prefixText]
  rcases hc with rfl | rfl | rfl
  · rw [if_neg (fun h => absurd (halt.mp h).1 (by decide)), if_neg (by decide), if_neg, if_neg]
    · exact fun h => absurd h.1 (by decide)
    · exact fun h => h.elim (fun h => absurd h (by decide)) fun h => absurd h.1 (by decide)
  · by_cases hcond : flags.alt = true ∧ (num.toNat : Int) ≠ 0
    · rw [if_pos (halt.mpr ⟨.inr (by decide), hcond⟩), if_pos (by decide), if_neg (by decide),
        if_pos (.inr ⟨rfl, hcond⟩)]
    · rw [if_neg fun h => hcond (halt.mp h).2, if_neg (by decide), if_neg,
        if_neg fun h => hcond h.2]
      exact fun h => h.elim (fun h => absurd h (by decide)) fun h => hcond h.2
  · by_cases hcond : flags.alt = true ∧ (num.toNat : Int) ≠ 0
    · rw [if_pos (halt.mpr ⟨.inl (by decide), hcond⟩), if_neg (by decide), if_neg (by decide),
        if_neg, if_pos ⟨rfl, hcond⟩]
      exact fun h => h.elim (fun h => absurd h (by decide)) fun h => absurd h.1 (by decide)
    · rw [if_neg fun h => hcond (halt.mp h).2, if_neg (by decide), if_neg,
        if_neg fun h => hcond h.2]
      exact fun h => h.elim (fun h => absurd h (by decide)) fun h => absurd h.1 (by decide)

theorem convert_unsigned {c : UInt8} (hc : c = ch 'u' ∨ c = ch 'x' ∨ c = ch 'X') :
    convert args flags width precision long n color (c :: p) =
      putNumber { flags with numeric := true } width precision (baseOf c)
        (unsignedArg long (args n).word) (n + 1)
        color (c :: p) := by
  rcases hc with rfl | rfl | rfl
  · rw [convert, if_neg (by decide), if_pos rfl]
    rfl
  · rw [convert, if_neg (by decide), if_neg (by decide), if_pos rfl]
    rfl
  · rw [convert, if_neg (by decide), if_neg (by decide), if_neg (by decide), if_pos rfl]
    rfl

theorem convert_pointer : convert args flags width precision long n color (ch 'p' :: p) =
    putNumber { flags with numeric := true, alt := true, alt2 := true } width precision
      (baseOf (ch 'p'))
      (args n).word (n + 1) color (ch 'p' :: p) := by
  rw [convert, if_neg (by decide), if_neg (by decide), if_neg (by decide), if_neg (by decide),
    if_pos rfl]
  rfl

/-- A numeric conversion puts the prefix and the numeral of its argument into the columns. -/
theorem convert_number {flags : Flags} (hsigned : flags.signed = false) (halt2 : flags.alt2 = false)
    {c : UInt8} (hc : c ∈ conversions) :
    ∃ flags' : Flags, flags'.numeric = true ∧ flags'.leftjustify = flags.leftjustify ∧
      convert args flags width precision long n color (c :: p) =
        .ok ⟨(pad flags' width precision (prefixText flags c (argVal c long (args n).word))
            (numeralText (baseOf c) (argVal c long (args n).word).natAbs)).map (⟨·, color⟩),
          c :: p, false, n + 1, color⟩ := by
  have hkind : (c = ch 'd' ∨ c = ch 'i') ∨ (c = ch 'u' ∨ c = ch 'x' ∨ c = ch 'X') ∨ c = ch 'p' := by
    simpa [conversions, or_assoc] using hc
  rcases hkind with hdi | hunsigned | rfl
  · have hval : argVal c long (args n).word = (signedArg long (args n).word).toInt := by
      rw [argVal, if_pos hdi, signedArg_toInt]
    have hbase : baseOf c = 10 := by
      rcases hdi with rfl | rfl <;> decide
    refine ⟨{ flags with
      numeric := true, signed := true, negative :=
        decide ((signedArg long (args n).word).toInt < 0) }, rfl, rfl, ?_⟩
    rw [convert, if_pos hdi, hval, hbase]
    exact (putNumber_eq _ _ _ _ _ _ (.inl rfl) _).trans
      (by rw [prefixOf_signed flags hdi, magnitude])
  · have hval : argVal c long (args n).word = (unsignedArg long (args n).word).toNat := by
      rw [unsignedArg_toNat]
      rcases hunsigned with rfl | rfl | rfl <;> cases long <;> rfl
    refine ⟨{ flags with numeric := true }, rfl, rfl, ?_⟩
    rw [convert_unsigned _ _ _ _ _ _ _ _ hunsigned, hval, Int.natAbs_natCast,
      ← prefixOf_unsigned hsigned halt2 hunsigned]
    exact putNumber_eq _ _ _ _ _ _ (baseOf_base c) _
  · have hval : argVal (ch 'p') long (args n).word = (args n).word.toNat := by
      rw [argVal, if_neg (by decide), if_pos (.inl rfl)]
    have hprefix : prefixOf { flags with numeric := true, alt := true, alt2 := true }
      (baseOf (ch 'p'))
        (args n).word = prefixText flags (ch 'p') (args n).word.toNat := by
      rw [prefixOf, if_neg (by simp [hsigned]), if_pos ⟨rfl, rfl, .inr (by decide), .inr rfl⟩,
        if_pos (by decide), prefixText, if_neg (by decide), if_pos (.inl rfl)]
    refine ⟨{ flags with numeric := true, alt := true, alt2 := true }, rfl, rfl, ?_⟩
    rw [convert_pointer, hval, Int.natAbs_natCast, ← hprefix]
    exact putNumber_eq _ _ _ _ _ _ (baseOf_base _) _

end

theorem argVal_bound (c : UInt8) (long : Bool) (word : BitVec 64) :
    (argVal c long word).natAbs < 2 ^ 64 := by
  have hword := word.isLt
  have hlow := (word.setWidth 32).isLt
  have hlong := And.intro (BitVec.le_toInt word) (BitVec.toInt_lt (x := word))
  have hshort := And.intro (BitVec.le_toInt (word.setWidth 32))
    (BitVec.toInt_lt (x := word.setWidth 32))
  rw [argVal]
  repeat' split
  all_goals omega

theorem argVal_neg {c : UInt8} {long : Bool} {word : BitVec 64} (h : argVal c long word < 0) :
    c = ch 'd' ∨ c = ch 'i' := by
  by_contra hc
  rw [argVal, if_neg hc] at h
  split at h <;> omega

/-- The argument that a directive prints with the conversion `c`. -/
def Spec.arg (s : Spec) (args : Args) (n : Nat) (c : UInt8) : Int :=
  argVal c s.long (args (s.next args n)).word

theorem vprintfLoop_number (args : Args) (n : Nat) {s : Spec} {c : UInt8} (hc : c ∈ conversions)
    {p : Bytes} (hs : s.Maximal (c :: p)) (hwidth : |s.widthVal args n| < 2 ^ 30)
    (hprec : |s.precisionVal args n| < 2 ^ 30) (color : BitVec 32) (fuel : Nat) :
    ∃ left zeros right : Nat,
      let pre := prefixText s.flagSet c (s.arg args n c)
      let digits := numeralText (baseOf c) (s.arg args n c).natAbs
      let text := List.replicate left (ch ' ') ++
        (pre ++ (List.replicate zeros (ch '0') ++ digits)) ++
        List.replicate right (ch ' ')
      vprintfLoop args (fuel + 1) n color (ch '%' :: (s.text ++ c :: p)) = (do
        let out ← vprintfLoop args fuel (s.next args n + 1) color p
        .ok (text.map (⟨·, color⟩) ++ out)) ∧
      readNumber (baseOf c).natAbs (pre ++ (List.replicate zeros (ch '0') ++ digits)) =
        s.arg args n c ∧
      (digits.head? = some (ch '0') → digits = [ch '0']) ∧
      digits.length < numbufSiz ∧
      (text.length : Int) = max (s.widthVal args n)
        (pre.length + max (s.precisionVal args n) digits.length) ∧
      (if s.flagSet.leftjustify then left = 0 else right = 0) := by
  have hbase := baseOf_base c
  obtain ⟨-, hsigned, halt2⟩ := flagSet_unset s
  have hbound : (s.arg args n c).natAbs < 2 ^ 64 := argVal_bound c s.long _
  have hdigits := numeralText_length hbase hbound
  obtain ⟨flags', hnumeric, hleft, hconvert⟩ :=
    convert_number args (s.widthVal args n) (s.precisionVal args n) s.long
    (s.next args n) color p hsigned halt2 hc
  obtain ⟨left, zeros, right, htext, hlength, hside⟩ := pad_number hnumeric hwidth hprec
    (prefixText_length s.flagSet c (s.arg args n c)) (zero_notMem_numeralText hbase _) hdigits
  refine ⟨left, zeros, right, ?_, ?_, ?_, ?_, ?_, ?_⟩
  · rw [vprintfLoop_directive ((directive_append args n color hs).trans hconvert) ⟨c, rfl⟩]
    exact congrArg (fun t : Bytes => do
      let out ← vprintfLoop args fuel (s.next args n + 1) color p
      .ok (t.map (fun x => Call.mk x color) ++ out)) htext
  · exact readNumber_prefixText hbase _ argVal_neg zeros
  · intro hhead
    have hzero := numeralText_head hbase _ hhead
    rw [hzero, numeralText, numeral, if_pos rfl, List.map_singleton, digitsOf]
    split <;> rfl
  · rw [numbufSiz]
    exact Nat.lt_of_le_of_lt hdigits (by decide)
  · rw [← hlength]
    simp only [List.length_append, List.length_replicate, Int.natCast_add]
  · rw [← hleft]
    exact hside

theorem vprintfLoop_number_least :
    let args : Args := fun n => if n = 0 then ⟨21, []⟩ else ⟨BitVec.intMin 64, []⟩
    ∃ left zeros right : Nat,
      vprintfLoop args 2 0 0 (['%', '-', '+', '#', '0', '8', '.', '*', 'l', 'i'].map ch) =
        .ok ((List.replicate left (ch ' ') ++ ([ch '-'] ++ (List.replicate zeros (ch '0') ++
          numeralText 10 (2 ^ 63))) ++ List.replicate right (ch ' ')).map (⟨·, 0⟩)) := by
  intro args
  let s : Spec := ⟨['-', '+', '#', '0'].map ch,
    .digits (ch '8') [] (List.forall_mem_singleton.mpr rfl), some .star,
    [ch 'l'], by simp [isFlag, flagChars], List.forall_mem_singleton.mpr rfl⟩
  have hs : s.Maximal [ch 'i'] := ⟨stops_cons.mpr rfl, stops_cons.mpr rfl, nofun, by
    intro f hf
    obtain rfl := Option.some.inj hf
    trivial, stops_cons.mpr rfl⟩
  have hleast : s.arg args 0 (ch 'i') = -2 ^ 63 := by decide
  obtain ⟨left, zeros, right, hloop, -⟩ :=
    vprintfLoop_number args 0 (by decide) hs (by decide) (by decide) 0 1
  rw [hleast] at hloop
  exact ⟨left, zeros, right, hloop.trans (congrArg Except.ok (List.append_nil _))⟩

end Csc412.Printer
