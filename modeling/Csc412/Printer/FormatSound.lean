import Csc412.Printer.NumberSound

/-!
# Printing a format

Every format is a sequence of characters that stand for themselves and of directives, the
last of which may be cut off by the end. `printer_vprintf` prints such a sequence piece by
piece and stops at its end.
-/

namespace Csc412.Printer

open Lib.CString

/-! ## Pieces of a format -/

inductive Piece where
  | lit (c : UInt8)
  | conv (s : Spec) (c : UInt8)
  | cut (s : Spec)

def Piece.text : Piece → Bytes
  | .lit c => [c]
  | .conv s c => ch '%' :: (s.text ++ [c])
  | .cut s => ch '%' :: s.text

def textOf (pieces : List Piece) : Bytes := pieces.flatMap Piece.text

def WellFormed : List Piece → Prop
  | [] => True
  | .lit c :: pieces => c ≠ ch '%' ∧ WellFormed pieces
  | .conv s c :: pieces => s.Maximal (c :: textOf pieces) ∧ WellFormed pieces
  | .cut s :: pieces => pieces = [] ∧ s.Maximal []

theorem pieces_exist (format : Bytes) : ∃ pieces, WellFormed pieces ∧ textOf pieces = format := by
  induction hlen : format.length using Nat.strongRecOn generalizing format with
  | _ k ih =>
    cases format with
    | nil => exact ⟨[], trivial, rfl⟩
    | cons c p =>
      by_cases hc : c = ch '%'
      · obtain ⟨s, q, rfl, hs⟩ := spec_exists p
        cases q with
        | nil => exact ⟨[.cut s], ⟨rfl, hs⟩, by rw [hc, List.append_nil]; exact List.append_nil _⟩
        | cons d q =>
          obtain ⟨pieces, hwell, rfl⟩ := ih q.length (by
            rw [← hlen, List.length_cons, List.length_append, List.length_cons]
            omega) q rfl
          refine ⟨.conv s d :: pieces, ⟨hs, hwell⟩, ?_⟩
          rw [hc, textOf, List.flatMap_cons, Piece.text, List.cons_append, List.append_assoc]
          rfl
      · obtain ⟨pieces, hwell, rfl⟩ := ih p.length (by rw [← hlen]; exact Nat.lt_succ_self _) p rfl
        exact ⟨.lit c :: pieces, ⟨hc, hwell⟩, rfl⟩

/-! ## What a piece prints -/

/-- A text between the spaces that fill the width up. -/
def justified (left : Bool) (width : Int) (text : Bytes) : Bytes :=
  let spaces := List.replicate (int32 (width - text.length)).toNat (ch ' ')
  if left then text ++ spaces else spaces ++ text

/-- What a precision leaves of a text. -/
def shown (precision : Int) (text : Bytes) : Bytes :=
  if 0 ≤ precision then text.take precision.toNat else text

theorem pad_text {flags : Flags} (hflags : flags.numeric = false) (width precision : Int)
    {text : Bytes} (hzero : 0 ∉ text) (hlen : text.length < 2 ^ 31) :
    pad flags width precision [] text =
        justified flags.leftjustify width (shown precision text) := by
  have hlen' : int32 (if 0 ≤ precision ∧ ¬flags.numeric then min text.length precision.toNat
    else text.length : Nat) =
      (shown precision text).length := by
    rw [shown]
    by_cases hprec : 0 ≤ precision
    · rw [if_pos ⟨hprec, by rw [hflags]; exact Bool.false_ne_true⟩, if_pos hprec, List.length_take,
        Nat.min_comm]
      exact int32_eq (by omega) (by omega)
    · rw [if_neg fun h => hprec h.1, if_neg hprec]
      exact int32_eq (by omega) (by omega)
  have hzeros : zerosOf flags width precision (shown precision text).length 0 = 0 := by
    rw [zerosOf, if_neg (by simp [hflags]), if_neg (by simp [hflags])]
  have htake : text.take (shown precision text).length = shown precision text := by
    rw [shown]
    split
    · rw [List.length_take]
      exact List.take_eq_take_min.symm
    · exact List.take_length
  have htext : pad flags width precision [] text =
      List.replicate (if flags.leftjustify then 0
        else (int32 (width - (shown precision text).length)).toNat) (ch ' ') ++
        shown precision text ++
        List.replicate (int32 (width - (shown precision text).length) -
          (if flags.leftjustify then 0
            else (int32 (width - (shown precision text).length)).toNat : Nat)).toNat (ch ' ') := by
    rw [pad]
    simp only [cstr_eq hzero, hlen', List.length_nil, Int.natCast_zero, hzeros, Int.toNat_natCast,
      htake, add_zero, List.append_nil, Int.toNat_zero, List.replicate_zero]
  rw [htext, justified]
  cases hleft : flags.leftjustify with
  | true => simp
  | false => simp

theorem pad_str (text : Bytes) (hlen : (cstr text).length < 2 ^ 31) :
    pad {} (-1) (-1) [] text = cstr text := by
  have hpad : pad {} (-1) (-1) [] text = pad {} (-1) (-1) [] (cstr text) := by
    rw [pad, pad, cstr_eq (zero_notMem_cstr text)]
  have hspaces : (int32 (-1 - (cstr text).length)).toNat = 0 := by
    rw [int32_eq (by omega) (by omega)]
    omega
  rw [hpad, pad_text rfl (-1) (-1) (zero_notMem_cstr text) hlen, shown, if_neg (by decide),
    justified, hspaces]
  rfl

/-- The calls of `putc` for the pieces of a format. -/
inductive Renders (args : Args) : Nat → BitVec 32 → List Piece → List Call → Prop
  | nil (n : Nat) (color : BitVec 32) : Renders args n color [] []
  | lit {n : Nat} {color : BitVec 32} {pieces : List Piece} {out : List Call} (c : UInt8)
      (h : Renders args n color pieces out) :
        Renders args n color (.lit c :: pieces) (⟨c, color⟩ :: out)
  | conv {n : Nat} {color : BitVec 32} {pieces : List Piece} {out : List Call} (s : Spec)
    (c : UInt8) (step : Step)
      (hstep : convert args s.flagSet (s.widthVal args n) (s.precisionVal args n) s.long
        (s.next args n) color
        (c :: textOf pieces) = .ok step)
      (h : Renders args step.next step.color pieces out) :
      Renders args n color (.conv s c :: pieces) (step.out ++ out)
  | cut (n : Nat) (color : BitVec 32) (s : Spec) :
      Renders args n color [.cut s]
        ((justified s.flagSet.leftjustify (s.widthVal args n)
          (shown (s.precisionVal args n) [ch '%'])).map (⟨·, color⟩))

section
variable (args : Args)

theorem convert_ok (flags : Flags) (width precision : Int) (long : Bool) (n : Nat)
    (color : BitVec 32) (c : UInt8) (p : Bytes) :
    ∃ step, convert args flags width precision long n color (c :: p) = .ok step ∧
      step.rest = c :: p ∧ step.back = false := by
  rw [convert]
  dsimp only
  split
  · exact ⟨_, putNumber_eq _ _ _ _ _ _ (.inl rfl) _, rfl, rfl⟩
  · split
    · exact ⟨_, putNumber_eq _ _ _ _ _ _ (.inl rfl) _, rfl, rfl⟩
    · split
      · exact ⟨_, putNumber_eq _ _ _ _ _ _ (.inr (.inr rfl)) _, rfl, rfl⟩
      · split
        · exact ⟨_, putNumber_eq _ _ _ _ _ _ (.inr (.inl rfl)) _, rfl, rfl⟩
        · split
          · exact ⟨_, putNumber_eq _ _ _ _ _ _ (.inr (.inr rfl)) _, rfl, rfl⟩
          · repeat' split
            all_goals exact ⟨_, rfl, rfl, rfl⟩

theorem vprintfLoop_renders {pieces : List Piece} (hwell : WellFormed pieces) (fuel : Nat)
    (hfuel : (textOf pieces).length < fuel) (n : Nat) (color : BitVec 32) :
    ∃ out, vprintfLoop args fuel n color (textOf pieces) = .ok out ∧
    Renders args n color pieces out := by
  induction pieces generalizing fuel n color with
  | nil =>
    obtain ⟨fuel, rfl⟩ := Nat.exists_eq_add_of_lt hfuel
    exact ⟨[], rfl, .nil n color⟩
  | cons piece pieces ih =>
    obtain ⟨fuel, rfl⟩ := Nat.exists_eq_add_of_le' (Nat.zero_lt_of_lt hfuel)
    rw [textOf, List.flatMap_cons, List.length_append] at hfuel
    cases piece with
    | lit c =>
      rw [Piece.text, List.length_singleton] at hfuel
      obtain ⟨out, hout, hrenders⟩ := ih hwell.2 fuel (by rw [textOf]; omega) n color
      refine ⟨⟨c, color⟩ :: out, ?_, .lit c hrenders⟩
      change vprintfLoop args (fuel + 1) n color (c :: textOf pieces) = _
      rw [vprintfLoop, if_pos hwell.1, hout]
      rfl
    | conv s c =>
      obtain ⟨step, hstep, hrest, hback⟩ :=
        convert_ok args s.flagSet (s.widthVal args n) (s.precisionVal args n)
        s.long (s.next args n) color c (textOf pieces)
      rw [Piece.text, List.length_cons] at hfuel
      obtain ⟨out, hout, hrenders⟩ := ih hwell.2 fuel (by rw [textOf]; omega) step.next step.color
      have htext : textOf (.conv s c :: pieces) = ch '%' :: (s.text ++ c :: textOf pieces) := by
        rw [textOf, List.flatMap_cons, Piece.text, List.cons_append, List.append_assoc]
        rfl
      refine ⟨step.out ++ out, ?_, .conv s c step hstep hrenders⟩
      rw [htext, vprintfLoop_directive ((directive_append args n color hwell.1).trans hstep)
        (by rw [hback]; exact ⟨c, hrest⟩), hout]
      rfl
    | cut s =>
      obtain ⟨rfl, hs⟩ := hwell
      rw [Piece.text, List.length_cons] at hfuel
      obtain ⟨fuel, rfl⟩ := Nat.exists_eq_add_of_le' (n := fuel) (m := 1) (by omega)
      have htext : textOf [.cut s] = ch '%' :: (s.text ++ []) := by
        rw [textOf, List.flatMap_singleton, List.append_nil]
        rfl
      have hnumeric := (flagSet_unset s).1
      have hpercent : 0 ∉ [ch '%'] := by decide
      have hpad := pad_text hnumeric (s.widthVal args n) (s.precisionVal args n) hpercent
        (by decide)
      refine ⟨_, ?_, .cut n color s⟩
      rw [htext, vprintfLoop_directive (directive_append args n color hs) rfl, ← hpad]
      exact congrArg Except.ok (List.append_nil _)

theorem printerVprintf_str (color : BitVec 32) (hlen : (cstr (args 0).str).length < 2 ^ 31) :
    printerVprintf color (['%', 's'].map ch) args = .ok ((cstr (args 0).str).map (⟨·, color⟩)) := by
  have hstep : directive args 0 color [ch 's'] =
      .ok (putText {} (-1) (-1) (args 0).str 1 color [ch 's'] false) := rfl
  have hloop := vprintfLoop_directive hstep (q := []) ⟨ch 's', rfl⟩ 2
  rw [putText, pad_str _ hlen] at hloop
  exact hloop.trans (congrArg Except.ok (List.append_nil _))

end

theorem printerVprintf_renders (format : Bytes) :
    ∃ pieces, WellFormed pieces ∧ textOf pieces = format ∧
      ∀ args color, ∃ out, printerVprintf color format args = .ok out ∧
      Renders args 0 color pieces out := by
  obtain ⟨pieces, hwell, rfl⟩ := pieces_exist format
  exact ⟨pieces, hwell, rfl,
    fun args color => vprintfLoop_renders args hwell _ (Nat.lt_succ_self _) 0 color⟩

end Csc412.Printer
