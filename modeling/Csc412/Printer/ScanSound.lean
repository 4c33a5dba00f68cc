import Csc412.Lib.Numeral
import Csc412.Printer.Format

/-!
# Scanning a directive

After its percent sign a directive is flags, a width, a precision and length modifiers,
each as long as it can be. The scans of `printer_vprintf` read such a text part by part,
and every text starts with one.
-/

namespace Csc412.Printer

open Lib.CString Lib.Numeral

/-- The text does not go on with a character of the kind. -/
def Stops (kind : UInt8 → Bool) (p : Bytes) : Prop := ∀ c ∈ p.head?, kind c = false

theorem stops_dropWhile (kind : UInt8 → Bool) (p : Bytes) : Stops kind (p.dropWhile kind) := by
  intro c hc
  have hhead := List.head?_dropWhile_not kind p
  rw [Option.mem_def] at hc
  rw [hc] at hhead
  simpa using hhead

theorem stops_cons {kind : UInt8 → Bool} {c : UInt8} {p : Bytes} :
    Stops kind (c :: p) ↔ kind c = false := by
  simp [Stops]

/-! ## The grammar -/

def isFlag (c : UInt8) : Bool := decide (c ∈ flagChars)

def isModifier (c : UInt8) : Bool := c == ch 'l' || c == ch 'z'

/-- A width or a precision. -/
inductive Field where
  | absent
  | digits (c : UInt8) (cs : Bytes) (h : ∀ x ∈ c :: cs, isdigit x = true)
  | star

def Field.text : Field → Bytes
  | .absent => []
  | .digits c cs _ => c :: cs
  | .star => [ch '*']

def digitsVal (ds : Bytes) : Nat := value 10 (ds.map fun c => c.toNat - 48)

/-- The value of a field and the number of arguments read after it. -/
def Field.read (args : Args) (n : Nat) : Field → Int × Nat
  | .absent => (-1, n)
  | .digits c cs _ => (int32 (digitsVal (c :: cs)), n)
  | .star => (argInt args n, n + 1)

def Field.Ends (p : Bytes) : Field → Prop
  | .absent => Stops (fun c => isdigit c || c == ch '*') p
  | .digits .. => Stops isdigit p
  | .star => True

/-- What stands between the percent sign of a directive and its conversion character. -/
structure Spec where
  flags : Bytes
  width : Field
  precision : Option Field
  modifiers : Bytes
  flags_kind : ∀ c ∈ flags, isFlag c = true
  modifiers_kind : ∀ c ∈ modifiers, isModifier c = true

namespace Spec

variable (s : Spec)

def point : Bytes :=
  match s.precision with
  | none => []
  | some f => ch '.' :: f.text

def text : Bytes := s.flags ++ (s.width.text ++ (s.point ++ s.modifiers))

/-- Before `p`, every part is as long as it can be. -/
structure Maximal (p : Bytes) : Prop where
  flags : Stops isFlag (s.width.text ++ (s.point ++ (s.modifiers ++ p)))
  width : s.width.Ends (s.point ++ (s.modifiers ++ p))
  point : s.precision = none → Stops (· == ch '.') (s.modifiers ++ p)
  precision : ∀ f, s.precision = some f → f.Ends (s.modifiers ++ p)
  modifiers : Stops isModifier p

def flagSet : Flags := s.flags.foldl (fun flags c => flags.set (flagChars.idxOf c)) {}

def long : Bool := !s.modifiers.isEmpty

variable (args : Args) (n : Nat)

def widthVal : Int := (s.width.read args n).1

/-- The precision. A negative one counts as zero, and one that is not there is `-1`. -/
def precisionVal : Int :=
  match s.precision with
  | none => -1
  | some f => max 0 (f.read args (s.width.read args n).2).1

/-- The number of arguments read after the width and the precision. -/
def next : Nat :=
  match s.precision with
  | none => (s.width.read args n).2
  | some f => (f.read args (s.width.read args n).2).2

end Spec

/-! ## Reading a part -/

theorem scanFlags_append {fl : Bytes} (hfl : ∀ c ∈ fl, isFlag c = true) {p : Bytes}
    (hp : Stops isFlag p) (flags : Flags) :
    scanFlags (fl ++ p) flags =
      (fl.foldl (fun flags c => flags.set (flagChars.idxOf c)) flags, p) := by
  induction fl generalizing flags with
  | nil =>
    cases p with
    | nil => rfl
    | cons c p =>
      have hc : c ∉ flagChars := of_decide_eq_false (stops_cons.mp hp)
      rw [List.nil_append, scanFlags, if_neg hc]
      rfl
  | cons c fl ih =>
    have hc : c ∈ flagChars := of_decide_eq_true (hfl c List.mem_cons_self)
    rw [List.cons_append, scanFlags, if_pos hc, ih fun x hx => hfl x (List.mem_cons_of_mem c hx)]
    rfl

theorem int32_step (v : Int) (k : Int) : int32 (10 * int32 v + k) = int32 (10 * v + k) := by
  have hcast : BitVec.ofInt 32 (int32 v) = BitVec.ofInt 32 v := BitVec.ofInt_toInt
  have hword : BitVec.ofInt 32 (10 * int32 v + k) = BitVec.ofInt 32 (10 * v + k) := by
    rw [BitVec.ofInt_add, BitVec.ofInt_mul, hcast, ← BitVec.ofInt_mul, ← BitVec.ofInt_add]
  exact congrArg BitVec.toInt hword

theorem isdigit_iff (c : UInt8) : isdigit c = true ↔ 48 ≤ c.toNat ∧ c.toNat ≤ 57 := by
  rw [isdigit, Bool.and_eq_true, decide_eq_true_eq, decide_eq_true_eq, UInt8.le_iff_toNat_le,
    UInt8.le_iff_toNat_le]
  rfl

theorem scanDigits_append {ds : Bytes} (hds : ∀ c ∈ ds, isdigit c = true) {p : Bytes}
    (hp : Stops isdigit p) (v : Nat) :
    scanDigits (ds ++ p) (int32 v) =
      (int32 (ds.foldl (fun v c => 10 * v + (c.toNat - 48)) v : Nat), p) := by
  induction ds generalizing v with
  | nil =>
    cases p with
    | nil => rfl
    | cons c p =>
      rw [List.nil_append, scanDigits, if_neg (by rw [stops_cons.mp hp]; exact Bool.false_ne_true)]
      rfl
  | cons c ds ih =>
    have hc := hds c List.mem_cons_self
    have hval : (10 * int32 v + c.toNat - 48 : Int) =
        10 * int32 v + ((c.toNat - 48 : Nat) : Int) := by
      have hle := ((isdigit_iff c).mp hc).1
      omega
    have hstep : int32 (10 * int32 v + c.toNat - 48) =
        int32 ((10 * v + (c.toNat - 48) : Nat) : Int) := by
      rw [hval, int32_step]
      norm_cast
    rw [List.cons_append, scanDigits, if_pos hc, hstep,
      ih fun x hx => hds x (List.mem_cons_of_mem c hx)]
    rfl

theorem scanDigits_field {c : UInt8} {cs : Bytes} (h : ∀ x ∈ c :: cs, isdigit x = true) {p : Bytes}
    (hp : Stops isdigit p) : scanDigits (c :: (cs ++ p)) 0 = (int32 (digitsVal (c :: cs)), p) := by
  have hscan := scanDigits_append h hp 0
  rw [List.cons_append] at hscan
  rw [show (0 : Int) = int32 (0 : Nat) from rfl, hscan, digitsVal, value, List.foldl_map]

theorem scanPoint_append (args : Args) (n : Nat) (f : Field) {p : Bytes} (hp : f.Ends p) :
    scanPoint args n (f.text ++ p) = ((f.read args n).1, (f.read args n).2, p) := by
  cases f with
  | absent =>
    cases p with
    | nil => rfl
    | cons c p =>
      have hc := stops_cons.mp hp
      rw [Bool.or_eq_false_iff] at hc
      rw [Field.text, List.nil_append, scanPoint, if_neg (by rw [hc.1]; exact Bool.false_ne_true),
        if_neg (beq_eq_false_iff_ne.mp hc.2)]
      rfl
  | digits c cs h =>
    rw [Field.text, List.cons_append, scanPoint, if_pos (h c List.mem_cons_self),
      scanDigits_field h hp]
    rfl
  | star => rfl

theorem scanWidth_append (args : Args) (n : Nat) (f : Field) {p : Bytes}
    (hflag : Stops isFlag (f.text ++ p)) (hp : f.Ends p) :
    scanWidth args n (f.text ++ p) = ((f.read args n).1, (f.read args n).2, p) := by
  have hrange (c : UInt8) (hc : isFlag c = false) : (ch '1' ≤ c ∧ c ≤ ch '9') ↔
      isdigit c = true := by
    have hzero : c ≠ ch '0' := by
      intro hc0
      rw [hc0] at hc
      exact absurd hc (by decide)
    rw [isdigit_iff, UInt8.le_iff_toNat_le, UInt8.le_iff_toNat_le]
    rw [ne_eq, ← UInt8.toNat_inj] at hzero
    have h0 : (ch '0').toNat = 48 := rfl
    have h1 : (ch '1').toNat = 49 := rfl
    have h9 : (ch '9').toNat = 57 := rfl
    omega
  cases f with
  | absent =>
    cases p with
    | nil => rfl
    | cons c p =>
      have hc := stops_cons.mp hp
      rw [Bool.or_eq_false_iff] at hc
      have hdigit : ¬(ch '1' ≤ c ∧ c ≤ ch '9') := by
        rw [hrange c (stops_cons.mp hflag), hc.1]
        exact Bool.false_ne_true
      rw [Field.text, List.nil_append, scanWidth, if_neg hdigit,
        if_neg (beq_eq_false_iff_ne.mp hc.2)]
      rfl
  | digits c cs h =>
    have hdigit := (hrange c (stops_cons.mp hflag)).mpr (h c List.mem_cons_self)
    rw [Field.text, List.cons_append, scanWidth, if_pos hdigit, scanDigits_field h hp]
    rfl
  | star => rfl

theorem scanModifiers_append {ms : Bytes} (hms : ∀ c ∈ ms, isModifier c = true) {p : Bytes}
    (hp : Stops isModifier p) (length : Bool) :
    scanModifiers (ms ++ p) length = (length || !ms.isEmpty, p) := by
  induction ms generalizing length with
  | nil =>
    cases p with
    | nil =>
      rw [List.nil_append, scanModifiers, List.isEmpty_nil, Bool.not_true, Bool.or_false]
    | cons c p =>
      have hc := stops_cons.mp hp
      rw [isModifier, Bool.or_eq_false_iff, beq_eq_false_iff_ne, beq_eq_false_iff_ne] at hc
      rw [List.nil_append, scanModifiers, if_neg (not_or.mpr hc), List.isEmpty_nil, Bool.not_true,
        Bool.or_false]
  | cons c ms ih =>
    have hc := hms c List.mem_cons_self
    rw [isModifier, Bool.or_eq_true, beq_iff_eq, beq_iff_eq] at hc
    rw [List.cons_append, scanModifiers, if_pos hc,
      ih fun x hx => hms x (List.mem_cons_of_mem c hx)]
    simp

/-! ## Reading a directive -/

theorem scanPrecision_append (args : Args) (n : Nat) (s : Spec) {p : Bytes}
    (hnone : s.precision = none → Stops (· == ch '.') p)
    (hsome : ∀ f, s.precision = some f → f.Ends p) :
    scanPrecision args (s.width.read args n).2 (s.point ++ p) =
        (s.precisionVal args n, s.next args n, p) := by
  rw [Spec.point, Spec.precisionVal, Spec.next]
  cases hprec : s.precision with
  | none =>
    cases p with
    | nil => rfl
    | cons c p =>
      have hc : (c == ch '.') = false := hnone hprec c rfl
      rw [List.nil_append, scanPrecision, if_neg (beq_eq_false_iff_ne.mp hc)]
  | some f =>
    rw [List.cons_append, scanPrecision, if_pos rfl, scanPoint_append args _ f (hsome f hprec)]
    simp only [Prod.mk.injEq, and_true]
    split <;> omega

theorem directive_append (args : Args) (n : Nat) (color : BitVec 32) {s : Spec} {p : Bytes}
    (h : s.Maximal p) :
    directive args n color (s.text ++ p) =
      convert args s.flagSet (s.widthVal args n) (s.precisionVal args n) s.long
          (s.next args n) color p := by
  rw [directive, Spec.text, List.append_assoc, List.append_assoc, List.append_assoc,
    scanFlags_append s.flags_kind h.flags]
  dsimp only
  rw [scanWidth_append args n s.width h.flags h.width]
  dsimp only
  rw [scanPrecision_append args n s h.point h.precision]
  dsimp only
  rw [scanModifiers_append s.modifiers_kind h.modifiers]
  rfl

/-- After a directive the loop goes on with what follows its conversion character. -/
theorem vprintfLoop_directive {args : Args} {n : Nat} {color : BitVec 32} {p q : Bytes}
    {step : Step} (hstep : directive args n color p = .ok step)
    (hrest : if step.back then step.rest = q else ∃ c, step.rest = c :: q) (fuel : Nat) :
    vprintfLoop args (fuel + 1) n color (ch '%' :: p) = (do
      let out ← vprintfLoop args fuel step.next step.color q
      .ok (step.out ++ out)) := by
  rw [vprintfLoop, if_neg (by simp), hstep]
  obtain ⟨out, rest, back, next, color'⟩ := step
  cases back with
  | true =>
    obtain rfl : rest = q := hrest
    rfl
  | false =>
    obtain ⟨c, rfl⟩ : ∃ c, rest = c :: q := hrest
    rfl

/-! ## Every text starts with a directive's -/

theorem field_exists (p : Bytes) : ∃ (f : Field) (q : Bytes), p = f.text ++ q ∧ f.Ends q := by
  cases p with
  | nil => exact ⟨.absent, [], rfl, fun c hc => by simp at hc⟩
  | cons c p =>
    by_cases hstar : c = ch '*'
    · exact ⟨.star, p, by rw [hstar]; rfl, trivial⟩
    · by_cases hdigit : isdigit c = true
      · have hds : ∀ x ∈ c :: p.takeWhile isdigit, isdigit x = true := by
          intro x hx
          rcases List.mem_cons.mp hx with rfl | hx
          · exact hdigit
          · exact List.mem_takeWhile_imp hx
        refine ⟨.digits c (p.takeWhile isdigit) hds, p.dropWhile isdigit, ?_,
          stops_dropWhile isdigit p⟩
        rw [Field.text, List.cons_append, List.takeWhile_append_dropWhile]
      · refine ⟨.absent, c :: p, rfl, stops_cons.mpr ?_⟩
        rw [Bool.or_eq_false_iff]
        exact ⟨Bool.not_eq_true _ ▸ hdigit, beq_eq_false_iff_ne.mpr hstar⟩

theorem precision_exists (p : Bytes) : ∃ (prec : Option Field) (q : Bytes),
    p = (match prec with | none => [] | some f => ch '.' :: f.text) ++ q ∧
      (prec = none → Stops (· == ch '.') q) ∧ ∀ f, prec = some f → f.Ends q := by
  by_cases hdot : p.head? = some (ch '.')
  · obtain ⟨p, rfl⟩ : ∃ p', p = ch '.' :: p' := List.head?_eq_some_iff.mp hdot
    obtain ⟨f, q, rfl, hf⟩ := field_exists p
    refine ⟨some f, q, rfl, nofun, ?_⟩
    intro g hg
    exact Option.some.inj hg ▸ hf
  · refine ⟨none, p, rfl, ?_, nofun⟩
    intro _ c hc
    rw [beq_eq_false_iff_ne]
    intro hcdot
    rw [Option.mem_def, hcdot] at hc
    exact hdot hc

theorem spec_exists (p : Bytes) : ∃ (s : Spec) (q : Bytes), p = s.text ++ q ∧ s.Maximal q := by
  obtain ⟨width, q, hwidth, hends⟩ := field_exists (p.dropWhile isFlag)
  obtain ⟨prec, r, hprec, hnone, hsome⟩ := precision_exists q
  refine ⟨⟨p.takeWhile isFlag, width, prec, r.takeWhile isModifier,
    fun _ hc => List.mem_takeWhile_imp hc,
    fun _ hc => List.mem_takeWhile_imp hc⟩, r.dropWhile isModifier, ?_, ?_⟩
  · rw [Spec.text, Spec.point, List.append_assoc, List.append_assoc, List.append_assoc,
      List.takeWhile_append_dropWhile, ← hprec, ← hwidth, List.takeWhile_append_dropWhile]
  · constructor
    · rw [Spec.point, List.takeWhile_append_dropWhile, ← hprec, ← hwidth]
      exact stops_dropWhile isFlag p
    · rw [Spec.point, List.takeWhile_append_dropWhile, ← hprec]
      exact hends
    · rw [List.takeWhile_append_dropWhile]
      exact hnone
    · rw [List.takeWhile_append_dropWhile]
      exact hsome
    · exact stops_dropWhile isModifier r

end Csc412.Printer
