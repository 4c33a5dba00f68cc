import Csc412.Kernel.Keyboard
import Csc412.Kernel.ExceptionSound

/-!
# What the keyboard makes of scan codes

The modifiers are told from the stream of scan codes alone (`modifiers_after`): a key
that is held from its last press or release, a lock from how often it was pressed. So
is what a key press does to the kernel. And each character from 1 to 126 can be typed.
No stream makes the driver read past the end of a table.
-/

namespace Csc412.Kernel

/-! ## The tables -/

theorem keymap_length : keymap.length = 256 := by decide +kernel

theorem keymap_bound (x : BitVec 8) : x.toNat < keymap.length := by
  rw [keymap_length]
  exact x.isLt

def keyCode (x : BitVec 8) : Nat := keymap.get ⟨x.toNat, keymap_bound x⟩

theorem keyOf_eq (x : BitVec 8) : keyOf x = some (keyCode x) :=
  List.getElem?_eq_getElem (keymap_bound x)

/-- No key has a code beyond 255. -/
theorem keyCode_lt (x : BitVec 8) : keyCode x < 256 := by
  revert x
  decide +kernel

theorem keyCode_range (x : BitVec 8) :
    (keyCode x ≤ 122 ∧ keyCode x ≠ 3) ∨ ckey 0 ≤ keyCode x ∧ keyCode x ≤ ckey 21 ∨
    keyUp ≤ keyCode x ∧ keyCode x ≤ keyDelete ∨ keyShift ≤ keyCode x := by
  revert x
  decide +kernel

/-- What stands in the table for the keys with more than one character. -/
theorem complex_outputs : ∀ i < 22, ∀ j < 4, ((complexKeymap[i]?.bind (·[j]?)).any fun c =>
    c ≤ 126 ∧ c ≠ 3 ∧ ¬ (97 ≤ c ∧ c ≤ 122)) = true := by
  decide

theorem and_three (m : BitVec 8) : (m &&& 3).toNat < 4 := by
  revert m
  decide +kernel

/-! ## Events -/

/-- A byte that is not `0xE0`, with the escape before it. -/
structure KeyEvent where
  escaped : Bool
  data : BitVec 8
deriving DecidableEq, Repr

def escapeOf (escaped : Bool) : BitVec 8 := if escaped then 0x80 else 0

def KeyEvent.press (e : KeyEvent) : Bool := e.data &&& 0x80 == 0

def KeyEvent.key (e : KeyEvent) : Nat := keyCode ((e.data &&& 0x7F) ||| escapeOf e.escaped)

def keyEvents : Bool → List (BitVec 8) → List KeyEvent
  | _, [] => []
  | escaped, data :: l =>
    if data = 0xE0 then keyEvents true l else ⟨escaped, data⟩ :: keyEvents false l

/-- The last event of a key with code `ch` is a press. -/
def heldKey (ch : Nat) (es : List KeyEvent) : Bool :=
  (es.reverse.find? fun e => e.key == ch).any KeyEvent.press

/-- A key with code `ch` was pressed an odd number of times. -/
def lockedKey (ch : Nat) (es : List KeyEvent) : Bool :=
  es.countP (fun e => e.press && e.key == ch) % 2 == 1

/-! ## One byte -/

def pressModifiers (m : BitVec 8) (ch : Nat) : BitVec 8 :=
  if keyCapslock ≤ ch then m ^^^ (1#8 <<< (ch - keyShift))
  else if keyShift ≤ ch then m ||| (1#8 <<< (ch - keyShift))
  else m

def Keyboard.pressed (k : Keyboard) (e : KeyEvent) : Keyboard :=
  if e.press then ⟨pressModifiers k.modifiers e.key, 0⟩
  else if keyShift ≤ e.key ∧ e.key < keyCapslock
    then ⟨k.modifiers &&& ~~~(1#8 <<< (e.key - keyShift)), 0⟩
  else ⟨k.modifiers, 0⟩

/-- What a key press may return. -/
def Returned (c : Nat) : Prop := c ≤ 126 ∨ keyUp ≤ c ∧ c ≤ keyDelete

def Keyboard.plain (k : Keyboard) : Prop := ¬ k.has modControl ∧ k.has modShift = k.has modCapslock

/-- What a press of the key with code `ch` returns. -/
structure Pressed (k : Keyboard) (ch c : Nat) : Prop where
  returned : Returned c
  letter : ∀ l, 97 ≤ l → l ≤ 122 → (c = l ↔ ch = l ∧ k.plain)
  interrupt : c = 3 ↔ ch = 99 ∧ k.has modControl

theorem pressKey_spec (k : Keyboard) (x : BitVec 8) :
    ∃ c, pressKey k (keyCode x) =
      some (c, { k with modifiers := pressModifiers k.modifiers (keyCode x) }) ∧
      Pressed k (keyCode x) c := by
  have hx := keyCode_range x
  generalize keyCode x = ch at hx
  unfold pressKey pressModifiers
  by_cases h₁ : 97 ≤ ch ∧ ch ≤ 122
  · have h₂ : ¬ keyCapslock ≤ ch := by unfold keyCapslock; omega
    have h₃ : ¬ keyShift ≤ ch := by unfold keyShift; omega
    rw [if_pos h₁, if_neg h₂, if_neg h₃]
    by_cases hc : k.has modControl = true
    · rw [if_pos hc]
      refine ⟨_, rfl, .inl (by omega), fun l h₂ h₃ => ?_, ?_⟩
      · simp only [Keyboard.plain, hc, not_true_eq_false, false_and, and_false, iff_false]
        omega
      · simp only [hc, and_true]
        omega
    · by_cases hs : ((!k.has modShift) != (!k.has modCapslock)) = true
      · have hne : k.has modShift ≠ k.has modCapslock := by simpa using hs
        rw [if_neg hc, if_pos hs]
        refine ⟨_, rfl, .inl (by omega), fun l h₂ h₃ => ?_, ?_⟩
        · simp only [Keyboard.plain, hne, and_false, iff_false]
          omega
        · simp only [hc, Bool.false_eq_true, and_false, iff_false]
          omega
      · have heq : k.has modShift = k.has modCapslock := by simpa using hs
        rw [if_neg hc, if_neg hs]
        refine ⟨_, rfl, .inl (by omega), fun l h₂ h₃ => ?_, ?_⟩
        · simp only [Keyboard.plain, heq, hc, Bool.false_eq_true, not_false_eq_true, and_self,
            and_true]
        · simp only [hc, Bool.false_eq_true, and_false, iff_false]
          omega
  · rw [if_neg h₁]
    have hother : ∀ l, 97 ≤ l → l ≤ 122 → ch ≠ l := fun l h₂ h₃ => by omega
    have h99 : ch ≠ 99 := by omega
    -- no other key gives a letter or an interrupt
    have hplain : ∀ c, Returned c → c ≠ 3 → ¬ (97 ≤ c ∧ c ≤ 122) → Pressed k ch c :=
      fun c hc h₃ hl =>
      ⟨hc, fun l h₄ h₅ => iff_of_false (fun h => hl (h ▸ ⟨h₄, h₅⟩)) fun h => hother l h₄ h₅ h.1,
        iff_of_false h₃ fun h => h99 h.1⟩
    have hzero : Pressed k ch 0 := hplain 0 (.inl (Nat.zero_le _)) (by decide) (by decide)
    by_cases h₂ : keyCapslock ≤ ch
    · rw [if_pos h₂, if_pos h₂]
      exact ⟨_, rfl, hzero⟩
    · rw [if_neg h₂, if_neg h₂]
      by_cases h₃ : keyShift ≤ ch
      · rw [if_pos h₃, if_pos h₃]
        exact ⟨_, rfl, hzero⟩
      · rw [if_neg h₃, if_neg h₃]
        by_cases h₄ : ckey 0 ≤ ch ∧ ch ≤ ckey 21
        · rw [if_pos h₄]
          have hany := complex_outputs (ch - ckey 0) (by unfold ckey at *; omega)
            _ (and_three k.modifiers)
          obtain ⟨c, hc, hout⟩ := (Option.any_eq_true _ _).mp hany
          obtain ⟨key, hkey, hread⟩ := Option.bind_eq_some_iff.mp hc
          obtain ⟨ho₁, ho₂, ho₃⟩ := of_decide_eq_true hout
          refine ⟨c, ?_, hplain c (.inl ho₁) ho₂ ho₃⟩
          rw [hkey, Option.bind_eq_bind, Option.bind_some, hread]
          rfl
        · rw [if_neg h₄]
          have hch : Returned ch ∧ ch ≠ 3 := by
            unfold Returned
            unfold keyUp keyShift at *
            omega
          by_cases h₅ : ch < 0x80 ∧ k.has modControl = true
          · rw [if_pos h₅]
            exact ⟨_, rfl, hzero⟩
          · rw [if_neg h₅]
            exact ⟨_, rfl, hplain ch hch.1 hch.2 h₁⟩

theorem press_low (data : BitVec 8) (h : data &&& 0x80 = 0) : data &&& 0x7F = data := by
  revert data
  decide +kernel

theorem readc_escape (k : Keyboard) :
    keyboardReadc k (some 0xE0) = some (0, ⟨k.modifiers, 0x80⟩) := by
  simp [keyboardReadc]

/-- What is returned for a byte, and no table is read past its end. -/
theorem readc_event {k : Keyboard} {escaped : Bool} (he : k.lastEscape = escapeOf escaped)
    {data : BitVec 8} (hd : data ≠ 0xE0) :
    ∃ c : Nat, keyboardReadc k (some data) = some ((c : Int), k.pressed ⟨escaped, data⟩) ∧
      if data &&& 0x80 = 0 then Pressed k (keyCode (data ||| escapeOf escaped)) c else c = 0 := by
  unfold keyboardReadc Keyboard.pressed
  simp only [he, if_neg hd, keyOf_eq, Option.bind_eq_bind, Option.bind_some]
  by_cases hp : data &&& 0x80 = 0
  · have hpress : (KeyEvent.mk escaped data).press = true := by simpa [KeyEvent.press] using hp
    have hkey : (KeyEvent.mk escaped data).key = keyCode (data ||| escapeOf escaped) := by
      rw [KeyEvent.key, press_low data hp]
    obtain ⟨c, hread, hc⟩ := pressKey_spec { k with lastEscape := 0 } (data ||| escapeOf escaped)
    refine ⟨c, ?_, ?_⟩
    · rw [if_neg (not_not.mpr hp), if_pos hpress, hkey, hread]
      rfl
    · rw [if_pos hp]
      exact ⟨hc.returned, hc.letter, hc.interrupt⟩
  · have hpress : ¬ (KeyEvent.mk escaped data).press = true := by simpa [KeyEvent.press] using hp
    refine ⟨0, ?_, by rw [if_neg hp]⟩
    rw [if_pos hp, if_neg hpress]
    change (if keyShift ≤ (KeyEvent.mk escaped data).key ∧
      (KeyEvent.mk escaped data).key < keyCapslock then _ else _) = _
    by_cases hk : keyShift ≤ (KeyEvent.mk escaped data).key ∧
      (KeyEvent.mk escaped data).key < keyCapslock
    · rw [if_pos hk, if_pos hk]
      rfl
    · rw [if_neg hk, if_neg hk]
      rfl

theorem shift_bit {n i : Nat} (hn : n < 8) : (1#8 <<< n).getLsbD i = decide (i = n) := by
  rw [BitVec.getLsbD_shiftLeft, BitVec.getLsbD_one]
  by_cases hi : i = n
  · subst hi
    simp [hn]
  · simp [hi]
    omega

theorem pressModifiers_bit (m : BitVec 8) {ch : Nat} (hch : ch < 256) (i : Nat) :
    (pressModifiers m ch).getLsbD i =
      if keyCapslock ≤ ch then (m.getLsbD i ^^ decide (i = ch - keyShift))
      else if keyShift ≤ ch then (m.getLsbD i || decide (i = ch - keyShift))
      else m.getLsbD i := by
  have hlt : ch - keyShift < 8 := by
    unfold keyShift
    omega
  unfold pressModifiers
  split_ifs
  · rw [BitVec.getLsbD_xor, shift_bit hlt]
  · rw [BitVec.getLsbD_or, shift_bit hlt]
  · rfl

/-! ## Streams -/

/-- The escape that the next byte finds. -/
def endEscape (l : List (BitVec 8)) : Bool := l.getLast? == some 0xE0

theorem endEscape_snoc (l : List (BitVec 8)) (data : BitVec 8) :
    endEscape (l ++ [data]) = (data == 0xE0) := by
  simp [endEscape]

theorem keyEvents_cons_escape (l : List (BitVec 8)) (data : BitVec 8) : ∀ escaped,
    keyEvents escaped (l ++ [data]) = keyEvents escaped l ++
      if data = 0xE0 then [] else [⟨(if l = [] then escaped else endEscape l), data⟩] := by
  induction l with
  | nil => intro escaped; simp [keyEvents]
  | cons x l ih =>
    intro escaped
    have hend : endEscape (x :: l) = if l = [] then x == 0xE0 else endEscape l := by
      cases l with
      | nil => simp [endEscape]
      | cons y l => simp [endEscape, List.getLast?_cons_cons]
    simp only [List.cons_append, keyEvents, ih, reduceCtorEq, if_false, hend]
    by_cases hx : x = 0xE0
    · rw [if_pos hx, if_pos hx, hx, beq_self_eq_true]
    · have hbeq : (x == 0xE0) = false := by simpa using hx
      rw [if_neg hx, if_neg hx, hbeq, List.cons_append]

theorem keyEvents_snoc (l : List (BitVec 8)) (data : BitVec 8) : keyEvents false (l ++ [data]) =
    keyEvents false l ++ if data = 0xE0 then [] else [⟨endEscape l, data⟩] := by
  rw [keyEvents_cons_escape]
  cases l with
  | nil => rfl
  | cons x l => rfl

theorem heldKey_snoc (ch : Nat) (es : List KeyEvent) (e : KeyEvent) :
    heldKey ch (es ++ [e]) = if e.key = ch then e.press else heldKey ch es := by
  unfold heldKey
  by_cases h : e.key = ch <;> simp [h]

theorem lockedKey_snoc (ch : Nat) (es : List KeyEvent) (e : KeyEvent) :
    lockedKey ch (es ++ [e]) = (lockedKey ch es ^^ (e.press && e.key == ch)) := by
  unfold lockedKey
  rw [List.countP_append, List.countP_singleton]
  by_cases h : (e.press && e.key == ch) = true
  · rw [if_pos h, h]
    rcases Nat.mod_two_eq_zero_or_one (List.countP (fun e => e.press && e.key == ch) es)
      with h2 | h2 <;>
      simp [Nat.add_mod, h2]
  · rw [if_neg h]
    simp only [Bool.not_eq_true] at h
    simp [h]

theorem readAll_append {k k₁ k₂ : Keyboard} {l₁ l₂ : List (BitVec 8)} {cs₁ cs₂ : List Int}
    (h₁ : k.readAll l₁ = some (cs₁, k₁)) (h₂ : k₁.readAll l₂ = some (cs₂, k₂)) :
    k.readAll (l₁ ++ l₂) = some (cs₁ ++ cs₂, k₂) := by
  induction l₁ generalizing k cs₁ with
  | nil =>
    cases h₁
    exact h₂
  | cons data l₁ ih =>
    obtain ⟨⟨c, k'⟩, hread, h₁⟩ := Option.bind_eq_some_iff.mp h₁
    obtain ⟨⟨cs, k''⟩, hrest, h₁⟩ := Option.bind_eq_some_iff.mp h₁
    cases h₁
    rw [List.cons_append, Keyboard.readAll, hread, Option.bind_eq_bind, Option.bind_some]
    simp only [ih hrest]
    rfl

theorem readAll_one {k k' : Keyboard} {data : BitVec 8} {c : Int}
    (h : keyboardReadc k (some data) = some (c, k')) :
    k.readAll [data] = some ([c], k') := by
  rw [Keyboard.readAll, h]
  rfl

theorem pressed_modifiers (k : Keyboard) (e : KeyEvent) (i : Nat) :
    (k.pressed e).modifiers.getLsbD i =
    if i = e.key - keyShift ∧ keyShift ≤ e.key then
      if keyCapslock ≤ e.key then (k.modifiers.getLsbD i ^^ e.press) else e.press
    else k.modifiers.getLsbD i := by
  have hkey : e.key < 256 := keyCode_lt _
  unfold Keyboard.pressed
  by_cases hp : e.press = true
  · rw [if_pos hp]
    simp only
    rw [pressModifiers_bit _ hkey]
    by_cases h₁ : keyCapslock ≤ e.key
    · have h₂ : keyShift ≤ e.key := by unfold keyCapslock keyShift at *; omega
      by_cases hi : i = e.key - keyShift <;> simp [h₁, h₂, hi, hp]
    · by_cases h₂ : keyShift ≤ e.key
      · by_cases hi : i = e.key - keyShift <;> simp [h₁, h₂, hi, hp]
      · simp [h₁, h₂]
  · rw [if_neg hp]
    simp only [Bool.not_eq_true] at hp
    by_cases h₁ : keyCapslock ≤ e.key
    · rw [if_neg (by omega)]
      simp [h₁, hp]
    · by_cases h₂ : keyShift ≤ e.key
      · have h8 : e.key - keyShift < 8 := by unfold keyShift; omega
        rw [if_pos ⟨h₂, by omega⟩]
        simp only
        rw [BitVec.getLsbD_and, BitVec.getLsbD_not, shift_bit h8]
        by_cases hi : i = e.key - keyShift
        · simp [hi, h₁, h₂, hp]
        · by_cases hi8 : i < 8
          · simp [hi, hi8]
          · simp [hi, BitVec.getLsbD_of_ge k.modifiers i (by omega)]
      · rw [if_neg (by omega)]
        simp [h₂]

/-- The modifiers and the escape, from the bytes alone. -/
theorem modifiers_after (l : List (BitVec 8)) : ∃ cs k, Keyboard.initial.readAll l = some (cs, k) ∧
    k.lastEscape = escapeOf (endEscape l) ∧ ∀ i, k.modifiers.getLsbD i =
      if i < 3 then heldKey (keyShift + i) (keyEvents false l)
          else lockedKey (keyShift + i) (keyEvents false l) := by
  induction l using List.reverseRecOn with
  | nil =>
    refine ⟨[], .initial, rfl, rfl, fun i => ?_⟩
    simp [Keyboard.initial, keyEvents, heldKey, lockedKey]
  | append_singleton l data ih =>
    obtain ⟨cs, k, hread, hesc, hmod⟩ := ih
    rw [endEscape_snoc, keyEvents_snoc]
    by_cases hd : data = 0xE0
    · subst hd
      refine ⟨_, _, readAll_append hread (readAll_one (readc_escape k)), rfl, ?_⟩
      simpa using hmod
    · obtain ⟨c, hone, -⟩ := readc_event hesc hd
      refine ⟨_, _, readAll_append hread (readAll_one hone), ?_, fun i => ?_⟩
      · have hbeq : (data == 0xE0) = false := by simpa using hd
        rw [hbeq]
        unfold Keyboard.pressed
        split_ifs <;> rfl
      · rw [if_neg hd, pressed_modifiers, hmod, heldKey_snoc, lockedKey_snoc]
        have hiff : (KeyEvent.mk (endEscape l) data).key = keyShift + i ↔
            i = (KeyEvent.mk (endEscape l) data).key - keyShift ∧
            keyShift ≤ (KeyEvent.mk (endEscape l) data).key := by
          omega
        generalize KeyEvent.mk (endEscape l) data = e at *
        by_cases h3 : i < 3
        · simp only [if_pos h3, ← hiff]
          by_cases he : e.key = keyShift + i
          · have hcap : ¬ keyCapslock ≤ e.key := by unfold keyCapslock keyShift at *; omega
            rw [if_pos he, if_pos he, if_neg hcap]
          · rw [if_neg he, if_neg he]
        · simp only [if_neg h3, ← hiff]
          by_cases he : e.key = keyShift + i
          · have hcap : keyCapslock ≤ e.key := by unfold keyCapslock keyShift at *; omega
            rw [if_pos he, if_pos hcap, he, beq_self_eq_true, Bool.and_true]
          · have hbeq : (e.key == keyShift + i) = false := by simpa using he
            rw [if_neg he, hbeq, Bool.and_false, Bool.xor_false]

/-! ## What a byte does -/

/-- The letter keys that mean something to the kernel. -/
theorem keyCode_letter (data : BitVec 8) (hd : data &&& 0x80 = 0) (escaped : Bool) :
    (keyCode (data ||| escapeOf escaped) = 97 ↔ data = 0x1E ∧ escaped = false) ∧
      (keyCode (data ||| escapeOf escaped) = 101 ↔ data = 0x12 ∧ escaped = false) ∧
      (keyCode (data ||| escapeOf escaped) = 102 ↔ data = 0x21 ∧ escaped = false) ∧
      (keyCode (data ||| escapeOf escaped) = 113 ↔ data = 0x10 ∧ escaped = false) ∧
      (keyCode (data ||| escapeOf escaped) = 99 ↔ data = 0x2E ∧ escaped = false) := by
  revert data
  cases escaped <;> decide +kernel

/-- What is returned for byte `data` after the bytes `l`, told from these bytes. -/
structure Reads (l : List (BitVec 8)) (data : BitVec 8) (c : Int) : Prop where
  -- A character or a special key.
  range : ∃ n : Nat, Returned n ∧ c = n
  -- A reboot takes a lower-case letter: an unescaped press of the key without control, and
  -- shift as caps lock.
  reboot : ∀ argument, checkKeyboard c = .reboot argument ↔
    (argument, data) ∈ [("allocator", 0x1E), ("forkexit", 0x12), ("fork", 0x21)] ∧
    endEscape l = false ∧
      heldKey keyControl (keyEvents false l) = false ∧
      heldKey keyShift (keyEvents false l) = lockedKey keyCapslock (keyEvents false l)
  -- So does the end of the machine, or control and C.
  poweroff : checkKeyboard c = .poweroff ↔ endEscape l = false ∧
    (data = 0x10 ∧ heldKey keyControl (keyEvents false l) = false ∧
        heldKey keyShift (keyEvents false l) = lockedKey keyCapslock (keyEvents false l) ∨
      data = 0x2E ∧ heldKey keyControl (keyEvents false l) = true)

theorem checkKeyboard_reboot (c : Nat) (argument : String) : checkKeyboard c = .reboot argument ↔
    c = 97 ∧ argument = "allocator" ∨ c = 101 ∧ argument = "forkexit" ∨ c = 102 ∧
    argument = "fork" := by
  unfold checkKeyboard
  by_cases h₁ : c = 97
  · subst h₁
    simp [eq_comm]
  by_cases h₂ : c = 101
  · subst h₂
    simp [eq_comm]
  by_cases h₃ : c = 102
  · subst h₃
    simp [eq_comm]
  have h₁' : (c : Int) ≠ 97 := by omega
  have h₂' : (c : Int) ≠ 101 := by omega
  have h₃' : (c : Int) ≠ 102 := by omega
  simp only [h₁, h₂, h₃, h₁', h₂', h₃', or_self, if_false, false_and, iff_false]
  split <;> simp

theorem checkKeyboard_poweroff (c : Nat) : checkKeyboard c = .poweroff ↔ c = 3 ∨ c = 113 := by
  unfold checkKeyboard
  by_cases h : c = 97 ∨ c = 102 ∨ c = 101
  · rw [if_pos (by omega)]
    simp
    omega
  · rw [if_neg (by omega)]
    by_cases h' : c = 3 ∨ c = 113
    · rw [if_pos (by omega)]
      simp [h']
    · rw [if_neg (by omega)]
      simp [h']

theorem any_letter {A B C a b c P Q : Prop} :
    ((A ∧ P) ∧ Q) ∧ a ∨ ((B ∧ P) ∧ Q) ∧ b ∨ ((C ∧ P) ∧ Q) ∧ c ↔
    (a ∧ A ∨ b ∧ B ∨ c ∧ C) ∧ P ∧ Q := by
  tauto

theorem either_letter {A B P Q R S : Prop} :
    (A ∧ P) ∧ Q ∨ (B ∧ P) ∧ R ∧ S ↔ P ∧ (B ∧ R ∧ S ∨ A ∧ Q) := by
  tauto

/-- Every byte of every stream of scan codes is read without a fault. -/
theorem keyboard_reads (l : List (BitVec 8)) (data : BitVec 8) :
    ∃ cs k c k', Keyboard.initial.readAll l = some (cs, k) ∧
    keyboardReadc k (some data) = some (c, k') ∧ Reads l data c := by
  obtain ⟨cs, k, hall, hesc, hmod⟩ := modifiers_after l
  have hzero : ∀ argument, checkKeyboard 0 ≠ .reboot argument := fun argument h => by
    simp [checkKeyboard] at h
  have hzero' : checkKeyboard 0 ≠ .poweroff := by decide
  by_cases hd : data = 0xE0
  · subst hd
    refine ⟨cs, k, 0, _, hall, readc_escape k, ⟨0, .inl (Nat.zero_le _), rfl⟩,
      fun argument => ?_, ?_⟩
    · simp [hzero]
    · simp [hzero']
  obtain ⟨c, hread, hc⟩ := readc_event hesc hd
  refine ⟨cs, k, c, _, hall, hread, ?_⟩
  by_cases hp : data &&& 0x80 = 0
  · rw [if_pos hp] at hc
    obtain ⟨hrange, hletter, hthree⟩ := hc
    obtain ⟨ha, he, hf, hq, hc⟩ := keyCode_letter data hp (endEscape l)
    have hcontrol : k.has modControl = heldKey keyControl (keyEvents false l) := hmod modControl
    have hplain : k.plain ↔ heldKey keyControl (keyEvents false l) = false ∧
        heldKey keyShift (keyEvents false l) = lockedKey keyCapslock (keyEvents false l) := by
      rw [Keyboard.plain, hcontrol, show k.has modShift = _ from hmod modShift,
        show k.has modCapslock = _ from hmod modCapslock, Bool.not_eq_true]
      rfl
    refine ⟨⟨c, hrange, rfl⟩, fun argument => ?_, ?_⟩
    · rw [checkKeyboard_reboot, hletter 97 (by decide) (by decide),
        hletter 101 (by decide) (by decide),
        hletter 102 (by decide) (by decide), ha, he, hf, hplain]
      simp only [List.mem_cons, List.not_mem_nil, or_false, Prod.mk.injEq]
      exact any_letter
    · rw [checkKeyboard_poweroff, hletter 113 (by decide) (by decide), hthree, hq, hc, hplain,
        hcontrol]
      exact either_letter
  · rw [if_neg hp] at hc
    subst hc
    have hne : data ≠ 0x1E#8 ∧ data ≠ 0x12#8 ∧ data ≠ 0x21#8 ∧ data ≠ 0x10#8 ∧ data ≠ 0x2E#8 := by
      refine ⟨?_, ?_, ?_, ?_, ?_⟩ <;>
      · rintro rfl
        exact hp (by decide)
    refine ⟨⟨0, .inl (Nat.zero_le _), rfl⟩, fun argument => ?_, ?_⟩
    · simp [hzero, hne]
    · simp [hzero', hne]

/-! ## Typing -/

/-- How to type character `c`: whether to hold shift and control, and the key. -/
def strokeOf (c : Nat) : Bool × Bool × Nat :=
  if keymap.idxOf c < 128 then (false, false, keymap.idxOf c)
  else if 65 ≤ c ∧ c ≤ 90 then (true, false, keymap.idxOf (c + 32))
  else
    let i := complexKeymap.findIdx (·.contains c)
    if i < 22 then
      let j := (complexKeymap.getD i []).idxOf c
      (j % 2 == 1, j / 2 == 1, keymap.idxOf (ckey i))
    else (false, true, keymap.idxOf (c + 96))

def keystrokes (c : Nat) : List (BitVec 8) :=
  let (shift, control, key) := strokeOf c
  (if shift then [0x2A#8] else []) ++ (if control then [0x1D#8] else []) ++
    [BitVec.ofNat 8 key, BitVec.ofNat 8 (key + 128)] ++
    (if control then [0x9D#8] else []) ++ (if shift then [0xAA#8] else [])

theorem keystrokes_one : ∀ c < 127, 1 ≤ c →
    (Keyboard.initial.readAll (keystrokes c)).map (fun r => (r.1.filter (· ≠ 0), r.2)) =
        some ([(c : Int)], .initial) := by
  decide +kernel

/-- Any text of characters from 1 to 126 can be typed, and leaves the keyboard as it was. -/
theorem keyboard_types (text : List Nat) (h : ∀ c ∈ text, 1 ≤ c ∧ c ≤ 126) :
    ∃ cs, Keyboard.initial.readAll (text.flatMap keystrokes) = some (cs, .initial) ∧
      cs.filter (· ≠ 0) = text.map Int.ofNat := by
  induction text with
  | nil => exact ⟨[], rfl, rfl⟩
  | cons c text ih =>
    obtain ⟨cs, hrest, htyped⟩ := ih fun c hc => h c (by simp [hc])
    have hc := h c (by simp)
    obtain ⟨⟨one, k⟩, hone, hback⟩ := Option.map_eq_some_iff.mp (keystrokes_one c (by omega) hc.1)
    obtain ⟨hfilter, rfl⟩ := Prod.mk.inj hback
    refine ⟨one ++ cs, ?_, ?_⟩
    · rw [List.flatMap_cons]
      exact readAll_append hone hrest
    · rw [List.filter_append, hfilter, htyped]
      rfl

theorem keyboard_types_word : ∃ cs, Keyboard.initial.readAll
    ([70, 111, 120, 33, 10].flatMap keystrokes) = some (cs, .initial) ∧
    cs.filter (· ≠ 0) = [70, 111, 120, 33, 10].map Int.ofNat :=
  keyboard_types [70, 111, 120, 33, 10] (by decide)

end Csc412.Kernel
