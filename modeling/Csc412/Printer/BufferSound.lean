import Csc412.Printer.FormatSound
import Csc412.Printer.Output
import Csc412.Lib.Fallible

/-!
# Formatting into a buffer

`vsnprintf` leaves the beginning of the rendering that fits, with a NUL after it, and
writes nowhere else. `panic` adds a newline behind it that fits as well.
-/

namespace Csc412.Printer

open Lib Lib.CString

theorem printerVprintf_ok (color : BitVec 32) (format : Bytes) (args : Args) :
    ∃ calls, printerVprintf color format args = .ok calls := by
  obtain ⟨_, -, -, hrun⟩ := printerVprintf_renders format
  obtain ⟨calls, hcalls, -⟩ := hrun args color
  exact ⟨calls, hcalls⟩

/-! ## `vsnprintf` -/

theorem stringPuts_eq (s room : Nat) (calls : List Call) :
    stringPuts ⟨s, s + room⟩ calls =
      (Stores.block s ((calls.take room).map Call.c), ⟨s + min room calls.length, s + room⟩) := by
  induction calls generalizing s room with
  | nil =>
    rw [List.take_nil, List.length_nil, Nat.min_zero]
    rfl
  | cons call calls ih =>
    cases room with
    | zero =>
      have hfull : stringPutc ⟨s, s + 0⟩ call = ([], ⟨s, s + 0⟩) := if_neg (Nat.lt_irrefl _)
      rw [stringPuts, hfull]
      dsimp only
      rw [ih s 0]
      simp
    | succ room =>
      have hroom : stringPutc ⟨s, s + (room + 1)⟩ call = ([(s, call.c)], ⟨s + 1, s + (room + 1)⟩) :=
        if_pos (Nat.lt_add_of_pos_right (Nat.zero_lt_succ room))
      have hrest := ih (s + 1) room
      rw [Nat.add_assoc, Nat.add_comm 1 room] at hrest
      rw [stringPuts, hroom]
      dsimp only
      rw [hrest, List.take_succ_cons, List.map_cons, Stores.block, List.length_cons,
        Nat.succ_min_succ]
      simp only [List.singleton_append, Prod.mk.injEq, StringPrinter.mk.injEq, and_true, true_and]
      omega

theorem vsnprintf_eq {format : Bytes} {args : Args} {calls : List Call}
    (hcalls : printerVprintf 0 format args = .ok calls) (s room : Nat) :
    vsnprintf s (room + 1) format args =
      .ok (Stores.block s ((calls.take room).map Call.c ++ [0]),
          int32 (min room calls.length : Nat)) := by
  rw [vsnprintf, if_pos (Nat.succ_ne_zero room), hcalls]
  have hlimit : s + (room + 1) - 1 = s + room := rfl
  have hsub : ((s + min room calls.length : Nat) : Int) - s = (min room calls.length : Nat) := by
    omega
  have hend : ((calls.take room).map Call.c).length = min room calls.length := by
    rw [List.length_map, List.length_take]
  change Except.ok (_ ++ [(_, (0 : UInt8))], _) = _
  rw [hlimit, stringPuts_eq, hsub, Stores.block_append, hend]
  rfl

/-! ## `panic` -/

/-- What the 160 bytes at `buf` hold: a line that ends with a newline, and a NUL after it. -/
structure HoldsLine (f : Nat → UInt8) (buf : Nat) (msg : Bytes) : Prop where
  chars : ∀ i, (h : i < msg.length) → f (buf + i) = msg[i]
  stop : f (buf + msg.length) = 0
  fits : msg.length < panicSize
  ended : msg.getLast? = some newline

theorem strcpy_newline (m : Nat → UInt8) (buf : Nat) {msg : Bytes} {j : Nat} (hj : j ≤ msg.length)
    (hfits : j + 1 < panicSize) :
    HoldsLine ((Stores.block buf (msg ++ [0]) ++ strcpy (buf + j) [newline]).apply m) buf
      (msg.take j ++ [newline]) := by
  have htake : (msg.take j).length = j := by
    rw [List.length_take]
    omega
  have hsecond (i : Nat) (hi : i < [newline, 0].length) :
      (Stores.block buf (msg ++ [0]) ++ strcpy (buf + j) [newline]).apply m (buf + j + i) =
          [newline, 0][i] := by
    rw [Stores.apply_append]
    exact Stores.apply_block _ _ hi
  constructor
  · intro i hi
    rw [List.length_append, htake, List.length_singleton] at hi
    by_cases hij : i < j
    · rw [Stores.apply_append, Stores.apply_of_notMem, Stores.apply_block m buf,
        List.getElem_append_left (by omega), List.getElem_append_left (by omega), List.getElem_take]
      · rw [List.length_append]
        omega
      · intro w hw
        have hin := Stores.mem_block hw
        omega
    · obtain rfl : i = j := by omega
      refine (hsecond 0 (by decide)).trans ?_
      rw [List.getElem_append_right (by omega)]
      simp only [List.getElem_singleton]
      rfl
  · rw [List.length_append, htake, ← Nat.add_assoc]
    exact hsecond 1 (by decide)
  · rw [List.length_append, htake]
    exact hfits
  · rw [List.getLast?_append]
    rfl

/-- The stores of `panic` once it has formatted `msg`. -/
def endLine (m : Nat → UInt8) (buf : Nat) (msg : Bytes) : Stores UInt8 :=
  let body := Stores.block buf (msg ++ [0])
  if 0 < (msg.length : Int) ∧ body.apply m (buf + msg.length - 1) ≠ newline then
    body ++ strcpy (buf + msg.length - if (msg.length : Int) = panicSize - 1 then 1
      else 0) [newline]
  else body

theorem holdsLine_endLine (m : Nat → UInt8) (buf : Nat) {msg : Bytes} (hpos : 0 < msg.length)
    (hfits : msg.length < panicSize) :
    ∃ msg', HoldsLine (Stores.apply m (endLine m buf msg)) buf msg' ∧ (0 ∉ msg → 0 ∉ msg') ∧
      ∀ w ∈ endLine m buf msg, buf ≤ w.1 ∧ w.1 < buf + panicSize := by
  have hmem : ∀ w ∈ Stores.block buf (msg ++ [0]), buf ≤ w.1 ∧ w.1 < buf + panicSize := by
    intro w hw
    have hin := Stores.mem_block hw
    rw [List.length_append, List.length_singleton] at hin
    omega
  have hread (i : Nat) (hi : i < msg.length) : (Stores.block buf (msg ++ [0])).apply m (buf + i) =
      msg[i] := by
    rw [Stores.apply_block m buf (by rw [List.length_append]; omega), List.getElem_append_left hi]
  rw [endLine]
  split
  · obtain ⟨j, hback, hj, hjfits⟩ : ∃ j,
      buf + msg.length - (if (msg.length : Int) = panicSize - 1 then 1 else 0) =
        buf + j ∧ j ≤ msg.length ∧ j + 1 < panicSize := by
      rw [panicSize] at hfits ⊢
      split
      · exact ⟨msg.length - 1, by omega, by omega, by omega⟩
      · exact ⟨msg.length, by omega, by omega, by omega⟩
    rw [hback]
    refine ⟨msg.take j ++ [newline], strcpy_newline m buf hj hjfits, ?_, ?_⟩
    · intro hzero
      rw [List.mem_append, not_or]
      exact ⟨fun h => hzero (List.mem_of_mem_take h), by decide⟩
    · intro w hw
      rcases List.mem_append.mp hw with hw | hw
      · exact hmem w hw
      · have hin := Stores.mem_block hw
        simp only [List.length_append, List.length_singleton] at hin
        omega
  · rename_i hnewline
    rw [not_and_not_right] at hnewline
    have hlast := hnewline (by omega)
    rw [Nat.add_sub_assoc hpos, hread (msg.length - 1) (by omega)] at hlast
    refine ⟨msg, ⟨hread, ?_, hfits, ?_⟩, id, hmem⟩
    · rw [Stores.apply_block m buf (by rw [List.length_append]; exact Nat.lt_succ_self _)]
      simp
    · rw [List.getLast?_eq_getElem?, List.getElem?_eq_getElem (by omega), hlast]

theorem consolePuts_calls (cursor : Nat) (calls : List Call) :
    (consolePuts cursor calls).1.map Put.call = calls := by
  induction calls generalizing cursor with
  | nil => rfl
  | cons call calls ih => exact congrArg (call :: ·) (ih _)

theorem consoleVprintf_ok {color : BitVec 32} {format : Bytes} {args : Args} {calls : List Call}
    (hcalls : printerVprintf color format args = .ok calls) (cpos : Int) :
    ∃ puts cursor, consoleVprintf cpos color format args = .ok (puts, cursor) ∧
    puts.map Put.call = calls := by
  rw [consoleVprintf, hcalls]
  exact ⟨_, _, rfl, consolePuts_calls _ calls⟩

theorem consoleVprintf_line {f : Nat → UInt8} {buf : Nat} {msg : Bytes} (h : HoldsLine f buf msg) :
    ∃ puts cursor, (consoleVprintf (23 * 80) 0xC000 (['%', 's'].map ch) fun _ =>
        ⟨BitVec.ofNat 64 buf, (List.range panicSize).map fun i => f (buf + i)⟩) =
          .ok (puts, cursor) ∧
      (0 ∉ msg → puts.map Put.call = msg.map (⟨·, 0xC000⟩)) := by
  generalize hargs : (fun _ => ⟨BitVec.ofNat 64 buf,
    (List.range panicSize).map fun i => f (buf + i)⟩ : Args) = args
  have hstr : (args 0).str = (List.range panicSize).map fun i => f (buf + i) := by
    rw [← hargs]
  have hlen : (cstr (args 0).str).length < 2 ^ 31 := by
    have hle : (cstr (args 0).str).length ≤ (args 0).str.length :=
      (List.takeWhile_sublist _).length_le
    rw [hstr, List.length_map, List.length_range, panicSize] at hle
    rw [hstr]
    exact Nat.lt_of_le_of_lt hle (by decide)
  obtain ⟨puts, cursor, hputs, hprinted⟩ :=
    consoleVprintf_ok (printerVprintf_str args 0xC000 hlen) (23 * 80)
  refine ⟨puts, cursor, hputs, ?_⟩
  intro hzero
  rw [hprinted, hstr, cstr_range hzero h.chars h.stop h.fits]

section
variable {format : Bytes} {args : Args} {calls : List Call}
    (hcalls : printerVprintf 0 format args = .ok calls)
include hcalls

theorem panic_line (m : Nat → UInt8) (buf : Nat) :
    ∃ stores puts, panic m buf format args = .ok (stores, puts) ∧
      (∀ w ∈ stores, buf ≤ w.1 ∧ w.1 < buf + panicSize) ∧
      ∃ msg, HoldsLine (stores.apply m) buf msg ∧
        ((∀ call ∈ calls, call.c ≠ 0) → puts.map Put.call = msg.map (⟨·, 0xC000⟩)) := by
  generalize htext : (calls.take 152).map Call.c = text
  have hlen : text.length = min 152 calls.length := by
    rw [← htext, List.length_map, List.length_take]
  generalize hhead : (['P', 'A', 'N', 'I', 'C', ':', ' '].map ch) = head
  have hhead7 : head.length = 7 := by
    rw [← hhead]
    rfl
  have hline : (head ++ text).length = min 152 calls.length + 7 := by
    rw [List.length_append, hlen, hhead7, Nat.add_comm]
  have hsum : int32 (min 152 calls.length : Nat) + 7 = (head ++ text).length := by
    rw [hline, int32_eq (by omega) (by omega)]
    rfl
  have hbody : Stores.block buf head ++ Stores.block (buf + 7) (text ++ [0]) =
      Stores.block buf ((head ++ text) ++ [0]) := by
    rw [List.append_assoc, Stores.block_append buf head, hhead7]
  have hprintf : vsnprintf (buf + 7) (panicSize - 7) format args =
      .ok (Stores.block (buf + 7) (text ++ [0]), int32 (min 152 calls.length : Nat)) := by
    rw [← htext]
    exact vsnprintf_eq hcalls (buf + 7) 152
  have hzero (hcalls : ∀ call ∈ calls, call.c ≠ 0) : 0 ∉ head ++ text := by
    rw [List.mem_append, not_or, ← hhead, ← htext]
    refine ⟨by decide, ?_⟩
    intro hmem
    obtain ⟨call, hcall, hc⟩ := List.mem_map.mp hmem
    exact hcalls call (List.mem_of_mem_take hcall) hc
  obtain ⟨msg, hholds, hclean, hmem⟩ :=
    holdsLine_endLine m buf (by omega : 0 < (head ++ text).length)
    (by rw [panicSize]; omega)
  obtain ⟨puts, cursor, hputs, hprinted⟩ := consoleVprintf_line hholds
  have hpanic : panic m buf format args = .ok (endLine m buf (head ++ text), puts) := by
    rw [panic, hhead, hprintf]
    simp only [ok_bind, hsum, hbody, Int.toNat_natCast]
    rw [endLine] at hputs ⊢
    rw [hputs]
    rfl
  exact ⟨_, puts, hpanic, hmem, msg, hholds, fun h => hprinted (hclean (hzero h))⟩

end

/-- A rendering is truncated to the buffer, and `panic` stays inside its own. -/
theorem vsnprintf_truncates (format : Bytes) (args : Args) :
    ∃ calls, printerVprintf 0 format args = .ok calls ∧
      (∀ s, vsnprintf s 0 format args = .ok ([], 0)) ∧
      (calls.length < 2 ^ 31 → ∀ s size, 0 < size → ∃ stores,
        vsnprintf s size format args = .ok (stores, (min (size - 1) calls.length : Nat)) ∧
        (∀ w ∈ stores, s ≤ w.1 ∧ w.1 < s + size) ∧
        ∀ m, (List.range (min (size - 1) calls.length + 1)).map (fun i => stores.apply m (s + i)) =
          (calls.take (size - 1)).map Call.c ++ [0]) ∧
      ∀ m buf, ∃ stores puts, panic m buf format args = .ok (stores, puts) ∧
        (∀ w ∈ stores, buf ≤ w.1 ∧ w.1 < buf + panicSize) ∧
        (∃ i < panicSize, stores.apply m (buf + i) = 0) ∧
        ((∀ call ∈ calls, call.c ≠ 0) → (puts.map Put.call).getLast? = some ⟨newline, 0xC000⟩) := by
  obtain ⟨calls, hcalls⟩ := printerVprintf_ok 0 format args
  refine ⟨calls, hcalls, fun s => rfl, ?_, ?_⟩
  · intro hlen s size hsize
    obtain ⟨room, rfl⟩ := Nat.exists_eq_add_of_le' hsize
    generalize htext : (calls.take room).map Call.c ++ [0] = text
    have htextlen : text.length = min room calls.length + 1 := by
      rw [← htext, List.length_append, List.length_map, List.length_take]
      rfl
    rw [Nat.add_sub_cancel, vsnprintf_eq hcalls, htext, int32_eq (by omega) (by omega)]
    refine ⟨_, rfl, ?_, ?_⟩
    · intro w hw
      have hin := Stores.mem_block hw
      omega
    · intro m
      rw [← htextlen]
      exact Stores.map_apply_block m s text
  · intro m buf
    obtain ⟨stores, puts, hpanic, hmem, msg, hholds, hprinted⟩ := panic_line hcalls m buf
    refine ⟨stores, puts, hpanic, hmem, ⟨msg.length, hholds.fits, hholds.stop⟩, ?_⟩
    intro hclean
    rw [hprinted hclean, List.getLast?_map, hholds.ended]
    rfl

end Csc412.Printer
