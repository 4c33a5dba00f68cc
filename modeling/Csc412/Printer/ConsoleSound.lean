import Csc412.Printer.BufferSound

/-!
# The console

Cells follow each other cyclically. From any cursor, the calls of `console_putc` in a
sequence of prints stay on the screen, and each of them fills the next cell or the rest of
a row.
-/

namespace Csc412.Printer

open Lib Lib.CString

/-! ## One character -/

/-- What a call of `console_putc` does on a screen whose last cell is followed by its first. -/
structure Put.OnScreen (e : Put) : Prop where
  cells : ∀ w ∈ e.stores, w.1 < consoleSize
  next_le : e.next ≤ consoleSize
  newline : e.call.c = newline →
    e.stores = Stores.block (e.cursor % consoleSize)
      (List.replicate (80 - e.cursor % consoleSize % 80) (cell (ch ' ') e.call.color)) ∧
    e.next = e.cursor % consoleSize + (80 - e.cursor % consoleSize % 80) ∧ e.next % 80 = 0
  char : e.call.c ≠ Lib.CString.newline →
    e.stores = [(e.cursor % consoleSize, cell e.call.c e.call.color)] ∧
    e.next = e.cursor % consoleSize + 1

theorem newlineLoop_eq (color : BitVec 32) (n cursor : Nat) :
    newlineLoop color n cursor = (Stores.block cursor (List.replicate n (cell (ch ' ') color)),
        cursor + n) := by
  induction n generalizing cursor with
  | zero => rfl
  | succ n ih =>
    rw [newlineLoop, ih, List.replicate_succ, Stores.block, Nat.add_assoc, Nat.add_comm 1]

theorem consolePutc_onScreen {cursor : Nat} (hcursor : cursor ≤ consoleSize) (call : Call) :
    Put.OnScreen ⟨call, cursor, (consolePutc cursor call).1, (consolePutc cursor call).2⟩ := by
  have hwrap : (if consoleSize ≤ cursor then 0 else cursor) = cursor % consoleSize := by
    split
    · rw [Nat.le_antisymm hcursor ‹_›, Nat.mod_self]
    · rw [Nat.mod_eq_of_lt (Nat.lt_of_not_le ‹_›)]
  have hsize : consoleSize = 2000 := rfl
  have hlt : cursor % consoleSize < consoleSize := Nat.mod_lt _ (by decide)
  generalize hk : cursor % consoleSize = k at hwrap hlt
  by_cases hnewline : call.c = newline
  · have hputc : consolePutc cursor call =
        (Stores.block k (List.replicate (80 - k % 80) (cell (ch ' ') call.color)),
            k + (80 - k % 80)) := by
      rw [consolePutc, hwrap, if_pos hnewline, newlineLoop_eq]
    rw [hputc]
    refine ⟨?_, ?_, ?_, fun hchar => absurd hnewline hchar⟩
    · intro w hw
      have hin := Stores.mem_block hw
      rw [List.length_replicate] at hin
      omega
    · dsimp only
      omega
    · dsimp only
      rw [hk]
      exact fun _ => ⟨rfl, rfl, by omega⟩
  · have hputc : consolePutc cursor call = ([(k, cell call.c call.color)], k + 1) := by
      rw [consolePutc, hwrap, if_neg hnewline]
    rw [hputc]
    refine ⟨?_, hlt, fun h => absurd h hnewline, ?_⟩
    · intro w hw
      rw [List.mem_singleton.mp hw]
      exact hlt
    · dsimp only
      rw [hk]
      exact fun _ => ⟨rfl, rfl⟩

/-! ## Prints -/

/-- A call of `console_vprintf` or of `app_printf`. -/
inductive Print where
  | console (color : BitVec 32) (format : Bytes) (args : Args)
  | app (colorid : Int) (format : Bytes) (args : Args)

def Print.run (cpos : Int) : Print → Except Fault (List Put × Int)
  | .console color format args => consoleVprintf cpos color format args
  | .app colorid format args => appPrintf cpos colorid format args

/-- A print, with the cursors before and after it. -/
structure Printed where
  print : Print
  start : Int
  puts : List Put
  result : Int

/-- Prints that start from each other's results. -/
def session : Int → List Print → Except Fault (List Printed × Int)
  | cpos, [] => .ok ([], cpos)
  | cpos, print :: prints => do
    let (puts, result) ← print.run cpos
    let (printed, last) ← session result prints
    .ok (⟨print, cpos, puts, result⟩ :: printed, last)

/-- Each call of `console_putc` starts where the one before it stopped. -/
def Chain : Nat → List Put → Nat → Prop
  | cursor, [], last => cursor = last
  | cursor, e :: puts, last => e.cursor = cursor ∧ Chain e.next puts last

def Print.returns (last : Nat) : Print → Int
  | .console .. => last
  | .app .. => if 23 * 80 ≤ last then 0 else last

def Print.renders : Print → Except Fault (List Call)
  | .console color format args => printerVprintf color format args
  | .app colorid format args =>
    printerVprintf (if colorid < 0 then 0x0700#32
      else col.getD (colorid.toNat % col.length) 0 <<< 8) format args

structure Printed.OnScreen (q : Printed) : Prop where
  renders : q.print.renders = .ok (q.puts.map Put.call)
  chain : ∃ last, Chain (if q.start < 0 ∨ (consoleSize : Int) ≤ q.start then 0
    else q.start.toNat) q.puts last ∧
    q.result = q.print.returns last
  puts : ∀ e ∈ q.puts, e.OnScreen
  result : 0 ≤ q.result ∧ q.result ≤ consoleSize

theorem consolePuts_onScreen {cursor : Nat} (hcursor : cursor ≤ consoleSize) (calls : List Call) :
    Chain cursor (consolePuts cursor calls).1 (consolePuts cursor calls).2 ∧
      (∀ e ∈ (consolePuts cursor calls).1, e.OnScreen) ∧
      (consolePuts cursor calls).2 ≤ consoleSize := by
  induction calls generalizing cursor with
  | nil => exact ⟨rfl, fun e he => absurd he List.not_mem_nil, hcursor⟩
  | cons call calls ih =>
    have hput := consolePutc_onScreen hcursor call
    obtain ⟨hchain, hputs, hlast⟩ := ih hput.next_le
    refine ⟨⟨rfl, hchain⟩, ?_, hlast⟩
    intro e he
    rcases List.mem_cons.mp he with rfl | he
    · exact hput
    · exact hputs e he

theorem consoleVprintf_onScreen (cpos : Int) (color : BitVec 32) (format : Bytes) (args : Args) :
    ∃ puts, ∃ last ≤ consoleSize, consoleVprintf cpos color format args = .ok (puts, (last : Int)) ∧
      printerVprintf color format args = .ok (puts.map Put.call) ∧ (∀ e ∈ puts, e.OnScreen) ∧
      Chain (if cpos < 0 ∨ (consoleSize : Int) ≤ cpos then 0 else cpos.toNat) puts last := by
  obtain ⟨calls, hcalls⟩ := printerVprintf_ok color format args
  generalize hstart : (if cpos < 0 ∨ (consoleSize : Int) ≤ cpos then 0 else cpos.toNat) = start
  have hclamp : (if cpos < 0 ∨ (consoleSize : Int) ≤ cpos then 0 else cpos).toNat = start := by
    rw [← hstart]
    split <;> rfl
  have hle : start ≤ consoleSize := by
    rw [← hstart]
    split <;> omega
  obtain ⟨hchain, hputs, hlast⟩ := consolePuts_onScreen hle calls
  refine ⟨(consolePuts start calls).1, (consolePuts start calls).2, hlast, ?_, ?_, hputs, hchain⟩
  · rw [consoleVprintf, hcalls, ← hclamp]
    rfl
  · rw [consolePuts_calls, hcalls]

theorem run_onScreen (cpos : Int) (print : Print) :
    ∃ puts result, print.run cpos = .ok (puts, result) ∧
    Printed.OnScreen ⟨print, cpos, puts, result⟩ := by
  cases print with
  | console color format args =>
    obtain ⟨puts, last, hle, hrun, hrenders, hputs, hchain⟩ :=
      consoleVprintf_onScreen cpos color format args
    exact ⟨puts, last, hrun, hrenders, ⟨last, hchain, rfl⟩, hputs, Int.natCast_nonneg last,
      Int.ofNat_le.mpr hle⟩
  | app colorid format args =>
    obtain ⟨puts, last, hle, hrun, hrenders, hputs, hchain⟩ := consoleVprintf_onScreen cpos
      (if colorid < 0 then 0x0700#32 else col.getD (colorid.toNat % col.length) 0 <<< 8) format args
    have hrow : (if 23 ≤ (last : Int).tdiv 80 then 0 else (last : Int)) =
        if 23 * 80 ≤ last then 0 else (last : Int) := by
      have hdiv : (last : Int).tdiv 80 = (last / 80 : Nat) := rfl
      rw [hdiv]
      split <;> split <;> omega
    refine ⟨puts, if 23 * 80 ≤ last then 0 else last, ?_, hrenders, ⟨last, hchain, rfl⟩, hputs, ?_⟩
    · rw [Print.run, appPrintf, hrun, ← hrow]
      rfl
    · dsimp only
      split <;> omega

/-- In every sequence of prints, from any cursor. -/
theorem session_onScreen (cpos : Int) (prints : List Print) :
    ∃ printed last, session cpos prints = .ok (printed, last) ∧ printed.map Printed.print = prints ∧
      ∀ q ∈ printed, q.OnScreen := by
  induction prints generalizing cpos with
  | nil => exact ⟨[], cpos, rfl, rfl, fun q hq => absurd hq List.not_mem_nil⟩
  | cons print prints ih =>
    obtain ⟨puts, result, hrun, hprint⟩ := run_onScreen cpos print
    obtain ⟨printed, last, hsession, hprints, hscreen⟩ := ih result
    refine ⟨⟨print, cpos, puts, result⟩ :: printed, last, ?_, congrArg (print :: ·) hprints, ?_⟩
    · rw [session, hrun, ok_bind]
      dsimp only
      rw [hsession, ok_bind]
    · intro q hq
      rcases List.mem_cons.mp hq with rfl | hq
      · exact hprint
      · exact hscreen q hq

end Csc412.Printer
