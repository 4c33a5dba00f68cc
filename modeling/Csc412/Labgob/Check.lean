import Csc412.Lib.Marking

/-!
# The checks of labgob

`checkType` and `checkDefault1` of `labgob.go`. Any number of goroutines encode and
decode at the same time. Each call of `checkType` takes `mu` to look its type up in
`checked`, and lets it go before it looks at the parts of the type.
-/

namespace Csc412.Labgob

open Lib

inductive Kind (T : Type) where
  | struct (fields : List (String × T))
  -- slices, arrays and pointers
  | elem (t : T)
  | map (elem key : T)
  | other

/-- A `reflect.Value`, with the kinds that `checkDefault1` compares to zero as one. A
field has its name, whether it is embedded, and its value. -/
inductive View (W : Type) where
  | struct (fields : List (String × Bool × W))
  | ptr (target : Option W)
  | basic (typeName : String) (zero : Bool)
  | other

/-- `reflect` on the types `T` and the values `W`, and `unicode.IsUpper`. -/
structure Reflect (T W : Type) where
  isUpper : Char → Bool
  name : T → String
  kind : T → Kind T
  view : W → View W

/-- What the checks do besides marking. `panic` is `Kind` of the type of `nil`, or `Interface`
on no value or on one from a field with a lower-case name. -/
inductive Effect (T : Type) where
  | complain (t : T) (i : Nat)
  | count
  | warn (what : String)
  | panic

inductive Line (T : Type) where
  | lowerCase (t : T) (i : Nat)
  | nonDefault (what : String)

/-- The global variables, and what each goroutine still has to do in its checks. -/
structure State (T : Type) where
  checked : List T
  errorCount : Nat
  printed : List (Line T)
  goroutines : List (List (Task T (Effect T)))
  panicked : Bool

/-- The argument of `EncodeValue`: no value, or one with whether it comes from a field with a
lower-case name, and the type of what it holds, if that is not `nil`. -/
abbrev Held (T : Type) := Option (Bool × Option T)

inductive Step (T W : Type) where
  -- `Encode`, `Register` and `RegisterName` of a value of type `t`, or of `nil`
  | checkValue (t : Option T)
  | encodeValue (value : Held T)
  | decode (value : Option (T × W))
  | run (g : Nat)

section
variable {T W : Type} (R : Reflect T W)

def start : State T := ⟨[], 0, [], [], false⟩

namespace Reflect

def capital (name : String) : Bool := R.isUpper (name.toList.headD '\uFFFD')

/-- What `checkType` does for a type that was not checked. -/
def parts (t : T) : List (Task T (Effect T)) :=
  match R.kind t with
  | .struct fields => fields.zipIdx.flatMap fun (f, i) =>
    (if R.capital f.1 then [] else [.emit (.complain t i), .emit .count]) ++ [.visit f.2]
  | .elem t => [.visit t]
  | .map elem key => [.visit elem, .visit key]
  | .other => []

/-- `checkDefault1` at the depth `4 - k`. `sticky` and `embed` are the flags that
`reflect` sets for what comes from a lower-case field. -/
def checkDefault1 : Nat → Bool → Bool → W → String → List (Effect T)
  | 0, _, _, _, _ => []
  | k + 1, sticky, embed, value, name =>
    match R.view value with
    | .struct fields => fields.flatMap fun (f, embedded, vv) =>
      checkDefault1 k (sticky || !R.capital f && !embedded) (!R.capital f && embedded) vv
        (if name = "" then f else name ++ "." ++ f)
    | .ptr none => []
    | .ptr (some target) => checkDefault1 k sticky embed target name
    | .basic typeName zero =>
      if sticky || embed then [.panic]
      else if zero then []
      else [.warn (if name = "" then typeName else name)]
    | .other => []

def checkDefault : Option W → List (Effect T)
  | none => []
  | some value => R.checkDefault1 3 false false value ""

def fieldName (t : T) (i : Nat) : String :=
  match R.kind t with
  | .struct fields => (fields[i]?.map Prod.fst).getD ""
  | _ => ""

/-- What is printed. -/
def text : Line T → String
  | .lowerCase t i => "labgob error: lower-case field " ++ R.fieldName t i ++ " of " ++ R.name t ++
    " in RPC or persist/snapshot will break your Raft\n"
  | .nonDefault what => "labgob warning: Decoding into a non-default variable/field " ++ what ++
    " may not work\n"

end Reflect

/-- An effect on `printed` and `errorCount`. -/
def Effect.play : List (Line T) × Nat → Effect T → List (Line T) × Nat
  | (printed, errorCount), .complain t i => (printed ++ [.lowerCase t i], errorCount)
  | (printed, errorCount), .count => (printed, errorCount + 1)
  | (printed, errorCount), .warn what =>
    (if errorCount < 1 then printed ++ [.nonDefault what] else printed, errorCount + 1)
  | p, .panic => p

/-- `t` is what `reflect.TypeOf` gives, and `nil` has no type. -/
def checkValue : Option T → List (Task T (Effect T))
  | none => [.emit .panic]
  | some t => [.visit t]

def encodeValue : Held T → List (Task T (Effect T))
  | some (false, t) => checkValue t
  | _ => [.emit .panic]

def Reflect.decode (value : Option (T × W)) : List (Task T (Effect T)) :=
  checkValue (value.map Prod.fst) ++ (R.checkDefault (value.map Prod.snd)).map .emit

namespace State

def spawn (s : State T) (ts : List (Task T (Effect T))) : State T :=
  { s with goroutines := s.goroutines ++ [ts] }

/-- Goroutine `g` goes on. -/
def run [DecidableEq T] (s : State T) (g : Nat) : Option (State T) :=
  match s.goroutines[g]? with
  | some (.visit t :: ts) =>
    if t ∈ s.checked then some { s with goroutines := s.goroutines.set g ts }
    else some { s with checked := t :: s.checked,
                       goroutines := s.goroutines.set g (R.parts t ++ ts) }
  | some (.emit e :: ts) =>
    let p := e.play (s.printed, s.errorCount)
    let panicked := match e with
      | .panic => true
      | _ => false
    some { s with printed := p.1, errorCount := p.2, panicked := panicked,
                  goroutines := s.goroutines.set g ts }
  | _ => none

def step [DecidableEq T] (s : State T) : Step T W → Option (State T)
  | .checkValue t => if s.panicked then none else some (s.spawn (Labgob.checkValue t))
  | .encodeValue value => if s.panicked then none else some (s.spawn (Labgob.encodeValue value))
  | .decode value => if s.panicked then none else some (s.spawn (R.decode value))
  | .run g => if s.panicked then none else s.run R g

def Idle (s : State T) : Prop := s.panicked = false ∧ ∀ ts ∈ s.goroutines, ts = []

end State

end

end Csc412.Labgob
