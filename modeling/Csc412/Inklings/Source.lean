import Csc412.Lib.Yaml
import Csc412.Inklings.GoConfig
import Csc412.Inklings.PieceSound

/-!
# A quoted string in a configuration file

The line of a key with a double-quoted scalar of YAML, in any file: the lines around it are
any, the scalar may go on in them, and what follows its closing quote is any. `load_config`
gets the file in pieces, and a piece is taken for the key by what stands before its first
colon, in the section of the key.
-/

namespace Csc412.Inklings
open Lib.CString Lib.Yaml

/-- The keys of the sections `logs`, `io` and `ui.icon_directions`. -/
inductive StringKey where
  | dir
  | actions
  | pipe_path
  | north
  | west
  | south
  | east
  | none

namespace StringKey

def key : StringKey → String
  | .dir => "dir"
  | .actions => "actions"
  | .pipe_path => "pipe_path"
  | .north => "north"
  | .west => "west"
  | .south => "south"
  | .east => "east"
  | .none => "none"

def sect : StringKey → Section
  | .dir | .actions => .logs
  | .pipe_path => .io
  | .north | .west | .south | .east | .none => .uiIcon

def path : StringKey → List String
  | .dir => ["logs", "dir"]
  | .actions => ["logs", "actions"]
  | .pipe_path => ["io", "pipe_path"]
  | .north => ["ui", "icon_directions", "north"]
  | .west => ["ui", "icon_directions", "west"]
  | .south => ["ui", "icon_directions", "south"]
  | .east => ["ui", "icon_directions", "east"]
  | .none => ["ui", "icon_directions", "none"]

/-- The bytes of the field in C. -/
def size : StringKey → Nat
  | .dir | .actions | .pipe_path => 256
  | .north | .west | .south | .east | .none => 8

def stored (c : AppConfig) : StringKey → Bytes
  | .dir => c.logs.dir.bytes
  | .actions => c.logs.actions.bytes
  | .pipe_path => c.io.pipe_path.bytes
  | .north => c.ui.icon_directions.north.bytes
  | .west => c.ui.icon_directions.west.bytes
  | .south => c.ui.icon_directions.south.bytes
  | .east => c.ui.icon_directions.east.bytes
  | .none => c.ui.icon_directions.none.bytes

def loaded (c : Go.Config) : StringKey → Bytes
  | .dir => c.logs.directory
  | .actions => c.logs.actions
  | .pipe_path => c.io.pipePath
  | .north => c.ui.iconDirections.north
  | .west => c.ui.iconDirections.west
  | .south => c.ui.iconDirections.south
  | .east => c.ui.iconDirections.east
  | .none => c.ui.iconDirections.none

/-- What the field holds of a value. -/
def cut (k : StringKey) (value : Bytes) : Bytes := (cstr value).take (k.size - 1)

def Takes (k : StringKey) (s : Section) (piece : Bytes) : Prop :=
  s = k.sect ∧ 58 ∈ trim (cstr piece) ∧ lineKey (trim (cstr piece)) = str k.key

instance (k : StringKey) (s : Section) (piece : Bytes) : Decidable (k.Takes s piece) :=
  inferInstanceAs (Decidable (_ ∧ _ ∧ _))

end StringKey

/-! ## Pieces -/

/-- The section after a piece. -/
def enter (s : Section) (piece : Bytes) : Section := (processLine ⟨s, .zero⟩ piece).current

/-- The values that pieces give the key, one after another. -/
def StringKey.taken (k : StringKey) : Section → List Bytes → List Bytes
  | _, [] => []
  | s, piece :: ps =>
    if k.Takes s piece then lineValue (trim (cstr piece)) :: k.taken (enter s piece) ps
    else k.taken (enter s piece) ps

/-! ## The file -/

/-- What the line has after the text of the scalar. -/
inductive Tail where
  -- the closing quote, and more
  | closed (rest : Bytes)
  -- the scalar goes on in the next line; a backslash or a carriage return may stand before that
  | goesOn (rest : Bytes) (unquoted : 34 ∉ rest)

def Tail.bytes : Tail → Bytes
  | .closed rest => 34 :: rest
  | .goesOn rest _ => rest

def Tail.IsClosed : Tail → Prop
  | .closed _ => True
  | .goesOn _ _ => False

/-- A file with the line of a key, in which the text of the scalar is that of `s`. -/
structure KeyFile (k : StringKey) (s : Scalar) where
  before : List Bytes
  indent : Bytes
  space : Bytes
  gap : Bytes
  tail : Tail
  after : List Bytes
  indent_blank : Blank indent
  space_blank : Blank space
  gap_blank : Blank gap
  free : ∀ l ∈ before ++ tail.bytes :: after, newline ∉ l

namespace KeyFile
variable {k : StringKey} {s : Scalar} (f : KeyFile k s)

/-- The line up to the opening quote. -/
def lead : Bytes := f.indent ++ (str k.key ++ (f.space ++ 58 :: f.gap))

def line : Bytes := f.lead ++ 34 :: (s.text ++ f.tail.bytes)

def bytes : Bytes := join (f.before ++ f.line :: f.after)

/-- Where the piece with the opening quote starts in the line. -/
def start : Nat := f.lead.length / 511 * 511

def own : Bytes := (f.line.drop f.start).take 511

def earlier : List Bytes := f.before.flatMap pieces ++ pieces (f.line.take f.start)

def later : List Bytes := pieces (f.line.drop (f.start + 511)) ++ f.after.flatMap pieces

/-- The section at the piece. -/
def sect : Section := f.earlier.foldl enter .none

/-- The piece has the key too and is in its section, and no later one is taken for the key. -/
def Last : Prop :=
  f.start ≤ f.indent.length ∧ f.sect = k.sect ∧ k.taken (enter f.sect f.own) f.later = []

/-- What the other pieces leave in the field. -/
def other : Bytes :=
  ((k.taken .none f.earlier ++ k.taken (enter f.sect f.own) f.later).getLast?.map k.cut).getD []

/-- What the piece has after the opening quote, without the blanks at its end. -/
def held : Bytes :=
  (cstr ((s.text ++ f.tail.bytes).take (510 - (f.lead.length - f.start)))).rdropWhile isspace

/-- The piece has the closing quote, and nothing but blanks after it. -/
def Whole : Prop := f.held = s.text ++ [34]

/-- The last byte of the piece that is not blank is a quote after the opening one. -/
def Ends : Prop := f.held.getLast? = some 34

end KeyFile

/-- The value fills the field and is how the text begins (fourteen backslashes, in eight bytes). -/
def Full (size : Nat) (s : Scalar) : Prop := s.value.length = size - 1 ∧ s.value <+: s.text

/-- Nothing is escaped, or the text is cut where the value ends. -/
def KeyFile.Kept {k : StringKey} {s : Scalar} (f : KeyFile k s) : Prop :=
  f.Whole ∧ 92 ∉ s.text ∨ f.Ends ∧ Full k.size s

end Csc412.Inklings
