import JavaClass.Text.Escape
import JavaClass.Text.Hex

/-! Lines of a listing. An empty line has no indentation. -/

namespace JavaClass.Listing

structure Line where
  indent : Nat
  text : Text
  deriving DecidableEq, Repr

def Line.render (l : Line) : Text :=
  if l.text.isEmpty then [] else Text.blanks (2 * l.indent) ++ l.text

def line (text : Text) : Line := ⟨0, text⟩

def indented (lines : List Line) : List Line :=
  lines.map fun l => { l with indent := l.indent + 1 }

/-- Every line ends in a line break. -/
def render (lines : List Line) : String :=
  Text.display (lines.flatMap fun l => l.render ++ "\n")

/-- Where a comment starts, unless the text reaches that far. -/
def commentColumn : Nat := 40

def withComment (text comment : Text) : Text :=
  if text.length < commentColumn then Text.padRight commentColumn text ++ "// " ++ comment
  else text ++ " // " ++ comment

/-- Which parts of a listing are shown. -/
structure Options where
  pool : Bool
  code : Bool
  privateMembers : Bool
  attributes : Bool
  deriving DecidableEq, Repr

end JavaClass.Listing
