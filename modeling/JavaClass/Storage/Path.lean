/-!
Paths of files. Empty and `.` components say nothing and are left out; `..` is kept, since what it
leads to is for the file system to say.
-/

namespace JavaClass

/-- Where a path starts. Two slashes in front are a start of their own, three are one. -/
inductive PathRoot where
  | current
  | slash
  | doubleSlash
  deriving DecidableEq, Repr

structure Path where
  root : PathRoot
  names : List String
  deriving DecidableEq, Repr

namespace Path

def rootOf : List Char → PathRoot
  | '/' :: '/' :: '/' :: _ => .slash
  | '/' :: '/' :: _ => .doubleSlash
  | '/' :: _ => .slash
  | _ => .current

/-- The runs of characters between separators. -/
def splitAt (separator : Char) : List Char → List (List Char)
  | [] => [[]]
  | c :: rest =>
    let parts := splitAt separator rest
    if c = separator then [] :: parts
    else match parts with
      | [] => [[c]]
      | part :: others => (c :: part) :: others

def split (separator : Char) (text : String) : List String :=
  (splitAt separator text.toList).map String.ofList

def ofString (text : String) : Path :=
  ⟨rootOf text.toList, (split '/' text).filter fun name => name ≠ "" && name ≠ "."⟩

def toString (path : Path) : String :=
  let names := String.intercalate "/" path.names
  match path.root with
  | .current => if path.names.isEmpty then "." else names
  | .slash => "/" ++ names
  | .doubleSlash => "//" ++ names

/-- The second path as seen from the first. -/
def append (path other : Path) : Path :=
  match other.root with
  | .current => ⟨path.root, path.names ++ other.names⟩
  | _ => other

/-- The last point of the last name and what follows it, unless the point starts or ends the
name. -/
def extension (path : Path) : String :=
  match path.names.getLast? with
  | none => ""
  | some name =>
    let chars := name.toList
    let tail := (chars.reverse.takeWhile (· ≠ '.')).reverse
    if tail.isEmpty || chars.length ≤ tail.length + 1 then ""
    else String.ofList ('.' :: tail)

end Path

end JavaClass
