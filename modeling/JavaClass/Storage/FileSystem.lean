import JavaClass.Fault
import JavaClass.Storage.Path

/-!
What a file system tells about paths. A file that has been opened has a number by which its content
can still be had when the path no longer leads to it, and all of the content can be read.
-/

namespace JavaClass

/-- What a path leads to. A device or a socket is neither a directory nor a file. -/
inductive Node where
  | directory
  | file
  | special
  deriving DecidableEq, Repr

structure FileSystem where
  find : Path → Except FileFault Node
  /-- Opens what a path leads to. That a path leads to a file does not mean that it can be read. -/
  fileNumber : Path → Except FileFault Nat
  content : Nat → List UInt8
  /-- The last position that a file can be read from, whether or not there is anything. -/
  lastPosition : Nat

/-- What was seen at a path, and what was read there. -/
structure Sight where
  node : Except FileFault Node
  bytes : Except FileFault (List UInt8)

namespace FileSystem

/-- The greatest number that a position can be. -/
def greatestPosition : Nat := 0x7FFFFFFFFFFFFFFF

/-- The file system of which only these paths are known. -/
def ofSights (sights : List (Path × Sight)) : FileSystem where
  find path := ((sights.lookup path).map (·.node)).getD (.error .notFound)
  fileNumber path := do
    match sights.findIdx? (·.1 = path), sights.lookup path with
    | some index, some sight => sight.bytes.map fun _ => index
    | _, _ => .error .notFound
  content index :=
    match sights[index]? with
    | some (_, ⟨_, .ok bytes⟩) => bytes
    | _ => []
  lastPosition := greatestPosition

/-- No path with a NUL in it leads anywhere. -/
def hasNul (path : Path) : Bool := path.names.any fun name => name.toList.contains '\x00'

/-- Whether the path leads to a node. That it leads nowhere is no failure, but that it cannot be
followed is. -/
def leadsTo (fs : FileSystem) (path : Path) (node : Node) : Except Failure Bool :=
  if hasNul path then .ok false
  else match fs.find path with
    | .ok found => .ok (found = node)
    | .error fault =>
      if fault.leadsNowhere then .ok false else .error (.file fault path.toString)

def isDirectory (fs : FileSystem) (path : Path) : Except Failure Bool := fs.leadsTo path .directory

def isFile (fs : FileSystem) (path : Path) : Except Failure Bool := fs.leadsTo path .file

/-- The content of the file that a path leads to. -/
def read (fs : FileSystem) (path : Path) : Except Failure (List UInt8) :=
  if hasNul path then .error .nulInPath
  else match fs.fileNumber path with
    | .ok number => .ok (fs.content number)
    | .error fault => .error (.of (.unreadableFile path.toString fault))

end FileSystem

end JavaClass
