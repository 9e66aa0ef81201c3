import JavaClass.Storage.FileSystem

/-!
A file system held in memory: a tree of directories and files below the current directory. Above
it there are directories whose other content is not known, and taken to be none.
-/

namespace JavaClass

inductive TreeNode where
  | directory
  | file (number : Nat)
  deriving DecidableEq, Repr

structure FileTree where
  /-- Directories and files by the names that lead to them. -/
  nodes : List (List String × TreeNode)
  /-- Contents of all files there have been, by number. -/
  contents : List (List UInt8)
  /-- Numbers of the files that may not be read. -/
  locked : List Nat

namespace FileTree

def empty : FileTree := ⟨[], [], []⟩

def node? (tree : FileTree) (names : List String) : Option TreeNode :=
  if names.isEmpty then some .directory else tree.nodes.lookup names

/-- Where a walk along a path stands; nothing is known outside the tree. -/
inductive Position where
  | inside (names : List String)
  | outside
  deriving DecidableEq, Repr

/-- Names longer than this many bytes are refused. -/
def nameLimit : Nat := 255

def pathLimit : Nat := 4095

/-- The last position in a file, as disks have it. -/
def positionLimit : Nat := 0xFFFFFFFF000

/-- Goes on from a directory along the names. -/
def walk (tree : FileTree) : Position → List String → Except FileFault TreeNode
  | .outside, [] => .ok .directory
  | .outside, name :: rest =>
    if name = ".." then walk tree .outside rest
    else if nameLimit < name.utf8ByteSize then .error .nameTooLong
    else .error .notFound
  | .inside names, [] => .ok ((tree.node? names).getD .directory)
  | .inside names, name :: rest =>
    if name = ".." then
      walk tree (if names.isEmpty then .outside else .inside names.dropLast) rest
    else if nameLimit < name.utf8ByteSize then .error .nameTooLong
    else match tree.node? (names ++ [name]) with
      | none => .error .notFound
      | some .directory => walk tree (.inside (names ++ [name])) rest
      | some (.file number) => if rest.isEmpty then .ok (.file number) else .error .notDirectory

def find (tree : FileTree) (path : Path) : Except FileFault TreeNode :=
  if pathLimit < path.toString.utf8ByteSize then .error .nameTooLong
  else walk tree (if path.root = .current then .inside [] else .outside) path.names

def toFileSystem (tree : FileTree) : FileSystem where
  find path := do
    match ← tree.find path with
    | .directory => return .directory
    | .file _ => return .file
  fileNumber path := do
    match ← tree.find path with
    | .directory => .error .isDirectory
    | .file number => if tree.locked.contains number then .error .accessDenied else .ok number
  content number := (tree.contents[number]?).getD []
  lastPosition := positionLimit

/-- Makes a directory and those that lead to it. -/
def addDirectory (tree : FileTree) (names : List String) : FileTree :=
  let leading := (List.range names.length).map fun i => names.take (i + 1)
  let missing := leading.filter fun directory => (tree.node? directory).isNone
  { tree with nodes := tree.nodes ++ missing.map (·, .directory) }

/-- Writes a file, in place of the content of one that is there. -/
def write (tree : FileTree) (names : List String) (bytes : List UInt8) : FileTree :=
  match tree.node? names with
  | some (.file number) => { tree with contents := tree.contents.set number bytes }
  | _ =>
    let tree := tree.addDirectory names.dropLast
    { tree with
      nodes := tree.nodes ++ [(names, .file tree.contents.length)],
      contents := tree.contents ++ [bytes] }

/-- Lets a file not be read any more. -/
def lock (tree : FileTree) (names : List String) : FileTree :=
  match tree.node? names with
  | some (.file number) => { tree with locked := number :: tree.locked }
  | _ => tree

def remove (tree : FileTree) (names : List String) : FileTree :=
  { tree with nodes := tree.nodes.filter fun (path, _) => path ≠ names }

end FileTree

end JavaClass
