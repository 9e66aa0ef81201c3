import JavaClass.ClassFile.Reader
import JavaClass.Storage.Archive
import JavaClass.Storage.FileSystem

/-!
Class paths: directories and archives in which classes are looked for by name. A class that has
been found is kept, so that it is read only once.
-/

namespace JavaClass

/-- Reads a class file that a path leads to. -/
def ClassFile.ofPath (fs : FileSystem) (path : Path) (limit : Option Int) :
    Except Failure ClassFile × List Note :=
  match fs.read path with
  | .ok data => load data limit
  | .error failure => (.error failure, [])

/-- An archive whose directory was read when it was opened. Members are read when they are asked
for, unless the archive has been closed. -/
structure OpenArchive where
  path : Path
  file : Nat
  directory : Archive
  closed : Bool
  deriving DecidableEq, Repr

inductive PathEntry where
  | directory (path : Path)
  | archive (source : OpenArchive)
  deriving DecidableEq, Repr

namespace PathEntry

def place : PathEntry → String
  | .directory path => path.toString
  | .archive source => source.path.toString

def isOpenArchive : PathEntry → Bool
  | .directory _ => false
  | .archive source => !source.closed

def close : PathEntry → PathEntry
  | .directory path => .directory path
  | .archive source => .archive { source with closed := true }

/-- The bytes of a class, given by its name with slashes, if they are here. -/
def lookUp (codecs : Codecs) (fs : FileSystem) (name : String) :
    PathEntry → Except Failure (Option (List UInt8))
  | .archive source =>
    if source.closed then .error (.archive .closed)
    else match source.directory.find? (name ++ ".class") with
      | none => .ok none
      | some found =>
        match Archive.extract codecs fs.lastPosition (fs.content source.file) found with
        | .ok data => .ok (some data)
        | .error fault => .error (.archive fault)
  | .directory path => do
    let path := path.append (Path.ofString (name ++ ".class"))
    if ← fs.isFile path then
      return some (← fs.read path)
    else return none

end PathEntry

structure ClassPath where
  /-- The greatest major version that is accepted, if there is a limit. -/
  limit : Option Int
  entries : List PathEntry
  /-- Classes found so far, by name. -/
  cache : List (String × ClassFile)

namespace ClassPath

def empty (limit : Option Int) : ClassPath := ⟨limit, [], []⟩

/-- Opens an archive. Damage to it is a fault of the class path; an archive that asks for more than
can be done is a failure of its own. -/
def openArchive (fs : FileSystem) (path : Path) : Except Failure OpenArchive :=
  if FileSystem.hasNul path then .error .nulInPath
  else match fs.fileNumber path with
    | .error fault => .error (.of (.missingArchive path.toString fault))
    | .ok file =>
      match Archive.ofBytes (fs.content file) with
      | .ok directory => .ok ⟨path, file, directory, false⟩
      | .error fault =>
        if fault.isDamage then .error (.of (.badArchive path.toString fault))
        else .error (.archive fault)

/-- What a path stands for on a class path: archives are told by their extension. -/
def entryOf (fs : FileSystem) (path : Path) : Except Failure PathEntry := do
  if path.extension = ".jar" || path.extension = ".zip" then
    return .archive (← openArchive fs path)
  else if ← fs.isDirectory path then
    return .directory path
  else .error (.of (.badPathEntry path.toString))

def addPath (fs : FileSystem) (text : String) (cp : ClassPath) : Except Failure ClassPath := do
  let entry ← entryOf fs (Path.ofString text)
  return { cp with entries := cp.entries ++ [entry] }

/-- Adds paths one after the other, up to the first that cannot be added. -/
def addAll (fs : FileSystem) (cp : ClassPath) : List String → ClassPath × Except Failure Unit
  | [] => (cp, .ok ())
  | text :: rest =>
    match cp.addPath fs text with
    | .ok cp => addAll fs cp rest
    | .error failure => (cp, .error failure)

/-- Adds the paths of a list that colons separate; empty ones are skipped. -/
def addPaths (fs : FileSystem) (text : String) (cp : ClassPath) : ClassPath × Except Failure Unit :=
  addAll fs cp ((Path.split ':' text).filter (· ≠ ""))

/-- Looks for a class in one entry after the other. -/
def search (codecs : Codecs) (fs : FileSystem) (limit : Option Int) (name : String) :
    List PathEntry → Except Failure (Option ClassFile) × List Note
  | [] => (.ok none, [])
  | entry :: rest =>
    match entry.lookUp codecs fs name with
    | .error failure => (.error failure, [])
    | .ok none => search codecs fs limit name rest
    | .ok (some data) =>
      let (result, notes) := ClassFile.load data limit
      (some <$> result, .classFound name entry.place :: notes)

/-- What looking for a class gives, and the class path afterwards. -/
structure Found where
  result : Except Failure (Option ClassFile)
  classPath : ClassPath
  notes : List Note

/-- Class names may be written with dots or with slashes. -/
def slashed (name : String) : String :=
  String.ofList (name.toList.map fun c => if c = '.' then '/' else c)

def find (codecs : Codecs) (fs : FileSystem) (name : String) (cp : ClassPath) : Found :=
  let name := slashed name
  match cp.cache.lookup name with
  | some file => ⟨.ok (some file), cp, []⟩
  | none =>
    match search codecs fs cp.limit name cp.entries with
    | (.ok (some file), notes) =>
      ⟨.ok (some file), { cp with cache := cp.cache ++ [(name, file)] }, notes⟩
    | (result, notes) => ⟨result, cp, notes⟩

/-- Closes all archives. They stay on the path, and what has been found stays known. -/
def close (cp : ClassPath) : ClassPath := { cp with entries := cp.entries.map PathEntry.close }

end ClassPath

end JavaClass
