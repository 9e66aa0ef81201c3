import JavaClass.Command.Run

/-!
The command line: looks at the paths that the arguments call for, runs the command on what is
there, and writes its output.
-/

namespace JavaClass

/-- What a failure says about a path. Other failures are not about paths. -/
def FileFault.ofError? : IO.Error → Option FileFault
  | .noFileOrDirectory .. => some .notFound
  | .permissionDenied .. => some .accessDenied
  | .inappropriateType none _ _ => some .isDirectory
  | .inappropriateType .. => some .notDirectory
  | .invalidArgument .. => some .nameTooLong
  | _ => none

/-- Reads what is at a path. Failures that are not about the path are thrown. -/
def readAt (path : String) : IO (Except FileFault (List UInt8)) := do
  match ← (IO.FS.readBinFile path).toBaseIO with
  | .ok bytes => return .ok bytes.toList
  | .error failure =>
    match FileFault.ofError? failure with
    | some fault => return .error fault
    | none => throw failure

/-- What is at a path, by what reading it gave. -/
def nodeOf : Except FileFault (List UInt8) → Except FileFault Node
  | .ok _ => .ok .file
  | .error fault => if fault = .isDirectory then .ok .directory else .error fault

/-- Looks at what is at a path. If it may not be read, a way out of it tells a directory from a
file. -/
def Path.look (path : Path) : IO Sight := do
  let bytes ← readAt path.toString
  match nodeOf bytes with
  | .ok node => return ⟨.ok node, bytes⟩
  | .error fault =>
    if fault ≠ .accessDenied then
      return ⟨.error fault, bytes⟩
    match nodeOf (← readAt (path.toString ++ "/..")) with
    | .ok _ => return ⟨.ok .directory, bytes⟩
    | .error wayOut =>
      return ⟨if wayOut = .notDirectory then .ok .file else .error fault, bytes⟩

end JavaClass

def main (words : List String) : IO UInt32 := do
  let paths := (JavaClass.Command.pathsOf words).filter (!JavaClass.FileSystem.hasNul ·)
  let sights ← paths.mapM fun path => return (path, ← path.look)
  let outcome := JavaClass.Command.run .builtIn (.ofSights sights) words
  IO.print outcome.stdout
  IO.eprint outcome.stderr.display
  match outcome.ending with
  | .exit code => return code.toUInt32
  | .failed failure =>
    IO.eprintln failure.message
    return 1
