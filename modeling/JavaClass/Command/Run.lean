import JavaClass.ClassPath
import JavaClass.Command.Arguments
import JavaClass.Listing.ClassFile

/-! What the command does: it finds a class, reads it and lists it. -/

namespace JavaClass.Command

/-- How the command ends: with an exit code, or by a failure that is no fault of the class file. -/
inductive Ending where
  | exit (code : Nat)
  | failed (failure : Failure)
  deriving DecidableEq, Repr

structure Outcome where
  ending : Ending
  stdout : String
  stderr : Text
  deriving DecidableEq, Repr

/-- The name of a class may be written as that of its file. -/
def classNameOf (target : String) : String :=
  let chars := target.toList
  if ".class".toList.isSuffixOf chars then String.ofList (chars.take (chars.length - 6)) else target

/-- The limit to read with. A limit without a value lets no version pass. -/
def Arguments.limit (args : Arguments) : Option Int :=
  args.maxVersion.map fun value => value.getD ((ClassFile.oldestVersion : Int) - 1)

/-- Looks for the target on a class path. -/
def loadFromClassPath (codecs : Codecs) (fs : FileSystem) (args : Arguments) (classPath : String) :
    Except Failure ClassFile × List Note :=
  match (ClassPath.empty args.limit).addPaths fs classPath with
  | (_, .error failure) => (.error failure, [])
  | (cp, .ok _) =>
    let found := cp.find codecs fs (classNameOf args.target)
    match found.result with
    | .ok (some file) => (.ok file, found.notes)
    | .ok none => (.error (.of (.classNotFound args.target)), found.notes)
    | .error failure => (.error failure, found.notes)

/-- Without a class path the target is the path of a file; with one it is so only if it ends in
`.class` and there is such a file. -/
def load (codecs : Codecs) (fs : FileSystem) (args : Arguments) :
    Except Failure ClassFile × List Note :=
  let path := Path.ofString args.target
  let direct := ClassFile.ofPath fs path args.limit
  match args.classPath with
  | none | some "" => direct
  | some classPath =>
    if path.extension ≠ ".class" then loadFromClassPath codecs fs args classPath
    else match fs.isFile path with
      | .error failure => (.error failure, [])
      | .ok true => direct
      | .ok false => loadFromClassPath codecs fs args classPath

/-- Every path that the file system may be asked about. -/
def Arguments.paths (args : Arguments) : List Path :=
  let places := (Path.split ':' (args.classPath.getD "")).map Path.ofString
  let name := ClassPath.slashed (classNameOf args.target) ++ ".class"
  Path.ofString args.target :: places ++ places.map (·.append (Path.ofString name))

def Arguments.options (args : Arguments) : Listing.Options where
  pool := !args.noPool
  code := !args.noCode
  privateMembers := !args.publicOnly
  attributes := true

/-- The log of a run that asked for one. -/
def logText (args : Arguments) (notes : List Note) : Text :=
  if args.verbose then notes.flatMap fun note => note.line ++ "\n" else []

/-- No version can be held against a limit without a value, which is no fault of the class file. -/
def Arguments.failure (args : Arguments) : Failure → Failure
  | .fault (.versionTooNew major limit) offset =>
    if args.maxVersion = some none then .missingLimit
    else .fault (.versionTooNew major limit) offset
  | failure => failure

/-- A fault is reported; any other failure ends the command. -/
def reportFailure (log : Text) : Failure → Outcome
  | .fault cause offset =>
    let message := (Failure.fault cause offset).message
    ⟨.exit 1, "", log ++ s!"Error: {cause.kind.name}: {message}\n"⟩
  | failure => ⟨.failed failure, "", log⟩

def list (codecs : Codecs) (fs : FileSystem) (args : Arguments) : Outcome :=
  let (result, notes) := load codecs fs args
  let log := logText args notes
  match result with
  | .error failure => reportFailure log (args.failure failure)
  | .ok file =>
    match file.listing args.options with
    | .ok text => ⟨.exit 0, text, log⟩
    | .error failure => ⟨.failed failure, "", log⟩

/-- The paths that running the command on these words may ask about. -/
def pathsOf (words : List String) : List Path :=
  match Request.parse words with
  | .ok (.list args) => args.paths
  | _ => []

def run (codecs : Codecs) (fs : FileSystem) (words : List String) : Outcome :=
  match Request.parse words with
  | .ok .help => ⟨.exit 0, helpText, []⟩
  | .ok (.list args) => list codecs fs args
  | .error error => ⟨.exit 2, "", usage ++ s!"pyjavap: error: {error.message}\n"⟩

end JavaClass.Command
