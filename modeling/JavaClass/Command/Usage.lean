import JavaClass.Text.Quoted

/-! The switches of the command, and what it says about its use. -/

namespace JavaClass.Command

inductive Switch where
  | help
  | classPath
  | noPool
  | noCode
  | publicOnly
  | maxVersion
  | verbose
  deriving DecidableEq, Repr

namespace Switch

def names : Switch → List String
  | .help => ["-h", "--help"]
  | .classPath => ["-cp", "--classpath"]
  | .noPool => ["--no-constant-pool"]
  | .noCode => ["--no-code"]
  | .publicOnly => ["--public"]
  | .maxVersion => ["--max-version"]
  | .verbose => ["-v", "--verbose"]

def all : List Switch :=
  [.help, .classPath, .noPool, .noCode, .publicOnly, .maxVersion, .verbose]

/-- Every way to write a switch. -/
def spellings : List (String × Switch) := all.flatMap fun s => s.names.map (·, s)

def ofName? (name : String) : Option Switch := spellings.lookup name

def takesValue : Switch → Bool
  | .classPath | .maxVersion => true
  | _ => false

/-- How messages name the switch. -/
def label (s : Switch) : String := String.intercalate "/" s.names

end Switch

inductive UsageError where
  | ambiguous (word : String) (candidates : List String)
  | missingValue (switch : Switch)
  | unwantedValue (switch : Switch) (value : String)
  | notInteger (switch : Switch) (value : String)
  | missingTarget
  | unrecognized (words : List String)
  deriving DecidableEq, Repr

def UsageError.message : UsageError → String
  | .ambiguous word candidates =>
    s!"ambiguous option: {word} could match " ++ String.intercalate ", " candidates
  | .missingValue switch => s!"argument {switch.label}: expected one argument"
  | .unwantedValue switch value =>
    s!"argument {switch.label}: ignored explicit argument {Text.quoted value}"
  | .notInteger switch value =>
    s!"argument {switch.label}: invalid int value: {Text.quoted value}"
  | .missingTarget => "the following arguments are required: CLASS"
  | .unrecognized words => "unrecognized arguments: " ++ String.intercalate " " words

def usage : String :=
  "usage: pyjavap [-h] [-cp CLASSPATH] [--no-constant-pool] [--no-code]\n" ++
  "               [--public] [--max-version N] [-v]\n" ++
  "               CLASS\n"

def helpText : String :=
  usage ++
  "\n" ++
  "Disassemble Java class files\n" ++
  "\n" ++
  "positional arguments:\n" ++
  "  CLASS                 Path to a .class file, or a class name with\n" ++
  "                        --classpath\n" ++
  "\n" ++
  "options:\n" ++
  "  -h, --help            show this help message and exit\n" ++
  "  -cp CLASSPATH, --classpath CLASSPATH\n" ++
  "                        Directories and jar files to search, separated by the\n" ++
  "                        path separator\n" ++
  "  --no-constant-pool    Do not print the constant pool\n" ++
  "  --no-code             Do not print method bytecode\n" ++
  "  --public              Hide private fields and methods\n" ++
  "  --max-version N       Reject class files with a major version above N\n" ++
  "  -v, --verbose         Log parser progress to stderr\n"

end JavaClass.Command
