import JavaClass.Pool.Kind
import JavaClass.Storage.Fault

/-!
Faults of class files, and all that can stop the work on one. A fault has a cause and, where it is
known, the file offset it concerns.
-/

namespace JavaClass

/-- Why no entry can be had at a pool index. -/
inductive IndexFault where
  | zero
  | outside (last : Int)
  | secondSlot
  deriving DecidableEq, Repr

def IndexFault.message : IndexFault → String
  | .zero => "index 0 is never valid"
  | .outside last => s!"pool has indices 1..{last}"
  | .secondSlot => "second slot of a Long or Double entry"

/-- What a descriptor was read as. -/
inductive DescriptorKind where
  | field
  | method
  deriving DecidableEq, Repr

def DescriptorKind.name : DescriptorKind → String
  | .field => "field"
  | .method => "method"

inductive FaultKind where
  | ioFailure
  | invalidMagicNumber
  | unsupportedVersion
  | truncatedData
  | invalidConstantPoolTag
  | indexOutOfRange
  | typeMismatch
  | unknownOpcode
  | malformedData
  | descriptorError
  deriving DecidableEq, Repr

def FaultKind.name : FaultKind → String
  | .ioFailure => "IoFailure"
  | .invalidMagicNumber => "InvalidMagicNumber"
  | .unsupportedVersion => "UnsupportedVersion"
  | .truncatedData => "TruncatedData"
  | .invalidConstantPoolTag => "InvalidConstantPoolTag"
  | .indexOutOfRange => "IndexOutOfRange"
  | .typeMismatch => "TypeMismatch"
  | .unknownOpcode => "UnknownOpcode"
  | .malformedData => "MalformedData"
  | .descriptorError => "DescriptorError"

inductive Cause where
  | unreadableStream (detail : String)
  | unreadableFile (path : String) (fault : FileFault)
  | missingArchive (path : String) (fault : FileFault)
  | badArchive (path : String) (fault : ArchiveFault)
  | badPathEntry (path : String)
  | classNotFound (name : String)
  | badMagic (found : Nat)
  | versionTooOld (major : Nat)
  | versionTooNew (major : Nat) (limit : Int)
  | truncated (wanted : Int) (available : Nat)
  | badTag (tag : Nat)
  | badIndex (index : Int) (reason : IndexFault)
  | wrongKind (index : Int) (expected : List EntryKind) (found : EntryKind)
  | undescribable (index : Int) (found : EntryKind)
  | badOpcode (opcode pc : Nat)
  | badHandleKind (kind : Int) (index : Nat)
  | poolOverrun (kind : EntryKind) (index : Nat)
  | badTableBounds (pc : Nat) (high low : Int)
  | badPairCount (pc : Nat) (count : Int)
  | notWidened (mnemonic : String) (pc : Nat)
  | unexpectedLayout (name : String) (pc : Nat)
  | unreadBytes (owner : String) (count : Nat)
  | badElementTag (tag : Nat)
  | trailingBytes (count : Nat)
  | nestedTooDeeply
  | badDescriptor (kind : DescriptorKind) (text : Text)
  deriving DecidableEq, Repr

namespace Cause

def kind : Cause → FaultKind
  | .unreadableStream _ | .unreadableFile .. | .missingArchive .. | .badArchive ..
  | .badPathEntry _ | .classNotFound _ => .ioFailure
  | .badMagic _ => .invalidMagicNumber
  | .versionTooOld _ | .versionTooNew .. => .unsupportedVersion
  | .truncated .. => .truncatedData
  | .badTag _ => .invalidConstantPoolTag
  | .badIndex .. => .indexOutOfRange
  | .wrongKind .. | .undescribable .. => .typeMismatch
  | .badOpcode .. => .unknownOpcode
  | .badHandleKind .. | .poolOverrun .. | .badTableBounds .. | .badPairCount .. | .notWidened ..
  | .unexpectedLayout .. | .unreadBytes .. | .badElementTag _ | .trailingBytes _
  | .nestedTooDeeply => .malformedData
  | .badDescriptor .. => .descriptorError

def message : Cause → String
  | .unreadableStream detail => s!"Cannot read class data: {detail}"
  | .unreadableFile path fault => s!"Cannot read {path}: {fault.message}"
  | .missingArchive path fault => s!"Cannot open classpath archive {path}: {fault.report path}"
  | .badArchive path fault => s!"Cannot open classpath archive {path}: {fault.message}"
  | .badPathEntry path => s!"Invalid classpath entry: {path}"
  | .classNotFound name => s!"Class not found: {name}"
  | .badMagic found => "Invalid class file magic: 0x" ++ (hex 8 found).toUpper
  | .versionTooOld major => s!"Class file major version {major} predates version 45"
  | .versionTooNew major limit => s!"Class file major version {major} is newer than {limit}"
  | .truncated wanted available =>
    s!"Truncated data: needed {wanted} byte(s), {available} available"
  | .badTag tag => s!"Unknown constant pool tag: {tag}"
  | .badIndex index reason => s!"Invalid constant pool index #{index}: {reason.message}"
  | .wrongKind index expected found =>
    let kinds := String.intercalate " or " (expected.map EntryKind.name)
    s!"Expected {kinds} at constant pool index #{index}, found {found.name}"
  | .undescribable index found =>
    s!"Expected known constant at constant pool index #{index}, found {found.name}"
  | .badOpcode opcode pc => s!"Unknown opcode 0x{hex 2 opcode} at code offset {pc}"
  | .badHandleKind kind index => s!"Invalid method handle reference kind {kind} at #{index}"
  | .poolOverrun kind index => s!"{kind.name} entry #{index} overruns the constant pool"
  | .badTableBounds pc high low => s!"tableswitch at {pc} has high {high} < low {low}"
  | .badPairCount pc count => s!"lookupswitch at {pc} has negative npairs {count}"
  | .notWidened mnemonic pc => s!"wide cannot modify {mnemonic} at {pc}"
  | .unexpectedLayout name pc => s!"Unexpected operand layout {name} at {pc}"
  | .unreadBytes owner count => s!"{owner} attribute has {count} unread byte(s)"
  | .badElementTag tag =>
    s!"Unknown annotation element value tag: {Text.quoted [CodePoint.ofNat tag]}"
  | .trailingBytes count => s!"{count} unexpected byte(s) after the class attributes"
  | .nestedTooDeeply => "Attributes are nested too deeply to decode"
  | .badDescriptor kind text => s!"Invalid {kind.name} descriptor: {text.quoted}"

end Cause

/-- What ends a piece of work without a result. Only a fault is the class file's own. -/
inductive Failure where
  | fault (cause : Cause) (offset : Option Int)
  | tooDeep
  | floatOverflow
  | referenceKind (number : Int)
  | archive (fault : ArchiveFault)
  | file (fault : FileFault) (path : String)
  | nulInPath
  | missingLimit
  deriving DecidableEq, Repr

namespace Failure

/-- A fault at no known place. -/
def of (cause : Cause) : Failure := .fault cause none

/-- A fault at a place of its own. -/
def atOffset (cause : Cause) (offset : Int) : Failure := .fault cause (some offset)

/-- Places a fault that has no place yet. -/
def locate (offset : Int) : Failure → Failure
  | .fault cause none => .fault cause (some offset)
  | failure => failure

def message : Failure → String
  | .fault cause none => cause.message
  | .fault cause (some offset) => s!"{cause.message} (at offset {offset})"
  | .tooDeep => "nested too deeply"
  | .floatOverflow => "float too large to pack with f format"
  | .referenceKind number => s!"{number} is not a valid ReferenceKind"
  | .archive reason => reason.message
  | .file reason path => reason.report path
  | .nulInPath => "embedded null byte"
  | .missingLimit => "'>' not supported between instances of 'int' and 'list'"

end Failure

end JavaClass
