import JavaClass.Attribute.Basic
import JavaClass.Note

/-!
Reading attributes. An attribute is a name index, a length and that many bytes. A fault that has no
place of its own is placed at the innermost attribute around it.
-/

namespace JavaClass

/-- The state of a scan: where it stands, and its notes, the latest first. -/
structure Scan where
  cursor : Cursor
  notes : List Note

abbrev Scanner := EStateM Failure Scan

namespace Scanner

instance : MonadLift Reader Scanner where
  monadLift reader := fun s =>
    match reader s.cursor with
    | .ok value cursor => .ok value { s with cursor }
    | .error failure cursor => .error failure { s with cursor }

def note (entry : Note) : Scanner Unit :=
  modify fun s => { s with notes := entry :: s.notes }

/-- Places faults that have no place yet. -/
def located {α : Type} (offset : Int) (scanner : Scanner α) : Scanner α := fun s =>
  match scanner s with
  | .ok value s => .ok value s
  | .error failure s => .error (failure.locate offset) s

/-- Scans a window of its own, and tells where the scan stopped in it. -/
def within {α : Type} (window : Cursor) (scanner : Scanner α) : Scanner (α × Cursor) := fun s =>
  match scanner { s with cursor := window } with
  | .ok value inner => .ok (value, inner.cursor) { s with notes := inner.notes }
  | .error failure inner => .error failure { s with notes := inner.notes }

end Scanner

namespace Pool

/-- Checks an index that may be 0 for none. -/
def expectOptional (pool : Pool) (index : Nat) (kinds : List EntryKind) : Except Failure Unit :=
  if index = 0 then .ok () else discard (pool.expect index kinds)

end Pool

/-- Reads an index of a constant of one of the given kinds. -/
def readIndex (pool : Pool) (kinds : List EntryKind) : Reader Nat := do
  let index ← Reader.u2
  discard (pool.expect index kinds)
  return index

/-- Reads an index that may be 0 for none. -/
def readOptionalIndex (pool : Pool) (kinds : List EntryKind) : Reader Nat := do
  let index ← Reader.u2
  pool.expectOptional index kinds
  return index

/-- Reads a counted list of indices. -/
def readIndices (pool : Pool) (kinds : List EntryKind) : Reader (List Nat) := do
  times (← Reader.u2) (readIndex pool kinds)

/-- Reads the index of a text, and the text. -/
def readText (pool : Pool) : Reader (Nat × Text) := do
  let index ← Reader.u2
  return (index, ← pool.utf8 index)

def ExceptionHandler.read (pool : Pool) : Reader ExceptionHandler := do
  let startPc ← Reader.u2
  let endPc ← Reader.u2
  let handlerPc ← Reader.u2
  let catchType ← readOptionalIndex pool [.classRef]
  return { startPc, endPc, handlerPc, catchType }

def LineNumber.read : Reader LineNumber := do
  let startPc ← Reader.u2
  let line ← Reader.u2
  return { startPc, line }

def LocalVariable.read (pool : Pool) : Reader LocalVariable := do
  let startPc ← Reader.u2
  let length ← Reader.u2
  let nameIndex ← Reader.u2
  let descriptorIndex ← Reader.u2
  let slot ← Reader.u2
  let name ← pool.utf8 nameIndex
  let descriptor ← pool.utf8 descriptorIndex
  return { startPc, length, nameIndex, descriptorIndex, slot, name, descriptor }

def InnerClass.read (pool : Pool) : Reader InnerClass := do
  let innerIndex ← Reader.u2
  let outerIndex ← Reader.u2
  let nameIndex ← Reader.u2
  let flags ← Reader.u2
  discard (pool.expect innerIndex [.classRef])
  pool.expectOptional outerIndex [.classRef]
  pool.expectOptional nameIndex [.utf8]
  return { innerIndex, outerIndex, nameIndex, flags }

def BootstrapMethod.read (pool : Pool) : Reader BootstrapMethod := do
  let handleIndex ← readIndex pool [.methodHandle]
  let arguments ← readIndices pool Pool.loadable
  return { handleIndex, arguments }

def MethodParameter.read (pool : Pool) : Reader MethodParameter := do
  let nameIndex ← readOptionalIndex pool [.utf8]
  let flags ← Reader.u2
  return { nameIndex, flags }

/-- Reads code, given how to read its attributes. Every constant that an instruction names has to
exist, of whatever kind. -/
def CodeOf.read (pool : Pool) (nested : Scanner Attribute) : Scanner Code := do
  let maxStack ← Reader.u2
  let maxLocals ← Reader.u2
  let length ← Reader.u4
  let start ← Reader.offset
  let code ← Reader.bytes length
  let instructions ← disassemble code start
  (instructions.filterMap (·.constantIndex?)).forM fun index => discard (pool.get index)
  let handlers ← times (← Reader.u2) (ExceptionHandler.read pool)
  let attributes ← times (← Reader.u2) nested
  return { maxStack, maxLocals, code, handlers, attributes, instructions }

namespace Body

def readConstantValue (pool : Pool) : Reader Body :=
  return .constantValue (← readIndex pool [.integer, .float, .long, .double, .string])

def readExceptions (pool : Pool) : Reader Body :=
  return .exceptions (← readIndices pool [.classRef])

def readSourceFile (pool : Pool) : Reader Body := do
  let (index, name) ← readText pool
  return .sourceFile index name

def readLineNumbers : Reader Body :=
  return .lineNumbers (← times (← Reader.u2) LineNumber.read)

def readLocalVariables (pool : Pool) (generic : Bool) : Reader Body :=
  return .localVariables generic (← times (← Reader.u2) (LocalVariable.read pool))

def readSignature (pool : Pool) : Reader Body := do
  let (index, text) ← readText pool
  return .signature index text

def readInnerClasses (pool : Pool) : Reader Body :=
  return .innerClasses (← times (← Reader.u2) (InnerClass.read pool))

def readEnclosingMethod (pool : Pool) : Reader Body := do
  let classIndex ← readIndex pool [.classRef]
  let methodIndex ← readOptionalIndex pool [.nameAndType]
  return .enclosingMethod classIndex methodIndex

def readBootstrapMethods (pool : Pool) : Reader Body :=
  return .bootstrapMethods (← times (← Reader.u2) (BootstrapMethod.read pool))

def readMethodParameters (pool : Pool) : Reader Body :=
  return .methodParameters (← times (← Reader.u1) (MethodParameter.read pool))

def readNestHost (pool : Pool) : Reader Body :=
  return .nestHost (← readIndex pool [.classRef])

def readNestMembers (pool : Pool) : Reader Body :=
  return .nestMembers (← readIndices pool [.classRef])

def readAnnotations (pool : Pool) (budget : Nat) (visible : Bool) : Reader Body :=
  return .annotations visible
    (← times (← Reader.u2) (AnnotationOf.read pool (ElementValue.read pool budget)))

/-- Reads the body of a recognised attribute, given how to read the attributes of code. -/
def read (pool : Pool) (nested : Scanner Attribute) (budget : Nat) (known : AttributeName) :
    Scanner Body :=
  match known with
  | .constantValue => readConstantValue pool
  | .code => return .code (← CodeOf.read pool nested)
  | .exceptions => readExceptions pool
  | .sourceFile => readSourceFile pool
  | .lineNumberTable => readLineNumbers
  | .localVariableTable => readLocalVariables pool false
  | .localVariableTypeTable => readLocalVariables pool true
  | .signature => readSignature pool
  | .deprecated => return .deprecated
  | .synthetic => return .synthetic
  | .innerClasses => readInnerClasses pool
  | .enclosingMethod => readEnclosingMethod pool
  | .bootstrapMethods => readBootstrapMethods pool
  | .methodParameters => readMethodParameters pool
  | .nestHost => readNestHost pool
  | .nestMembers => readNestMembers pool
  | .visibleAnnotations => readAnnotations pool budget true
  | .invisibleAnnotations => readAnnotations pool budget false

end Body

namespace Attribute

/-- Reads an attribute, given how to read the attributes of code. -/
def readWith (pool : Pool) (nested : Scanner Attribute) (budget : Nat) : Scanner Attribute := do
  let offset ← Reader.offset
  let nameIndex ← Reader.u2
  let name ← Scanner.located offset (pool.utf8 nameIndex)
  let length ← Reader.u4
  let window ← Reader.window length
  match AttributeName.ofText? name with
  | none =>
    Scanner.note (.attributeKept name length)
    return { nameIndex, name, info := window.rest, body := none }
  | some known =>
    let (body, last) ← Scanner.within window
      (Scanner.located offset (Body.read pool nested budget known))
    if !last.atEnd then
      throw (.atOffset (.unreadBytes known.name last.remaining) last.offset)
    return { nameIndex, name, info := window.rest, body := some body }

/-- Reads an attribute. Code inside code takes four off the budget. -/
def readWithin (pool : Pool) (budget : Nat) : Scanner Attribute :=
  match budget with
  | budget + 4 => readWith pool (readWithin pool budget) (budget + 4)
  | budget => readWith pool (throw .tooDeep) budget

/-- Attributes and annotations that nest past this are given up on. -/
def nestingBudget : Nat := 980

def read (pool : Pool) : Scanner Attribute := readWithin pool nestingBudget

/-- Reads a counted list of attributes. -/
def readMany (pool : Pool) : Scanner (List Attribute) := do
  times (← Reader.u2) (read pool)

end Attribute

end JavaClass
