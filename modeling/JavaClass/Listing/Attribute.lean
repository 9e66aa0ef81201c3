import JavaClass.AccessFlags
import JavaClass.Listing.Code
import JavaClass.Listing.Element
import JavaClass.Text.Blank

/-! Attributes in a listing. -/

namespace JavaClass.Listing

/-- An attribute that is not recognised is shown as bytes, sixteen to a line. -/
def rawLines (a : Attribute) : List Line :=
  let row (i : Nat) : Text :=
    Text.joinWith " " (((a.info.drop (16 * i)).take 16).map fun b => hex 2 b.toNat)
  line (a.name ++ s!": length = 0x{hex 1 a.info.length}") ::
    indented ((List.range ((a.info.length + 15) / 16)).map fun i => line (row i))

/-- The type of an initial value, by the kind of its constant. -/
def constantType : EntryKind → String
  | .integer => "int"
  | .float => "float"
  | .long => "long"
  | .double => "double"
  | kind => kind.name

def constantValueLine (pool : Pool) (index : Nat) : Except Failure Line := do
  let entry ← pool.get index
  return line ("ConstantValue: " ++ constantType entry.kind ++ " " ++ (← pool.describe index))

def dottedNames (pool : Pool) (indices : List Nat) : Except Failure Text := do
  let names ← indices.mapM fun (index : Nat) => pool.className index
  return Text.joinWith ", " (names.map dotted)

def localVariableLine (v : LocalVariable) : Line :=
  line (Text.padLeft 5 (toString v.startPc) ++ Text.padLeft 8 (toString v.length) ++
    Text.padLeft 6 (toString v.slot) ++ Text.padLeft 6 v.name ++ "   " ++ v.descriptor)

/-- How an inner class is referred to by indices, and in words. -/
def innerClassTexts (pool : Pool) (c : InnerClass) : Except Failure (Text × Text) := do
  let inner ← pool.describe c.innerIndex
  if c.nameIndex = 0 then
    return (s!"#{c.innerIndex}", "class " ++ inner)
  else
    let name ← pool.utf8 c.nameIndex
    return (s!"#{c.nameIndex}= #{c.innerIndex}", name ++ "=class " ++ inner)

/-- The same for the class around it, if there is one. -/
def outerClassTexts (pool : Pool) (c : InnerClass) : Except Failure (Text × Text) := do
  if c.outerIndex = 0 then
    return ([], [])
  else
    let outer ← pool.describe c.outerIndex
    return (s!" of #{c.outerIndex}", " of class " ++ outer)

def innerClassLine (pool : Pool) (c : InnerClass) : Except Failure Line := do
  let (inner, innerComment) ← innerClassTexts pool c
  let (outer, outerComment) ← outerClassTexts pool c
  let words := (FlagContext.innerClass.keywords c.flags).map Text.ofString
  return line (withComment (Text.joinWith " " (words ++ [inner ++ outer ++ ";"]))
    (innerComment ++ outerComment))

def enclosingMethodLine (pool : Pool) (classIndex methodIndex : Nat) : Except Failure Line := do
  let owner ← pool.describe classIndex
  let reference := s!"EnclosingMethod: #{classIndex}.#{methodIndex}"
  if methodIndex = 0 then
    return line (withComment reference owner)
  else
    let (method, _) ← pool.nameAndType methodIndex
    return line (withComment reference (owner ++ "." ++ method))

def bootstrapMethodLines (pool : Pool) (number : Nat) (m : BootstrapMethod) :
    Except Failure (List Line) := do
  let handle ← pool.describe m.handleIndex
  let arguments ← m.arguments.mapM fun (index : Nat) =>
    return line (s!"#{index} " ++ (← pool.describe index))
  return line (s!"{number}: #{m.handleIndex} " ++ handle) ::
    indented (line "Method arguments:" :: indented arguments)

/-- The flags that a parameter may have. -/
def parameterFlags : List AccessFlag := [.isFinal, .isSynthetic, .isMandated]

def parameterName (pool : Pool) (p : MethodParameter) : Except Failure Text :=
  if p.nameIndex = 0 then .ok "<no name>" else pool.utf8 p.nameIndex

def parameterLine (pool : Pool) (p : MethodParameter) : Except Failure Line := do
  let name ← parameterName pool p
  let words := (parameterFlags.filter (·.isSet p.flags)).map fun flag => Text.ofString flag.keyword
  return line (Text.trimEnd (Text.padRight 30 name ++ " " ++ Text.joinWith " " words))

def annotationLines (pool : Pool) (number : Nat) (a : AnnotationOf ElementValue) :
    Except Failure (List Line) := do
  let text ← annotationText pool a
  return line s!"{number}: #{a.typeIndex}()" :: indented [line text]

/-- The lines under a heading. -/
def headed (heading : Text) (lines : List Line) : List Line := line heading :: indented lines

/-- Code is shown without its attributes here: only a method's own code is shown in full. -/
def bodyLines (pool : Pool) (name : Text) : Body → Except Failure (List Line)
  | .sourceFile _ file => return [line ("SourceFile: \"" ++ file ++ "\"")]
  | .signature index text => return [line (withComment s!"Signature: #{index}" text)]
  | .constantValue index => return [← constantValueLine pool index]
  | .deprecated | .synthetic => return [line (name ++ ": true")]
  | .exceptions indices =>
    return headed "Exceptions:" [line ("throws " ++ (← dottedNames pool indices))]
  | .lineNumbers entries =>
    return headed "LineNumberTable:" (entries.map fun e => line s!"line {e.line}: {e.startPc}")
  | .localVariables _ entries =>
    return headed (name ++ ":")
      (line "Start  Length  Slot  Name   Signature" :: entries.map localVariableLine)
  | .innerClasses classes =>
    return headed "InnerClasses:" (← classes.mapM (innerClassLine pool))
  | .enclosingMethod classIndex methodIndex =>
    return [← enclosingMethodLine pool classIndex methodIndex]
  | .bootstrapMethods methods => do
    let lines ← methods.zipIdx.mapM fun (m, number) => bootstrapMethodLines pool number m
    return headed "BootstrapMethods:" lines.flatten
  | .methodParameters parameters => do
    let lines ← parameters.mapM (parameterLine pool)
    return headed "MethodParameters:" (line (Text.padRight 30 "Name" ++ " Flags") :: lines)
  | .nestHost index => return [line ("NestHost: class " ++ (← pool.describe index))]
  | .nestMembers indices =>
    return headed "NestMembers:"
      (← indices.mapM fun (index : Nat) => return line (← pool.describe index))
  | .annotations _ values => do
    let lines ← values.zipIdx.mapM fun (a, number) => annotationLines pool number a
    return headed (name ++ ":") lines.flatten
  | .code code =>
    return headed (name ++ s!": stack={code.maxStack}, locals={code.maxLocals}")
      (← instructionLines pool code.instructions)

def attributeLines (pool : Pool) (a : Attribute) : Except Failure (List Line) :=
  match a.body with
  | none => .ok (rawLines a)
  | some body => bodyLines pool a.name body

/-- The lines of several attributes, if attributes are shown. -/
def attributesLines (options : Options) (pool : Pool) (attributes : List Attribute) :
    Except Failure (List Line) := do
  if options.attributes then
    return (← attributes.mapM (attributeLines pool)).flatten
  else return []

end JavaClass.Listing
