import JavaClass.ClassFile.Basic
import JavaClass.Listing.Attribute
import JavaClass.Listing.Pool

/-! The listing of a whole class file. -/

namespace JavaClass

namespace Listing

def words (items : List String) : List Text := items.map Text.ofString

def flagsLine (flags : Nat) (names : List String) : Line :=
  line (Text.trimEnd (s!"flags: (0x{hex 4 flags}) " ++ Text.joinWith ", " (words names)))

/-- The declared kind of a class, after its modifiers. -/
def classKeywords (c : ClassFile) : List Text :=
  let modifiers := FlagContext.classFile.keywords c.flags
  if c.has .isInterface then
    words (modifiers.filter (· ≠ AccessFlag.keyword .isAbstract) ++
      [if c.has .isAnnotationType then "@interface" else "interface"])
  else words (modifiers ++ ["class"])

/-- What a class extends and implements. -/
def classParents (c : ClassFile) : Except Failure (List Text) := do
  let interfaces := Text.joinWith ", " ((← c.interfaceNames).map dotted)
  let clause (word : Text) : List Text :=
    if interfaces.isEmpty then [] else [word ++ " " ++ interfaces]
  if c.has .isInterface then
    return clause "extends"
  match ← c.superName? with
  | some parent =>
    if parent = Text.ofString "java/lang/Object" then return clause "implements"
    else return ("extends " ++ dotted parent) :: clause "implements"
  | none => return clause "implements"

def classDeclaration (c : ClassFile) : Except Failure Text := do
  let name := dotted (← c.name)
  if c.has .isModule then
    return "module " ++ name
  return Text.joinWith " " (classKeywords c ++ name :: (← classParents c))

def superText (c : ClassFile) (parent : Option Text) : Text :=
  match parent with
  | some name => withComment s!"super_class: #{c.superClass}" name
  | none => "super_class: #0"

def headerLines (c : ClassFile) : Except Failure (List Line) := do
  let thisLine := line (withComment s!"this_class: #{c.thisClass}" (← c.name))
  let superLine := line (superText c (← c.superName?))
  let counts := s!"interfaces: {c.interfaces.length}, fields: {c.fields.length}, " ++
    s!"methods: {c.methods.length}, attributes: {c.attributes.length}"
  return [line s!"minor version: {c.minorVersion}", line s!"major version: {c.majorVersion}",
    flagsLine c.flags (FlagContext.classFile.names c.flags), thisLine, superLine, line counts]

def fieldDeclaration (m : Member) : Except Failure Text := do
  let type ← javaType m.descriptor
  return Text.joinWith " " (words (FlagContext.field.keywords m.flags) ++ [type, m.name]) ++ ";"

def fieldLines (options : Options) (pool : Pool) (m : Member) : Except Failure (List Line) := do
  let declaration ← fieldDeclaration m
  let attributes ← attributesLines options pool m.attributes
  return headed declaration ([line ("descriptor: " ++ m.descriptor),
    flagsLine m.flags (FlagContext.field.names m.flags)] ++ attributes)

/-- The last parameter of a method with variable arguments is written with dots. -/
def variadic : List Text → List Text
  | [] => []
  | [last] =>
    if Text.ofString "[]" <:+ last then [last.take (last.length - 2) ++ "..."] else [last]
  | name :: rest => name :: variadic rest

def throwsClause (pool : Pool) (m : Member) : Except Failure Text := do
  if m.exceptions.isEmpty then
    return []
  return " throws " ++ (← dottedNames pool m.exceptions)

def methodDeclaration (c : ClassFile) (m : Member) : Except Failure Text := do
  if m.name = Text.ofString "<clinit>" then
    return "static \x7b\x7d;"
  let modifiers := words (FlagContext.method.keywords m.flags)
  match MethodType.parse m.descriptor with
  | .error .tooDeep => .error .tooDeep
  | .error _ => return Text.joinWith " " (modifiers ++ [m.name ++ m.descriptor]) ++ ";"
  | .ok type =>
    let names := if m.has .isVarargs then variadic type.parameterNames else type.parameterNames
    let parameters := "(" ++ Text.joinWith ", " names ++ ")"
    let className := dotted (← c.name)
    let signature := if m.name = Text.ofString "<init>" then [className ++ parameters]
      else [MethodType.resultName type.result, m.name ++ parameters]
    return Text.joinWith " " (modifiers ++ signature) ++ (← throwsClause c.pool m) ++ ";"

/-- The slots of the arguments; a question mark for a descriptor that says nothing about them. -/
def argumentSlotsText (m : Member) : Except Failure Text :=
  match m.argumentSlots with
  | .ok slots => .ok (toString slots)
  | .error .tooDeep => .error .tooDeep
  | .error _ => .ok "?"

def codeLines (options : Options) (pool : Pool) (m : Member) (code : Code) :
    Except Failure (List Line) := do
  let slots ← argumentSlotsText m
  let instructions ← instructionLines pool code.instructions
  let handlers ← handlerLines pool code.handlers
  let attributes ← attributesLines options pool code.attributes
  let summary := s!"stack={code.maxStack}, locals={code.maxLocals}, args_size=" ++ slots
  return headed "Code:" (line summary :: instructions ++ handlers ++ attributes)

def methodAttributeLines (options : Options) (pool : Pool) (m : Member) (a : Attribute) :
    Except Failure (List Line) :=
  match a.body with
  | some (.code code) => if options.code then codeLines options pool m code else .ok []
  | _ => attributesLines options pool [a]

def methodLines (options : Options) (c : ClassFile) (m : Member) : Except Failure (List Line) := do
  let declaration ← methodDeclaration c m
  let attributes ← m.attributes.mapM (methodAttributeLines options c.pool m)
  return headed declaration ([line ("descriptor: " ++ m.descriptor),
    flagsLine m.flags (FlagContext.method.names m.flags)] ++ attributes.flatten)

/-- Blocks of lines with an empty line between any two. -/
def separated : List (List Line) → List Line
  | [] => []
  | [block] => block
  | block :: rest => block ++ line [] :: separated rest

def isShown (options : Options) (m : Member) : Bool :=
  options.privateMembers || !m.has .isPrivate

def memberLines (options : Options) (c : ClassFile) : Except Failure (List Line) := do
  let fields ← (c.fields.filter (isShown options)).mapM (fieldLines options c.pool)
  let methods ← (c.methods.filter (isShown options)).mapM (methodLines options c)
  return line "\x7b" :: separated ((fields ++ methods).map indented) ++ [line "\x7d"]

def sourceLines (c : ClassFile) : List Line :=
  match c.sourceFile? with
  | some file => [line ("Compiled from \"" ++ file ++ "\"")]
  | none => []

def shownPoolLines (options : Options) (pool : Pool) : Except Failure (List Line) :=
  if options.pool then poolLines pool else .ok []

def classLines (options : Options) (c : ClassFile) : Except Failure (List Line) := do
  let declaration ← classDeclaration c
  let header ← headerLines c
  let pool ← shownPoolLines options c.pool
  let members ← memberLines options c
  let attributes ← attributesLines options c.pool c.attributes
  return sourceLines c ++ headed declaration header ++ pool ++ members ++ attributes

end Listing

/-- The listing of a class file as one text. -/
def ClassFile.listing (options : Listing.Options) (c : ClassFile) : Except Failure String :=
  Listing.render <$> Listing.classLines options c

end JavaClass
