import JavaClass.Fault

/-!
Descriptors of fields and methods. A field descriptor is a base type letter, a class name between
`L` and `;`, or `[` before a field descriptor; a method descriptor is a parenthesised list of
parameter descriptors and then a return type, which may be `V`. A class name with its `L` and its
`;` is a single token, and anything but `;` may stand in it.

The readers below follow these rules one by one. A parser that is generated from the rules is taken
to do the same: to accept the texts that they derive and no others, and to give the type of the
derivation.
-/

namespace JavaClass

inductive BaseType where
  | byte
  | char
  | double
  | float
  | int
  | long
  | short
  | boolean
  deriving DecidableEq, Repr

namespace BaseType

def letter : BaseType → Char
  | .byte => 'B'
  | .char => 'C'
  | .double => 'D'
  | .float => 'F'
  | .int => 'I'
  | .long => 'J'
  | .short => 'S'
  | .boolean => 'Z'

def javaName : BaseType → String
  | .byte => "byte"
  | .char => "char"
  | .double => "double"
  | .float => "float"
  | .int => "int"
  | .long => "long"
  | .short => "short"
  | .boolean => "boolean"

def all : List BaseType := [.byte, .char, .double, .float, .int, .long, .short, .boolean]

def ofLetter? (c : CodePoint) : Option BaseType := all.find? fun b => CodePoint.ofChar b.letter = c

end BaseType

/-- Class names are written with dots in source code. -/
def dotted (name : Text) : Text :=
  name.replace (CodePoint.ofChar '/') (CodePoint.ofChar '.')

inductive FieldType where
  | base (type : BaseType)
  | object (className : Text)
  | array (component : FieldType)
  deriving DecidableEq, Repr

namespace FieldType

def descriptor : FieldType → Text
  | .base type => [CodePoint.ofChar type.letter]
  | .object className => "L" ++ className ++ ";"
  | .array component => "[" ++ component.descriptor

def javaName : FieldType → Text
  | .base type => type.javaName
  | .object className => dotted className
  | .array component => component.javaName ++ "[]"

/-- Local variable slots that a value takes up. -/
def slots : FieldType → Nat
  | .base .long | .base .double => 2
  | _ => 1

def dimensions : FieldType → Nat
  | .array component => component.dimensions + 1
  | _ => 0

/-- The type under all dimensions of an array. -/
def element : FieldType → FieldType
  | .array component => component.element
  | type => type

/-- Reads a field type off the front of a text. -/
def read? : Text → Option (FieldType × Text)
  | [] => none
  | c :: rest =>
    if c = CodePoint.ofChar '[' then
      (read? rest).map fun (component, rest) => (.array component, rest)
    else if c = CodePoint.ofChar 'L' then
      let className := rest.takeWhile (· ≠ CodePoint.ofChar ';')
      match rest.drop className.length with
      | _ :: rest => if className.isEmpty then none else some (.object className, rest)
      | [] => none
    else (BaseType.ofLetter? c).map fun type => (.base type, rest)

theorem length_of_read? {text rest : Text} {type : FieldType} (h : read? text = some (type, rest)) :
    rest.length < text.length := by
  induction text generalizing type with
  | nil => simp [read?] at h
  | cons c tail ih =>
    unfold read? at h
    split at h
    · obtain ⟨⟨component, remaining⟩, found, same⟩ := Option.map_eq_some_iff.1 h
      have shorter := ih (by rw [found, (Prod.mk.inj same).2])
      simp only [List.length_cons]
      omega
    · split at h
      · simp only at h
        split at h
        · next dropped =>
          split at h
          · simp at h
          · have lengths := congrArg List.length dropped
            simp only [Option.some.injEq, Prod.mk.injEq] at h
            simp only [List.length_drop, List.length_cons] at lengths
            simp only [List.length_cons, ← h.2]
            omega
        · simp at h
      · obtain ⟨found, _, same⟩ := Option.map_eq_some_iff.1 h
        simp [← (Prod.mk.inj same).2]

/-- Deeper array types are given up on. -/
def depthLimit : Nat := 490

/-- The type that a whole text describes. -/
def parse? (text : Text) : Option FieldType :=
  match read? text with
  | some (type, []) => some type
  | _ => none

def parse (text : Text) : Except Failure FieldType :=
  match parse? text with
  | none => .error (.of (.badDescriptor .field text))
  | some type => if depthLimit < type.dimensions then .error .tooDeep else .ok type

end FieldType

/-- The types of a method; no result type stands for `void`. -/
structure MethodType where
  parameters : List FieldType
  result : Option FieldType
  deriving DecidableEq, Repr

namespace MethodType

def resultDescriptor (result : Option FieldType) : Text :=
  match result with
  | some type => type.descriptor
  | none => "V"

def resultName (result : Option FieldType) : Text :=
  match result with
  | some type => type.javaName
  | none => "void"

def descriptor (type : MethodType) : Text :=
  "(" ++ type.parameters.flatMap FieldType.descriptor ++ ")" ++ resultDescriptor type.result

def argumentSlots (type : MethodType) : Nat :=
  (type.parameters.map FieldType.slots).foldr (· + ·) 0

def parameterNames (type : MethodType) : List Text := type.parameters.map FieldType.javaName

def dimensions (type : MethodType) : Nat :=
  let resultDimensions := (type.result.map FieldType.dimensions).getD 0
  (type.parameters.map FieldType.dimensions).foldl max resultDimensions

/-- Reads parameter types up to the closing parenthesis. -/
def readParameters? (text : Text) : Option (List FieldType × Text) :=
  match text with
  | [] => none
  | c :: rest =>
    if c = CodePoint.ofChar ')' then some ([], rest)
    else match read : FieldType.read? (c :: rest) with
      | none => none
      | some (type, others) =>
        have := FieldType.length_of_read? read
        (readParameters? others).map fun (types, rest) => (type :: types, rest)
termination_by text.length
decreasing_by assumption

def parseResult? (text : Text) : Option (Option FieldType) :=
  if text = Text.ofString "V" then some none else (FieldType.parse? text).map some

/-- The method type that a whole text describes. -/
def parse? : Text → Option MethodType
  | [] => none
  | c :: rest => do
    guard (c = CodePoint.ofChar '(')
    let (parameters, rest) ← readParameters? rest
    let result ← parseResult? rest
    return ⟨parameters, result⟩

def parse (text : Text) : Except Failure MethodType :=
  match parse? text with
  | none => .error (.of (.badDescriptor .method text))
  | some type => if FieldType.depthLimit < type.dimensions then .error .tooDeep else .ok type

end MethodType

end JavaClass
