import JavaClass.Cursor
import JavaClass.Pool.Basic

/-!
Annotations. Their elements have values: constants, enum constants, annotations again, or arrays of
values. Values nest, so reading them is given a budget.
-/

namespace JavaClass

/-- What a constant stands for as an element's value. -/
inductive ElementTag where
  | byte
  | char
  | double
  | float
  | int
  | long
  | short
  | boolean
  | string
  | classType
  deriving DecidableEq, Repr

namespace ElementTag

def letter : ElementTag → Char
  | .byte => 'B'
  | .char => 'C'
  | .double => 'D'
  | .float => 'F'
  | .int => 'I'
  | .long => 'J'
  | .short => 'S'
  | .boolean => 'Z'
  | .string => 's'
  | .classType => 'c'

def all : List ElementTag :=
  [.byte, .char, .double, .float, .int, .long, .short, .boolean, .string, .classType]

def ofByte? (byte : Nat) : Option ElementTag := all.find? (·.letter.toNat = byte)

/-- The kind of constant that holds the value. -/
def kind : ElementTag → EntryKind
  | .byte | .char | .int | .short | .boolean => .integer
  | .long => .long
  | .double => .double
  | .float => .float
  | .string | .classType => .utf8

end ElementTag

/-- An annotation whose elements have values in `Value`. -/
structure AnnotationOf (Value : Type) where
  typeIndex : Nat
  typeName : Text
  elements : List (Text × Value)

/-- The value of an annotation's element. Numbers are pool indices. -/
inductive ElementValue where
  | constant (tag : ElementTag) (index : Nat)
  | enumConstant (type name : Nat)
  | nested (value : AnnotationOf ElementValue)
  | array (values : List ElementValue)

/-- Reads an annotation, given how to read its values. -/
def AnnotationOf.read {Value : Type} (pool : Pool) (value : Reader Value) :
    Reader (AnnotationOf Value) := do
  let typeIndex ← Reader.u2
  let typeName ← pool.utf8 typeIndex
  let count ← Reader.u2
  let elements ← times count do
    let name ← pool.utf8 (← Reader.u2)
    return (name, ← value)
  return { typeIndex, typeName, elements }

namespace ElementValue

def enumByte : Nat := 'e'.toNat

def nestedByte : Nat := '@'.toNat

def arrayByte : Nat := '['.toNat

/-- Reads a value. Each level of nesting takes two off the budget. -/
def read (pool : Pool) (budget : Nat) : Reader ElementValue := do
  let offset ← Reader.offset
  let byte ← Reader.u1
  match ElementTag.ofByte? byte with
  | some tag =>
    let index ← Reader.u2
    discard (pool.expect index [tag.kind])
    return .constant tag index
  | none =>
    if byte = enumByte then
      let type ← Reader.u2
      let name ← Reader.u2
      discard (pool.expect type [.utf8])
      discard (pool.expect name [.utf8])
      return .enumConstant type name
    else if byte = nestedByte then
      match budget with
      | budget + 2 => return .nested (← AnnotationOf.read pool (read pool budget))
      | _ => throw .tooDeep
    else if byte = arrayByte then
      let count ← Reader.u2
      match budget with
      | budget + 2 => return .array (← times count (read pool budget))
      | _ => throw .tooDeep
    else throw (.atOffset (.badElementTag byte) offset)

end ElementValue

end JavaClass
