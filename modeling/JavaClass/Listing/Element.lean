import JavaClass.Attribute.Element
import JavaClass.Descriptor
import JavaClass.Pool.Describe

/-! Annotations in a listing, each on one line. -/

namespace JavaClass

/-- The integer constant at an index. -/
def Pool.integer (p : Pool) (index : Int) : Except Failure Int := do
  match ← p.get index with
  | .integer value => return value
  | entry => .error (.of (.wrongKind index [.integer] entry.kind))

namespace Listing

/-- A type as source code spells it; a text that is no field descriptor stays as it is. -/
def javaType (descriptor : Text) : Except Failure Text :=
  if descriptor = Text.ofString "V" then .ok "void"
  else match FieldType.parse descriptor with
    | .ok type => .ok type.javaName
    | .error .tooDeep => .error .tooDeep
    | .error _ => .ok descriptor

/-- An annotation's text, given how to write its values. -/
def annotationTextWith (valueText : ElementValue → Except Failure Text)
    (a : AnnotationOf ElementValue) : Except Failure Text := do
  let type ← javaType a.typeName
  if a.elements.isEmpty then
    return type
  let values ← a.elements.mapM fun (name, value) => return name ++ "=" ++ (← valueText value)
  return type ++ "(" ++ Text.joinWith ", " values ++ ")"

/-- A character constant, unless the number is none of Unicode's. -/
def characterText (number : Int) : Text :=
  if 0 ≤ number ∧ number ≤ 0x10FFFF then
    "'" ++ Text.escape [CodePoint.ofNat number.toNat] ++ "'"
  else toString number

def constantText (pool : Pool) (tag : ElementTag) (index : Nat) : Except Failure Text := do
  match tag with
  | .string => return "\"" ++ (← pool.utf8 index).escape ++ "\""
  | .boolean => return if (← pool.integer index) = 0 then "false" else "true"
  | .char => return characterText (← pool.integer index)
  | .classType => return (← javaType (← pool.utf8 index)) ++ ".class"
  | .byte | .double | .float | .int | .long | .short => pool.describe index

/-- The text of a value. An annotation in it takes four off the budget, an array three. -/
def valueText (pool : Pool) (budget : Nat) (value : ElementValue) : Except Failure Text :=
  match value with
  | .constant tag index => constantText pool tag index
  | .enumConstant type name => return (← javaType (← pool.utf8 type)) ++ "." ++ (← pool.utf8 name)
  | .nested inner =>
    match budget with
    | budget + 4 => return "@" ++ (← annotationTextWith (valueText pool budget) inner)
    | _ => .error .tooDeep
  | .array values =>
    match budget with
    | budget + 3 => return "[" ++ Text.joinWith "," (← values.mapM (valueText pool budget)) ++ "]"
    | _ => .error .tooDeep

/-- Annotations that nest past this are cut short. -/
def nestingBudget : Nat := 990

/-- An annotation that nests too deeply is shown by its type alone. -/
def annotationText (pool : Pool) (a : AnnotationOf ElementValue) : Except Failure Text :=
  match annotationTextWith (valueText pool nestingBudget) a with
  | .error .tooDeep => return (← javaType a.typeName) ++ "(...)"
  | result => result

end Listing

end JavaClass
