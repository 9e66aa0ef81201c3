import JavaClass.Number.Binary
import JavaClass.Pool.Kind
import JavaClass.Text.CodePoint

/-! Constants of a class file, and what they refer to. -/

namespace JavaClass

/-- The kinds of member references share one shape. `general` is of no particular kind. -/
inductive MemberKind where
  | field
  | method
  | interfaceMethod
  | general
  deriving DecidableEq, Repr

/-- A constant. Numbers in it that name other constants are pool indices. -/
inductive Entry where
  | utf8 (value : Text)
  | integer (value : Int)
  | float (value : Binary64)
  | long (value : Int)
  | double (value : Binary64)
  | classRef (name : Int)
  | string (value : Int)
  | memberRef (kind : MemberKind) (owner nameAndType : Int)
  | nameAndType (name descriptor : Int)
  | methodHandle (kind reference : Int)
  | methodType (descriptor : Int)
  | dynamic (bootstrap nameAndType : Int)
  | invokeDynamic (bootstrap nameAndType : Int)
  | moduleRef (name : Int)
  | packageRef (name : Int)
  | unknown
  deriving DecidableEq, Repr

namespace Entry

def kind : Entry → EntryKind
  | .utf8 _ => .utf8
  | .integer _ => .integer
  | .float _ => .float
  | .long _ => .long
  | .double _ => .double
  | .classRef _ => .classRef
  | .string _ => .string
  | .memberRef .field .. => .fieldRef
  | .memberRef .method .. => .methodRef
  | .memberRef .interfaceMethod .. => .interfaceMethodRef
  | .memberRef .general .. => .memberRef
  | .nameAndType .. => .nameAndType
  | .methodHandle .. => .methodHandle
  | .methodType _ => .methodType
  | .dynamic .. => .dynamic
  | .invokeDynamic .. => .invokeDynamic
  | .moduleRef _ => .moduleRef
  | .packageRef _ => .packageRef
  | .unknown => .unknown

def width (e : Entry) : Nat := e.kind.width

/-- Equality of constants, where floating-point values are compared as numbers. -/
def numEq : Entry → Entry → Bool
  | .float x, .float y | .double x, .double y => x.numEq y
  | x, y => x = y

end Entry

end JavaClass
