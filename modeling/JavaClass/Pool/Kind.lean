/-!
Kinds of constants. Besides the seventeen kinds a class file can hold there are two general ones:
a member reference of no particular kind, and a constant about which nothing is known.
-/

namespace JavaClass

inductive EntryKind where
  | utf8
  | integer
  | float
  | long
  | double
  | classRef
  | string
  | fieldRef
  | methodRef
  | interfaceMethodRef
  | nameAndType
  | methodHandle
  | methodType
  | dynamic
  | invokeDynamic
  | moduleRef
  | packageRef
  | memberRef
  | unknown
  deriving DecidableEq, Repr

namespace EntryKind

def name : EntryKind → String
  | .utf8 => "Utf8"
  | .integer => "Integer"
  | .float => "Float"
  | .long => "Long"
  | .double => "Double"
  | .classRef => "Class"
  | .string => "String"
  | .fieldRef => "Fieldref"
  | .methodRef => "Methodref"
  | .interfaceMethodRef => "InterfaceMethodref"
  | .nameAndType => "NameAndType"
  | .methodHandle => "MethodHandle"
  | .methodType => "MethodType"
  | .dynamic => "Dynamic"
  | .invokeDynamic => "InvokeDynamic"
  | .moduleRef => "Module"
  | .packageRef => "Package"
  | .memberRef => "Fieldref, Methodref or InterfaceMethodref"
  | .unknown => "Unknown"

/-- The byte that announces the kind; the general kinds have none. -/
def tag : EntryKind → Nat
  | .utf8 => 1
  | .integer => 3
  | .float => 4
  | .long => 5
  | .double => 6
  | .classRef => 7
  | .string => 8
  | .fieldRef => 9
  | .methodRef => 10
  | .interfaceMethodRef => 11
  | .nameAndType => 12
  | .methodHandle => 15
  | .methodType => 16
  | .dynamic => 17
  | .invokeDynamic => 18
  | .moduleRef => 19
  | .packageRef => 20
  | .memberRef | .unknown => 0

/-- Slots an entry of the kind takes up. -/
def width : EntryKind → Nat
  | .long | .double => 2
  | _ => 1

/-- Whether an entry of kind `found` will do where this kind is expected. -/
def accepts (expected found : EntryKind) : Bool :=
  match expected with
  | .unknown => true
  | .memberRef =>
    found = .fieldRef || found = .methodRef || found = .interfaceMethodRef || found = .memberRef
  | _ => expected = found

end EntryKind

end JavaClass
