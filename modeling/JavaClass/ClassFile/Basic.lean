import JavaClass.AccessFlags
import JavaClass.Attribute.Basic
import JavaClass.Descriptor

/-! Class files and their members. -/

namespace JavaClass

/-- A field or a method. -/
structure Member where
  flags : Nat
  nameIndex : Nat
  descriptorIndex : Nat
  name : Text
  descriptor : Text
  attributes : List Attribute

namespace Member

def has (m : Member) (flag : AccessFlag) : Bool := flag.isSet m.flags

/-- The generic signature, if there is one. -/
def signature? (m : Member) : Option Text :=
  match findBody? m.attributes .signature with
  | some (.signature _ text) => some text
  | _ => none

/-- The index of a field's initial value. -/
def constantValue? (m : Member) : Option Nat :=
  match findBody? m.attributes .constantValue with
  | some (.constantValue index) => some index
  | _ => none

/-- The code of a method that is neither abstract nor native. -/
def code? (m : Member) : Option Code :=
  match findBody? m.attributes .code with
  | some (.code code) => some code
  | _ => none

/-- The instructions of a method; none if it has no code. -/
def instructions (m : Member) : List Instruction := (m.code?.map (·.instructions)).getD []

/-- The indices of the exceptions that a method declares. -/
def exceptions (m : Member) : List Nat :=
  match findBody? m.attributes .exceptions with
  | some (.exceptions indices) => indices
  | _ => []

/-- Local variable slots of a method's arguments, its receiver among them. -/
def argumentSlots (m : Member) : Except Failure Nat := do
  let type ← MethodType.parse m.descriptor
  return if m.has .isStatic then type.argumentSlots else type.argumentSlots + 1

end Member

structure ClassFile where
  minorVersion : Nat
  majorVersion : Nat
  pool : Pool
  flags : Nat
  thisClass : Nat
  /-- 0 for the one class that has no superclass. -/
  superClass : Nat
  interfaces : List Nat
  fields : List Member
  methods : List Member
  attributes : List Attribute

namespace ClassFile

/-- The number that a class file starts with. -/
def magic : Nat := 0xCAFEBABE

/-- No class file has an older version. -/
def oldestVersion : Nat := 45

def has (c : ClassFile) (flag : AccessFlag) : Bool := flag.isSet c.flags

def name (c : ClassFile) : Except Failure Text := c.pool.className c.thisClass

def superName? (c : ClassFile) : Except Failure (Option Text) :=
  if c.superClass = 0 then .ok none else some <$> c.pool.className c.superClass

def interfaceNames (c : ClassFile) : Except Failure (List Text) :=
  c.interfaces.mapM fun (index : Nat) => c.pool.className index

def sourceFile? (c : ClassFile) : Option Text :=
  match findBody? c.attributes .sourceFile with
  | some (.sourceFile _ name) => some name
  | _ => none

def signature? (c : ClassFile) : Option Text :=
  match findBody? c.attributes .signature with
  | some (.signature _ text) => some text
  | _ => none

/-- The position of the first method of a name and, if one is given, a descriptor. -/
def findMethod? (c : ClassFile) (name : Text) (descriptor : Option Text) : Option Nat :=
  c.methods.findIdx? fun m => m.name = name && (descriptor.all (m.descriptor = ·))

/-- The position of the first field of a name. -/
def findField? (c : ClassFile) (name : Text) : Option Nat :=
  c.fields.findIdx? (·.name = name)

end ClassFile

end JavaClass
