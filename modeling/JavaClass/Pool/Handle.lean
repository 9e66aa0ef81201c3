import JavaClass.Pool.Kind

/-! What a method handle does with the member it refers to. -/

namespace JavaClass

inductive HandleKind where
  | getField
  | getStatic
  | putField
  | putStatic
  | invokeVirtual
  | invokeStatic
  | invokeSpecial
  | newInvokeSpecial
  | invokeInterface
  deriving DecidableEq, Repr

namespace HandleKind

/-- The kinds in the order of their numbers, which start at 1. -/
def ofNumber? : Int → Option HandleKind
  | 1 => some .getField
  | 2 => some .getStatic
  | 3 => some .putField
  | 4 => some .putStatic
  | 5 => some .invokeVirtual
  | 6 => some .invokeStatic
  | 7 => some .invokeSpecial
  | 8 => some .newInvokeSpecial
  | 9 => some .invokeInterface
  | _ => none

def mnemonic : HandleKind → String
  | .getField => "REF_getField"
  | .getStatic => "REF_getStatic"
  | .putField => "REF_putField"
  | .putStatic => "REF_putStatic"
  | .invokeVirtual => "REF_invokeVirtual"
  | .invokeStatic => "REF_invokeStatic"
  | .invokeSpecial => "REF_invokeSpecial"
  | .newInvokeSpecial => "REF_newInvokeSpecial"
  | .invokeInterface => "REF_invokeInterface"

/-- The kinds of constants that a handle may refer to. -/
def referents : HandleKind → List EntryKind
  | .getField | .getStatic | .putField | .putStatic => [.fieldRef]
  | .invokeVirtual | .newInvokeSpecial => [.methodRef]
  | .invokeStatic | .invokeSpecial => [.methodRef, .interfaceMethodRef]
  | .invokeInterface => [.interfaceMethodRef]

end HandleKind

end JavaClass
