import JavaClass.Text.CodePoint

/-! Notes on the progress of reading, for a verbose log. -/

namespace JavaClass

inductive Note where
  | poolRead (count entries : Nat)
  | attributeKept (name : Text) (length : Nat)
  | classRead (name : Text) (major minor interfaces fields methods : Nat)
  | classFound (name place : String)
  deriving DecidableEq, Repr

def Note.line : Note → Text
  | .poolRead count entries =>
    s!"DEBUG pyjavap.constant_pool Read constant pool: count={count}, entries={entries}"
  | .attributeKept name length =>
    "DEBUG pyjavap.attributes Keeping unrecognized attribute " ++ name ++
      s!" ({length} bytes) as raw data"
  | .classRead name major minor interfaces fields methods =>
    "DEBUG pyjavap.classreader Read class " ++ name ++ s!" (version {major}.{minor}): " ++
      s!"{interfaces} interfaces, {fields} fields, {methods} methods"
  | .classFound name place => s!"DEBUG pyjavap.classreader Found {name} in {place}"

end JavaClass
