import JavaClass.Text.CodePoint

/-! White space of any script, and the text before trailing white space. -/

namespace JavaClass

def blankRuns : List (Nat × Nat) := [
  (0x9, 0xD), (0x1C, 0x20), (0x85, 0x85), (0xA0, 0xA0), (0x1680, 0x1680), (0x2000, 0x200A),
  (0x2028, 0x2029), (0x202F, 0x202F), (0x205F, 0x205F), (0x3000, 0x3000)]

def CodePoint.isBlank (c : CodePoint) : Bool :=
  blankRuns.any fun run => run.1 ≤ c.value && c.value ≤ run.2

/-- The text without the white space at its end. -/
def Text.trimEnd (text : Text) : Text :=
  (text.reverse.dropWhile CodePoint.isBlank).reverse

end JavaClass
