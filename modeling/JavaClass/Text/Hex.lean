import JavaClass.Text.CodePoint

/-! Hexadecimal digits and column alignment. Widths count code points. -/

namespace JavaClass

/-- At least `width` lower-case hexadecimal digits. -/
def hex (width n : Nat) : String :=
  let digits := Nat.toDigits 16 n
  String.ofList (List.replicate (width - digits.length) '0' ++ digits)

namespace Text

def blanks (n : Nat) : Text := List.replicate n (CodePoint.ofChar ' ')

def padLeft (width : Nat) (text : Text) : Text := blanks (width - text.length) ++ text

def padRight (width : Nat) (text : Text) : Text := text ++ blanks (width - text.length)

end Text

end JavaClass
