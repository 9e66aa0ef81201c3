import JavaClass.Text.Hex
import JavaClass.Text.Printable

/-!
Escaped text: a string constant is shown with its control characters and all else that is not
printable written as escapes. A backslash of the text itself stays as it is.
-/

namespace JavaClass

/-- The four-digit escape of a code unit. -/
def unitEscape (unit : Nat) : Text := "\\u" ++ hex 4 unit

namespace CodePoint

/-- A supplementary code point that is not printable is escaped as its two surrogates. -/
def escape (c : CodePoint) : Text :=
  match c.value with
  | 0x0A => "\\n"
  | 0x0D => "\\r"
  | 0x09 => "\\t"
  | 0x08 => "\\b"
  | 0x0C => "\\f"
  | n =>
    if c.isPrintable then [c]
    else if 0xFFFF < n then
      unitEscape (0xD800 + (n - 0x10000) / 0x400) ++ unitEscape (0xDC00 + (n - 0x10000) % 0x400)
    else unitEscape n

end CodePoint

namespace Text

def escape (text : Text) : Text := text.flatMap CodePoint.escape

/-- The text as a `String`, each surrogate in it written as its escape. -/
def display (text : Text) : String :=
  String.ofList (text.flatMap fun c =>
    match c.toChar? with
    | some char => [char]
    | none => '\\' :: 'u' :: (hex 4 c.value).toList)

end Text

end JavaClass
