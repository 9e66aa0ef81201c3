import JavaClass.Text.Hex
import JavaClass.Text.Printable

/-!
Quoted text, for messages: single quotes, or double quotes where the text holds a single quote and
no double one. The quote, the backslash and whatever is not printable are escaped.
-/

namespace JavaClass.Text

def singleQuote : Char := '\x27'

def doubleQuote : Char := '\x22'

/-- Double quotes only where they spare an escape. -/
def quoteMark (text : Text) : Char :=
  if text.contains (CodePoint.ofChar singleQuote) && !text.contains (CodePoint.ofChar doubleQuote)
  then doubleQuote else singleQuote

def quoteCodePoint (mark : Char) (c : CodePoint) : List Char :=
  let escaped (letter : Char) (width : Nat) := '\\' :: letter :: (hex width c.value).toList
  if c.value = mark.toNat then ['\\', mark]
  else match c.value with
  | 0x5C => ['\\', '\\']
  | 0x09 => ['\\', 't']
  | 0x0A => ['\\', 'n']
  | 0x0D => ['\\', 'r']
  | n =>
    if c.isPrintable then [Char.ofNat n]
    else if n ≤ 0xFF then escaped 'x' 2
    else if n ≤ 0xFFFF then escaped 'u' 4
    else escaped 'U' 8

def quoted (text : Text) : String :=
  let mark := text.quoteMark
  String.ofList (mark :: text.flatMap (quoteCodePoint mark) ++ [mark])

end JavaClass.Text
