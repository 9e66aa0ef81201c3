/-!
Text as class files hold it: a sequence of code points, among which surrogates may stand alone.
`String` cannot carry those, so names and string constants are `Text` until they are displayed.
-/

namespace JavaClass

/-- A Unicode code point, surrogates included. -/
structure CodePoint where
  value : Nat
  valid : value < 0x110000
  deriving DecidableEq, Repr

namespace CodePoint

def ofChar (c : Char) : CodePoint :=
  ⟨c.toNat, by
    have h := c.valid
    change Nat.isValidChar c.toNat at h
    unfold Nat.isValidChar at h
    omega⟩

/-- The code point of a number, or U+FFFD for a number past the last one. -/
def ofNat (n : Nat) : CodePoint :=
  if h : n < 0x110000 then ⟨n, h⟩ else ⟨0xFFFD, by decide⟩

/-- Stands for bytes that encode nothing. -/
def replacement : CodePoint := ⟨0xFFFD, by decide⟩

def isHighSurrogate (c : CodePoint) : Bool := 0xD800 ≤ c.value && c.value ≤ 0xDBFF

def isLowSurrogate (c : CodePoint) : Bool := 0xDC00 ≤ c.value && c.value ≤ 0xDFFF

def isSurrogate (c : CodePoint) : Bool := 0xD800 ≤ c.value && c.value ≤ 0xDFFF

/-- The scalar value with this number; a surrogate has none. -/
def toChar? (c : CodePoint) : Option Char :=
  if c.isSurrogate then none else some (Char.ofNat c.value)

end CodePoint

abbrev Text := List CodePoint

namespace Text

def ofString (s : String) : Text := s.toList.map CodePoint.ofChar

instance : Coe String Text := ⟨ofString⟩

/-- The same text as a `String`, if no surrogate is in it. -/
def toString? (text : Text) : Option String :=
  (text.mapM CodePoint.toChar?).map String.ofList

def joinWith (separator : Text) : List Text → Text
  | [] => []
  | [text] => text
  | text :: rest => text ++ separator ++ joinWith separator rest

def replace (old new : CodePoint) (text : Text) : Text :=
  text.map fun c => if c = old then new else c

end Text

end JavaClass
