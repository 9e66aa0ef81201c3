import JavaClass.Text.Blank
import JavaClass.Text.DecimalDigit

/-!
Integers as arguments: decimal digits of any script, with single underscores between them if need
be, a sign in front and white space around.
-/

namespace JavaClass

/-- White space that may stand around an integer; the separator characters of ASCII may not. -/
def isMargin (c : Char) : Bool :=
  (CodePoint.ofChar c).isBlank && !(0x1C ≤ c.toNat && c.toNat ≤ 0x1F)

def trimMargin (chars : List Char) : List Char :=
  ((chars.dropWhile isMargin).reverse.dropWhile isMargin).reverse

/-- The digits of a number, in which each underscore stands between two digits. -/
def readDigits? : List Char → Option (List Nat)
  | [] => none
  | [c] => (digitValue? c).map ([·])
  | c :: '_' :: rest => do
    let digit ← digitValue? c
    return digit :: (← readDigits? rest)
  | c :: rest => do
    let digit ← digitValue? c
    return digit :: (← readDigits? rest)

/-- Longer numbers are refused. -/
def digitLimit : Nat := 4300

def readNatural? (chars : List Char) : Option Nat := do
  let digits ← readDigits? chars
  guard (digits.length ≤ digitLimit)
  return digits.foldl (fun n d => 10 * n + d) 0

def readInteger? (text : String) : Option Int :=
  match trimMargin text.toList with
  | '-' :: rest => (readNatural? rest).map fun n => -(n : Int)
  | '+' :: rest => (readNatural? rest).map fun n => (n : Int)
  | chars => (readNatural? chars).map fun n => (n : Int)

/-- Whether a word looks like a negative number, with or without a decimal point. A line break at
its end is ignored. -/
def isNegativeNumber (word : String) : Bool :=
  match word.toList with
  | '-' :: rest =>
    let body := if rest.getLast? = some '\n' then rest.dropLast else rest
    let isDigit (c : Char) : Bool := (digitValue? c).isSome
    match body.dropWhile isDigit with
    | [] => !body.isEmpty
    | '.' :: fraction => !fraction.isEmpty && fraction.all isDigit
    | _ => false
  | _ => false

end JavaClass
