import JavaClass.Number.Decimal
import JavaClass.Fault

/-!
Floating-point constants as Java writes them: positional from `10 ^ (-4)` and below `10 ^ 16`,
otherwise with an exponent after `E`; at least one digit stands on either side of the point.
-/

namespace JavaClass

namespace Decimal

/-- Significant digits without trailing zeros, and the exponent of the first one. -/
def scientific (d : Decimal) : List Char × Int :=
  let digits := Nat.toDigits 10 d.digits
  let significant := (digits.reverse.dropWhile (· = '0')).reverse
  (if significant.isEmpty then ['0'] else significant, (digits.length : Int) - 1 + d.exponent)

/-- A digit string with a point after its first `count` digits, filled up with zeros. -/
def withPoint (count : Nat) (digits : List Char) : List Char :=
  let whole := digits.take count ++ List.replicate (count - digits.length) '0'
  let rest := digits.drop count
  whole ++ '.' :: (if rest.isEmpty then ['0'] else rest)

def literal (d : Decimal) : String :=
  let (digits, exponent) := d.scientific
  String.ofList <|
    if exponent < -4 || 16 ≤ exponent then
      withPoint 1 digits ++ 'E' :: (toString exponent).toList
    else if exponent < 0 then
      '0' :: '.' :: List.replicate (-exponent - 1).toNat '0' ++ digits
    else withPoint (exponent.toNat + 1) digits

end Decimal

namespace Binary64

def signMark (negative : Bool) : String := if negative then "-" else ""

/-- The shortest decimal that reads back as the magnitude, with the value's sign. -/
def finiteLiteral (negative : Bool) (magnitude : Nat) : String :=
  let decimal := if magnitude = 0 then ⟨0, 0⟩ else Decimal.shortest magnitude
  signMark negative ++ decimal.literal

def doubleLiteral : Binary64 → String
  | .nan => "NaN"
  | .infinite negative => signMark negative ++ "Infinity"
  | .finite negative magnitude => finiteLiteral negative magnitude

/-- The binary64 magnitude that the nearest decimal of `count` digits reads as. -/
def rounded (count magnitude : Nat) : Nat :=
  if magnitude = 0 then 0 else ((Decimal.ofMagnitude count magnitude).read?).getD magnitude

/-- Of the digit counts left to try, the first whose decimal narrows to `target`; every candidate
on the way has to be in the range of binary32. -/
def singleCandidate (magnitude target : Nat) : List Nat → Except Failure Nat
  | [] => .ok magnitude
  | count :: rest =>
    let candidate := rounded count magnitude
    match narrow? candidate with
    | none => .error .floatOverflow
    | some narrowed =>
      if narrowed = target then .ok candidate else singleCandidate magnitude target rest

/-- The value with at most nine digits, few enough that binary32 still tells it apart. -/
def singleLiteral : Binary64 → Except Failure String
  | .finite negative magnitude =>
    match narrow? magnitude with
    | none => .error .floatOverflow
    | some target => do
      let candidate ← singleCandidate magnitude target [1, 2, 3, 4, 5, 6, 7, 8, 9]
      return finiteLiteral negative candidate
  | value => .ok value.doubleLiteral

end Binary64

end JavaClass
