import JavaClass.Number.Binary

/-!
Decimals of binary64 magnitudes: the nearest one with a given number of digits, and the shortest
one that reads back. A magnitude is given by its number, as in `BinaryFormat.double`.
-/

namespace JavaClass

/-- The value `digits * 10 ^ exponent`. -/
structure Decimal where
  digits : Nat
  exponent : Int
  deriving DecidableEq, Repr

namespace Decimal

/-- The decimal in least binary64 magnitudes, as a fraction. -/
def fraction (d : Decimal) : Nat × Nat :=
  ((d.digits * Nat.pow 10 d.exponent.toNat) <<< BinaryFormat.double.unit,
    Nat.pow 10 (-d.exponent).toNat)

/-- The number of the binary64 magnitude nearest to the decimal, if it is finite. -/
def read? (d : Decimal) : Option Nat :=
  let (num, den) := d.fraction
  BinaryFormat.double.nearest? num den

/-- The exponent of the leading decimal digit of a positive magnitude. No binary64 value but zero
is below `10 ^ (-324)`. -/
def leadingExponent (magnitude : Nat) : Int :=
  let scaled := (BinaryFormat.double.units magnitude * Nat.pow 10 324) >>> BinaryFormat.double.unit
  ((Nat.toDigits 10 scaled).length : Int) - 1 - 324

/-- The magnitude as a multiple of `10 ^ exponent`, as a fraction. -/
def steps (magnitude : Nat) (exponent : Int) : Nat × Nat :=
  (BinaryFormat.double.units magnitude * Nat.pow 10 (-exponent).toNat,
    Nat.pow 10 exponent.toNat <<< BinaryFormat.double.unit)

/-- The decimal of `count` significant digits nearest to the magnitude, ties to even. -/
def ofMagnitude (count magnitude : Nat) : Decimal :=
  let exponent := leadingExponent magnitude + 1 - count
  let (num, den) := steps magnitude exponent
  ⟨roundHalfEven num den, exponent⟩

/-- The magnitude's neighbours among the decimals of `count` significant digits, the nearer one
first. -/
def neighbours (count magnitude : Nat) : List Decimal :=
  let exponent := leadingExponent magnitude + 1 - count
  let (num, den) := steps magnitude exponent
  let below := num / den
  if roundHalfEven num den = below then [⟨below, exponent⟩, ⟨below + 1, exponent⟩]
  else [⟨below + 1, exponent⟩, ⟨below, exponent⟩]

/-- The magnitude itself. -/
def exact (magnitude : Nat) : Decimal :=
  ⟨BinaryFormat.double.units magnitude * Nat.pow 5 BinaryFormat.double.unit,
    -BinaryFormat.double.unit⟩

/-- The decimal with the fewest digits that reads back as the magnitude, and of those the nearest.
Seventeen digits suffice for every magnitude. -/
def shortest (magnitude : Nat) : Decimal :=
  let candidates := (List.range 17).flatMap fun k => neighbours (k + 1) magnitude
  (candidates.find? fun d => d.read? = some magnitude).getD (exact magnitude)

end Decimal

end JavaClass
