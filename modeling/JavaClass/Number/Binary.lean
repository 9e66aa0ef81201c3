/-!
Binary floating point in exact arithmetic. The finite magnitudes of a format are numbered from zero
upwards, which is how the bits of the format without the sign bit number them. A magnitude is
measured in the format's least positive one, so that no negative exponent occurs.
-/

namespace JavaClass

/-- The integer nearest to `num / den`; a half goes to the even neighbour. -/
def roundHalfEven (num den : Nat) : Nat :=
  let floor := num / den
  let twice := 2 * (num % den)
  if twice < den then floor
  else if den < twice then floor + 1
  else floor + floor % 2

structure BinaryFormat where
  /-- Bits of the significand. -/
  precision : Nat
  /-- The least positive magnitude is `2 ^ (-unit)`. -/
  unit : Nat
  /-- How many finite magnitudes there are; the number after the last stands for infinity. -/
  size : Nat
  deriving DecidableEq, Repr

namespace BinaryFormat

def single : BinaryFormat := ⟨24, 149, 255 <<< 23⟩

def double : BinaryFormat := ⟨53, 1074, 2047 <<< 52⟩

/-- The magnitude with number `n`, measured in least magnitudes. -/
def units (f : BinaryFormat) (n : Nat) : Nat :=
  let hidden := 1 <<< (f.precision - 1)
  if n < hidden then n else (n % hidden + hidden) <<< (n / hidden - 1)

/-- The number of the magnitude nearest to `num / den` least magnitudes, ties to even, if it is
finite. The spacing doubles with each power of two past the first `precision` bits. -/
def nearest? (f : BinaryFormat) (num den : Nat) : Option Nat :=
  let scale := Nat.log2 (num / den) + 1 - f.precision
  let n := (scale <<< (f.precision - 1)) + roundHalfEven num (den <<< scale)
  if n < f.size then some n else none

end BinaryFormat

/-- A binary64 value. Its bits tell NaNs apart, but nothing here does. -/
inductive Binary64 where
  | nan
  | infinite (negative : Bool)
  | finite (negative : Bool) (magnitude : Nat)
  deriving DecidableEq, Repr

namespace Binary64

def ofBits (bits : Nat) : Binary64 :=
  let negative := bits.testBit 63
  let magnitude := bits % (1 <<< 63)
  if magnitude < BinaryFormat.double.size then .finite negative magnitude
  else if magnitude = BinaryFormat.double.size then .infinite negative
  else .nan

/-- The bits, unless the value is a NaN. -/
def toBits? : Binary64 → Option Nat
  | .nan => none
  | .infinite negative => some ((negative.toNat <<< 63) + BinaryFormat.double.size)
  | .finite negative magnitude => some ((negative.toNat <<< 63) + magnitude)

/-- Least binary64 magnitudes in the least binary32 one. -/
def singleUnit : Nat := 1 <<< (BinaryFormat.double.unit - BinaryFormat.single.unit)

/-- The binary64 value equal to the binary32 value with these bits. -/
def ofSingleBits (bits : Nat) : Binary64 :=
  let negative := bits.testBit 31
  let magnitude := bits % (1 <<< 31)
  if magnitude < BinaryFormat.single.size then
    match BinaryFormat.double.nearest? (BinaryFormat.single.units magnitude * singleUnit) 1 with
    | some widened => .finite negative widened
    | none => .infinite negative
  else if magnitude = BinaryFormat.single.size then .infinite negative
  else .nan

/-- The binary32 magnitude nearest to a finite binary64 one, unless it is past the last. Its
scaling by powers of two past `2 ^ 900` is not for the elaborator to open. -/
@[irreducible] def narrow? (magnitude : Nat) : Option Nat :=
  BinaryFormat.single.nearest? (BinaryFormat.double.units magnitude) singleUnit

/-- Numerical equality: no NaN equals anything, and both zeros are equal. -/
def numEq : Binary64 → Binary64 → Bool
  | .nan, _ | _, .nan => false
  | .finite _ 0, .finite _ 0 => true
  | x, y => x = y

end Binary64

end JavaClass
