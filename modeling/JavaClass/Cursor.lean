import JavaClass.Fault
import JavaClass.Number.Binary

/-!
Reading big-endian data. A cursor stands in a window of bytes and knows the file offset at which the
window starts, so that faults inside a window still name file offsets. A reader that fails leaves
the cursor where it stopped.
-/

namespace JavaClass

structure Cursor where
  /-- File offset of the window's first byte. -/
  base : Int
  /-- How many bytes of the window have been read. -/
  pos : Nat
  /-- The bytes still to be read. -/
  rest : List UInt8
  deriving DecidableEq, Repr

namespace Cursor

def ofBytes (data : List UInt8) (base : Int) : Cursor := ⟨base, 0, data⟩

/-- File offset of the next byte. -/
def offset (c : Cursor) : Int := c.base + c.pos

def remaining (c : Cursor) : Nat := c.rest.length

def atEnd (c : Cursor) : Bool := c.rest.isEmpty

end Cursor

/-- The unsigned number that bytes spell, most significant byte first. -/
def bigEndian (bytes : List UInt8) : Nat :=
  bytes.foldl (fun n b => 256 * n + b.toNat) 0

/-- The same bits read in two's complement. -/
def twosComplement (bits n : Nat) : Int :=
  (BitVec.ofNat bits n).toInt

/-- The first `n` items and what comes after them, if there are that many. -/
def splitFirst? {α : Type} : Nat → List α → Option (List α × List α)
  | 0, rest => some ([], rest)
  | _ + 1, [] => none
  | n + 1, x :: rest => (splitFirst? n rest).map fun (taken, rest) => (x :: taken, rest)

abbrev Reader := EStateM Failure Cursor

instance : MonadLift (Except Failure) Reader where
  monadLift
    | .ok value => pure value
    | .error failure => throw failure

/-- Runs an action a number of times and collects what it gives. -/
def times {m : Type → Type} [Monad m] {α : Type} (n : Nat) (action : m α) : m (List α) :=
  match n with
  | 0 => pure []
  | n + 1 => do
    let first ← action
    let others ← times n action
    return first :: others

namespace Reader

def offset : Reader Int := return (← get).offset

/-- The next `n` bytes. -/
def bytes (n : Nat) : Reader (List UInt8) := fun c =>
  match splitFirst? n c.rest with
  | some (taken, rest) => .ok taken { c with pos := c.pos + n, rest }
  | none => .error (.atOffset (.truncated n c.remaining) c.offset) c

/-- The next `n` bytes, where `n` may be negative, which no window can satisfy. -/
def bytesOf (n : Int) : Reader (List UInt8) := fun c =>
  if n < 0 then .error (.atOffset (.truncated n c.remaining) c.offset) c else bytes n.toNat c

/-- A cursor over the next `n` bytes alone. -/
def window (n : Int) : Reader Cursor := do
  let base ← offset
  return .ofBytes (← bytesOf n) base

def skip (n : Int) : Reader Unit := do
  let _ ← bytesOf n

def u1 : Reader Nat := return bigEndian (← bytes 1)

def u2 : Reader Nat := return bigEndian (← bytes 2)

def u4 : Reader Nat := return bigEndian (← bytes 4)

def u8 : Reader Nat := return bigEndian (← bytes 8)

def i1 : Reader Int := return twosComplement 8 (← u1)

def i2 : Reader Int := return twosComplement 16 (← u2)

def i4 : Reader Int := return twosComplement 32 (← u4)

def i8 : Reader Int := return twosComplement 64 (← u8)

def f4 : Reader Binary64 := return .ofSingleBits (← u4)

def f8 : Reader Binary64 := return .ofBits (← u8)

end Reader

end JavaClass
