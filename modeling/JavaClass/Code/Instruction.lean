import JavaClass.Code.Opcode
import JavaClass.Cursor

/-!
Instructions and their decoding. The operands of a switch are aligned to four bytes from the start
of the code, whatever the code's place in the file.
-/

namespace JavaClass

/-- Jumps for the keys `low` to `high`, relative to the instruction. -/
structure TableSwitch where
  fallback : Int
  low : Int
  high : Int
  jumps : List Int
  deriving DecidableEq, Repr

/-- Keys and their jumps, relative to the instruction. -/
structure LookupSwitch where
  fallback : Int
  pairs : List (Int × Int)
  deriving DecidableEq, Repr

def TableSwitch.cases (s : TableSwitch) : List (Int × Int) :=
  s.jumps.zipIdx.map fun (jump, i) => (s.low + i, jump)

inductive Operands where
  | none
  | value (value : Int)
  | slot (slot : Nat)
  | increment (slot : Nat) (amount : Int)
  | constant (index : Nat)
  | jump (distance : Int)
  | interfaceCall (index count : Nat)
  | dynamicCall (index : Nat)
  | arrayType (code : Nat)
  | arrayDimensions (index dimensions : Nat)
  | tableSwitch (table : TableSwitch)
  | lookupSwitch (table : LookupSwitch)
  deriving DecidableEq, Repr

/-- A decoded instruction. With `wide` its length counts the byte in front of the opcode. -/
structure Instruction where
  offset : Nat
  opcode : Nat
  operands : Operands
  length : Nat
  wide : Bool
  deriving DecidableEq, Repr

namespace Instruction

def mnemonic (i : Instruction) : String := (Opcode.mnemonic? i.opcode).getD ""

def layout (i : Instruction) : Layout := Opcode.layout i.opcode

/-- Code offset of the instruction after this one. -/
def stop (i : Instruction) : Nat := i.offset + i.length

/-- The pool index among the operands. -/
def constantIndex? (i : Instruction) : Option Nat :=
  match i.operands with
  | .constant index | .interfaceCall index _ | .dynamicCall index
  | .arrayDimensions index _ => some index
  | _ => none

/-- Code offsets to which the instruction may jump. -/
def targets (i : Instruction) : List Int :=
  match i.operands with
  | .jump distance => [i.offset + distance]
  | .tableSwitch table => (table.fallback :: table.jumps).map (i.offset + ·)
  | .lookupSwitch table => (table.fallback :: table.pairs.map Prod.snd).map (i.offset + ·)
  | _ => []

/-- Bytes between the opcode of a switch at `pc` and the next multiple of four. -/
def padding (pc : Nat) : Nat := (4 - (pc + 1) % 4) % 4

def readTableSwitch (pc : Nat) : Reader TableSwitch := do
  Reader.skip (padding pc)
  let fallback ← Reader.i4
  let low ← Reader.i4
  let high ← Reader.i4
  if high < low then
    throw (.atOffset (.badTableBounds pc high low) (← Reader.offset))
  let jumps ← times (high - low + 1).toNat Reader.i4
  return { fallback, low, high, jumps }

def readLookupSwitch (pc : Nat) : Reader LookupSwitch := do
  Reader.skip (padding pc)
  let fallback ← Reader.i4
  let count ← Reader.i4
  if count < 0 then
    throw (.atOffset (.badPairCount pc count) (← Reader.offset))
  let pairs ← times count.toNat (return (← Reader.i4, ← Reader.i4))
  return { fallback, pairs }

def readOperands (layout : Layout) (pc : Nat) (wide : Bool) : Reader Operands :=
  match layout with
  | .none => return .none
  | .byte => return .value (← Reader.i1)
  | .short => return .value (← Reader.i2)
  | .slot => return .slot (← if wide then Reader.u2 else Reader.u1)
  | .increment =>
    if wide then return .increment (← Reader.u2) (← Reader.i2)
    else return .increment (← Reader.u1) (← Reader.i1)
  | .shortConstant => return .constant (← Reader.u1)
  | .constant => return .constant (← Reader.u2)
  | .branch => return .jump (← Reader.i2)
  | .farBranch => return .jump (← Reader.i4)
  | .interfaceCall => do
    let index ← Reader.u2
    let count ← Reader.u1
    Reader.skip 1
    return .interfaceCall index count
  | .dynamicCall => do
    let index ← Reader.u2
    Reader.skip 2
    return .dynamicCall index
  | .arrayType => return .arrayType (← Reader.u1)
  | .arrayDimensions => return .arrayDimensions (← Reader.u2) (← Reader.u1)
  | .tableSwitch => return .tableSwitch (← readTableSwitch pc)
  | .lookupSwitch => return .lookupSwitch (← readLookupSwitch pc)
  | .wide => do throw (.atOffset (.unexpectedLayout "WIDE" pc) (← Reader.offset))

/-- Reads the opcode that `pc` names in faults, with its mnemonic. -/
def readOpcode (pc : Nat) : Reader (Nat × String) := do
  let offset ← Reader.offset
  let opcode ← Reader.u1
  match Opcode.mnemonic? opcode with
  | some mnemonic => return (opcode, mnemonic)
  | none => throw (.atOffset (.badOpcode opcode pc) offset)

/-- Reads an opcode and, after `wide`, the opcode that it widens. -/
def readOpcodes (pc : Nat) : Reader (Nat × Bool) := do
  let (opcode, _) ← readOpcode pc
  if Opcode.layout opcode ≠ .wide then
    return (opcode, false)
  let offset ← Reader.offset
  let (opcode, mnemonic) ← readOpcode (pc + 1)
  if Opcode.layout opcode ≠ .slot ∧ Opcode.layout opcode ≠ .increment then
    throw (.atOffset (.notWidened mnemonic pc) offset)
  return (opcode, true)

/-- Reads the instruction at the cursor, whose window is the code. -/
def read : Reader Instruction := do
  let offset := (← get).pos
  let (opcode, wide) ← readOpcodes offset
  let operands ← readOperands (Opcode.layout opcode) offset wide
  return { offset, opcode, operands, length := (← get).pos - offset, wide }

end Instruction

/-- What decoding a piece of code gives: instructions, and the failure that ended it early. -/
structure Disassembly where
  instructions : List Instruction
  failure : Option Failure
  deriving DecidableEq, Repr

namespace Disassembly

/-- Decodes up to `count` instructions. -/
def decode : Nat → Cursor → Disassembly
  | 0, _ => ⟨[], none⟩
  | count + 1, c =>
    if c.atEnd then ⟨[], none⟩
    else match Instruction.read c with
      | .ok instruction c =>
        let others := decode count c
        ⟨instruction :: others.instructions, others.failure⟩
      | .error failure _ => ⟨[], some failure⟩

/-- Decodes all of the code, which starts at file offset `base`. Every instruction has at least one
byte, so there are no more of them than bytes. -/
def ofCode (code : List UInt8) (base : Int) : Disassembly :=
  decode code.length (.ofBytes code base)

end Disassembly

/-- The instructions of code that can be decoded to its end. -/
def disassemble (code : List UInt8) (base : Int) : Except Failure (List Instruction) :=
  let all := Disassembly.ofCode code base
  match all.failure with
  | none => .ok all.instructions
  | some failure => .error failure

end JavaClass
