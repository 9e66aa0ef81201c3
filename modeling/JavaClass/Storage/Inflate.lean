/-!
Deflated data: blocks of literal bytes and of references back to what has come out before, in
prefix codes that a block may bring along. Bytes are read from their least significant bit on.
-/

namespace JavaClass.Inflate

/-- Why data cannot be inflated. -/
inductive Flaw where
  | blockType
  | storedLength
  | symbolCount
  | lengthCode
  | lengthRepeat
  | noBlockEnd
  | literalCode
  | distanceCode
  | literal
  | distance
  | tooFarBack
  deriving DecidableEq, Repr

def Flaw.message : Flaw → String
  | .blockType => "invalid block type"
  | .storedLength => "invalid stored block lengths"
  | .symbolCount => "too many length or distance symbols"
  | .lengthCode => "invalid code lengths set"
  | .lengthRepeat => "invalid bit length repeat"
  | .noBlockEnd => "invalid code -- missing end-of-block"
  | .literalCode => "invalid literal/lengths set"
  | .distanceCode => "invalid distances set"
  | .literal => "invalid literal/length code"
  | .distance => "invalid distance code"
  | .tooFarBack => "invalid distance too far back"

/-- What stops the inflating before its end. -/
inductive Stop where
  | exhausted
  | flawed (flaw : Flaw)
  deriving DecidableEq, Repr

structure State where
  /-- What is left of the byte that is being read. -/
  bits : List Bool
  rest : List UInt8
  out : Array UInt8

abbrev Inflater := EStateM Stop State

def flawed {α : Type} (flaw : Flaw) : Inflater α := throw (.flawed flaw)

def bit : Inflater Bool := fun s =>
  match s.bits, s.rest with
  | b :: bits, _ => .ok b { s with bits }
  | [], [] => .error .exhausted s
  | [], byte :: rest =>
    let bits := (List.range 7).map fun i => byte.toNat.testBit (i + 1)
    .ok (byte.toNat.testBit 0) { s with bits, rest }

/-- A number of so many bits, least significant bit first. -/
def number : (width : Nat) → Inflater Nat
  | 0 => return 0
  | width + 1 => do
    let low ← bit
    return low.toNat + 2 * (← number width)

/-- A prefix code in which the codes of one length are consecutive numbers, in the order of their
symbols, and a longer code is greater than any shorter one. -/
structure Code where
  /-- How many codes there are of each length, from one bit on. -/
  counts : List Nat
  symbols : Array Nat

namespace Code

/-- The code in which each symbol has the length that the list gives for it, or no code if that is
zero. -/
def ofLengths (lengths : List Nat) : Code :=
  let longest := lengths.foldl max 0
  let ofLength (length : Nat) : List Nat :=
    lengths.zipIdx.filterMap fun (l, symbol) => if l = length then some symbol else none
  let symbols := (List.range longest).map fun i => ofLength (i + 1)
  ⟨if longest = 0 then [0] else symbols.map List.length, symbols.flatten.toArray⟩

/-- How many codes of the greatest length are left over, unless there are more codes than fit. -/
def spare? (code : Code) : Option Nat :=
  let step (left count : Nat) : Option Nat :=
    if 2 * left < count then none else some (2 * left - count)
  code.counts.foldlM step 1

/-- A code without symbols is let pass, since it is no flaw until it is used. -/
def isFull (code : Code) : Bool := code.symbols.isEmpty || code.spare? = some 0

/-- The only code with something to spare that is let pass has one symbol of one bit. -/
def isUsable (code : Code) : Bool :=
  code.isFull || (code.counts.length = 1 && code.spare?.isSome)

/-- Goes on reading a code that starts with the bits of `front` and has one of the lengths that
`counts` is about. The first code of the least of them is `first`, and `place` is the place of its
symbol. -/
def readPlace (counts : List Nat) (front first place : Nat) : Inflater (Option Nat) :=
  match counts with
  | [] => return none
  | count :: counts => do
    let value := 2 * front + (← bit).toNat
    if value < first + count then
      return some (place + (value - first))
    readPlace counts value (2 * (first + count)) (place + count)

/-- Reads a code, which may stand for no symbol. -/
def read? (code : Code) : Inflater (Option Nat) := do
  return (← readPlace code.counts 0 0 0).bind (code.symbols[·]?)

end Code

/-- The order in which a block gives the lengths of the codes for lengths. -/
def lengthOrder : List Nat := [16, 17, 18, 0, 8, 7, 9, 6, 10, 5, 11, 4, 12, 3, 13, 2, 14, 1, 15]

/-- How often a symbol above 15 repeats a length. -/
def readRepeat (symbol : Nat) : Inflater Nat :=
  match symbol with
  | 16 => return 3 + (← number 2)
  | 17 => return 3 + (← number 3)
  | _ => return 11 + (← number 7)

/-- Reads the lengths of codes until there are `total` of them, in at most `count` steps. Symbol 16
stands for the length before it, the others above 15 for zero. -/
def readLengths (code : Code) (total : Nat) :
    (count : Nat) → (lengths : Array Nat) → Inflater (List Nat)
  | 0, lengths => return lengths.toList
  | count + 1, lengths => do
    if total ≤ lengths.size then
      return lengths.toList
    let symbol := (← code.read?).getD 0
    if symbol < 16 then
      readLengths code total count (lengths.push symbol)
    else
      let times ← readRepeat symbol
      if (symbol = 16 && lengths.isEmpty) || total < lengths.size + times then
        flawed .lengthRepeat
      let length := if symbol = 16 then lengths.back?.getD 0 else 0
      readLengths code total count (lengths ++ Array.replicate times length)

/-- The codes of a block: for literals and lengths, and for distances. -/
structure Codes where
  literals : Code
  distances : Code

def fixedCodes : Codes where
  literals := .ofLengths (List.replicate 144 8 ++ List.replicate 112 9 ++ List.replicate 24 7 ++
    List.replicate 8 8)
  distances := .ofLengths (List.replicate 32 5)

/-- Reads the codes that a block brings along. -/
def readCodes : Inflater Codes := do
  let literalCount := 257 + (← number 5)
  let distanceCount := 1 + (← number 5)
  let lengthCount := 4 + (← number 4)
  if 286 < literalCount || 30 < distanceCount then
    flawed .symbolCount
  let given ← (lengthOrder.take lengthCount).mapM fun symbol => return (symbol, ← number 3)
  let lengthCode := Code.ofLengths ((List.range 19).map fun symbol => (given.lookup symbol).getD 0)
  if !lengthCode.isFull then
    flawed .lengthCode
  let total := literalCount + distanceCount
  let lengths ← readLengths lengthCode total total #[]
  if lengths[256]? = some 0 then
    flawed .noBlockEnd
  let literals := Code.ofLengths (lengths.take literalCount)
  if !literals.isUsable then
    flawed .literalCode
  let distances := Code.ofLengths (lengths.drop literalCount)
  if !distances.isUsable then
    flawed .distanceCode
  return ⟨literals, distances⟩

/-- The least value and the number of further bits for each symbol of a length, from 257 on. -/
def lengthTable : Array (Nat × Nat) := #[
  (3, 0), (4, 0), (5, 0), (6, 0), (7, 0), (8, 0), (9, 0), (10, 0), (11, 1), (13, 1), (15, 1),
  (17, 1), (19, 2), (23, 2), (27, 2), (31, 2), (35, 3), (43, 3), (51, 3), (59, 3), (67, 4), (83, 4),
  (99, 4), (115, 4), (131, 5), (163, 5), (195, 5), (227, 5), (258, 0)]

/-- The same for the symbols of a distance. -/
def distanceTable : Array (Nat × Nat) := #[
  (1, 0), (2, 0), (3, 0), (4, 0), (5, 1), (7, 1), (9, 2), (13, 2), (17, 3), (25, 3), (33, 4),
  (49, 4), (65, 5), (97, 5), (129, 6), (193, 6), (257, 7), (385, 7), (513, 8), (769, 8), (1025, 9),
  (1537, 9), (2049, 10), (3073, 10), (4097, 11), (6145, 11), (8193, 12), (12289, 12), (16385, 13),
  (24577, 13)]

/-- Reads what belongs to a symbol; some symbols stand for nothing. -/
def readValue (table : Array (Nat × Nat)) (flaw : Flaw) (symbol : Nat) : Inflater Nat := do
  match table[symbol]? with
  | some (least, width) => return least + (← number width)
  | none => flawed flaw

/-- Repeats what came out `distance` bytes ago. -/
def repeatBytes (distance : Nat) : (length : Nat) → Array UInt8 → Array UInt8
  | 0, out => out
  | length + 1, out =>
    repeatBytes distance length (out.push ((out[out.size - distance]?).getD 0))

/-- Reads the symbols of a block up to its end, of which there are at most `count`. -/
def readSymbols (codes : Codes) : (count : Nat) → Inflater Unit
  | 0 => throw .exhausted
  | count + 1 => do
    match ← codes.literals.read? with
    | none => flawed .literal
    | some symbol =>
      if symbol < 256 then
        modify fun s => { s with out := s.out.push (.ofNat symbol) }
        readSymbols codes count
      else if symbol = 256 then
        return
      else
        let length ← readValue lengthTable .literal (symbol - 257)
        match ← codes.distances.read? with
        | none => flawed .distance
        | some symbol =>
          let distance ← readValue distanceTable .distance symbol
          if (← get).out.size < distance then
            flawed .tooFarBack
          modify fun s => { s with out := repeatBytes distance length s.out }
          readSymbols codes count

/-- Reads a block of bytes that are stored as they are, from the next whole byte on. -/
def readStored : Inflater Unit := do
  modify fun s => { s with bits := [] }
  let length ← number 16
  let complement ← number 16
  if length + complement ≠ 0xFFFF then
    flawed .storedLength
  let stored := (← get).rest.take length
  modify fun s => { s with rest := s.rest.drop length, out := s.out ++ stored }
  if stored.length < length then
    throw .exhausted

/-- Reads blocks up to the last one. There are at most `count` of them, and as many symbols in
each. -/
def readBlocks (limit : Nat) : (count : Nat) → Inflater Unit
  | 0 => throw .exhausted
  | count + 1 => do
    let isLast ← bit
    match ← number 2 with
    | 0 => readStored
    | 1 => readSymbols fixedCodes limit
    | 2 => readSymbols (← readCodes) limit
    | _ => flawed .blockType
    if !isLast then
      readBlocks limit count

/-- Inflates data. Every block and every symbol takes up at least one bit. -/
def run (bytes : List UInt8) : EStateM.Result Stop State Unit :=
  let limit := 8 * bytes.length + 1
  readBlocks limit limit ⟨[], bytes, #[]⟩

end JavaClass.Inflate
