import JavaClass.Attribute.Basic
import JavaClass.Listing.Line
import JavaClass.Pool.Describe

/-! Instructions and exception tables in a listing. -/

namespace JavaClass.Listing

/-- The code offset in front of an instruction. -/
def offsetLabel (offset : Nat) : Text := Text.padLeft 4 (toString offset) ++ ": "

/-- The mnemonic of a widened instruction has a mark of its own. -/
def markedMnemonic (i : Instruction) : Text := if i.wide then i.mnemonic ++ "_w" else i.mnemonic

def instructionHead (i : Instruction) : Text :=
  offsetLabel i.offset ++ Text.padRight 13 (markedMnemonic i) ++ " "

/-- A case of a switch at `offset`. -/
def caseLine (offset : Nat) (key : Text) (jump : Int) : Text :=
  Text.blanks (offsetLabel offset).length ++ Text.padLeft 12 key ++ s!": {offset + jump}"

/-- The lines of a switch after the first. -/
def caseLines (offset : Nat) (cases : List (Int × Int)) (fallback : Int) : List Text :=
  (cases.map fun (key, jump) => caseLine offset (toString key) jump) ++
    [caseLine offset "default" fallback, Text.blanks (offsetLabel offset).length ++ "\x7d"]

/-- A switch takes a line for each case. -/
def switchLines (i : Instruction) (summary : Text) (cases : List (Int × Int)) (fallback : Int) :
    List Text :=
  (instructionHead i ++ ("\x7b // " ++ summary)) :: caseLines i.offset cases fallback

/-- The name of an element type, or its number if it has none. -/
def arrayTypeText (code : Nat) : String := (arrayTypeName? code).getD (toString code)

/-- The texts of an instruction's lines; all but a switch have one. -/
def instructionTexts (pool : Pool) (i : Instruction) : Except Failure (List Text) := do
  let described (operands : Text) (index : Nat) : Except Failure (List Text) := do
    return [withComment (instructionHead i ++ operands) (← pool.describe index)]
  match i.operands with
  | .none => return [offsetLabel i.offset ++ markedMnemonic i]
  | .value value => return [instructionHead i ++ toString value]
  | .slot slot => return [instructionHead i ++ toString slot]
  | .increment slot amount => return [instructionHead i ++ s!"{slot}, {amount}"]
  | .constant index => described s!"#{index}" index
  | .jump distance => return [instructionHead i ++ toString (i.offset + distance)]
  | .interfaceCall index count => described s!"#{index},  {count}" index
  | .arrayDimensions index dimensions => described s!"#{index},  {dimensions}" index
  | .dynamicCall index => described s!"#{index},  0" index
  | .arrayType code => return [instructionHead i ++ arrayTypeText code]
  | .tableSwitch table =>
    return switchLines i s!"{table.low} to {table.high}" table.cases table.fallback
  | .lookupSwitch table =>
    return switchLines i (toString table.pairs.length) table.pairs table.fallback

def instructionLines (pool : Pool) (instructions : List Instruction) :
    Except Failure (List Line) := do
  let texts ← instructions.mapM (instructionTexts pool)
  return texts.flatten.map line

/-- What a handler catches. -/
def caughtText (pool : Pool) (h : ExceptionHandler) : Except Failure Text :=
  if h.catchType = 0 then .ok "any" else return "Class " ++ (← pool.describe h.catchType)

def handlerLine (pool : Pool) (h : ExceptionHandler) : Except Failure Line := do
  let caught ← caughtText pool h
  return line (Text.padLeft 7 (toString h.startPc) ++ Text.padLeft 6 (toString h.endPc) ++
    Text.padLeft 6 (toString h.handlerPc) ++ "   " ++ caught)

/-- The exception table; none is shown if it is empty. -/
def handlerLines (pool : Pool) (handlers : List ExceptionHandler) : Except Failure (List Line) := do
  if handlers.isEmpty then
    return []
  let lines ← handlers.mapM (handlerLine pool)
  return [line "Exception table:", line "   from    to  target type"] ++ lines

end JavaClass.Listing
