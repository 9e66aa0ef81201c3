import JavaClass.Listing.Line
import JavaClass.Pool.Describe
import JavaClass.Text.Blank

/-! The constant pool in a listing: a line for each constant, with its fields as they are stored. -/

namespace JavaClass.Listing

/-- The fields of a constant. -/
def poolFields : Entry → Except Failure Text
  | .utf8 value => .ok value.escape
  | .integer value => .ok (toString value)
  | .float value => return (← value.singleLiteral) ++ "f"
  | .long value => .ok (toString value ++ "l")
  | .double value => .ok (value.doubleLiteral ++ "d")
  | .classRef index | .moduleRef index | .packageRef index | .string index
  | .methodType index => .ok s!"#{index}"
  | .memberRef _ owner member => .ok s!"#{owner}.#{member}"
  | .nameAndType name descriptor => .ok s!"#{name}:#{descriptor}"
  | .methodHandle kind reference => .ok s!"{kind}:#{reference}"
  | .dynamic bootstrap member | .invokeDynamic bootstrap member =>
    .ok s!"#{bootstrap}:#{member}"
  | .unknown => .ok []

/-- Whether the fields say all there is to say, so that no comment is needed. -/
def isLiteral : Entry → Bool
  | .utf8 _ | .integer _ | .float _ | .long _ | .double _ => true
  | _ => false

def poolLine (pool : Pool) (index : Nat) (entry : Entry) : Except Failure Line := do
  let width := (toString ((pool.count : Int) - 1)).length + 3
  let label := Text.padLeft width s!"#{index}" ++ " = " ++ Text.padRight 18 entry.kind.name ++ " "
  let fields ← poolFields entry
  if isLiteral entry then
    return line (Text.trimEnd (label ++ fields))
  else
    let comment ← pool.describe index
    return line (Text.trimEnd (label ++ Text.padRight 14 fields ++ " // " ++ comment))

def poolLines (pool : Pool) : Except Failure (List Line) := do
  let lines ← pool.entries.mapM fun (index, entry) => poolLine pool index entry
  return line "Constant pool:" :: lines

end JavaClass.Listing
