import JavaClass.Cursor
import JavaClass.Pool.Links
import JavaClass.Text.ModifiedUtf8

/-! Reading a constant pool: a count, then constants until their slots make up the count. -/

namespace JavaClass

/-- Reads the fields of the constant that a tag announces; the tag stands at `offset`. -/
def Entry.read (tag : Nat) (offset : Int) : Reader Entry :=
  match tag with
  | 1 => do
    let length ← Reader.u2
    return .utf8 (ModifiedUtf8.decode (← Reader.bytes length))
  | 3 => return .integer (← Reader.i4)
  | 4 => return .float (← Reader.f4)
  | 5 => return .long (← Reader.i8)
  | 6 => return .double (← Reader.f8)
  | 7 => return .classRef (← Reader.u2)
  | 8 => return .string (← Reader.u2)
  | 9 => return .memberRef .field (← Reader.u2) (← Reader.u2)
  | 10 => return .memberRef .method (← Reader.u2) (← Reader.u2)
  | 11 => return .memberRef .interfaceMethod (← Reader.u2) (← Reader.u2)
  | 12 => return .nameAndType (← Reader.u2) (← Reader.u2)
  | 15 => return .methodHandle (← Reader.u1) (← Reader.u2)
  | 16 => return .methodType (← Reader.u2)
  | 17 => return .dynamic (← Reader.u2) (← Reader.u2)
  | 18 => return .invokeDynamic (← Reader.u2) (← Reader.u2)
  | 19 => return .moduleRef (← Reader.u2)
  | 20 => return .packageRef (← Reader.u2)
  | _ => throw (.atOffset (.badTag tag) offset)

namespace Pool

/-- Reads constants into the slots from `index` on, of which `free` are left. -/
def readSlots (index : Nat) : (free : Nat) → Reader (List (Option Entry))
  | 0 => return []
  | free + 1 => do
    let offset ← Reader.offset
    let tag ← Reader.u1
    let entry ← Entry.read tag offset
    if entry.width = 1 then
      return some entry :: (← readSlots (index + 1) free)
    else match free with
      | 0 => throw (.atOffset (.poolOverrun entry.kind index) offset)
      | free + 1 => return some entry :: none :: (← readSlots (index + 2) free)

/-- Reads a pool whose count has been read, and checks its links. -/
def readCounted (count : Nat) : Reader Pool := do
  let slots ← readSlots 1 (count - 1)
  let pool : Pool := ⟨none :: slots⟩
  pool.checkLinks
  return pool

def read : Reader Pool := do
  readCounted (← Reader.u2)

end Pool

end JavaClass
