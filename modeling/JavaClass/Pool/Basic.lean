import JavaClass.Fault
import JavaClass.Pool.Entry

/-!
The constant pool and looking things up in it. Indices start at 1, and the slot after a constant of
two slots stays empty.
-/

namespace JavaClass

structure Pool where
  slots : List (Option Entry)
  deriving DecidableEq, Repr

namespace Pool

/-- One more than the greatest index. -/
def count (p : Pool) : Nat := p.slots.length

/-- The constants with their indices, in ascending order. -/
def entries (p : Pool) : List (Nat × Entry) :=
  p.slots.zipIdx.filterMap fun (slot, index) => slot.map (index, ·)

/-- The number of constants. -/
def size (p : Pool) : Nat := p.entries.length

def slotsUsed (p : Pool) : Nat := (p.entries.map fun (_, e) => e.width).foldr (· + ·) 0

/-- Slot by slot equality; see `Entry.numEq`. -/
def numEq (p q : Pool) : Bool :=
  p.count = q.count && (p.slots.zip q.slots).all fun
    | (some x, some y) => x.numEq y
    | (none, none) => true
    | _ => false

def get (p : Pool) (index : Int) : Except Failure Entry :=
  if index = 0 then .error (.of (.badIndex index .zero))
  else if index < 0 ∨ (p.count : Int) ≤ index then
    .error (.of (.badIndex index (.outside ((p.count : Int) - 1))))
  else match p.slots[index.toNat]? with
    | some (some entry) => .ok entry
    | _ => .error (.of (.badIndex index .secondSlot))

/-- The constant at an index, which has to be of one of the given kinds. -/
def expect (p : Pool) (index : Int) (kinds : List EntryKind) : Except Failure Entry := do
  let entry ← p.get index
  if kinds.any (·.accepts entry.kind) then return entry
  else .error (.of (.wrongKind index kinds entry.kind))

def utf8 (p : Pool) (index : Int) : Except Failure Text := do
  match ← p.get index with
  | .utf8 value => return value
  | entry => .error (.of (.wrongKind index [.utf8] entry.kind))

def className (p : Pool) (index : Int) : Except Failure Text := do
  match ← p.get index with
  | .classRef name => p.utf8 name
  | entry => .error (.of (.wrongKind index [.classRef] entry.kind))

def stringValue (p : Pool) (index : Int) : Except Failure Text := do
  match ← p.get index with
  | .string value => p.utf8 value
  | entry => .error (.of (.wrongKind index [.string] entry.kind))

/-- The name and the descriptor that a constant pairs. -/
def nameAndType (p : Pool) (index : Int) : Except Failure (Text × Text) := do
  match ← p.get index with
  | .nameAndType name descriptor => return (← p.utf8 name, ← p.utf8 descriptor)
  | entry => .error (.of (.wrongKind index [.nameAndType] entry.kind))

/-- The owner, name and descriptor of a member that is referred to. -/
def memberRef (p : Pool) (index : Int) : Except Failure (Text × Text × Text) := do
  match ← p.get index with
  | .memberRef _ owner nameAndType =>
    let owner ← p.className owner
    let (name, descriptor) ← p.nameAndType nameAndType
    return (owner, name, descriptor)
  | entry => .error (.of (.wrongKind index [.memberRef] entry.kind))

/-- Constants that an instruction can load. -/
def loadable : List EntryKind :=
  [.integer, .float, .long, .double, .classRef, .string, .methodHandle, .methodType, .dynamic]

end Pool

end JavaClass
