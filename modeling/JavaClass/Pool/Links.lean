import JavaClass.Pool.Basic
import JavaClass.Pool.Handle

/-! Links between constants: every index in a constant has to lead to a constant that fits. -/

namespace JavaClass

/-- Checks the indices in one constant, which stands at `index`. -/
def Entry.checkLinks (p : Pool) (index : Nat) : Entry → Except Failure Unit
  | .classRef target | .moduleRef target | .packageRef target | .string target
  | .methodType target => discard (p.expect target [.utf8])
  | .memberRef _ owner member => do
    discard (p.expect owner [.classRef])
    discard (p.expect member [.nameAndType])
  | .nameAndType name descriptor => do
    discard (p.expect name [.utf8])
    discard (p.expect descriptor [.utf8])
  | .methodHandle kind reference =>
    match HandleKind.ofNumber? kind with
    | none => .error (.of (.badHandleKind kind index))
    | some handle => discard (p.expect reference handle.referents)
  | .dynamic _ member | .invokeDynamic _ member => discard (p.expect member [.nameAndType])
  | .utf8 _ | .integer _ | .float _ | .long _ | .double _ | .unknown => .ok ()

/-- Checks all constants in ascending order. -/
def Pool.checkLinks (p : Pool) : Except Failure Unit :=
  p.entries.forM fun (index, entry) => entry.checkLinks p index

end JavaClass
