import JavaClass.Number.Literal
import JavaClass.Pool.Basic
import JavaClass.Pool.Handle
import JavaClass.Text.Escape

/-! Constants described in words, as comments of a listing show them. -/

namespace JavaClass

/-- Special method names start with `<` and are put in quotes. -/
def nameAndTypeText (name descriptor : Text) : Text :=
  match name with
  | c :: _ =>
    if c = CodePoint.ofChar '<' then "\"" ++ name ++ "\"" ++ ":" ++ descriptor
    else name ++ ":" ++ descriptor
  | [] => ":" ++ descriptor

/-- The name of an array type is put in quotes. -/
def classNameText (name : Text) : Text :=
  match name with
  | c :: _ => if c = CodePoint.ofChar '[' then "\"" ++ name ++ "\"" else name
  | [] => []

namespace Pool

/-- A method handle is described by what it refers to, which in a pool whose links are unchecked
may be a handle again, up to `depth` in a row. -/
def describeWithin (p : Pool) : Nat → Int → Except Failure Text
  | 0, _ => .error .tooDeep
  | depth + 1, index => do
    match ← p.get index with
    | .utf8 value => return value.escape
    | .integer value => return toString value
    | .float value => return (← value.singleLiteral) ++ "f"
    | .long value => return toString value ++ "l"
    | .double value => return value.doubleLiteral ++ "d"
    | .classRef name => return classNameText (← p.utf8 name)
    | .string value => return (← p.utf8 value).escape
    | .memberRef .. =>
      let (owner, name, descriptor) ← p.memberRef index
      return owner ++ "." ++ nameAndTypeText name descriptor
    | .nameAndType .. =>
      let (name, descriptor) ← p.nameAndType index
      return nameAndTypeText name descriptor
    | .methodHandle kind reference =>
      match HandleKind.ofNumber? kind with
      | none => .error (.referenceKind kind)
      | some handle => return handle.mnemonic ++ " " ++ (← p.describeWithin depth reference)
    | .methodType descriptor => p.utf8 descriptor
    | .dynamic bootstrap target | .invokeDynamic bootstrap target =>
      let (name, descriptor) ← p.nameAndType target
      return s!"#{bootstrap}:" ++ nameAndTypeText name descriptor
    | .moduleRef name | .packageRef name => p.utf8 name
    | .unknown => .error (.of (.undescribable index .unknown))

def handleDepth : Nat := 980

def describe (p : Pool) (index : Int) : Except Failure Text := p.describeWithin handleDepth index

end Pool

end JavaClass
