import JavaClass.Attribute.Element
import JavaClass.Code.Instruction

/-!
Attributes of classes, fields, methods and code. An attribute whose name is recognised has a body;
any other keeps its bytes alone. Numbers called indices are pool indices.
-/

namespace JavaClass

/-- The recognised attributes. -/
inductive AttributeName where
  | constantValue
  | code
  | exceptions
  | sourceFile
  | lineNumberTable
  | localVariableTable
  | localVariableTypeTable
  | signature
  | deprecated
  | synthetic
  | innerClasses
  | enclosingMethod
  | bootstrapMethods
  | methodParameters
  | nestHost
  | nestMembers
  | visibleAnnotations
  | invisibleAnnotations
  deriving DecidableEq, Repr

namespace AttributeName

def all : List AttributeName :=
  [.constantValue, .code, .exceptions, .sourceFile, .lineNumberTable, .localVariableTable,
    .localVariableTypeTable, .signature, .deprecated, .synthetic, .innerClasses, .enclosingMethod,
    .bootstrapMethods, .methodParameters, .nestHost, .nestMembers, .visibleAnnotations,
    .invisibleAnnotations]

def name : AttributeName → String
  | .constantValue => "ConstantValue"
  | .code => "Code"
  | .exceptions => "Exceptions"
  | .sourceFile => "SourceFile"
  | .lineNumberTable => "LineNumberTable"
  | .localVariableTable => "LocalVariableTable"
  | .localVariableTypeTable => "LocalVariableTypeTable"
  | .signature => "Signature"
  | .deprecated => "Deprecated"
  | .synthetic => "Synthetic"
  | .innerClasses => "InnerClasses"
  | .enclosingMethod => "EnclosingMethod"
  | .bootstrapMethods => "BootstrapMethods"
  | .methodParameters => "MethodParameters"
  | .nestHost => "NestHost"
  | .nestMembers => "NestMembers"
  | .visibleAnnotations => "RuntimeVisibleAnnotations"
  | .invisibleAnnotations => "RuntimeInvisibleAnnotations"

def ofText? (text : Text) : Option AttributeName :=
  all.find? fun known => Text.ofString known.name = text

end AttributeName

/-- Where a range of code is protected by a handler; catch type 0 catches all. -/
structure ExceptionHandler where
  startPc : Nat
  endPc : Nat
  handlerPc : Nat
  catchType : Nat
  deriving DecidableEq, Repr

structure LineNumber where
  startPc : Nat
  line : Nat
  deriving DecidableEq, Repr

/-- A local variable over a range of code. In a type table its descriptor is a generic signature. -/
structure LocalVariable where
  startPc : Nat
  length : Nat
  nameIndex : Nat
  descriptorIndex : Nat
  slot : Nat
  name : Text
  descriptor : Text
  deriving DecidableEq, Repr

/-- A class inside another; the outer index is 0 for a local one, the name index for a nameless
one. -/
structure InnerClass where
  innerIndex : Nat
  outerIndex : Nat
  nameIndex : Nat
  flags : Nat
  deriving DecidableEq, Repr

structure BootstrapMethod where
  handleIndex : Nat
  arguments : List Nat
  deriving DecidableEq, Repr

/-- A parameter of a method; the name index is 0 for a nameless one. -/
structure MethodParameter where
  nameIndex : Nat
  flags : Nat
  deriving DecidableEq, Repr

/-- The code of a method, with attributes in `Attr`. -/
structure CodeOf (Attr : Type) where
  maxStack : Nat
  maxLocals : Nat
  code : List UInt8
  handlers : List ExceptionHandler
  attributes : List Attr
  instructions : List Instruction

/-- What a recognised attribute says, where code has attributes in `Attr`. -/
inductive BodyOf (Attr : Type) where
  | constantValue (index : Nat)
  | code (code : CodeOf Attr)
  | exceptions (indices : List Nat)
  | sourceFile (index : Nat) (name : Text)
  | lineNumbers (entries : List LineNumber)
  | localVariables (generic : Bool) (entries : List LocalVariable)
  | signature (index : Nat) (signature : Text)
  | deprecated
  | synthetic
  | innerClasses (classes : List InnerClass)
  /-- The method index is 0 outside of methods. -/
  | enclosingMethod (classIndex methodIndex : Nat)
  | bootstrapMethods (methods : List BootstrapMethod)
  | methodParameters (parameters : List MethodParameter)
  | nestHost (index : Nat)
  | nestMembers (indices : List Nat)
  | annotations (visible : Bool) (values : List (AnnotationOf ElementValue))

structure Attribute where
  nameIndex : Nat
  name : Text
  info : List UInt8
  body : Option (BodyOf Attribute)

abbrev Code := CodeOf Attribute

abbrev Body := BodyOf Attribute

/-- The first attribute of a name. -/
def findAttribute? (attributes : List Attribute) (name : Text) : Option Attribute :=
  attributes.find? (·.name = name)

/-- The positions of all attributes of a name. -/
def attributePositions (attributes : List Attribute) (name : Text) : List Nat :=
  attributes.zipIdx.filterMap fun (a, position) => if a.name = name then some position else none

/-- The body of the first attribute of a recognised name. -/
def findBody? (attributes : List Attribute) (known : AttributeName) : Option Body :=
  (findAttribute? attributes known.name).bind (·.body)

/-- The line numbers of all tables together. -/
def CodeOf.lineNumbers (code : Code) : List LineNumber :=
  code.attributes.flatMap fun a =>
    match a.body with
    | some (.lineNumbers entries) => entries
    | _ => []

end JavaClass
