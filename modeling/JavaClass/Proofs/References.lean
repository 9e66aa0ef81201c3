import JavaClass.Proofs.ClassFile

/-!
All pool indices in a class file, each with what it has to lead to. In a class file that is accepted
every one of them leads there, however deep the attribute or the annotation is that holds it.
-/

namespace JavaClass

open Format

/-- What an index has to lead to. -/
inductive Demand where
  | oneOf (kinds : List EntryKind)
  /-- A text that is kept beside the index as well. -/
  | text (value : Text)
  /-- What a method handle with this kind may refer to. -/
  | calledBy (handle : Int)
  | anything
  deriving DecidableEq, Repr

def Demand.Met : Demand → Entry → Prop
  | .oneOf kinds, e => e.kind ∈ kinds
  | .text value, e => e = .utf8 value
  | .calledBy handle, e => HandleTarget handle e.kind
  | .anything, _ => True

structure Reference where
  index : Int
  demand : Demand
  deriving DecidableEq, Repr

namespace Reference

/-- The slot of the index can be used, and what is in it will do. -/
def Resolves (pool : Pool) (r : Reference) : Prop := ∃ e, pool.Holds r.index e ∧ r.demand.Met e

def toClass (index : Nat) : Reference := ⟨index, .oneOf [.classRef]⟩

def toText (index : Nat) : Reference := ⟨index, .oneOf [.utf8]⟩

end Reference

/-- An index that is 0 refers to nothing. -/
def optionalReference (index : Nat) (demand : Demand) : List Reference :=
  if index = 0 then [] else [⟨index, demand⟩]

def Entry.references : Entry → List Reference
  | .classRef name | .moduleRef name | .packageRef name => [⟨name, .oneOf [.utf8]⟩]
  | .string value => [⟨value, .oneOf [.utf8]⟩]
  | .methodType descriptor => [⟨descriptor, .oneOf [.utf8]⟩]
  | .memberRef _ owner member => [⟨owner, .oneOf [.classRef]⟩, ⟨member, .oneOf [.nameAndType]⟩]
  | .nameAndType name descriptor => [⟨name, .oneOf [.utf8]⟩, ⟨descriptor, .oneOf [.utf8]⟩]
  | .methodHandle kind reference => [⟨reference, .calledBy kind⟩]
  | .dynamic _ member | .invokeDynamic _ member => [⟨member, .oneOf [.nameAndType]⟩]
  | .utf8 _ | .integer _ | .float _ | .long _ | .double _ | .unknown => []

mutual

def ElementValue.references : ElementValue → List Reference
  | .constant tag index => [⟨index, .oneOf [tag.kind]⟩]
  | .enumConstant type name => [.toText type, .toText name]
  | .nested a => annotationReferences a
  | .array values => values.flatMap fun v => v.references
termination_by v => sizeOf v

def annotationReferences : AnnotationOf ElementValue → List Reference
  | ⟨typeIndex, typeName, elements⟩ =>
    ⟨typeIndex, .text typeName⟩ :: elements.flatMap fun e => e.2.references
termination_by a => sizeOf a
decreasing_by
  have smaller := ElementValue.sizeOf_lt_of_mem ‹_›
  rw [AnnotationOf.mk.sizeOf_spec]
  omega

end

def Instruction.references (i : Instruction) : List Reference :=
  i.constantIndex?.toList.map fun (index : Nat) => ⟨index, .anything⟩

def ExceptionHandler.references (h : ExceptionHandler) : List Reference :=
  optionalReference h.catchType (.oneOf [.classRef])

def LocalVariable.references (v : LocalVariable) : List Reference :=
  [⟨v.nameIndex, .text v.name⟩, ⟨v.descriptorIndex, .text v.descriptor⟩]

def InnerClass.references (c : InnerClass) : List Reference :=
  .toClass c.innerIndex :: optionalReference c.outerIndex (.oneOf [.classRef]) ++
    optionalReference c.nameIndex (.oneOf [.utf8])

def BootstrapMethod.references (m : BootstrapMethod) : List Reference :=
  ⟨m.handleIndex, .oneOf [.methodHandle]⟩ ::
    m.arguments.map fun (index : Nat) => ⟨index, .oneOf Pool.loadable⟩

def MethodParameter.references (p : MethodParameter) : List Reference :=
  optionalReference p.nameIndex (.oneOf [.utf8])

mutual

def Attribute.references : Attribute → List Reference
  | ⟨nameIndex, name, _, none⟩ => [⟨nameIndex, .text name⟩]
  | ⟨nameIndex, name, _, some body⟩ => ⟨nameIndex, .text name⟩ :: Body.references body
termination_by a => sizeOf a

def Body.references : Body → List Reference
  | .constantValue index => [⟨index, .oneOf [.integer, .float, .long, .double, .string]⟩]
  | .code ⟨_, _, _, handlers, attributes, instructions⟩ =>
    instructions.flatMap Instruction.references ++ handlers.flatMap ExceptionHandler.references ++
      attributes.flatMap fun a => a.references
  | .exceptions indices | .nestMembers indices => indices.map .toClass
  | .sourceFile index text | .signature index text => [⟨index, .text text⟩]
  | .lineNumbers _ | .deprecated | .synthetic => []
  | .localVariables _ entries => entries.flatMap LocalVariable.references
  | .innerClasses classes => classes.flatMap InnerClass.references
  | .enclosingMethod classIndex methodIndex =>
    .toClass classIndex :: optionalReference methodIndex (.oneOf [.nameAndType])
  | .bootstrapMethods methods => methods.flatMap BootstrapMethod.references
  | .methodParameters parameters => parameters.flatMap MethodParameter.references
  | .nestHost index => [.toClass index]
  | .annotations _ values => values.flatMap annotationReferences
termination_by body => sizeOf body

end

def Member.references (m : Member) : List Reference :=
  ⟨m.nameIndex, .text m.name⟩ :: ⟨m.descriptorIndex, .text m.descriptor⟩ ::
    m.attributes.flatMap Attribute.references

/-- Every pool index that a class file holds, those in the pool itself included. -/
def ClassFile.references (c : ClassFile) : List Reference :=
  .toClass c.thisClass :: optionalReference c.superClass (.oneOf [.classRef]) ++
    c.interfaces.map .toClass ++ c.fields.flatMap Member.references ++
    c.methods.flatMap Member.references ++ c.attributes.flatMap Attribute.references ++
    c.pool.constants.flatMap Entry.references

namespace Format

/-- Some bytes are in the language. -/
def Possible (language : Language UInt8) : Prop := ∃ bytes, bytes ∈ language

section
variable {α : Type} {language other : Language UInt8} {condition : Prop} {items : List α}
  {format : Format α}

theorem possible_mul : Possible (language * other) ↔ Possible language ∧ Possible other := by
  constructor
  · rintro ⟨_, front, inFront, back, inBack, rfl⟩
    exact ⟨⟨front, inFront⟩, ⟨back, inBack⟩⟩
  · rintro ⟨⟨front, inFront⟩, ⟨back, inBack⟩⟩
    exact ⟨front ++ back, Language.append_mem_mul inFront inBack⟩

theorem possible_require : Possible (require condition) ↔ condition := by
  simp [Possible]

theorem Possible.of_prod (possible : Possible (items.map format).prod) :
    ∀ a ∈ items, Possible (format a) := by
  induction items with
  | nil => exact nofun
  | cons a items ih =>
    rw [List.map_cons, List.prod_cons, possible_mul] at possible
    exact List.forall_mem_cons.mpr ⟨possible.1, ih possible.2⟩

theorem Possible.of_counted {width : Nat}
    (possible : Possible (counted width (items.map format))) : ∀ a ∈ items, Possible (format a) :=
  Possible.of_prod (possible_mul.mp possible).2

end

end Format

/-- All of the references lead where they have to. -/
def Closed (pool : Pool) (references : List Reference) : Prop :=
  ∀ r ∈ references, r.Resolves pool

section
variable {pool : Pool}

@[simp] theorem closed_nil : Closed pool [] := by simp [Closed]

@[simp] theorem closed_cons {r : Reference} {others : List Reference} :
    Closed pool (r :: others) ↔ r.Resolves pool ∧ Closed pool others :=
  List.forall_mem_cons

@[simp] theorem closed_append {first second : List Reference} :
    Closed pool (first ++ second) ↔ Closed pool first ∧ Closed pool second :=
  List.forall_mem_append

@[simp] theorem closed_map {α : Type} {items : List α} {reference : α → Reference} :
    Closed pool (items.map reference) ↔ ∀ a ∈ items, (reference a).Resolves pool :=
  List.forall_mem_map

@[simp] theorem closed_flatMap {α : Type} {items : List α} {references : α → List Reference} :
    Closed pool (items.flatMap references) ↔ ∀ a ∈ items, Closed pool (references a) :=
  List.forall_mem_flatMap

@[simp] theorem closed_optionalReference {index : Nat} {demand : Demand} :
    Closed pool (optionalReference index demand) ↔
      (index ≠ 0 → Reference.Resolves pool ⟨index, demand⟩) := by
  by_cases zero : index = 0 <;> simp [optionalReference, zero]

/-- A constant is linked if what it refers to is what it has to be. -/
theorem Entry.linked_iff_closed {e : Entry} : e.Linked pool ↔ Closed pool e.references := by
  cases e <;> simp [Linked, references, Pool.Leads, Reference.Resolves, Demand.Met]

theorem Pool.resolves_of_indexOf {kinds : List EntryKind} {index : Nat}
    (possible : Possible (pool.indexOf kinds index)) :
    Reference.Resolves pool ⟨index, .oneOf kinds⟩ :=
  possible_require.mp (possible_mul.mp possible).1

theorem Pool.resolves_of_indexOfText {text : Text} {index : Nat}
    (possible : Possible (pool.indexOfText text index)) :
    Reference.Resolves pool ⟨index, .text text⟩ :=
  ⟨_, possible_require.mp (possible_mul.mp possible).1, rfl⟩

theorem Pool.closed_of_optionalIndexOf {kinds : List EntryKind} {index : Nat}
    (possible : Possible (pool.optionalIndexOf kinds index)) :
    Closed pool (optionalReference index (.oneOf kinds)) :=
  closed_optionalReference.mpr
    (or_iff_not_imp_left.mp (possible_require.mp (possible_mul.mp possible).1))

theorem ExceptionHandler.closed {h : ExceptionHandler} (possible : Possible (h.encoding pool)) :
    Closed pool h.references := by
  simp only [encoding, possible_mul] at possible
  exact Pool.closed_of_optionalIndexOf possible.2

theorem LocalVariable.closed {v : LocalVariable} (possible : Possible (v.encoding pool)) :
    Closed pool v.references := by
  simp only [encoding, possible_mul] at possible
  obtain ⟨⟨⟨_, name⟩, descriptor⟩, _⟩ := possible
  simp [references, Pool.resolves_of_indexOfText name, Pool.resolves_of_indexOfText descriptor]

theorem InnerClass.closed {c : InnerClass} (possible : Possible (c.encoding pool)) :
    Closed pool c.references := by
  simp only [encoding, possible_mul] at possible
  obtain ⟨⟨⟨inner, outer⟩, name⟩, _⟩ := possible
  have innerResolves : (Reference.toClass c.innerIndex).Resolves pool :=
    Pool.resolves_of_indexOf inner
  simp [references, innerResolves, Pool.closed_of_optionalIndexOf outer,
    Pool.closed_of_optionalIndexOf name]

theorem BootstrapMethod.closed {m : BootstrapMethod} (possible : Possible (m.encoding pool)) :
    Closed pool m.references := by
  simp only [encoding, possible_mul] at possible
  obtain ⟨handle, arguments⟩ := possible
  refine closed_cons.mpr ⟨Pool.resolves_of_indexOf handle, closed_map.mpr fun index argument => ?_⟩
  exact Pool.resolves_of_indexOf (arguments.of_counted index argument)

theorem MethodParameter.closed {p : MethodParameter} (possible : Possible (p.encoding pool)) :
    Closed pool p.references := by
  simp only [encoding, possible_mul] at possible
  exact Pool.closed_of_optionalIndexOf possible.1

theorem Pool.Resolves.closed {instructions : List Instruction}
    (resolves : pool.Resolves instructions) :
    Closed pool (instructions.flatMap Instruction.references) := by
  simp only [closed_flatMap, Instruction.references, closed_map, Option.mem_toList]
  intro i listed index named
  obtain ⟨e, holds⟩ := resolves i listed index named
  exact ⟨e, holds, trivial⟩

end

namespace Pool

variable {p : Pool}

/-- The links of all constants hold, and no constant is of an unknown kind. -/
structure Sound (p : Pool) : Prop extends p.Valid where
  known : .unknown ∉ p.constants

/-- No bytes are a constant of an unknown kind, so a pool that can be written has none. -/
theorem sound_of_possible (possible : Possible p.encoding) : p.Sound := by
  obtain ⟨bytes, inside⟩ := possible
  obtain ⟨count, inside⟩ := Language.mem_iSup.mp inside
  obtain ⟨⟨valid, _⟩, inside⟩ := mem_require_mul.mp inside
  refine ⟨valid, fun unknown => ?_⟩
  have written : Possible (p.constants.map Entry.encoding).prod :=
    (possible_mul.mp ⟨bytes, inside⟩).2
  have impossible := written.of_prod _ unknown
  rw [Entry.encoding, possible_mul] at impossible
  obtain ⟨_, _, impossible⟩ := impossible
  exact Language.notMem_zero _ impossible

end Pool

/-- What holds of a value if it holds of the values in it holds of every value. -/
theorem ElementValue.induction {motive : ElementValue → Prop}
    (constant : ∀ tag index, motive (.constant tag index))
    (enumConstant : ∀ type name, motive (.enumConstant type name))
    (nested : ∀ a : AnnotationOf ElementValue, (∀ e ∈ a.elements, motive e.2) → motive (.nested a))
    (array : ∀ values, (∀ v ∈ values, motive v) → motive (.array values)) (v : ElementValue) :
    motive v := by
  induction size : sizeOf v using Nat.strong_induction_on generalizing v with
  | _ n ih =>
    subst size
    cases v with
    | constant tag index => exact constant tag index
    | enumConstant type name => exact enumConstant type name
    | nested a =>
      apply nested
      intro e element
      have smaller := ElementValue.sizeOf_lt_of_mem element
      refine ih _ ?_ e.2 rfl
      rw [ElementValue.nested.sizeOf_spec, AnnotationOf.mk.sizeOf_spec]
      omega
    | array values =>
      apply array
      intro v item
      have smaller := List.sizeOf_lt_of_mem item
      exact ih _ (by rw [ElementValue.array.sizeOf_spec]; omega) v rfl

section
variable {pool : Pool}

theorem annotation_closed {a : AnnotationOf ElementValue}
    (possible : Possible (annotationEncoding pool a))
    (each : ∀ e ∈ a.elements, Possible (e.2.encoding pool) → Closed pool e.2.references) :
    Closed pool (annotationReferences a) := by
  obtain ⟨typeIndex, typeName, elements⟩ := a
  rw [annotationEncoding_mk, possible_mul] at possible
  obtain ⟨type, counted⟩ := possible
  rw [annotationReferences, closed_cons, closed_flatMap]
  refine ⟨Pool.resolves_of_indexOfText type, fun e element => each e element ?_⟩
  exact (possible_mul.mp (counted.of_counted e element)).2

theorem ElementValue.closed {v : ElementValue} (possible : Possible (v.encoding pool)) :
    Closed pool v.references := by
  induction v using ElementValue.induction with
  | constant tag index =>
    rw [encoding, possible_mul, fields] at possible
    simp [references, Pool.resolves_of_indexOf possible.2]
  | enumConstant type name =>
    simp only [encoding, possible_mul, fields] at possible
    obtain ⟨_, type, name⟩ := possible
    rw [references, closed_cons, closed_cons]
    exact ⟨Pool.resolves_of_indexOf type, Pool.resolves_of_indexOf name, closed_nil⟩
  | nested a ih =>
    rw [encoding, possible_mul, fields] at possible
    rw [references]
    exact annotation_closed possible.2 ih
  | array values ih =>
    rw [encoding, possible_mul, fields_array] at possible
    rw [references, closed_flatMap]
    intro v item
    exact ih v item (possible.2.of_counted v item)

/-- What holds of an attribute if it holds of the attributes in its code holds of every one. -/
theorem Attribute.induction {motive : Attribute → Prop}
    (step : ∀ a : Attribute, (∀ code, a.body = some (.code code) → ∀ b ∈ code.attributes, motive b) →
      motive a) (a : Attribute) : motive a := by
  induction size : sizeOf a using Nat.strong_induction_on generalizing a with
  | _ n ih =>
    subst size
    apply step
    intro code isCode b inside
    have smaller := List.sizeOf_lt_of_mem inside
    refine ih _ ?_ b rfl
    obtain ⟨nameIndex, name, info, body⟩ := a
    obtain rfl : body = _ := isCode
    rw [Attribute.mk.sizeOf_spec, Option.some.sizeOf_spec, BodyOf.code.sizeOf_spec,
      CodeOf.mk.sizeOf_spec]
    omega

theorem Body.closed {body : Body} (possible : Possible (Body.encoding pool body))
    (nested : ∀ code, body = .code code → ∀ a ∈ code.attributes,
      Possible (a.encoding pool) → Closed pool a.references) :
    Closed pool (Body.references body) := by
  cases body with
  | code code =>
    obtain ⟨maxStack, maxLocals, bytes, handlers, attributes, instructions⟩ := code
    rw [Body.encoding] at possible
    simp only [possible_require, possible_mul] at possible
    obtain ⟨⟨_, resolves⟩, ⟨_, handled⟩, attached⟩ := possible
    simp only [Body.references, closed_append, resolves.closed, true_and]
    constructor
    · exact closed_flatMap.mpr fun h item => ExceptionHandler.closed (handled.of_counted h item)
    · exact closed_flatMap.mpr fun a item => nested _ rfl a item (attached.of_counted a item)
  | constantValue index =>
    rw [Body.encoding] at possible
    rw [Body.references]
    exact closed_cons.mpr ⟨Pool.resolves_of_indexOf possible, closed_nil⟩
  | nestHost index =>
    rw [Body.encoding] at possible
    rw [Body.references]
    exact closed_cons.mpr ⟨Pool.resolves_of_indexOf possible, closed_nil⟩
  | exceptions indices | nestMembers indices =>
    rw [Body.encoding] at possible
    rw [Body.references, closed_map]
    exact fun index listed => Pool.resolves_of_indexOf (possible.of_counted index listed)
  | sourceFile index text | signature index text =>
    rw [Body.encoding] at possible
    rw [Body.references]
    exact closed_cons.mpr ⟨Pool.resolves_of_indexOfText possible, closed_nil⟩
  | localVariables generic entries =>
    rw [Body.encoding] at possible
    rw [Body.references, closed_flatMap]
    exact fun v item => LocalVariable.closed (possible.of_counted v item)
  | innerClasses classes =>
    rw [Body.encoding] at possible
    rw [Body.references, closed_flatMap]
    exact fun c item => InnerClass.closed (possible.of_counted c item)
  | bootstrapMethods methods =>
    rw [Body.encoding] at possible
    rw [Body.references, closed_flatMap]
    exact fun m item => BootstrapMethod.closed (possible.of_counted m item)
  | methodParameters parameters =>
    rw [Body.encoding] at possible
    rw [Body.references, closed_flatMap]
    exact fun p item => MethodParameter.closed (possible.of_counted p item)
  | enclosingMethod classIndex methodIndex =>
    rw [Body.encoding, possible_mul] at possible
    rw [Body.references, closed_cons]
    exact ⟨Pool.resolves_of_indexOf possible.1, Pool.closed_of_optionalIndexOf possible.2⟩
  | annotations visible values =>
    rw [Body.encoding] at possible
    rw [Body.references, closed_flatMap]
    exact fun a item => annotation_closed (possible.of_counted a item) fun _ _ => ElementValue.closed
  | lineNumbers entries => simp [Body.references]
  | deprecated | synthetic => simp [Body.references]

theorem Attribute.closed {a : Attribute} (possible : Possible (a.encoding pool)) :
    Closed pool a.references := by
  induction a using Attribute.induction with
  | step a ih =>
    rw [encoding_eq] at possible
    simp only [possible_require, possible_mul] at possible
    obtain ⟨fits, ⟨named, _⟩, _⟩ := possible
    have nameResolves := Pool.resolves_of_indexOfText named
    obtain ⟨nameIndex, name, info, _ | body⟩ := a
    · rw [references]
      exact closed_cons.mpr ⟨nameResolves, closed_nil⟩
    · rw [references]
      refine closed_cons.mpr ⟨nameResolves, Body.closed ⟨info, fits.2⟩ ?_⟩
      rintro code rfl
      exact ih code rfl

theorem Attribute.possible_of_blocks {attributes : List Attribute} {width : Nat}
    (possible : Possible (counted width (attributes.map (Attribute.block pool)))) :
    ∀ a ∈ attributes, Possible (a.encoding pool) := by
  intro a item
  obtain ⟨bytes, _, taken⟩ := possible.of_counted a item
  rw [Attribute.read, Scanner.taken_eq (follows_readWithin pool nestingBudget)] at taken
  exact ⟨bytes, (mem_require_mul.mp taken).2⟩

theorem Attribute.closed_of_blocks {attributes : List Attribute} {width : Nat}
    (possible : Possible (counted width (attributes.map (Attribute.block pool)))) :
    Closed pool (attributes.flatMap Attribute.references) :=
  closed_flatMap.mpr fun a item => Attribute.closed (Attribute.possible_of_blocks possible a item)

theorem Member.closed {m : Member} (possible : Possible (m.encoding pool)) :
    Closed pool m.references := by
  simp only [encoding, possible_mul] at possible
  obtain ⟨⟨⟨_, name⟩, descriptor⟩, attributes⟩ := possible
  rw [references, closed_cons, closed_cons]
  exact ⟨Pool.resolves_of_indexOfText name, Pool.resolves_of_indexOfText descriptor,
    Attribute.closed_of_blocks attributes⟩

end

namespace ClassFile

variable {data : List UInt8} {limit : Option Int} {c : ClassFile}

/-- What is accepted has a sound pool, and contents that can be written. -/
theorem parts_of_parse (accepted : parse data limit = .ok c) :
    c.pool.Sound ∧ Possible c.contents := by
  have whole : Possible (c.encoding limit) :=
    ⟨data, (exhausts_read limit _ c).mp (parse_eq_ok_iff.mp accepted)⟩
  rw [encoding, Reader.taken_eq Pool.follows_read] at whole
  simp only [possible_mul] at whole
  obtain ⟨_, ⟨_, pool⟩, contents⟩ := whole
  exact ⟨Pool.sound_of_possible pool, contents⟩

theorem closed_of_contents (sound : c.pool.Sound) (contents : Possible c.contents) :
    Closed c.pool c.references := by
  simp only [ClassFile.contents, possible_mul] at contents
  obtain ⟨⟨⟨⟨⟨⟨_, own⟩, parent⟩, interfaces⟩, fields⟩, methods⟩, attributes⟩ := contents
  have ownResolves : (Reference.toClass c.thisClass).Resolves c.pool := Pool.resolves_of_indexOf own
  have interfacesClosed : Closed c.pool (c.interfaces.map .toClass) :=
    closed_map.mpr fun index listed => Pool.resolves_of_indexOf (interfaces.of_counted index listed)
  have fieldsClosed : Closed c.pool (c.fields.flatMap Member.references) :=
    closed_flatMap.mpr fun m listed => Member.closed (fields.of_counted m listed)
  have methodsClosed : Closed c.pool (c.methods.flatMap Member.references) :=
    closed_flatMap.mpr fun m listed => Member.closed (methods.of_counted m listed)
  have poolClosed : Closed c.pool (c.pool.constants.flatMap Entry.references) :=
    closed_flatMap.mpr fun e listed => Entry.linked_iff_closed.mp (sound.linked e listed)
  rw [references]
  simp only [closed_append, closed_cons]
  exact ⟨⟨⟨⟨⟨⟨ownResolves, Pool.closed_of_optionalIndexOf parent⟩, interfacesClosed⟩, fieldsClosed⟩,
    methodsClosed⟩, Attribute.closed_of_blocks attributes⟩, poolClosed⟩

/-- Every pool index in a class file that is accepted leads to a constant that it may lead to. -/
theorem references_resolve_of_parse (accepted : parse data limit = .ok c) :
    ∀ r ∈ c.references, r.Resolves c.pool := by
  obtain ⟨sound, contents⟩ := parts_of_parse accepted
  exact closed_of_contents sound contents

theorem references_resolve_of_parse_sample :
    ∃ c, parse sample none = .ok c ∧ ∀ r ∈ c.references, r.Resolves c.pool := by
  obtain ⟨c, accepted⟩ := exists_parse_sample
  exact ⟨c, accepted, references_resolve_of_parse accepted⟩

end ClassFile

end JavaClass
