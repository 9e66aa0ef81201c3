import JavaClass.Listing.Attribute
import JavaClass.Proofs.Describe

/-!
When the lines of an attribute cannot be written. They look up constants and spell out types; the
constants are all there and of the right kinds, so the only reasons left are a float that cannot be
written and a type with too many dimensions.
-/

namespace JavaClass

namespace Listing

/-- Something that a listing writes out and that may be beyond it. -/
inductive Item where
  | constant (index : Int)
  | fieldType (descriptor : Text)
  | methodType (descriptor : Text)
  deriving DecidableEq, Repr

/-- Why an item cannot be written. -/
inductive Item.Fails (pool : Pool) : Item → Failure → Prop
  | overflow {index : Int} {value : Binary64} (held : pool.Holds index (.float value))
      (unwritable : value.singleLiteral = .error .floatOverflow) :
      Fails pool (.constant index) .floatOverflow
  | deepField {descriptor : Text} {type : FieldType}
      (parsed : FieldType.parse? descriptor = some type)
      (deep : FieldType.depthLimit < type.dimensions) : Fails pool (.fieldType descriptor) .tooDeep
  | deepMethod {descriptor : Text} {type : MethodType}
      (parsed : MethodType.parse? descriptor = some type)
      (deep : FieldType.depthLimit < type.dimensions) : Fails pool (.methodType descriptor) .tooDeep

/-- One of the items is the reason for a failure. -/
def Causes (pool : Pool) (items : List Item) (failure : Failure) : Prop :=
  ∃ item ∈ items, item.Fails pool failure

def constantItems (references : List Reference) : List Item :=
  references.map fun r => .constant r.index

/-- What the lines of an attribute's body show. Code is shown without its attributes here. -/
def bodyItems : Body → List Item
  | .code code => constantItems (code.instructions.flatMap Instruction.references)
  | .annotations _ values =>
    values.flatMap fun a => .fieldType a.typeName :: constantItems (annotationReferences a)
  | body => constantItems (Body.references body)

def attributeItems (a : Attribute) : List Item := a.body.elim [] bodyItems

def attributesItems (options : Options) (attributes : List Attribute) : List Item :=
  if options.attributes then attributes.flatMap attributeItems else []

theorem Item.Fails.causes {pool : Pool} {item : Item} {failure : Failure}
    (fails : item.Fails pool failure) : Causes pool [item] failure :=
  ⟨item, List.mem_singleton_self item, fails⟩

theorem Causes.mono {pool : Pool} {items others : List Item} {failure : Failure}
    (cause : Causes pool items failure) (subset : items ⊆ others) : Causes pool others failure := by
  obtain ⟨item, listed, fails⟩ := cause
  exact ⟨item, subset listed, fails⟩

end Listing

/-- A computation that can fail in some ways only. -/
def FailsOnly {α : Type} (allowed : Failure → Prop) (x : Except Failure α) : Prop :=
  ∀ failure, x = .error failure → allowed failure

namespace FailsOnly

open Listing

variable {α β : Type} {allowed other : Failure → Prop} {x : Except Failure α} {pool : Pool}

theorem of_ok (succeeds : ∃ a, x = .ok a) : FailsOnly allowed x := by
  obtain ⟨a, rfl⟩ := succeeds
  exact nofun

theorem error {failure : Failure} (may : allowed failure) :
    FailsOnly allowed (.error failure : Except Failure α) := by
  intro same fails
  cases fails
  exact may

theorem pure (a : α) : FailsOnly allowed (pure a : Except Failure α) := of_ok ⟨a, rfl⟩

theorem mono (only : FailsOnly allowed x) (weaker : ∀ failure, allowed failure → other failure) :
    FailsOnly other x :=
  fun failure fails => weaker failure (only failure fails)

theorem bind {next : α → Except Failure β} (first : FailsOnly allowed x)
    (rest : ∀ a, x = .ok a → FailsOnly allowed (next a)) : FailsOnly allowed (x >>= next) := by
  cases x with
  | ok a => exact rest a rfl
  | error failure =>
    intro same fails
    cases fails
    exact first failure rfl

/-- A last step that cannot fail. -/
theorem bind_pure {f : α → β} (first : FailsOnly allowed x) :
    FailsOnly allowed (x >>= fun a => Pure.pure (f a)) :=
  first.bind fun _ _ => pure _

theorem map {f : α → β} (only : FailsOnly allowed x) : FailsOnly allowed (f <$> x) := by
  rw [map_eq_pure_bind]
  exact only.bind_pure

/-- A first step that cannot fail. -/
theorem bind_of_ok {next : α → Except Failure β} (succeeds : ∃ a, x = .ok a)
    (rest : ∀ a, x = .ok a → FailsOnly allowed (next a)) : FailsOnly allowed (x >>= next) :=
  (of_ok succeeds).bind rest

theorem mapM {items : List α} {f : α → Except Failure β}
    (each : ∀ a ∈ items, FailsOnly allowed (f a)) : FailsOnly allowed (items.mapM f) := by
  induction items with
  | nil => exact pure []
  | cons a items ih =>
    obtain ⟨first, rest⟩ := List.forall_mem_cons.mp each
    rw [List.mapM_cons]
    exact first.bind fun _ _ => (ih rest).bind_pure

/-- Steps in a row show what each of them shows. -/
theorem bind_append {before after : List Item} {next : α → Except Failure β}
    (first : FailsOnly (Causes pool before) x)
    (rest : ∀ a, x = .ok a → FailsOnly (Causes pool after) (next a)) :
    FailsOnly (Causes pool (before ++ after)) (x >>= next) := by
  apply bind
  · exact first.mono fun _ cause => cause.mono (List.subset_append_left _ _)
  · intro a found
    exact (rest a found).mono fun _ cause => cause.mono (List.subset_append_right _ _)

theorem mapM_flatMap {list : List α} {items : α → List Item} {f : α → Except Failure β}
    (each : ∀ a ∈ list, FailsOnly (Causes pool (items a)) (f a)) :
    FailsOnly (Causes pool (list.flatMap items)) (list.mapM f) := by
  apply mapM
  intro a listed
  refine (each a listed).mono fun _ cause => cause.mono ?_
  exact fun item inside => List.mem_flatMap.mpr ⟨a, listed, inside⟩

/-- Numbers in front of the parts change nothing. -/
theorem mapM_zipIdx {list : List α} {items : α → List Item} {f : α × Nat → Except Failure β}
    (each : ∀ a ∈ list, ∀ number, FailsOnly (Causes pool (items a)) (f (a, number))) :
    FailsOnly (Causes pool (list.flatMap items)) (list.zipIdx.mapM f) := by
  rw [← List.zipIdx_map_fst 0 list, List.flatMap_map, List.zipIdx_map_fst]
  apply mapM_flatMap
  rintro ⟨a, number⟩ numbered
  exact each a (List.fst_mem_of_mem_zipIdx numbered) number

end FailsOnly

theorem Pool.Leads.integer {pool : Pool} {index : Int} (leads : pool.Leads index [.integer]) :
    ∃ value, pool.integer index = .ok value := by
  obtain ⟨e, holds, kind⟩ := leads
  obtain ⟨value, rfl⟩ := Entry.kind_eq_integer_iff.mp (List.mem_singleton.mp kind)
  refine ⟨value, ?_⟩
  rw [Pool.integer, get_eq_ok_iff.mpr holds]
  rfl

namespace Listing

variable {pool : Pool}

theorem Item.fails_fieldType {descriptor : Text}
    (deep : FieldType.parse descriptor = .error .tooDeep) :
    Item.Fails pool (.fieldType descriptor) .tooDeep := by
  unfold FieldType.parse at deep
  split at deep
  · cases deep
  · rename_i type parsed
    split at deep
    · exact .deepField parsed ‹_›
    · cases deep

theorem failsOnly_javaType (descriptor : Text) :
    FailsOnly (Causes pool [.fieldType descriptor]) (javaType descriptor) := by
  unfold javaType
  split
  · exact .pure _
  split
  · exact .pure _
  · rename_i deep
    exact .error (Item.fails_fieldType deep).causes
  · exact .pure _

theorem failsOnly_parameterLine {allowed : Failure → Prop} {p : MethodParameter}
    (closed : Closed pool p.references) : FailsOnly allowed (parameterLine pool p) := by
  apply FailsOnly.bind_pure
  unfold parameterName
  split
  · exact .pure _
  · rename_i some
    exact .of_ok (Pool.Leads.utf8 (closed_optionalReference.mp closed some))

section
variable (sound : pool.Sound)
include sound

theorem failsOnly_describe {refs : List Reference} {index : Int} {demand : Demand}
    (closed : Closed pool refs) (listed : ⟨index, demand⟩ ∈ refs) :
    FailsOnly (Causes pool (constantItems refs)) (pool.describe index) := by
  obtain ⟨e, holds, -⟩ := closed _ listed
  obtain succeeds | ⟨value, rfl, unwritable, fails⟩ := sound.checked.describe_cases holds
  · exact .of_ok succeeds
  · intro failure same
    rw [fails] at same
    cases same
    exact ⟨_, List.mem_map_of_mem listed, .overflow holds unwritable⟩

theorem failsOnly_instructionTexts {i : Instruction} (closed : Closed pool i.references) :
    FailsOnly (Causes pool (constantItems i.references)) (instructionTexts pool i) := by
  unfold instructionTexts
  cases shape : i.operands with
  | constant index | interfaceCall index _ | arrayDimensions index _ | dynamicCall index =>
    have listed : ⟨index, .anything⟩ ∈ i.references := by
      simp [Instruction.references, Instruction.constantIndex?, shape]
    exact (failsOnly_describe sound closed listed).bind_pure
  | _ => exact .pure _

theorem failsOnly_instructionLines {instructions : List Instruction}
    (closed : Closed pool (instructions.flatMap Instruction.references)) :
    FailsOnly (Causes pool (constantItems (instructions.flatMap Instruction.references)))
      (instructionLines pool instructions) := by
  rw [constantItems, List.map_flatMap]
  apply FailsOnly.bind_pure
  apply FailsOnly.mapM_flatMap
  intro i listed
  exact failsOnly_instructionTexts sound (closed_flatMap.mp closed i listed)

theorem failsOnly_handlerLines {allowed : Failure → Prop} {handlers : List ExceptionHandler}
    (closed : Closed pool (handlers.flatMap ExceptionHandler.references)) :
    FailsOnly allowed (handlerLines pool handlers) := by
  unfold handlerLines
  split
  · exact .pure _
  apply FailsOnly.bind_pure
  apply FailsOnly.mapM
  intro h listed
  apply FailsOnly.bind_pure
  unfold caughtText
  split
  · exact .pure _
  · rename_i some
    have leads := closed_optionalReference.mp (closed_flatMap.mp closed h listed) some
    exact FailsOnly.bind_pure (.of_ok (sound.checked.describe_of_kind leads (by decide)))

theorem failsOnly_classNames {allowed : Failure → Prop} {indices : List Nat}
    (closed : Closed pool (indices.map .toClass)) :
    FailsOnly allowed (indices.mapM fun (index : Nat) => pool.className index) := by
  apply FailsOnly.mapM
  intro index listed
  exact .of_ok ((Pool.exists_className_iff sound.linked).mpr (closed_map.mp closed index listed))

theorem failsOnly_constantValueLine {refs : List Reference} {index : Nat} {demand : Demand}
    (closed : Closed pool refs) (listed : ⟨index, demand⟩ ∈ refs) :
    FailsOnly (Causes pool (constantItems refs)) (constantValueLine pool index) := by
  obtain ⟨e, holds, -⟩ := closed _ listed
  refine FailsOnly.bind_of_ok ⟨e, Pool.get_eq_ok_iff.mpr holds⟩ ?_
  intro _ _
  exact (failsOnly_describe sound closed listed).bind_pure

theorem failsOnly_innerClassLine {allowed : Failure → Prop} {c : InnerClass}
    (closed : Closed pool c.references) : FailsOnly allowed (innerClassLine pool c) := by
  simp only [InnerClass.references, closed_append, closed_cons, closed_optionalReference] at closed
  obtain ⟨⟨inner, outer⟩, name⟩ := closed
  have innerTexts : FailsOnly allowed (innerClassTexts pool c) := by
    unfold innerClassTexts
    refine FailsOnly.bind_of_ok (sound.checked.describe_of_kind inner (by decide)) ?_
    intro _ _
    split
    · exact .pure _
    · rename_i some
      exact FailsOnly.bind_pure (.of_ok (Pool.Leads.utf8 (name some)))
  have outerTexts : FailsOnly allowed (outerClassTexts pool c) := by
    unfold outerClassTexts
    split
    · exact .pure _
    · rename_i some
      exact FailsOnly.bind_pure (.of_ok (sound.checked.describe_of_kind (outer some) (by decide)))
  exact innerTexts.bind fun _ _ => outerTexts.bind_pure

theorem failsOnly_enclosingMethodLine {allowed : Failure → Prop} {classIndex methodIndex : Nat}
    (closed : Closed pool (Body.references (.enclosingMethod classIndex methodIndex))) :
    FailsOnly allowed (enclosingMethodLine pool classIndex methodIndex) := by
  simp only [Body.references, closed_cons, closed_optionalReference] at closed
  obtain ⟨owner, method⟩ := closed
  unfold enclosingMethodLine
  refine FailsOnly.bind_of_ok (sound.checked.describe_of_kind owner (by decide)) ?_
  intro _ _
  split
  · exact .pure _
  · rename_i some
    have named := (Pool.exists_nameAndType_iff sound.linked).mpr (method some)
    exact FailsOnly.bind_pure (.of_ok named)

theorem failsOnly_bootstrapMethodLines {number : Nat} {m : BootstrapMethod}
    (closed : Closed pool m.references) :
    FailsOnly (Causes pool (constantItems m.references)) (bootstrapMethodLines pool number m) := by
  have handle := closed _ List.mem_cons_self
  refine FailsOnly.bind_of_ok (sound.checked.describe_of_kind handle (by decide)) ?_
  intro _ _
  apply FailsOnly.bind_pure
  apply FailsOnly.mapM
  intro index listed
  have among : ⟨index, .oneOf Pool.loadable⟩ ∈ m.references :=
    List.mem_cons_of_mem _ (List.mem_map_of_mem listed)
  exact (failsOnly_describe sound closed among).bind_pure

end

/-- What goes wrong in the values of an annotation: they nest too deeply, in a type or among
themselves, or one of them is a float that cannot be written. -/
def ValueFailure (pool : Pool) (refs : List Reference) (failure : Failure) : Prop :=
  failure = .tooDeep ∨ Causes pool (constantItems refs) failure

section
variable {refs : List Reference}

theorem valueFailure_javaType (descriptor : Text) :
    FailsOnly (ValueFailure pool refs) (javaType descriptor) := by
  have only : FailsOnly (Causes pool [.fieldType descriptor]) (javaType descriptor) :=
    failsOnly_javaType descriptor
  refine only.mono ?_
  rintro failure ⟨item, listed, fails⟩
  obtain rfl := List.mem_singleton.mp listed
  cases fails
  exact .inl rfl

theorem failsOnly_annotationTextWith {valueText : ElementValue → Except Failure Text}
    {a : AnnotationOf ElementValue}
    (each : ∀ e ∈ a.elements, FailsOnly (ValueFailure pool refs) (valueText e.2)) :
    FailsOnly (ValueFailure pool refs) (annotationTextWith valueText a) := by
  refine (valueFailure_javaType a.typeName).bind fun _ _ => ?_
  split
  · exact .pure _
  · apply FailsOnly.bind_pure
    apply FailsOnly.mapM
    intro e element
    exact (each e element).bind_pure

theorem element_references_subset {a : AnnotationOf ElementValue} {e : Text × ElementValue}
    (element : e ∈ a.elements) : e.2.references ⊆ annotationReferences a := by
  obtain ⟨typeIndex, typeName, elements⟩ := a
  rw [annotationReferences]
  intro r listed
  exact List.mem_cons_of_mem _ (List.mem_flatMap.mpr ⟨e, element, listed⟩)

variable (sound : pool.Sound) (closed : Closed pool refs)
include sound closed

theorem failsOnly_constantText {tag : ElementTag} {index : Nat}
    (listed : ⟨index, .oneOf [tag.kind]⟩ ∈ refs) :
    FailsOnly (ValueFailure pool refs) (constantText pool tag index) := by
  have leads : pool.Leads index [tag.kind] := closed _ listed
  have described : FailsOnly (ValueFailure pool refs) (pool.describe index) :=
    (failsOnly_describe sound closed listed).mono fun _ => .inr
  cases tag with
  | string => exact FailsOnly.bind_pure (.of_ok leads.utf8)
  | boolean => exact FailsOnly.bind_pure (.of_ok leads.integer)
  | char => exact FailsOnly.bind_pure (.of_ok leads.integer)
  | classType =>
    exact FailsOnly.bind_of_ok leads.utf8 fun _ _ => (valueFailure_javaType _).bind_pure
  | byte | double | float | int | long | short => exact described

theorem failsOnly_valueText {v : ElementValue} (among : v.references ⊆ refs) (budget : Nat) :
    FailsOnly (ValueFailure pool refs) (valueText pool budget v) := by
  -- What is nested is written on what is left of the budget, so the budget varies.
  induction v using ElementValue.induction generalizing budget with
  | constant tag index =>
    rw [ElementValue.references, List.cons_subset] at among
    rw [valueText]
    exact failsOnly_constantText sound closed among.1
  | enumConstant type name =>
    simp only [ElementValue.references, List.cons_subset] at among
    obtain ⟨type, name, -⟩ := among
    rw [valueText]
    refine FailsOnly.bind_of_ok (Pool.Leads.utf8 (closed _ type)) fun _ _ => ?_
    refine (valueFailure_javaType _).bind fun _ _ => ?_
    exact FailsOnly.bind_pure (.of_ok (Pool.Leads.utf8 (closed _ name)))
  | nested a ih =>
    rw [ElementValue.references] at among
    unfold valueText
    split
    · apply FailsOnly.bind_pure
      apply failsOnly_annotationTextWith
      intro e element
      exact ih e element (List.Subset.trans (element_references_subset element) among) _
    · exact .error (.inl rfl)
  | array values ih =>
    rw [ElementValue.references] at among
    unfold valueText
    split
    · apply FailsOnly.bind_pure
      apply FailsOnly.mapM
      intro v item
      have inside : v.references ⊆ values.flatMap fun v => v.references :=
        fun r listed => List.mem_flatMap.mpr ⟨v, item, listed⟩
      exact ih v item (List.Subset.trans inside among) _
    · exact .error (.inl rfl)

end

section
variable (sound : pool.Sound)
include sound

theorem failsOnly_annotationText {a : AnnotationOf ElementValue}
    (closed : Closed pool (annotationReferences a)) :
    FailsOnly (Causes pool (.fieldType a.typeName :: constantItems (annotationReferences a)))
      (annotationText pool a) := by
  have inner : FailsOnly (ValueFailure pool (annotationReferences a))
      (annotationTextWith (valueText pool nestingBudget) a) := by
    apply failsOnly_annotationTextWith
    intro e element
    exact failsOnly_valueText sound closed (element_references_subset element) _
  unfold annotationText
  split
  · -- The type alone is shown now, so what is left is that it cannot be spelled out either.
    refine FailsOnly.bind_pure ((failsOnly_javaType a.typeName).mono fun _ cause => cause.mono ?_)
    exact List.cons_subset_cons _ (List.nil_subset _)
  · rename_i shallow
    intro failure fails
    obtain rfl | cause := inner failure fails
    · exact absurd fails shallow
    · exact cause.mono (List.subset_cons_self _ _)

theorem failsOnly_bodyLines {body : Body} (name : Text)
    (closed : Closed pool (Body.references body)) :
    FailsOnly (Causes pool (bodyItems body)) (bodyLines pool name body) := by
  cases body with
  | code code =>
    obtain ⟨maxStack, maxLocals, bytes, handlers, attributes, instructions⟩ := code
    rw [Body.references] at closed
    have shown : Closed pool (instructions.flatMap Instruction.references) :=
      (closed_append.mp (closed_append.mp closed).1).1
    exact (failsOnly_instructionLines sound shown).bind_pure
  | annotations visible values =>
    rw [Body.references, closed_flatMap] at closed
    refine FailsOnly.bind_pure (FailsOnly.mapM_zipIdx fun a listed number => ?_)
    exact (failsOnly_annotationText sound (closed a listed)).bind_pure
  | constantValue index =>
    change FailsOnly (Causes pool (constantItems (Body.references (.constantValue index)))) _
    rw [Body.references] at closed ⊢
    exact FailsOnly.bind_pure
      (failsOnly_constantValueLine sound closed (List.mem_singleton_self _))
  | nestHost index =>
    rw [Body.references] at closed
    have leads := closed _ (List.mem_singleton_self _)
    exact FailsOnly.bind_pure (.of_ok (sound.checked.describe_of_kind leads (by decide)))
  | exceptions indices =>
    rw [Body.references] at closed
    exact (failsOnly_classNames sound closed).bind_pure.bind_pure
  | nestMembers indices =>
    rw [Body.references, closed_map] at closed
    refine FailsOnly.bind_pure (FailsOnly.mapM fun index listed => FailsOnly.bind_pure ?_)
    exact .of_ok (sound.checked.describe_of_kind (closed index listed) (by decide))
  | innerClasses classes =>
    rw [Body.references, closed_flatMap] at closed
    refine FailsOnly.bind_pure (FailsOnly.mapM fun c listed => ?_)
    exact failsOnly_innerClassLine sound (closed c listed)
  | bootstrapMethods methods =>
    change FailsOnly (Causes pool (constantItems (Body.references (.bootstrapMethods methods)))) _
    rw [Body.references, closed_flatMap] at closed
    rw [Body.references, constantItems, List.map_flatMap]
    refine FailsOnly.bind_pure (FailsOnly.mapM_zipIdx fun m listed number => ?_)
    exact failsOnly_bootstrapMethodLines sound (closed m listed)
  | methodParameters parameters =>
    rw [Body.references, closed_flatMap] at closed
    refine FailsOnly.bind_pure (FailsOnly.mapM fun p listed => ?_)
    exact failsOnly_parameterLine (closed p listed)
  | enclosingMethod classIndex methodIndex =>
    exact (failsOnly_enclosingMethodLine sound closed).bind_pure
  | sourceFile index text | signature index text | deprecated | synthetic | lineNumbers entries
  | localVariables generic entries => exact .pure _

theorem failsOnly_attributeLines {a : Attribute} (closed : Closed pool a.references) :
    FailsOnly (Causes pool (attributeItems a)) (attributeLines pool a) := by
  obtain ⟨nameIndex, name, info, _ | body⟩ := a
  · exact .pure _
  · rw [Attribute.references] at closed
    exact failsOnly_bodyLines sound name (closed_cons.mp closed).2

theorem failsOnly_attributesLines (options : Options) {attributes : List Attribute}
    (closed : Closed pool (attributes.flatMap Attribute.references)) :
    FailsOnly (Causes pool (attributesItems options attributes))
      (attributesLines options pool attributes) := by
  unfold attributesItems attributesLines
  split
  · apply FailsOnly.bind_pure
    apply FailsOnly.mapM_flatMap
    intro a listed
    exact failsOnly_attributeLines sound (closed_flatMap.mp closed a listed)
  · exact .pure _

end

end Listing

end JavaClass
