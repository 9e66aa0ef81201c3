import JavaClass.Listing.ClassFile
import JavaClass.Proofs.Listing.Attribute

/-!
When a listing fails. What it shows hangs on the options; if it cannot be written, one of the floats
or types that it shows is the reason.
-/

namespace JavaClass

open Format

namespace Listing

def fieldItems (options : Options) (m : Member) : List Item :=
  .fieldType m.descriptor :: attributesItems options m.attributes

def codeItems (options : Options) (m : Member) (code : Code) : List Item :=
  .methodType m.descriptor ::
    (constantItems (code.instructions.flatMap Instruction.references) ++
      attributesItems options code.attributes)

def methodAttributeItems (options : Options) (m : Member) (a : Attribute) : List Item :=
  match a.body with
  | some (.code code) => if options.code then codeItems options m code else []
  | _ => attributesItems options [a]

/-- A class initializer is declared without its type. -/
def methodItems (options : Options) (m : Member) : List Item :=
  (if m.name = Text.ofString "<clinit>" then [] else [.methodType m.descriptor]) ++
    m.attributes.flatMap (methodAttributeItems options m)

def poolItems (options : Options) (pool : Pool) : List Item :=
  if options.pool then pool.entries.map fun (index, _) => .constant index else []

def memberItems (options : Options) (c : ClassFile) : List Item :=
  (c.fields.filter (isShown options)).flatMap (fieldItems options) ++
    (c.methods.filter (isShown options)).flatMap (methodItems options)

/-- What a listing with these options shows. -/
def items (options : Options) (c : ClassFile) : List Item :=
  poolItems options c.pool ++ (memberItems options c ++ attributesItems options c.attributes)

variable {pool : Pool}

theorem Item.fails_methodType {descriptor : Text}
    (deep : MethodType.parse descriptor = .error .tooDeep) :
    Item.Fails pool (.methodType descriptor) .tooDeep := by
  unfold MethodType.parse at deep
  split at deep
  · cases deep
  · rename_i type parsed
    split at deep
    · exact .deepMethod parsed ‹_›
    · cases deep

theorem failsOnly_argumentSlotsText (m : Member) :
    FailsOnly (Causes pool [.methodType m.descriptor]) (argumentSlotsText m) := by
  unfold argumentSlotsText Member.argumentSlots
  cases parsed : MethodType.parse m.descriptor with
  | ok type => exact .pure _
  | error failure =>
    cases failure with
    | tooDeep => exact .error (Item.fails_methodType parsed).causes
    | _ => exact .pure _

section
variable (sound : pool.Sound)
include sound

theorem failsOnly_fieldLines (options : Options) {m : Member} (closed : Closed pool m.references) :
    FailsOnly (Causes pool (fieldItems options m)) (fieldLines options pool m) := by
  simp only [Member.references, closed_cons] at closed
  obtain ⟨-, -, attached⟩ := closed
  refine FailsOnly.bind_append (failsOnly_javaType m.descriptor).bind_pure fun _ _ => ?_
  exact (failsOnly_attributesLines sound options attached).bind_pure

theorem failsOnly_codeLines (options : Options) (m : Member) {code : Code}
    (closed : Closed pool (Body.references (.code code))) :
    FailsOnly (Causes pool (codeItems options m code)) (codeLines options pool m code) := by
  obtain ⟨maxStack, maxLocals, bytes, handlers, attributes, instructions⟩ := code
  simp only [Body.references, closed_append] at closed
  obtain ⟨⟨named, caught⟩, attached⟩ := closed
  refine FailsOnly.bind_append (failsOnly_argumentSlotsText m) fun _ _ => ?_
  refine FailsOnly.bind_append (failsOnly_instructionLines sound named) fun _ _ => ?_
  refine (failsOnly_handlerLines sound caught).bind fun _ _ => ?_
  exact (failsOnly_attributesLines sound options attached).bind_pure

theorem failsOnly_methodAttributeLines (options : Options) (m : Member) {a : Attribute}
    (closed : Closed pool a.references) :
    FailsOnly (Causes pool (methodAttributeItems options m a))
      (methodAttributeLines options pool m a) := by
  have alone : Closed pool ([a].flatMap Attribute.references) := by simpa using closed
  obtain ⟨nameIndex, name, info, _ | body⟩ := a
  · exact failsOnly_attributesLines sound options alone
  cases body with
  | code code =>
    rw [Attribute.references] at closed
    unfold methodAttributeItems methodAttributeLines
    dsimp only
    split
    · exact failsOnly_codeLines sound options m (closed_cons.mp closed).2
    · exact .pure _
  | _ => exact failsOnly_attributesLines sound options alone

theorem failsOnly_poolLine {index : Nat} {e : Entry} (holds : pool.Holds index e) :
    FailsOnly (Causes pool [.constant index]) (poolLine pool index e) := by
  have fields : FailsOnly (Causes pool [.constant index]) (poolFields e) := by
    cases e with
    | float value =>
      apply FailsOnly.bind_pure
      intro failure fails
      obtain rfl := Binary64.singleLiteral_eq_error fails
      exact (Item.Fails.overflow holds fails).causes
    | _ => exact .pure _
  have closed : Closed pool [⟨index, .anything⟩] :=
    closed_cons.mpr ⟨⟨e, holds, trivial⟩, closed_nil⟩
  refine fields.bind fun _ _ => ?_
  split
  · exact .pure _
  · exact (failsOnly_describe sound closed (List.mem_singleton_self _)).bind_pure

theorem failsOnly_shownPoolLines (options : Options) :
    FailsOnly (Causes pool (poolItems options pool)) (shownPoolLines options pool) := by
  unfold poolItems shownPoolLines
  split
  · rw [List.map_eq_flatMap]
    apply FailsOnly.bind_pure
    apply FailsOnly.mapM_flatMap
    rintro ⟨index, e⟩ listed
    exact failsOnly_poolLine sound ((Pool.holds_iff_mem_entries sound.first_empty).mpr listed)
  · exact .pure _

end

theorem mem_of_findBody? {attributes : List Attribute} {known : AttributeName} {body : Body}
    (found : findBody? attributes known = some body) : ∃ a ∈ attributes, a.body = some body := by
  obtain ⟨a, first, has⟩ := Option.bind_eq_some_iff.mp found
  exact ⟨a, List.mem_of_find?_eq_some first, has⟩

theorem closed_exceptions {m : Member} (closed : Closed pool m.references) :
    Closed pool (m.exceptions.map .toClass) := by
  simp only [Member.references, closed_cons, closed_flatMap] at closed
  unfold Member.exceptions
  split
  · rename_i indices found
    obtain ⟨⟨nameIndex, name, info, body⟩, listed, rfl⟩ := mem_of_findBody? found
    have here := closed.2.2 _ listed
    rw [Attribute.references, closed_cons, Body.references] at here
    exact here.2
  · exact closed_nil

section
variable {c : ClassFile} (sound : c.pool.Sound)
include sound

theorem exists_superName?
    (parent : Closed c.pool (optionalReference c.superClass (.oneOf [.classRef]))) :
    ∃ name, c.superName? = .ok name := by
  unfold ClassFile.superName?
  split
  · exact ⟨_, rfl⟩
  · rename_i some
    have leads : c.pool.Leads c.superClass [.classRef] := closed_optionalReference.mp parent some
    obtain ⟨name, found⟩ := (Pool.exists_className_iff sound.linked).mpr leads
    rw [found]
    exact ⟨_, rfl⟩

variable (own : (Reference.toClass c.thisClass).Resolves c.pool)
include own

theorem exists_name : ∃ name, c.name = .ok name :=
  (Pool.exists_className_iff sound.linked).mpr own

theorem failsOnly_methodDeclaration {m : Member} (closed : Closed c.pool m.references) :
    FailsOnly (Causes c.pool
        (if m.name = Text.ofString "<clinit>" then [] else [.methodType m.descriptor]))
      (methodDeclaration c m) := by
  unfold methodDeclaration
  split
  · exact .pure _
  cases parsed : MethodType.parse m.descriptor with
  | ok type =>
    refine FailsOnly.bind_of_ok (exists_name sound own) fun _ _ => FailsOnly.bind_pure ?_
    unfold throwsClause
    split
    · exact .pure _
    · exact (failsOnly_classNames sound (closed_exceptions closed)).bind_pure.bind_pure
  | error failure =>
    cases failure with
    | tooDeep => exact .error (Item.fails_methodType parsed).causes
    | _ => exact .pure _

theorem failsOnly_methodLines (options : Options) {m : Member}
    (closed : Closed c.pool m.references) :
    FailsOnly (Causes c.pool (methodItems options m)) (methodLines options c m) := by
  refine FailsOnly.bind_append (failsOnly_methodDeclaration sound own closed) fun _ _ => ?_
  simp only [Member.references, closed_cons, closed_flatMap] at closed
  refine FailsOnly.bind_pure (FailsOnly.mapM_flatMap fun a listed => ?_)
  exact failsOnly_methodAttributeLines sound options m (closed.2.2 a listed)

theorem failsOnly_memberLines (options : Options)
    (fields : Closed c.pool (c.fields.flatMap Member.references))
    (methods : Closed c.pool (c.methods.flatMap Member.references)) :
    FailsOnly (Causes c.pool (memberItems options c)) (memberLines options c) := by
  rw [closed_flatMap] at fields methods
  apply FailsOnly.bind_append
  · apply FailsOnly.mapM_flatMap
    intro m shown
    exact failsOnly_fieldLines sound options (fields m (List.mem_of_mem_filter shown))
  · intro _ _
    apply FailsOnly.bind_pure
    apply FailsOnly.mapM_flatMap
    intro m shown
    exact failsOnly_methodLines sound own options (methods m (List.mem_of_mem_filter shown))

theorem failsOnly_classDeclaration {allowed : Failure → Prop}
    (parent : Closed c.pool (optionalReference c.superClass (.oneOf [.classRef])))
    (interfaces : Closed c.pool (c.interfaces.map .toClass)) :
    FailsOnly allowed (classDeclaration c) := by
  have parents : FailsOnly allowed (classParents c) := by
    refine (failsOnly_classNames sound interfaces).bind fun _ _ => ?_
    dsimp only
    split
    · exact .pure _
    · refine FailsOnly.bind_of_ok (exists_superName? sound parent) fun _ _ => ?_
      split
      · split <;> exact .pure _
      · exact .pure _
  refine FailsOnly.bind_of_ok (exists_name sound own) fun _ _ => ?_
  dsimp only
  split
  · exact .pure _
  · exact parents.bind_pure

theorem failsOnly_headerLines {allowed : Failure → Prop}
    (parent : Closed c.pool (optionalReference c.superClass (.oneOf [.classRef]))) :
    FailsOnly allowed (headerLines c) :=
  FailsOnly.bind_of_ok (exists_name sound own) fun _ _ =>
    FailsOnly.bind_pure (.of_ok (exists_superName? sound parent))

end

theorem failsOnly_listing {c : ClassFile} (sound : c.pool.Sound)
    (closed : Closed c.pool c.references) (options : Options) :
    FailsOnly (Causes c.pool (items options c)) (c.listing options) := by
  simp only [ClassFile.references, closed_append, closed_cons] at closed
  obtain ⟨⟨⟨⟨⟨⟨own, parent⟩, interfaces⟩, fields⟩, methods⟩, attributes⟩, -⟩ := closed
  apply FailsOnly.map
  refine (failsOnly_classDeclaration sound own parent interfaces).bind fun _ _ => ?_
  refine (failsOnly_headerLines sound own parent).bind fun _ _ => ?_
  refine FailsOnly.bind_append (failsOnly_shownPoolLines sound options) fun _ _ => ?_
  refine FailsOnly.bind_append (failsOnly_memberLines sound own options fields methods)
    fun _ _ => ?_
  exact (failsOnly_attributesLines sound options attributes).bind_pure

end Listing

section
variable {pool : Pool}

/-- A recognised attribute has the body that its name calls for. -/
theorem Attribute.exists_body {a : Attribute} {known : AttributeName}
    (possible : Possible (a.encoding pool)) (named : a.name = known.name) :
    ∃ body, a.body = some body ∧ Body.name body = known := by
  rw [encoding_eq, possible_mul, possible_require] at possible
  obtain ⟨fits, -⟩ := possible
  obtain ⟨nameIndex, name, info, _ | body⟩ := a
  · exact absurd named (fits known)
  · refine ⟨body, rfl, Option.some.inj ?_⟩
    rw [← AttributeName.ofText?_eq_some_iff.mpr fits.1, AttributeName.ofText?_eq_some_iff]
    exact named

theorem Attribute.possible_of_code {a : Attribute} {code : Code}
    (possible : Possible (a.encoding pool)) (isCode : a.body = some (.code code)) :
    ∀ b ∈ code.attributes, Possible (b.encoding pool) := by
  rw [encoding_eq, possible_mul, possible_require] at possible
  obtain ⟨fits, -⟩ := possible
  obtain ⟨nameIndex, name, info, body⟩ := a
  obtain rfl : body = _ := isCode
  have inside : Possible (Body.encoding pool (.code code)) := ⟨info, fits.2⟩
  obtain ⟨maxStack, maxLocals, bytes, handlers, attributes, instructions⟩ := code
  rw [Body.encoding] at inside
  simp only [possible_mul] at inside
  exact inside.2.2.of_counted

end

namespace ClassFile

/-- The attributes of a class file: its own, those of its members and those of code, at any
depth. -/
inductive Carries (c : ClassFile) : Attribute → Prop
  | ofClass {a : Attribute} (listed : a ∈ c.attributes) : Carries c a
  | ofField {m : Member} {a : Attribute} (field : m ∈ c.fields) (listed : a ∈ m.attributes) :
      Carries c a
  | ofMethod {m : Member} {a : Attribute} (method : m ∈ c.methods) (listed : a ∈ m.attributes) :
      Carries c a
  | ofCode {a b : Attribute} {code : Code} (outer : Carries c a)
      (isCode : a.body = some (.code code)) (listed : b ∈ code.attributes) : Carries c b

variable {c : ClassFile}

theorem possible_of_carries {a : Attribute} (contents : Possible c.contents)
    (carries : c.Carries a) : Possible (a.encoding c.pool) := by
  simp only [ClassFile.contents, possible_mul] at contents
  obtain ⟨⟨⟨-, fields⟩, methods⟩, attributes⟩ := contents
  have ofMember {m : Member} (possible : Possible (m.encoding c.pool)) :
      ∀ a ∈ m.attributes, Possible (a.encoding c.pool) :=
    Attribute.possible_of_blocks (possible_mul.mp possible).2
  induction carries with
  | ofClass listed => exact Attribute.possible_of_blocks attributes _ listed
  | ofField field listed => exact ofMember (fields.of_counted _ field) _ listed
  | ofMethod method listed => exact ofMember (methods.of_counted _ method) _ listed
  | ofCode _ isCode listed possible => exact Attribute.possible_of_code possible isCode _ listed

/-- A class file that is accepted can be listed, or else something that the listing shows is a
float that cannot be written or a type with too many dimensions. No attribute lacks a body that its
name calls for. -/
theorem listing_of_parse {data : List UInt8} {limit : Option Int}
    (accepted : parse data limit = .ok c) (options : Listing.Options) :
    ((∃ text, c.listing options = .ok text) ∨
      ∃ failure, c.listing options = .error failure ∧
        ∃ item ∈ Listing.items options c, item.Fails c.pool failure) ∧
    ∀ a, c.Carries a → ∀ known : AttributeName, a.name = known.name →
      ∃ body, a.body = some body ∧ Body.name body = known := by
  obtain ⟨sound, contents⟩ := parts_of_parse accepted
  have only := Listing.failsOnly_listing sound (closed_of_contents sound contents) options
  constructor
  · cases listed : c.listing options with
    | ok text => exact .inl ⟨text, rfl⟩
    | error failure => exact .inr ⟨failure, rfl, only failure listed⟩
  · intro a carries known named
    exact Attribute.exists_body (possible_of_carries contents carries) named

theorem listing_of_parse_sample :
    ∃ c, parse sample none = .ok c ∧ ∃ item ∈ Listing.items ⟨true, true, true, true⟩ c,
      item.Fails c.pool .floatOverflow := by
  obtain ⟨c, accepted⟩ := exists_parse_sample
  have fails : (parse sample none).bind (listing ⟨true, true, true, true⟩) =
      .error .floatOverflow := by decide +kernel
  rw [accepted] at fails
  obtain ⟨text, listed⟩ | ⟨failure, listed, cause⟩ :=
    (listing_of_parse accepted ⟨true, true, true, true⟩).1
  · cases fails.symm.trans listed
  · cases fails.symm.trans listed
    exact ⟨c, accepted, cause⟩

end ClassFile

end JavaClass
