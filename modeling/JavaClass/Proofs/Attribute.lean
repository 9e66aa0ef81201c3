import JavaClass.Proofs.Annotation
import JavaClass.Proofs.Code

/-!
The format of attributes: a name, a length and that many bytes, which for a recognised name are the
body that goes with it and nothing else. Reading an attribute accepts this format alone.
-/

namespace JavaClass

open Format

section
variable (pool : Pool)

def ExceptionHandler.encoding (h : ExceptionHandler) : Language UInt8 :=
  unsigned 2 h.startPc * unsigned 2 h.endPc * unsigned 2 h.handlerPc *
    pool.optionalIndexOf [.classRef] h.catchType

def LineNumber.encoding (n : LineNumber) : Language UInt8 :=
  unsigned 2 n.startPc * unsigned 2 n.line

def LocalVariable.encoding (v : LocalVariable) : Language UInt8 :=
  unsigned 2 v.startPc * unsigned 2 v.length * pool.indexOfText v.name v.nameIndex *
    pool.indexOfText v.descriptor v.descriptorIndex * unsigned 2 v.slot

def InnerClass.encoding (c : InnerClass) : Language UInt8 :=
  pool.indexOf [.classRef] c.innerIndex * pool.optionalIndexOf [.classRef] c.outerIndex *
    pool.optionalIndexOf [.utf8] c.nameIndex * unsigned 2 c.flags

def BootstrapMethod.encoding (m : BootstrapMethod) : Language UInt8 :=
  pool.indexOf [.methodHandle] m.handleIndex *
    counted 2 (m.arguments.map (pool.indexOf Pool.loadable))

def MethodParameter.encoding (p : MethodParameter) : Language UInt8 :=
  pool.optionalIndexOf [.utf8] p.nameIndex * unsigned 2 p.flags

end

/-- The recognised attribute that has such a body. -/
def Body.name : Body → AttributeName
  | .constantValue _ => .constantValue
  | .code _ => .code
  | .exceptions _ => .exceptions
  | .sourceFile .. => .sourceFile
  | .lineNumbers _ => .lineNumberTable
  | .localVariables false _ => .localVariableTable
  | .localVariables true _ => .localVariableTypeTable
  | .signature .. => .signature
  | .deprecated => .deprecated
  | .synthetic => .synthetic
  | .innerClasses _ => .innerClasses
  | .enclosingMethod .. => .enclosingMethod
  | .bootstrapMethods _ => .bootstrapMethods
  | .methodParameters _ => .methodParameters
  | .nestHost _ => .nestHost
  | .nestMembers _ => .nestMembers
  | .annotations true _ => .visibleAnnotations
  | .annotations false _ => .invisibleAnnotations

/-- Every constant that an instruction names is in the pool. -/
def Pool.Resolves (pool : Pool) (instructions : List Instruction) : Prop :=
  ∀ i ∈ instructions, ∀ index, i.constantIndex? = some index → ∃ e, pool.Holds index e

mutual

/-- An attribute has a body exactly if its name is recognised. -/
def Attribute.encoding (pool : Pool) : Attribute → Language UInt8
  | ⟨nameIndex, name, info, none⟩ =>
    require (∀ known : AttributeName, name ≠ known.name) *
      (pool.indexOfText name nameIndex * unsigned 4 info.length * exactly info)
  | ⟨nameIndex, name, info, some body⟩ =>
    require (name = (Body.name body).name ∧ info ∈ Body.encoding pool body) *
      (pool.indexOfText name nameIndex * unsigned 4 info.length * exactly info)
termination_by a => sizeOf a

/-- The bytes of a body, all of them. -/
def Body.encoding (pool : Pool) : Body → Language UInt8
  | .constantValue index => pool.indexOf [.integer, .float, .long, .double, .string] index
  | .code ⟨maxStack, maxLocals, code, handlers, attributes, instructions⟩ =>
    require (disassemble code 0 = .ok instructions ∧ pool.Resolves instructions) *
      (unsigned 2 maxStack * unsigned 2 maxLocals * unsigned 4 code.length * exactly code *
        counted 2 (handlers.map (ExceptionHandler.encoding pool)) *
        counted 2 (attributes.map fun a => a.encoding pool))
  | .exceptions indices => counted 2 (indices.map (pool.indexOf [.classRef]))
  | .sourceFile index name => pool.indexOfText name index
  | .lineNumbers entries => counted 2 (entries.map LineNumber.encoding)
  | .localVariables _ entries => counted 2 (entries.map (LocalVariable.encoding pool))
  | .signature index signature => pool.indexOfText signature index
  | .deprecated | .synthetic => 1
  | .innerClasses classes => counted 2 (classes.map (InnerClass.encoding pool))
  | .enclosingMethod classIndex methodIndex =>
    pool.indexOf [.classRef] classIndex * pool.optionalIndexOf [.nameAndType] methodIndex
  | .bootstrapMethods methods => counted 2 (methods.map (BootstrapMethod.encoding pool))
  | .methodParameters parameters => counted 1 (parameters.map (MethodParameter.encoding pool))
  | .nestHost index => pool.indexOf [.classRef] index
  | .nestMembers indices => counted 2 (indices.map (pool.indexOf [.classRef]))
  | .annotations _ values => counted 2 (values.map (annotationEncoding pool))
termination_by body => sizeOf body

end

mutual

/-- What reading an attribute takes off the budget. -/
def Attribute.depth : Attribute → Nat
  | ⟨_, _, _, none⟩ => 0
  | ⟨_, _, _, some body⟩ => Body.depth body
termination_by a => sizeOf a

def Body.depth : Body → Nat
  | .code ⟨_, _, _, _, attributes, _⟩ => (attributes.map fun a => a.depth + 4).foldr max 0
  | .annotations _ values => (values.map annotationDepth).foldr max 0
  | _ => 0
termination_by body => sizeOf body

end

section
variable {pool : Pool}

theorem Pool.follows_expectOptional {index : Nat} {kinds : List EntryKind}
    (specific : .memberRef ∉ kinds ∧ .unknown ∉ kinds) :
    Follows (liftM (pool.expectOptional index kinds) : Reader Unit)
      (fun _ => require (index = 0 ∨ pool.Leads index kinds)) := by
  refine (Follows.lift _).congr fun _ bytes => ?_
  unfold Pool.expectOptional
  by_cases none : index = 0
  · simp [none]
  · simp [none, Pool.discard_expect_eq_ok_iff specific]

theorem follows_readIndex {kinds : List EntryKind}
    (specific : .memberRef ∉ kinds ∧ .unknown ∉ kinds) :
    Follows (readIndex pool kinds) (pool.indexOf kinds) := by
  unfold readIndex
  refine Follows.congr (.bind Reader.follows_u2 fun index =>
    .bind (Pool.follows_expect specific) fun _ => .pure _) fun index bytes => ?_
  simp [Pool.indexOf]

theorem follows_readOptionalIndex {kinds : List EntryKind}
    (specific : .memberRef ∉ kinds ∧ .unknown ∉ kinds) :
    Follows (readOptionalIndex pool kinds) (pool.optionalIndexOf kinds) := by
  unfold readOptionalIndex
  refine Follows.congr (.bind Reader.follows_u2 fun index =>
    .bind (Pool.follows_expectOptional specific) fun _ => .pure _) fun index bytes => ?_
  simp [Pool.optionalIndexOf]

theorem follows_readIndices {kinds : List EntryKind}
    (specific : .memberRef ∉ kinds ∧ .unknown ∉ kinds) :
    Follows (readIndices pool kinds)
      (fun indices => counted 2 (indices.map (pool.indexOf kinds))) :=
  Follows.counted Reader.follows_u2 (follows_readIndex specific)

theorem follows_readText :
    Follows (readText pool) (fun (index, text) => pool.indexOfText text index) := by
  unfold readText
  refine Follows.congr (.bind Reader.follows_u2 fun index =>
    .bind (pool.follows_utf8 index) fun _ => .pure _) fun (index, text) bytes => ?_
  simp [Pool.indexOfText]

theorem ExceptionHandler.follows_read :
    Follows (ExceptionHandler.read pool) (ExceptionHandler.encoding pool) := by
  unfold ExceptionHandler.read
  refine Follows.congr (.bind Reader.follows_u2 fun _ => .bind Reader.follows_u2 fun _ =>
    .bind Reader.follows_u2 fun _ => .bind (follows_readOptionalIndex (by decide)) fun _ =>
      .pure _) fun ⟨_, _, _, _⟩ bytes => ?_
  simp [encoding, mul_assoc]

theorem LineNumber.follows_read : Follows LineNumber.read LineNumber.encoding := by
  unfold LineNumber.read
  refine Follows.congr (.bind Reader.follows_u2 fun _ => .bind Reader.follows_u2 fun _ =>
    .pure _) fun ⟨_, _⟩ bytes => ?_
  simp [encoding]

theorem LocalVariable.follows_read :
    Follows (LocalVariable.read pool) (LocalVariable.encoding pool) := by
  unfold LocalVariable.read
  refine Follows.congr (.bind Reader.follows_u2 fun _ => .bind Reader.follows_u2 fun _ =>
    .bind Reader.follows_u2 fun nameIndex => .bind Reader.follows_u2 fun descriptorIndex =>
      .bind Reader.follows_u2 fun _ => .bind (pool.follows_utf8 nameIndex) fun _ =>
        .bind (pool.follows_utf8 descriptorIndex) fun _ => .pure _)
          fun ⟨_, _, _, _, _, _, _⟩ bytes => ?_
  simp [encoding, Pool.indexOfText, mul_assoc]

theorem InnerClass.follows_read : Follows (InnerClass.read pool) (InnerClass.encoding pool) := by
  unfold InnerClass.read
  refine Follows.congr (.bind Reader.follows_u2 fun _ => .bind Reader.follows_u2 fun _ =>
    .bind Reader.follows_u2 fun _ => .bind Reader.follows_u2 fun _ =>
      .bind (Pool.follows_expect (by decide)) fun _ =>
        .bind (Pool.follows_expectOptional (by decide)) fun _ =>
          .bind (Pool.follows_expectOptional (by decide)) fun _ => .pure _)
            fun ⟨_, _, _, _⟩ bytes => ?_
  simp [encoding, Pool.indexOf, Pool.optionalIndexOf, mul_assoc, and_assoc]

theorem BootstrapMethod.follows_read :
    Follows (BootstrapMethod.read pool) (BootstrapMethod.encoding pool) := by
  unfold BootstrapMethod.read
  refine Follows.congr (.bind (follows_readIndex (by decide)) fun _ =>
    .bind (follows_readIndices (by decide)) fun _ => .pure _) fun ⟨_, _⟩ bytes => ?_
  simp [encoding]

theorem MethodParameter.follows_read :
    Follows (MethodParameter.read pool) (MethodParameter.encoding pool) := by
  unfold MethodParameter.read
  refine Follows.congr (.bind (follows_readOptionalIndex (by decide)) fun _ =>
    .bind Reader.follows_u2 fun _ => .pure _) fun ⟨_, _⟩ bytes => ?_
  simp [encoding]

theorem Pool.follows_get {indices : List Int} :
    Follows (indices.forM fun index => discard (liftM (pool.get index)) : Scanner Unit)
      (fun _ => require (∀ index ∈ indices, ∃ e, pool.Holds index e)) := by
  refine (Follows.forM indices fun index => .discard_lift_scan (pool.get index)).congr
    fun _ bytes => ?_
  simp only [prod_require, Pool.get_eq_ok_iff]

theorem Pool.resolves_iff {instructions : List Instruction} :
    pool.Resolves instructions ↔
      ∀ index ∈ instructions.filterMap fun i => do return ((← i.constantIndex?) : Int),
        ∃ e, pool.Holds index e := by
  simp only [Pool.Resolves, List.mem_filterMap, Option.bind_eq_bind, Option.bind_eq_some_iff]
  constructor
  · rintro resolves index ⟨i, listed, n, named, cast⟩
    obtain rfl := Option.some.inj cast
    exact resolves i listed n named
  · intro resolves i listed n named
    exact resolves n ⟨i, listed, n, named, rfl⟩

theorem follows_disassemble (code : List UInt8) (start : Int) :
    Follows (liftM (disassemble code start) : Scanner (List Instruction))
      (fun instructions => require (disassemble code 0 = .ok instructions)) := by
  refine (Follows.lift _).scan.congr fun instructions bytes => ?_
  rw [Disassembly.disassemble_ok_anywhere]

variable {nested : Scanner Attribute} {budget : Nat}

theorem Body.follows_code
    (follows : Follows nested (fun a => require (a.depth + 4 ≤ budget) * a.encoding pool)) :
    Follows (CodeOf.read pool nested)
      (fun c => require (Body.depth (.code c) ≤ budget) * Body.encoding pool (.code c)) := by
  unfold CodeOf.read
  refine Follows.congr (.bind Reader.follows_u2.scan fun _ => .bind Reader.follows_u2.scan fun _ =>
    .bind Reader.follows_u4.scan fun length => Follows.offset_bind_scan fun start =>
      .bind (Reader.follows_bytes length).scan fun code =>
        .bind (follows_disassemble code start) fun instructions => .bind Pool.follows_get fun _ =>
          .counted_bind Reader.follows_u2.scan ExceptionHandler.follows_read.scan fun handlers =>
            .counted_bind Reader.follows_u2.scan follows fun attributes => .pure _)
    fun c bytes => ?_
  obtain ⟨maxStack, maxLocals, code, handlers, attributes, instructions⟩ := c
  simp only [Body.depth, foldr_max_le_iff, Pool.resolves_iff, Body.encoding]
  simp [counted_require_mul, mul_assoc]
  -- The budget comes last in reading, as it is the attributes that need it.
  exact fun _ => and_rotate.symm

theorem Body.follows_read
    (follows : Follows nested (fun a => require (a.depth + 4 ≤ budget) * a.encoding pool))
    (known : AttributeName) :
    Follows (Body.read pool nested budget known) (fun b => require (Body.name b = known) *
      (require (Body.depth b ≤ budget) * Body.encoding pool b)) := by
  unfold Body.read
  cases known
  case' code =>
    refine .tagged (.bind (Body.follows_code follows) fun _ => .pure _)
      (of_mem_iSup_mul (by rintro _ _ ⟨rfl, _⟩; rfl)) fun b bytes same => ?_
  case' deprecated | synthetic =>
    refine .tagged (.pure _) (by rintro _ _ ⟨rfl, _⟩; rfl) fun b bytes same => ?_
  case' constantValue | nestHost =>
    refine .tagged (Follows.scan (.bind (follows_readIndex (by decide)) fun _ => .pure _))
      (of_mem_iSup_mul (by rintro _ _ ⟨rfl, _⟩; rfl)) fun b bytes same => ?_
  case' exceptions | nestMembers =>
    refine .tagged (Follows.scan (.bind (follows_readIndices (by decide)) fun _ => .pure _))
      (of_mem_iSup_mul (by rintro _ _ ⟨rfl, _⟩; rfl)) fun b bytes same => ?_
  case' sourceFile | signature =>
    refine .tagged (Follows.scan (.bind follows_readText fun _ => .pure _))
      (of_mem_iSup_mul (by rintro _ _ ⟨rfl, _⟩; rfl)) fun b bytes same => ?_
  case' enclosingMethod =>
    refine .tagged (Follows.scan (.bind (follows_readIndex (by decide)) fun _ =>
      .bind (follows_readOptionalIndex (by decide)) fun _ => .pure _))
        (of_mem_iSup_mul fun _ => of_mem_iSup_mul (by rintro _ _ ⟨rfl, _⟩; rfl))
          fun b bytes same => ?_
  case' lineNumberTable =>
    refine .tagged (Follows.scan (.counted_bind Reader.follows_u2 LineNumber.follows_read fun _ =>
      .pure _)) (of_mem_iSup_mul (by rintro _ _ ⟨rfl, _⟩; rfl)) fun b bytes same => ?_
  case' localVariableTable | localVariableTypeTable =>
    refine .tagged (Follows.scan (.counted_bind Reader.follows_u2 LocalVariable.follows_read
      fun _ => .pure _)) (of_mem_iSup_mul (by rintro _ _ ⟨rfl, _⟩; rfl)) fun b bytes same => ?_
  case' innerClasses =>
    refine .tagged (Follows.scan (.counted_bind Reader.follows_u2 InnerClass.follows_read fun _ =>
      .pure _)) (of_mem_iSup_mul (by rintro _ _ ⟨rfl, _⟩; rfl)) fun b bytes same => ?_
  case' bootstrapMethods =>
    refine .tagged (Follows.scan (.counted_bind Reader.follows_u2 BootstrapMethod.follows_read
      fun _ => .pure _)) (of_mem_iSup_mul (by rintro _ _ ⟨rfl, _⟩; rfl)) fun b bytes same => ?_
  case' methodParameters =>
    refine .tagged (Follows.scan (.counted_bind Reader.follows_u1 MethodParameter.follows_read
      fun _ => .pure _)) (of_mem_iSup_mul (by rintro _ _ ⟨rfl, _⟩; rfl)) fun b bytes same => ?_
  case' visibleAnnotations | invisibleAnnotations =>
    refine .tagged (Follows.scan (.counted_bind Reader.follows_u2
      (AnnotationOf.follows_read (ElementValue.follows_read pool budget)) fun _ => .pure _))
        (of_mem_iSup_mul (by rintro _ _ ⟨rfl, _⟩; rfl)) fun b bytes same => ?_
  -- The name leaves one shape of body.
  all_goals
    cases b with
    | localVariables generic _ =>
      cases generic <;> first | (cases same; done) | simp [Body.encoding, Body.depth]
    | annotations visible _ =>
      cases visible <;> first | (cases same; done) |
        simp [Body.encoding, Body.depth, counted_require_mul, foldr_max_le_iff]
    | _ => first | (cases same; done) | simp [Body.encoding, Body.depth]

end

theorem AttributeName.ofText?_eq_some_iff {text : Text} {known : AttributeName} :
    ofText? text = some known ↔ text = known.name := by
  constructor
  · intro found
    simpa [eq_comm] using List.find?_some found
  · rintro rfl
    cases known <;> rfl

theorem AttributeName.ofText?_eq_none_iff {text : Text} :
    ofText? text = none ↔ ∀ known : AttributeName, text ≠ known.name := by
  simp [← ofText?_eq_some_iff, Option.eq_none_iff_forall_ne_some]

namespace Attribute

/-- Whether the body, or that there is none, is what the name and the bytes call for. -/
def BodyFits (pool : Pool) (a : Attribute) : Prop :=
  match a.body with
  | none => ∀ known : AttributeName, a.name ≠ known.name
  | some body => a.name = (Body.name body).name ∧ a.info ∈ Body.encoding pool body

theorem encoding_eq (pool : Pool) (a : Attribute) :
    a.encoding pool = require (a.BodyFits pool) *
      (pool.indexOfText a.name a.nameIndex * unsigned 4 a.info.length * exactly a.info) := by
  obtain ⟨nameIndex, name, info, _ | body⟩ := a <;> rw [encoding] <;> rfl

variable {pool : Pool} {nested : Scanner Attribute} {budget : Nat}

theorem fits_unknown {a : Attribute} (unknown : AttributeName.ofText? a.name = none) :
    a.depth ≤ budget ∧ a.BodyFits pool ↔ a.body = none := by
  have other := AttributeName.ofText?_eq_none_iff.mp unknown
  obtain ⟨nameIndex, name, info, _ | body⟩ := a
  · exact ⟨fun _ => rfl, fun _ => ⟨by simp [depth], other⟩⟩
  · exact ⟨fun fits => absurd fits.2.1 (other _), nofun⟩

theorem fits_known {a : Attribute} {known : AttributeName}
    (found : AttributeName.ofText? a.name = some known) :
    a.depth ≤ budget ∧ a.BodyFits pool ↔ ∃ body, a.body = some body ∧ Body.name body = known ∧
      Body.depth body ≤ budget ∧ a.info ∈ Body.encoding pool body := by
  have same := AttributeName.ofText?_eq_some_iff.mp found
  obtain ⟨nameIndex, name, info, _ | body⟩ := a
  · exact ⟨fun fits => absurd same (fits.2 known), by rintro ⟨_, ⟨⟩, _⟩⟩
  · rw [depth]
    constructor
    · rintro ⟨shallow, named, inside⟩
      have here := AttributeName.ofText?_eq_some_iff.mpr named
      exact ⟨body, rfl, Option.some.inj (here.symm.trans found), shallow, inside⟩
    · rintro ⟨_, ⟨⟩, rfl, shallow, inside⟩
      exact ⟨shallow, same, inside⟩

/-- What the name and the bytes of an attribute make of it. -/
def content (pool : Pool) (budget nameIndex : Nat) (name : Text) (info : List UInt8) :
    Format Attribute := fun a =>
  require ((a.nameIndex = nameIndex ∧ a.name = name ∧ a.info = info) ∧ a.depth ≤ budget ∧
    a.BodyFits pool)

theorem follows_readWith
    (follows : Follows nested (fun a => require (a.depth + 4 ≤ budget) * a.encoding pool)) :
    Follows (readWith pool nested budget)
      (fun a => require (a.depth ≤ budget) * a.encoding pool) := by
  unfold readWith
  refine Follows.offset_bind_scan fun offset => Follows.congr (.bind Reader.follows_u2.scan
    fun nameIndex => .bind (Follows.located offset (pool.follows_utf8 nameIndex).scan)
      fun name => .bind Reader.follows_u4.scan fun length => Reader.follows_window_bind length
        fun window => (?_ : Follows _ (content pool budget nameIndex name window.rest)))
          fun a bytes => ?_
  · split
    · rename_i unknown
      refine Follows.congr (.bind (.note _) fun _ => .pure _) fun a bytes => ?_
      simp only [content, one_mul, Language.mem_iSup, exists_const, mem_require]
      refine and_congr_left fun _ => ?_
      constructor
      · rintro rfl
        exact ⟨⟨rfl, rfl, rfl⟩, (fits_unknown unknown).mpr rfl⟩
      · rintro ⟨⟨rfl, rfl, same⟩, fits⟩
        have empty := (fits_unknown unknown).mp fits
        cases a
        simp_all
    · rename_i known found
      refine Follows.congr (Follows.within_bind window (Follows.located offset
        (Body.follows_read follows known)) fun body =>
          .pure (Attribute.mk nameIndex name window.rest (some body))) fun a bytes => ?_
      simp only [content, require_mul_require, Language.mem_iSup, mem_require, mem_require_mul,
        exists_and_right]
      refine and_congr_left fun _ => ?_
      constructor
      · rintro ⟨body, ⟨named, shallow, inside⟩, rfl⟩
        exact ⟨⟨rfl, rfl, rfl⟩, (fits_known found).mpr ⟨body, rfl, named, shallow, inside⟩⟩
      · rintro ⟨⟨rfl, rfl, same⟩, fits⟩
        obtain ⟨body, some, named, shallow, inside⟩ := (fits_known found).mp fits
        rw [same] at inside
        refine ⟨body, ⟨named, shallow, inside⟩, ?_⟩
        cases a
        simp_all
  · simp [content, encoding_eq, Pool.indexOfText, mul_assoc, and_assoc, and_left_comm]

/-- A budget below four is too small for what is nested. -/
theorem follows_tooDeep (short : ∀ smaller, budget ≠ smaller + 4) :
    Follows (throw .tooDeep : Scanner Attribute)
      (fun a => require (a.depth + 4 ≤ budget) * a.encoding pool) := by
  refine (Follows.throw _).congr fun a bytes => ?_
  have deep : ¬a.depth + 4 ≤ budget := fun _ => short (budget - 4) (by omega)
  simp [deep]

theorem follows_readWithin (pool : Pool) (budget : Nat) :
    Follows (readWithin pool budget)
      (fun a => require (a.depth ≤ budget) * a.encoding pool) := by
  induction budget using Nat.strong_induction_on with
  | _ budget ih =>
    unfold readWithin
    split
    · rename_i budget
      exact follows_readWith ((ih budget (by omega)).congr fun a bytes => by simp)
    · rename_i short
      exact follows_readWith (follows_tooDeep short)

/-- Reading gives an attribute exactly from the bytes that encode it, as long as it does not nest
too deep, and takes all of them. -/
theorem attribute_read_ok_iff_mem_encoding (pool : Pool) (s : Scan) (a : Attribute) (d : Cursor) :
    (∃ notes, read pool s = .ok a ⟨d, notes⟩) ↔
      a.depth ≤ nestingBudget ∧ ∃ used ∈ a.encoding pool, s.cursor.Passes used d := by
  rw [read, (follows_readWithin pool nestingBudget).scan_ok_iff]
  simp only [mem_require_mul, and_assoc, exists_and_left]

end Attribute

end JavaClass
