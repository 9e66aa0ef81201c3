import JavaClass.Attribute.Element
import JavaClass.Proofs.Pool

/-!
The format of annotations and of the values of their elements, which may be annotations again.
-/

namespace JavaClass

open Format

/-- The letter that announces a value. -/
def ElementValue.letter : ElementValue → Char
  | .constant tag _ => tag.letter
  | .enumConstant .. => 'e'
  | .nested _ => '@'
  | .array _ => '['

theorem ElementValue.sizeOf_lt_of_mem {elements : List (Text × ElementValue)}
    {e : Text × ElementValue} (element : e ∈ elements) : sizeOf e.2 < sizeOf elements := by
  have smaller := List.sizeOf_lt_of_mem element
  obtain ⟨name, v⟩ := e
  rw [Prod.mk.sizeOf_spec] at smaller
  exact Nat.lt_of_le_of_lt (Nat.le_add_left _ _) smaller

mutual

/-- The bytes of a value after its letter. -/
def ElementValue.fields (pool : Pool) : ElementValue → Language UInt8
  | .constant tag index => pool.indexOf [tag.kind] index
  | .enumConstant type name => pool.indexOf [.utf8] type * pool.indexOf [.utf8] name
  | .nested a => annotationEncoding pool a
  | .array values => counted 2 (values.map fun v => unsigned 1 v.letter.toNat * v.fields pool)
termination_by v => sizeOf v

/-- An element's name is known by its text alone, so any index of that text will do. -/
def annotationEncoding (pool : Pool) : AnnotationOf ElementValue → Language UInt8
  | ⟨typeIndex, typeName, elements⟩ =>
    pool.indexOfText typeName typeIndex * counted 2 (elements.map fun e =>
      (⨆ index, pool.indexOfText e.1 index) * (unsigned 1 e.2.letter.toNat * e.2.fields pool))
termination_by a => sizeOf a
decreasing_by
  have smaller := ElementValue.sizeOf_lt_of_mem ‹_›
  rw [AnnotationOf.mk.sizeOf_spec]
  omega

end

def ElementValue.encoding (pool : Pool) (v : ElementValue) : Language UInt8 :=
  unsigned 1 v.letter.toNat * v.fields pool

def elementEncoding (pool : Pool) (e : Text × ElementValue) : Language UInt8 :=
  (⨆ index, pool.indexOfText e.1 index) * e.2.encoding pool

theorem ElementValue.fields_array (pool : Pool) (values : List ElementValue) :
    (ElementValue.array values).fields pool =
      counted 2 (values.map (ElementValue.encoding pool)) := by
  rw [fields]
  rfl

theorem annotationEncoding_mk (pool : Pool) (typeIndex : Nat) (typeName : Text)
    (elements : List (Text × ElementValue)) :
    annotationEncoding pool ⟨typeIndex, typeName, elements⟩ =
      pool.indexOfText typeName typeIndex * counted 2 (elements.map (elementEncoding pool)) := by
  rw [annotationEncoding]
  rfl

mutual

/-- What reading a value takes off the budget. -/
def ElementValue.depth : ElementValue → Nat
  | .constant .. | .enumConstant .. => 0
  | .nested a => annotationDepth a + 2
  | .array values => (values.map fun v => v.depth).foldr max 0 + 2
termination_by v => sizeOf v

def annotationDepth : AnnotationOf ElementValue → Nat
  | ⟨_, _, elements⟩ => (elements.map fun e => e.2.depth).foldr max 0
termination_by a => sizeOf a
decreasing_by
  have smaller := ElementValue.sizeOf_lt_of_mem ‹_›
  rw [AnnotationOf.mk.sizeOf_spec]
  omega

end

theorem foldr_max_le_iff {α : Type} {items : List α} {depth : α → Nat} {bound : Nat} :
    (items.map depth).foldr max 0 ≤ bound ↔ ∀ a ∈ items, depth a ≤ bound := by
  induction items with
  | nil => simp
  | cons a items ih => simp [ih]

theorem AnnotationOf.follows_read {pool : Pool} {budget : Nat} {value : Reader ElementValue}
    (follows : Follows value (fun v => require (v.depth ≤ budget) * v.encoding pool)) :
    Follows (AnnotationOf.read pool value) (fun a =>
      require (annotationDepth a ≤ budget) * annotationEncoding pool a) := by
  have readElement : Follows (do return (← pool.utf8 (← Reader.u2), ← value))
      (fun e => require (e.2.depth ≤ budget) * elementEncoding pool e) := by
    refine Follows.congr (.bind Reader.follows_u2 fun index => .bind (pool.follows_utf8 index)
      fun name => .bind follows fun v => .pure _) fun e bytes => ?_
    obtain ⟨name, v⟩ := e
    simp [elementEncoding, Pool.indexOfText, mul_assoc, and_comm]
  unfold AnnotationOf.read
  refine Follows.congr (.bind Reader.follows_u2 fun typeIndex =>
    .bind (pool.follows_utf8 typeIndex) fun typeName =>
      .counted_bind Reader.follows_u2 readElement fun elements => .pure _)
        fun a bytes => ?_
  obtain ⟨typeIndex, typeName, elements⟩ := a
  simp [annotationEncoding_mk, annotationDepth, foldr_max_le_iff, Pool.indexOfText,
    counted_require_mul, mul_assoc, and_comm]

namespace ElementTag

theorem ofByte?_eq_some_iff {byte : Nat} {tag : ElementTag} :
    ofByte? byte = some tag ↔ byte = tag.letter.toNat := by
  constructor
  · intro found
    simpa [eq_comm] using List.find?_some found
  · rintro rfl
    cases tag <;> rfl

theorem ofByte?_eq_none_iff {byte : Nat} :
    ofByte? byte = none ↔ ∀ tag : ElementTag, byte ≠ tag.letter.toNat := by
  simp [← ofByte?_eq_some_iff, Option.eq_none_iff_forall_ne_some]

end ElementTag

namespace ElementValue

/-- What may come after a byte that announces a value. -/
def announced (pool : Pool) (budget byte : Nat) : Format ElementValue := fun v =>
  require (v.letter.toNat = byte) * (require (v.depth ≤ budget) * v.fields pool)

section
variable {pool : Pool} {budget : Nat}

theorem follows_constant (tag : ElementTag) :
    Follows (do
        let index ← Reader.u2
        discard (pool.expect index [tag.kind])
        return constant tag index)
      (announced pool budget tag.letter.toNat) := by
  have specific : .memberRef ∉ [tag.kind] ∧ .unknown ∉ [tag.kind] := by cases tag <;> decide
  refine .tagged (.bind Reader.follows_u2 fun _ => .bind (Pool.follows_expect specific) fun _ =>
    .pure _) (of_mem_iSup_mul fun _ => of_mem_iSup_mul (by rintro _ _ ⟨rfl, _⟩; rfl))
      fun v bytes same => ?_
  cases v with
  | constant other index =>
    have here := ElementTag.ofByte?_eq_some_iff.mpr same.symm
    rw [ElementTag.ofByte?_eq_some_iff.mpr rfl] at here
    cases here
    simp [fields, depth, Pool.indexOf]
  | _ => cases tag <;> cases same

theorem follows_enumConstant :
    Follows (do
        let type ← Reader.u2
        let name ← Reader.u2
        discard (pool.expect type [.utf8])
        discard (pool.expect name [.utf8])
        return enumConstant type name)
      (announced pool budget enumByte) := by
  refine .tagged (.bind Reader.follows_u2 fun _ => .bind Reader.follows_u2 fun _ =>
    .bind (Pool.follows_expect (by decide)) fun _ =>
      .bind (Pool.follows_expect (by decide)) fun _ => .pure _)
        (of_mem_iSup_mul fun _ => of_mem_iSup_mul fun _ => of_mem_iSup_mul fun _ =>
          of_mem_iSup_mul (by rintro _ _ ⟨rfl, _⟩; rfl)) fun v bytes same => ?_
  cases v with
  | constant tag _ => cases tag <;> cases same
  | enumConstant type name => simp [fields, depth, Pool.indexOf, mul_assoc]
  | _ => cases same

theorem follows_nested
    (follows : Follows (read pool budget) (fun v => require (v.depth ≤ budget) * v.encoding pool)) :
    Follows (do return nested (← AnnotationOf.read pool (read pool budget)))
      (announced pool (budget + 2) nestedByte) := by
  refine .tagged (.bind (AnnotationOf.follows_read follows) fun _ => .pure _)
    (of_mem_iSup_mul (by rintro _ _ ⟨rfl, _⟩; rfl)) fun v bytes same => ?_
  cases v with
  | constant tag _ => cases tag <;> cases same
  | nested a => simp [fields, depth]
  | _ => cases same

theorem follows_array
    (follows : Follows (read pool budget) (fun v => require (v.depth ≤ budget) * v.encoding pool)) :
    Follows (do return array (← times (← Reader.u2) (read pool budget)))
      (announced pool (budget + 2) arrayByte) := by
  refine .tagged (.counted_bind Reader.follows_u2 follows fun _ => .pure _)
    (of_mem_iSup_mul (by rintro _ _ ⟨rfl, _⟩; rfl)) fun v bytes same => ?_
  cases v with
  | constant tag _ => cases tag <;> cases same
  | array values => simp [fields_array, counted_require_mul, depth, foldr_max_le_iff]
  | _ => cases same

/-- Without a budget nothing that nests can be read. -/
theorem announced_eq_zero {byte : Nat} (short : budget < 2)
    (nests : byte = nestedByte ∨ byte = arrayByte) (v : ElementValue) :
    announced pool budget byte v = 0 := by
  have deep (same : v.letter.toNat = byte) : ¬v.depth ≤ budget := by
    cases v with
    | constant tag _ => cases tag <;> rcases nests with rfl | rfl <;> cases same
    | enumConstant _ _ => rcases nests with rfl | rfl <;> cases same
    | nested _ | array _ =>
      rw [depth]
      omega
  ext bytes
  simp only [announced, mem_require_mul]
  refine iff_of_false ?_ (Language.notMem_zero bytes)
  rintro ⟨same, shallow, -⟩
  exact deep same shallow

end

theorem follows_read (pool : Pool) (budget : Nat) :
    Follows (read pool budget) (fun v => require (v.depth ≤ budget) * v.encoding pool) := by
  induction budget using Nat.strong_induction_on with
  | _ budget ih =>
    unfold read
    refine Follows.offset_bind fun offset => Follows.congr (.bind Reader.follows_u1 fun byte =>
      (?_ : Follows _ (announced pool budget byte))) fun v bytes => by simp [encoding, announced]
    split
    · rename_i tag found
      obtain rfl := ElementTag.ofByte?_eq_some_iff.mp found
      exact follows_constant tag
    rename_i other
    by_cases notEnum : byte = enumByte
    · subst byte
      exact follows_enumConstant
    rw [if_neg notEnum]
    by_cases nests : byte = nestedByte ∨ byte = arrayByte
    · by_cases short : budget < 2
      · have empty := @announced_eq_zero pool budget byte short nests
        obtain rfl | rfl : budget = 0 ∨ budget = 1 := by omega
        all_goals
          rcases nests with rfl | rfl
          · exact (Follows.throw _).congr fun v bytes => by rw [empty]
          · exact Follows.congr (.bind Reader.follows_u2 fun _ => .throw _) fun v bytes => by
              simp [empty]
      · obtain ⟨budget, rfl⟩ := Nat.exists_eq_add_of_le' (Nat.le_of_not_lt short)
        have reads := ih budget (by omega)
        rcases nests with rfl | rfl
        · exact follows_nested reads
        · exact follows_array reads
    · obtain ⟨notNested, notArray⟩ := not_or.mp nests
      rw [if_neg notNested, if_neg notArray]
      have unknown (v : ElementValue) : v.letter.toNat ≠ byte := by
        cases v with
        | constant tag _ => exact (ElementTag.ofByte?_eq_none_iff.mp other tag).symm
        | enumConstant _ _ => exact Ne.symm notEnum
        | nested _ => exact Ne.symm notNested
        | array _ => exact Ne.symm notArray
      exact (Follows.throw _).congr fun v bytes => by simp [announced, unknown v]

end ElementValue

end JavaClass
