import JavaClass.Descriptor
import Mathlib.Data.List.TakeWhile
import Mathlib.Data.Option.Basic

/-!
Descriptors and the types that they spell. A text is read as a type exactly if it is the descriptor
of that type, so no text spells two types, and a text that spells none is reported as it stands.
-/

namespace JavaClass

theorem BaseType.ofLetter?_eq_some_iff {c : CodePoint} {type : BaseType} :
    ofLetter? c = some type ↔ c = CodePoint.ofChar type.letter := by
  constructor
  · intro found
    simpa [eq_comm] using List.find?_some found
  · rintro rfl
    cases type <;> rfl

namespace FieldType

/-- A class has a name, which its semicolon ends. -/
def WellFormed : FieldType → Prop
  | .base _ => True
  | .object className => className ≠ [] ∧ CodePoint.ofChar ';' ∉ className
  | .array component => component.WellFormed

theorem descriptor_object (className : Text) :
    (object className).descriptor = CodePoint.ofChar 'L' :: (className ++ [CodePoint.ofChar ';']) :=
  rfl

theorem descriptor_array (component : FieldType) :
    (array component).descriptor = CodePoint.ofChar '[' :: component.descriptor :=
  rfl

theorem read?_array (text : Text) :
    read? (CodePoint.ofChar '[' :: text) =
      (read? text).map fun (component, rest) => (.array component, rest) := by
  rw [read?, if_pos rfl]

/-- A class name may hold anything but the semicolon, the letters of other types included. -/
theorem read?_object {text rest : Text} {type : FieldType} :
    read? (CodePoint.ofChar 'L' :: text) = some (type, rest) ↔
      ∃ name, type = .object name ∧ name ≠ [] ∧ CodePoint.ofChar ';' ∉ name ∧
        text = name ++ CodePoint.ofChar ';' :: rest := by
  rw [read?, if_neg (by decide), if_pos rfl]
  constructor
  · intro found
    have parts := List.takeWhile_append_dropWhile (p := (· ≠ CodePoint.ofChar ';')) (l := text)
    generalize named : text.takeWhile (· ≠ CodePoint.ofChar ';') = name at *
    have clean : CodePoint.ofChar ';' ∉ name := by
      rw [← named]
      intro inside
      simpa using List.mem_takeWhile_imp inside
    have stop := List.head?_dropWhile_not (· ≠ CodePoint.ofChar ';') text
    have rest := congrArg (List.drop name.length) parts
    rw [List.drop_left] at rest
    simp only [← rest] at found
    cases left : text.dropWhile (· ≠ CodePoint.ofChar ';') with
    | nil =>
      rw [left] at found
      cases found
    | cons c others =>
      rw [left] at found stop parts
      obtain rfl : c = CodePoint.ofChar ';' := by simpa using stop
      by_cases empty : name = []
      · simp [empty] at found
      · simp [empty] at found
        obtain ⟨rfl, rfl⟩ := found
        exact ⟨name, rfl, empty, clean, parts.symm⟩
  · rintro ⟨name, rfl, some, clean, rfl⟩
    have named : (name ++ CodePoint.ofChar ';' :: rest).takeWhile (· ≠ CodePoint.ofChar ';') =
        name := by
      rw [List.takeWhile_append_of_pos]
      · simp
      · intro c inside
        have other : c ≠ CodePoint.ofChar ';' := by
          rintro rfl
          exact clean inside
        simpa using other
    simp only [named, List.drop_left]
    simp [some]

/-- What is read is what is written, and the rest is left alone. -/
theorem read?_descriptor_append {type : FieldType} (wellFormed : type.WellFormed) (rest : Text) :
    read? (type.descriptor ++ rest) = some (type, rest) := by
  induction type with
  | base type => cases type <;> rfl
  | object className =>
    rw [descriptor_object, List.cons_append, read?_object]
    exact ⟨className, rfl, wellFormed.1, wellFormed.2, by simp⟩
  | array component ih => rw [descriptor_array, List.cons_append, read?_array, ih wellFormed]; rfl

theorem eq_descriptor_append_of_read? {text rest : Text} {type : FieldType}
    (found : read? text = some (type, rest)) :
    type.WellFormed ∧ text = type.descriptor ++ rest := by
  induction text generalizing type with
  | nil => cases found
  | cons c text ih =>
    by_cases array : c = CodePoint.ofChar '['
    · subst array
      rw [read?_array] at found
      obtain ⟨⟨component, others⟩, inner, same⟩ := Option.map_eq_some_iff.mp found
      cases same
      obtain ⟨wellFormed, rfl⟩ := ih inner
      exact ⟨wellFormed, by simp [descriptor_array]⟩
    by_cases object : c = CodePoint.ofChar 'L'
    · subst object
      obtain ⟨name, rfl, some, clean, rfl⟩ := read?_object.mp found
      exact ⟨⟨some, clean⟩, by simp [descriptor_object]⟩
    · rw [read?, if_neg array, if_neg object] at found
      obtain ⟨base, letter, same⟩ := Option.map_eq_some_iff.mp found
      cases same
      obtain rfl := BaseType.ofLetter?_eq_some_iff.mp letter
      exact ⟨trivial, rfl⟩

theorem read?_eq_some_iff {text rest : Text} {type : FieldType} :
    read? text = some (type, rest) ↔ type.WellFormed ∧ text = type.descriptor ++ rest := by
  constructor
  · exact eq_descriptor_append_of_read?
  · rintro ⟨wellFormed, rfl⟩
    exact read?_descriptor_append wellFormed rest

theorem parse?_eq_some_iff {text : Text} {type : FieldType} :
    parse? text = some type ↔ type.WellFormed ∧ type.descriptor = text := by
  have whole : parse? text = some type ↔ read? text = some (type, []) := by
    unfold parse?
    split
    · rename_i found
      simp [found]
    · rename_i other
      exact iff_of_false (by simp) (other type)
  rw [whole, read?_eq_some_iff, List.append_nil, eq_comm (a := text)]

/-- No descriptor starts with the parenthesis that ends parameters, or with the letter of
`void`. -/
theorem exists_descriptor_eq_cons (type : FieldType) :
    ∃ c rest, type.descriptor = c :: rest ∧ c ≠ CodePoint.ofChar ')' ∧
      c ≠ CodePoint.ofChar 'V' := by
  cases type with
  | base type => cases type <;> exact ⟨_, _, rfl, by decide, by decide⟩
  | object className => exact ⟨_, _, descriptor_object className, by decide, by decide⟩
  | array component => exact ⟨_, _, descriptor_array component, by decide, by decide⟩

end FieldType

namespace MethodType

def WellFormed (type : MethodType) : Prop :=
  (∀ parameter ∈ type.parameters, parameter.WellFormed) ∧ ∀ result ∈ type.result, result.WellFormed

theorem descriptor_mk (parameters : List FieldType) (result : Option FieldType) :
    descriptor ⟨parameters, result⟩ = CodePoint.ofChar '(' ::
      (parameters.flatMap FieldType.descriptor ++
        CodePoint.ofChar ')' :: resultDescriptor result) := by
  change [CodePoint.ofChar '('] ++ _ ++ [CodePoint.ofChar ')'] ++ _ = _
  simp

theorem readParameters?_close (rest : Text) :
    readParameters? (CodePoint.ofChar ')' :: rest) = some ([], rest) := by
  rw [readParameters?, if_pos rfl]

theorem readParameters?_cons {c : CodePoint} (more : c ≠ CodePoint.ofChar ')') (text : Text) :
    readParameters? (c :: text) = (FieldType.read? (c :: text)).bind fun (type, others) =>
      (readParameters? others).map fun (types, rest) => (type :: types, rest) := by
  rw [readParameters?, if_neg more]
  split
  · rename_i none
    rw [none]
    rfl
  · rename_i found
    simp only [found, Option.bind_some]

theorem readParameters?_append {types : List FieldType}
    (wellFormed : ∀ type ∈ types, type.WellFormed) (rest : Text) :
    readParameters? (types.flatMap FieldType.descriptor ++ CodePoint.ofChar ')' :: rest) =
      some (types, rest) := by
  induction types with
  | nil => exact readParameters?_close rest
  | cons type types ih =>
    obtain ⟨here, others⟩ := List.forall_mem_cons.mp wellFormed
    obtain ⟨c, tail, starts, more, _⟩ := type.exists_descriptor_eq_cons
    have reads := FieldType.read?_descriptor_append here
      (types.flatMap FieldType.descriptor ++ CodePoint.ofChar ')' :: rest)
    rw [starts, List.cons_append] at reads
    rw [List.flatMap_cons, List.append_assoc, starts, List.cons_append, readParameters?_cons more,
      reads]
    simp only [Option.bind_some, ih others, Option.map_some]

theorem eq_append_of_readParameters? {text rest : Text} {types : List FieldType}
    (found : readParameters? text = some (types, rest)) :
    (∀ type ∈ types, type.WellFormed) ∧
      text = types.flatMap FieldType.descriptor ++ CodePoint.ofChar ')' :: rest := by
  -- By the length of the text, as each parameter takes off a piece of it.
  induction size : text.length using Nat.strong_induction_on generalizing text types with
  | _ n ih =>
    cases text with
    | nil => simp [readParameters?] at found
    | cons c tail =>
      by_cases close : c = CodePoint.ofChar ')'
      · subst close
        rw [readParameters?_close] at found
        cases found
        exact ⟨by simp, rfl⟩
      · rw [readParameters?_cons close] at found
        obtain ⟨⟨type, others⟩, reads, found⟩ := Option.bind_eq_some_iff.mp found
        obtain ⟨⟨later, last⟩, readsLater, same⟩ := Option.map_eq_some_iff.mp found
        cases same
        obtain ⟨here, starts⟩ := FieldType.eq_descriptor_append_of_read? reads
        have shorter := FieldType.length_of_read? reads
        obtain ⟨wellFormed, rfl⟩ := ih others.length (by omega) readsLater rfl
        refine ⟨List.forall_mem_cons.mpr ⟨here, wellFormed⟩, ?_⟩
        rw [starts, List.flatMap_cons, List.append_assoc]

theorem parseResult?_eq_some_iff {text : Text} {result : Option FieldType} :
    parseResult? text = some result ↔
      (∀ type ∈ result, type.WellFormed) ∧ resultDescriptor result = text := by
  have void : Text.ofString "V" = [CodePoint.ofChar 'V'] := rfl
  unfold parseResult?
  cases result with
  | none => simp [resultDescriptor, eq_comm (a := text)]
  | some type =>
    obtain ⟨c, tail, starts, _, other⟩ := type.exists_descriptor_eq_cons
    simp only [Option.mem_some, forall_eq', resultDescriptor]
    split
    · rename_i same
      subst same
      simp [void, starts, other]
    · simp [FieldType.parse?_eq_some_iff]

theorem parse?_eq_some_iff {text : Text} {type : MethodType} :
    parse? text = some type ↔ type.WellFormed ∧ type.descriptor = text := by
  obtain ⟨parameters, result⟩ := type
  rw [descriptor_mk]
  cases text with
  | nil => simp [parse?]
  | cons c text =>
    simp only [parse?, Option.bind_eq_bind, Option.bind_eq_some_iff, Option.guard_eq_some']
    constructor
    · rintro ⟨_, rfl, ⟨types, rest⟩, reads, returned, readsResult, same⟩
      cases same
      obtain ⟨wellFormed, rfl⟩ := eq_append_of_readParameters? reads
      obtain ⟨resultFormed, rfl⟩ := parseResult?_eq_some_iff.mp readsResult
      exact ⟨⟨wellFormed, resultFormed⟩, rfl⟩
    · rintro ⟨⟨wellFormed, resultFormed⟩, same⟩
      cases same
      exact ⟨(), rfl, _, readParameters?_append wellFormed _, _,
        parseResult?_eq_some_iff.mpr ⟨resultFormed, rfl⟩, rfl⟩

end MethodType

/-- Parsing undoes writing. A text that some value is written as gives that value back, unless it
nests too deep; any other text is reported as it stands. -/
structure Inverts {α : Type} (parse : Text → Except Failure α) (kind : DescriptorKind)
    (written : α → Text → Prop) (dimensions : α → Nat) : Prop where
  ok_iff : ∀ text a, parse text = .ok a ↔ written a text ∧ dimensions a ≤ FieldType.depthLimit
  fault_iff : ∀ text, parse text = .error (.of (.badDescriptor kind text)) ↔ ∀ a, ¬written a text
  tooDeep_iff : ∀ text, parse text = .error .tooDeep ↔
    ∃ a, written a text ∧ FieldType.depthLimit < dimensions a

/-- The nesting limit is looked at last, so it takes nothing but a search that knows what is
written. -/
theorem Inverts.of_search {α : Type} {parse : Text → Except Failure α} {kind : DescriptorKind}
    {written : α → Text → Prop} {dimensions : α → Nat} {search : Text → Option α}
    (finds : ∀ text a, search text = some a ↔ written a text)
    (unfolds : ∀ text, parse text = match search text with
      | none => .error (.of (.badDescriptor kind text))
      | some a => if FieldType.depthLimit < dimensions a then .error .tooDeep else .ok a) :
    Inverts parse kind written dimensions := by
  constructor
  all_goals
    intro text
    simp only [unfolds, ← finds]
    cases search text with
    | none => simp [Failure.of]
    | some a =>
      by_cases deep : FieldType.depthLimit < dimensions a
      · simp [deep, Failure.of]
      · simp [deep, Nat.le_of_not_lt deep, Failure.of]

/-- Field and method descriptors are parsed exactly as the types that are written so. -/
theorem descriptor_parsing_inverts_writing :
    Inverts FieldType.parse .field
      (fun type text => type.WellFormed ∧ type.descriptor = text) FieldType.dimensions ∧
    Inverts MethodType.parse .method
      (fun type text => type.WellFormed ∧ type.descriptor = text) MethodType.dimensions := by
  constructor
  · refine .of_search (fun _ _ => FieldType.parse?_eq_some_iff) fun text => ?_
    rw [FieldType.parse]
    cases FieldType.parse? text <;> rfl
  · refine .of_search (fun _ _ => MethodType.parse?_eq_some_iff) fun text => ?_
    rw [MethodType.parse]
    cases MethodType.parse? text <;> rfl

-- A class name takes in whatever comes before its semicolon.
example : MethodType.parse "(L)V[I;[[J)V" =
    .ok ⟨[.object ")V[I", .array (.array (.base .long))], none⟩ := by
  cbv

end JavaClass
