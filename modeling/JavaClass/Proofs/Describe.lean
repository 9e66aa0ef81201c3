import JavaClass.Pool.Describe
import JavaClass.Proofs.References

/-!
Describing the constants of a pool that has been read. Whatever a constant refers to can be looked
up, and a handle refers to a member and never to another handle, so that only a float can fail to
be put in words.
-/

namespace JavaClass

theorem ok_bind {ε α β : Type} (a : α) (next : α → Except ε β) : (.ok a >>= next) = next a := rfl

theorem Entry.kind_eq_integer_iff {e : Entry} :
    e.kind = .integer ↔ ∃ value, e = .integer value := by
  cases e with
  | memberRef kind => cases kind <;> simp [kind]
  | _ => simp [kind]

/-- One of the kinds that a class file can hold. -/
def EntryKind.IsConcrete (kind : EntryKind) : Prop := kind ≠ .memberRef ∧ kind ≠ .unknown

instance : DecidablePred EntryKind.IsConcrete := fun _ => inferInstanceAs (Decidable (_ ∧ _))

/-- Kinds of references to members. -/
def EntryKind.members : List EntryKind := [.fieldRef, .methodRef, .interfaceMethodRef]

theorem Entry.kind_mem_members_iff {e : Entry} (concrete : e.kind.IsConcrete) :
    e.kind ∈ EntryKind.members ↔ ∃ kind owner member, e = .memberRef kind owner member := by
  cases e with
  | memberRef kind =>
    cases kind with
    | general => exact absurd rfl concrete.1
    | _ => simp [kind, EntryKind.members]
  | _ => simp [kind, EntryKind.members]

/-- The constant is a float for which there is no text. -/
def Entry.Unwritable (e : Entry) : Prop :=
  ∃ value failure, e = .float value ∧ value.singleLiteral = .error failure

/-- A handle refers to a member, which is neither a float nor a handle. -/
theorem HandleTarget.plain {number : Int} {kind : EntryKind} (target : HandleTarget number kind) :
    kind ≠ .float ∧ kind ≠ .methodHandle := by
  cases target <;> decide

theorem HandleTarget.mem_members {number : Int} {kind : EntryKind}
    (target : HandleTarget number kind) : kind ∈ EntryKind.members := by
  cases target <;> decide

namespace Binary64

theorem singleCandidate_eq_error {magnitude target : Nat} {counts : List Nat} {failure : Failure}
    (fails : singleCandidate magnitude target counts = .error failure) :
    failure = .floatOverflow := by
  induction counts with
  | nil => cases fails
  | cons count counts ih =>
    simp only [singleCandidate] at fails
    split at fails
    · cases fails
      rfl
    · split at fails
      · cases fails
      · exact ih fails

theorem singleLiteral_eq_error {value : Binary64} {failure : Failure}
    (fails : value.singleLiteral = .error failure) : failure = .floatOverflow := by
  cases value with
  | nan => cases fails
  | infinite negative => cases fails
  | finite negative magnitude =>
    simp only [singleLiteral] at fails
    split at fails
    · cases fails
      rfl
    · rename_i target _
      cases chosen : singleCandidate magnitude target [1, 2, 3, 4, 5, 6, 7, 8, 9] with
      | ok candidate =>
        rw [chosen] at fails
        cases fails
      | error other =>
        rw [chosen] at fails
        cases fails
        exact singleCandidate_eq_error chosen

end Binary64

namespace Pool

variable {p : Pool} {index : Int}

theorem Leads.utf8 (leads : p.Leads index [.utf8]) : ∃ text, p.utf8 index = .ok text := by
  obtain ⟨text, holds⟩ := leads.holds_utf8
  exact ⟨text, utf8_eq_ok_iff.mpr holds⟩

/-- All constants are linked and none is of an unknown kind, however they are placed. -/
structure Checked (p : Pool) : Prop where
  linked : ∀ e ∈ p.constants, e.Linked p
  known : .unknown ∉ p.constants

theorem Sound.checked (sound : p.Sound) : p.Checked := ⟨sound.linked, sound.known⟩

/-- Only handles call for more depth. -/
theorem describeWithin_eq_of_kind (depth other : Nat) {e : Entry} (holds : p.Holds index e)
    (noHandle : e.kind ≠ .methodHandle) :
    p.describeWithin (depth + 1) index = p.describeWithin (other + 1) index := by
  rw [describeWithin, describeWithin, get_eq_ok_iff.mpr holds, ok_bind, ok_bind]
  cases e with
  | methodHandle kind reference => exact absurd rfl noHandle
  | _ => rfl

theorem describeWithin_float (depth : Nat) {value : Binary64}
    (holds : p.Holds index (.float value)) :
    p.describeWithin (depth + 1) index = do return (← value.singleLiteral) ++ "f" := by
  rw [describeWithin, get_eq_ok_iff.mpr holds, ok_bind]

namespace Checked

variable (checked : p.Checked)
include checked

theorem linked_of_holds {e : Entry} (holds : p.Holds index e) : e.Linked p :=
  checked.linked e holds.mem_constants

/-- A constant that is neither a float nor a handle can be described right away. -/
theorem describeWithin_plain (depth : Nat) {e : Entry} (holds : p.Holds index e)
    (plain : e.kind ≠ .float ∧ e.kind ≠ .methodHandle) :
    ∃ text, p.describeWithin (depth + 1) index = .ok text := by
  have linked := checked.linked_of_holds holds
  rw [describeWithin, get_eq_ok_iff.mpr holds, ok_bind]
  cases e with
  | utf8 value => exact ⟨_, rfl⟩
  | integer value => exact ⟨_, rfl⟩
  | long value => exact ⟨_, rfl⟩
  | double value => exact ⟨_, rfl⟩
  | float value => exact absurd rfl plain.1
  | methodHandle kind reference => exact absurd rfl plain.2
  | unknown => exact absurd holds.mem_constants checked.known
  | classRef name =>
    obtain ⟨text, found⟩ := Leads.utf8 linked
    exact ⟨_, by simp only [found, ok_bind]; rfl⟩
  | string value =>
    obtain ⟨text, found⟩ := Leads.utf8 linked
    exact ⟨_, by simp only [found, ok_bind]; rfl⟩
  | methodType descriptor => exact Leads.utf8 linked
  | moduleRef name => exact Leads.utf8 linked
  | packageRef name => exact Leads.utf8 linked
  | memberRef kind owner member =>
    obtain ⟨parts, found⟩ := (exists_memberRef_iff checked.linked).mpr ⟨_, _, _, holds⟩
    exact ⟨_, by simp only [found, ok_bind]; rfl⟩
  | nameAndType name descriptor =>
    have leads : p.Leads index [.nameAndType] := ⟨_, holds, List.mem_singleton_self _⟩
    obtain ⟨pair, found⟩ := (exists_nameAndType_iff checked.linked).mpr leads
    exact ⟨_, by simp only [found, ok_bind]; rfl⟩
  | dynamic bootstrap member =>
    obtain ⟨pair, found⟩ := (exists_nameAndType_iff checked.linked).mpr linked
    exact ⟨_, by simp only [found, ok_bind]; rfl⟩
  | invokeDynamic bootstrap member =>
    obtain ⟨pair, found⟩ := (exists_nameAndType_iff checked.linked).mpr linked
    exact ⟨_, by simp only [found, ok_bind]; rfl⟩

/-- A handle is described by its kind and the member it refers to, which takes one step more. -/
theorem describeWithin_handle {kind reference : Int}
    (holds : p.Holds index (.methodHandle kind reference)) :
    ∃ handle member text, HandleKind.ofNumber? kind = some handle ∧ p.Holds reference member ∧
      HandleTarget kind member.kind ∧ (∀ depth, p.describeWithin (depth + 1) reference = .ok text) ∧
        ∀ depth, p.describeWithin (depth + 2) index = .ok (handle.mnemonic ++ " " ++ text) := by
  obtain ⟨member, held, target⟩ := checked.linked_of_holds holds
  obtain ⟨handle, numbered, -⟩ := Entry.handleTarget_iff.mp target
  obtain ⟨text, described⟩ := checked.describeWithin_plain 0 held target.plain
  have anyDepth (depth : Nat) : p.describeWithin (depth + 1) reference = .ok text :=
    (describeWithin_eq_of_kind depth 0 held target.plain.2).trans described
  refine ⟨handle, member, text, numbered, held, target, anyDepth, fun depth => ?_⟩
  rw [describeWithin, get_eq_ok_iff.mpr holds, ok_bind]
  simp only [numbered, anyDepth, ok_bind]
  rfl

/-- Since a handle refers to no other handle, depth two is as good as any other. -/
theorem describeWithin_eq (depth other : Nat) {e : Entry} (holds : p.Holds index e) :
    p.describeWithin (depth + 2) index = p.describeWithin (other + 2) index := by
  cases e with
  | methodHandle kind reference =>
    obtain ⟨handle, member, text, -, -, -, -, described⟩ := checked.describeWithin_handle holds
    rw [described, described]
  | memberRef kind owner member =>
    exact describeWithin_eq_of_kind _ _ holds (by cases kind <;> simp [Entry.kind])
  | _ => exact describeWithin_eq_of_kind _ _ holds (by simp [Entry.kind])

theorem describe_eq (depth : Nat) {e : Entry} (holds : p.Holds index e) :
    p.describe index = p.describeWithin (depth + 2) index := by
  have deep : handleDepth = handleDepth - 2 + 2 := by decide
  rw [describe, deep]
  exact checked.describeWithin_eq _ _ holds

/-- A constant can be described unless it is a float that cannot be written. -/
theorem describe_cases {e : Entry} (holds : p.Holds index e) :
    (∃ text, p.describe index = .ok text) ∨
      ∃ value, e = .float value ∧ value.singleLiteral = .error .floatOverflow ∧
        p.describe index = .error .floatOverflow := by
  rw [checked.describe_eq 0 holds]
  cases e with
  | float value =>
    have step := describeWithin_float 1 holds
    cases written : value.singleLiteral with
    | ok text =>
      rw [written, ok_bind] at step
      exact .inl ⟨_, step⟩
    | error failure =>
      obtain rfl := Binary64.singleLiteral_eq_error written
      rw [written] at step
      exact .inr ⟨value, rfl, written, step⟩
  | methodHandle kind reference =>
    obtain ⟨handle, member, text, -, -, -, -, described⟩ := checked.describeWithin_handle holds
    exact .inl ⟨_, described 0⟩
  | memberRef kind owner member =>
    exact .inl (checked.describeWithin_plain _ holds (by cases kind <;> simp [Entry.kind]))
  | _ => exact .inl (checked.describeWithin_plain _ holds (by simp [Entry.kind]))

/-- Where a float is out of the question, so is a failure. -/
theorem describe_of_kind {kinds : List EntryKind} (leads : p.Leads index kinds)
    (noFloat : .float ∉ kinds) : ∃ text, p.describe index = .ok text := by
  obtain ⟨e, holds, kind⟩ := leads
  obtain described | ⟨value, rfl, -⟩ := checked.describe_cases holds
  · exact described
  · exact absurd kind noFloat

/-- A constant is described by a text exactly if it is no float without one. -/
theorem describe_of_writable {e : Entry} (holds : p.Holds index e) :
    (¬e.Unwritable → ∃ text, p.describe index = .ok text) ∧
      (e.Unwritable → p.describe index = .error .floatOverflow) := by
  constructor
  · intro writable
    obtain described | ⟨value, rfl, rejected, -⟩ := checked.describe_cases holds
    · exact described
    · exact absurd ⟨value, _, rfl, rejected⟩ writable
  · rintro ⟨value, failure, rfl, rejected⟩
    obtain rfl := Binary64.singleLiteral_eq_error rejected
    rw [checked.describe_eq 0 holds, describeWithin_float 1 holds, rejected]
    rfl

end Checked

/-- What a link check is good for. In a pool that passes it every constant has a description, but
for floats without a text; a handle is described by its kind and a member, so that no description
goes further than one step; and looking up a class, a string, a pair or a member succeeds exactly
at the constants of that kind. -/
theorem lookups_of_checkLinks {p : Pool} (first : p.slots[0]?.join = none)
    (concrete : ∀ e ∈ p.constants, e.kind.IsConcrete) (passed : p.checkLinks = .ok ()) :
    (∀ index e, (index, e) ∈ p.entries →
      (¬e.Unwritable → ∃ text, p.describe index = .ok text) ∧
      (e.Unwritable → p.describe index = .error .floatOverflow) ∧
      ∀ depth, p.describeWithin (depth + 2) index = p.describe index) ∧
    (∀ index kind reference, (index, .methodHandle kind reference) ∈ p.entries →
      ∃ handle member text, HandleKind.ofNumber? kind = some handle ∧ p.Holds reference member ∧
        member.kind ∈ EntryKind.members ∧ p.describe reference = .ok text ∧
          p.describe index = .ok (handle.mnemonic ++ " " ++ text)) ∧
    ∀ index : Int,
      ((∃ name, p.className index = .ok name) ↔ p.Leads index [.classRef]) ∧
      ((∃ value, p.stringValue index = .ok value) ↔ p.Leads index [.string]) ∧
      ((∃ pair, p.nameAndType index = .ok pair) ↔ p.Leads index [.nameAndType]) ∧
      ((∃ parts, p.memberRef index = .ok parts) ↔ p.Leads index EntryKind.members) := by
  have linked : ∀ e ∈ p.constants, e.Linked p := checkLinks_eq_ok_iff.mp passed
  have checked : p.Checked := ⟨linked, fun unknown => (concrete _ unknown).2 rfl⟩
  refine ⟨?_, ?_, ?_⟩
  · intro index e listed
    have holds := (holds_iff_mem_entries first).mpr listed
    obtain ⟨succeeds, fails⟩ := checked.describe_of_writable holds
    exact ⟨succeeds, fails, fun depth => (checked.describe_eq depth holds).symm⟩
  · intro index kind reference listed
    have holds := (holds_iff_mem_entries first).mpr listed
    obtain ⟨handle, member, text, numbered, held, target, inner, outer⟩ :=
      checked.describeWithin_handle holds
    refine ⟨handle, member, text, numbered, held, target.mem_members, ?_, ?_⟩
    · rw [checked.describe_eq 0 held, inner]
    · rw [checked.describe_eq 0 holds, outer]
  · intro index
    refine ⟨exists_className_iff linked, exists_stringValue_iff linked,
      exists_nameAndType_iff linked, ?_⟩
    rw [exists_memberRef_iff linked]
    constructor
    · rintro ⟨kind, owner, member, holds⟩
      have isConcrete := concrete _ holds.mem_constants
      exact ⟨_, holds, (Entry.kind_mem_members_iff isConcrete).mpr ⟨_, _, _, rfl⟩⟩
    · rintro ⟨e, holds, isMember⟩
      have isConcrete := concrete _ holds.mem_constants
      obtain ⟨kind, owner, member, rfl⟩ := (Entry.kind_mem_members_iff isConcrete).mp isMember
      exact ⟨kind, owner, member, holds⟩

/-- A handle for a field with all its references forward, a slot that no constant takes up, and the
greatest float. -/
def forwardPool : Pool := ⟨[none, some (.methodHandle 1 2), some (.memberRef .field 3 4),
  some (.classRef 6), some (.nameAndType 6 6), none, some (.utf8 "x"), some (.string 6),
  some (.float (.ofSingleBits 0x7F7FFFFF))]⟩

theorem lookups_of_checkLinks_forward :
    forwardPool.checkLinks = .ok () ∧ (∃ text, forwardPool.describe 2 = .ok text ∧
      forwardPool.describe 1 = .ok ("REF_getField" ++ " " ++ text)) ∧
        forwardPool.describe 8 = .error .floatOverflow := by
  have passed : forwardPool.checkLinks = .ok () := by decide
  obtain ⟨described, handles, -⟩ := lookups_of_checkLinks (by decide) (by decide) passed
  obtain ⟨handle, member, text, numbered, -, -, inner, outer⟩ :=
    handles 1 1 2 (mem_entries_iff.mpr rfl)
  cases numbered
  have unwritable : (Binary64.ofSingleBits 0x7F7FFFFF).singleLiteral = .error .floatOverflow := by
    decide +kernel
  have fails := (described 8 _ (mem_entries_iff.mpr rfl)).2.1 ⟨_, _, rfl, unwritable⟩
  exact ⟨passed, ⟨text, inner, outer⟩, fails⟩

end Pool

end JavaClass
