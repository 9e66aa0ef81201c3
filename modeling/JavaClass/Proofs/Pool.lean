import JavaClass.Pool.Reader
import JavaClass.Proofs.Follows
import JavaClass.Proofs.Number

/-!
The format of a constant pool: a count, then constants whose slots make up the count, each led to
by the right indices alone. Reading a pool accepts this format and nothing else.
-/

namespace JavaClass

open Format

section
variable {ε α β : Type}

theorem bind_eq_ok_iff {x : Except ε α} {next : α → Except ε β} {b : β} :
    (x >>= next) = .ok b ↔ ∃ a, x = .ok a ∧ next a = .ok b := by
  cases x with
  | ok a => exact ⟨fun done => ⟨a, rfl, done⟩, by rintro ⟨_, ⟨⟩, done⟩; exact done⟩
  | error e => exact ⟨nofun, nofun⟩

theorem discard_eq_ok_iff {x : Except ε α} : discard x = .ok () ↔ ∃ a, x = .ok a := by
  cases x with
  | ok a => exact ⟨fun _ => ⟨a, rfl⟩, fun _ => rfl⟩
  | error e => exact ⟨nofun, nofun⟩

theorem forM_eq_ok_iff {items : List α} {check : α → Except ε Unit} :
    items.forM check = .ok () ↔ ∀ a ∈ items, check a = .ok () := by
  induction items with
  | nil => exact ⟨fun _ => nofun, fun _ => rfl⟩
  | cons a items ih =>
    change (check a >>= fun _ => items.forM check) = _ ↔ _
    simp only [bind_eq_ok_iff, ih, List.forall_mem_cons]
    exact ⟨fun ⟨(), first, others⟩ => ⟨first, others⟩, fun ⟨first, others⟩ => ⟨(), first, others⟩⟩

end

namespace Pool

/-- The slot of an index can be used, and this constant is in it. -/
def Holds (p : Pool) (index : Int) (e : Entry) : Prop :=
  0 < index ∧ p.slots[index.toNat]? = some (some e)

/-- The constant at the index is of one of the kinds. -/
def Leads (p : Pool) (index : Int) (kinds : List EntryKind) : Prop :=
  ∃ e, p.Holds index e ∧ e.kind ∈ kinds

/-- An index of a constant of one of the kinds. -/
def indexOf (p : Pool) (kinds : List EntryKind) : Format Nat := fun index =>
  require (p.Leads index kinds) * unsigned 2 index

/-- Such an index, or 0 for none. -/
def optionalIndexOf (p : Pool) (kinds : List EntryKind) : Format Nat := fun index =>
  require (index = 0 ∨ p.Leads index kinds) * unsigned 2 index

/-- An index of a text. -/
def indexOfText (p : Pool) (text : Text) : Format Nat := fun index =>
  require (p.Holds index (.utf8 text)) * unsigned 2 index

theorem counted_indexOf (p : Pool) (kinds : List EntryKind) (indices : List Nat) :
    counted 2 (indices.map (p.indexOf kinds)) =
      require (∀ index ∈ indices, p.Leads (index : Nat) kinds) *
        counted 2 (indices.map (unsigned 2)) :=
  counted_require_mul

variable {p : Pool} {index : Int}

theorem get_eq_ok_iff {e : Entry} : p.get index = .ok e ↔ p.Holds index e := by
  unfold get Holds
  by_cases zero : index = 0
  · simp [zero]
  by_cases outside : index < 0 ∨ (p.count : Int) ≤ index
  · have missing : 0 < index → p.slots[index.toNat]? = none := by
      intro positive
      rw [List.getElem?_eq_none_iff]
      unfold count at outside
      omega
    simp only [zero, outside, if_true, if_false, reduceCtorEq, false_iff]
    rintro ⟨positive, found⟩
    rw [missing positive] at found
    cases found
  · have positive : 0 < index := by omega
    simp only [zero, outside, if_false, positive, true_and]
    split
    · rename_i found
      simp [found]
    · rename_i other
      simp only [reduceCtorEq, false_iff]
      exact other e

theorem expect_eq_ok_iff {kinds : List EntryKind} {e : Entry}
    (specific : .memberRef ∉ kinds ∧ .unknown ∉ kinds) :
    p.expect index kinds = .ok e ↔ p.Holds index e ∧ e.kind ∈ kinds := by
  have accepted (found : EntryKind) : kinds.any (·.accepts found) = true ↔ found ∈ kinds := by
    rw [List.any_eq_true]
    constructor
    · rintro ⟨kind, listed, accepts⟩
      cases kind <;> simp_all [EntryKind.accepts]
    · intro listed
      refine ⟨found, listed, ?_⟩
      cases found <;> simp_all [EntryKind.accepts]
  simp only [expect, bind_eq_ok_iff, get_eq_ok_iff]
  constructor
  · rintro ⟨found, holds, kept⟩
    split at kept
    · rename_i accepts
      cases kept
      exact ⟨holds, (accepted _).mp accepts⟩
    · cases kept
  · rintro ⟨holds, listed⟩
    exact ⟨e, holds, by rw [if_pos ((accepted _).mpr listed)]; rfl⟩

theorem discard_expect_eq_ok_iff {kinds : List EntryKind}
    (specific : .memberRef ∉ kinds ∧ .unknown ∉ kinds) :
    discard (p.expect index kinds) = .ok () ↔ p.Leads index kinds := by
  simp only [discard_eq_ok_iff, expect_eq_ok_iff specific, Leads]

theorem utf8_eq_ok_iff {text : Text} : p.utf8 index = .ok text ↔ p.Holds index (.utf8 text) := by
  simp only [utf8, bind_eq_ok_iff, get_eq_ok_iff]
  constructor
  · rintro ⟨found, holds, kept⟩
    split at kept
    · cases kept
      exact holds
    · cases kept
  · intro holds
    exact ⟨_, holds, rfl⟩

theorem className_eq_ok_iff {name : Text} : p.className index = .ok name ↔
    ∃ target, p.Holds index (.classRef target) ∧ p.Holds target (.utf8 name) := by
  simp only [className, bind_eq_ok_iff, get_eq_ok_iff]
  constructor
  · rintro ⟨found, holds, named⟩
    split at named
    · exact ⟨_, holds, utf8_eq_ok_iff.mp named⟩
    · cases named
  · rintro ⟨target, holds, named⟩
    exact ⟨_, holds, utf8_eq_ok_iff.mpr named⟩

theorem stringValue_eq_ok_iff {value : Text} : p.stringValue index = .ok value ↔
    ∃ target, p.Holds index (.string target) ∧ p.Holds target (.utf8 value) := by
  simp only [stringValue, bind_eq_ok_iff, get_eq_ok_iff]
  constructor
  · rintro ⟨found, holds, written⟩
    split at written
    · exact ⟨_, holds, utf8_eq_ok_iff.mp written⟩
    · cases written
  · rintro ⟨target, holds, written⟩
    exact ⟨_, holds, utf8_eq_ok_iff.mpr written⟩

theorem nameAndType_eq_ok_iff {name descriptor : Text} :
    p.nameAndType index = .ok (name, descriptor) ↔ ∃ nameIndex descriptorIndex,
      p.Holds index (.nameAndType nameIndex descriptorIndex) ∧
        p.Holds nameIndex (.utf8 name) ∧ p.Holds descriptorIndex (.utf8 descriptor) := by
  simp only [nameAndType, bind_eq_ok_iff, get_eq_ok_iff]
  constructor
  · rintro ⟨found, holds, paired⟩
    split at paired
    · obtain ⟨_, named, paired⟩ := bind_eq_ok_iff.mp paired
      obtain ⟨_, described, ⟨⟩⟩ := bind_eq_ok_iff.mp paired
      exact ⟨_, _, holds, utf8_eq_ok_iff.mp named, utf8_eq_ok_iff.mp described⟩
    · cases paired
  · rintro ⟨nameIndex, descriptorIndex, holds, named, described⟩
    refine ⟨_, holds, bind_eq_ok_iff.mpr ⟨name, utf8_eq_ok_iff.mpr named, ?_⟩⟩
    exact bind_eq_ok_iff.mpr ⟨descriptor, utf8_eq_ok_iff.mpr described, rfl⟩

theorem memberRef_eq_ok_iff {owner name descriptor : Text} :
    p.memberRef index = .ok (owner, name, descriptor) ↔ ∃ kind ownerIndex member,
      p.Holds index (.memberRef kind ownerIndex member) ∧ p.className ownerIndex = .ok owner ∧
        p.nameAndType member = .ok (name, descriptor) := by
  simp only [memberRef, bind_eq_ok_iff, get_eq_ok_iff]
  constructor
  · rintro ⟨found, holds, parts⟩
    split at parts
    · obtain ⟨_, owned, parts⟩ := bind_eq_ok_iff.mp parts
      obtain ⟨_, typed, ⟨⟩⟩ := bind_eq_ok_iff.mp parts
      exact ⟨_, _, _, holds, owned, typed⟩
    · cases parts
  · rintro ⟨kind, ownerIndex, member, holds, owned, typed⟩
    refine ⟨_, holds, bind_eq_ok_iff.mpr ⟨owner, owned, ?_⟩⟩
    exact bind_eq_ok_iff.mpr ⟨_, typed, rfl⟩

end Pool

/-- What a method handle may refer to, by the number of its kind: the first four kinds get and put
fields, and the other five call methods. -/
inductive HandleTarget (number : Int) : EntryKind → Prop
  | field (first : 1 ≤ number) (last : number ≤ 4) : HandleTarget number .fieldRef
  | method (first : 5 ≤ number) (last : number ≤ 8) : HandleTarget number .methodRef
  | interfaceMethod (which : number = 6 ∨ number = 7 ∨ number = 9) :
      HandleTarget number .interfaceMethodRef

namespace Entry

/-- All that a constant refers to is in the pool and of the right kind. -/
def Linked (p : Pool) : Entry → Prop
  | .classRef name | .moduleRef name | .packageRef name => p.Leads name [.utf8]
  | .string value => p.Leads value [.utf8]
  | .methodType descriptor => p.Leads descriptor [.utf8]
  | .memberRef _ owner member => p.Leads owner [.classRef] ∧ p.Leads member [.nameAndType]
  | .nameAndType name descriptor => p.Leads name [.utf8] ∧ p.Leads descriptor [.utf8]
  | .methodHandle kind reference => ∃ e, p.Holds reference e ∧ HandleTarget kind e.kind
  | .dynamic _ member | .invokeDynamic _ member => p.Leads member [.nameAndType]
  | .utf8 _ | .integer _ | .float _ | .long _ | .double _ | .unknown => True

theorem kind_eq_utf8_iff {e : Entry} : e.kind = .utf8 ↔ ∃ text, e = .utf8 text := by
  cases e with
  | memberRef kind => cases kind <;> simp [kind]
  | _ => simp [kind]

theorem kind_eq_classRef_iff {e : Entry} : e.kind = .classRef ↔ ∃ name, e = .classRef name := by
  cases e with
  | memberRef kind => cases kind <;> simp [kind]
  | _ => simp [kind]

theorem kind_eq_string_iff {e : Entry} : e.kind = .string ↔ ∃ value, e = .string value := by
  cases e with
  | memberRef kind => cases kind <;> simp [kind]
  | _ => simp [kind]

theorem kind_eq_nameAndType_iff {e : Entry} :
    e.kind = .nameAndType ↔ ∃ name descriptor, e = .nameAndType name descriptor := by
  cases e with
  | memberRef kind => cases kind <;> simp [kind]
  | _ => simp [kind]

theorem handleTarget_iff {number : Int} {kind : EntryKind} :
    HandleTarget number kind ↔
      ∃ handle, HandleKind.ofNumber? number = some handle ∧ kind ∈ handle.referents := by
  constructor
  · rintro (⟨first, last⟩ | ⟨first, last⟩ | ⟨which⟩)
    · have : number = 1 ∨ number = 2 ∨ number = 3 ∨ number = 4 := by omega
      obtain rfl | rfl | rfl | rfl := this <;> exact ⟨_, rfl, by decide⟩
    · have : number = 5 ∨ number = 6 ∨ number = 7 ∨ number = 8 := by omega
      obtain rfl | rfl | rfl | rfl := this <;> exact ⟨_, rfl, by decide⟩
    · obtain rfl | rfl | rfl := which <;> exact ⟨_, rfl, by decide⟩
  · rintro ⟨handle, numbered, listed⟩
    unfold HandleKind.ofNumber? at numbered
    split at numbered <;> cases numbered <;> simp only [HandleKind.referents, List.mem_cons,
      List.not_mem_nil, or_false] at listed <;> rcases listed with rfl | rfl
    all_goals constructor <;> decide

theorem checkLinks_eq_ok_iff {p : Pool} {index : Nat} {e : Entry} :
    e.checkLinks p index = .ok () ↔ e.Linked p := by
  cases e with
  | methodHandle kind reference =>
    simp only [checkLinks, Linked, handleTarget_iff]
    cases HandleKind.ofNumber? kind with
    | none => simp
    | some handle =>
      have specific : .memberRef ∉ handle.referents ∧ .unknown ∉ handle.referents := by
        cases handle <;> decide
      simp [Pool.discard_expect_eq_ok_iff specific, Pool.Leads]
  | _ => simp [checkLinks, Linked, bind_eq_ok_iff, Pool.discard_expect_eq_ok_iff, Unique.exists_iff]

/-- The bytes after the tag. The text of a constant is what its bytes decode to, and a
floating-point constant is known by its bits; no bytes are a constant of a general kind. -/
def fields : Entry → Language UInt8
  | .utf8 value =>
    ⨆ raw, require (value = ModifiedUtf8.decode raw) * (unsigned 2 raw.length * exactly raw)
  | .integer value => signed 4 value
  | .float value => ⨆ bits, require (value.HasBits .single bits) * unsigned 4 bits
  | .long value => signed 8 value
  | .double value => ⨆ bits, require (value.HasBits .double bits) * unsigned 8 bits
  | .memberRef .general .. | .unknown => 0
  | .memberRef _ owner member => natural 2 owner * natural 2 member
  | .nameAndType name descriptor => natural 2 name * natural 2 descriptor
  | .methodHandle kind reference => natural 1 kind * natural 2 reference
  | .dynamic bootstrap member | .invokeDynamic bootstrap member =>
    natural 2 bootstrap * natural 2 member
  | .classRef name | .moduleRef name | .packageRef name => natural 2 name
  | .string value => natural 2 value
  | .methodType descriptor => natural 2 descriptor

def encoding (e : Entry) : Language UInt8 := unsigned 1 e.kind.tag * e.fields

theorem width_eq (e : Entry) : e.width = 1 ∨ e.width = 2 := by
  unfold width EntryKind.width
  split <;> simp

/-- A constant in its slot, and the slots that it leaves empty. -/
def slots (e : Entry) : List (Option Entry) := some e :: List.replicate (e.width - 1) none

end Entry

namespace Pool

/-- The constants in the order of their slots. -/
def constants (p : Pool) : List Entry := p.slots.filterMap id

/-- Constants fill the slots from 1 on without a gap, and all of them are linked. -/
structure Valid (p : Pool) : Prop where
  placed : p.slots = none :: p.constants.flatMap Entry.slots
  linked : ∀ e ∈ p.constants, e.Linked p

/-- The count is one more than the slots that are used, but 0 will do for an empty pool. -/
def encoding (p : Pool) : Language UInt8 :=
  ⨆ count, require (p.Valid ∧ (p.constants.map Entry.width).sum = count - 1) *
    (unsigned 2 count * (p.constants.map Entry.encoding).prod)

theorem filterMap_slots (entries : List Entry) :
    (entries.flatMap Entry.slots).filterMap id = entries := by
  induction entries with
  | nil => rfl
  | cons e entries ih =>
    have empty : (List.replicate (e.width - 1) (none : Option Entry)).filterMap id = [] := by
      simp
    rw [List.flatMap_cons, List.filterMap_append, ih, Entry.slots, List.filterMap_cons, empty]
    rfl

theorem map_entries (p : Pool) : p.entries.map Prod.snd = p.constants := by
  have plain (slot : Option Entry) (index : Nat) :
      (slot.map (index, ·)).map Prod.snd = slot := by cases slot <;> rfl
  calc p.entries.map Prod.snd
      = p.slots.zipIdx.filterMap Prod.fst := by simp only [entries, List.map_filterMap, plain]
    _ = (p.slots.zipIdx.map Prod.fst).filterMap id := by
      rw [List.filterMap_map]
      rfl
    _ = p.constants := by rw [List.zipIdx_map_fst, constants]

/-- Going through a pool gives what is in its slots. -/
theorem mem_entries_iff {p : Pool} {index : Nat} {e : Entry} :
    (index, e) ∈ p.entries ↔ p.slots[index]? = some (some e) := by
  rw [entries, List.mem_filterMap]
  constructor
  · rintro ⟨⟨slot, place⟩, inSlots, same⟩
    obtain ⟨_, rfl, ⟨⟩⟩ := Option.map_eq_some_iff.mp same
    exact List.mem_zipIdx_iff_getElem?.mp inSlots
  · intro held
    exact ⟨(some e, index), List.mem_zipIdx_iff_getElem?.mpr held, rfl⟩

theorem holds_iff_mem_entries {p : Pool} {index : Nat} {e : Entry}
    (first : p.slots[0]?.join = none) : p.Holds index e ↔ (index, e) ∈ p.entries := by
  rw [mem_entries_iff, Holds, Int.toNat_natCast]
  constructor
  · exact fun holds => holds.2
  · intro held
    have used : index ≠ 0 := by
      rintro rfl
      rw [held] at first
      cases first
    exact ⟨by omega, held⟩

theorem Valid.first_empty {p : Pool} (valid : p.Valid) : p.slots[0]?.join = none := by
  rw [valid.placed]
  rfl

theorem checkLinks_eq_ok_iff {p : Pool} :
    p.checkLinks = .ok () ↔ ∀ e ∈ p.constants, e.Linked p := by
  rw [checkLinks, forM_eq_ok_iff, ← map_entries, List.forall_mem_map]
  simp only [Entry.checkLinks_eq_ok_iff]

theorem Holds.mem_constants {p : Pool} {index : Int} {e : Entry} (holds : p.Holds index e) :
    e ∈ p.constants :=
  List.mem_filterMap.mpr ⟨some e, List.mem_of_getElem? holds.2, rfl⟩

theorem Leads.holds_utf8 {p : Pool} {index : Int} (leads : p.Leads index [.utf8]) :
    ∃ text, p.Holds index (.utf8 text) := by
  obtain ⟨e, holds, kind⟩ := leads
  obtain ⟨text, rfl⟩ := Entry.kind_eq_utf8_iff.mp (List.mem_singleton.mp kind)
  exact ⟨text, holds⟩

/-! In a pool whose constants are linked a look-up succeeds if it starts at the right kind. -/

section
variable {p : Pool} {index : Int} (linked : ∀ e ∈ p.constants, e.Linked p)
include linked

theorem exists_className_iff :
    (∃ name, p.className index = .ok name) ↔ p.Leads index [.classRef] := by
  simp only [className_eq_ok_iff]
  constructor
  · rintro ⟨name, target, holds, -⟩
    exact ⟨_, holds, List.mem_singleton_self _⟩
  · rintro ⟨e, holds, kind⟩
    obtain ⟨target, rfl⟩ := Entry.kind_eq_classRef_iff.mp (List.mem_singleton.mp kind)
    obtain ⟨name, named⟩ := Leads.holds_utf8 (linked _ holds.mem_constants)
    exact ⟨name, target, holds, named⟩

theorem exists_stringValue_iff :
    (∃ value, p.stringValue index = .ok value) ↔ p.Leads index [.string] := by
  simp only [stringValue_eq_ok_iff]
  constructor
  · rintro ⟨value, target, holds, -⟩
    exact ⟨_, holds, List.mem_singleton_self _⟩
  · rintro ⟨e, holds, kind⟩
    obtain ⟨target, rfl⟩ := Entry.kind_eq_string_iff.mp (List.mem_singleton.mp kind)
    obtain ⟨value, written⟩ := Leads.holds_utf8 (linked _ holds.mem_constants)
    exact ⟨value, target, holds, written⟩

theorem exists_nameAndType_iff :
    (∃ pair, p.nameAndType index = .ok pair) ↔ p.Leads index [.nameAndType] := by
  simp only [Prod.exists, nameAndType_eq_ok_iff]
  constructor
  · rintro ⟨name, descriptor, _, _, holds, -⟩
    exact ⟨_, holds, List.mem_singleton_self _⟩
  · rintro ⟨e, holds, kind⟩
    obtain ⟨_, _, rfl⟩ := Entry.kind_eq_nameAndType_iff.mp (List.mem_singleton.mp kind)
    obtain ⟨leadsName, leadsDescriptor⟩ := linked _ holds.mem_constants
    obtain ⟨name, named⟩ := leadsName.holds_utf8
    obtain ⟨descriptor, described⟩ := leadsDescriptor.holds_utf8
    exact ⟨name, descriptor, _, _, holds, named, described⟩

theorem exists_memberRef_iff :
    (∃ parts, p.memberRef index = .ok parts) ↔
      ∃ kind owner member, p.Holds index (.memberRef kind owner member) := by
  simp only [Prod.exists, memberRef_eq_ok_iff]
  constructor
  · rintro ⟨_, _, _, kind, owner, member, holds, -⟩
    exact ⟨kind, owner, member, holds⟩
  · rintro ⟨kind, owner, member, holds⟩
    obtain ⟨leadsOwner, leadsMember⟩ := linked _ holds.mem_constants
    obtain ⟨ownerName, owned⟩ := (exists_className_iff linked).mpr leadsOwner
    obtain ⟨⟨name, descriptor⟩, typed⟩ := (exists_nameAndType_iff linked).mpr leadsMember
    exact ⟨ownerName, name, descriptor, kind, owner, member, holds, owned, typed⟩

end

end Pool

namespace Reader

theorem follows_float {width : Nat} {f : BinaryFormat} {reader : Reader Nat} {make : Nat → Binary64}
    (follows : Follows reader (unsigned width))
    (same : ∀ {bits value}, bits < 256 ^ width → (value = make bits ↔ value.HasBits f bits)) :
    Follows (return make (← reader))
      (fun value => ⨆ bits, require (value.HasBits f bits) * unsigned width bits) := by
  refine (follows.bind fun bits => .pure _).congr fun value bytes => ?_
  simp only [mul_require, Language.mem_iSup, mem_require_mul]
  exact exists_congr fun bits => and_congr_left fun inside => same inside.1

theorem follows_f4 :
    Follows f4 (fun value => ⨆ bits, require (value.HasBits .single bits) * unsigned 4 bits) :=
  follows_float follows_u4 Binary64.ofSingleBits_eq_iff

theorem follows_f8 :
    Follows f8 (fun value => ⨆ bits, require (value.HasBits .double bits) * unsigned 8 bits) :=
  follows_float follows_u8 Binary64.ofBits_eq_iff

end Reader

theorem Entry.follows_read (tag : Nat) (offset : Int) :
    Follows (Entry.read tag offset) (fun e => require (e.kind.tag = tag) * e.fields) := by
  unfold Entry.read
  split
  case' h_1 =>
    refine .tagged (.bind Reader.follows_u2 fun length => .bind (Reader.follows_bytes length)
      fun _ => .pure _) (of_mem_iSup_mul fun _ => of_mem_iSup_mul (by rintro _ _ ⟨rfl, _⟩; rfl))
        fun e bytes same => ?_
  case' h_2 =>
    refine .tagged (.bind Reader.follows_i4 fun _ => .pure _)
      (of_mem_iSup_mul (by rintro _ _ ⟨rfl, _⟩; rfl)) fun e bytes same => ?_
  case' h_3 =>
    refine .tagged (.bind Reader.follows_f4 fun _ => .pure _)
      (of_mem_iSup_mul (by rintro _ _ ⟨rfl, _⟩; rfl)) fun e bytes same => ?_
  case' h_4 =>
    refine .tagged (.bind Reader.follows_i8 fun _ => .pure _)
      (of_mem_iSup_mul (by rintro _ _ ⟨rfl, _⟩; rfl)) fun e bytes same => ?_
  case' h_5 =>
    refine .tagged (.bind Reader.follows_f8 fun _ => .pure _)
      (of_mem_iSup_mul (by rintro _ _ ⟨rfl, _⟩; rfl)) fun e bytes same => ?_
  case' h_6 | h_7 | h_13 | h_16 | h_17 =>
    refine .tagged (.bind Reader.follows_u2 fun _ => .pure _)
      (of_mem_iSup_mul (by rintro _ _ ⟨rfl, _⟩; rfl)) fun e bytes same => ?_
  case' h_8 | h_9 | h_10 | h_11 | h_14 | h_15 =>
    refine .tagged (.bind Reader.follows_u2 fun _ => .bind Reader.follows_u2 fun _ => .pure _)
      (of_mem_iSup_mul fun _ => of_mem_iSup_mul (by rintro _ _ ⟨rfl, _⟩; rfl))
        fun e bytes same => ?_
  case' h_12 =>
    refine .tagged (.bind Reader.follows_u1 fun _ => .bind Reader.follows_u2 fun _ => .pure _)
      (of_mem_iSup_mul fun _ => of_mem_iSup_mul (by rintro _ _ ⟨rfl, _⟩; rfl))
        fun e bytes same => ?_
  case h_18 =>
    refine .tagged (.throw _) (fun impossible => (Language.notMem_zero _ impossible).elim) ?_
    rintro e bytes rfl
    cases e with
    | memberRef kind => cases kind <;> first | contradiction | rfl
    | _ => first | contradiction | rfl
  -- The tag leaves one shape of constant.
  all_goals
    cases e with
    | memberRef kind =>
      cases kind <;> first | (cases same; done) | simp [fields, natural, mul_assoc]
    | _ => first | (cases same; done) | simp [fields, natural, mul_assoc]

namespace Pool

/-- Constants that take up exactly the slots that are free. -/
def slotsEncoding (free : Nat) (slots : List (Option Entry)) : Language UInt8 :=
  ⨆ entries : List Entry,
    require (slots = entries.flatMap Entry.slots ∧ (entries.map Entry.width).sum = free) *
      (entries.map Entry.encoding).prod

theorem mem_slotsEncoding_zero {slots : List (Option Entry)} {bytes : List UInt8} :
    bytes ∈ slotsEncoding 0 slots ↔ slots = [] ∧ bytes = [] := by
  simp only [slotsEncoding, Language.mem_iSup, mem_require_mul]
  constructor
  · rintro ⟨_ | ⟨e, others⟩, ⟨rfl, sum⟩, inside⟩
    · exact ⟨rfl, inside⟩
    · have := e.width_eq
      simp only [List.map_cons, List.sum_cons] at sum
      omega
  · rintro ⟨rfl, rfl⟩
    exact ⟨[], ⟨rfl, rfl⟩, rfl⟩

theorem mem_slotsEncoding_succ {free : Nat} {slots : List (Option Entry)} {bytes : List UInt8} :
    bytes ∈ slotsEncoding (free + 1) slots ↔ ∃ e : Entry, ∃ rest,
      (slots = e.slots ++ rest ∧ e.width ≤ free + 1) ∧
        bytes ∈ e.encoding * slotsEncoding (free + 1 - e.width) rest := by
  simp only [slotsEncoding, Language.mul_iSup, Language.mem_iSup, mul_require_mul, mem_require_mul]
  constructor
  · rintro ⟨_ | ⟨e, others⟩, ⟨rfl, sum⟩, inside⟩
    · cases sum
    · simp only [List.map_cons, List.sum_cons, List.prod_cons] at sum inside
      exact ⟨e, _, ⟨rfl, by omega⟩, others, ⟨rfl, by omega⟩, inside⟩
  · rintro ⟨e, _, ⟨rfl, fits⟩, others, ⟨rfl, sum⟩, inside⟩
    refine ⟨e :: others, ⟨rfl, ?_⟩, inside⟩
    simp only [List.map_cons, List.sum_cons]
    omega

theorem follows_readSlots (index free : Nat) :
    Follows (readSlots index free) (slotsEncoding free) := by
  induction free using Nat.strong_induction_on generalizing index with
  | _ free ih =>
    cases free with
    | zero =>
      refine (Follows.pure []).congr fun slots bytes => ?_
      rw [mem_require, mem_slotsEncoding_zero]
    | succ free =>
      unfold readSlots
      refine Follows.offset_bind fun offset => Follows.congr (.bind Reader.follows_u1 fun tag =>
        .bind (Entry.follows_read tag offset) fun e => (?_ : Follows _ fun slots => ⨆ rest,
          require (slots = e.slots ++ rest ∧ e.width ≤ free + 1) *
            slotsEncoding (free + 1 - e.width) rest)) fun slots bytes => ?_
      · obtain one | two := e.width_eq
        · rw [if_pos one]
          refine ((ih free (by omega) _).bind fun rest => .pure _).congr fun slots bytes => ?_
          simp [one, Entry.slots]
        · rw [if_neg (by omega)]
          cases free with
          | zero => exact (Follows.throw _).congr fun slots bytes => by simp [two]
          | succ free =>
            refine ((ih free (by omega) _).bind fun rest => .pure _).congr fun slots bytes => ?_
            simp [two, Entry.slots]
      · simp [mem_slotsEncoding_succ, Entry.encoding, mul_assoc]

theorem follows_readCounted (count : Nat) :
    Follows (readCounted count) (fun p =>
      require (p.Valid ∧ (p.constants.map Entry.width).sum = count - 1) *
        (p.constants.map Entry.encoding).prod) := by
  unfold readCounted
  refine Follows.congr (.bind (follows_readSlots _ _) fun slots => .bind (.lift _) fun _ => .pure _)
    fun p bytes => ?_
  simp only [require_mul_require, Language.mul_iSup, Language.mem_iSup]
  simp only [mul_require, mem_require_mul, slotsEncoding, Language.mem_iSup]
  constructor
  · rintro ⟨_, ⟨⟩, ⟨linked, rfl⟩, entries, ⟨rfl, sum⟩, inside⟩
    have constants : (⟨none :: entries.flatMap Entry.slots⟩ : Pool).constants = entries :=
      filterMap_slots entries
    rw [constants]
    exact ⟨⟨⟨by rw [constants], checkLinks_eq_ok_iff.mp linked⟩, sum⟩, inside⟩
  · rintro ⟨⟨valid, sum⟩, inside⟩
    have whole : ⟨none :: p.constants.flatMap Entry.slots⟩ = p :=
      (congrArg Pool.mk valid.placed).symm
    refine ⟨_, (), ⟨?_, whole.symm⟩, p.constants, ⟨rfl, sum⟩, inside⟩
    rw [whole]
    exact checkLinks_eq_ok_iff.mpr valid.linked

theorem follows_read : Follows read encoding := by
  unfold read
  refine Follows.congr (.bind Reader.follows_u2 fun count => follows_readCounted count)
    fun p bytes => ?_
  simp [encoding]

theorem follows_utf8 (p : Pool) (index : Int) :
    Follows (liftM (p.utf8 index) : Reader Text)
      (fun text => require (p.Holds index (.utf8 text))) := by
  simpa only [utf8_eq_ok_iff] using Follows.lift (p.utf8 index)

theorem follows_expect {p : Pool} {index : Int} {kinds : List EntryKind}
    (specific : .memberRef ∉ kinds ∧ .unknown ∉ kinds) :
    Follows (discard (liftM (p.expect index kinds) : Reader Entry))
      (fun _ => require (p.Leads index kinds)) := by
  simpa only [Leads, expect_eq_ok_iff specific] using Follows.discard_lift (p.expect index kinds)

/-- Reading gives a pool exactly from the bytes that encode it, and takes all of them. -/
theorem pool_read_ok_iff_mem_encoding (c d : Cursor) (p : Pool) :
    read c = .ok p d ↔ ∃ used ∈ p.encoding, c.Passes used d :=
  follows_read.ok_iff

end Pool

end JavaClass
