import JavaClass.Proofs.Tracks

/-!
The same bytes somewhere else. Constants, code and attributes are read alike at any offset: what is
read is the same, and a fault is at the same distance from the start.
-/

namespace JavaClass

section
variable {policy : Policy} {distance first mark : Int}

namespace Reader

theorem tracks_bytesOf (n : Int) : Tracks policy distance first mark (bytesOf n) (bytesOf n) :=
  .takes (takes_bytesOf n)

theorem tracks_bytes (n : Nat) : Tracks policy distance first mark (bytes n) (bytes n) := by
  rw [← bytesOf_cast]
  exact tracks_bytesOf n

theorem tracks_u1 : Tracks policy distance first mark u1 u1 :=
  (tracks_bytes 1).bind fun _ => .pure _

theorem tracks_u2 : Tracks policy distance first mark u2 u2 :=
  (tracks_bytes 2).bind fun _ => .pure _

theorem tracks_u4 : Tracks policy distance first mark u4 u4 :=
  (tracks_bytes 4).bind fun _ => .pure _

theorem tracks_u8 : Tracks policy distance first mark u8 u8 :=
  (tracks_bytes 8).bind fun _ => .pure _

theorem tracks_i1 : Tracks policy distance first mark i1 i1 := tracks_u1.bind fun _ => .pure _

theorem tracks_i2 : Tracks policy distance first mark i2 i2 := tracks_u2.bind fun _ => .pure _

theorem tracks_i4 : Tracks policy distance first mark i4 i4 := tracks_u4.bind fun _ => .pure _

theorem tracks_skip (n : Int) : Tracks policy distance first mark (skip n) (skip n) :=
  (tracks_bytesOf n).bind fun _ => .pure ()

end Reader

open Reader (tracks_u1 tracks_u2 tracks_u4 tracks_u8 tracks_i1 tracks_i2 tracks_i4)

theorem Entry.tracks_read (tag : Nat) {offset : Int} (after : first ≤ offset)
    (before : offset ≤ mark) : Tracks .reading distance first mark (Entry.read tag offset)
      (Entry.read tag (offset + distance)) := by
  fun_cases Entry.read tag offset
  case case18 =>
    simp only [*, Entry.read]
    have placed : Policy.reading.placed (.badTag tag) :=
      Policy.placed_of_kind .invalidConstantPoolTag rfl (by decide)
    exact .fault placed after before
  case case1 =>
    exact tracks_u2.bind fun length => (Reader.tracks_bytes length).bind fun _ => .pure _
  case case2 => exact tracks_i4.bind fun _ => .pure _
  case case3 => exact (tracks_u4.bind fun _ => .pure _).bind fun _ => .pure _
  case case4 | case5 => exact (tracks_u8.bind fun _ => .pure _).bind fun _ => .pure _
  case case12 => exact tracks_u1.bind fun _ => tracks_u2.bind fun _ => .pure _
  case case6 | case7 | case13 | case16 | case17 => exact tracks_u2.bind fun _ => .pure _
  all_goals exact tracks_u2.bind fun _ => tracks_u2.bind fun _ => .pure _

namespace Pool

theorem tracks_readSlots (index free : Nat) :
    Tracks .reading distance first mark (readSlots index free) (readSlots index free) := by
  induction free using Nat.strong_induction_on generalizing index mark with
  | _ free ih =>
    cases free with
    | zero => exact .pure []
    | succ free =>
      unfold readSlots
      apply Tracks.offset_bind
      intro offset after
      apply tracks_u1.bind
      intro tag
      apply (Entry.tracks_read tag after (Int.le_refl _)).bind
      intro e
      apply Tracks.ite
      · exact (ih free (by omega) _).bind fun _ => .pure _
      · cases free with
        | zero => exact .fault (Policy.placed_of_malformed rfl) after (Int.le_refl _)
        | succ free => exact (ih free (by omega) _).bind fun _ => .pure _

theorem tracks_readCounted (count : Nat) :
    Tracks .reading distance first mark (readCounted count) (readCounted count) := by
  apply (tracks_readSlots 1 (count - 1)).bind
  intro slots
  exact (Tracks.lookup (placeless_checkLinks _)).bind fun _ => .pure _

theorem tracks_read : Tracks .reading distance first mark read read :=
  tracks_u2.bind tracks_readCounted

end Pool

namespace Instruction

theorem tracks_readTableSwitch (pc : Nat) :
    Tracks .reading distance first mark (readTableSwitch pc) (readTableSwitch pc) := by
  unfold readTableSwitch
  apply (Reader.tracks_skip _).bind
  intro _
  apply tracks_i4.bind
  intro fallback
  apply tracks_i4.bind
  intro low
  apply tracks_i4.bind
  intro high
  apply Tracks.ite
  · apply Tracks.offset_bind
    intro offset after
    exact .fault (Policy.placed_of_malformed rfl) after (Int.le_refl _)
  · exact (tracks_i4.times _).bind fun _ => .pure _

theorem tracks_readLookupSwitch (pc : Nat) :
    Tracks .reading distance first mark (readLookupSwitch pc) (readLookupSwitch pc) := by
  unfold readLookupSwitch
  apply (Reader.tracks_skip _).bind
  intro _
  apply tracks_i4.bind
  intro fallback
  apply tracks_i4.bind
  intro count
  apply Tracks.ite
  · apply Tracks.offset_bind
    intro offset after
    exact .fault (Policy.placed_of_malformed rfl) after (Int.le_refl _)
  · refine Tracks.bind (.times _ ?_) fun _ => .pure _
    exact tracks_i4.bind fun _ => tracks_i4.bind fun _ => .pure _

theorem tracks_readOperands (layout : Layout) (pc : Nat) (wide : Bool) :
    Tracks .reading distance first mark (readOperands layout pc wide)
      (readOperands layout pc wide) := by
  cases layout with
  | none => exact .pure _
  | byte => exact tracks_i1.bind fun _ => .pure _
  | short | branch => exact tracks_i2.bind fun _ => .pure _
  | farBranch => exact tracks_i4.bind fun _ => .pure _
  | slot =>
    cases wide with
    | false => exact tracks_u1.bind fun _ => .pure _
    | true => exact tracks_u2.bind fun _ => .pure _
  | increment =>
    exact .ite (tracks_u2.bind fun _ => tracks_i2.bind fun _ => .pure _)
      (tracks_u1.bind fun _ => tracks_i1.bind fun _ => .pure _)
  | shortConstant | arrayType => exact tracks_u1.bind fun _ => .pure _
  | constant => exact tracks_u2.bind fun _ => .pure _
  | interfaceCall =>
    exact tracks_u2.bind fun _ => tracks_u1.bind fun _ =>
      (Reader.tracks_skip 1).bind fun _ => .pure _
  | dynamicCall => exact tracks_u2.bind fun _ => (Reader.tracks_skip 2).bind fun _ => .pure _
  | arrayDimensions => exact tracks_u2.bind fun _ => tracks_u1.bind fun _ => .pure _
  | tableSwitch => exact (tracks_readTableSwitch pc).bind fun _ => .pure _
  | lookupSwitch => exact (tracks_readLookupSwitch pc).bind fun _ => .pure _
  | wide =>
    apply Tracks.offset_bind
    intro offset after
    exact .fault (Policy.placed_of_malformed rfl) after (Int.le_refl _)

theorem tracks_readOpcode (pc : Nat) :
    Tracks .reading distance first mark (readOpcode pc) (readOpcode pc) := by
  unfold readOpcode
  apply Tracks.offset_bind
  intro offset after
  apply tracks_u1.bind
  intro opcode
  cases Opcode.mnemonic? opcode with
  | some mnemonic => exact .pure _
  | none =>
    have placed : Policy.reading.placed (.badOpcode opcode pc) :=
      Policy.placed_of_kind .unknownOpcode rfl (by decide)
    exact .fault placed after (Int.le_refl _)

theorem tracks_readOpcodes (pc : Nat) :
    Tracks .reading distance first mark (readOpcodes pc) (readOpcodes pc) := by
  unfold readOpcodes
  apply (tracks_readOpcode pc).bind
  intro found
  apply Tracks.ite
  · exact .pure _
  · apply Tracks.offset_bind
    intro offset after
    apply (tracks_readOpcode (pc + 1)).bind
    intro widened
    apply Tracks.ite
    · exact .fault (Policy.placed_of_malformed rfl) after (Int.le_refl _)
    · exact .pure _

/-- The position in the code is all that an instruction knows of its place. -/
theorem tracks_read : Tracks .reading distance first mark read read := by
  intro c ordered past
  change Agrees _ _ _ c ((readOpcodes c.pos >>= _) c) ((readOpcodes c.pos >>= _) _)
  refine Tracks.bind (tracks_readOpcodes c.pos) (fun p => ?_) c ordered past
  apply (tracks_readOperands _ _ _).bind
  intro operands d ordered past
  exact Tracks.pure _ d ordered past

end Instruction

namespace Disassembly

/-- All of the code is decoded alike at a distance, up to the same fault. -/
def moved (distance : Int) (d : Disassembly) : Disassembly :=
  { d with failure := d.failure.map (Failure.moved distance) }

theorem decode_moved (distance : Int) (count : Nat) (c : Cursor) :
    decode count (c.moved distance) = (decode count c).moved distance ∧
      ∀ failure ∈ (decode count c).failure, failure.Obeys .reading c.offset c.stop := by
  induction count generalizing c with
  | zero => exact ⟨rfl, by rintro _ ⟨⟩⟩
  | succ count ih =>
    have still : (c.moved distance).atEnd = c.atEnd := rfl
    obtain ⟨moves, forward, places⟩ :=
      Instruction.tracks_read c (Int.le_refl c.offset) (Int.le_refl c.offset)
    simp only [decode, still]
    by_cases ended : c.atEnd = true
    · rw [if_pos ended, if_pos ended]
      exact ⟨rfl, by rintro _ ⟨⟩⟩
    rw [if_neg ended, if_neg ended]
    change Instruction.read (c.moved distance) = _ at moves
    rw [moves]
    cases run : Instruction.read c with
    | error failure d =>
      refine ⟨rfl, ?_⟩
      rintro _ ⟨⟩
      exact places run
    | ok i d =>
      obtain ⟨used, passes⟩ := forward run
      have start : d.offset = c.offset + used.length := passes.offset_eq
      have stop : d.stop = c.stop := passes.stop_eq
      obtain ⟨later, laterPlaces⟩ := ih d
      constructor
      · change Disassembly.mk (i :: (decode count (d.moved distance)).instructions)
          (decode count (d.moved distance)).failure = _
        rw [later]
        rfl
      · intro failure found
        exact (laterPlaces failure found).wider (by omega) (by omega)

theorem ofCode_moved (distance : Int) (code : List UInt8) (base : Int) :
    ofCode code (base + distance) = (ofCode code base).moved distance :=
  (decode_moved distance code.length (.ofBytes code base)).1

end Disassembly

theorem disassemble_moved (distance : Int) (code : List UInt8) (base : Int) :
    disassemble code (base + distance) =
      (disassemble code base).mapError (Failure.moved distance) := by
  unfold disassemble
  rw [Disassembly.ofCode_moved]
  cases Disassembly.ofCode code base with
  | mk instructions failure => cases failure <;> rfl

theorem obeys_of_disassemble {code : List UInt8} {base : Int} {failure : Failure}
    (fails : disassemble code base = .error failure) :
    failure.Obeys .reading base (base + code.length) := by
  have places := (Disassembly.decode_moved 0 code.length (.ofBytes code base)).2 failure
  rw [Cursor.stop_ofBytes] at places
  have found : failure ∈ (Disassembly.ofCode code base).failure := by
    unfold disassemble at fails
    cases ended : (Disassembly.ofCode code base).failure with
    | none => simp [ended] at fails
    | some other => simpa [ended] using fails
  exact (places found).wider (by simp [Cursor.offset, Cursor.ofBytes]) (Int.le_refl _)

theorem Pool.tracks_utf8 (pool : Pool) (index : Int) :
    Tracks .reading distance first mark (liftM (pool.utf8 index) : Reader Text)
      (liftM (pool.utf8 index)) :=
  .lookup (pool.placeless_utf8 index)

theorem Pool.tracks_expect (pool : Pool) (index : Int) (kinds : List EntryKind) :
    Tracks .reading distance first mark (discard (liftM (pool.expect index kinds)) : Reader Unit)
      (discard (liftM (pool.expect index kinds))) :=
  (Tracks.lookup (pool.placeless_expect index kinds)).discard

theorem AnnotationOf.tracks_read {Value : Type} {pool : Pool} {value : Reader Value}
    (leads : Tracks .reading distance first mark value value) :
    Tracks .reading distance first mark (AnnotationOf.read pool value)
      (AnnotationOf.read pool value) := by
  unfold AnnotationOf.read
  apply tracks_u2.bind
  intro typeIndex
  apply (pool.tracks_utf8 typeIndex).bind
  intro typeName
  apply tracks_u2.bind
  intro count
  refine Tracks.bind (.times count ?_) fun _ => .pure _
  apply tracks_u2.bind
  intro index
  apply (pool.tracks_utf8 index).bind
  intro name
  exact leads.bind fun _ => .pure _

theorem ElementValue.tracks_read (pool : Pool) (budget : Nat) :
    Tracks .reading distance first mark (ElementValue.read pool budget)
      (ElementValue.read pool budget) := by
  induction budget using Nat.strong_induction_on generalizing mark with
  | _ budget ih =>
    unfold ElementValue.read
    apply Tracks.offset_bind
    intro offset after
    apply tracks_u1.bind
    intro byte
    cases ElementTag.ofByte? byte with
    | some tag => exact tracks_u2.bind fun _ => (pool.tracks_expect _ _).bind fun _ => .pure _
    | none =>
      apply Tracks.ite
      · exact tracks_u2.bind fun _ => tracks_u2.bind fun _ => (pool.tracks_expect _ _).bind fun _ =>
          (pool.tracks_expect _ _).bind fun _ => .pure _
      apply Tracks.ite
      · obtain _ | _ | budget := budget
        · exact .tooDeep
        · exact .tooDeep
        · exact (AnnotationOf.tracks_read (ih budget (by omega))).bind fun _ => .pure _
      apply Tracks.ite
      · apply tracks_u2.bind
        intro count
        obtain _ | _ | budget := budget
        · exact .tooDeep
        · exact .tooDeep
        · exact ((ih budget (by omega)).times count).bind fun _ => .pure _
      · exact .fault (Policy.placed_of_malformed rfl) after (Int.le_refl _)

section
variable {pool : Pool} {kinds : List EntryKind}

theorem tracks_readIndex :
    Tracks .reading distance first mark (readIndex pool kinds) (readIndex pool kinds) :=
  tracks_u2.bind fun _ => (pool.tracks_expect _ _).bind fun _ => .pure _

theorem Pool.tracks_expectOptional (index : Nat) :
    Tracks .reading distance first mark (liftM (pool.expectOptional index kinds) : Reader Unit)
      (liftM (pool.expectOptional index kinds)) :=
  .lookup (pool.placeless_expectOptional index kinds)

theorem tracks_readOptionalIndex :
    Tracks .reading distance first mark (readOptionalIndex pool kinds)
      (readOptionalIndex pool kinds) :=
  tracks_u2.bind fun index => (Pool.tracks_expectOptional index).bind fun _ => .pure _

theorem tracks_readIndices :
    Tracks .reading distance first mark (readIndices pool kinds) (readIndices pool kinds) :=
  tracks_u2.bind fun _ => tracks_readIndex.times _

theorem tracks_readText :
    Tracks .reading distance first mark (readText pool) (readText pool) :=
  tracks_u2.bind fun _ => (pool.tracks_utf8 _).bind fun _ => .pure _

theorem ExceptionHandler.tracks_read :
    Tracks .reading distance first mark (ExceptionHandler.read pool) (ExceptionHandler.read pool) :=
  tracks_u2.bind fun _ => tracks_u2.bind fun _ => tracks_u2.bind fun _ =>
    tracks_readOptionalIndex.bind fun _ => .pure _

theorem LineNumber.tracks_read :
    Tracks .reading distance first mark LineNumber.read LineNumber.read :=
  tracks_u2.bind fun _ => tracks_u2.bind fun _ => .pure _

theorem LocalVariable.tracks_read :
    Tracks .reading distance first mark (LocalVariable.read pool) (LocalVariable.read pool) :=
  tracks_u2.bind fun _ => tracks_u2.bind fun _ => tracks_u2.bind fun _ => tracks_u2.bind fun _ =>
    tracks_u2.bind fun _ => (pool.tracks_utf8 _).bind fun _ => (pool.tracks_utf8 _).bind fun _ =>
      .pure _

theorem InnerClass.tracks_read :
    Tracks .reading distance first mark (InnerClass.read pool) (InnerClass.read pool) :=
  tracks_u2.bind fun _ => tracks_u2.bind fun _ => tracks_u2.bind fun _ => tracks_u2.bind fun _ =>
    (pool.tracks_expect _ _).bind fun _ => (Pool.tracks_expectOptional _).bind fun _ =>
      (Pool.tracks_expectOptional _).bind fun _ => .pure _

theorem BootstrapMethod.tracks_read :
    Tracks .reading distance first mark (BootstrapMethod.read pool) (BootstrapMethod.read pool) :=
  tracks_readIndex.bind fun _ => tracks_readIndices.bind fun _ => .pure _

theorem MethodParameter.tracks_read :
    Tracks .reading distance first mark (MethodParameter.read pool) (MethodParameter.read pool) :=
  tracks_readOptionalIndex.bind fun _ => tracks_u2.bind fun _ => .pure _

/-- Reads all of the code but its attributes, which come last. -/
def CodeOf.readHead (pool : Pool) : Scanner Code := do
  let maxStack ← Reader.u2
  let maxLocals ← Reader.u2
  let length ← Reader.u4
  let start ← Reader.offset
  let code ← Reader.bytes length
  let instructions ← disassemble code start
  (instructions.filterMap (·.constantIndex?)).forM fun index => discard (pool.get index)
  let handlers ← times (← Reader.u2) (ExceptionHandler.read pool)
  return { maxStack, maxLocals, code, handlers, attributes := [], instructions }

theorem CodeOf.read_eq (pool : Pool) (nested : Scanner Attribute) :
    CodeOf.read pool nested = do
      let head ← CodeOf.readHead pool
      let attributes ← times (← Reader.u2) nested
      return { head with attributes } := by
  simp only [CodeOf.read, CodeOf.readHead, bind_assoc, pure_bind]

theorem CodeOf.tracks_readHead :
    Tracks .reading distance first mark (CodeOf.readHead pool) (CodeOf.readHead pool) := by
  unfold CodeOf.readHead
  apply tracks_u2.scan.bind
  intro maxStack
  apply tracks_u2.scan.bind
  intro maxLocals
  apply tracks_u4.scan.bind
  intro length
  apply Tracks.offset_bind_scan
  intro start after
  apply Tracks.takes_bind (Reader.takes_bytes length)
  intro here code past size
  -- The code has been passed, and with it all that its faults can be placed at.
  have decodes : Tracks .reading distance first (here + length)
      (liftM (disassemble code start) : Reader (List Instruction))
      (liftM (disassemble code (start + distance))) :=
    .lift (disassemble_moved distance code start) fun fails =>
      (obeys_of_disassemble fails).wider after (by omega)
  apply decodes.scan.bind
  intro instructions
  apply Tracks.bind
  · exact .forM _ fun index => (Tracks.lookup (pool.placeless_get index)).scan.discard
  intro _
  apply tracks_u2.scan.bind
  intro count
  exact (ExceptionHandler.tracks_read.scan.times count).bind fun _ => .pure _

variable {nested : Scanner Attribute} {budget : Nat}

/-- What is nested in an attribute is nested in its code. -/
theorem Body.tracks_plain {known : AttributeName} (plain : known ≠ .code) :
    Tracks .reading distance first mark (Body.read pool nested budget known)
      (Body.read pool nested budget known) := by
  cases known with
  | code => exact absurd rfl plain
  | constantValue | nestHost => exact Tracks.scan (tracks_readIndex.bind fun _ => .pure _)
  | exceptions | nestMembers => exact Tracks.scan (tracks_readIndices.bind fun _ => .pure _)
  | sourceFile | signature => exact Tracks.scan (tracks_readText.bind fun _ => .pure _)
  | lineNumberTable => exact (tracks_u2.counted LineNumber.tracks_read).scan
  | localVariableTable | localVariableTypeTable =>
    exact (tracks_u2.counted LocalVariable.tracks_read).scan
  | innerClasses => exact (tracks_u2.counted InnerClass.tracks_read).scan
  | enclosingMethod =>
    exact Tracks.scan (tracks_readIndex.bind fun _ =>
      tracks_readOptionalIndex.bind fun _ => .pure _)
  | bootstrapMethods => exact (tracks_u2.counted BootstrapMethod.tracks_read).scan
  | methodParameters => exact (tracks_u1.counted MethodParameter.tracks_read).scan
  | visibleAnnotations | invisibleAnnotations =>
    exact (tracks_u2.counted (AnnotationOf.tracks_read (ElementValue.tracks_read pool budget))).scan
  | deprecated | synthetic => exact .pure _

section
variable (leads : ∀ {mark}, Tracks .strict distance first mark nested nested)
include leads

theorem Body.tracks_read (known : AttributeName) :
    Tracks .lenient distance first mark (Body.read pool nested budget known)
      (Body.read pool nested budget known) := by
  by_cases plain : known ≠ .code
  · exact (Body.tracks_plain plain).toLenient
  · obtain rfl := not_not.mp plain
    unfold Body.read
    rw [CodeOf.read_eq]
    apply Tracks.bind
    · apply CodeOf.tracks_readHead.toLenient.bind
      intro head
      apply tracks_u2.scan.bind
      intro count
      exact (leads.toLenient.times count).bind fun _ => .pure _
    · exact fun code => .pure _

theorem Attribute.tracks_readWith :
    Tracks .strict distance first mark (Attribute.readWith pool nested budget)
      (Attribute.readWith pool nested budget) := by
  unfold Attribute.readWith
  apply Tracks.offset_bind_scan
  intro offset after
  apply tracks_u2.scan.bind
  intro nameIndex
  apply (Tracks.located after (Int.le_refl _) (pool.tracks_utf8 nameIndex).scan).bind
  intro name
  apply tracks_u4.scan.bind
  intro length
  apply Tracks.takes_bind (Reader.takes_window length)
  intro start info past size
  have begins : (Cursor.ofBytes info start).offset = start := Int.add_zero start
  have ends := Cursor.stop_ofBytes info start
  cases AttributeName.ofText? name with
  | none => exact (Tracks.note _).bind fun _ => .pure _
  | some known =>
    -- The window of the attribute has been passed, so its faults are behind the mark.
    apply Tracks.within_bind (by omega) (by omega)
    · exact Tracks.located after (by omega) (Body.tracks_read leads known)
    intro value last afterLast beforeLast
    apply Tracks.ite
    · rw [Cursor.offset_moved]
      exact .fault trivial afterLast beforeLast
    · exact .pure _

end

theorem Attribute.tracks_readWithin (budget : Nat) :
    Tracks .strict distance first mark (Attribute.readWithin pool budget)
      (Attribute.readWithin pool budget) := by
  induction budget using Nat.strong_induction_on generalizing mark with
  | _ budget ih =>
    unfold Attribute.readWithin
    split
    · exact Attribute.tracks_readWith (ih _ (by omega))
    · exact Attribute.tracks_readWith .tooDeep

theorem Attribute.tracks_readMany :
    Tracks .strict distance first mark (Attribute.readMany pool) (Attribute.readMany pool) :=
  tracks_u2.scan.bind fun count => (Attribute.tracks_readWithin Attribute.nestingBudget).times count

end

end

/-- The base of the bytes shows in the offsets of faults alone: whatever reads bytes gives at
another base what it gave, or fails there with the fault that it failed with, moved from base to
base. -/
theorem base_shows_in_fault_offsets_alone (bytes : List UInt8) (base other : Int) (pool : Pool)
    (notes : List Note) :
    disassemble bytes other = (disassemble bytes base).mapError (.moved (other - base)) ∧
    Pool.read (.ofBytes bytes other) =
      moveOutcome (other - base) (Pool.read (.ofBytes bytes base)) ∧
    Attribute.read pool ⟨.ofBytes bytes other, notes⟩ =
      moveOutcome (other - base) (Attribute.read pool ⟨.ofBytes bytes base, notes⟩) ∧
    Attribute.readMany pool ⟨.ofBytes bytes other, notes⟩ =
      moveOutcome (other - base) (Attribute.readMany pool ⟨.ofBytes bytes base, notes⟩) := by
  have start : base ≤ (Cursor.ofBytes bytes base).offset := by simp [Cursor.offset, Cursor.ofBytes]
  have there : Cursor.ofBytes bytes other = (Cursor.ofBytes bytes base).moved (other - base) := by
    simp [Cursor.ofBytes, Cursor.moved]
  rw [there]
  refine ⟨?_, ?_, ?_, ?_⟩
  · rw [← disassemble_moved, add_sub_cancel]
  · exact (Pool.tracks_read (.ofBytes bytes base) (Int.le_refl _) start).same
  · exact (Attribute.tracks_readWithin _ ⟨.ofBytes bytes base, notes⟩ (Int.le_refl _) start).same
  · exact (Attribute.tracks_readMany ⟨.ofBytes bytes base, notes⟩ (Int.le_refl _) start).same

end JavaClass
