import JavaClass.Proofs.Displacement

/-!
Where code breaks off. A reader rejects bytes for how they begin, or runs out of them. The rules
below go along the structure of readers, as those of formats do, and give the beginnings that a
reader rejects and the kind of fault that it rejects them with. Decoding code stops at the first
position where no instruction can be read, and what stands there tells the kind of its fault.
-/

namespace JavaClass

open Format

/-- The bytes begin as a language says. -/
def Starts (language : Language UInt8) (bytes : List UInt8) : Prop :=
  ∃ used ∈ language, used <+: bytes

section
variable {language other : Language UInt8} {bytes used : List UInt8} {c d : Cursor}

theorem not_starts_zero : ¬Starts 0 bytes := by
  rintro ⟨used, inside, -⟩
  exact Language.notMem_zero used inside

theorem starts_add :
    Starts (language + other) bytes ↔ Starts language bytes ∨ Starts other bytes := by
  simp only [Starts, Language.mem_add, or_and_right, exists_or]

theorem starts_require {condition : Prop} : Starts (require condition) bytes ↔ condition := by
  simp [Starts]

/-- What comes after the bytes that a cursor passes over begins a part of the whole. -/
theorem Starts.after (starts : Starts other d.rest) (inside : used ∈ language)
    (passes : c.Passes used d) : Starts (language * other) c.rest := by
  obtain ⟨back, inOther, begins⟩ := starts
  refine ⟨used ++ back, Language.append_mem_mul inside inOther, ?_⟩
  rw [passes.rest]
  exact (List.prefix_append_right_inj used).mpr begins

theorem exists_passes_of_starts (starts : Starts (language * other) c.rest) :
    ∃ used ∈ language, ∃ d, c.Passes used d ∧ Starts other d.rest := by
  obtain ⟨whole, inside, later, split⟩ := starts
  obtain ⟨front, inFront, back, inBack, rfl⟩ := Language.mem_mul.mp inside
  rw [List.append_assoc] at split
  exact ⟨front, inFront, ⟨c.base, c.pos + front.length, back ++ later⟩, ⟨rfl, rfl, split.symm⟩,
    back, inBack, List.prefix_append back later⟩

end

/-- Whatever the reader fails with has a place. It fails with a kind of fault where the bytes begin
as the rejections of that kind do, and there alone unless bytes run out. -/
structure Rejects {α : Type} (reader : Reader α) (rejection : FaultKind → Language UInt8) :
    Prop where
  placed : ∀ {c : Cursor} {failure : Failure} {d : Cursor}, reader c = .error failure d →
    ∃ cause offset, failure = .atOffset cause offset ∧
      (cause.kind = .truncatedData ∨ Starts (rejection cause.kind) c.rest)
  rejected : ∀ {c : Cursor} {kind : FaultKind}, Starts (rejection kind) c.rest →
    ∃ cause offset d, reader c = .error (.atOffset cause offset) d ∧ cause.kind = kind

namespace Rejects

variable {α β : Type} {reader : Reader α} {next : α → Reader β} {format : Format α}
  {rejection : FaultKind → Language UInt8} {nextRejection : α → FaultKind → Language UInt8}

theorem congr {other : FaultKind → Language UInt8} (rejects : Rejects reader rejection)
    (same : ∀ kind bytes, bytes ∈ rejection kind ↔ bytes ∈ other kind) : Rejects reader other := by
  rwa [← funext fun kind => Language.ext (same kind)]

protected theorem pure (a : α) : Rejects (pure a : Reader α) 0 where
  placed fails := by cases fails
  rejected starts := (not_starts_zero starts).elim

protected theorem fault (cause : Cause) (offset : Int) :
    Rejects (throw (.atOffset cause offset) : Reader α)
      (fun kind => require (kind = cause.kind)) where
  placed fails := by
    cases fails
    exact ⟨cause, offset, rfl, .inr (starts_require.mpr rfl)⟩
  rejected starts := ⟨cause, offset, _, rfl, (starts_require.mp starts).symm⟩

theorem takes {n : Int} {make : Int → List UInt8 → α} (takes : reader.Takes n make) :
    Rejects reader 0 where
  placed {c _ _} fails := by
    by_cases lacks : c.Lacks n
    · rw [takes.short c lacks] at fails
      cases fails
      exact ⟨_, _, rfl, .inl rfl⟩
    · rw [takes.enough c lacks] at fails
      cases fails
  rejected starts := (not_starts_zero starts).elim

/-- A rejection of what comes later begins with the bytes that were read first. -/
protected theorem bind (rejects : Rejects reader rejection) (follows : Follows reader format)
    (others : ∀ a, Rejects (next a) (nextRejection a)) :
    Rejects (reader >>= next)
      (fun kind => rejection kind + ⨆ a, format a * nextRejection a kind) where
  placed {c failure d} fails := by
    obtain first | ⟨a, m, reads, later⟩ := bind_error_iff.mp fails
    · obtain ⟨cause, offset, same, reason⟩ := rejects.placed first
      exact ⟨cause, offset, same, reason.imp_right fun starts => starts_add.mpr (.inl starts)⟩
    · obtain ⟨cause, offset, same, reason⟩ := (others a).placed later
      refine ⟨cause, offset, same, reason.imp_right fun starts => starts_add.mpr (.inr ?_)⟩
      obtain ⟨used, inside, passes⟩ := follows.ok_iff.mp reads
      obtain ⟨whole, inWhole, begins⟩ := starts.after inside passes
      exact ⟨whole, Language.mem_iSup.mpr ⟨a, inWhole⟩, begins⟩
  rejected {c kind} starts := by
    obtain starts | ⟨whole, inside, begins⟩ := starts_add.mp starts
    · obtain ⟨cause, offset, d, fails, same⟩ := rejects.rejected starts
      exact ⟨cause, offset, d, bind_eq_of_error fails, same⟩
    · obtain ⟨a, inWhole⟩ := Language.mem_iSup.mp inside
      obtain ⟨used, inFormat, m, passes, later⟩ := exists_passes_of_starts ⟨whole, inWhole, begins⟩
      obtain ⟨cause, offset, d, fails, same⟩ := (others a).rejected later
      have reads : reader c = .ok a m := follows.ok_iff.mpr ⟨used, inFormat, passes⟩
      exact ⟨cause, offset, d, by rw [bind_eq_of_ok reads, fails], same⟩

/-- A reader that can only run out of bytes rejects nothing itself. -/
theorem bind_of_zero (rejects : Rejects reader 0) (follows : Follows reader format)
    (others : ∀ a, Rejects (next a) (nextRejection a)) :
    Rejects (reader >>= next) (fun kind => ⨆ a, format a * nextRejection a kind) :=
  (rejects.bind follows others).congr fun kind bytes => by simp

/-- What can only run out of bytes adds no rejection. -/
theorem bind_zero (rejects : Rejects reader rejection) (others : ∀ a, Rejects (next a) 0) :
    Rejects (reader >>= next) rejection where
  placed fails := by
    obtain first | ⟨a, m, -, later⟩ := bind_error_iff.mp fails
    · exact rejects.placed first
    · obtain ⟨cause, offset, same, reason⟩ := (others a).placed later
      exact ⟨cause, offset, same, .inl (reason.resolve_right not_starts_zero)⟩
  rejected starts := by
    obtain ⟨cause, offset, d, fails, same⟩ := rejects.rejected starts
    exact ⟨cause, offset, d, bind_eq_of_error fails, same⟩

protected theorem times (n : Nat) (rejects : Rejects reader 0) : Rejects (times n reader) 0 := by
  induction n with
  | zero => exact .pure []
  | succ n ih => exact rejects.bind_zero fun first => ih.bind_zero fun others => .pure _

theorem offset_bind {next : Int → Reader β} (others : ∀ offset, Rejects (next offset) rejection) :
    Rejects (Reader.offset >>= next) rejection where
  placed {c _ _} fails := (others c.offset).placed fails
  rejected {c _} starts := (others c.offset).rejected starts

protected theorem ite {condition : Prop} [Decidable condition] {other : Reader α}
    {otherRejection : FaultKind → Language UInt8} (rejects : Rejects reader rejection)
    (otherwise : Rejects other otherRejection) :
    Rejects (if condition then reader else other)
      (fun kind =>
        require condition * rejection kind + require (¬condition) * otherRejection kind) := by
  by_cases holds : condition
  · rw [if_pos holds]
    exact rejects.congr fun kind bytes => by simp [holds, Language.mem_add]
  · rw [if_neg holds]
    exact otherwise.congr fun kind bytes => by simp [holds, Language.mem_add]

end Rejects

namespace Reader

theorem rejects_bytes (n : Nat) : Rejects (bytes n) 0 := .takes (takes_bytes n)

theorem rejects_u1 : Rejects u1 0 := (rejects_bytes 1).bind_zero fun _ => .pure _

theorem rejects_u2 : Rejects u2 0 := (rejects_bytes 2).bind_zero fun _ => .pure _

theorem rejects_i1 : Rejects i1 0 := rejects_u1.bind_zero fun _ => .pure _

theorem rejects_i2 : Rejects i2 0 := rejects_u2.bind_zero fun _ => .pure _

theorem rejects_i4 : Rejects i4 0 :=
  ((rejects_bytes 4).bind_zero fun _ => .pure _).bind_zero fun _ => .pure _

theorem rejects_skip (n : Int) : Rejects (skip n) 0 :=
  (Rejects.takes (takes_bytesOf n)).bind_zero fun _ => .pure ()

end Reader

namespace Instruction

open Reader (rejects_u1 rejects_u2 rejects_i1 rejects_i2 rejects_i4 rejects_skip)

/-- A byte that is no opcode. -/
def noOpcode : Language UInt8 :=
  ⨆ opcode, require (Opcode.mnemonic? opcode = none) * unsigned 1 opcode

/-- An opcode that cannot be widened. -/
def notWidened : Language UInt8 :=
  ⨆ opcode, require ((∃ mnemonic, Opcode.mnemonic? opcode = some mnemonic) ∧
    Opcode.layout opcode ≠ .slot ∧ Opcode.layout opcode ≠ .increment) * unsigned 1 opcode

/-- The header of a table whose keys end before they begin. -/
def emptyTable (pc : Nat) : Language UInt8 :=
  ⨆ fallback, ⨆ low, ⨆ high, require (high < low) *
    (anyBytes ((4 - (pc + 1) % 4) % 4) * signed 4 fallback * signed 4 low * signed 4 high)

/-- The header of a table that announces fewer than no pairs. -/
def negativeCount (pc : Nat) : Language UInt8 :=
  ⨆ fallback, ⨆ count, require (count < 0) *
    (anyBytes ((4 - (pc + 1) % 4) % 4) * signed 4 fallback * signed 4 count)

/-- No opcode at all, or none behind `wide`. -/
def unknownOpcode : Language UInt8 := noOpcode + exactly [0xC4] * noOpcode

/-- An opcode behind `wide` that cannot be widened, or the opcode of a switch with a header that
makes no sense. -/
def malformed (pc : Nat) : Language UInt8 :=
  exactly [0xC4] * notWidened + exactly [0xAA] * emptyTable pc + exactly [0xAB] * negativeCount pc

/-- The beginnings of code at `pc` that are refused, by the kind of fault. -/
def rejection (pc : Nat) : FaultKind → Language UInt8
  | .unknownOpcode => unknownOpcode
  | .malformedData => malformed pc
  | _ => 0

theorem rejects_readTableSwitch (pc : Nat) :
    Rejects (readTableSwitch pc) (fun kind => require (kind = .malformedData) * emptyTable pc) := by
  unfold readTableSwitch
  refine Rejects.congr (.bind_of_zero (rejects_skip _) (Reader.follows_skip _) fun _ =>
    .bind_of_zero rejects_i4 Reader.follows_i4 fun fallback =>
      .bind_of_zero rejects_i4 Reader.follows_i4 fun low =>
        .bind_of_zero rejects_i4 Reader.follows_i4 fun high =>
          .ite (.offset_bind fun offset => .fault _ offset)
            (.bind_zero (.times _ rejects_i4) fun jumps => .pure _)) fun kind bytes => ?_
  simp [emptyTable, padding, mul_assoc, Cause.kind, and_comm]

theorem rejects_readLookupSwitch (pc : Nat) :
    Rejects (readLookupSwitch pc)
      (fun kind => require (kind = .malformedData) * negativeCount pc) := by
  unfold readLookupSwitch
  refine Rejects.congr (.bind_of_zero (rejects_skip _) (Reader.follows_skip _) fun _ =>
    .bind_of_zero rejects_i4 Reader.follows_i4 fun fallback =>
      .bind_of_zero rejects_i4 Reader.follows_i4 fun count =>
        .ite (.offset_bind fun offset => .fault _ offset)
          (.bind_zero
            (.times _ (rejects_i4.bind_zero fun _ => rejects_i4.bind_zero fun _ => .pure _))
            fun pairs => .pure _)) fun kind bytes => ?_
  simp [negativeCount, padding, mul_assoc, Cause.kind, and_comm]

theorem rejects_readOpcode (pc : Nat) :
    Rejects (readOpcode pc) (fun kind => require (kind = .unknownOpcode) * noOpcode) := by
  unfold readOpcode
  refine .offset_bind fun offset => Rejects.congr (.bind_of_zero rejects_u1 Reader.follows_u1
    fun opcode => (?_ : Rejects _ fun kind =>
      require (kind = .unknownOpcode ∧ Opcode.mnemonic? opcode = none))) fun kind bytes => ?_
  · cases Opcode.mnemonic? opcode with
    | some mnemonic => exact (Rejects.pure _).congr fun kind bytes => by simp
    | none => exact (Rejects.fault _ _).congr fun kind bytes => by simp [Cause.kind]
  · simp [noOpcode]

/-- The headers that a switch is refused for. Operands of `wide` itself are refused before they are
looked at. -/
def badHeader (pc : Nat) : Layout → Language UInt8
  | .tableSwitch => emptyTable pc
  | .lookupSwitch => negativeCount pc
  | .wide => 1
  | _ => 0

theorem rejects_readOperands (layout : Layout) (pc : Nat) (wide : Bool) :
    Rejects (readOperands layout pc wide)
      (fun kind => require (kind = .malformedData) * badHeader pc layout) := by
  cases layout
  case tableSwitch => exact (rejects_readTableSwitch pc).bind_zero fun _ => .pure _
  case lookupSwitch => exact (rejects_readLookupSwitch pc).bind_zero fun _ => .pure _
  case wide =>
    refine Rejects.offset_bind fun offset => (Rejects.fault _ offset).congr fun kind bytes => ?_
    simp [badHeader, Cause.kind]
  -- All other operands have a fixed size.
  all_goals
    have none : (fun kind => require (kind = FaultKind.malformedData) * (0 : Language UInt8)) = 0 :=
      funext fun kind => mul_zero _
    simp only [badHeader, none]
  case none => exact .pure _
  case byte => exact rejects_i1.bind_zero fun _ => .pure _
  case short | branch => exact rejects_i2.bind_zero fun _ => .pure _
  case farBranch => exact rejects_i4.bind_zero fun _ => .pure _
  case shortConstant | arrayType => exact rejects_u1.bind_zero fun _ => .pure _
  case constant => exact rejects_u2.bind_zero fun _ => .pure _
  case slot =>
    cases wide
    case false => exact rejects_u1.bind_zero fun _ => .pure _
    case true => exact rejects_u2.bind_zero fun _ => .pure _
  case increment =>
    cases wide
    case false => exact rejects_u1.bind_zero fun _ => rejects_i1.bind_zero fun _ => .pure _
    case true => exact rejects_u2.bind_zero fun _ => rejects_i2.bind_zero fun _ => .pure _
  case interfaceCall =>
    exact rejects_u2.bind_zero fun _ => rejects_u1.bind_zero fun _ =>
      (rejects_skip 1).bind_zero fun _ => .pure _
  case dynamicCall =>
    exact rejects_u2.bind_zero fun _ => (rejects_skip 2).bind_zero fun _ => .pure _
  case arrayDimensions =>
    exact rejects_u2.bind_zero fun _ => rejects_u1.bind_zero fun _ => .pure _

theorem rejects_readOpcodes (pc : Nat) :
    Rejects (readOpcodes pc) (fun kind =>
      require (kind = .unknownOpcode) * unknownOpcode +
        require (kind = .malformedData) * (exactly [0xC4] * notWidened)) := by
  unfold readOpcodes
  refine Rejects.congr (.bind (rejects_readOpcode pc) (follows_readOpcode pc) fun first =>
    .ite (.pure _) (.offset_bind fun offset => .bind (rejects_readOpcode (pc + 1))
      (follows_readOpcode (pc + 1)) fun second => .ite (.fault _ offset) (.pure _)))
        fun kind bytes => ?_
  have marker : unsigned 1 0xC4 = exactly [0xC4] := unsigned_eq_exactly (by decide)
  have named : Opcode.mnemonic? 0xC4 = some "wide" := rfl
  simp [unknownOpcode, notWidened, layout_eq_wide_iff, mul_add, mul_assoc, Language.mem_add,
    Cause.kind]
  constructor
  · rintro (first | ⟨_, _, ⟨⟨-, rfl, unknown⟩, inside⟩ | ⟨second, ⟨-, rfl, plain⟩, inside⟩⟩)
    · exact .inl (.inl first)
    · exact .inl (.inr ⟨unknown, marker ▸ inside⟩)
    · exact .inr ⟨second, by tauto, marker ▸ inside⟩
  · rintro ((first | ⟨unknown, inside⟩) | ⟨second, plain, inside⟩)
    · exact .inl first
    · exact .inr ⟨_, _, .inl ⟨⟨named, rfl, unknown⟩, marker ▸ inside⟩⟩
    · exact .inr ⟨_, _, .inr ⟨second, ⟨named, rfl, by tauto⟩, marker ▸ inside⟩⟩

theorem layout_eq_tableSwitch_iff {opcode : Nat} :
    Opcode.layout opcode = .tableSwitch ↔ opcode = 0xAA := by
  simp only [Opcode.layout, ite_eq_iff, reduceCtorEq, and_false, false_or, or_false, and_true]
  omega

theorem layout_eq_lookupSwitch_iff {opcode : Nat} :
    Opcode.layout opcode = .lookupSwitch ↔ opcode = 0xAB := by
  simp only [Opcode.layout, ite_eq_iff, reduceCtorEq, and_false, false_or, or_false, and_true]
  omega

/-- Two opcodes have a header that may be refused. -/
theorem mem_badHeader_iff {pc : Nat} {opcode : Nat} {bytes : List UInt8}
    (plain : Opcode.layout opcode ≠ .wide) :
    bytes ∈ badHeader pc (Opcode.layout opcode) ↔
      opcode = 0xAA ∧ bytes ∈ emptyTable pc ∨ opcode = 0xAB ∧ bytes ∈ negativeCount pc := by
  rw [← layout_eq_tableSwitch_iff, ← layout_eq_lookupSwitch_iff]
  cases layout : Opcode.layout opcode
  case wide => exact absurd layout plain
  all_goals simp [badHeader, Language.notMem_zero]

/-- A header stands behind its opcode, which is never widened. -/
theorem mem_opcode_mul_badHeader {pc : Nat} {bytes : List UInt8} :
    bytes ∈ (⨆ p : Nat × Bool,
      require (Opcode.layout p.1 ≠ .wide ∧ ∃ mnemonic, Opcode.mnemonic? p.1 = some mnemonic) *
        opcodeEncoding p.1 p.2 * badHeader pc (Opcode.layout p.1)) ↔
      bytes ∈ exactly [0xAA] * emptyTable pc + exactly [0xAB] * negativeCount pc := by
  have table : unsigned 1 0xAA = exactly [0xAA] := unsigned_eq_exactly (by decide)
  have lookup : unsigned 1 0xAB = exactly [0xAB] := unsigned_eq_exactly (by decide)
  rw [Language.mem_add, ← table, ← lookup]
  constructor
  · intro inside
    obtain ⟨⟨opcode, wide⟩, front, inOpcode, back, inHeader, rfl⟩ := Language.mem_iSup.mp inside
    obtain ⟨⟨other, -⟩, inOpcode⟩ := mem_require_mul.mp inOpcode
    have plain : wide = false := by
      by_contra widened
      rw [Bool.not_eq_false] at widened
      subst widened
      obtain ⟨slot | increment, -⟩ := mem_require_mul.mp inOpcode
      · rw [slot] at inHeader
        exact Language.notMem_zero _ inHeader
      · rw [increment] at inHeader
        exact Language.notMem_zero _ inHeader
    subst plain
    obtain ⟨rfl, inTable⟩ | ⟨rfl, inTable⟩ := (mem_badHeader_iff other).mp inHeader
    · exact .inl (Language.append_mem_mul inOpcode inTable)
    · exact .inr (Language.append_mem_mul inOpcode inTable)
  · rintro (inside | inside)
    all_goals obtain ⟨front, inOpcode, back, inTable, rfl⟩ := Language.mem_mul.mp inside
    · exact Language.mem_iSup.mpr ⟨(0xAA, false), Language.append_mem_mul
        (mem_require_mul.mpr ⟨⟨by decide, _, rfl⟩, inOpcode⟩) inTable⟩
    · exact Language.mem_iSup.mpr ⟨(0xAB, false), Language.append_mem_mul
        (mem_require_mul.mpr ⟨⟨by decide, _, rfl⟩, inOpcode⟩) inTable⟩

theorem rejects_readAt (pc : Nat) :
    Rejects (readOpcodes pc >>= fun p =>
      readOperands (Opcode.layout p.1) pc p.2 >>= fun operands =>
        get >>= fun last => pure (Instruction.mk pc p.1 operands (last.pos - pc) p.2))
      (rejection pc) := by
  have done (p : Nat × Bool) (operands : Operands) : Rejects (get >>= fun last : Cursor =>
      pure (Instruction.mk pc p.1 operands (last.pos - pc) p.2)) 0 :=
    { placed fails := by cases fails
      rejected starts := (not_starts_zero starts).elim }
  refine Rejects.congr (.bind (rejects_readOpcodes pc) (follows_readOpcodes pc) fun p =>
    .bind_zero (rejects_readOperands _ _ _) (done p)) fun kind bytes => ?_
  have headers : bytes ∈ (⨆ p : Nat × Bool,
      require (Opcode.layout p.1 ≠ .wide ∧ ∃ mnemonic, Opcode.mnemonic? p.1 = some mnemonic) *
        opcodeEncoding p.1 p.2 *
          (require (kind = .malformedData) * badHeader pc (Opcode.layout p.1))) ↔
      kind = .malformedData ∧
        bytes ∈ exactly [0xAA] * emptyTable pc + exactly [0xAB] * negativeCount pc := by
    rw [← mem_opcode_mul_badHeader]
    simp only [mul_require_mul, Language.mem_iSup, mem_require_mul, exists_and_left]
  rw [Language.mem_add, headers]
  cases kind <;> simp [rejection, malformed, Language.mem_add, or_assoc]

/-- What stops the reading of an instruction is placed in the rest of the code, and its kind is
told by the bytes unless they run out. -/
theorem exists_of_read_error {c d : Cursor} {failure : Failure}
    (fails : read c = .error failure d) :
    ∃ cause offset, failure = .atOffset cause offset ∧ c.offset ≤ offset ∧ offset ≤ c.stop ∧
      (cause.kind = .truncatedData ∨ Starts (rejection c.pos cause.kind) c.rest) ∧
      ∀ kind, Starts (rejection c.pos kind) c.rest → cause.kind = kind := by
  have rejects := rejects_readAt c.pos
  obtain ⟨cause, offset, rfl, reason⟩ := rejects.placed fails
  have tracks : Tracks .reading 0 c.offset c.offset read read := tracks_read
  obtain ⟨-, after, before⟩ := (tracks c (Int.le_refl _) (Int.le_refl _)).places fails
  refine ⟨cause, offset, rfl, after, before, reason, fun kind starts => ?_⟩
  obtain ⟨other, place, e, failsToo, same⟩ := rejects.rejected starts
  have agree := fails.symm.trans failsToo
  cases agree
  exact same

theorem stop_eq_of_passes {i : Instruction} {c d : Cursor} {used : List UInt8}
    (offset : i.offset = c.pos) (inside : used ∈ i.encoding) (passes : c.Passes used d) :
    i.stop = d.pos := by
  rw [stop, offset, inside.2.1, passes.pos]

end Instruction

/-- Instructions of one byte or more that cover the code from one position up to another, without a
gap or an overlap. -/
def Tiles : List Instruction → Nat → Nat → Prop
  | [], start, stop => start = stop
  | i :: others, start, stop => i.offset = start ∧ 1 ≤ i.length ∧ Tiles others i.stop stop

/-- Code cannot be read on from `p`, and a fault says why. -/
structure Breaks (code : List UInt8) (base : Int) (p : Nat) (cause : Cause) (offset : Int) :
    Prop where
  after : base + p ≤ offset
  before : offset ≤ base + code.length
  unreadable : ∀ i : Instruction, i.offset = p → ¬Starts i.encoding (code.drop p)
  unknown : cause.kind = .unknownOpcode ↔ Starts Instruction.unknownOpcode (code.drop p)
  malformed : cause.kind = .malformedData ↔ Starts (Instruction.malformed p) (code.drop p)
  truncated : cause.kind = .truncatedData ↔
    ¬Starts Instruction.unknownOpcode (code.drop p) ∧
      ¬Starts (Instruction.malformed p) (code.drop p)

namespace Disassembly

/-- The instructions cover the code up to `p`, which is its end unless it breaks there. -/
structure Stops (all : Disassembly) (code : List UInt8) (base : Int) (p : Nat) : Prop where
  tiles : Tiles all.instructions 0 p
  encoded : code.take p ∈ codeEncoding 0 all.instructions
  inside : p ≤ code.length
  complete : p = code.length ↔ all.failure = none
  broken : ∀ failure ∈ all.failure, ∃ cause offset, failure = .atOffset cause offset ∧
    Breaks code base p cause offset

section
variable {count : Nat} {c d : Cursor} {i : Instruction} {failure : Failure}

theorem decode_of_empty (empty : c.rest = []) : decode count c = ⟨[], none⟩ := by
  cases count with
  | zero => rfl
  | succ count => simp [decode, Cursor.atEnd, empty]

theorem decode_of_ok (reads : Instruction.read c = .ok i d) :
    decode (count + 1) c = ⟨i :: (decode count d).instructions, (decode count d).failure⟩ := by
  obtain ⟨-, used, inside, passes⟩ := Instruction.read_ok_iff.mp reads
  have more : c.atEnd = false := by
    simp [Cursor.atEnd, passes.rest, Instruction.ne_nil_of_mem_encoding inside]
  simp [decode, more, reads]

theorem decode_of_error (more : c.rest ≠ []) (fails : Instruction.read c = .error failure d) :
    decode (count + 1) c = ⟨[], some failure⟩ := by
  have more : c.atEnd = false := by simpa [Cursor.atEnd] using more
  simp [decode, more, fails]

/-- Each instruction takes a byte or more. -/
theorem length_rest_lt (reads : Instruction.read c = .ok i d) : d.rest.length < c.rest.length := by
  obtain ⟨-, used, inside, passes⟩ := Instruction.read_ok_iff.mp reads
  have taken := List.length_pos_of_ne_nil (Instruction.ne_nil_of_mem_encoding inside)
  rw [passes.rest, List.length_append]
  omega

end

/-- How far the instructions reach from `c`: to the end of the code, or to `d` where none can be
read. -/
structure Reaches (all : Disassembly) (c d : Cursor) : Prop where
  passes : ∃ used ∈ codeEncoding c.pos all.instructions, c.Passes used d
  ended : all.failure = none → d.rest = []
  stuck : ∀ failure ∈ all.failure, d.rest ≠ [] ∧ ∃ e, Instruction.read d = .error failure e

theorem reaches_of_empty {count : Nat} {c : Cursor} (empty : c.rest = []) :
    (decode count c).Reaches c c := by
  rw [decode_of_empty empty]
  exact ⟨⟨[], rfl, Cursor.passes_nil.mpr rfl⟩, fun _ => empty, by rintro _ ⟨⟩⟩

theorem exists_reaches {count : Nat} {c : Cursor} (enough : c.rest.length ≤ count) :
    ∃ d, (decode count c).Reaches c d := by
  induction count generalizing c with
  | zero =>
    have empty : c.rest = [] := List.eq_nil_of_length_eq_zero (by omega)
    exact ⟨c, reaches_of_empty empty⟩
  | succ count ih =>
    by_cases empty : c.rest = []
    · exact ⟨c, reaches_of_empty empty⟩
    cases step : Instruction.read c with
    | error failure e =>
      rw [decode_of_error empty step]
      refine ⟨c, ⟨[], rfl, Cursor.passes_nil.mpr rfl⟩, by rintro ⟨⟩, ?_⟩
      rintro _ ⟨⟩
      exact ⟨empty, e, step⟩
    | ok i m =>
      have shorter := length_rest_lt step
      obtain ⟨d, ⟨later, inLater, passesLater⟩, ended, stuck⟩ := ih (c := m) (by omega)
      obtain ⟨offset, used, inside, passes⟩ := Instruction.read_ok_iff.mp step
      have both : c.Passes (used ++ later) d :=
        Cursor.passes_append.mpr ⟨m, passes, passesLater⟩
      rw [decode_of_ok step]
      refine ⟨d, ⟨used ++ later, ?_, both⟩, ended, stuck⟩
      rw [codeEncoding, mem_require_mul, Instruction.stop_eq_of_passes offset inside passes]
      exact ⟨offset, Language.append_mem_mul inside inLater⟩

end Disassembly

theorem tiles_of_mem_codeEncoding {instructions : List Instruction} {start : Nat}
    {bytes : List UInt8} (inside : bytes ∈ codeEncoding start instructions) :
    Tiles instructions start (start + bytes.length) := by
  induction instructions generalizing start bytes with
  | nil =>
    obtain rfl := (Language.mem_one bytes).mp inside
    rfl
  | cons i others ih =>
    obtain ⟨offset, inBoth⟩ := mem_require_mul.mp inside
    obtain ⟨front, inFirst, back, inOthers, rfl⟩ := Language.mem_mul.mp inBoth
    have length : i.length = front.length := inFirst.2.1
    have positive := List.length_pos_of_ne_nil (Instruction.ne_nil_of_mem_encoding inFirst)
    have stop : i.stop + back.length = start + (front ++ back).length := by
      rw [Instruction.stop, offset, length, List.length_append]
      omega
    exact ⟨offset, by omega, stop ▸ ih inOthers⟩

/-- A cursor that has passed over the first bytes of code. -/
theorem Cursor.Passes.eq_drop {code used : List UInt8} {base : Int} {d : Cursor}
    (passes : (ofBytes code base).Passes used d) :
    d = ⟨base, used.length, code.drop used.length⟩ ∧ code.take used.length = used ∧
      used.length ≤ code.length := by
  obtain ⟨here, pos, rest⟩ := d
  obtain ⟨rfl, place, whole⟩ := passes
  simp only [ofBytes, Nat.zero_add] at place whole
  subst place whole
  simp

/-- Where no instruction can be read, code breaks. -/
theorem breaks_of_read_error {code : List UInt8} {base : Int} {p : Nat} {failure : Failure}
    {d : Cursor} (inside : p ≤ code.length)
    (fails : Instruction.read ⟨base, p, code.drop p⟩ = .error failure d) :
    ∃ cause offset, failure = .atOffset cause offset ∧ Breaks code base p cause offset := by
  obtain ⟨cause, offset, same, after, before, reason, told⟩ :=
    Instruction.exists_of_read_error fails
  have stop : (Cursor.mk base p (code.drop p)).stop = base + code.length := by
    simp only [Cursor.stop, Cursor.offset, Cursor.remaining, List.length_drop]
    omega
  have unknown : cause.kind = .unknownOpcode ↔
      Starts Instruction.unknownOpcode (code.drop p) := by
    constructor
    · intro kind
      simpa [kind, Instruction.rejection] using reason
    · exact told .unknownOpcode
  have malformed : cause.kind = .malformedData ↔
      Starts (Instruction.malformed p) (code.drop p) := by
    constructor
    · intro kind
      simpa [kind, Instruction.rejection] using reason
    · exact told .malformedData
  refine ⟨cause, offset, same, after, stop ▸ before, ?_, unknown, malformed, ?_⟩
  · rintro i place ⟨used, inEncoding, later, split⟩
    have reads := Instruction.read_ok_iff.mpr ⟨place, used, inEncoding,
      (⟨rfl, rfl, split.symm⟩ : (Cursor.mk base p (code.drop p)).Passes used
        ⟨base, p + used.length, later⟩)⟩
    rw [fails] at reads
    cases reads
  · rw [← unknown, ← malformed]
    constructor
    · intro kind
      simp [kind]
    · rintro ⟨notUnknown, notMalformed⟩
      obtain truncated | starts := reason
      · exact truncated
      · -- Nothing but these two kinds is told by the bytes.
        cases kind : cause.kind
        case unknownOpcode => exact absurd kind notUnknown
        case malformedData => exact absurd kind notMalformed
        case truncatedData => rfl
        all_goals
          rw [kind] at starts
          exact (not_starts_zero starts).elim

/-- Decoding stops where code breaks: the instructions cover all of the code before that position,
no instruction can be read there, and what stands there decides the kind of the fault. -/
theorem decoding_stops_where_code_breaks (code : List UInt8) (base : Int) :
    ∃ p, (Disassembly.ofCode code base).Stops code base p := by
  obtain ⟨d, ⟨used, inside, passes⟩, ended, stuck⟩ :
      ∃ d, (Disassembly.ofCode code base).Reaches (.ofBytes code base) d :=
    Disassembly.exists_reaches (Nat.le_refl (Cursor.ofBytes code base).rest.length)
  obtain ⟨rfl, taken, short⟩ := passes.eq_drop
  have tiles := tiles_of_mem_codeEncoding inside
  rw [Cursor.ofBytes, Nat.zero_add] at tiles
  refine ⟨used.length, tiles, ?_, short, ?_, ?_⟩
  · rw [taken]
    exact inside
  · constructor
    · intro full
      by_contra failed
      obtain ⟨failure, found⟩ := Option.ne_none_iff_exists'.mp failed
      exact (stuck failure found).1 (by simp [full])
    · intro whole
      have longer := List.drop_eq_nil_iff.mp (ended whole)
      omega
  · intro failure found
    obtain ⟨-, e, fails⟩ := stuck failure found
    exact breaks_of_read_error short fails

end JavaClass
