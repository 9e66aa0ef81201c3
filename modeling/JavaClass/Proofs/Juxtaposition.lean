import JavaClass.Proofs.Breaks

/-!
Code behind other code. An instruction depends on its position in the code only through the padding
of switches, so behind a multiple of four bytes it is decoded as it would be at the start: the same
instruction or the same fault, further on.
-/

namespace JavaClass

open Format

/-- The code position that a cause names. -/
def Cause.position? : Cause → Option Nat
  | .badOpcode _ pc | .badTableBounds pc _ _ | .badPairCount pc _ | .notWidened _ pc
  | .unexpectedLayout _ pc => some pc
  | _ => none

/-- The same cause `n` bytes further on in the code. -/
def Cause.shifted (n : Nat) : Cause → Cause
  | .badOpcode opcode pc => .badOpcode opcode (pc + n)
  | .badTableBounds pc high low => .badTableBounds (pc + n) high low
  | .badPairCount pc count => .badPairCount (pc + n) count
  | .notWidened mnemonic pc => .notWidened mnemonic (pc + n)
  | .unexpectedLayout name pc => .unexpectedLayout name (pc + n)
  | cause => cause

theorem Cause.kind_shifted (n : Nat) (cause : Cause) : (cause.shifted n).kind = cause.kind := by
  cases cause <;> rfl

theorem Cause.position?_shifted (n : Nat) (cause : Cause) :
    (cause.shifted n).position? = cause.position?.map (· + n) := by
  cases cause <;> rfl

/-- The same fault at an offset and a code position that are `n` more. -/
def Failure.shifted (n : Nat) : Failure → Failure
  | .fault cause offset => .fault (cause.shifted n) (offset.map (· + (n : Int)))
  | failure => failure

/-- The same bytes further on in the code. -/
def Cursor.shifted (n : Nat) (c : Cursor) : Cursor := { c with pos := c.pos + n }

theorem Cursor.offset_shifted (n : Nat) (c : Cursor) : (c.shifted n).offset = c.offset + n := by
  simp only [shifted, offset]
  omega

def Instruction.shifted (n : Nat) (i : Instruction) : Instruction :=
  { i with offset := i.offset + n }

/-- Jumps are relative, so their targets move along. -/
theorem Instruction.targets_shifted (n : Nat) (i : Instruction) :
    (i.shifted n).targets = i.targets.map (· + (n : Int)) := by
  have moves (distance : Int) :
      ((i.offset + n : Nat) : Int) + distance = i.offset + distance + n := by omega
  have movesAll (distances : List Int) : distances.map (((i.offset + n : Nat) : Int) + ·) =
      (distances.map ((i.offset : Int) + ·)).map (· + (n : Int)) := by
    simp only [List.map_map, Function.comp_def, moves]
  obtain ⟨offset, opcode, operands, length, wide⟩ := i
  cases operands with
  | jump distance => exact congrArg (· :: []) (moves distance)
  | tableSwitch table => exact movesAll _
  | lookupSwitch table => exact movesAll _
  | _ => rfl

/-- The same outcome further on, with what becomes of its value there. -/
def shiftOutcome {α β : Type} (n : Nat) (f : α → β) :
    EStateM.Result Failure Cursor α → EStateM.Result Failure Cursor β
  | .ok a c => .ok (f a) (c.shifted n)
  | .error failure c => .error (failure.shifted n) (c.shifted n)

/-- The other reader does `n` bytes further on what the first one does. -/
def Shifts {α β : Type} (n : Nat) (f : α → β) (reader : Reader α) (other : Reader β) : Prop :=
  ∀ c, other (c.shifted n) = shiftOutcome n f (reader c)

namespace Shifts

variable {α β γ δ : Type} {n : Nat} {f : α → β} {g : γ → δ} {reader : Reader α} {other : Reader β}

protected theorem pure (a : α) : Shifts n f (pure a) (pure (f a)) := fun _ => rfl

protected theorem fault (cause : Cause) (offset : Int) :
    Shifts n f (throw (.atOffset cause offset))
      (throw (.atOffset (cause.shifted n) (offset + n))) := fun _ => rfl

protected theorem bind {next : α → Reader γ} {otherNext : β → Reader δ}
    (first : Shifts n f reader other) (others : ∀ a, Shifts n g (next a) (otherNext (f a))) :
    Shifts n g (reader >>= next) (other >>= otherNext) := by
  intro c
  have outcome := first c
  cases run : reader c with
  | ok a d =>
    rw [run] at outcome
    rw [bind_eq_of_ok run, bind_eq_of_ok outcome]
    exact others a d
  | error failure d =>
    rw [run] at outcome
    rw [bind_eq_of_error run, bind_eq_of_error outcome]
    rfl

protected theorem ite {condition : Prop} [Decidable condition] {reader' : Reader α}
    {other' : Reader β} (first : Shifts n f reader other) (otherwise : Shifts n f reader' other') :
    Shifts n f (if condition then reader else reader') (if condition then other else other') := by
  split
  · exact first
  · exact otherwise

theorem offset_bind {next : Int → Reader α} {otherNext : Int → Reader β}
    (others : ∀ offset, Shifts n f (next offset) (otherNext (offset + n))) :
    Shifts n f (Reader.offset >>= next) (Reader.offset >>= otherNext) := by
  intro c
  have outcome := others c.offset c
  rw [← Cursor.offset_shifted] at outcome
  exact outcome

protected theorem takes {size : Int} {make : List UInt8 → α}
    (takes : reader.Takes size fun _ => make) : Shifts n id reader reader := by
  intro c
  by_cases lacks : c.Lacks size
  · rw [takes.short c lacks, takes.short (c.shifted n) lacks, Cursor.offset_shifted]
    rfl
  · rw [takes.enough c lacks, takes.enough (c.shifted n) lacks]
    simp [shiftOutcome, Cursor.shifted, Cursor.advance]
    omega

protected theorem times (count : Nat) {reader other : Reader α}
    (shifts : Shifts n id reader other) :
    Shifts n id (times count reader) (times count other) := by
  induction count with
  | zero => exact .pure []
  | succ count ih => exact shifts.bind fun first => ih.bind fun others => .pure _

end Shifts

section
variable {n : Nat}

namespace Reader

theorem shifts_bytes (count : Nat) : Shifts n id (bytes count) (bytes count) :=
  .takes (takes_bytes count)

theorem shifts_u1 : Shifts n id u1 u1 := (shifts_bytes 1).bind fun _ => .pure _

theorem shifts_u2 : Shifts n id u2 u2 := (shifts_bytes 2).bind fun _ => .pure _

theorem shifts_i1 : Shifts n id i1 i1 := shifts_u1.bind fun _ => .pure _

theorem shifts_i2 : Shifts n id i2 i2 := shifts_u2.bind fun _ => .pure _

theorem shifts_i4 : Shifts n id i4 i4 :=
  Shifts.bind (f := id) ((shifts_bytes 4).bind fun _ => .pure _) fun _ => .pure _

theorem shifts_skip (size : Int) : Shifts n id (skip size) (skip size) :=
  Shifts.bind (.takes (takes_bytesOf size)) fun _ => .pure ()

end Reader

namespace Instruction

open Reader (shifts_u1 shifts_u2 shifts_i1 shifts_i2 shifts_i4 shifts_skip)

theorem shifts_readOpcode (pc : Nat) : Shifts n id (readOpcode pc) (readOpcode (pc + n)) := by
  unfold readOpcode
  apply Shifts.offset_bind
  intro offset
  apply shifts_u1.bind
  intro opcode
  rw [id_eq]
  cases Opcode.mnemonic? opcode with
  | some mnemonic => exact .pure _
  | none => exact .fault (.badOpcode opcode pc) offset

theorem shifts_readOpcodes (pc : Nat) : Shifts n id (readOpcodes pc) (readOpcodes (pc + n)) := by
  unfold readOpcodes
  apply (shifts_readOpcode pc).bind
  intro first
  apply Shifts.ite
  · exact .pure _
  · apply Shifts.offset_bind
    intro offset
    rw [Nat.add_right_comm pc n 1]
    apply (shifts_readOpcode (pc + 1)).bind
    intro second
    apply Shifts.ite
    · exact .fault (.notWidened second.2 pc) offset
    · exact .pure _

section
variable (aligned : 4 ∣ n)
include aligned

/-- Behind a multiple of four bytes a switch has the same padding. -/
theorem padding_add (pc : Nat) : padding (pc + n) = padding pc := by
  unfold padding
  omega

theorem shifts_readTableSwitch (pc : Nat) :
    Shifts n id (readTableSwitch pc) (readTableSwitch (pc + n)) := by
  unfold readTableSwitch
  rw [padding_add aligned]
  apply (shifts_skip _).bind
  intro _
  apply shifts_i4.bind
  intro fallback
  apply shifts_i4.bind
  intro low
  apply shifts_i4.bind
  intro high
  apply Shifts.ite
  · apply Shifts.offset_bind
    intro offset
    exact .fault (.badTableBounds pc high low) offset
  · exact (shifts_i4.times _).bind fun _ => .pure _

theorem shifts_readLookupSwitch (pc : Nat) :
    Shifts n id (readLookupSwitch pc) (readLookupSwitch (pc + n)) := by
  unfold readLookupSwitch
  rw [padding_add aligned]
  apply (shifts_skip _).bind
  intro _
  apply shifts_i4.bind
  intro fallback
  apply shifts_i4.bind
  intro count
  apply Shifts.ite
  · apply Shifts.offset_bind
    intro offset
    exact .fault (.badPairCount pc count) offset
  · refine Shifts.bind (f := id) (.times _ ?_) fun _ => .pure _
    exact shifts_i4.bind fun _ => shifts_i4.bind fun _ => .pure _

theorem shifts_readOperands (layout : Layout) (pc : Nat) (wide : Bool) :
    Shifts n id (readOperands layout pc wide) (readOperands layout (pc + n) wide) := by
  cases layout with
  | none => exact .pure _
  | byte => exact shifts_i1.bind fun _ => .pure _
  | short | branch => exact shifts_i2.bind fun _ => .pure _
  | farBranch => exact shifts_i4.bind fun _ => .pure _
  | slot =>
    cases wide with
    | false => exact shifts_u1.bind fun _ => .pure _
    | true => exact shifts_u2.bind fun _ => .pure _
  | increment =>
    exact .ite (shifts_u2.bind fun _ => shifts_i2.bind fun _ => .pure _)
      (shifts_u1.bind fun _ => shifts_i1.bind fun _ => .pure _)
  | shortConstant | arrayType => exact shifts_u1.bind fun _ => .pure _
  | constant => exact shifts_u2.bind fun _ => .pure _
  | interfaceCall =>
    exact shifts_u2.bind fun _ => shifts_u1.bind fun _ => (shifts_skip 1).bind fun _ => .pure _
  | dynamicCall => exact shifts_u2.bind fun _ => (shifts_skip 2).bind fun _ => .pure _
  | arrayDimensions => exact shifts_u2.bind fun _ => shifts_u1.bind fun _ => .pure _
  | tableSwitch => exact (shifts_readTableSwitch aligned pc).bind fun _ => .pure _
  | lookupSwitch => exact (shifts_readLookupSwitch aligned pc).bind fun _ => .pure _
  | wide =>
    apply Shifts.offset_bind
    intro offset
    exact .fault (.unexpectedLayout "WIDE" pc) offset

theorem shifts_read : Shifts n (Instruction.shifted n) read read := by
  intro c
  have made (p : Nat × Bool) (operands : Operands) : Shifts n (Instruction.shifted n)
      (get >>= fun last : Cursor =>
        pure (Instruction.mk c.pos p.1 operands (last.pos - c.pos) p.2))
      (get >>= fun last : Cursor =>
        pure (Instruction.mk (c.pos + n) p.1 operands (last.pos - (c.pos + n)) p.2)) := by
    intro d
    have length : d.pos + n - (c.pos + n) = d.pos - c.pos := Nat.add_sub_add_right ..
    change EStateM.Result.ok (Instruction.mk (c.pos + n) p.1 operands _ p.2) (d.shifted n) = _
    rw [show (d.shifted n).pos = d.pos + n from rfl, length]
    rfl
  change (readOpcodes (c.pos + n) >>= _) (c.shifted n) =
    shiftOutcome n _ ((readOpcodes c.pos >>= _) c)
  refine Shifts.bind (shifts_readOpcodes c.pos) (fun p => ?_) c
  exact (shifts_readOperands aligned (Opcode.layout p.1) c.pos p.2).bind (made p)

end

end Instruction

namespace Disassembly

/-- The same disassembly further on in the code. -/
def shifted (n : Nat) (all : Disassembly) : Disassembly :=
  ⟨all.instructions.map (.shifted n), all.failure.map (.shifted n)⟩

/-- The disassembly of what comes after some instructions, with them in front. -/
def behind (listing : List Instruction) (all : Disassembly) : Disassembly :=
  { all with instructions := listing ++ all.instructions }

theorem decode_shifted (aligned : 4 ∣ n) (count : Nat) (c : Cursor) :
    decode count (c.shifted n) = (decode count c).shifted n := by
  induction count generalizing c with
  | zero => rfl
  | succ count ih =>
    by_cases empty : c.rest = []
    · rw [decode_of_empty empty, decode_of_empty (c := c.shifted n) empty]
      rfl
    have moves := Instruction.shifts_read aligned c
    cases step : Instruction.read c with
    | error failure d =>
      rw [step] at moves
      rw [decode_of_error empty step, decode_of_error (c := c.shifted n) empty moves]
      rfl
    | ok i d =>
      rw [step] at moves
      rw [decode_of_ok step, decode_of_ok moves, ih]
      rfl

/-- More steps than there are bytes make no difference. -/
theorem decode_eq_of_enough {count other : Nat} {c : Cursor} (enough : c.rest.length ≤ count)
    (more : c.rest.length ≤ other) : decode count c = decode other c := by
  induction count generalizing other c with
  | zero =>
    have empty : c.rest = [] := List.eq_nil_of_length_eq_zero (by omega)
    rw [decode_of_empty empty, decode_of_empty empty]
  | succ count ih =>
    by_cases empty : c.rest = []
    · rw [decode_of_empty empty, decode_of_empty empty]
    have some := List.length_pos_of_ne_nil empty
    obtain ⟨other, rfl⟩ : ∃ k, other = k + 1 := ⟨other - 1, by omega⟩
    cases step : Instruction.read c with
    | error failure d => rw [decode_of_error empty step, decode_of_error empty step]
    | ok i d =>
      have shorter := length_rest_lt step
      have same : decode count d = decode other d := ih (by omega) (by omega)
      rw [decode_of_ok step, decode_of_ok step, same]

/-- Instructions that the bytes in front encode are decoded first, whatever comes after them. -/
theorem decode_of_passes {listing : List Instruction} {used : List UInt8} {count : Nat}
    {c d : Cursor} (inside : used ∈ codeEncoding c.pos listing) (passes : c.Passes used d)
    (enough : c.rest.length ≤ count) :
    decode count c = (decode d.rest.length d).behind listing := by
  induction listing generalizing used count c with
  | nil =>
    obtain rfl := (Language.mem_one used).mp inside
    obtain rfl := Cursor.passes_nil.mp passes
    exact decode_eq_of_enough enough (Nat.le_refl _)
  | cons i others ih =>
    obtain ⟨offset, inBoth⟩ := mem_require_mul.mp inside
    obtain ⟨front, inFirst, back, inOthers, rfl⟩ := Language.mem_mul.mp inBoth
    obtain ⟨m, passesFirst, passesOthers⟩ := Cursor.passes_append.mp passes
    have reads : Instruction.read c = .ok i m :=
      Instruction.read_ok_iff.mpr ⟨offset, front, inFirst, passesFirst⟩
    have next : i.stop = m.pos := Instruction.stop_eq_of_passes offset inFirst passesFirst
    have shorter := length_rest_lt reads
    obtain ⟨count, rfl⟩ : ∃ k, count = k + 1 := ⟨count - 1, by omega⟩
    rw [decode_of_ok reads, ih (next ▸ inOthers) passesOthers (by omega)]
    rfl

/-- Whatever stops the decoding of code has a place. -/
theorem exists_of_failure {code : List UInt8} {base : Int} {failure : Failure}
    (found : failure ∈ (ofCode code base).failure) :
    ∃ cause offset, failure = .atOffset cause offset := by
  obtain ⟨d, reaches⟩ : ∃ d, (ofCode code base).Reaches (.ofBytes code base) d :=
    exists_reaches (Nat.le_refl (Cursor.ofBytes code base).rest.length)
  obtain ⟨-, e, fails⟩ := reaches.stuck failure found
  obtain ⟨cause, offset, same, -⟩ := Instruction.exists_of_read_error fails
  exact ⟨cause, offset, same⟩

end Disassembly

end

/-- Behind code that is decoded to its end, and has a multiple of four bytes, other code is decoded
as it is by itself, with instructions, targets and fault moved by the length of what is in front. -/
theorem decoding_behind_aligned_code (front back : List UInt8) (base : Int)
    (listing : List Instruction) (complete : disassemble front base = .ok listing)
    (aligned : 4 ∣ front.length) :
    (Disassembly.ofCode (front ++ back) base).instructions =
        listing ++ (Disassembly.ofCode back base).instructions.map (.shifted front.length) ∧
      (∀ i : Instruction,
        (i.shifted front.length).targets = i.targets.map (· + (front.length : Int))) ∧
      ((Disassembly.ofCode (front ++ back) base).failure = none ↔
        (Disassembly.ofCode back base).failure = none) ∧
      ∀ failure ∈ (Disassembly.ofCode back base).failure, ∃ cause offset,
        failure = .atOffset cause offset ∧
        (Disassembly.ofCode (front ++ back) base).failure =
          some (.atOffset (cause.shifted front.length) (offset + front.length)) ∧
        (cause.shifted front.length).kind = cause.kind ∧
        (cause.shifted front.length).position? = cause.position?.map (· + front.length) := by
  have inside : front ∈ codeEncoding 0 listing :=
    Disassembly.ofCode_eq_iff.mp (Disassembly.disassemble_eq_ok_iff.mp complete)
  have passes : (Cursor.ofBytes (front ++ back) base).Passes front
      ((Cursor.ofBytes back base).shifted front.length) := ⟨rfl, rfl, rfl⟩
  have whole : Disassembly.ofCode (front ++ back) base =
      ((Disassembly.ofCode back base).shifted front.length).behind listing := by
    have later := Disassembly.decode_shifted aligned back.length (.ofBytes back base)
    have first := Disassembly.decode_of_passes inside passes (Nat.le_refl _)
    exact first.trans (congrArg _ later)
  have moved : (Disassembly.ofCode (front ++ back) base).failure =
      (Disassembly.ofCode back base).failure.map (.shifted front.length) := by
    rw [whole]
    rfl
  refine ⟨by rw [whole]; rfl, Instruction.targets_shifted _, by rw [moved, Option.map_eq_none_iff],
    fun failure found => ?_⟩
  obtain ⟨cause, offset, rfl⟩ := Disassembly.exists_of_failure found
  rw [moved, Option.mem_def.mp found]
  exact ⟨cause, offset, rfl, rfl, cause.kind_shifted _, cause.position?_shifted _⟩

/-- A switch whose keys end before they begin, behind a jump. -/
theorem decoding_behind_aligned_code_switch :
    disassemble [0xA7, 0, 3, 0] 100 =
        .ok [⟨0, 0xA7, .jump 3, 3, false⟩, ⟨3, 0, .none, 1, false⟩] ∧
      (Disassembly.ofCode ([0xA7, 0, 3, 0] ++ [0xAA, 0, 0, 0, 0, 0, 0, 0, 0, 0, 0, 1, 0, 0, 0, 0])
        100).failure = some (.atOffset (.badTableBounds 4 0 1) 120) := by
  have complete : disassemble [0xA7, 0, 3, 0] 100 =
      .ok [⟨0, 0xA7, .jump 3, 3, false⟩, ⟨3, 0, .none, 1, false⟩] := by decide +kernel
  have found : .atOffset (.badTableBounds 0 0 1) 116 ∈
      (Disassembly.ofCode [0xAA, 0, 0, 0, 0, 0, 0, 0, 0, 0, 0, 1, 0, 0, 0, 0] 100).failure := by
    decide +kernel
  obtain ⟨-, -, -, faults⟩ := decoding_behind_aligned_code _
    [0xAA, 0, 0, 0, 0, 0, 0, 0, 0, 0, 0, 1, 0, 0, 0, 0] 100 _ complete (by decide)
  obtain ⟨cause, offset, same, fault, -⟩ := faults _ found
  cases same
  exact ⟨complete, fault⟩

end JavaClass
