import JavaClass.Proofs.Follows

/-!
The format of code: instructions laid out one after the other from code offset 0, where a switch is
padded by its place in the code. `disassemble` accepts this format and nothing else.
-/

namespace JavaClass

open Format

/-- The bytes of the operands that an opcode with this layout has at `pc`. Padding and reserved
bytes may be any. Operands of another layout's shape have no encoding. -/
def Operands.encoding (pc : Nat) (wide : Bool) : Layout → Operands → Language UInt8
  | .none, .none => 1
  | .byte, .value v => signed 1 v
  | .short, .value v => signed 2 v
  | .slot, .slot n => unsigned (if wide then 2 else 1) n
  | .increment, .increment n amount =>
    unsigned (if wide then 2 else 1) n * signed (if wide then 2 else 1) amount
  | .shortConstant, .constant index => unsigned 1 index
  | .constant, .constant index => unsigned 2 index
  | .branch, .jump distance => signed 2 distance
  | .farBranch, .jump distance => signed 4 distance
  | .interfaceCall, .interfaceCall index count => unsigned 2 index * unsigned 1 count * anyBytes 1
  | .dynamicCall, .dynamicCall index => unsigned 2 index * anyBytes 2
  | .arrayType, .arrayType code => unsigned 1 code
  | .arrayDimensions, .arrayDimensions index dimensions => unsigned 2 index * unsigned 1 dimensions
  | .tableSwitch, .tableSwitch ⟨fallback, low, high, jumps⟩ =>
    require (low ≤ high ∧ (jumps.length : Int) = high - low + 1) *
      (anyBytes ((4 - (pc + 1) % 4) % 4) * signed 4 fallback * signed 4 low * signed 4 high *
        (jumps.map (signed 4)).prod)
  | .lookupSwitch, .lookupSwitch ⟨fallback, pairs⟩ =>
    anyBytes ((4 - (pc + 1) % 4) % 4) * signed 4 fallback * signed 4 pairs.length *
      (pairs.map fun (key, distance) => signed 4 key * signed 4 distance).prod
  | _, _ => 0

namespace Instruction

/-- The opcode, behind `C4` if it is widened, which only two layouts can be. -/
def opcodeEncoding (opcode : Nat) (wide : Bool) : Language UInt8 :=
  if wide then
    require (Opcode.layout opcode = .slot ∨ Opcode.layout opcode = .increment) *
      (exactly [0xC4] * unsigned 1 opcode)
  else unsigned 1 opcode

/-- The bytes of an instruction that stands at its offset. -/
def encoding (i : Instruction) : Language UInt8 :=
  {bytes | Opcode.mnemonic? i.opcode = some i.mnemonic ∧ i.length = bytes.length ∧
    bytes ∈ opcodeEncoding i.opcode i.wide * i.operands.encoding i.offset i.wide i.layout}

end Instruction

/-- Instructions without a gap between them, the first one at `pc`. -/
def codeEncoding (pc : Nat) : List Instruction → Language UInt8
  | [] => 1
  | i :: others => require (i.offset = pc) * (i.encoding * codeEncoding i.stop others)

namespace Instruction

theorem follows_readTableSwitch (pc : Nat) (wide : Bool) :
    Follows (readTableSwitch pc)
      (fun table => Operands.encoding pc wide .tableSwitch (.tableSwitch table)) := by
  unfold readTableSwitch
  refine ((Reader.follows_skip _).bind fun _ => Reader.follows_i4.bind fun fallback =>
    Reader.follows_i4.bind fun low => Reader.follows_i4.bind fun high =>
      Follows.guarded (Follows.offset_bind fun _ => .throw_bind _) fun _ =>
        (Reader.follows_i4.times _).bind fun jumps => .pure _).congr fun table bytes => ?_
  obtain ⟨fallback, low, high, jumps⟩ := table
  have bounds : low ≤ high ∧ jumps.length = (high - low + 1).toNat ↔
      low ≤ high ∧ (jumps.length : Int) = high - low + 1 := by
    constructor <;> rintro ⟨order, count⟩ <;> exact ⟨order, by omega⟩
  simp [Operands.encoding, padding, mul_assoc, bounds]

theorem follows_readLookupSwitch (pc : Nat) (wide : Bool) :
    Follows (readLookupSwitch pc)
      (fun table => Operands.encoding pc wide .lookupSwitch (.lookupSwitch table)) := by
  unfold readLookupSwitch
  have readPair : Follows (do return (← Reader.i4, ← Reader.i4))
      (fun (key, distance) => signed 4 key * signed 4 distance) := by
    refine (Reader.follows_i4.bind fun key => Reader.follows_i4.bind fun distance =>
      .pure _).congr fun (key, distance) bytes => ?_
    simp
  refine ((Reader.follows_skip _).bind fun _ => Reader.follows_i4.bind fun fallback =>
    Reader.follows_i4.bind fun count =>
      Follows.guarded (Follows.offset_bind fun _ => .throw_bind _) fun _ =>
        (readPair.times _).bind fun pairs => .pure _).congr fun table bytes => ?_
  obtain ⟨fallback, pairs⟩ := table
  have count (n : Int) : 0 ≤ n ∧ pairs.length = n.toNat ↔ n = pairs.length := by omega
  simp [Operands.encoding, padding, mul_assoc, count]

theorem follows_readOperands (layout : Layout) (pc : Nat) (wide : Bool) :
    Follows (readOperands layout pc wide) (Operands.encoding pc wide layout) := by
  cases layout
  case' wide =>
    refine Follows.congr (.offset_bind fun _ => .throw _) fun operands bytes => ?_
  case' none => refine Follows.congr (.pure _) fun operands bytes => ?_
  case' byte =>
    refine Follows.congr (.bind Reader.follows_i1 fun _ => .pure _) fun operands bytes => ?_
  case' short | branch =>
    refine Follows.congr (.bind Reader.follows_i2 fun _ => .pure _) fun operands bytes => ?_
  case' farBranch =>
    refine Follows.congr (.bind Reader.follows_i4 fun _ => .pure _) fun operands bytes => ?_
  case' shortConstant | arrayType =>
    refine Follows.congr (.bind Reader.follows_u1 fun _ => .pure _) fun operands bytes => ?_
  case' constant =>
    refine Follows.congr (.bind Reader.follows_u2 fun _ => .pure _) fun operands bytes => ?_
  case' slot =>
    cases wide
    case' false =>
      refine Follows.congr (.bind Reader.follows_u1 fun _ => .pure _) fun operands bytes => ?_
    case' true =>
      refine Follows.congr (.bind Reader.follows_u2 fun _ => .pure _) fun operands bytes => ?_
  case' increment =>
    cases wide
    case' false =>
      refine Follows.congr (.bind Reader.follows_u1 fun _ => .bind Reader.follows_i1 fun _ =>
        .pure _) fun operands bytes => ?_
    case' true =>
      refine Follows.congr (.bind Reader.follows_u2 fun _ => .bind Reader.follows_i2 fun _ =>
        .pure _) fun operands bytes => ?_
  case' interfaceCall =>
    refine Follows.congr (.bind Reader.follows_u2 fun _ => .bind Reader.follows_u1 fun _ =>
      .bind (Reader.follows_skip 1) fun _ => .pure _) fun operands bytes => ?_
  case' dynamicCall =>
    refine Follows.congr (.bind Reader.follows_u2 fun _ => .bind (Reader.follows_skip 2) fun _ =>
      .pure _) fun operands bytes => ?_
  case' arrayDimensions =>
    refine Follows.congr (.bind Reader.follows_u2 fun _ => .bind Reader.follows_u1 fun _ =>
      .pure _) fun operands bytes => ?_
  case' tableSwitch =>
    refine Follows.congr (.bind (follows_readTableSwitch pc wide) fun _ => .pure _)
      fun operands bytes => ?_
  case' lookupSwitch =>
    refine Follows.congr (.bind (follows_readLookupSwitch pc wide) fun _ => .pure _)
      fun operands bytes => ?_
  -- A layout reads operands of one shape, and those of another have no encoding under it.
  all_goals cases operands <;> simp [Operands.encoding, mul_assoc]

theorem follows_readOpcode (pc : Nat) :
    Follows (readOpcode pc)
      (fun (opcode, mnemonic) =>
        require (Opcode.mnemonic? opcode = some mnemonic) * unsigned 1 opcode) := by
  unfold readOpcode
  refine Follows.offset_bind fun offset => Follows.congr (.bind Reader.follows_u1 fun opcode =>
    (?_ : Follows _ fun found =>
      require (found.1 = opcode ∧ Opcode.mnemonic? opcode = some found.2)))
        fun (opcode, mnemonic) bytes => ?_
  · cases Opcode.mnemonic? opcode with
    | some mnemonic =>
      refine (Follows.pure _).congr fun (found, other) bytes => ?_
      simp [eq_comm]
    | none =>
      refine (Follows.throw _).congr fun found bytes => ?_
      simp
  · simp

theorem layout_eq_wide_iff {opcode : Nat} : Opcode.layout opcode = .wide ↔ opcode = 0xC4 := by
  simp only [Opcode.layout, ite_eq_iff, reduceCtorEq, and_false, false_or, or_false, and_true]
  omega

theorem follows_readOpcodes (pc : Nat) :
    Follows (readOpcodes pc) (fun (opcode, wide) =>
      require (Opcode.layout opcode ≠ .wide ∧ ∃ mnemonic, Opcode.mnemonic? opcode = some mnemonic) *
        opcodeEncoding opcode wide) := by
  unfold readOpcodes
  refine Follows.congr (.bind (follows_readOpcode pc) fun first => .ite (.pure _)
    (.offset_bind fun _ => .bind (follows_readOpcode (pc + 1)) fun second =>
      .guarded (.throw_bind _) fun _ => .pure _)) fun (opcode, wide) bytes => ?_
  cases wide with
  | false => simp [opcodeEncoding, mul_add, Language.mem_add, layout_eq_wide_iff]
  | true =>
    have marker : unsigned 1 0xC4 = exactly [0xC4] := unsigned_eq_exactly (by decide)
    have named : Opcode.mnemonic? 0xC4 = some "wide" := rfl
    have other : Opcode.layout opcode = .slot ∨ Opcode.layout opcode = .increment →
        opcode ≠ 0xC4 := by
      rintro layout rfl
      simp [layout_eq_wide_iff.mpr] at layout
    simp [opcodeEncoding, mul_add, mul_assoc, Language.mem_add, layout_eq_wide_iff, marker, named]
    tauto

theorem encoding_operands_wide (pc : Nat) (wide : Bool) (operands : Operands) :
    operands.encoding pc wide .wide = 0 := by
  cases operands <;> rfl

/-- Reads the instruction at the cursor, whose window is the code. -/
theorem read_ok_iff {c d : Cursor} {i : Instruction} :
    read c = .ok i d ↔ i.offset = c.pos ∧ ∃ used ∈ i.encoding, c.Passes used d := by
  have steps : read c = .ok i d ↔ ∃ p m, readOpcodes c.pos c = .ok p m ∧
      ∃ operands, readOperands (Opcode.layout p.1) c.pos p.2 m = .ok operands d ∧
        i = ⟨c.pos, p.1, operands, d.pos - c.pos, p.2⟩ := by
    change (readOpcodes c.pos >>= fun p =>
      readOperands (Opcode.layout p.1) c.pos p.2 >>= fun operands =>
        get >>= fun last => pure ⟨c.pos, p.1, operands, last.pos - c.pos, p.2⟩) c = .ok i d ↔ _
    simp only [bind_ok_iff, get_ok_iff, pure_ok_iff]
    constructor
    · rintro ⟨p, m, readsOpcode, operands, _, readsOperands, _, _, ⟨rfl, rfl⟩, rfl, rfl⟩
      exact ⟨p, m, readsOpcode, operands, readsOperands, rfl⟩
    · rintro ⟨p, m, readsOpcode, operands, readsOperands, rfl⟩
      exact ⟨p, m, readsOpcode, operands, d, readsOperands, d, d, ⟨rfl, rfl⟩, rfl, rfl⟩
  rw [steps]
  constructor
  · rintro ⟨⟨opcode, wide⟩, m, readsOpcode, operands, readsOperands, rfl⟩
    obtain ⟨front, inOpcode, passes⟩ := (follows_readOpcodes _).ok_iff.mp readsOpcode
    obtain ⟨⟨plain, mnemonic, named⟩, inOpcode⟩ := mem_require_mul.mp inOpcode
    obtain ⟨back, inOperands, passesNext⟩ := (follows_readOperands _ _ _).ok_iff.mp readsOperands
    have all := Cursor.passes_append.mpr ⟨m, passes, passesNext⟩
    refine ⟨rfl, front ++ back, ⟨by simp [Instruction.mnemonic, named], ?_,
      Language.append_mem_mul inOpcode inOperands⟩, all⟩
    simp [all.pos]
  · rintro ⟨offset, used, ⟨named, length, inside⟩, passes⟩
    obtain ⟨front, inOpcode, back, inOperands, rfl⟩ := Language.mem_mul.mp inside
    obtain ⟨m, passesFront, passesBack⟩ := Cursor.passes_append.mp passes
    have plain : i.layout ≠ .wide := by
      intro wide
      rw [wide, encoding_operands_wide] at inOperands
      exact Language.notMem_zero _ inOperands
    rw [offset] at inOperands
    refine ⟨(i.opcode, i.wide), m, (follows_readOpcodes _).ok_iff.mpr
      ⟨front, mem_require_mul.mpr ⟨⟨plain, _, named⟩, inOpcode⟩, passesFront⟩, i.operands,
      (follows_readOperands _ _ _).ok_iff.mpr ⟨back, inOperands, passesBack⟩, ?_⟩
    have := passes.pos
    cases i
    simp_all

theorem ne_nil_of_mem_encoding {i : Instruction} {bytes : List UInt8}
    (inside : bytes ∈ i.encoding) : bytes ≠ [] := by
  rintro rfl
  obtain ⟨front, inOpcode, back, -, empty⟩ := Language.mem_mul.mp inside.2.2
  obtain ⟨rfl, -⟩ := List.append_eq_nil_iff.mp empty
  unfold opcodeEncoding at inOpcode
  split at inOpcode
  · simp [Language.mem_mul] at inOpcode
  · simp [mem_unsigned] at inOpcode

end Instruction

theorem mem_codeEncoding_cons {c : Cursor} {i : Instruction} {others : List Instruction} :
    c.rest ∈ codeEncoding c.pos (i :: others) ↔
      ∃ d, Instruction.read c = .ok i d ∧ d.rest ∈ codeEncoding d.pos others := by
  rw [codeEncoding, mem_require_mul, Language.mem_mul]
  simp only [Instruction.read_ok_iff]
  constructor
  · rintro ⟨offset, used, inside, back, inOthers, split⟩
    refine ⟨⟨c.base, c.pos + used.length, back⟩, ⟨offset, used, inside, rfl, rfl, split.symm⟩, ?_⟩
    rwa [← offset, ← inside.2.1]
  · rintro ⟨d, ⟨offset, used, inside, passes⟩, inOthers⟩
    refine ⟨offset, used, inside, d.rest, ?_, passes.rest.symm⟩
    rwa [Instruction.stop, offset, inside.2.1, ← passes.pos]

theorem nil_mem_codeEncoding {pc : Nat} {instructions : List Instruction} :
    [] ∈ codeEncoding pc instructions ↔ instructions = [] := by
  cases instructions with
  | nil => simp [codeEncoding]
  | cons i others =>
    rw [codeEncoding, mem_require_mul, Language.mem_mul]
    simp only [List.append_eq_nil_iff, reduceCtorEq, iff_false]
    rintro ⟨-, used, inside, back, -, rfl, -⟩
    exact Instruction.ne_nil_of_mem_encoding inside rfl

namespace Disassembly

/-- Every step takes at least one byte, so as many steps as there are bytes reach the end. -/
theorem decode_eq_iff {count : Nat} {c : Cursor} {instructions : List Instruction}
    (enough : c.rest.length ≤ count) :
    decode count c = ⟨instructions, none⟩ ↔ c.rest ∈ codeEncoding c.pos instructions := by
  induction count generalizing c instructions with
  | zero =>
    have empty : c.rest = [] := List.eq_nil_of_length_eq_zero (by omega)
    simp [decode, empty, nil_mem_codeEncoding, eq_comm]
  | succ count ih =>
    by_cases empty : c.rest = []
    · simp [decode, Cursor.atEnd, empty, nil_mem_codeEncoding, eq_comm]
    have more : c.atEnd = false := by simpa [Cursor.atEnd] using empty
    cases instructions with
    | nil =>
      simp only [decode, more, codeEncoding, Language.mem_one, empty, iff_false]
      cases Instruction.read c <;> simp
    | cons i others =>
      rw [mem_codeEncoding_cons]
      simp only [decode, more]
      cases step : Instruction.read c with
      | error failure d => simp
      | ok found d =>
        obtain ⟨-, used, inside, passes⟩ := Instruction.read_ok_iff.mp step
        have consumed := List.length_pos_of_ne_nil (Instruction.ne_nil_of_mem_encoding inside)
        have shorter : d.rest.length ≤ count := by
          have := congrArg List.length passes.rest
          rw [List.length_append] at this
          omega
        have parts : decode count d = ⟨others, none⟩ ↔
            (decode count d).instructions = others ∧ (decode count d).failure = none := by
          cases decode count d
          simp
        simp only [Bool.false_eq_true, if_false, mk.injEq, List.cons.injEq, and_assoc, ← parts,
          ih shorter, EStateM.Result.ok.injEq]
        constructor
        · rintro ⟨rfl, inOthers⟩
          exact ⟨d, rfl, rfl, inOthers⟩
        · rintro ⟨_, rfl, rfl, inOthers⟩
          exact ⟨rfl, inOthers⟩

theorem ofCode_eq_iff {code : List UInt8} {base : Int} {instructions : List Instruction} :
    ofCode code base = ⟨instructions, none⟩ ↔ code ∈ codeEncoding 0 instructions :=
  decode_eq_iff (le_refl (Cursor.ofBytes code base).rest.length)

theorem disassemble_eq_ok_iff {code : List UInt8} {base : Int} {instructions : List Instruction} :
    disassemble code base = .ok instructions ↔ ofCode code base = ⟨instructions, none⟩ := by
  unfold disassemble
  cases ofCode code base with
  | mk found failure => cases failure <;> simp

/-- Where code starts in the file does not change its instructions. -/
theorem disassemble_ok_anywhere {code : List UInt8} {base other : Int}
    {instructions : List Instruction} :
    disassemble code base = .ok instructions ↔ disassemble code other = .ok instructions := by
  rw [disassemble_eq_ok_iff, disassemble_eq_ok_iff, ofCode_eq_iff, ofCode_eq_iff]

end Disassembly

/-- Bytes are decoded into a list of instructions exactly if they encode that list, laid out from
code offset 0. -/
theorem disassemble_ok_iff_mem_encoding (code : List UInt8) (base : Int)
    (instructions : List Instruction) :
    disassemble code base = .ok instructions ↔ code ∈ codeEncoding 0 instructions :=
  Disassembly.disassemble_eq_ok_iff.trans Disassembly.ofCode_eq_iff

end JavaClass
