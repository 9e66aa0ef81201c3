import JavaClass.Proofs.Code
import JavaClass.Proofs.References
import JavaClass.Proofs.Wording

/-!
What is fixed about an instruction that has an encoding: its layout fixes the shape of its operands,
these fix its length, and its mnemonic fixes its opcode.
-/

namespace JavaClass

open Format

/-- Operands of the shape that an opcode with this layout has. -/
def Layout.Takes : Layout → Operands → Prop
  | .none, .none | .byte, .value _ | .short, .value _ | .slot, .slot _ | .increment, .increment _ _
  | .shortConstant, .constant _ | .constant, .constant _ | .branch, .jump _ | .farBranch, .jump _
  | .interfaceCall, .interfaceCall _ _ | .dynamicCall, .dynamicCall _ | .arrayType, .arrayType _
  | .arrayDimensions, .arrayDimensions _ _ | .lookupSwitch, .lookupSwitch _ => True
  | .tableSwitch, .tableSwitch table => (table.jumps.length : Int) = table.high - table.low + 1
  | _, _ => False

theorem Layout.takes_of_possible {layout : Layout} {pc : Nat} {wide : Bool} {operands : Operands}
    (possible : Possible (operands.encoding pc wide layout)) : layout.Takes operands := by
  have none : ¬Possible 0 := by
    rintro ⟨bytes, inside⟩
    exact Language.notMem_zero bytes inside
  cases layout <;> cases operands
  case tableSwitch.tableSwitch table =>
    obtain ⟨fallback, low, high, jumps⟩ := table
    exact (possible_require.mp (possible_mul.mp possible).1).2
  -- Of the other pairs, those that do not fit have no encoding.
  all_goals first | exact True.intro | exact absurd possible none

/-- The encodings of a value are equally long. -/
def SameLength (language : Language UInt8) : Prop :=
  ∀ a ∈ language, ∀ b ∈ language, a.length = b.length

namespace SameLength

variable {language other : Language UInt8}

theorem mul (first : SameLength language) (second : SameLength other) :
    SameLength (language * other) := by
  intro a inA b inB
  obtain ⟨a₁, inA₁, a₂, inA₂, rfl⟩ := Language.mem_mul.mp inA
  obtain ⟨b₁, inB₁, b₂, inB₂, rfl⟩ := Language.mem_mul.mp inB
  rw [List.length_append, List.length_append, first a₁ inA₁ b₁ inB₁, second a₂ inA₂ b₂ inB₂]

theorem one : SameLength 1 := by
  intro a inA b inB
  rw [(Language.mem_one a).mp inA, (Language.mem_one b).mp inB]

theorem zero : SameLength 0 := by
  intro a inA
  exact absurd inA (Language.notMem_zero a)

theorem unsigned (width n : Nat) : SameLength (unsigned width n) := by
  intro a inA b inB
  rw [inA.2, inB.2]

theorem signed (width : Nat) (z : Int) : SameLength (signed width z) := by
  intro a inA b inB
  rw [inA.2.2, inB.2.2]

theorem anyBytes (count : Nat) : SameLength (anyBytes count) := by
  intro a inA b inB
  rw [mem_anyBytes.mp inA, mem_anyBytes.mp inB]

theorem require (condition : Prop) : SameLength (require condition) := by
  intro a inA b inB
  rw [inA.2, inB.2]

theorem exactly (bytes : List UInt8) : SameLength (exactly bytes) := by
  intro a inA b inB
  rw [mem_exactly.mp inA, mem_exactly.mp inB]

theorem prod {α : Type} {format : α → Language UInt8} (items : List α)
    (each : ∀ item, SameLength (format item)) : SameLength (items.map format).prod := by
  induction items with
  | nil => exact one
  | cons item items ih =>
    rw [List.map_cons, List.prod_cons]
    exact (each item).mul ih

end SameLength

theorem Operands.sameLength_encoding (pc : Nat) (wide : Bool) (layout : Layout)
    (operands : Operands) : SameLength (operands.encoding pc wide layout) := by
  cases layout <;> cases operands
  case none.none => exact .one
  case byte.value => exact .signed _ _
  case short.value => exact .signed _ _
  case slot.slot => exact .unsigned _ _
  case increment.increment => exact (SameLength.unsigned _ _).mul (.signed _ _)
  case shortConstant.constant => exact .unsigned _ _
  case constant.constant => exact .unsigned _ _
  case branch.jump => exact .signed _ _
  case farBranch.jump => exact .signed _ _
  case interfaceCall.interfaceCall =>
    exact ((SameLength.unsigned _ _).mul (.unsigned _ _)).mul (.anyBytes _)
  case dynamicCall.dynamicCall => exact (SameLength.unsigned _ _).mul (.anyBytes _)
  case arrayType.arrayType => exact .unsigned _ _
  case arrayDimensions.arrayDimensions => exact (SameLength.unsigned _ _).mul (.unsigned _ _)
  case tableSwitch.tableSwitch table =>
    obtain ⟨fallback, low, high, jumps⟩ := table
    exact (SameLength.require _).mul (((((SameLength.anyBytes _).mul (.signed _ _)).mul
      (.signed _ _)).mul (.signed _ _)).mul (.prod jumps (.signed 4)))
  case lookupSwitch.lookupSwitch table =>
    obtain ⟨fallback, pairs⟩ := table
    exact (((SameLength.anyBytes _).mul (.signed _ _)).mul (.signed _ _)).mul
      (.prod pairs fun pair => (SameLength.signed _ _).mul (.signed _ _))
  all_goals exact .zero

namespace Opcode

/-- The opcodes that can be widened. -/
def widened : List Nat := [0x15, 0x16, 0x17, 0x18, 0x19, 0x36, 0x37, 0x38, 0x39, 0x3A, 0x84, 0xA9]

theorem mem_widened {opcode : Nat} (layout : layout opcode = .slot ∨ layout opcode = .increment) :
    opcode ∈ widened := by
  simp only [Opcode.layout, ite_eq_iff, reduceCtorEq, and_false, false_or, or_false, and_true]
    at layout
  simp only [widened, List.mem_cons, List.not_mem_nil]
  omega

def named : List (String × Nat) := mnemonics.zipIdx ++ [("impdep1", 0xFE), ("impdep2", 0xFF)]

theorem mem_named {opcode : Nat} {name : String} (found : mnemonic? opcode = some name) :
    (name, opcode) ∈ named := by
  unfold mnemonic? at found
  split at found
  · cases found
    exact List.mem_append_right _ List.mem_cons_self
  · cases found
    exact List.mem_append_right _ (List.mem_cons_of_mem _ List.mem_cons_self)
  · exact List.mem_append_left _ (List.mem_zipIdx_iff_getElem?.mpr found)

/-- The mnemonics of opcodes, and those of widened ones with their mark. -/
def marked : List (String × Nat × Bool) :=
  (named.map fun entry => (entry.1, entry.2, false)) ++
    (named.filter fun entry => widened.contains entry.2).map fun entry =>
      (entry.1 ++ "_w", entry.2, true)

/-- The bytes of a text as a number, by a remainder that tells the mnemonics apart. -/
def weight (text : String) : Nat :=
  text.toByteArray.data.toList.foldl (fun weight byte => 256 * weight + byte.toNat) 0 % 2475

/-- Numbers that differ from each other and from those that are seen, which are kept as bits. -/
def distinct (seen : Nat) : List Nat → Bool
  | [] => true
  | n :: others => !seen.testBit n && distinct (seen ||| 1 <<< n) others

theorem nodup_of_distinct {seen : Nat} {numbers : List Nat}
    (differ : distinct seen numbers = true) :
    numbers.Nodup ∧ ∀ n ∈ numbers, seen.testBit n = false := by
  induction numbers generalizing seen with
  | nil => exact ⟨List.nodup_nil, List.forall_mem_nil _⟩
  | cons n others ih =>
    simp only [distinct, Bool.and_eq_true, Bool.not_eq_true'] at differ
    obtain ⟨nodup, unseen⟩ := ih differ.2
    have later : ∀ m ∈ others, seen.testBit m = false ∧ n ≠ m := by
      intro m inside
      have bit := unseen m inside
      rw [Nat.testBit_or, Bool.or_eq_false_iff] at bit
      refine ⟨bit.1, ?_⟩
      rintro rfl
      simp [Nat.one_shiftLeft] at bit
    exact ⟨List.nodup_cons.mpr ⟨fun inside => (later n inside).2 rfl, nodup⟩,
      List.forall_mem_cons.mpr ⟨differ.1, fun m inside => (later m inside).1⟩⟩

theorem marked_injective {a b : String × Nat × Bool} (ha : a ∈ marked) (hb : b ∈ marked)
    (same : a.1 = b.1) : a = b := by
  have table : distinct 0 (marked.map fun row => weight row.1) = true := by decide +kernel
  exact List.inj_on_of_nodup_map (nodup_of_distinct table).1 ha hb (congrArg weight same)

theorem isSpace_of_mem_marked {row : String × Nat × Bool} (inside : row ∈ marked) {c : CodePoint}
    (member : c ∈ Text.ofString row.1) : (!c.isSpace) = true := by
  have table : (marked.all fun row => !row.1.toByteArray.data.toList.contains 0x20) = true := by
    decide +kernel
  have absent := List.all_eq_true.mp table row inside
  obtain ⟨char, inName, rfl⟩ := List.mem_map.mp member
  rw [Bool.not_eq_true', List.contains_eq_mem, decide_eq_false_iff_not] at absent
  rw [Bool.not_eq_true']
  apply decide_eq_false
  intro blank
  rw [CodePoint.ofChar_injective blank] at inName
  have bytes : row.1.toByteArray = row.1.toList.utf8Encode := by
    rw [← String.toByteArray_ofList, String.ofList_toList]
  apply absent
  rw [bytes, List.utf8Encode, List.data_toByteArray]
  exact List.mem_flatMap.mpr ⟨' ', inName, by decide⟩

end Opcode

namespace Instruction

theorem takes_of_possible {i : Instruction} (possible : Possible i.encoding) :
    i.layout.Takes i.operands := by
  obtain ⟨bytes, -, -, inside⟩ := possible
  exact Layout.takes_of_possible (possible_mul.mp ⟨bytes, inside⟩).2

theorem mem_marked_of_possible {i : Instruction} (possible : Possible i.encoding) :
    (if i.wide then i.mnemonic ++ "_w" else i.mnemonic, i.opcode, i.wide) ∈ Opcode.marked := by
  obtain ⟨bytes, found, -, inside⟩ := possible
  have named := Opcode.mem_named found
  obtain ⟨front, inFront, -⟩ := Language.mem_mul.mp inside
  cases wide : i.wide with
  | false =>
    apply List.mem_append_left
    exact List.mem_map.mpr ⟨_, named, rfl⟩
  | true =>
    apply List.mem_append_right
    have widened : i.opcode ∈ Opcode.widened := by
      rw [opcodeEncoding, wide, if_pos rfl] at inFront
      exact Opcode.mem_widened (mem_require_mul.mp inFront).1
    refine List.mem_map.mpr ⟨_, List.mem_filter.mpr ⟨named, ?_⟩, rfl⟩
    exact List.contains_iff_mem.mpr widened

theorem sameLength_opcodeEncoding (opcode : Nat) (wide : Bool) :
    SameLength (opcodeEncoding opcode wide) := by
  cases wide with
  | false => exact .unsigned _ _
  | true => exact (SameLength.require _).mul ((SameLength.exactly _).mul (.unsigned _ _))

/-- The length of an instruction is fixed by the rest. -/
theorem eq_of_possible {i j : Instruction} (hi : Possible i.encoding) (hj : Possible j.encoding)
    (offset : i.offset = j.offset) (opcode : i.opcode = j.opcode)
    (operands : i.operands = j.operands) (wide : i.wide = j.wide) : i = j := by
  obtain ⟨a, -, lengthA, inA⟩ := hi
  obtain ⟨b, -, lengthB, inB⟩ := hj
  cases i
  cases j
  cases offset
  cases opcode
  cases operands
  cases wide
  have length := ((sameLength_opcodeEncoding _ _).mul (Operands.sameLength_encoding _ _ _ _))
    a inA b inB
  rw [← lengthA, ← lengthB] at length
  cases length
  rfl

theorem possible_of_mem_codeEncoding {pc : Nat} {code : List UInt8}
    {instructions : List Instruction} (inside : code ∈ codeEncoding pc instructions) :
    ∀ i ∈ instructions, Possible i.encoding := by
  induction instructions generalizing pc code with
  | nil => exact List.forall_mem_nil _
  | cons i others ih =>
    obtain ⟨-, inside⟩ := mem_require_mul.mp inside
    obtain ⟨front, inFront, back, inBack, -⟩ := Language.mem_mul.mp inside
    exact List.forall_mem_cons.mpr ⟨⟨front, inFront⟩, ih inBack⟩

end Instruction

end JavaClass
