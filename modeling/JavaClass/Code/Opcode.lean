/-!
Opcodes: the byte that starts an instruction, its mnemonic, and the layout of the operands after it.
-/

namespace JavaClass

/-- What comes after an opcode. -/
inductive Layout where
  | none
  | byte
  | short
  /-- A local variable slot, of one byte or under `wide` of two. -/
  | slot
  | shortConstant
  | constant
  | branch
  | farBranch
  /-- A local variable slot and a signed amount, of one byte each or under `wide` of two. -/
  | increment
  /-- A pool index, a count and a reserved byte. -/
  | interfaceCall
  /-- A pool index and two reserved bytes. -/
  | dynamicCall
  | arrayType
  | arrayDimensions
  | tableSwitch
  | lookupSwitch
  /-- The opcode that another one follows. -/
  | wide
  deriving DecidableEq, Repr

namespace Opcode

/-- Mnemonics of the opcodes from `00` on without a gap. -/
def mnemonics : List String := [
  "nop", "aconst_null", "iconst_m1", "iconst_0", "iconst_1", "iconst_2", "iconst_3", "iconst_4",
  "iconst_5", "lconst_0", "lconst_1", "fconst_0", "fconst_1", "fconst_2", "dconst_0", "dconst_1",
  "bipush", "sipush", "ldc", "ldc_w", "ldc2_w", "iload", "lload", "fload", "dload", "aload",
  "iload_0", "iload_1", "iload_2", "iload_3", "lload_0", "lload_1", "lload_2", "lload_3",
  "fload_0", "fload_1", "fload_2", "fload_3", "dload_0", "dload_1", "dload_2", "dload_3",
  "aload_0", "aload_1", "aload_2", "aload_3", "iaload", "laload", "faload", "daload", "aaload",
  "baload", "caload", "saload", "istore", "lstore", "fstore", "dstore", "astore", "istore_0",
  "istore_1", "istore_2", "istore_3", "lstore_0", "lstore_1", "lstore_2", "lstore_3", "fstore_0",
  "fstore_1", "fstore_2", "fstore_3", "dstore_0", "dstore_1", "dstore_2", "dstore_3", "astore_0",
  "astore_1", "astore_2", "astore_3", "iastore", "lastore", "fastore", "dastore", "aastore",
  "bastore", "castore", "sastore", "pop", "pop2", "dup", "dup_x1", "dup_x2", "dup2", "dup2_x1",
  "dup2_x2", "swap", "iadd", "ladd", "fadd", "dadd", "isub", "lsub", "fsub", "dsub", "imul",
  "lmul", "fmul", "dmul", "idiv", "ldiv", "fdiv", "ddiv", "irem", "lrem", "frem", "drem", "ineg",
  "lneg", "fneg", "dneg", "ishl", "lshl", "ishr", "lshr", "iushr", "lushr", "iand", "land", "ior",
  "lor", "ixor", "lxor", "iinc", "i2l", "i2f", "i2d", "l2i", "l2f", "l2d", "f2i", "f2l", "f2d",
  "d2i", "d2l", "d2f", "i2b", "i2c", "i2s", "lcmp", "fcmpl", "fcmpg", "dcmpl", "dcmpg", "ifeq",
  "ifne", "iflt", "ifge", "ifgt", "ifle", "if_icmpeq", "if_icmpne", "if_icmplt", "if_icmpge",
  "if_icmpgt", "if_icmple", "if_acmpeq", "if_acmpne", "goto", "jsr", "ret", "tableswitch",
  "lookupswitch", "ireturn", "lreturn", "freturn", "dreturn", "areturn", "return", "getstatic",
  "putstatic", "getfield", "putfield", "invokevirtual", "invokespecial", "invokestatic",
  "invokeinterface", "invokedynamic", "new", "newarray", "anewarray", "arraylength", "athrow",
  "checkcast", "instanceof", "monitorenter", "monitorexit", "wide", "multianewarray", "ifnull",
  "ifnonnull", "goto_w", "jsr_w", "breakpoint"]

/-- The mnemonic of a byte that is an opcode. Two opcodes at the end are reserved for the
machine. -/
def mnemonic? : Nat → Option String
  | 0xFE => some "impdep1"
  | 0xFF => some "impdep2"
  | opcode => mnemonics[opcode]?

def layout (opcode : Nat) : Layout :=
  if opcode = 0x10 then .byte
  else if opcode = 0x11 then .short
  else if opcode = 0x12 then .shortConstant
  else if opcode = 0x13 ∨ opcode = 0x14 then .constant
  else if 0x15 ≤ opcode ∧ opcode ≤ 0x19 then .slot
  else if 0x36 ≤ opcode ∧ opcode ≤ 0x3A then .slot
  else if opcode = 0x84 then .increment
  else if 0x99 ≤ opcode ∧ opcode ≤ 0xA8 then .branch
  else if opcode = 0xA9 then .slot
  else if opcode = 0xAA then .tableSwitch
  else if opcode = 0xAB then .lookupSwitch
  else if 0xB2 ≤ opcode ∧ opcode ≤ 0xB8 then .constant
  else if opcode = 0xB9 then .interfaceCall
  else if opcode = 0xBA then .dynamicCall
  else if opcode = 0xBB then .constant
  else if opcode = 0xBC then .arrayType
  else if opcode = 0xBD then .constant
  else if opcode = 0xC0 ∨ opcode = 0xC1 then .constant
  else if opcode = 0xC4 then .wide
  else if opcode = 0xC5 then .arrayDimensions
  else if opcode = 0xC6 ∨ opcode = 0xC7 then .branch
  else if opcode = 0xC8 ∨ opcode = 0xC9 then .farBranch
  else .none

end Opcode

/-- The element types of `newarray`. -/
def arrayTypeName? : Nat → Option String
  | 4 => some "boolean"
  | 5 => some "char"
  | 6 => some "float"
  | 7 => some "double"
  | 8 => some "byte"
  | 9 => some "short"
  | 10 => some "int"
  | 11 => some "long"
  | _ => none

end JavaClass
