import Mathlib.Algebra.Ring.Int.Defs
import Mathlib.Computability.Language
import Mathlib.Order.CompletePartialOrder
import JavaClass.Cursor

/-!
Formats. The byte strings that encode a value form a language, and a layout is the product of the
languages of its parts. Nothing here refers to a reader.
-/

namespace JavaClass

/-- The low `width` bytes of a number, most significant byte first. -/
def word : (width n : Nat) → List UInt8
  | 0, _ => []
  | width + 1, n => word width (n / 256) ++ [.ofNat n]

@[simp] theorem length_word (width n : Nat) : (word width n).length = width := by
  induction width generalizing n with
  | zero => rfl
  | succ width ih => simp [word, ih]

theorem bigEndian_concat (bytes : List UInt8) (b : UInt8) :
    bigEndian (bytes ++ [b]) = 256 * bigEndian bytes + b.toNat := by
  simp [bigEndian]

theorem bigEndian_word (width n : Nat) (bound : n < 256 ^ width) :
    bigEndian (word width n) = n := by
  induction width generalizing n with
  | zero =>
    have zero : n = 0 := by simpa using bound
    simp [word, bigEndian, zero]
  | succ width ih =>
    have shorter : n / 256 < 256 ^ width := by
      rw [Nat.div_lt_iff_lt_mul (by decide)]
      simpa [Nat.pow_succ] using bound
    rw [word, bigEndian_concat, ih _ shorter, UInt8.toNat_ofNat']
    exact Nat.div_add_mod n 256

/-- Bytes spell a number below the power of 256 that their count gives, and are its word. -/
theorem word_bigEndian (bytes : List UInt8) :
    bigEndian bytes < 256 ^ bytes.length ∧ word bytes.length (bigEndian bytes) = bytes := by
  induction bytes using List.reverseRecOn with
  | nil => exact ⟨by decide, rfl⟩
  | append_singleton bytes b ih =>
    obtain ⟨bound, same⟩ := ih
    have small := b.toNat_lt
    have quotient : (256 * bigEndian bytes + b.toNat) / 256 = bigEndian bytes := by omega
    have byte : UInt8.ofNat (256 * bigEndian bytes + b.toNat) = b := by
      apply UInt8.toNat_inj.mp
      rw [UInt8.toNat_ofNat']
      omega
    rw [bigEndian_concat, List.length_append, List.length_singleton]
    refine ⟨by rw [Nat.pow_succ]; omega, ?_⟩
    rw [word, quotient, same, byte]

theorem word_eq_iff {width n : Nat} {bytes : List UInt8} :
    n < 256 ^ width ∧ bytes = word width n ↔ bytes.length = width ∧ n = bigEndian bytes := by
  constructor
  · rintro ⟨bound, rfl⟩
    exact ⟨length_word _ _, (bigEndian_word _ _ bound).symm⟩
  · rintro ⟨rfl, rfl⟩
    exact ⟨(word_bigEndian bytes).1, (word_bigEndian bytes).2.symm⟩

/-- Two's complement on `bits` bits takes each remainder to the one number of its class that the
bits can hold with a sign. -/
theorem twosComplement_eq_iff {bits n : Nat} {z : Int} (positive : 0 < bits)
    (bound : n < 2 ^ bits) :
    z = twosComplement bits n ↔
      -2 ^ (bits - 1) ≤ z ∧ z < 2 ^ (bits - 1) ∧ n = (z % 2 ^ bits).toNat := by
  obtain ⟨bits, rfl⟩ : ∃ k, bits = k + 1 := ⟨bits - 1, by omega⟩
  have cast : ((2 ^ bits : Nat) : Int) = 2 ^ bits := by simp
  rw [Nat.pow_succ] at bound
  simp only [twosComplement, BitVec.toInt, BitVec.toNat_ofNat, Nat.pow_succ,
    Nat.mod_eq_of_lt bound, Nat.add_sub_cancel, Int.pow_succ]
  generalize 2 ^ bits = half at bound cast
  rw [← cast]
  have nonnegative (low : 0 ≤ z) (high : z < half) : z % (half * 2) = z :=
    Int.emod_eq_of_lt low (by omega)
  have negative (low : -half ≤ z) (high : z < 0) : z % (half * 2) = z + half * 2 := by
    rw [← Int.add_emod_right]
    exact Int.emod_eq_of_lt (by omega) (by omega)
  constructor
  · intro value
    split at value <;> omega
  · rintro ⟨low, high, same⟩
    split <;> omega

attribute [simp] Language.mem_iSup Language.iSup_mul
attribute [simp low] Language.mul_iSup

/-- A format gives the byte strings that encode a value. -/
abbrev Format (α : Type) := α → Language UInt8

namespace Format

/-- Just these bytes. -/
def exactly : Format (List UInt8) := fun bytes => {bytes}

/-- Any bytes of a number. -/
def anyBytes (count : Nat) : Language UInt8 := {bytes | bytes.length = count}

/-- No bytes, where a condition holds; nothing is an encoding where it does not. -/
def require (condition : Prop) : Language UInt8 := {bytes | condition ∧ bytes = []}

/-- A big-endian number without a sign. -/
def unsigned (width : Nat) : Format Nat := fun n =>
  {bytes | n < 256 ^ width ∧ bytes = word width n}

/-- The same where the number is kept as an integer. -/
def natural (width : Nat) : Format Int := fun z => ⨆ n : Nat, require (z = n) * unsigned width n

/-- A big-endian number in two's complement. -/
def signed (width : Nat) : Format Int := fun z =>
  {bytes | -2 ^ (8 * width - 1) ≤ z ∧ z < 2 ^ (8 * width - 1) ∧
    bytes = word width (z % 2 ^ (8 * width)).toNat}

/-- One item after the other, behind their number. -/
def counted (width : Nat) (items : List (Language UInt8)) : Language UInt8 :=
  unsigned width items.length * items.prod

section
variable {bytes : List UInt8} {width count : Nat} {condition : Prop} {language : Language UInt8}

@[simp] theorem mem_exactly {value : List UInt8} : bytes ∈ exactly value ↔ bytes = value :=
  Iff.rfl

@[simp] theorem mem_anyBytes : bytes ∈ anyBytes count ↔ bytes.length = count :=
  Iff.rfl

theorem mem_unsigned {n : Nat} :
    bytes ∈ unsigned width n ↔ bytes.length = width ∧ n = bigEndian bytes :=
  word_eq_iff

theorem unsigned_eq_exactly {n : Nat} (bound : n < 256 ^ width) :
    unsigned width n = exactly (word width n) := by
  ext bytes
  exact and_iff_right bound

theorem mem_signed {z : Int} (positive : 0 < width) :
    bytes ∈ signed width z ↔
      bytes.length = width ∧ z = twosComplement (8 * width) (bigEndian bytes) := by
  have power : 256 ^ width = 2 ^ (8 * width) := by rw [Nat.pow_mul]
  have modulus : 0 < (2 : Int) ^ (8 * width) := Int.pow_pos (by decide)
  constructor
  · rintro ⟨low, high, rfl⟩
    have bound : (z % 2 ^ (8 * width)).toNat < 256 ^ width := by
      rw [power, Int.toNat_lt (Int.emod_nonneg z (Int.ne_of_gt modulus))]
      simpa using Int.emod_lt_of_pos z modulus
    rw [bigEndian_word _ _ bound]
    exact ⟨length_word _ _,
      (twosComplement_eq_iff (by omega) (by rwa [← power])).mpr ⟨low, high, rfl⟩⟩
  · rintro ⟨rfl, value⟩
    obtain ⟨bound, same⟩ := word_bigEndian bytes
    obtain ⟨low, high, remainder⟩ :=
      (twosComplement_eq_iff (by omega) (by rwa [← power])).mp value
    exact ⟨low, high, by rw [← remainder, same]⟩

@[simp] theorem mem_require : bytes ∈ require condition ↔ condition ∧ bytes = [] :=
  Iff.rfl

theorem require_pos (holds : condition) : require condition = 1 := by
  ext bytes
  simp [holds]

theorem require_neg (fails : ¬condition) : require condition = 0 := by
  ext bytes
  simp [fails]

@[simp] theorem mem_require_mul :
    bytes ∈ require condition * language ↔ condition ∧ bytes ∈ language := by
  by_cases holds : condition
  · rw [require_pos holds, one_mul]
    exact (and_iff_right holds).symm
  · rw [require_neg holds, zero_mul]
    simp [holds]

/-- What is known of the end of a layout is known of the whole. -/
theorem of_mem_iSup_mul {α : Type} {first rest : α → Language UInt8}
    (made : ∀ a {bytes}, bytes ∈ rest a → condition) (inside : bytes ∈ ⨆ a, first a * rest a) :
    condition := by
  obtain ⟨a, front, _, back, inRest, _⟩ := Language.mem_iSup.mp inside
  exact made a inRest

/-- Conditions come first, all in one: the next four rules move them there. -/
@[simp high] theorem require_mul_require {other : Prop} :
    require condition * require other = require (condition ∧ other) := by
  ext bytes
  simp [and_assoc]

@[simp high] theorem require_mul_require_mul {other : Prop} :
    require condition * (require other * language) = require (condition ∧ other) * language := by
  rw [← mul_assoc, require_mul_require]

@[simp low] theorem mul_require : language * require condition = require condition * language := by
  by_cases holds : condition
  · rw [require_pos holds, mul_one, one_mul]
  · rw [require_neg holds, mul_zero, zero_mul]

@[simp low] theorem mul_require_mul {before : Language UInt8} :
    before * (require condition * language) = require condition * (before * language) := by
  rw [← mul_assoc, mul_require, mul_assoc]

theorem prod_require {α : Type} {items : List α} {each : α → Prop} :
    (items.map fun a => require (each a)).prod = require (∀ a ∈ items, each a) := by
  induction items with
  | nil => simp [require_pos]
  | cons a items ih => simp [ih]

/-- Conditions on the items of a list come first as well. -/
theorem prod_require_mul {α : Type} {items : List α} {each : α → Prop} {format : Format α} :
    (items.map fun a => require (each a) * format a).prod =
      require (∀ a ∈ items, each a) * (items.map format).prod := by
  induction items with
  | nil => simp [require_pos]
  | cons a items ih => simp [ih, mul_assoc]

theorem counted_require_mul {α : Type} {items : List α} {each : α → Prop} {format : Format α} :
    counted width (items.map fun a => require (each a) * format a) =
      require (∀ a ∈ items, each a) * counted width (items.map format) := by
  rw [counted, prod_require_mul, mul_require_mul, counted, List.length_map, List.length_map]

end

end Format

end JavaClass
