import JavaClass.Number.Literal
import JavaClass.Proofs.Rounding
import JavaClass.Proofs.Wording
import Mathlib.Algebra.Order.Field.Power
import Mathlib.Data.List.TakeWhile

/-!
Decimal numerals and what they are read as. A numeral is a text of digits with a point among them
and an exponent behind `E` if it has one; it is read as the binary64 value nearest to the decimal
that it denotes. Main statement: the literal of a binary64 value reads back as that value.
-/

namespace JavaClass

open BinaryFormat (single double)

namespace Decimal

/-- The decimal as an exact number. -/
def value (d : Decimal) : ℚ := d.digits * 10 ^ d.exponent

theorem value_nonneg (d : Decimal) : 0 ≤ d.value := by
  unfold value
  positivity

theorem ten_zpow (exponent : Int) :
    (10 : ℚ) ^ exponent = 10 ^ exponent.toNat / 10 ^ (-exponent).toNat := by
  rw [eq_div_iff (by positivity), ← zpow_natCast, ← zpow_natCast, ← zpow_add₀ (by norm_num)]
  congr 1
  omega

theorem read?_eq_some_iff {d : Decimal} {m : Nat} :
    d.read? = some m ↔ double.RoundsTo d.value m := by
  have positive : 0 < Nat.pow 10 (-d.exponent).toNat := Nat.pow_pos (by decide)
  have exact : ((d.digits * Nat.pow 10 d.exponent.toNat * 2 ^ double.unit : Nat) : ℚ) /
      (Nat.pow 10 (-d.exponent).toNat : Nat) / 2 ^ double.unit = d.value := by
    rw [value, ten_zpow]
    simp only [Nat.pow_eq]
    push_cast
    field_simp
  rw [read?, fraction, Nat.shiftLeft_eq, ← exact]
  exact BinaryFormat.nearest?_eq_some_iff (by decide) positive

end Decimal

namespace Binary64

theorem narrow?_eq (m : Nat) : narrow? m = single.nearest? (double.units m) singleUnit := by
  delta narrow?
  rfl

theorem narrow?_eq_some_iff {m n : Nat} :
    narrow? m = some n ↔ single.RoundsTo (double.value m) n := by
  have unit : singleUnit = 2 ^ (double.unit - single.unit) := Nat.one_shiftLeft _
  have exact : (double.units m : ℚ) / (2 ^ (double.unit - single.unit) : Nat) / 2 ^ single.unit =
      double.value m := by
    have powers : (2 : ℚ) ^ double.unit = 2 ^ (double.unit - single.unit) * 2 ^ single.unit := by
      rw [← pow_add, Nat.sub_add_cancel (by decide)]
    rw [BinaryFormat.value, powers]
    push_cast
    field_simp
  have positive : 0 < 2 ^ (double.unit - single.unit) := Nat.two_pow_pos _
  rw [narrow?_eq, unit, BinaryFormat.nearest?_eq_some_iff (by decide) positive, exact]

end Binary64

/-- A decimal numeral. -/
structure Numeral where
  negative : Bool
  whole : List Char
  fraction : List Char
  exponent : Option Int
  whole_isDigit : ∀ c ∈ whole, c.isDigit = true
  fraction_isDigit : ∀ c ∈ fraction, c.isDigit = true
  whole_ne_nil : whole ≠ []
  fraction_ne_nil : fraction ≠ []

namespace Numeral

/-- Digits on either side of a point. -/
def mantissa (n : Numeral) : List Char := n.whole ++ '.' :: n.fraction

def text (n : Numeral) : String :=
  String.ofList ((if n.negative then ['-'] else []) ++ n.mantissa ++
    n.exponent.elim [] fun exponent => 'E' :: (toString exponent).toList)

/-- What the numeral denotes, but for its sign. -/
def decimal (n : Numeral) : Decimal :=
  ⟨Nat.ofDigitChars 10 (n.whole ++ n.fraction) 0, n.exponent.getD 0 - n.fraction.length⟩

/-- Neither a sign nor what else is no digit comes first. -/
theorem head_mantissa (n : Numeral) {c : Char} (rest : List Char) (other : c.isDigit = false) :
    (n.mantissa ++ rest).head? ≠ some c := by
  obtain ⟨first, later, split⟩ := List.exists_cons_of_ne_nil n.whole_ne_nil
  have isDigit := n.whole_isDigit first (split ▸ List.mem_cons_self)
  rw [mantissa, split]
  intro same
  obtain rfl : first = c := Option.some.inj same
  rw [isDigit] at other
  cases other

/-- Digits end at the point and again at the mark of the exponent. -/
theorem mantissa_append_inj {m n : Numeral} {e g : Option Int}
    (same : m.mantissa ++ (e.elim [] fun k => 'E' :: (toString k).toList) =
      n.mantissa ++ g.elim [] fun k => 'E' :: (toString k).toList) :
    m.whole = n.whole ∧ m.fraction = n.fraction ∧ e = g := by
  have point (rest : List Char) : ∀ c ∈ ('.' :: rest).head?, c.isDigit = false := by
    rintro c ⟨⟩
    rfl
  have mark (k : Option Int) :
      ∀ c ∈ (k.elim [] fun k => 'E' :: (toString k).toList).head?, c.isDigit = false := by
    cases k <;> rintro c ⟨⟩
    rfl
  simp only [mantissa, List.append_assoc, List.cons_append] at same
  obtain ⟨wholes, rest⟩ :=
    append_inj_of_run m.whole_isDigit n.whole_isDigit (point _) (point _) same
  obtain ⟨fractions, exponents⟩ := append_inj_of_run m.fraction_isDigit n.fraction_isDigit
    (mark e) (mark g) (List.cons.inj rest).2
  refine ⟨wholes, fractions, ?_⟩
  cases e with
  | none => cases g with
    | none => rfl
    | some l => cases exponents
  | some k => cases g with
    | none => cases exponents
    | some l => rw [Int.repr_injective (String.toList_inj.mp (List.cons.inj exponents).2)]

/-- No two numerals have one text. -/
theorem text_injective {m n : Numeral} (same : m.text = n.text) : m = n := by
  have lists := String.ofList_injective same
  have sign : m.negative = n.negative := by
    cases hm : m.negative <;> cases hn : n.negative
    · rfl
    · simp only [hm, hn, Bool.false_eq_true, if_false, if_true, List.nil_append] at lists
      exact absurd (congrArg List.head? lists) (m.head_mantissa _ (by decide))
    · simp only [hm, hn, Bool.false_eq_true, if_false, if_true, List.nil_append] at lists
      exact absurd (congrArg List.head? lists).symm (n.head_mantissa _ (by decide))
    · rfl
  rw [sign, List.append_assoc, List.append_assoc] at lists
  obtain ⟨wholes, fractions, exponents⟩ := mantissa_append_inj (List.append_cancel_left lists)
  cases m
  cases n
  simp_all

theorem value_eq (n : Numeral) :
    n.decimal.value = Nat.ofDigitChars 10 (n.whole ++ n.fraction) 0 *
      10 ^ (-(n.fraction.length : Int)) * 10 ^ n.exponent.getD 0 := by
  rw [decimal, Decimal.value, sub_eq_add_neg, add_comm, zpow_add₀ (by norm_num), mul_assoc]

end Numeral

namespace Decimal

theorem ofDigitChars_zeros (digits : List Char) (count : Nat) :
    Nat.ofDigitChars 10 (digits ++ List.replicate count '0') 0 =
      Nat.ofDigitChars 10 digits 0 * 10 ^ count := by
  rw [Nat.ofDigitChars_append, Nat.ofDigitChars_replicate_zero, Nat.mul_comm]

/-- A point among or behind the digits, which are filled up with zeros, makes a numeral. -/
theorem exists_withPoint {count : Nat} {digits : List Char} (positive : 0 < count)
    (isDigit : ∀ c ∈ digits, c.isDigit = true) (nonempty : digits ≠ []) (negative : Bool)
    (exponent : Option Int) :
    ∃ n : Numeral, n.negative = negative ∧ n.exponent = exponent ∧
      n.mantissa = withPoint count digits ∧
      n.decimal.value = Nat.ofDigitChars 10 digits 0 * 10 ^ ((count : Int) - digits.length) *
        10 ^ exponent.getD 0 := by
  by_cases inside : count < digits.length
  · have rest : digits.drop count ≠ [] := by simpa using inside
    refine ⟨⟨negative, digits.take count, digits.drop count, exponent,
      fun c member => isDigit c (List.mem_of_mem_take member),
      fun c member => isDigit c (List.mem_of_mem_drop member), ?_, rest⟩, rfl, rfl, ?_, ?_⟩
    · simp [nonempty, positive.ne']
    · simp [Numeral.mantissa, withPoint, rest, Nat.sub_eq_zero_of_le inside.le]
    · rw [Numeral.value_eq]
      simp only [List.take_append_drop, List.length_drop]
      congr 3
      omega
  · have rest : digits.drop count = [] := by simpa using inside
    have fits := Nat.le_of_not_lt inside
    refine ⟨⟨negative, digits ++ List.replicate (count - digits.length) '0', ['0'], exponent,
      ?_, List.forall_mem_singleton.mpr rfl, ?_, List.cons_ne_nil _ _⟩, rfl, rfl, ?_, ?_⟩
    · intro c member
      obtain member | member := List.mem_append.mp member
      · exact isDigit c member
      · rw [List.eq_of_mem_replicate member]
        rfl
    · simp [nonempty]
    · simp [Numeral.mantissa, withPoint, rest, List.take_of_length_le fits]
    · have zeros : digits ++ List.replicate (count - digits.length) '0' ++ ['0'] =
          digits ++ List.replicate (count - digits.length + 1) '0' := by
        rw [List.append_assoc, ← List.replicate_succ']
      have power : (10 : ℚ) ^ ((count : Int) - digits.length) =
          10 ^ (count - digits.length + 1) * 10 ^ (-1 : Int) := by
        rw [← zpow_natCast, ← zpow_add₀ (by norm_num)]
        congr 1
        omega
      rw [Numeral.value_eq, power]
      simp only [zeros, ofDigitChars_zeros, List.length_singleton]
      push_cast
      ring

/-- What is left of digits without the zeros at their end. -/
theorem exists_zeros (digits : List Char) :
    ∃ count, digits = (digits.reverse.dropWhile (· = '0')).reverse ++ List.replicate count '0' := by
  refine ⟨(digits.reverse.takeWhile (· = '0')).length, ?_⟩
  have zeros : digits.reverse.takeWhile (· = '0') =
      List.replicate (digits.reverse.takeWhile (· = '0')).length '0' := by
    apply List.eq_replicate_of_mem
    intro c inside
    simpa using List.mem_takeWhile_imp inside
  have parts := List.takeWhile_append_dropWhile (p := (· = '0')) (l := digits.reverse)
  rw [zeros] at parts
  have reversed := congrArg List.reverse parts
  rw [List.reverse_append, List.reverse_reverse, List.reverse_replicate] at reversed
  exact reversed.symm

theorem scientific_spec (d : Decimal) :
    d.scientific.1 ≠ [] ∧ (∀ c ∈ d.scientific.1, c.isDigit = true) ∧
      d.value = Nat.ofDigitChars 10 d.scientific.1 0 *
        10 ^ (d.scientific.2 + 1 - d.scientific.1.length) := by
  obtain ⟨count, split⟩ := exists_zeros (Nat.toDigits 10 d.digits)
  have number : Nat.ofDigitChars 10 (Nat.toDigits 10 d.digits) 0 = d.digits :=
    Nat.ofDigitChars_ten_toDigits
  have isDigit : ∀ c ∈ Nat.toDigits 10 d.digits, c.isDigit = true :=
    fun c inside => Nat.isDigit_of_mem_toDigits (by decide) (by decide) inside
  unfold scientific
  dsimp only
  generalize (Nat.toDigits 10 d.digits).reverse.dropWhile (· = '0') = reversed at *
  generalize Nat.toDigits 10 d.digits = digits at *
  subst split
  rw [ofDigitChars_zeros] at number
  by_cases empty : reversed.reverse = []
  · have zero : d.digits = 0 := by rw [← number, empty]; simp
    rw [value, zero, empty]
    simp [Nat.ofDigitChars]
  · have shown : reversed.reverse.isEmpty = false := by simpa using empty
    rw [shown]
    refine ⟨empty, fun c inside => isDigit c (List.mem_append_left _ inside), ?_⟩
    have power : (10 : ℚ) ^ (((reversed.reverse ++ List.replicate count '0').length : Int) - 1 +
        d.exponent + 1 - reversed.reverse.length) = 10 ^ count * 10 ^ d.exponent := by
      rw [← zpow_natCast, ← zpow_add₀ (by norm_num)]
      congr 1
      simp
      omega
    simp only [Bool.false_eq_true, if_false]
    rw [power, value, ← number]
    push_cast
    ring

/-- The literal of a decimal is a numeral that denotes it. -/
theorem exists_numeral (d : Decimal) (negative : Bool) :
    ∃ n : Numeral, n.negative = negative ∧ n.text = Binary64.signMark negative ++ d.literal ∧
      n.decimal.value = d.value := by
  obtain ⟨nonempty, isDigit, denotes⟩ := scientific_spec d
  have text {n : Numeral} (sign : n.negative = negative)
      (written : n.mantissa ++ (n.exponent.elim [] fun e => 'E' :: (toString e).toList) =
        d.literal.toList) : n.text = Binary64.signMark negative ++ d.literal := by
    rw [Numeral.text, sign, List.append_assoc, written, String.ofList_append, String.ofList_toList]
    cases negative <;> rfl
  unfold literal at text ⊢
  dsimp only at text ⊢
  rw [String.toList_ofList] at text
  rw [denotes]
  generalize d.scientific.1 = digits at *
  generalize d.scientific.2 = exponent at *
  by_cases large : exponent < -4 ∨ 16 ≤ exponent
  · obtain ⟨n, sign, behind, mantissa, value⟩ :=
      exists_withPoint Nat.zero_lt_one isDigit nonempty negative (some exponent)
    refine ⟨n, sign, text sign ?_, ?_⟩
    · simp [large, behind, mantissa]
    · rw [value, mul_assoc, ← zpow_add₀ (by norm_num)]
      congr 2
      simp
      ring
  have notLarge : (decide (exponent < -4) || decide (16 ≤ exponent)) = false := by simpa using large
  by_cases small : exponent < 0
  · refine ⟨⟨negative, ['0'], List.replicate (-exponent - 1).toNat '0' ++ digits, none,
      List.forall_mem_singleton.mpr rfl, ?_, List.cons_ne_nil _ _, by simp [nonempty]⟩,
      rfl, text rfl ?_, ?_⟩
    · intro c member
      obtain member | member := List.mem_append.mp member
      · rw [List.eq_of_mem_replicate member]
        rfl
      · exact isDigit c member
    · simp [notLarge, small, Numeral.mantissa]
    · have leading : ['0'] ++ (List.replicate (-exponent - 1).toNat '0' ++ digits) =
          List.replicate ((-exponent - 1).toNat + 1) '0' ++ digits := by
        rw [List.replicate_succ]
        rfl
      have length : -((List.replicate (-exponent - 1).toNat '0' ++ digits).length : Int) =
          exponent + 1 - digits.length := by
        rw [List.length_append, List.length_replicate]
        omega
      rw [Numeral.value_eq]
      simp only [leading, length]
      rw [Nat.ofDigitChars_append, Nat.ofDigitChars_replicate_zero, Nat.mul_zero]
      simp
  · obtain ⟨n, sign, behind, mantissa, value⟩ :=
      exists_withPoint (Nat.succ_pos exponent.toNat) isDigit nonempty negative none
    refine ⟨n, sign, text sign ?_, ?_⟩
    · simp [notLarge, small, behind, mantissa]
    · have exponent_eq : ((exponent.toNat.succ : Nat) : Int) = exponent + 1 := by omega
      rw [value, exponent_eq, Option.getD_none, zpow_zero, mul_one]

theorem value_exact (m : Nat) : (exact m).value = double.value m := by
  have power : (10 : ℚ) ^ (-(double.unit : Int)) = 1 / (5 ^ double.unit * 2 ^ double.unit) := by
    rw [zpow_neg, zpow_natCast, ← mul_pow, one_div]
    norm_num
  rw [value, exact, BinaryFormat.value, power, Nat.pow_eq]
  push_cast
  field_simp

theorem roundsTo_exact {m : Nat} (finite : m < double.size) :
    double.RoundsTo (exact m).value m := by
  rw [value_exact]
  exact ⟨finite, BinaryFormat.isNearest_value m⟩

/-- Whichever decimal is found reads back, and so does the magnitude itself. -/
theorem roundsTo_shortest {m : Nat} (finite : m < double.size) :
    double.RoundsTo (shortest m).value m := by
  unfold shortest
  dsimp only
  generalize search : List.find? (fun d => decide (read? d = some m)) _ = found
  cases found with
  | none => exact roundsTo_exact finite
  | some d =>
    have reads := List.find?_some search
    exact read?_eq_some_iff.mp (of_decide_eq_true reads)

end Decimal

namespace Binary64

/-- A text is read as the value nearest to what it denotes, with its sign. -/
def ReadsAs (text : String) (value : Binary64) : Prop :=
  ∃ n : Numeral, n.text = text ∧
    ∃ m, double.RoundsTo n.decimal.value m ∧ value = .finite n.negative m

/-- The bits of the binary32 value nearest to a finite binary64 value. -/
def PacksTo (value : Binary64) (bits : Nat) : Prop :=
  ∃ negative m, value = .finite negative m ∧
    ∃ n, single.RoundsTo (double.value m) n ∧ bits = negative.toNat * 2 ^ 31 + n

theorem packsTo_iff {negative : Bool} {m n bits : Nat}
    (rounds : single.RoundsTo (double.value m) n) :
    PacksTo (.finite negative m) bits ↔ bits = negative.toNat * 2 ^ 31 + n := by
  constructor
  · rintro ⟨_, _, ⟨⟩, k, other, rfl⟩
    rw [rounds.unique other]
  · rintro rfl
    exact ⟨negative, m, rfl, n, rounds, rfl⟩

theorem exists_numeral_finiteLiteral (negative : Bool) {m : Nat} (finite : m < double.size) :
    ∃ n : Numeral, n.negative = negative ∧ n.text = finiteLiteral negative m ∧
      double.RoundsTo n.decimal.value m := by
  unfold finiteLiteral
  dsimp only
  by_cases zero : m = 0
  · obtain ⟨n, sign, text, value⟩ := Decimal.exists_numeral ⟨0, 0⟩ negative
    refine ⟨n, sign, by rw [if_pos zero, text], ?_⟩
    rw [value, zero, Decimal.value, Nat.cast_zero, zero_mul, ← double.value_zero]
    exact ⟨zero ▸ finite, BinaryFormat.isNearest_value 0⟩
  · obtain ⟨n, sign, text, value⟩ := Decimal.exists_numeral (Decimal.shortest m) negative
    refine ⟨n, sign, by rw [if_neg zero, text], ?_⟩
    rw [value]
    exact Decimal.roundsTo_shortest finite

theorem readsAs_finiteLiteral (negative : Bool) {m : Nat} (finite : m < double.size)
    {value : Binary64} : ReadsAs (finiteLiteral negative m) value ↔ value = .finite negative m := by
  obtain ⟨n, rfl, text, rounds⟩ := exists_numeral_finiteLiteral negative finite
  constructor
  · rintro ⟨other, same, k, reads, rfl⟩
    obtain rfl := Numeral.text_injective (same.trans text.symm)
    rw [rounds.unique reads]
  · rintro rfl
    exact ⟨n, text, m, rounds, rfl⟩

/-- The first count whose decimal narrows to the target is taken; if there is none, the value stays
as it is. -/
theorem singleCandidate_cases {magnitude target candidate : Nat} {counts : List Nat}
    (ascending : counts.Pairwise (· < ·))
    (chosen : singleCandidate magnitude target counts = .ok candidate) :
    (candidate = magnitude ∧ ∀ b ∈ counts, narrow? (rounded b magnitude) ≠ some target) ∨
      ∃ count ∈ counts, candidate = rounded count magnitude ∧ narrow? candidate = some target ∧
        ∀ b ∈ counts, b < count → narrow? (rounded b magnitude) ≠ some target := by
  induction counts with
  | nil =>
    cases chosen
    exact .inl ⟨rfl, List.forall_mem_nil _⟩
  | cons count counts ih =>
    obtain ⟨later, ascending⟩ := List.pairwise_cons.mp ascending
    simp only [singleCandidate] at chosen
    split at chosen
    · cases chosen
    · rename_i narrowed found
      split at chosen
      · rename_i same
        cases chosen
        refine .inr ⟨count, List.mem_cons_self, rfl, same ▸ found, ?_⟩
        intro b inside less
        obtain rfl | inside := List.mem_cons.mp inside
        · exact absurd less (Nat.lt_irrefl b)
        · exact absurd less (Nat.lt_asymm (later b inside))
      · rename_i other
        have missed : narrow? (rounded count magnitude) ≠ some target := by
          rw [found]
          exact fun same => other (Option.some.inj same)
        obtain ⟨whole, none⟩ | ⟨next, inside, taken, narrows, none⟩ := ih ascending chosen
        · exact .inl ⟨whole, List.forall_mem_cons.mpr ⟨missed, none⟩⟩
        · exact .inr ⟨next, List.mem_cons_of_mem count inside, taken, narrows,
            List.forall_mem_cons.mpr ⟨fun _ => missed, none⟩⟩

theorem exists_of_singleLiteral {negative : Bool} {magnitude : Nat} {text : String}
    (written : singleLiteral (.finite negative magnitude) = .ok text) :
    ∃ target candidate, narrow? magnitude = some target ∧
      singleCandidate magnitude target [1, 2, 3, 4, 5, 6, 7, 8, 9] = .ok candidate ∧
      text = finiteLiteral negative candidate := by
  simp only [singleLiteral] at written
  split at written
  · cases written
  · rename_i target narrowed
    cases chosen : singleCandidate magnitude target [1, 2, 3, 4, 5, 6, 7, 8, 9] with
    | error failure =>
      rw [chosen] at written
      cases written
    | ok candidate =>
      rw [chosen] at written
      cases written
      exact ⟨target, candidate, narrowed, chosen, rfl⟩

theorem rounded_lt_size {count magnitude : Nat} (finite : magnitude < double.size) :
    rounded count magnitude < double.size := by
  unfold rounded
  by_cases zero : magnitude = 0
  · rw [if_pos zero]
    exact zero ▸ finite
  rw [if_neg zero]
  cases reads : (Decimal.ofMagnitude count magnitude).read? with
  | none => exact finite
  | some m => exact (Decimal.read?_eq_some_iff.mp reads).1

-- Positional and scientific notation.
example : doubleLiteral (ofBits 0x40A0000000000000) = "2048.0" := by decide +kernel
example : doubleLiteral (ofBits 0x3E7AD7F29ABCAF48) = "1.0E-7" := by decide +kernel

/-- The literal of a finite binary64 value reads back as the value. Its literal in single precision,
where it has one, reads back as a value with the same bits in binary32. -/
theorem literals_read_back (negative : Bool) (magnitude : Nat) (finite : magnitude < double.size) :
    (∀ value, ReadsAs (doubleLiteral (.finite negative magnitude)) value ↔
      value = .finite negative magnitude) ∧
    ∀ text, singleLiteral (.finite negative magnitude) = .ok text →
      ∃ bits, (∀ other, PacksTo (.finite negative magnitude) other ↔ other = bits) ∧
        ∀ other, (∃ value, ReadsAs text value ∧ PacksTo value other) ↔ other = bits := by
  constructor
  · intro value
    exact readsAs_finiteLiteral negative finite
  · intro text written
    obtain ⟨target, candidate, narrowed, chosen, rfl⟩ := exists_of_singleLiteral written
    have same : narrow? candidate = some target ∧ candidate < double.size := by
      obtain ⟨rfl, -⟩ | ⟨count, -, taken, narrows, -⟩ := singleCandidate_cases (by decide) chosen
      · exact ⟨narrowed, finite⟩
      · exact ⟨narrows, taken ▸ rounded_lt_size finite⟩
    have rounds := narrow?_eq_some_iff.mp narrowed
    have roundsCandidate := narrow?_eq_some_iff.mp same.1
    refine ⟨negative.toNat * 2 ^ 31 + target, fun other => packsTo_iff rounds, fun other => ?_⟩
    constructor
    · rintro ⟨value, reads, packs⟩
      rw [(readsAs_finiteLiteral negative same.2).mp reads] at packs
      exact (packsTo_iff roundsCandidate).mp packs
    · rintro rfl
      exact ⟨_, (readsAs_finiteLiteral negative same.2).mpr rfl,
        (packsTo_iff roundsCandidate).mpr rfl⟩

/-- The binary32 value nearest to a tenth, with a sign. -/
theorem literals_read_back_tenth :
    0x3FB99999A0000000 < double.size ∧
      singleLiteral (.finite true 0x3FB99999A0000000) = .ok "-0.1" ∧
      ∃ bits, (∀ other, PacksTo (.finite true 0x3FB99999A0000000) other ↔ other = bits) ∧
        ∀ other, (∃ value, ReadsAs "-0.1" value ∧ PacksTo value other) ↔ other = bits := by
  have finite : 0x3FB99999A0000000 < double.size := by decide +kernel
  have written : singleLiteral (.finite true 0x3FB99999A0000000) = .ok "-0.1" := by decide +kernel
  exact ⟨finite, written, (literals_read_back true _ finite).2 _ written⟩

end Binary64

end JavaClass
