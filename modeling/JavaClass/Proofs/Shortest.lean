import JavaClass.Proofs.Numeral
import Mathlib.Data.Nat.Digits.Lemmas

/-!
How many digits a literal has. Of the decimals with a given number of digits, none lies between a
magnitude's two neighbours among them; so if one of them reads back as the magnitude, a neighbour
does.
-/

namespace JavaClass

open BinaryFormat (single double)

namespace Decimal

/-- The digits without the zeros at either end. -/
def significantDigits (d : Decimal) : Nat := ((Nat.digits 10 d.digits).dropWhile (· = 0)).length

/-- The zeros at the end of a number can be split off, which leaves its significant digits. -/
theorem exists_trailingZeros (n : Nat) :
    ∃ zeros, n = 10 ^ zeros * Nat.ofDigits 10 ((Nat.digits 10 n).dropWhile (· = 0)) := by
  have parts := List.takeWhile_append_dropWhile (p := (· = 0)) (l := Nat.digits 10 n)
  generalize taken : (Nat.digits 10 n).takeWhile (· = 0) = zeros at parts
  have allZero : zeros = List.replicate zeros.length 0 := by
    apply List.eq_replicate_of_mem
    intro digit inside
    rw [← taken] at inside
    simpa using List.mem_takeWhile_imp inside
  have whole := Nat.ofDigits_digits 10 n
  rw [← parts, Nat.ofDigits_append, allZero, Nat.ofDigits_replicate_zero, Nat.zero_add,
    List.length_replicate] at whole
  exact ⟨zeros.length, whole.symm⟩

theorem dropWhile_digits_mul {n : Nat} (positive : 0 < n) (zeros : Nat) :
    (Nat.digits 10 (10 ^ zeros * n)).dropWhile (· = 0) =
      (Nat.digits 10 n).dropWhile (· = 0) := by
  rw [Nat.digits_base_pow_mul (by decide) positive, List.dropWhile_append_of_pos]
  intro digit inside
  simpa using List.eq_of_mem_replicate inside

theorem length_dropWhile_digits_le_iff {n count : Nat} :
    ((Nat.digits 10 n).dropWhile (· = 0)).length ≤ count ↔
      ∃ zeros, ∃ front < 10 ^ count, n = 10 ^ zeros * front := by
  constructor
  · intro short
    obtain ⟨zeros, number⟩ := exists_trailingZeros n
    have digits : ∀ digit ∈ (Nat.digits 10 n).dropWhile (· = 0), digit < 10 := by
      intro digit inside
      exact Nat.digits_lt_base (by decide) (List.dropWhile_subset _ inside)
    have bound := Nat.ofDigits_lt_base_pow_length (by decide) digits
    exact ⟨zeros, _, bound.trans_le (Nat.pow_le_pow_right (by decide) short), number⟩
  · rintro ⟨zeros, front, short, rfl⟩
    obtain rfl | positive := Nat.eq_zero_or_pos front
    · simp
    · rw [dropWhile_digits_mul positive]
      calc ((Nat.digits 10 front).dropWhile (· = 0)).length
          ≤ (Nat.digits 10 front).length := List.length_dropWhile_le _ _
        _ ≤ count := (Nat.digits_length_le_iff (by decide) front).mpr short

/-- Of two ways to write a number, the one with the smaller exponent has zeros behind the digits of
the other. -/
theorem exists_zeros_of_value {d : Decimal} {digits : Nat} {exponent : Int}
    (same : d.value = digits * 10 ^ exponent) :
    ∃ zeros, ∃ front ≤ digits, d.digits = 10 ^ zeros * front := by
  rw [value] at same
  by_cases order : d.exponent ≤ exponent
  · obtain ⟨zeros, rfl⟩ := Int.exists_add_of_le order
    refine ⟨zeros, digits, le_rfl, ?_⟩
    rw [zpow_add₀ (by norm_num), zpow_natCast, mul_comm (10 ^ d.exponent), ← mul_assoc] at same
    have exact := mul_right_cancel₀ (zpow_ne_zero _ (by norm_num)) same
    rw [mul_comm]
    exact_mod_cast exact
  · obtain ⟨zeros, gap⟩ := Int.exists_add_of_le (Int.le_of_not_le order)
    refine ⟨0, d.digits, ?_, by simp⟩
    rw [gap, zpow_add₀ (by norm_num), zpow_natCast, mul_comm (10 ^ exponent), ← mul_assoc] at same
    have exact := mul_right_cancel₀ (zpow_ne_zero _ (by norm_num)) same
    have digits_eq : d.digits * 10 ^ zeros = digits := by exact_mod_cast exact
    exact digits_eq ▸ Nat.le_mul_of_pos_right _ (by positivity)

/-- A number with at most `count` significant digits is written with these and a power of ten. -/
theorem significantDigits_le_iff {d : Decimal} {count : Nat} :
    d.significantDigits ≤ count ↔
      ∃ digits < 10 ^ count, ∃ exponent : Int, d.value = (digits : Nat) * 10 ^ exponent := by
  rw [significantDigits, length_dropWhile_digits_le_iff]
  constructor
  · rintro ⟨zeros, front, short, number⟩
    refine ⟨front, short, zeros + d.exponent, ?_⟩
    rw [value, number, zpow_add₀ (by norm_num), zpow_natCast]
    push_cast
    ring
  · rintro ⟨digits, short, exponent, same⟩
    obtain ⟨zeros, front, less, number⟩ := exists_zeros_of_value same
    exact ⟨zeros, front, less.trans_lt short, number⟩

theorem significantDigits_eq_of_value {d e : Decimal} (same : d.value = e.value) :
    d.significantDigits = e.significantDigits := by
  apply le_antisymm
  · rw [significantDigits_le_iff, same, ← significantDigits_le_iff]
  · rw [significantDigits_le_iff, ← same, ← significantDigits_le_iff]

/-- A number lies between the powers of ten that the number of its digits gives. -/
theorem toDigits_bounds {n length : Nat} (positive : 0 < n)
    (digits : (Nat.toDigits 10 n).length = length + 1) :
    10 ^ length ≤ n ∧ n < 10 ^ (length + 1) := by
  constructor
  · by_cases one : length = 0
    · simpa [one] using Nat.one_le_iff_ne_zero.mpr positive.ne'
    · have longer := (Nat.length_toDigits_le_iff (n := n) (k := length) (b := 10) (by decide)
        (by omega)).not.mp (by omega)
      exact Nat.le_of_not_lt longer
  · exact (Nat.length_toDigits_le_iff (by decide) (Nat.succ_pos length)).mp digits.le

/-- The whole part of a magnitude that is scaled by a power of ten. -/
def scaledWhole (m shift : Nat) : Nat := double.units m * 10 ^ shift / 2 ^ double.unit

theorem scaledWhole_bounds (m shift : Nat) :
    (scaledWhole m shift : ℚ) ≤ double.value m * 10 ^ shift ∧
      double.value m * 10 ^ shift < scaledWhole m shift + 1 := by
  have scaled : (double.units m * 10 ^ shift : Nat) / (2 ^ double.unit : Nat) =
      double.value m * 10 ^ shift := by
    rw [BinaryFormat.value]
    push_cast
    ring
  obtain ⟨floor, ceiling, -⟩ :=
    roundHalfEven_cases (double.units m * 10 ^ shift) (Nat.two_pow_pos double.unit)
  rw [scaled] at floor ceiling
  exact ⟨floor, ceiling⟩

theorem scaledWhole_pos {m shift : Nat} (nonzero : m ≠ 0)
    (enough : 2 ^ double.unit ≤ 10 ^ shift) : 0 < scaledWhole m shift := by
  have least : 1 ≤ double.units m := by
    have mono := (BinaryFormat.units_strictMono double).monotone (Nat.pos_of_ne_zero nonzero)
    rwa [BinaryFormat.units_of_lt (by decide)] at mono
  exact Nat.div_pos (le_trans enough (Nat.le_mul_of_pos_left _ least)) (Nat.two_pow_pos _)

/-- The exponent of the first digit is told by the length of a whole part, of a magnitude scaled by
a power of ten that leaves one. -/
theorem exists_leadingExponent_eq (m : Nat) :
    ∃ shift, 2 ^ double.unit ≤ 10 ^ shift ∧
      leadingExponent m = ((Nat.toDigits 10 (scaledWhole m shift)).length : Int) - 1 - shift := by
  -- The shift stays a variable: the power is too large to be worked out.
  obtain ⟨shift, same⟩ : ∃ shift, shift = 324 := ⟨_, rfl⟩
  refine ⟨shift, ?_, ?_⟩
  · rw [same]
    decide +kernel
  · have cast : (324 : Int) = shift := by
      rw [same]
      rfl
    rw [leadingExponent, ← same, cast, Nat.pow_eq, Nat.shiftRight_eq_div_pow, scaledWhole]

theorem leadingExponent_bounds {m : Nat} (nonzero : m ≠ 0) :
    (10 : ℚ) ^ leadingExponent m ≤ double.value m ∧
      double.value m < 10 ^ (leadingExponent m + 1) := by
  obtain ⟨shift, enough, exponent⟩ := exists_leadingExponent_eq m
  obtain ⟨floor, ceiling⟩ := scaledWhole_bounds m shift
  have positive := scaledWhole_pos nonzero enough
  generalize scaledWhole m shift = whole at *
  obtain ⟨length, digits⟩ : ∃ length, (Nat.toDigits 10 whole).length = length + 1 :=
    ⟨_, (Nat.sub_add_cancel Nat.length_toDigits_pos).symm⟩
  obtain ⟨below, above⟩ := toDigits_bounds positive digits
  have shiftPos : (0 : ℚ) < 10 ^ shift := by positivity
  have split (k : Nat) : (10 : ℚ) ^ ((k : Int) - shift) = 10 ^ k / 10 ^ shift := by
    rw [zpow_sub₀ (by norm_num), zpow_natCast, zpow_natCast]
  rw [exponent, digits]
  constructor
  · have same : ((length + 1 : Nat) : Int) - 1 - shift = (length : Int) - shift := by omega
    rw [same, split, div_le_iff₀ shiftPos]
    exact le_trans (by exact_mod_cast below) floor
  · have same :
        ((length + 1 : Nat) : Int) - 1 - shift + 1 = ((length + 1 : Nat) : Int) - shift := by
      omega
    rw [same, split, lt_div_iff₀ shiftPos]
    exact lt_of_lt_of_le ceiling (by exact_mod_cast above)

/-- How many whole steps of a power of ten a magnitude has. -/
def wholeSteps (m : Nat) (exponent : Int) : Nat := (steps m exponent).1 / (steps m exponent).2

/-- The number of steps nearest to a magnitude. -/
def nearestSteps (m : Nat) (exponent : Int) : Nat :=
  roundHalfEven (steps m exponent).1 (steps m exponent).2

theorem steps_cases (m : Nat) (exponent : Int) :
    (wholeSteps m exponent : ℚ) ≤ double.value m / 10 ^ exponent ∧
      double.value m / 10 ^ exponent < wholeSteps m exponent + 1 ∧
      (double.value m / 10 ^ exponent ≤ wholeSteps m exponent + 1 / 2 ∧
          nearestSteps m exponent = wholeSteps m exponent ∨
        (wholeSteps m exponent : ℚ) + 1 / 2 ≤ double.value m / 10 ^ exponent ∧
          nearestSteps m exponent = wholeSteps m exponent + 1) := by
  have positive : 0 < (steps m exponent).2 := by
    rw [steps, Nat.shiftLeft_eq]
    exact Nat.mul_pos (Nat.pow_pos (by decide)) (Nat.two_pow_pos _)
  have ratio : ((steps m exponent).1 : ℚ) / (steps m exponent).2 =
      double.value m / 10 ^ exponent := by
    rw [steps, BinaryFormat.value, ten_zpow, Nat.shiftLeft_eq]
    simp only [Nat.pow_eq]
    push_cast
    field_simp
  obtain ⟨floor, ceiling, half⟩ := roundHalfEven_cases (steps m exponent).1 positive
  rw [ratio] at floor ceiling half
  refine ⟨floor, ceiling, ?_⟩
  unfold nearestSteps wholeSteps
  obtain ⟨less, chosen⟩ | ⟨more, chosen⟩ | ⟨tie, chosen⟩ := half
  · exact .inl ⟨less.le, chosen⟩
  · exact .inr ⟨more.le, chosen⟩
  · obtain even | odd := Nat.mod_two_eq_zero_or_one ((steps m exponent).1 / (steps m exponent).2)
    · exact .inl ⟨tie.le, by rw [chosen, even, Nat.add_zero]⟩
    · exact .inr ⟨tie.ge, by rw [chosen, odd]⟩

/-- The exponent of the last of `count` digits. -/
def lastExponent (count m : Nat) : Int := leadingExponent m + 1 - count

theorem wholeSteps_le (m : Nat) (exponent : Int) :
    (wholeSteps m exponent : ℚ) * 10 ^ exponent ≤ double.value m ∧
      double.value m < (wholeSteps m exponent + 1) * 10 ^ exponent := by
  obtain ⟨floor, ceiling, -⟩ := steps_cases m exponent
  have positive : (0 : ℚ) < 10 ^ exponent := by positivity
  rw [le_div_iff₀ positive] at floor
  rw [div_lt_iff₀ positive] at ceiling
  exact ⟨floor, ceiling⟩

theorem nearestSteps_eq (m : Nat) (exponent : Int) :
    nearestSteps m exponent = wholeSteps m exponent ∨
      nearestSteps m exponent = wholeSteps m exponent + 1 := by
  obtain ⟨-, -, ⟨-, chosen⟩ | ⟨-, chosen⟩⟩ := steps_cases m exponent
  · exact .inl chosen
  · exact .inr chosen

/-- The nearest of the two neighbours is within half a step, and not farther than the other. -/
theorem abs_nearestSteps_le (m : Nat) (exponent : Int) :
    |(nearestSteps m exponent : ℚ) * 10 ^ exponent - double.value m| ≤ 10 ^ exponent / 2 ∧
      |(nearestSteps m exponent : ℚ) * 10 ^ exponent - double.value m| ≤
        |(wholeSteps m exponent : ℚ) * 10 ^ exponent - double.value m| ∧
      |(nearestSteps m exponent : ℚ) * 10 ^ exponent - double.value m| ≤
        |((wholeSteps m exponent : ℚ) + 1) * 10 ^ exponent - double.value m| := by
  obtain ⟨floor, ceiling, half⟩ := steps_cases m exponent
  have positive : (0 : ℚ) < 10 ^ exponent := by positivity
  have exact : double.value m = double.value m / 10 ^ exponent * 10 ^ exponent := by field_simp
  rw [exact]
  generalize double.value m / 10 ^ exponent = x at *
  generalize (10 : ℚ) ^ exponent = step at *
  have scaled (y : ℚ) : |y * step - x * step| = |y - x| * step := by
    rw [← sub_mul, abs_mul, abs_of_pos positive]
  rw [scaled, scaled, scaled, div_eq_inv_mul]
  have below : |(wholeSteps m exponent : ℚ) - x| = x - wholeSteps m exponent := by
    rw [abs_sub_comm, abs_of_nonneg (by linarith)]
  have above : |(wholeSteps m exponent : ℚ) + 1 - x| = wholeSteps m exponent + 1 - x := by
    rw [abs_of_nonneg (by linarith)]
  simp only [mul_le_mul_iff_left₀ positive, below, above]
  obtain ⟨near, chosen⟩ | ⟨near, chosen⟩ := half
  · rw [chosen, below]
    exact ⟨by linarith, le_rfl, by linarith⟩
  · rw [chosen]
    push_cast
    rw [above]
    exact ⟨by linarith, by linarith, le_rfl⟩

/-- None of the numbers with `count` digits lies between the neighbours of a magnitude. -/
theorem not_between {m count digits : Nat} (exponent : Int) (nonzero : m ≠ 0)
    (positive : 0 < count) (short : digits < 10 ^ count) :
    (digits : ℚ) * 10 ^ exponent ≤
        wholeSteps m (lastExponent count m) * 10 ^ lastExponent count m ∨
      ((wholeSteps m (lastExponent count m) : ℚ) + 1) * 10 ^ lastExponent count m ≤
        digits * 10 ^ exponent := by
  obtain ⟨leading, -⟩ := leadingExponent_bounds nonzero
  obtain ⟨-, ceiling⟩ := wholeSteps_le m (lastExponent count m)
  have first : leadingExponent m = lastExponent count m + (count - 1 : Nat) := by
    rw [lastExponent]
    omega
  generalize lastExponent count m = last at *
  have stepPos : (0 : ℚ) < 10 ^ last := by positivity
  by_cases fine : last ≤ exponent
  · obtain ⟨zeros, rfl⟩ := Int.exists_add_of_le fine
    have whole : (digits : ℚ) * 10 ^ (last + zeros) = (digits * 10 ^ zeros : Nat) * 10 ^ last := by
      rw [zpow_add₀ (by norm_num), zpow_natCast]
      push_cast
      ring
    rw [whole]
    obtain below | above := Nat.lt_or_ge (wholeSteps m last) (digits * 10 ^ zeros)
    · right
      exact mul_le_mul_of_nonneg_right (by exact_mod_cast below) stepPos.le
    · left
      exact mul_le_mul_of_nonneg_right (by exact_mod_cast above) stepPos.le
  -- A number with smaller last digits is below the power of ten that begins the magnitude.
  · left
    have power : (10 : ℚ) ^ leadingExponent m = (10 ^ (count - 1) : Nat) * 10 ^ last := by
      rw [first, zpow_add₀ (by norm_num), zpow_natCast]
      push_cast
      ring
    have begins : 10 ^ (count - 1) ≤ wholeSteps m last := by
      have less :
          ((10 ^ (count - 1) : Nat) : ℚ) * 10 ^ last < (wholeSteps m last + 1) * 10 ^ last :=
        lt_of_le_of_lt (power ▸ leading) ceiling
      have less := lt_of_mul_lt_mul_right less stepPos.le
      exact Nat.le_of_lt_succ (by exact_mod_cast less)
    calc (digits : ℚ) * 10 ^ exponent
        ≤ 10 ^ count * 10 ^ (last - 1) := by
          apply mul_le_mul
          · exact_mod_cast short.le
          · exact zpow_le_zpow_right₀ (by norm_num) (by omega)
          · positivity
          · positivity
      _ = (10 ^ (count - 1) : Nat) * 10 ^ last := by
          push_cast
          rw [← zpow_natCast, ← zpow_natCast, ← zpow_add₀ (by norm_num), ← zpow_add₀ (by norm_num)]
          congr 1
          omega
      _ ≤ wholeSteps m last * 10 ^ last :=
          mul_le_mul_of_nonneg_right (by exact_mod_cast begins) stepPos.le

theorem significantDigits_le_of_le {digits count : Nat} {exponent : Int} (positive : 0 < count)
    (short : digits ≤ 10 ^ count) : (⟨digits, exponent⟩ : Decimal).significantDigits ≤ count := by
  rw [significantDigits_le_iff]
  obtain less | rfl := short.lt_or_eq
  · exact ⟨digits, less, exponent, rfl⟩
  · refine ⟨1, Nat.one_lt_pow positive.ne' (by decide), count + exponent, ?_⟩
    rw [value, zpow_add₀ (by norm_num), zpow_natCast]
    push_cast
    ring

theorem wholeSteps_lt {m count : Nat} (nonzero : m ≠ 0) :
    wholeSteps m (lastExponent count m) < 10 ^ count := by
  obtain ⟨floor, -⟩ := wholeSteps_le m (lastExponent count m)
  obtain ⟨-, above⟩ := leadingExponent_bounds nonzero
  have power : (10 : ℚ) ^ (leadingExponent m + 1) =
      (10 ^ count : Nat) * 10 ^ lastExponent count m := by
    push_cast
    rw [← zpow_natCast, ← zpow_add₀ (by norm_num), lastExponent]
    congr 1
    ring
  rw [power] at above
  have less := lt_of_mul_lt_mul_right (lt_of_le_of_lt floor above) (by positivity)
  exact_mod_cast less

theorem neighbours_perm (count m : Nat) :
    neighbours count m = [⟨wholeSteps m (lastExponent count m), lastExponent count m⟩,
        ⟨wholeSteps m (lastExponent count m) + 1, lastExponent count m⟩] ∨
      neighbours count m = [⟨wholeSteps m (lastExponent count m) + 1, lastExponent count m⟩,
        ⟨wholeSteps m (lastExponent count m), lastExponent count m⟩] := by
  unfold neighbours
  dsimp only
  split_ifs
  · exact .inl rfl
  · exact .inr rfl

theorem mem_neighbours {count m : Nat} {d : Decimal} :
    d ∈ neighbours count m ↔ d.exponent = lastExponent count m ∧
      (d.digits = wholeSteps m (lastExponent count m) ∨
        d.digits = wholeSteps m (lastExponent count m) + 1) := by
  have parts (digits : Nat) :
      d = ⟨digits, lastExponent count m⟩ ↔
        d.exponent = lastExponent count m ∧ d.digits = digits := by
    cases d
    simp [and_comm]
  obtain order | order := neighbours_perm count m
  · rw [order, List.mem_pair, parts, parts, and_or_left]
  · rw [order, List.mem_pair, parts, parts, or_comm, and_or_left]

theorem significantDigits_neighbour {count m : Nat} {d : Decimal} (nonzero : m ≠ 0)
    (positive : 0 < count) (inside : d ∈ neighbours count m) : d.significantDigits ≤ count := by
  have less : wholeSteps m (lastExponent count m) < 10 ^ count := wholeSteps_lt nonzero
  obtain ⟨digits, exponent⟩ := d
  obtain ⟨-, number⟩ := mem_neighbours.mp inside
  have short : digits ≤ 10 ^ count := by
    obtain rfl | rfl := number
    · exact less.le
    · exact less
  exact significantDigits_le_of_le positive short

/-- If a number with `count` digits is among those that hold of a magnitude and of what lies
between, a neighbour is. -/
theorem exists_neighbour {count m : Nat} {d : Decimal} {p : ℚ → Prop} (nonzero : m ≠ 0)
    (positive : 0 < count) (short : d.significantDigits ≤ count) (holds : p d.value)
    (self : p (double.value m))
    (between : ∀ x y z, 0 ≤ x → x ≤ y → y ≤ z → p x → p z → p y) :
    ∃ e ∈ neighbours count m, p e.value := by
  obtain ⟨digits, bound, exponent, same⟩ := significantDigits_le_iff.mp short
  obtain ⟨floor, ceiling⟩ := wholeSteps_le m (lastExponent count m)
  have nonneg := d.value_nonneg
  rw [same] at holds nonneg
  obtain below | above := not_between exponent nonzero positive bound
  · exact ⟨⟨wholeSteps m (lastExponent count m), lastExponent count m⟩,
      mem_neighbours.mpr ⟨rfl, .inl rfl⟩, between _ _ _ nonneg below floor holds self⟩
  · refine ⟨⟨wholeSteps m (lastExponent count m) + 1, lastExponent count m⟩,
      mem_neighbours.mpr ⟨rfl, .inr rfl⟩, ?_⟩
    have successor : (⟨wholeSteps m (lastExponent count m) + 1, lastExponent count m⟩ :
        Decimal).value = (wholeSteps m (lastExponent count m) + 1) * 10 ^ lastExponent count m := by
      rw [value]
      push_cast
      ring
    rw [successor]
    exact between _ _ _ (double.value_nonneg m) ceiling.le above self holds

end Decimal

namespace BinaryFormat

/-- What lies between numbers that round to one magnitude rounds to it. -/
theorem RoundsTo.between {f : BinaryFormat} (wide : 2 ≤ f.precision) {x y z : ℚ} {n : Nat}
    (nonneg : 0 ≤ x) (low : x ≤ y) (high : y ≤ z) (hx : f.RoundsTo x n) (hz : f.RoundsTo z n) :
    f.RoundsTo y n := by
  obtain ⟨k, nearest⟩ := exists_isNearest wide (le_trans nonneg low)
  obtain rfl : n = k := le_antisymm (hx.2.mono nearest low) (nearest.mono hz.2 high)
  exact ⟨hx.1, nearest⟩

end BinaryFormat

namespace Decimal

theorem significantDigits_pos {m : Nat} {d : Decimal} (nonzero : m ≠ 0)
    (rounds : double.RoundsTo d.value m) : 0 < d.significantDigits := by
  by_contra none
  obtain ⟨digits, bound, exponent, same⟩ :=
    significantDigits_le_iff.mp (Nat.le_zero.mpr (Nat.eq_zero_of_not_pos none))
  obtain rfl : digits = 0 := by simpa using bound
  rw [same, Nat.cast_zero, zero_mul, ← double.value_zero] at rounds
  exact nonzero (rounds.2.unique (BinaryFormat.isNearest_value 0))

/-- No decimal that reads as a magnitude has fewer digits than the one that is found for it. -/
theorem significantDigits_shortest_le {m : Nat} {d : Decimal} (nonzero : m ≠ 0)
    (finite : m < double.size) (reads : d.read? = some m) (short : d.significantDigits ≤ 17) :
    (shortest m).significantDigits ≤ d.significantDigits := by
  have rounds := read?_eq_some_iff.mp reads
  have positive : 0 < d.significantDigits := significantDigits_pos nonzero rounds
  obtain ⟨e, inside, holds⟩ := exists_neighbour (p := fun x => double.RoundsTo x m) nonzero positive
    le_rfl rounds ⟨finite, BinaryFormat.isNearest_value m⟩
    fun x y z nonneg low high hx hz => hx.between (by decide) nonneg low high hz
  generalize d.significantDigits = count at *
  obtain ⟨more, split⟩ := Nat.exists_eq_add_of_le short
  have found : ∃ found, List.find? (fun d => decide (read? d = some m))
      ((List.range count).flatMap fun k => neighbours (k + 1) m) = some found := by
    rw [← Option.isSome_iff_exists, List.find?_isSome]
    refine ⟨e, List.mem_flatMap.mpr ⟨count - 1, List.mem_range.mpr (by omega), ?_⟩, ?_⟩
    · rwa [Nat.sub_add_cancel positive]
    · exact decide_eq_true (read?_eq_some_iff.mpr holds)
  obtain ⟨found, search⟩ := found
  have chosen : shortest m = found := by
    rw [shortest, split, List.range_add, List.flatMap_append, List.find?_append, search]
    rfl
  obtain ⟨k, less, inside⟩ := List.mem_flatMap.mp (List.mem_of_find?_eq_some search)
  rw [chosen]
  exact le_trans (significantDigits_neighbour nonzero (Nat.succ_pos k) inside)
    (List.mem_range.mp less)

end Decimal

end JavaClass
