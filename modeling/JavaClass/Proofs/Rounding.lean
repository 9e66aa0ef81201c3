import Mathlib.Algebra.Order.Field.Basic
import Mathlib.Algebra.Order.Field.Rat
import Mathlib.Algebra.Order.Archimedean.Basic
import Mathlib.Tactic.FieldSimp
import Mathlib.Tactic.Linarith
import Mathlib.Tactic.Positivity
import Mathlib.Tactic.Ring
import Mathlib.Algebra.Ring.Parity
import JavaClass.Proofs.Number

/-!
Rounding to a binary format. A number is rounded to the magnitude nearest to it, and between two
magnitudes equally near to the one with the even number; magnitudes past the finite ones take part
as if the format went on. The limits between which numbers round to a magnitude are the middles
between it and its neighbours.
-/

namespace JavaClass

/-- The whole part of a fraction or the number after it, by the rest. -/
theorem roundHalfEven_cases (num : Nat) {den : Nat} (positive : 0 < den) :
    ((num / den : Nat) : ℚ) ≤ num / den ∧ (num : ℚ) / den < (num / den : Nat) + 1 ∧
      ((num : ℚ) / den < (num / den : Nat) + 1 / 2 ∧ roundHalfEven num den = num / den ∨
        ((num / den : Nat) : ℚ) + 1 / 2 < num / den ∧ roundHalfEven num den = num / den + 1 ∨
        (num : ℚ) / den = (num / den : Nat) + 1 / 2 ∧
          roundHalfEven num den = num / den + num / den % 2) := by
  have remainder := Nat.mod_lt num positive
  have parts := Nat.div_add_mod num den
  unfold roundHalfEven
  generalize num / den = whole at *
  generalize num % den = rest at *
  have denPos : (0 : ℚ) < den := by exact_mod_cast positive
  have fraction : (num : ℚ) / den = whole + rest / den := by
    rw [← parts]
    push_cast
    field_simp
  have part : (rest : ℚ) / den < 1 := by
    rw [div_lt_one denPos]
    exact_mod_cast remainder
  have part_nonneg : (0 : ℚ) ≤ rest / den := by positivity
  rw [fraction]
  refine ⟨by linarith, by linarith, ?_⟩
  dsimp only
  split_ifs with less more
  · have half : (rest : ℚ) / den < 1 / 2 := by
      rw [div_lt_div_iff₀ denPos (by norm_num)]
      exact_mod_cast (by omega : rest * 2 < 1 * den)
    exact .inl ⟨by linarith, rfl⟩
  · have half : (1 : ℚ) / 2 < rest / den := by
      rw [div_lt_div_iff₀ (by norm_num) denPos]
      exact_mod_cast (by omega : 1 * den < rest * 2)
    exact .inr (.inl ⟨by linarith, rfl⟩)
  · have half : (rest : ℚ) / den = 1 / 2 := by
      rw [div_eq_div_iff denPos.ne' (by norm_num)]
      exact_mod_cast (by omega : rest * 2 = 1 * den)
    exact .inr (.inr ⟨by linarith, rfl⟩)

namespace BinaryFormat

variable {f : BinaryFormat}

/-- The magnitude with number `n`. -/
def value (f : BinaryFormat) (n : Nat) : ℚ := f.units n / 2 ^ f.unit

/-- No other magnitude is nearer to `x`, and if one is as near, the number is even. -/
def IsNearest (f : BinaryFormat) (x : ℚ) (n : Nat) : Prop :=
  ∀ m, m ≠ n → |x - f.value n| < |x - f.value m| ∨ |x - f.value n| = |x - f.value m| ∧ Even n

/-- `x` rounds to a finite magnitude. -/
def RoundsTo (f : BinaryFormat) (x : ℚ) (n : Nat) : Prop := n < f.size ∧ f.IsNearest x n

/-- Halfway from a magnitude to the next one. -/
def middle (f : BinaryFormat) (n : Nat) : ℚ := (f.value n + f.value (n + 1)) / 2

theorem value_strictMono (f : BinaryFormat) : StrictMono f.value := by
  intro m n less
  have units : (f.units m : ℚ) < f.units n := by exact_mod_cast units_strictMono f less
  exact div_lt_div_of_pos_right units (by positivity)

theorem value_nonneg (f : BinaryFormat) (n : Nat) : 0 ≤ f.value n := by
  unfold value
  positivity

theorem value_zero (f : BinaryFormat) : f.value 0 = 0 := by
  rw [value, units_of_lt (Nat.two_pow_pos _), Nat.cast_zero, zero_div]

theorem value_lt_middle (f : BinaryFormat) (n : Nat) : f.value n < f.middle n := by
  have next := f.value_strictMono (Nat.lt_succ_self n)
  unfold middle
  linarith

theorem middle_lt_value (f : BinaryFormat) (n : Nat) : f.middle n < f.value (n + 1) := by
  have next := f.value_strictMono (Nat.lt_succ_self n)
  unfold middle
  linarith

theorem middle_strictMono (f : BinaryFormat) : StrictMono f.middle := by
  apply strictMono_nat_of_lt_succ
  intro n
  exact lt_trans (f.middle_lt_value n) (f.value_lt_middle (n + 1))

/-- Which of two numbers is nearer is a matter of the middle between them. -/
theorem nearer_iff {a b x : ℚ} (less : a < b) :
    (|x - b| < |x - a| ↔ (a + b) / 2 < x) ∧ (|x - b| = |x - a| ↔ (a + b) / 2 = x) ∧
      (|x - a| < |x - b| ↔ x < (a + b) / 2) := by
  obtain ⟨ha, signA⟩ | ⟨ha, signA⟩ := abs_cases (x - a) <;>
    obtain ⟨hb, signB⟩ | ⟨hb, signB⟩ := abs_cases (x - b)
  all_goals
    rw [ha, hb]
    refine ⟨⟨?_, ?_⟩, ⟨?_, ?_⟩, ⟨?_, ?_⟩⟩ <;> intro h <;> linarith

/-- The numbers that round to a magnitude lie between two middles, and on one only if the
magnitude has an even number. -/
theorem isNearest_iff {x : ℚ} {n : Nat} :
    f.IsNearest x n ↔
      (∀ k, n = k + 1 → f.middle k < x ∨ f.middle k = x ∧ Even n) ∧
        (x < f.middle n ∨ x = f.middle n ∧ Even n) := by
  have above (m : Nat) (less : n < m) := nearer_iff (x := x) (f.value_strictMono less)
  have below (m : Nat) (less : m < n) := nearer_iff (x := x) (f.value_strictMono less)
  constructor
  · intro nearest
    constructor
    · rintro k rfl
      have lower := below k (Nat.lt_succ_self k)
      obtain nearer | ⟨tie, even⟩ := nearest k (Nat.ne_of_lt (Nat.lt_succ_self k))
      · exact .inl (lower.1.mp nearer)
      · exact .inr ⟨lower.2.1.mp tie, even⟩
    · have upper := above (n + 1) (Nat.lt_succ_self n)
      obtain nearer | ⟨tie, even⟩ := nearest (n + 1) (Nat.succ_ne_self n)
      · exact .inl (upper.2.2.mp nearer)
      · exact .inr ⟨(upper.2.1.mp tie.symm).symm, even⟩
  · rintro ⟨lower, upper⟩ m other
    obtain less | less := Nat.lt_or_gt_of_ne other
    · obtain ⟨k, rfl⟩ : ∃ k, n = k + 1 := ⟨n - 1, by omega⟩
      have value : f.value m ≤ f.value k := f.value_strictMono.monotone (Nat.le_of_lt_succ less)
      have lower := lower k rfl
      unfold middle at lower
      obtain strict | ⟨tie, even⟩ := lower
      · exact .inl ((below m less).1.mpr (by linarith))
      · obtain strict | same := value.lt_or_eq
        · exact .inl ((below m less).1.mpr (by linarith))
        · exact .inr ⟨(below m less).2.1.mpr (by linarith), even⟩
    · have value : f.value (n + 1) ≤ f.value m := f.value_strictMono.monotone less
      unfold middle at upper
      obtain strict | ⟨tie, even⟩ := upper
      · exact .inl ((above m less).2.2.mpr (by linarith))
      · obtain strict | same := value.lt_or_eq
        · exact .inl ((above m less).2.2.mpr (by linarith))
        · exact .inr ⟨((above m less).2.1.mpr (by linarith)).symm, even⟩

/-- Rounding keeps the order. -/
theorem IsNearest.mono {x y : ℚ} {m n : Nat} (hm : f.IsNearest x m) (hn : f.IsNearest y n)
    (less : x ≤ y) : m ≤ n := by
  by_contra past
  obtain ⟨k, rfl⟩ : ∃ k, m = k + 1 := ⟨m - 1, by omega⟩
  have order : f.middle n ≤ f.middle k := f.middle_strictMono.monotone (by omega)
  obtain lower | ⟨lower, evenM⟩ := (isNearest_iff.mp hm).1 k rfl
  · obtain upper | ⟨upper, -⟩ := (isNearest_iff.mp hn).2 <;> linarith
  · obtain upper | ⟨upper, evenN⟩ := (isNearest_iff.mp hn).2
    · linarith
    -- Both numbers are on one middle, and of the two magnitudes around it one has an odd number.
    · have same : n = k := f.middle_strictMono.injective (by linarith)
      rw [same] at evenN
      exact Nat.even_add_one.mp evenM evenN

theorem IsNearest.unique {x : ℚ} {m n : Nat} (hm : f.IsNearest x m) (hn : f.IsNearest x n) :
    m = n :=
  le_antisymm (hm.mono hn le_rfl) (hn.mono hm le_rfl)

theorem RoundsTo.unique {x : ℚ} {m n : Nat} (hm : f.RoundsTo x m) (hn : f.RoundsTo x n) : m = n :=
  hm.2.unique hn.2

theorem isNearest_value (n : Nat) : f.IsNearest (f.value n) n := by
  refine isNearest_iff.mpr ⟨?_, .inl (f.value_lt_middle n)⟩
  rintro k rfl
  exact .inl (f.middle_lt_value k)

/-- What lies between a magnitude and the next one rounds to one of them. -/
theorem isNearest_of_between {x : ℚ} {k n : Nat} (low : f.value k ≤ x) (high : x < f.value (k + 1))
    (half : x < f.middle k ∧ n = k ∨ f.middle k < x ∧ n = k + 1 ∨
      x = f.middle k ∧ n = k + k % 2) : f.IsNearest x n := by
  have first : ∀ j, k = j + 1 → f.middle j < x := by
    rintro j rfl
    exact lt_of_lt_of_le (f.middle_lt_value j) low
  have last : x < f.middle (k + 1) := lt_trans high (f.value_lt_middle (k + 1))
  rw [isNearest_iff]
  obtain ⟨nearLow, rfl⟩ | ⟨nearHigh, rfl⟩ | ⟨tie, rfl⟩ := half
  · exact ⟨fun j same => .inl (first j same), .inl nearLow⟩
  · refine ⟨fun j same => .inl ?_, .inl last⟩
    rwa [← Nat.succ.inj same]
  · obtain even | odd := Nat.mod_two_eq_zero_or_one k
    · rw [even, Nat.add_zero]
      exact ⟨fun j same => .inl (first j same), .inr ⟨tie, Nat.even_iff.mpr even⟩⟩
    · rw [odd]
      refine ⟨fun j same => .inr ?_, .inl last⟩
      rw [← Nat.succ.inj same]
      exact ⟨tie.symm, Nat.even_add_one.mpr (Nat.not_even_iff.mpr odd)⟩

/-- From the least significand with a leading bit up to the next such one, and from zero where the
scale is zero, magnitudes have equal distances. -/
theorem units_grid {scale significand : Nat} (short : significand ≤ 2 * f.hidden)
    (leading : scale = 0 ∨ f.hidden ≤ significand) :
    f.units (scale * f.hidden + significand) = significand * 2 ^ scale := by
  have positive : 0 < f.hidden := Nat.two_pow_pos _
  by_cases small : significand < f.hidden
  · obtain rfl : scale = 0 := leading.resolve_right (Nat.not_le.mpr small)
    simpa using units_of_lt small
  · obtain short | rfl := short.lt_or_eq
    · exact units_normal (Nat.le_of_not_lt small) short
    · have carry : scale * f.hidden + 2 * f.hidden = (scale + 1) * f.hidden + f.hidden := by ring
      rw [carry, units_normal le_rfl (by omega), Nat.pow_succ]
      ring

theorem value_grid {scale significand : Nat} (short : significand ≤ 2 * f.hidden)
    (leading : scale = 0 ∨ f.hidden ≤ significand) :
    f.value (scale * f.hidden + significand) = significand * (2 ^ scale / 2 ^ f.unit) := by
  rw [value, units_grid short leading]
  push_cast
  ring

/-- The number that `nearest?` gives if it is that of a finite magnitude. -/
def nearest (f : BinaryFormat) (num den : Nat) : Nat :=
  let scale := Nat.log2 (num / den) + 1 - f.precision
  scale * f.hidden + roundHalfEven num (den * 2 ^ scale)

theorem nearest?_eq (f : BinaryFormat) (num den : Nat) :
    f.nearest? num den = if f.nearest num den < f.size then some (f.nearest num den) else none := by
  simp only [nearest?, nearest, Nat.shiftLeft_eq]
  rfl

/-- The scale leaves as many bits before the point as the format has, or fewer if it is zero. -/
theorem scale_bounds {num den scale : Nat} (positive : 0 < f.precision)
    (chosen : scale = Nat.log2 (num / den) + 1 - f.precision) :
    num / (den * 2 ^ scale) < 2 * f.hidden ∧
      (scale = 0 ∨ f.hidden ≤ num / (den * 2 ^ scale)) := by
  have doubled : 2 ^ f.precision = 2 * f.hidden := by
    rw [hidden, ← Nat.pow_succ']
    congr 1
    omega
  rw [← Nat.div_div_eq_div_mul]
  constructor
  · apply Nat.div_lt_of_lt_mul
    rw [← doubled, ← Nat.pow_add]
    exact Nat.lt_of_lt_of_le Nat.lt_log2_self (Nat.pow_le_pow_right (by decide) (by omega))
  · by_cases subnormal : scale = 0
    · exact .inl subnormal
    · have nonzero : num / den ≠ 0 := by
        intro zero
        rw [zero, Nat.log2_zero] at chosen
        omega
      right
      rw [Nat.le_div_iff_mul_le (Nat.two_pow_pos _), hidden, ← Nat.pow_add]
      exact Nat.le_trans (Nat.pow_le_pow_right (by decide) (by omega)) (Nat.log2_self_le nonzero)

theorem isNearest_nearest (num : Nat) {den : Nat} (wide : 2 ≤ f.precision) (positive : 0 < den) :
    f.IsNearest (num / den / 2 ^ f.unit) (f.nearest num den) := by
  obtain ⟨scale, chosen⟩ : ∃ scale, scale = Nat.log2 (num / den) + 1 - f.precision := ⟨_, rfl⟩
  obtain ⟨short, leading⟩ := scale_bounds (by omega) chosen
  have number : f.nearest num den = scale * f.hidden + roundHalfEven num (den * 2 ^ scale) := by
    rw [chosen]
    rfl
  have divided : 0 < den * 2 ^ scale := Nat.mul_pos positive (Nat.two_pow_pos _)
  obtain ⟨floor, ceiling, half⟩ := roundHalfEven_cases num divided
  rw [number]
  generalize roundHalfEven num (den * 2 ^ scale) = rounded at *
  generalize num / (den * 2 ^ scale) = whole at *
  -- The number is `whole` steps and a part of one, between two neighbours of the format.
  have given : (num : ℚ) / den / 2 ^ f.unit =
      num / (den * 2 ^ scale : Nat) * (2 ^ scale / 2 ^ f.unit) := by
    push_cast
    field_simp
  have low : f.value (scale * f.hidden + whole) = whole * (2 ^ scale / 2 ^ f.unit) :=
    value_grid (by omega) leading
  have high : f.value (scale * f.hidden + whole + 1) = (whole + 1) * (2 ^ scale / 2 ^ f.unit) := by
    rw [Nat.add_assoc, value_grid (by omega) (by omega)]
    push_cast
    rfl
  have parity : (scale * f.hidden + whole) % 2 = whole % 2 := by
    obtain ⟨bits, hbits⟩ : ∃ bits, f.precision - 1 = bits + 1 := ⟨f.precision - 2, by omega⟩
    rw [hidden, hbits, Nat.pow_succ, ← Nat.mul_assoc, Nat.mul_add_mod_self_right]
  have stepPos : (0 : ℚ) < 2 ^ scale / 2 ^ f.unit := by positivity
  rw [given]
  generalize (num : ℚ) / (den * 2 ^ scale : Nat) = x at *
  generalize (2 : ℚ) ^ scale / 2 ^ f.unit = step at *
  have middle : f.middle (scale * f.hidden + whole) = (whole + 1 / 2) * step := by
    rw [BinaryFormat.middle, low, high]
    ring
  apply isNearest_of_between
  · rw [low]
    exact mul_le_mul_of_nonneg_right floor stepPos.le
  · rw [high]
    exact mul_lt_mul_of_pos_right ceiling stepPos
  · rw [middle, parity]
    obtain ⟨less, rfl⟩ | ⟨more, rfl⟩ | ⟨tie, rfl⟩ := half
    · exact .inl ⟨mul_lt_mul_of_pos_right less stepPos, rfl⟩
    · exact .inr (.inl ⟨mul_lt_mul_of_pos_right more stepPos, (Nat.add_assoc _ _ _).symm⟩)
    · exact .inr (.inr ⟨by rw [tie], (Nat.add_assoc _ _ _).symm⟩)

theorem nearest?_eq_some_iff {num den n : Nat} (wide : 2 ≤ f.precision) (positive : 0 < den) :
    f.nearest? num den = some n ↔ f.RoundsTo (num / den / 2 ^ f.unit) n := by
  have nearest := isNearest_nearest num wide positive
  rw [nearest?_eq]
  constructor
  · intro found
    split_ifs at found with finite
    obtain rfl := Option.some.inj found
    exact ⟨finite, nearest⟩
  · rintro ⟨finite, other⟩
    obtain rfl := nearest.unique other
    rw [if_pos finite]

theorem exists_isNearest {x : ℚ} (wide : 2 ≤ f.precision) (nonneg : 0 ≤ x) :
    ∃ n, f.IsNearest x n := by
  have scaled : 0 ≤ x * 2 ^ f.unit := by positivity
  have given : ((x * 2 ^ f.unit).num.toNat : ℚ) / (x * 2 ^ f.unit).den / 2 ^ f.unit = x := by
    have cast : ((x * 2 ^ f.unit).num.toNat : ℚ) = (x * 2 ^ f.unit).num := by
      exact_mod_cast Int.toNat_of_nonneg (Rat.num_nonneg.mpr scaled)
    rw [cast, Rat.num_div_den]
    field_simp
  have nearest := isNearest_nearest (x * 2 ^ f.unit).num.toNat wide (x * 2 ^ f.unit).den_pos
  rw [given] at nearest
  exact ⟨_, nearest⟩

/-- The distance to the next magnitude is small against the magnitude itself. -/
theorem gap_le {n : Nat} (normal : f.hidden ≤ n) :
    (f.value (n + 1) - f.value n) * f.hidden ≤ f.value n := by
  obtain ⟨scale, significand, leading, short, rfl⟩ := exists_normal normal
  have next : f.value (scale * f.hidden + significand + 1) =
      (significand + 1) * (2 ^ scale / 2 ^ f.unit) := by
    rw [Nat.add_assoc, value_grid (by omega) (.inr (by omega))]
    push_cast
    rfl
  have large : (f.hidden : ℚ) ≤ significand := by exact_mod_cast leading
  rw [next, value_grid short.le (.inr leading)]
  calc ((significand + 1 : ℚ) * (2 ^ scale / 2 ^ f.unit) - significand * (2 ^ scale / 2 ^ f.unit)) *
          f.hidden
      = f.hidden * (2 ^ scale / 2 ^ f.unit) := by ring
    _ ≤ significand * (2 ^ scale / 2 ^ f.unit) := mul_le_mul_of_nonneg_right large (by positivity)

/-- A magnitude is a whole number of steps of its scale, and so are its neighbours, except that
below the least significand of a scale steps are half as long. -/
theorem exists_grid {n : Nat} (nonzero : n ≠ 0) :
    ∃ k scale significand : Nat, ∃ step : ℚ, n = k + 1 ∧ n = scale * f.hidden + significand ∧
      1 ≤ significand ∧ significand < 2 * f.hidden ∧ step = 2 ^ scale / 2 ^ f.unit ∧
      f.value (k + 1) = significand * step ∧ f.value (k + 1 + 1) = (significand + 1) * step ∧
      (f.value k = significand * step - step ∨
        significand = f.hidden ∧ f.value k = significand * step - step / 2) := by
  obtain ⟨k, rfl⟩ : ∃ k, n = k + 1 := ⟨n - 1, by omega⟩
  have positive : 0 < f.hidden := Nat.two_pow_pos _
  have up (scale : Nat) {significand : Nat} (number : k + 1 = scale * f.hidden + significand)
      (leading : scale = 0 ∨ f.hidden ≤ significand) (short : significand < 2 * f.hidden) :
      f.value (k + 1) = significand * (2 ^ scale / 2 ^ f.unit) ∧
        f.value (k + 1 + 1) = (significand + 1) * (2 ^ scale / 2 ^ f.unit) := by
    rw [number, value_grid short.le leading, Nat.add_assoc, value_grid short (by omega)]
    push_cast
    exact ⟨rfl, rfl⟩
  have down {scale significand : Nat} (number : k = scale * f.hidden + significand)
      (leading : scale = 0 ∨ f.hidden ≤ significand) (short : significand < 2 * f.hidden) :
      f.value k = ((significand + 1 : Nat) : ℚ) * (2 ^ scale / 2 ^ f.unit) -
        2 ^ scale / 2 ^ f.unit := by
    rw [number, value_grid short.le leading]
    push_cast
    ring
  by_cases small : k + 1 < 2 * f.hidden
  · obtain ⟨value, next⟩ := up 0 (by omega) (.inl rfl) small
    exact ⟨k, 0, k + 1, _, rfl, by omega, by omega, small, rfl, value, next,
      .inl (down (by omega) (.inl rfl) (by omega))⟩
  obtain ⟨scale, significand, leading, short, number⟩ :=
    exists_normal (f := f) (n := k + 1) (by omega)
  obtain ⟨value, next⟩ := up scale number (.inr leading) short
  refine ⟨k, scale, significand, _, rfl, number, by omega, short, rfl, value, next, ?_⟩
  by_cases least : significand = f.hidden
  · right
    obtain ⟨lower, rfl⟩ : ∃ lower, scale = lower + 1 := by
      apply Nat.exists_eq_succ_of_ne_zero
      rintro rfl
      omega
    have before : k = lower * f.hidden + (2 * f.hidden - 1) := by
      rw [Nat.succ_mul] at number
      omega
    have last : 2 * f.hidden - 1 + 1 = 2 * f.hidden := by omega
    rw [down before (.inr (by omega)) (by omega), last, least, pow_succ]
    push_cast
    exact ⟨rfl, by ring⟩
  · left
    obtain ⟨less, rfl⟩ : ∃ less, significand = less + 1 := ⟨significand - 1, by omega⟩
    exact down (by omega) (.inr (by omega)) (by omega)

theorem IsNearest.middle_le {x : ℚ} {k : Nat} (nearest : f.IsNearest x (k + 1)) :
    f.middle k ≤ x ∧ x ≤ f.middle (k + 1) := by
  obtain ⟨lower, upper⟩ := isNearest_iff.mp nearest
  constructor
  · obtain less | ⟨tie, -⟩ := lower k rfl
    · exact less.le
    · exact tie.le
  · obtain less | ⟨tie, -⟩ := upper
    · exact less.le
    · exact tie.le

theorem IsNearest.abs_sub_le {x : ℚ} {n : Nat} (nearest : f.IsNearest x n) (normal : f.hidden < n) :
    |x - f.value n| * (2 * f.hidden) ≤ f.value n := by
  obtain ⟨k, rfl⟩ : ∃ k, n = k + 1 := ⟨n - 1, by omega⟩
  obtain ⟨lower, upper⟩ := nearest.middle_le
  have below := gap_le (f := f) (Nat.le_of_lt_succ normal)
  have above := gap_le (f := f) normal.le
  have order := f.value_strictMono (Nat.lt_succ_self k)
  have positive : (0 : ℚ) < f.hidden := by exact_mod_cast Nat.two_pow_pos _
  unfold middle at lower upper
  obtain ⟨same, -⟩ | ⟨same, -⟩ := abs_cases (x - f.value (k + 1))
  · calc |x - f.value (k + 1)| * (2 * f.hidden)
        ≤ (f.value (k + 1 + 1) - f.value (k + 1)) / 2 * (2 * f.hidden) :=
          mul_le_mul_of_nonneg_right (by linarith) (by positivity)
      _ = (f.value (k + 1 + 1) - f.value (k + 1)) * f.hidden := by ring
      _ ≤ f.value (k + 1) := above
  · calc |x - f.value (k + 1)| * (2 * f.hidden)
        ≤ (f.value (k + 1) - f.value k) / 2 * (2 * f.hidden) :=
          mul_le_mul_of_nonneg_right (by linarith) (by positivity)
      _ = (f.value (k + 1) - f.value k) * f.hidden := by ring
      _ ≤ f.value (k + 1) := le_trans below order.le

end BinaryFormat

end JavaClass
