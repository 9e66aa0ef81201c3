import JavaClass.Proofs.Shortest

/-!
Reading in single precision: a number is rounded to binary64 and from there to binary32. The first
rounding moves it so little that it counts only near the limits between two binary32 magnitudes.
-/

namespace JavaClass

open BinaryFormat (single double)

namespace BinaryFormat

theorem IsNearest.abs_sub_double_le {x : ℚ} {m : Nat} (nearest : double.IsNearest x m)
    (normal : double.hidden < m) : |x - double.value m| * 2 ^ 53 ≤ double.value m := by
  have hidden : (2 * double.hidden : ℚ) = 2 ^ 53 := by exact_mod_cast rfl
  rw [← hidden]
  exact nearest.abs_sub_le normal

/-- Every number in the range of the shorter format is in that of the longer. -/
theorem exists_roundsTo {x : ℚ} (nonneg : 0 ≤ x) (bound : x ≤ 2 ^ 129) :
    ∃ m, double.RoundsTo x m := by
  obtain ⟨m, nearest⟩ := exists_isNearest (f := double) (by decide) nonneg
  have last : double.value ((double.unit + 77) * double.hidden + double.hidden) = 2 ^ 129 := by
    have hidden : (double.hidden : ℚ) = 2 ^ 52 := by exact_mod_cast rfl
    rw [value_grid (by omega) (.inr le_rfl), hidden, pow_add]
    field_simp
  have order : m ≤ (double.unit + 77) * double.hidden + double.hidden := by
    apply nearest.mono (isNearest_value _)
    rwa [last]
  exact ⟨m, lt_of_le_of_lt order (by decide), nearest⟩

/-- Half of the least magnitude of the shorter format is far from the least ones of the longer. -/
theorem value_hidden_le : double.value (double.hidden + 1) ≤ 1 / 2 ^ 150 := by
  have first : double.value (double.hidden + 1) = (2 ^ 52 + 1) / 2 ^ double.unit := by
    have grid := @value_grid double 0 (double.hidden + 1) (by decide) (.inl rfl)
    have hidden : (double.hidden : ℚ) = 2 ^ 52 := by exact_mod_cast rfl
    rw [Nat.zero_mul, Nat.zero_add] at grid
    rw [grid]
    push_cast
    rw [hidden, pow_zero, mul_one_div]
  have unit : (2 : ℚ) ^ double.unit = 2 ^ (double.unit - 203) * 2 ^ 203 := by
    rw [← pow_add, Nat.sub_add_cancel (by decide)]
  have large : (1 : ℚ) ≤ 2 ^ (double.unit - 203) := one_le_pow₀ (by norm_num)
  rw [first, div_le_div_iff₀ (by positivity) (by positivity), unit]
  nlinarith

theorem le_middle (k : Nat) : 1 / 2 ^ 150 ≤ single.middle k := by
  have zero := @value_grid single 0 0 (by decide) (.inl rfl)
  have one := @value_grid single 0 1 (by decide) (.inl rfl)
  have unit : single.unit = 149 := rfl
  rw [Nat.zero_mul, Nat.zero_add] at zero one
  calc (1 : ℚ) / 2 ^ 150
      = single.middle 0 := by
        rw [middle, zero, one, unit]
        norm_num
    _ ≤ single.middle k := single.middle_strictMono.monotone (Nat.zero_le k)

theorem value_le {n : Nat} (finite : n < single.size) : single.value n ≤ 2 ^ 128 := by
  have last : single.value (254 * single.hidden + single.hidden) = 2 ^ 128 := by
    have hidden : (single.hidden : ℚ) = 2 ^ 23 := by exact_mod_cast rfl
    have unit : single.unit = 149 := rfl
    rw [value_grid (by omega) (.inr le_rfl), hidden, unit]
    norm_num
  rw [← last]
  exact single.value_strictMono.monotone (Nat.le_of_lt finite)

end BinaryFormat

namespace Binary64

/-- A number is read as the nearest binary64 magnitude, and this narrowed to one of binary32. -/
def ReadsSingle (x : ℚ) (n : Nat) : Prop :=
  ∃ m, double.RoundsTo x m ∧ single.RoundsTo (double.value m) n

theorem readsSingle_iff {d : Decimal} {n : Nat} :
    d.read?.bind narrow? = some n ↔ ReadsSingle d.value n := by
  simp only [Option.bind_eq_some_iff, Decimal.read?_eq_some_iff, narrow?_eq_some_iff, ReadsSingle]

theorem ReadsSingle.between {x y z : ℚ} {n : Nat} (nonneg : 0 ≤ x) (low : x ≤ y) (high : y ≤ z)
    (hx : ReadsSingle x n) (hz : ReadsSingle z n) : ReadsSingle y n := by
  obtain ⟨l, roundsX, narrowsX⟩ := hx
  obtain ⟨r, roundsZ, narrowsZ⟩ := hz
  obtain ⟨m, nearest⟩ :=
    BinaryFormat.exists_isNearest (f := double) (by decide) (le_trans nonneg low)
  have order : l ≤ m ∧ m ≤ r := ⟨roundsX.2.mono nearest low, nearest.mono roundsZ.2 high⟩
  have values := double.value_strictMono.monotone
  exact ⟨m, ⟨lt_of_le_of_lt order.2 roundsZ.1, nearest⟩,
    narrowsX.between (by decide) (double.value_nonneg l) (values order.1) (values order.2) narrowsZ⟩

/-- What is read as a magnitude is near to something that rounds to it. -/
theorem ReadsSingle.exists_near {x : ℚ} {k : Nat} (reads : ReadsSingle x (k + 1)) :
    ∃ y, single.IsNearest y (k + 1) ∧ |x - y| * 2 ^ 53 ≤ y := by
  obtain ⟨m, rounds, narrows⟩ := reads
  have normal : double.hidden < m := by
    apply Nat.lt_of_succ_le
    apply double.value_strictMono.le_iff_le.mp
    exact le_trans BinaryFormat.value_hidden_le
      (le_trans (BinaryFormat.le_middle k) narrows.2.middle_le.1)
  exact ⟨double.value m, narrows.2, rounds.2.abs_sub_double_le normal⟩

/-- If all that is near to a number rounds to a magnitude, the number is read as it. -/
theorem readsSingle_of_near {x : ℚ} {n : Nat} (finite : n < single.size) (least : 1 / 2 ^ 150 ≤ x)
    (most : x ≤ 2 ^ 129) (near : ∀ y, |x - y| * 2 ^ 53 ≤ y → single.IsNearest y n) :
    ReadsSingle x n := by
  obtain ⟨m, rounds⟩ := BinaryFormat.exists_roundsTo (le_trans (by positivity) least) most
  have normal : double.hidden < m := by
    apply Nat.lt_of_succ_le
    apply (BinaryFormat.isNearest_value _).mono rounds.2
    exact le_trans BinaryFormat.value_hidden_le least
  exact ⟨m, rounds, finite, near _ (rounds.2.abs_sub_double_le normal)⟩

/-- The limits between which numbers round to the magnitude after `k`. They lie half a step above
it and `reach` below, which is half a step too or half of that. -/
structure Limits (k : Nat) (v step reach : ℚ) : Prop where
  value_eq : single.value (k + 1) = v
  lower_eq : single.middle k = v - reach
  upper_eq : single.middle (k + 1) = v + step / 2
  reach_le : reach ≤ step / 2
  le_reach : step / 4 ≤ reach
  step_pos : 0 < step
  step_le : step ≤ v
  lt_step : v < 2 ^ 24 * step

namespace Limits

variable {k : Nat} {v step reach : ℚ}

theorem bounds_of_reads (limits : Limits k v step reach) {x : ℚ} (reads : ReadsSingle x (k + 1)) :
    v - reach - step / 2 ^ 27 ≤ x ∧ x ≤ v + step / 2 + step / 2 ^ 27 := by
  obtain ⟨y, nearest, near⟩ := reads.exists_near
  obtain ⟨lower, upper⟩ := nearest.middle_le
  rw [limits.lower_eq] at lower
  rw [limits.upper_eq] at upper
  have short : y ≤ 2 ^ 25 * step := by linarith [limits.step_le, limits.lt_step]
  have close : |x - y| ≤ step / 2 ^ 27 := by linarith [limits.step_pos]
  obtain ⟨below, above⟩ := abs_le.mp close
  constructor <;> linarith

theorem reads_of_bounds (limits : Limits k v step reach) {x : ℚ} (finite : k + 1 < single.size)
    (low : v - reach + step / 2 ^ 27 < x) (high : x < v + step / 2 - step / 2 ^ 27) :
    ReadsSingle x (k + 1) := by
  have positive := limits.step_pos
  have least := BinaryFormat.le_middle k
  have most := BinaryFormat.value_le finite
  rw [limits.lower_eq] at least
  rw [limits.value_eq] at most
  apply readsSingle_of_near finite
  · linarith
  · linarith [limits.step_le]
  intro y near
  have double : y ≤ 2 * x := by linarith [neg_abs_le (x - y), abs_nonneg (x - y)]
  have close : |x - y| ≤ step / 2 ^ 27 := by linarith [limits.step_le, limits.lt_step]
  obtain ⟨below, above⟩ := abs_le.mp close
  rw [BinaryFormat.isNearest_iff, limits.upper_eq]
  constructor
  · rintro l same
    rw [← Nat.succ.inj same, limits.lower_eq]
    exact .inl (by linarith)
  · exact .inl (by linarith)

/-- The limits are the middles of the steps above and below. -/
theorem of_grid {significand : Nat} {below : ℚ} (positive : 0 < step)
    (value : single.value (k + 1) = significand * step)
    (next : single.value (k + 1 + 1) = (significand + 1) * step)
    (previous : single.value k = significand * step - below) (least : 1 ≤ significand)
    (most : significand < 2 ^ 24) (half : step / 2 ≤ below) (one : below ≤ step) :
    Limits k (significand * step) step (below / 2) := by
  have least : (1 : ℚ) ≤ significand := by exact_mod_cast least
  have most : (significand : ℚ) < 2 ^ 24 := by exact_mod_cast most
  constructor
  · exact value
  · rw [BinaryFormat.middle, value, previous]
    ring
  · rw [BinaryFormat.middle, value, next]
    ring
  · linarith
  · linarith
  · exact positive
  · exact le_mul_of_one_le_left positive.le least
  · exact mul_lt_mul_of_pos_right most positive

end Limits

theorem exists_limits {n : Nat} (nonzero : n ≠ 0) (finite : n < single.size) :
    ∃ k scale significand : Nat, ∃ step reach : ℚ, n = k + 1 ∧ scale < 255 ∧
      step = 2 ^ scale / 2 ^ single.unit ∧ Limits k (significand * step) step reach ∧
      (reach = step / 2 ∨
        n = (scale + 1) * single.hidden ∧ significand = single.hidden ∧ reach = step / 4) := by
  obtain ⟨k, scale, significand, step, hk, hn, least, most, hstep, value, next, previous⟩ :=
    BinaryFormat.exists_grid (f := single) nonzero
  have bound : scale < 255 := by
    have size : single.size = 255 * single.hidden := rfl
    apply Nat.lt_of_mul_lt_mul_right (a := single.hidden)
    omega
  have positive : 0 < step := by
    rw [hstep]
    positivity
  obtain previous | ⟨same, previous⟩ := previous
  · exact ⟨k, scale, significand, step, step / 2, hk, bound, hstep,
      .of_grid positive value next previous least most (by linarith) le_rfl, .inl rfl⟩
  · refine ⟨k, scale, significand, step, step / 2 / 2, hk, bound, hstep,
      .of_grid positive value next previous least most le_rfl (by linarith), .inr ⟨?_, same, ?_⟩⟩
    · rw [hn, same, Nat.succ_mul]
    · ring

/-- `m` numbers the binary64 magnitude that is the finite binary32 magnitude `n`, and not zero. -/
structure Widened (n m : Nat) : Prop where
  nonzero : n ≠ 0
  finite : n < single.size
  target : m < double.size
  same : double.value m = single.value n

namespace Widened

variable {n m : Nat}

theorem ne_zero (widened : Widened n m) : m ≠ 0 := by
  rintro rfl
  have same := widened.same
  rw [double.value_zero, ← single.value_zero] at same
  exact widened.nonzero (single.value_strictMono.injective same.symm)

theorem value_le (widened : Widened n m) : double.value m ≤ 2 ^ 128 := by
  rw [widened.same]
  exact BinaryFormat.value_le widened.finite

theorem reads (widened : Widened n m) : ReadsSingle (double.value m) n := by
  have nearest : single.IsNearest (double.value m) n := by
    rw [widened.same]
    exact BinaryFormat.isNearest_value n
  exact ⟨m, ⟨widened.target, BinaryFormat.isNearest_value m⟩, widened.finite, nearest⟩

end Widened

end Binary64

end JavaClass
