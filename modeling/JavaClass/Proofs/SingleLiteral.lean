import JavaClass.Proofs.SingleReading

/-!
How many digits a literal in single precision has. Of the decimals with a given number of digits
only the nearest one is tried. Where the magnitudes below are closer than those above, it can lie
too far below while the next decimal above still reads back; a table over the powers of ten shows
where this happens. Main statement: the literal is the shortest but for three magnitudes.
-/

namespace JavaClass

open BinaryFormat (single double)

/-- The power `10 ^ (j - 45)` as a multiple of a small part, of which the steps of binary32 are
multiples too. -/
def tenStep (j : Nat) : Nat := 2 ^ 149 * 10 ^ j

/-- The step of binary32 with this scale, as a multiple of the same part. -/
def twoStep (scale : Nat) : Nat := 2 ^ scale * 10 ^ 45

theorem twoStep_pos (scale : Nat) : 0 < twoStep scale :=
  Nat.mul_pos (Nat.two_pow_pos _) (Nat.pow_pos (by decide))

def smallPart : ℚ := 1 / (2 ^ 149 * 10 ^ 45)

/-- The two steps are equal but for the least bits. -/
def NearlyEqual (scale j : Nat) : Prop :=
  2 ^ 26 * twoStep scale ≤ 2 ^ 26 * tenStep j + twoStep scale ∧
    2 ^ 26 * tenStep j ≤ 2 ^ 26 * twoStep scale + twoStep scale

/-- Of the multiples of a power of ten around `2 ^ 23` steps, the one below is nearer, but farther
than a quarter of a step, and the one above is within half a step. -/
def Straddles (scale j : Nat) : Prop :=
  2 ^ 25 * twoStep scale ≤ 2 ^ 27 * (2 ^ 23 * twoStep scale % tenStep j) + twoStep scale ∧
    2 * (2 ^ 23 * twoStep scale % tenStep j) ≤ tenStep j ∧
    2 ^ 27 * tenStep j ≤
      2 ^ 27 * (2 ^ 23 * twoStep scale % tenStep j) + 2 ^ 26 * twoStep scale + twoStep scale

instance (scale j : Nat) : Decidable (NearlyEqual scale j) := inferInstanceAs (Decidable (_ ∧ _))

instance (scale j : Nat) : Decidable (Straddles scale j) := inferInstanceAs (Decidable (_ ∧ _ ∧ _))

/-- A power of ten is near to the steps of two scales at most. -/
theorem exists_scale_eq {scale j : Nat} (low : twoStep scale ≤ 3 * tenStep j)
    (high : 3 * tenStep j < 4 * twoStep scale) :
    ∃ d < 2, scale = Nat.log2 (3 * tenStep j / 10 ^ 45) - d := by
  obtain ⟨ratio, same⟩ : ∃ ratio, ratio = 3 * tenStep j / 10 ^ 45 := ⟨_, rfl⟩
  have least : 2 ^ scale ≤ ratio := by
    rw [same]
    exact (Nat.le_div_iff_mul_le (by decide)).mpr low
  have most : ratio < 2 ^ (scale + 2) := by
    rw [same, Nat.div_lt_iff_lt_mul (by decide), Nat.pow_add]
    unfold twoStep at high
    omega
  have positive := Nat.two_pow_pos scale
  have floor : scale ≤ Nat.log2 ratio := (Nat.le_log2 (by omega)).mpr least
  have ceiling : Nat.log2 ratio < scale + 2 := (Nat.log2_lt (by omega)).mpr most
  rw [← same]
  exact ⟨Nat.log2 ratio - scale, by omega, by omega⟩

/-- No power of ten but one itself is nearly a power of two. -/
theorem NearlyEqual.eq {scale j : Nat} (near : NearlyEqual scale j) (bound : j < 84) :
    tenStep j = twoStep scale := by
  have table : ∀ j < 84, ∀ d < 2, NearlyEqual (Nat.log2 (3 * tenStep j / 10 ^ 45) - d) j →
      tenStep j = twoStep (Nat.log2 (3 * tenStep j / 10 ^ 45) - d) := by
    decide +kernel
  obtain ⟨low, high⟩ := near
  have positive := twoStep_pos scale
  obtain ⟨d, hd, rfl⟩ := exists_scale_eq (show twoStep scale ≤ 3 * tenStep j by omega) (by omega)
  exact table j bound d hd ⟨low, high⟩

theorem Straddles.scale_mem {scale j : Nat} (straddles : Straddles scale j) (bound : j < 84) :
    scale ∈ [30, 213, 216] := by
  have table : ∀ j < 84, ∀ d < 2, Straddles (Nat.log2 (3 * tenStep j / 10 ^ 45) - d) j →
      Nat.log2 (3 * tenStep j / 10 ^ 45) - d ∈ [30, 213, 216] := by
    decide +kernel
  obtain ⟨near, half, far⟩ := straddles
  have positive := twoStep_pos scale
  obtain ⟨d, hd, rfl⟩ := exists_scale_eq (show twoStep scale ≤ 3 * tenStep j by omega) (by omega)
  exact table j bound d hd ⟨near, half, far⟩

theorem ten_zpow_eq (j : Nat) : (10 : ℚ) ^ ((j : Int) - 45) = tenStep j * smallPart := by
  rw [tenStep, smallPart, zpow_sub₀ (by norm_num), zpow_natCast]
  push_cast
  field_simp
  norm_cast

theorem step_eq (scale : Nat) : (2 : ℚ) ^ scale / 2 ^ single.unit = twoStep scale * smallPart := by
  have unit : single.unit = 149 := rfl
  rw [twoStep, smallPart, unit]
  push_cast
  field_simp
  norm_num

theorem smallPart_pos : 0 < smallPart := by
  unfold smallPart
  positivity

/-- Of the two multiples of `ten` around `v` the nearer is past the limit on its side, and the other
within that on the other side, but for the least bits. -/
def Misses (v step reach ten : ℚ) (whole : Nat) : Prop :=
  reach - step / 2 ^ 27 ≤ v - whole * ten ∧ v - whole * ten ≤ (whole + 1) * ten - v ∧
      (whole + 1) * ten - v ≤ step / 2 + step / 2 ^ 27 ∨
    step / 2 - step / 2 ^ 27 ≤ (whole + 1) * ten - v ∧ (whole + 1) * ten - v ≤ v - whole * ten ∧
      v - whole * ten ≤ reach + step / 2 ^ 27

namespace Misses

variable {v step reach ten : ℚ} {whole scale j : Nat}

/-- The multiples lie on either side of `v`, and their distance is about a step. -/
theorem bounds (misses : Misses v step reach ten whole) (positive : 0 < step)
    (quarter : step / 4 ≤ reach) (half : reach ≤ step / 2) :
    whole * ten < v ∧ v < (whole + 1) * ten ∧ step / 4 ≤ ten ∧ ten ≤ 2 * step := by
  have split : ((whole : ℚ) + 1) * ten = whole * ten + ten := by ring
  unfold Misses at misses
  rw [split] at misses ⊢
  obtain ⟨near, order, far⟩ | ⟨near, order, far⟩ := misses
  · exact ⟨by linarith, by linarith, by linarith, by linarith⟩
  · exact ⟨by linarith, by linarith, by linarith, by linarith⟩

theorem nearlyEqual (misses : Misses v step reach ten whole) (equal : reach = step / 2)
    (hstep : step = twoStep scale * smallPart) (hten : ten = tenStep j * smallPart) :
    NearlyEqual scale j := by
  have near : 2 ^ 26 * step ≤ 2 ^ 26 * ten + step ∧ 2 ^ 26 * ten ≤ 2 ^ 26 * step + step := by
    have split : ((whole : ℚ) + 1) * ten = whole * ten + ten := by ring
    unfold Misses at misses
    rw [split, equal] at misses
    obtain ⟨near, order, far⟩ | ⟨near, order, far⟩ := misses
    · constructor <;> linarith
    · constructor <;> linarith
  rw [hstep, hten] at near
  simp only [← mul_assoc, ← add_mul] at near
  obtain ⟨low, high⟩ := near
  constructor
  · exact_mod_cast le_of_mul_le_mul_right low smallPart_pos
  · exact_mod_cast le_of_mul_le_mul_right high smallPart_pos

theorem straddles (misses : Misses v step reach ten whole) (positive : 0 < step)
    (quarter : reach = step / 4) (value : v = 2 ^ 23 * step)
    (hstep : step = twoStep scale * smallPart) (hten : ten = tenStep j * smallPart) :
    Straddles scale j := by
  obtain ⟨floor, ceiling, -⟩ := misses.bounds positive quarter.ge (by linarith)
  have place : 2 ^ 25 * step ≤ 2 ^ 27 * (v - whole * ten) + step ∧ 2 * (v - whole * ten) ≤ ten ∧
      2 ^ 27 * ten ≤ 2 ^ 27 * (v - whole * ten) + 2 ^ 26 * step + step := by
    have split : ((whole : ℚ) + 1) * ten = whole * ten + ten := by ring
    unfold Misses at misses
    rw [split, quarter] at misses
    obtain ⟨near, order, far⟩ | ⟨near, order, far⟩ := misses
    · exact ⟨by linarith, by linarith, by linarith⟩
    · linarith
  rw [value, hstep, hten, ← mul_assoc, ← mul_assoc] at floor ceiling
  have floor : whole * tenStep j ≤ 2 ^ 23 * twoStep scale := by
    exact_mod_cast (lt_of_mul_lt_mul_right floor smallPart_pos.le).le
  have ceiling : 2 ^ 23 * twoStep scale < (whole + 1) * tenStep j := by
    exact_mod_cast lt_of_mul_lt_mul_right ceiling smallPart_pos.le
  obtain ⟨rest, split⟩ := Nat.exists_eq_add_of_le floor
  have remainder : 2 ^ 23 * twoStep scale % tenStep j = rest := by
    rw [Nat.succ_mul, split] at ceiling
    rw [split, Nat.mul_add_mod_self_right, Nat.mod_eq_of_lt (Nat.lt_of_add_lt_add_left ceiling)]
  have distance : v - whole * ten = rest * smallPart := by
    have cast : (2 ^ 23 * twoStep scale : ℚ) = whole * tenStep j + rest := by exact_mod_cast split
    rw [value, hstep, hten, ← mul_assoc, cast]
    ring
  rw [distance, hstep, hten] at place
  simp only [← mul_assoc, ← add_mul] at place
  obtain ⟨near, order, far⟩ := place
  unfold Straddles
  rw [remainder]
  refine ⟨?_, ?_, ?_⟩
  · exact_mod_cast le_of_mul_le_mul_right near smallPart_pos
  · exact_mod_cast le_of_mul_le_mul_right order smallPart_pos
  · exact_mod_cast le_of_mul_le_mul_right far smallPart_pos

end Misses

namespace Decimal

/-- A decimal of so many digits is read as the magnitude, but not the nearest one. -/
theorem misses_of_missed {k m : Nat} {exponent : Int} {v step reach : ℚ}
    (limits : Binary64.Limits k v step reach) (finite : k + 1 < single.size)
    (same : double.value m = v) {digits : Nat}
    (neighbour : digits = wholeSteps m exponent ∨ digits = wholeSteps m exponent + 1)
    (reads : Binary64.ReadsSingle (digits * 10 ^ exponent) (k + 1))
    (missed : ¬Binary64.ReadsSingle (nearestSteps m exponent * 10 ^ exponent) (k + 1)) :
    Misses v step reach (10 ^ exponent) (wholeSteps m exponent) := by
  obtain ⟨floor, ceiling⟩ := wholeSteps_le m exponent
  obtain ⟨-, notBelow, notAbove⟩ := abs_nearestSteps_le m exponent
  rw [same] at floor ceiling notBelow notAbove
  have below : |(wholeSteps m exponent : ℚ) * 10 ^ exponent - v| =
      v - wholeSteps m exponent * 10 ^ exponent := by
    rw [abs_sub_comm, abs_of_nonneg (by linarith)]
  have above : |((wholeSteps m exponent : ℚ) + 1) * 10 ^ exponent - v| =
      (wholeSteps m exponent + 1) * 10 ^ exponent - v := abs_of_nonneg (by linarith)
  have positive := limits.step_pos
  have quarter := limits.le_reach
  obtain nearest | nearest := nearestSteps_eq m exponent
  · left
    rw [nearest] at missed notAbove
    obtain rfl | rfl := neighbour
    · exact absurd reads missed
    push_cast at reads
    have high := (limits.bounds_of_reads reads).2
    have low : ¬v - reach + step / 2 ^ 27 < wholeSteps m exponent * 10 ^ exponent := by
      intro low
      exact missed (limits.reads_of_bounds finite low (by linarith))
    rw [below, above] at notAbove
    exact ⟨by linarith, notAbove, by linarith⟩
  · right
    rw [nearest] at missed notBelow
    obtain rfl | rfl := neighbour
    · push_cast at missed notBelow
      have low := (limits.bounds_of_reads reads).1
      have high : ¬(wholeSteps m exponent + 1) * 10 ^ exponent < v + step / 2 - step / 2 ^ 27 := by
        intro high
        exact missed (limits.reads_of_bounds finite (by linarith) high)
      rw [below, above] at notBelow
      exact ⟨by linarith, notBelow, by linarith⟩
    · exact absurd reads missed

theorem exponent_bounds {exponent : Int} (low : 1 / 2 ^ 151 ≤ (10 : ℚ) ^ exponent)
    (high : (10 : ℚ) ^ exponent ≤ 2 ^ 107) : ∃ j < 84, exponent = (j : Nat) - 45 := by
  have lower : -46 < exponent := by
    rw [← zpow_lt_zpow_iff_right₀ (by norm_num : (1 : ℚ) < 10)]
    exact lt_of_lt_of_le (by norm_num) low
  have upper : exponent < 39 := by
    rw [← zpow_lt_zpow_iff_right₀ (by norm_num : (1 : ℚ) < 10)]
    exact lt_of_le_of_lt high (by norm_num)
  exact ⟨(exponent + 45).toNat, by omega, by omega⟩

/-- The magnitudes `2 ^ (-96)`, `2 ^ 87` and `2 ^ 90`. -/
def lopsided : List Nat := [0x0F800000, 0x6B000000, 0x6C800000]

theorem mem_lopsided_of_missed {n m : Nat} {exponent : Int} (widened : Binary64.Widened n m)
    {digits : Nat}
    (neighbour : digits = wholeSteps m exponent ∨ digits = wholeSteps m exponent + 1)
    (reads : Binary64.ReadsSingle (digits * 10 ^ exponent) n)
    (missed : ¬Binary64.ReadsSingle (nearestSteps m exponent * 10 ^ exponent) n) :
    n ∈ lopsided := by
  obtain ⟨k, scale, significand, step, reach, rfl, bound, hstep, limits, shape⟩ :=
    Binary64.exists_limits widened.nonzero widened.finite
  have misses := misses_of_missed limits widened.finite (widened.same.trans limits.value_eq)
    neighbour reads missed
  obtain ⟨floor, ceiling, low, high⟩ :=
    misses.bounds limits.step_pos limits.le_reach limits.reach_le
  have range : 1 / 2 ^ 149 ≤ step ∧ step ≤ 2 ^ 106 := by
    have unit : single.unit = 149 := rfl
    have least : (1 : ℚ) ≤ 2 ^ scale := one_le_pow₀ (by norm_num)
    have most : (2 : ℚ) ^ scale ≤ 2 ^ 255 := pow_le_pow_right₀ (by norm_num) bound.le
    rw [hstep, unit]
    constructor
    · exact div_le_div_of_nonneg_right least (by positivity)
    · rw [div_le_iff₀ (by positivity)]
      exact le_trans most (by norm_num)
  obtain ⟨j, small, rfl⟩ : ∃ j < 84, exponent = (j : Nat) - 45 := by
    apply exponent_bounds
    · linarith
    · linarith
  have hstep := hstep.trans (step_eq scale)
  have hten := ten_zpow_eq j
  obtain equal | ⟨number, rfl, quarter⟩ := shape
  -- Steps of ten and of the format are equal, and no multiples lie around one of them.
  · exfalso
    have equal := (misses.nearlyEqual equal hstep hten).eq small
    have steps : (10 : ℚ) ^ ((j : Int) - 45) = step := by rw [hten, hstep, equal]
    rw [steps] at floor ceiling
    generalize wholeSteps m ((j : Int) - 45) = whole at floor ceiling
    have above : whole < significand := by
      exact_mod_cast lt_of_mul_lt_mul_right floor limits.step_pos.le
    have below : significand < whole + 1 := by
      exact_mod_cast lt_of_mul_lt_mul_right ceiling limits.step_pos.le
    omega
  · have value : (single.hidden : ℚ) * step = 2 ^ 23 * step := by
      have hidden : (single.hidden : ℚ) = 2 ^ 23 := by exact_mod_cast rfl
      rw [hidden]
    have scales := (misses.straddles limits.step_pos quarter value hstep hten).scale_mem small
    rw [number]
    have numbers : ∀ scale ∈ [30, 213, 216], (scale + 1) * single.hidden ∈ lopsided := by
      decide
    exact numbers scale scales

theorem ofMagnitude_eq (count m : Nat) : ofMagnitude count m =
    ⟨nearestSteps m (lastExponent count m), lastExponent count m⟩ := by
  rw [ofMagnitude, nearestSteps, lastExponent]

theorem value_ofMagnitude (count m : Nat) : (ofMagnitude count m).value =
    nearestSteps m (lastExponent count m) * 10 ^ lastExponent count m := by
  rw [ofMagnitude_eq, value]

theorem ofMagnitude_mem_neighbours (count m : Nat) : ofMagnitude count m ∈ neighbours count m := by
  rw [mem_neighbours, ofMagnitude_eq]
  simp only [true_and]
  exact nearestSteps_eq m (lastExponent count m)

/-- The nearest decimal differs in the last digit at most. -/
theorem abs_ofMagnitude_le (count : Nat) {m : Nat} (nonzero : m ≠ 0) :
    |(ofMagnitude (count + 1) m).value - double.value m| * (2 * 10 ^ count) ≤ double.value m := by
  obtain ⟨close, -⟩ := abs_nearestSteps_le m (lastExponent (count + 1) m)
  obtain ⟨leading, -⟩ := leadingExponent_bounds nonzero
  have first : leadingExponent m = lastExponent (count + 1) m + count := by
    rw [lastExponent]
    push_cast
    ring
  rw [first, zpow_add₀ (by norm_num), zpow_natCast] at leading
  rw [value_ofMagnitude]
  calc _ ≤ 10 ^ lastExponent (count + 1) m / 2 * (2 * 10 ^ count) :=
        mul_le_mul_of_nonneg_right close (by positivity)
    _ = 10 ^ lastExponent (count + 1) m * 10 ^ count := by ring
    _ ≤ double.value m := leading

/-- Nine digits suffice. -/
theorem readsSingle_nine {n m : Nat} (widened : Binary64.Widened n m) :
    Binary64.ReadsSingle (ofMagnitude 9 m).value n := by
  obtain ⟨k, scale, significand, step, reach, rfl, -, -, limits, -⟩ :=
    Binary64.exists_limits widened.nonzero widened.finite
  have close := abs_ofMagnitude_le 8 widened.ne_zero
  rw [widened.same, limits.value_eq] at close
  have step_pos := limits.step_pos
  have near : |(ofMagnitude 9 m).value - significand * step| ≤ step / 8 := by
    linarith [limits.lt_step]
  obtain ⟨below, above⟩ := abs_le.mp near
  apply limits.reads_of_bounds widened.finite
  · linarith [limits.le_reach]
  · linarith

theorem roundsTo_rounded {count n m : Nat} (widened : Binary64.Widened n m) (positive : 0 < count) :
    double.RoundsTo (ofMagnitude count m).value (Binary64.rounded count m) := by
  obtain ⟨count, rfl⟩ : ∃ less, count = less + 1 := ⟨count - 1, by omega⟩
  have close := abs_ofMagnitude_le count widened.ne_zero
  have digits : (1 : ℚ) ≤ 10 ^ count := one_le_pow₀ (by norm_num)
  have most : (ofMagnitude (count + 1) m).value ≤ 2 ^ 129 := by
    have distance := abs_nonneg ((ofMagnitude (count + 1) m).value - double.value m)
    have above := le_abs_self ((ofMagnitude (count + 1) m).value - double.value m)
    nlinarith [widened.value_le]
  obtain ⟨c, rounds⟩ := BinaryFormat.exists_roundsTo (value_nonneg _) most
  rw [Binary64.rounded, if_neg widened.ne_zero, read?_eq_some_iff.mpr rounds]
  exact rounds

end Decimal

namespace Binary64

variable {n m candidate : Nat}

theorem narrow?_rounded_iff {count : Nat} (widened : Widened n m) (positive : 0 < count) :
    narrow? (rounded count m) = some n ↔ ReadsSingle (Decimal.ofMagnitude count m).value n := by
  have rounds := Decimal.roundsTo_rounded widened positive
  rw [narrow?_eq_some_iff]
  constructor
  · intro narrows
    exact ⟨_, rounds, narrows⟩
  · rintro ⟨c, other, narrows⟩
    rwa [rounds.unique other]

/-- The candidate is that of the fewest digits whose nearest decimal is read as the magnitude. -/
theorem exists_count (widened : Widened n m)
    (chosen : singleCandidate m n [1, 2, 3, 4, 5, 6, 7, 8, 9] = .ok candidate) :
    ∃ count, 0 < count ∧ count ≤ 9 ∧ candidate = rounded count m ∧
      ReadsSingle (Decimal.ofMagnitude count m).value n ∧
      ∀ b, 0 < b → b < count → ¬ReadsSingle (Decimal.ofMagnitude b m).value n := by
  have counts {b : Nat} : b ∈ [1, 2, 3, 4, 5, 6, 7, 8, 9] ↔ 0 < b ∧ b ≤ 9 := by
    simp only [List.mem_cons, List.not_mem_nil, or_false]
    omega
  obtain ⟨-, none⟩ | ⟨count, inside, taken, narrows, none⟩ :=
    singleCandidate_cases (by decide) chosen
  · have nine := (narrow?_rounded_iff widened (by decide)).mpr (Decimal.readsSingle_nine widened)
    exact absurd nine (none 9 (by decide))
  · obtain ⟨least, most⟩ := counts.mp inside
    refine ⟨count, least, most, taken, ?_, ?_⟩
    · rw [taken] at narrows
      exact (narrow?_rounded_iff widened least).mp narrows
    · intro b some less reads
      exact none b (counts.mpr ⟨some, by omega⟩) less ((narrow?_rounded_iff widened some).mpr reads)

theorem ReadsSingle.ne_zero {x : ℚ} (reads : ReadsSingle x n) (nonzero : n ≠ 0)
    (rounds : double.RoundsTo x m) : m ≠ 0 := by
  obtain ⟨c, other, narrows⟩ := reads
  rw [rounds.unique other]
  rintro rfl
  rw [double.value_zero, ← single.value_zero] at narrows
  exact nonzero (narrows.2.unique (BinaryFormat.isNearest_value 0))

theorem significantDigits_rounded_le {count : Nat} (widened : Widened n m) (least : 0 < count)
    (most : count ≤ 9) (reads : ReadsSingle (Decimal.ofMagnitude count m).value n) :
    (Decimal.shortest (rounded count m)).significantDigits ≤ count := by
  have rounds := Decimal.roundsTo_rounded widened least
  have short := Decimal.significantDigits_neighbour widened.ne_zero least
    (Decimal.ofMagnitude_mem_neighbours count m)
  have shortest := Decimal.significantDigits_shortest_le (reads.ne_zero widened.nonzero rounds)
    rounds.1 (Decimal.read?_eq_some_iff.mpr rounds) (by omega)
  exact le_trans shortest short

theorem candidate_spec (widened : Widened n m)
    (chosen : singleCandidate m n [1, 2, 3, 4, 5, 6, 7, 8, 9] = .ok candidate) :
    candidate ≠ 0 ∧ candidate < double.size ∧ single.RoundsTo (double.value candidate) n ∧
      (Decimal.shortest candidate).significantDigits ≤ 9 := by
  obtain ⟨count, least, most, rfl, reads, -⟩ := exists_count widened chosen
  have rounds := Decimal.roundsTo_rounded widened least
  have short := significantDigits_rounded_le widened least most reads
  have narrows := narrow?_eq_some_iff.mp ((narrow?_rounded_iff widened least).mpr reads)
  exact ⟨reads.ne_zero widened.nonzero rounds, rounds.1, narrows, le_trans short most⟩

/-- Where a decimal has fewer digits than the candidate, the nearest one of so many digits was
missed. -/
theorem mem_lopsided_of_shorter (widened : Widened n m)
    (chosen : singleCandidate m n [1, 2, 3, 4, 5, 6, 7, 8, 9] = .ok candidate) {d : Decimal}
    (reads : ReadsSingle d.value n)
    (shorter : d.significantDigits < (Decimal.shortest candidate).significantDigits) :
    n ∈ Decimal.lopsided := by
  obtain ⟨count, least, most, rfl, narrows, none⟩ := exists_count widened chosen
  have short := significantDigits_rounded_le widened least most narrows
  have digits : 0 < d.significantDigits := by
    obtain ⟨c, rounds, -⟩ := id reads
    exact Decimal.significantDigits_pos (reads.ne_zero widened.nonzero rounds) rounds
  obtain ⟨e, inside, neighbour⟩ := Decimal.exists_neighbour (p := fun x => ReadsSingle x n)
    widened.ne_zero digits le_rfl reads widened.reads
    fun x y z nonneg low high hx hz => hx.between nonneg low high hz
  obtain ⟨exponent, number⟩ := Decimal.mem_neighbours.mp inside
  have missed := none d.significantDigits digits (by omega)
  rw [Decimal.value_ofMagnitude] at missed
  rw [Decimal.value, exponent] at neighbour
  exact Decimal.mem_lopsided_of_missed widened number neighbour missed

theorem value_eq_iff :
    double.value m = single.value n ↔ double.units m = single.units n * singleUnit := by
  -- The ratio stays a variable: the power is too large to be worked out.
  obtain ⟨ratio, same⟩ : ∃ ratio, ratio = singleUnit := ⟨_, rfl⟩
  have power : ratio = 2 ^ (double.unit - single.unit) := by
    rw [same, singleUnit, Nat.one_shiftLeft]
  have unit : (2 : ℚ) ^ double.unit = ratio * 2 ^ single.unit := by
    rw [power]
    push_cast
    rw [← pow_add, Nat.sub_add_cancel (by decide)]
  have positive : (ratio : ℚ) ≠ 0 := by
    rw [power]
    exact_mod_cast (Nat.two_pow_pos _).ne'
  have unitPos : (2 : ℚ) ^ single.unit ≠ 0 := by positivity
  rw [← same, BinaryFormat.value, BinaryFormat.value, unit]
  generalize (2 : ℚ) ^ single.unit = part at unitPos ⊢
  rw [div_eq_div_iff (mul_ne_zero positive unitPos) unitPos, ← mul_assoc, mul_left_inj' unitPos,
    ← Nat.cast_mul, Nat.cast_inj]

/-- For the three magnitudes, a decimal of eight digits is read as them, and their literals have
nine. -/
theorem exists_shorter_of_mem_lopsided (special : n ∈ Decimal.lopsided) (widened : Widened n m)
    (chosen : singleCandidate m n [1, 2, 3, 4, 5, 6, 7, 8, 9] = .ok candidate) :
    ∃ d : Decimal, ReadsSingle d.value n ∧
      d.significantDigits < (Decimal.shortest candidate).significantDigits := by
  have row {M c : Nat} {d : Decimal} (units : double.units M = single.units n * singleUnit)
      (taken : singleCandidate M n [1, 2, 3, 4, 5, 6, 7, 8, 9] = .ok c)
      (reads : d.read?.bind narrow? = some n)
      (shorter : d.significantDigits < (Decimal.shortest c).significantDigits) :
      ∃ d : Decimal, ReadsSingle d.value n ∧
        d.significantDigits < (Decimal.shortest candidate).significantDigits := by
    obtain rfl : M = m :=
      double.value_strictMono.injective ((value_eq_iff.mpr units).trans widened.same.symm)
    obtain rfl : c = candidate := Except.ok.inj (taken.symm.trans chosen)
    exact ⟨d, readsSingle_iff.mp reads, shorter⟩
  have numbers : n = 0x0F800000 ∨ n = 0x6B000000 ∨ n = 0x6C800000 := by
    simpa [Decimal.lopsided] using special
  obtain rfl | rfl | rfl := numbers
  · exact row (M := 0x39F0000000000000) (c := 0x39F000000059A334) (d := ⟨12621775, -36⟩)
      (by decide +kernel) (by decide +kernel) (by decide +kernel) (by decide +kernel)
  · exact row (M := 0x4560000000000000) (c := 0x456000000027AB5B) (d := ⟨15474251, 19⟩)
      (by decide +kernel) (by decide +kernel) (by decide +kernel) (by decide +kernel)
  · exact row (M := 0x4590000000000000) (c := 0x459000000027AB5B) (d := ⟨12379401, 20⟩)
      (by decide +kernel) (by decide +kernel) (by decide +kernel) (by decide +kernel)

end Binary64

namespace Numeral

/-- The numeral is read as a binary64 value which, packed into binary32, has these bits. -/
def ReadsBack (k : Numeral) (bits : Nat) : Prop :=
  ∃ value, Binary64.ReadsAs k.text value ∧ Binary64.PacksTo value bits

theorem readsBack_iff {k : Numeral} {negative : Bool} {n : Nat} (low : n < 2 ^ 31) :
    k.ReadsBack (negative.toNat * 2 ^ 31 + n) ↔
      k.negative = negative ∧ Binary64.ReadsSingle k.decimal.value n := by
  constructor
  · rintro ⟨value, ⟨other, text, m, rounds, rfl⟩, sign, _, ⟨⟩, l, narrows, same⟩
    obtain rfl := text_injective text
    have small : l < 2 ^ 31 := lt_trans narrows.1 (by decide)
    have parts : other.negative = negative ∧ l = n := by
      generalize other.negative = sign at same
      cases sign <;> cases negative <;> simp at same ⊢ <;> omega
    exact ⟨parts.1, m, rounds, parts.2 ▸ narrows⟩
  · rintro ⟨rfl, m, rounds, narrows⟩
    exact ⟨_, ⟨k, rfl, m, rounds, rfl⟩, _, _, rfl, n, narrows, rfl⟩

end Numeral

namespace Binary64

theorem exists_widened_of_bits {bits magnitude : Nat} {negative : Bool} (bound : bits < 2 ^ 32)
    (value : ofSingleBits bits = .finite negative magnitude) (nonzero : magnitude ≠ 0) :
    ∃ n, bits = negative.toNat * 2 ^ 31 + n ∧ Widened n magnitude := by
  have has := (ofSingleBits_eq_iff bound).mp value.symm
  generalize whole : Binary64.finite negative magnitude = finite at has
  cases has with
  | @finite sign n m source target units =>
    cases whole
    have same : double.value magnitude = single.value n := by
      rw [BinaryFormat.value, BinaryFormat.value, div_eq_div_iff (by positivity) (by positivity)]
      exact_mod_cast units
    refine ⟨n, rfl, ?_, source, target, same⟩
    rintro rfl
    rw [single.value_zero, ← double.value_zero] at same
    exact nonzero (double.value_strictMono.injective same)
  | infinite sign => cases whole
  | nan sign past bound => cases whole

/-- The literal of a binary32 value reads back and has nine digits at most. It is the shortest that
reads back, except for three magnitudes and their negatives. -/
theorem singleLiteral_shortest_iff {bits magnitude : Nat} {negative : Bool} {text : String}
    (bound : bits < 2 ^ 32) (value : ofSingleBits bits = .finite negative magnitude)
    (nonzero : magnitude ≠ 0) (written : singleLiteral (.finite negative magnitude) = .ok text) :
    ∃ k : Numeral, k.text = text ∧ k.ReadsBack bits ∧ k.decimal.significantDigits ≤ 9 ∧
      ((∃ other : Numeral, other.ReadsBack bits ∧
          other.decimal.significantDigits < k.decimal.significantDigits) ↔
        bits % 2 ^ 31 ∈ Decimal.lopsided) := by
  obtain ⟨n, rfl, widened⟩ := exists_widened_of_bits bound value nonzero
  have low : n < 2 ^ 31 := lt_trans widened.finite (by decide)
  have remainder : (negative.toNat * 2 ^ 31 + n) % 2 ^ 31 = n := by
    rw [Nat.mul_add_mod_self_right, Nat.mod_eq_of_lt low]
  obtain ⟨other, candidate, narrowed, chosen, rfl⟩ := exists_of_singleLiteral written
  obtain rfl : n = other := by
    have rounds := narrow?_eq_some_iff.mp narrowed
    rw [widened.same] at rounds
    exact (BinaryFormat.isNearest_value n).unique rounds.2
  obtain ⟨positive, inside, narrows, nine⟩ := candidate_spec widened chosen
  obtain ⟨k, sign, text, digits⟩ := Decimal.exists_numeral (Decimal.shortest candidate) negative
  have significant := Decimal.significantDigits_eq_of_value digits
  rw [remainder]
  refine ⟨k, ?_, ?_, significant.trans_le nine, ?_, ?_⟩
  · unfold finiteLiteral
    dsimp only
    rw [if_neg positive, text]
  · rw [Numeral.readsBack_iff low, digits]
    exact ⟨sign, candidate, Decimal.roundsTo_shortest inside, narrows⟩
  · rintro ⟨other, back, shorter⟩
    have reads := ((Numeral.readsBack_iff low).mp back).2
    rw [significant] at shorter
    exact mem_lopsided_of_shorter widened chosen reads shorter
  · intro special
    obtain ⟨d, reads, shorter⟩ := exists_shorter_of_mem_lopsided special widened chosen
    obtain ⟨other, signOther, -, denotes⟩ := Decimal.exists_numeral d negative
    refine ⟨other, ?_, ?_⟩
    · rw [Numeral.readsBack_iff low, denotes]
      exact ⟨signOther, reads⟩
    · rwa [significant, Decimal.significantDigits_eq_of_value denotes]

/-- A tenth has one digit, and no numeral without any reads back as it. -/
theorem singleLiteral_shortest_iff_tenth :
    singleLiteral (ofSingleBits 0x3DCCCCCD) = .ok "0.1" ∧
      ∃ k : Numeral, k.text = "0.1" ∧ k.ReadsBack 0x3DCCCCCD ∧ k.decimal.significantDigits ≤ 9 ∧
        ((∃ other : Numeral, other.ReadsBack 0x3DCCCCCD ∧
            other.decimal.significantDigits < k.decimal.significantDigits) ↔
          0x3DCCCCCD % 2 ^ 31 ∈ Decimal.lopsided) := by
  have value : ofSingleBits 0x3DCCCCCD = .finite false 0x3FB99999A0000000 := by decide +kernel
  have written : singleLiteral (.finite false 0x3FB99999A0000000) = .ok "0.1" := by decide +kernel
  exact ⟨value ▸ written, singleLiteral_shortest_iff (by decide) value (by decide) written⟩

/-- The literal of `2 ^ (-96)` has nine digits, though one with eight reads back. -/
theorem singleLiteral_not_shortest :
    ∃ k other : Numeral, singleLiteral (ofSingleBits 0x0F800000) = .ok k.text ∧
      k.text = "1.26217745E-29" ∧ other.text = "1.2621775E-29" ∧
      k.ReadsBack 0x0F800000 ∧ other.ReadsBack 0x0F800000 ∧
      other.decimal.significantDigits < k.decimal.significantDigits := by
  have number : 0x0F800000 = false.toNat * 2 ^ 31 + 0x0F800000 := by decide
  refine ⟨⟨false, ['1'], ['2', '6', '2', '1', '7', '7', '4', '5'], some (-29),
      List.all_eq_true.mp rfl, List.all_eq_true.mp rfl, by decide, by decide⟩,
    ⟨false, ['1'], ['2', '6', '2', '1', '7', '7', '5'], some (-29),
      List.all_eq_true.mp rfl, List.all_eq_true.mp rfl, by decide, by decide⟩,
    by decide +kernel, by decide +kernel, by decide +kernel, ?_, ?_, by decide +kernel⟩
  · rw [number, Numeral.readsBack_iff (by decide), ← readsSingle_iff]
    exact ⟨rfl, by decide +kernel⟩
  · rw [number, Numeral.readsBack_iff (by decide), ← readsSingle_iff]
    exact ⟨rfl, by decide +kernel⟩

end Binary64

end JavaClass
