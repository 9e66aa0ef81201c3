import Mathlib.Algebra.Order.Ring.Nat
import Mathlib.Order.Monotone.Basic
import JavaClass.Number.Binary

/-!
Bits of floating-point values. `HasBits` says which value the bits of a format stand for, in terms
of exact magnitudes; reading bits agrees with it, and widening loses nothing.
-/

namespace JavaClass

namespace BinaryFormat

variable {f : BinaryFormat}

/-- The least significand that has its leading bit. -/
def hidden (f : BinaryFormat) : Nat := 2 ^ (f.precision - 1)

theorem units_eq (f : BinaryFormat) (n : Nat) :
    f.units n = if n < f.hidden then n
      else (n % f.hidden + f.hidden) * 2 ^ (n / f.hidden - 1) := by
  simp only [units, Nat.shiftLeft_eq, Nat.one_mul]
  rfl

theorem units_of_lt {n : Nat} (small : n < f.hidden) : f.units n = n := by
  rw [units_eq, if_pos small]

theorem units_normal {scale significand : Nat} (leading : f.hidden ≤ significand)
    (short : significand < 2 * f.hidden) :
    f.units (scale * f.hidden + significand) = significand * 2 ^ scale := by
  obtain ⟨fraction, rfl⟩ := Nat.exists_eq_add_of_le leading
  have positive : 0 < f.hidden := Nat.two_pow_pos _
  have quotient : (scale * f.hidden + (f.hidden + fraction)) / f.hidden = scale + 1 := by
    rw [← Nat.add_assoc, ← Nat.succ_mul, Nat.mul_comm, Nat.mul_add_div positive,
      Nat.div_eq_of_lt (by omega), Nat.add_zero]
  have remainder : (scale * f.hidden + (f.hidden + fraction)) % f.hidden = fraction := by
    rw [← Nat.add_assoc, ← Nat.succ_mul, Nat.mul_comm, Nat.mul_add_mod]
    exact Nat.mod_eq_of_lt (by omega)
  have large : ¬scale * f.hidden + (f.hidden + fraction) < f.hidden := by omega
  rw [units_eq, if_neg large, quotient, remainder, Nat.add_sub_cancel, Nat.add_comm]

theorem exists_normal {n : Nat} (large : f.hidden ≤ n) :
    ∃ scale significand, f.hidden ≤ significand ∧ significand < 2 * f.hidden ∧
      n = scale * f.hidden + significand := by
  have positive : 0 < f.hidden := Nat.two_pow_pos _
  have quotient := (Nat.one_le_div_iff positive).mpr large
  have bound := Nat.mod_lt n positive
  refine ⟨n / f.hidden - 1, f.hidden + n % f.hidden, by omega, by omega, ?_⟩
  have parts := Nat.div_add_mod n f.hidden
  obtain ⟨k, hk⟩ : ∃ k, n / f.hidden = k + 1 := ⟨n / f.hidden - 1, by omega⟩
  rw [hk, Nat.mul_succ, Nat.mul_comm] at parts
  rw [hk, Nat.add_sub_cancel]
  omega

/-- Magnitudes are numbered in ascending order. -/
theorem units_strictMono (f : BinaryFormat) : StrictMono f.units := by
  apply strictMono_nat_of_lt_succ
  intro n
  have positive : 0 < f.hidden := Nat.two_pow_pos _
  by_cases small : n < f.hidden
  · rw [units_of_lt small]
    by_cases next : n + 1 < f.hidden
    · rw [units_of_lt next]
      exact Nat.lt_succ_self n
    · have least : n + 1 = 0 * f.hidden + f.hidden := by omega
      rw [least, units_normal le_rfl (by omega)]
      omega
  · obtain ⟨scale, significand, leading, short, rfl⟩ := exists_normal (Nat.le_of_not_lt small)
    have next : f.units (scale * f.hidden + significand + 1) = (significand + 1) * 2 ^ scale := by
      by_cases last : significand + 1 < 2 * f.hidden
      · exact units_normal (Nat.le_succ_of_le leading) last
      · have carry : scale * f.hidden + significand + 1 = (scale + 1) * f.hidden + f.hidden := by
          rw [Nat.succ_mul]
          omega
        have double : significand + 1 = f.hidden * 2 := by omega
        rw [carry, units_normal le_rfl (by omega), double, Nat.pow_succ, Nat.mul_assoc,
          Nat.mul_comm 2]
    rw [units_normal leading short, next]
    exact Nat.mul_lt_mul_of_pos_right (Nat.lt_succ_self _) (Nat.two_pow_pos _)

theorem roundHalfEven_of_dvd {num den : Nat} (positive : 0 < den) (exact : den ∣ num) :
    roundHalfEven num den = num / den := by
  simp [roundHalfEven, Nat.mod_eq_zero_of_dvd exact, positive]

theorem units_scaled {num scale : Nat} (exact : 2 ^ scale ∣ num)
    (short : num < 2 ^ scale * (2 * f.hidden)) (leading : scale = 0 ∨ 2 ^ scale * f.hidden ≤ num) :
    f.units (scale * f.hidden + num / 2 ^ scale) = num := by
  obtain ⟨significand, rfl⟩ := exact
  have positive := Nat.two_pow_pos scale
  have short := Nat.lt_of_mul_lt_mul_left short
  rw [Nat.mul_div_cancel_left _ positive]
  by_cases small : significand < f.hidden
  · rcases leading with rfl | leading
    · simpa using units_of_lt small
    · exact absurd (Nat.le_of_mul_le_mul_left leading positive) (by omega)
  · rw [units_normal (by omega) short, Nat.mul_comm]

/-- Rounding changes no number whose significant bits fit the format. -/
theorem exists_nearest? {significand scale : Nat} (positive : 0 < f.precision)
    (short : significand < 2 * f.hidden) :
    ∃ n, f.units n = significand * 2 ^ scale ∧
      f.nearest? (significand * 2 ^ scale) 1 = if n < f.size then some n else none := by
  have doubled : 2 ^ f.precision = 2 * f.hidden := by
    rw [hidden, ← Nat.pow_succ']
    congr 1
    omega
  generalize given : significand * 2 ^ scale = num
  have spacing : 2 ^ (Nat.log2 num + 1 - f.precision) ∣ num := by
    by_cases zero : num = 0
    · simp [zero]
    have bound : num < 2 ^ (f.precision + scale) := by
      rw [← given, Nat.pow_add, doubled]
      exact Nat.mul_lt_mul_of_pos_right short (Nat.two_pow_pos _)
    have log := (Nat.log2_lt zero).mpr bound
    exact Nat.dvd_trans (Nat.pow_dvd_pow 2 (by omega)) (Dvd.intro_left significand given)
  have above : num < 2 ^ (Nat.log2 num + 1 - f.precision) * (2 * f.hidden) := by
    rw [← doubled, ← Nat.pow_add]
    exact Nat.lt_of_lt_of_le Nat.lt_log2_self (Nat.pow_le_pow_right (by decide) (by omega))
  have leading : Nat.log2 num + 1 - f.precision = 0 ∨
      2 ^ (Nat.log2 num + 1 - f.precision) * f.hidden ≤ num := by
    by_cases subnormal : Nat.log2 num + 1 - f.precision = 0
    · exact .inl subnormal
    · right
      have nonzero : num ≠ 0 := by
        rintro rfl
        rw [Nat.log2_zero] at subnormal
        omega
      rw [hidden, ← Nat.pow_add]
      refine Nat.le_trans (Nat.pow_le_pow_right (by decide) ?_) (Nat.log2_self_le nonzero)
      omega
  refine ⟨_, units_scaled spacing above leading, ?_⟩
  simp only [nearest?, Nat.div_one, Nat.shiftLeft_eq, Nat.one_mul,
    roundHalfEven_of_dvd (Nat.two_pow_pos _) spacing]
  rfl

/-- Every finite magnitude of the shorter format is one of the longer. -/
theorem exists_widened {n : Nat} (finite : n < single.size) :
    ∃ m, double.nearest? (single.units n * Binary64.singleUnit) 1 = some m ∧ m < double.size ∧
      double.units m = single.units n * Binary64.singleUnit := by
  obtain ⟨significand, scale, short, bound, same⟩ : ∃ significand scale,
      significand < 2 ^ 24 ∧ scale < 254 ∧ single.units n = significand * 2 ^ scale := by
    by_cases small : n < single.hidden
    · exact ⟨n, 0, Nat.lt_trans small (by decide), by decide, by simp [units_of_lt small]⟩
    · obtain ⟨scale, significand, leading, short, rfl⟩ := exists_normal (Nat.le_of_not_lt small)
      refine ⟨significand, scale, short, ?_, units_normal leading short⟩
      change scale * 2 ^ 23 + significand < 255 * 2 ^ 23 at finite
      change 2 ^ 23 ≤ significand at leading
      omega
  have product : single.units n * Binary64.singleUnit = significand * 2 ^ (scale + 925) := by
    rw [same, Nat.mul_assoc, Nat.pow_add, Binary64.singleUnit, Nat.one_shiftLeft,
      show double.unit - single.unit = 925 from rfl]
  obtain ⟨m, exact, nearest⟩ : ∃ m, double.units m = significand * 2 ^ (scale + 925) ∧
      double.nearest? (significand * 2 ^ (scale + 925)) 1 =
        if m < double.size then some m else none :=
    exists_nearest? (by decide) (Nat.lt_trans short (by decide))
  have inside : m < double.size := by
    -- The exponent stays a variable: the powers are too large to be worked out.
    obtain ⟨top, high, last⟩ : ∃ top, 1200 ≤ top ∧
        double.size = top * double.hidden + double.hidden := ⟨2046, by decide, by decide⟩
    apply (units_strictMono double).lt_iff_lt.mp
    rw [exact, last, units_normal le_rfl (by decide)]
    calc significand * 2 ^ (scale + 925)
        < 2 ^ 24 * 2 ^ (scale + 925) := Nat.mul_lt_mul_of_pos_right short (Nat.two_pow_pos _)
      _ ≤ double.hidden * 2 ^ top :=
        Nat.mul_le_mul (by decide) (Nat.pow_le_pow_right (by decide) (by omega))
  rw [product]
  exact ⟨m, by rw [nearest, if_pos inside], inside, exact⟩

end BinaryFormat

namespace Binary64

open BinaryFormat (single double)

/-- The value that bits of a format stand for: a sign bit in front of the number of a magnitude. The
first number past the finite ones is infinity, and all numbers after it are no number. -/
inductive HasBits (f : BinaryFormat) : Binary64 → Nat → Prop
  | finite (negative : Bool) {n m : Nat} (source : n < f.size) (target : m < double.size)
      (same : double.units m * 2 ^ f.unit = f.units n * 2 ^ double.unit) :
      HasBits f (.finite negative m) (negative.toNat * (f.size + f.hidden) + n)
  | infinite (negative : Bool) :
      HasBits f (.infinite negative) (negative.toNat * (f.size + f.hidden) + f.size)
  | nan (negative : Bool) {n : Nat} (past : f.size < n) (bound : n < f.size + f.hidden) :
      HasBits f .nan (negative.toNat * (f.size + f.hidden) + n)

theorem exists_sign {width bits : Nat} (bound : bits < 2 * 2 ^ width) :
    ∃ negative : Bool, ∃ n < 2 ^ width, bits = negative.toNat * 2 ^ width + n ∧
      bits.testBit width = negative ∧ bits % (1 <<< width) = n := by
  have positive := Nat.two_pow_pos width
  simp only [Nat.testBit_eq_decide_div_mod_eq, Nat.one_shiftLeft]
  generalize 2 ^ width = weight at bound positive ⊢
  by_cases high : bits < weight
  · exact ⟨false, bits, high, by simp, by simp [Nat.div_eq_of_lt high], Nat.mod_eq_of_lt high⟩
  · obtain ⟨n, rfl⟩ := Nat.exists_eq_add_of_le (Nat.le_of_not_lt high)
    have low : n < weight := by omega
    refine ⟨true, n, low, by simp, ?_, ?_⟩
    · simp [Nat.add_div_left, positive, Nat.div_eq_of_lt low]
    · simp [Nat.mod_eq_of_lt low]

theorem hasBits_iff {f : BinaryFormat} {value : Binary64} {negative : Bool} {n : Nat}
    (low : n < f.size + f.hidden) :
    HasBits f value (negative.toNat * (f.size + f.hidden) + n) ↔
      (n < f.size ∧ ∃ m < double.size,
        double.units m * 2 ^ f.unit = f.units n * 2 ^ double.unit ∧ value = .finite negative m) ∨
      (n = f.size ∧ value = .infinite negative) ∨ (f.size < n ∧ value = .nan) := by
  have positive : 0 < f.hidden := Nat.two_pow_pos _
  have unique {sign : Bool} {k : Nat} (bound : k < f.size + f.hidden)
      (same : sign.toNat * (f.size + f.hidden) + k = negative.toNat * (f.size + f.hidden) + n) :
      sign = negative ∧ k = n := by
    cases sign <;> cases negative <;> simp at same ⊢ <;> omega
  constructor
  · intro has
    generalize whole : negative.toNat * (f.size + f.hidden) + n = bits at has
    cases has with
    | finite sign source target same =>
      obtain ⟨rfl, rfl⟩ := unique (by omega) whole.symm
      exact .inl ⟨source, _, target, same, rfl⟩
    | infinite sign =>
      obtain ⟨rfl, rfl⟩ := unique (by omega) whole.symm
      exact .inr (.inl ⟨rfl, rfl⟩)
    | nan sign past bound =>
      obtain ⟨rfl, rfl⟩ := unique bound whole.symm
      exact .inr (.inr ⟨past, rfl⟩)
  · rintro (⟨source, m, target, same, rfl⟩ | ⟨rfl, rfl⟩ | ⟨past, rfl⟩)
    · exact .finite negative source target same
    · exact .infinite negative
    · exact .nan negative past low

theorem ofBits_eq_iff {bits : Nat} {value : Binary64} (bound : bits < 2 ^ 64) :
    value = ofBits bits ↔ HasBits double value bits := by
  have weight : double.size + double.hidden = 2 ^ 63 := rfl
  obtain ⟨negative, n, low, split, sign, magnitude⟩ :=
    exists_sign (show bits < 2 * 2 ^ 63 from bound)
  have same {m : Nat} : double.units m * 2 ^ double.unit = double.units n * 2 ^ double.unit ↔
      m = n := by
    rw [Nat.mul_left_inj (Nat.two_pow_pos _).ne']
    exact (BinaryFormat.units_strictMono double).injective.eq_iff
  have has := @hasBits_iff double value negative n (weight ▸ low)
  rw [weight, ← split] at has
  rw [has, ofBits, sign, magnitude]
  simp only [same]
  obtain finite | rfl | past := Nat.lt_trichotomy n double.size
  · simp [finite, finite.ne, finite.not_gt]
  · simp
  · simp [past, past.ne', past.not_gt]

theorem ofSingleBits_eq_iff {bits : Nat} {value : Binary64} (bound : bits < 2 ^ 32) :
    value = ofSingleBits bits ↔ HasBits single value bits := by
  have weight : single.size + single.hidden = 2 ^ 31 := rfl
  obtain ⟨negative, n, low, split, sign, magnitude⟩ :=
    exists_sign (show bits < 2 * 2 ^ 31 from bound)
  have has := @hasBits_iff single value negative n (weight ▸ low)
  rw [weight, ← split] at has
  rw [has, ofSingleBits, sign, magnitude]
  obtain finite | rfl | past := Nat.lt_trichotomy n single.size
  · obtain ⟨widened, nearest, target, exact⟩ := BinaryFormat.exists_widened finite
    have same {m : Nat} : double.units m * 2 ^ single.unit = single.units n * 2 ^ double.unit ↔
        m = widened := by
      have scaled : single.units n * 2 ^ double.unit = double.units widened * 2 ^ single.unit := by
        rw [exact, Nat.mul_assoc, singleUnit, Nat.one_shiftLeft, ← Nat.pow_add,
          Nat.sub_add_cancel (show single.unit ≤ double.unit by decide)]
      rw [scaled, Nat.mul_left_inj (Nat.two_pow_pos _).ne']
      exact (BinaryFormat.units_strictMono double).injective.eq_iff
    simp [same, finite, finite.ne, finite.not_gt, nearest, target]
  · simp
  · simp [past, past.ne', past.not_gt]

end Binary64

end JavaClass
