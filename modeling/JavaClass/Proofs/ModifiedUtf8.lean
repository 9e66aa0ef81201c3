import Mathlib.Data.List.Chain
import Mathlib.Data.Set.Operations
import Mathlib.Tactic.SplitIfs
import JavaClass.Text.ModifiedUtf8

/-!
Encoding and decoding text. Decoding gives back every text that can come out of it, which are the
texts in which no high surrogate stands before a low one, and a byte that begins nothing damages
none of the text around it.
-/

namespace JavaClass

namespace CodePoint

theorem value_ofNat {n : Nat} (valid : n < 0x110000) : (ofNat n).value = n := by
  simp [ofNat, valid]

theorem ofNat_value (c : CodePoint) : ofNat c.value = c := by
  simp [ofNat, c.valid]

protected theorem ext {c d : CodePoint} (same : c.value = d.value) : c = d := by
  cases c
  cases d
  simpa using same

theorem isHighSurrogate_iff {c : CodePoint} :
    c.isHighSurrogate = true ↔ 0xD800 ≤ c.value ∧ c.value ≤ 0xDBFF := by
  simp [isHighSurrogate]

theorem isLowSurrogate_iff {c : CodePoint} :
    c.isLowSurrogate = true ↔ 0xDC00 ≤ c.value ∧ c.value ≤ 0xDFFF := by
  simp [isLowSurrogate]

end CodePoint

namespace Utf8

theorem isTail_iff {b : UInt8} : isTail b = true ↔ 0x80 ≤ b.toNat ∧ b.toNat ≤ 0xBF := by
  simp [isTail, UInt8.le_iff_toNat_le]

/-- After four first bytes the second one is bounded further. -/
theorem isSecond_iff {b c : UInt8} :
    isSecond b c = true ↔
      isTail c = true ∧ (b.toNat = 0xE0 → 0xA0 ≤ c.toNat) ∧ (b.toNat = 0xED → c.toNat ≤ 0x9F) ∧
        (b.toNat = 0xF0 → 0x90 ≤ c.toNat) ∧ (b.toNat = 0xF4 → c.toNat ≤ 0x8F) := by
  unfold isSecond
  split <;> simp_all [UInt8.le_iff_toNat_le, ← UInt8.toNat_inj]

section Step

variable {b c d : UInt8} (rest : List UInt8)

theorem step_of_badStart (bad : 0x80 ≤ b ∧ b ≤ 0xC1 ∨ 0xF5 ≤ b) :
    step b rest = .flawed .badStart 0 := by
  simp only [UInt8.le_iff_toNat_le, UInt8.reduceToNat] at bad
  simp only [step, UInt8.lt_iff_toNat_lt, UInt8.reduceToNat]
  grind

theorem step_of_ascii (lead : b.toNat < 0x80) : step b rest = .codePoint (.ofNat b.toNat) 0 := by
  unfold step
  exact if_pos (UInt8.lt_iff_toNat_lt.mpr lead)

theorem step_of_two (lead : 0xC2 ≤ b.toNat ∧ b.toNat < 0xE0) (tail : isTail c = true) :
    step b (c :: rest) = .codePoint (sequence (b.toNat % 32) [c]) 1 := by
  simp only [step, UInt8.lt_iff_toNat_lt, UInt8.reduceToNat]
  grind

theorem step_of_three (lead : 0xE0 ≤ b.toNat ∧ b.toNat < 0xF0) (second : isSecond b c = true)
    (tail : isTail d = true) :
    step b (c :: d :: rest) = .codePoint (sequence (b.toNat % 16) [c, d]) 2 := by
  simp only [step, UInt8.lt_iff_toNat_lt, UInt8.reduceToNat]
  grind

theorem step_of_not_isSecond (lead : 0xE0 ≤ b.toNat ∧ b.toNat < 0xF0)
    (other : isSecond b c = false) : step b (c :: d :: rest) = .flawed .badContinuation 0 := by
  simp only [step, UInt8.lt_iff_toNat_lt, UInt8.reduceToNat]
  grind

end Step

end Utf8

namespace ModifiedUtf8

/-- No high surrogate stands before a low one. -/
def Unpaired (text : Text) : Prop :=
  text.IsChain fun c d => ¬(c.isHighSurrogate && d.isLowSurrogate)

instance : DecidablePred Unpaired := fun text => inferInstanceAs (Decidable (text.IsChain _))

/-- A pair of surrogates stands for a code point past all of them. -/
theorem value_supplementary {high low : CodePoint}
    (paired : high.isHighSurrogate && low.isLowSurrogate) :
    (supplementary high low).value =
      0x10000 + 0x400 * (high.value - 0xD800) + (low.value - 0xDC00) := by
  obtain ⟨isHigh, isLow⟩ := Bool.and_eq_true_iff.mp paired
  rw [CodePoint.isHighSurrogate_iff] at isHigh
  rw [CodePoint.isLowSurrogate_iff] at isLow
  exact CodePoint.value_ofNat (by omega)

/-- Joining pairs makes no low surrogate out of what comes first. -/
theorem head_joinPairs {c d e : CodePoint} {text : Text} (first : d ∈ (joinPairs (c :: text)).head?)
    (single : ¬(e.isHighSurrogate && c.isLowSurrogate)) :
    ¬(e.isHighSurrogate && d.isLowSurrogate) := by
  cases text with
  | nil =>
    cases first
    exact single
  | cons low text =>
    rw [joinPairs] at first
    split at first
    · rename_i paired
      obtain rfl : supplementary c low = d := Option.some.inj first
      have value := value_supplementary paired
      rw [Bool.and_eq_true, CodePoint.isLowSurrogate_iff]
      omega
    · obtain rfl : c = d := Option.some.inj first
      exact single

theorem unpaired_joinPairs (text : Text) : Unpaired (joinPairs text) := by
  induction text using joinPairs.induct with
  | case1 high low rest paired ih =>
    have value := value_supplementary paired
    rw [joinPairs, if_pos paired]
    refine List.isChain_cons.mpr ⟨fun d _ => ?_, ih⟩
    rw [Bool.and_eq_true, CodePoint.isHighSurrogate_iff]
    omega
  | case2 high low rest single ih =>
    rw [joinPairs, if_neg single]
    exact List.isChain_cons.mpr ⟨fun d first => head_joinPairs first single, ih⟩
  | case3 text short =>
    obtain _ | ⟨c, _ | ⟨d, rest⟩⟩ := text
    · exact .nil
    · exact .singleton c
    · exact absurd rfl (short c d rest)

theorem joinPairs_cons {c : CodePoint} {text : Text}
    (single : ∀ d ∈ text.head?, ¬(c.isHighSurrogate && d.isLowSurrogate)) :
    joinPairs (c :: text) = c :: joinPairs text := by
  cases text with
  | nil => rfl
  | cons d text => rw [joinPairs, if_neg (single d rfl)]

/-- The units of 16 bits that a code point takes: itself, or two surrogates. -/
def units (c : CodePoint) : Text :=
  if c.value < 0x10000 then [c]
  else
    [.ofNat (0xD800 + (c.value - 0x10000) / 0x400), .ofNat (0xDC00 + (c.value - 0x10000) % 0x400)]

theorem joinPairs_units_append {c : CodePoint} (large : ¬c.value < 0x10000) (text : Text) :
    joinPairs (units c ++ text) = c :: joinPairs text := by
  have valid := c.valid
  rw [units, if_neg large]
  generalize hHigh : CodePoint.ofNat (0xD800 + (c.value - 0x10000) / 0x400) = high
  generalize hLow : CodePoint.ofNat (0xDC00 + (c.value - 0x10000) % 0x400) = low
  have highValue : high.value = 0xD800 + (c.value - 0x10000) / 0x400 := by
    rw [← hHigh, CodePoint.value_ofNat (by omega)]
  have lowValue : low.value = 0xDC00 + (c.value - 0x10000) % 0x400 := by
    rw [← hLow, CodePoint.value_ofNat (by omega)]
  have paired : high.isHighSurrogate && low.isLowSurrogate := by
    rw [Bool.and_eq_true, CodePoint.isHighSurrogate_iff, CodePoint.isLowSurrogate_iff]
    omega
  have joined : supplementary high low = c := by
    apply CodePoint.ext
    rw [value_supplementary paired]
    omega
  rw [List.cons_append, List.cons_append, List.nil_append, joinPairs, if_pos paired, joined]

/-- The first unit of a text is a low surrogate only if its first code point is. -/
theorem head_units {c e : CodePoint} {text : Text} (first : c ∈ (text.flatMap units).head?)
    (apart : ∀ d ∈ text.head?, ¬(e.isHighSurrogate && d.isLowSurrogate)) :
    ¬(e.isHighSurrogate && c.isLowSurrogate) := by
  cases text with
  | nil => cases first
  | cons d text =>
    have valid := d.valid
    have single := apart d rfl
    rw [List.flatMap_cons, units] at first
    split at first
    · obtain rfl : d = c := Option.some.inj first
      exact single
    · obtain rfl : CodePoint.ofNat _ = c := Option.some.inj first
      rw [Bool.and_eq_true, CodePoint.isLowSurrogate_iff, CodePoint.value_ofNat (by omega)]
      omega

/-- Joining undoes the splitting into units where there are no other pairs. -/
theorem joinPairs_flatMap_units {text : Text} (unpaired : Unpaired text) :
    joinPairs (text.flatMap units) = text := by
  induction text with
  | nil => rfl
  | cons c text ih =>
    obtain ⟨apart, unpaired⟩ := List.isChain_cons.mp unpaired
    rw [List.flatMap_cons]
    by_cases small : c.value < 0x10000
    · have single := joinPairs_cons fun d first => head_units first apart
      rw [units, if_pos small, List.singleton_append, single, ih unpaired]
    · rw [joinPairs_units_append small, ih unpaired]

theorem toNat_byte {n : Nat} (small : n < 256) : (UInt8.ofNat n).toNat = n :=
  UInt8.toNat_ofNat_of_lt' small

theorem codePoints_of_first {b : UInt8} {rest : List UInt8} {c : CodePoint} {more : Nat}
    (found : first b rest = (c, more)) : codePoints 0 (b :: rest) = c :: codePoints more rest := by
  simp [codePoints, found]

theorem codePoints_ascii {n : Nat} (small : n < 0x80) (rest : List UInt8) :
    codePoints 0 (.ofNat n :: rest) = .ofNat n :: codePoints 0 rest := by
  have byte : (UInt8.ofNat n).toNat = n := toNat_byte (by omega)
  have step := Utf8.step_of_ascii rest (byte.trans_lt small)
  apply codePoints_of_first
  rw [first, step, byte]

theorem codePoints_two {n : Nat} (large : 0x80 ≤ n) (small : n < 0x800) (rest : List UInt8) :
    codePoints 0 (.ofNat (0xC0 + n / 0x40) :: .ofNat (0x80 + n % 0x40) :: rest) =
      .ofNat n :: codePoints 0 rest := by
  have lead : (UInt8.ofNat (0xC0 + n / 0x40)).toNat = 0xC0 + n / 0x40 := toNat_byte (by omega)
  have second : (UInt8.ofNat (0x80 + n % 0x40)).toNat = 0x80 + n % 0x40 := toNat_byte (by omega)
  generalize UInt8.ofNat (0xC0 + n / 0x40) = b at lead
  generalize UInt8.ofNat (0x80 + n % 0x40) = c at second
  have step := Utf8.step_of_two rest (b := b) (c := c) (by omega) (Utf8.isTail_iff.mpr (by omega))
  have value : Utf8.sequence (b.toNat % 32) [c] = .ofNat n := by
    simp only [Utf8.sequence, List.foldl]
    congr 1
    omega
  have found : first b (c :: rest) = (.ofNat n, 1) := by rw [first, step, value]
  rw [codePoints_of_first found, codePoints]

/-- A sequence of three bytes that is not longer than needed stands for a code unit, whether this is
a surrogate or not. -/
theorem first_of_three {b c d : UInt8} (lead : 0xE0 ≤ b.toNat ∧ b.toNat < 0xF0)
    (tailC : Utf8.isTail c = true) (tailD : Utf8.isTail d = true)
    (needed : b.toNat = 0xE0 → 0xA0 ≤ c.toNat) (rest : List UInt8) :
    first b (c :: d :: rest) = (Utf8.sequence (b.toNat % 16) [c, d], 2) := by
  cases second : Utf8.isSecond b c with
  | true => rw [first, Utf8.step_of_three rest lead second tailD]
  | false =>
    -- UTF-8 refuses no second byte here but that of a surrogate, which is let through.
    have bounds := Utf8.isTail_iff.mp tailC
    have surrogate : b.toNat = 0xED ∧ 0x9F < c.toNat := by
      by_contra other
      have allowed : Utf8.isSecond b c = true :=
        Utf8.isSecond_iff.mpr ⟨tailC, needed, by omega, by omega, by omega⟩
      rw [second] at allowed
      cases allowed
    obtain rfl : b = 0xED := UInt8.toNat_inj.mp surrogate.1
    have high : 0xA0 ≤ c ∧ c ≤ 0xBF := by
      simp only [UInt8.le_iff_toNat_le, UInt8.reduceToNat]
      omega
    have letThrough : surrogate? 0xED (c :: d :: rest) = some (Utf8.sequence 0xD [c, d]) := by
      simp [surrogate?, high, tailD]
    rw [first, Utf8.step_of_not_isSecond rest lead second, letThrough]
    rfl

theorem codePoints_encodeUnit {n : Nat} (large : 0x800 ≤ n) (small : n < 0x10000)
    (rest : List UInt8) :
    codePoints 0 (encodeUnit n ++ rest) = .ofNat n :: codePoints 0 rest := by
  have lead : (UInt8.ofNat (0xE0 + n / 0x1000)).toNat = 0xE0 + n / 0x1000 := toNat_byte (by omega)
  have second : (UInt8.ofNat (0x80 + n / 0x40 % 0x40)).toNat = 0x80 + n / 0x40 % 0x40 :=
    toNat_byte (by omega)
  have third : (UInt8.ofNat (0x80 + n % 0x40)).toNat = 0x80 + n % 0x40 := toNat_byte (by omega)
  rw [encodeUnit, List.cons_append, List.cons_append, List.singleton_append]
  generalize UInt8.ofNat (0xE0 + n / 0x1000) = b at lead
  generalize UInt8.ofNat (0x80 + n / 0x40 % 0x40) = c at second
  generalize UInt8.ofNat (0x80 + n % 0x40) = d at third
  have tailC : Utf8.isTail c = true := Utf8.isTail_iff.mpr (by omega)
  have tailD : Utf8.isTail d = true := Utf8.isTail_iff.mpr (by omega)
  have found := first_of_three (by omega) tailC tailD (by omega : b.toNat = _ → _) rest
  have value : Utf8.sequence (b.toNat % 16) [c, d] = .ofNat n := by
    simp only [Utf8.sequence, List.foldl]
    congr 1
    omega
  rw [codePoints_of_first found, value, codePoints, codePoints]

theorem codePoints_encodeCodePoint {c : CodePoint} (notNul : c.value ≠ 0) (rest : List UInt8) :
    codePoints 0 (encodeCodePoint c ++ rest) = units c ++ codePoints 0 rest := by
  have valid := c.valid
  unfold encodeCodePoint units
  dsimp only
  rw [if_neg notNul]
  by_cases one : c.value < 0x80
  · rw [if_pos one, if_pos (by omega), List.singleton_append, codePoints_ascii one,
      CodePoint.ofNat_value, List.singleton_append]
  rw [if_neg one]
  by_cases two : c.value < 0x800
  · rw [if_pos two, if_pos (by omega), List.cons_append, List.singleton_append,
      codePoints_two (by omega) two, CodePoint.ofNat_value, List.singleton_append]
  rw [if_neg two]
  by_cases three : c.value < 0x10000
  · rw [if_pos three, if_pos three, codePoints_encodeUnit (by omega) three, CodePoint.ofNat_value,
      List.singleton_append]
  · rw [if_neg three, if_neg three, List.append_assoc, codePoints_encodeUnit (by omega) (by omega),
      codePoints_encodeUnit (by omega) (by omega), List.cons_append, List.singleton_append]

theorem unpackNul_cons {b : UInt8} {rest : List UInt8}
    (apart : b ≠ 0xC0 ∨ rest.head? ≠ some 0x80) : unpackNul (b :: rest) = b :: unpackNul rest := by
  rw [unpackNul]
  rintro later rfl rfl
  simp at apart

theorem unpackNul_append {bytes : List UInt8} (other : ∀ b ∈ bytes, b ≠ 0xC0)
    (rest : List UInt8) : unpackNul (bytes ++ rest) = bytes ++ unpackNul rest := by
  induction bytes with
  | nil => rfl
  | cons b bytes ih =>
    obtain ⟨notLead, other⟩ := List.forall_mem_cons.mp other
    rw [List.cons_append, unpackNul_cons (.inl notLead), ih other, List.cons_append]

theorem byte_ne {n : Nat} (k : Nat) (other : n < 256 ∧ k < 256 ∧ n ≠ k) :
    UInt8.ofNat n ≠ UInt8.ofNat k := by
  rw [Ne, ← UInt8.toNat_inj, toNat_byte other.1, toNat_byte other.2.1]
  exact other.2.2

theorem encodeUnit_ne {n : Nat} (small : n < 0x10000) : ∀ b ∈ encodeUnit n, b ≠ 0xC0 := by
  simp only [encodeUnit, List.forall_mem_cons]
  refine ⟨?_, ?_, ?_, List.forall_mem_nil _⟩
  all_goals exact byte_ne 0xC0 (by omega)

/-- Of all code points only NUL has the byte `C0`. -/
theorem encodeCodePoint_ne {c : CodePoint} (notNul : c.value ≠ 0) :
    ∀ b ∈ encodeCodePoint c, b ≠ 0xC0 := by
  have valid := c.valid
  unfold encodeCodePoint
  dsimp only
  rw [if_neg notNul]
  split_ifs
  · simp only [List.forall_mem_cons]
    exact ⟨byte_ne 0xC0 (by omega), List.forall_mem_nil _⟩
  · simp only [List.forall_mem_cons]
    refine ⟨?_, ?_, List.forall_mem_nil _⟩
    all_goals exact byte_ne 0xC0 (by omega)
  · exact encodeUnit_ne (by omega)
  · exact List.forall_mem_append.mpr ⟨encodeUnit_ne (by omega), encodeUnit_ne (by omega)⟩

/-- One code point is decoded to its units, and the bytes after it as if they stood alone. -/
theorem codePoints_encodeCodePoint_append (c : CodePoint) (rest : List UInt8) :
    codePoints 0 (unpackNul (encodeCodePoint c ++ rest)) =
      units c ++ codePoints 0 (unpackNul rest) := by
  by_cases nul : c.value = 0
  · obtain rfl : c = .ofNat 0 := by rw [← nul, CodePoint.ofNat_value]
    exact codePoints_ascii (n := 0) (by decide) (unpackNul rest)
  · rw [unpackNul_append (encodeCodePoint_ne nul), codePoints_encodeCodePoint nul]

theorem codePoints_encode_append (text : Text) (rest : List UInt8) :
    codePoints 0 (unpackNul (encode text ++ rest)) =
      text.flatMap units ++ codePoints 0 (unpackNul rest) := by
  induction text with
  | nil => rfl
  | cons c text ih =>
    rw [encode, List.flatMap_cons, List.append_assoc, codePoints_encodeCodePoint_append,
      ← encode, ih, List.flatMap_cons, List.append_assoc]

theorem codePoints_encode (text : Text) :
    codePoints 0 (unpackNul (encode text)) = text.flatMap units := by
  have decoded := codePoints_encode_append text []
  rwa [List.append_nil, unpackNul, codePoints, List.append_nil] at decoded

theorem decode_encode {text : Text} (unpaired : Unpaired text) : decode (encode text) = text := by
  rw [decode, codePoints_encode, joinPairs_flatMap_units unpaired]

-- NUL, a letter, the euro sign, a supplementary code point and a surrogate that stands alone.
example : encode [.ofNat 0, .ofNat 0x41, .ofNat 0x20AC, .ofNat 0x1F600, .ofNat 0xDE00] =
    [0xC0, 0x80, 0x41, 0xE2, 0x82, 0xAC, 0xED, 0xA0, 0xBD, 0xED, 0xB8, 0x80, 0xED, 0xB8, 0x80] := by
  decide

/-- Decoding undoes encoding on the texts without a pair of surrogates, and gives no others. -/
theorem decode_inverts_encode :
    (∀ bytes, Unpaired (decode bytes)) ∧ (∀ text, Unpaired text → decode (encode text) = text) ∧
      Set.range decode = {text | Unpaired text} := by
  refine ⟨fun bytes => unpaired_joinPairs _, fun text => decode_encode, Set.ext fun text => ?_⟩
  constructor
  · rintro ⟨bytes, rfl⟩
    exact unpaired_joinPairs _
  · intro unpaired
    exact ⟨encode text, decode_encode unpaired⟩

/-- Two high surrogates, a supplementary code point, whose units are a pair, a low surrogate and
NUL. -/
theorem decode_inverts_encode_surrogates :
    Unpaired [.ofNat 0xD83D, .ofNat 0xD83D, .ofNat 0x1F600, .ofNat 0xDE00, .ofNat 0] ∧
      decode (encode [.ofNat 0xD83D, .ofNat 0xD83D, .ofNat 0x1F600, .ofNat 0xDE00, .ofNat 0]) =
        [.ofNat 0xD83D, .ofNat 0xD83D, .ofNat 0x1F600, .ofNat 0xDE00, .ofNat 0] := by
  have unpaired :
      Unpaired [.ofNat 0xD83D, .ofNat 0xD83D, .ofNat 0x1F600, .ofNat 0xDE00, .ofNat 0] := by
    decide +kernel
  exact ⟨unpaired, decode_inverts_encode.2.1 _ unpaired⟩

theorem head_encodeCodePoint (c : CodePoint) (rest : List UInt8) :
    (encodeCodePoint c ++ rest).head? ≠ some 0x80 := by
  have valid := c.valid
  unfold encodeCodePoint
  dsimp only
  split_ifs
  · exact fun same => absurd (Option.some.inj same) (by decide)
  all_goals exact fun same => byte_ne 0x80 (by omega) (Option.some.inj same)

theorem head_encode (text : Text) : (encode text).head? ≠ some 0x80 := by
  cases text with
  | nil => simp [encode]
  | cons c text => exact head_encodeCodePoint c (encode text)

theorem first_of_badStart {b : UInt8} (bad : 0x80 ≤ b ∧ b ≤ 0xC1 ∨ 0xF5 ≤ b)
    (rest : List UInt8) : first b rest = (.replacement, 0) := by
  have notLead : b ≠ 0xED := by
    rintro rfl
    exact absurd bad (by decide)
  have none : surrogate? b rest = none := by
    unfold surrogate?
    split
    · simp [notLead]
    · rfl
  rw [first, Utf8.step_of_badStart rest bad, none]

/-- A byte that begins nothing makes no NUL with the byte after it and takes none with it. -/
theorem codePoints_bad_cons {b : UInt8} (bad : 0x80 ≤ b ∧ b ≤ 0xC1 ∨ 0xF5 ≤ b) (text : Text) :
    codePoints 0 (unpackNul (b :: encode text)) = .replacement :: text.flatMap units := by
  rw [unpackNul_cons (.inr (head_encode text)), codePoints_of_first (first_of_badStart bad _),
    codePoints_encode]

theorem unpaired_around {s t : Text} {c : CodePoint} (before : Unpaired s) (after : Unpaired t)
    (notHigh : ¬c.isHighSurrogate) (notLow : ¬c.isLowSurrogate) : Unpaired (s ++ c :: t) := by
  refine List.isChain_append.mpr ⟨before, List.isChain_cons.mpr ⟨fun d _ => ?_, after⟩, ?_⟩
  · exact fun paired => notHigh (Bool.and_eq_true_iff.mp paired).1
  · intro e _ d first paired
    obtain rfl : c = d := Option.some.inj first
    exact notLow (Bool.and_eq_true_iff.mp paired).2

/-- A byte that begins nothing, between two encoded texts, decodes as U+FFFD and leaves both texts
as they are. -/
theorem decode_around_bad_byte (s t : Text) (b : UInt8) (before : Unpaired s) (after : Unpaired t)
    (bad : 0x80 ≤ b ∧ b ≤ 0xC1 ∨ 0xF5 ≤ b) :
    decode (encode s ++ [b] ++ encode t) = s ++ [.replacement] ++ t := by
  have around : Unpaired (s ++ .replacement :: t) :=
    unpaired_around before after (by decide) (by decide)
  have decoded : codePoints 0 (unpackNul (encode s ++ b :: encode t)) =
      (s ++ .replacement :: t).flatMap units := by
    have single : units .replacement = [.replacement] := rfl
    rw [codePoints_encode_append, codePoints_bad_cons bad, List.flatMap_append, List.flatMap_cons,
      single, List.singleton_append]
  rw [List.append_assoc, List.singleton_append, decode, decoded, joinPairs_flatMap_units around,
    List.append_assoc, List.singleton_append]

/-- The first byte of an encoded NUL stands between the two surrogates of a pair. -/
theorem decode_around_bad_byte_surrogates :
    Unpaired [.ofNat 0, .ofNat 0xD83D] ∧ Unpaired [.ofNat 0xDE00, .ofNat 0] ∧
      decode (encode [.ofNat 0, .ofNat 0xD83D] ++ [0xC0] ++ encode [.ofNat 0xDE00, .ofNat 0]) =
        [.ofNat 0, .ofNat 0xD83D] ++ [.replacement] ++ [.ofNat 0xDE00, .ofNat 0] := by
  have before : Unpaired [.ofNat 0, .ofNat 0xD83D] := by decide +kernel
  have after : Unpaired [.ofNat 0xDE00, .ofNat 0] := by decide +kernel
  exact ⟨before, after, decode_around_bad_byte _ _ 0xC0 before after (by decide)⟩

end ModifiedUtf8

end JavaClass
