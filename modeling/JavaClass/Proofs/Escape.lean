import Mathlib.Algebra.Order.Ring.Nat
import JavaClass.Text.Escape
import JavaClass.Proofs.ModifiedUtf8

/-!
Escaped text. It is printable throughout, and escaping it again changes nothing. A text that has no
backslash and no pair of surrogates can be told from its escaped form: what is not printable is
split into units of 16 bits, every unit is written as a piece that ends by itself, and the units
are those of one text only.
-/

namespace JavaClass

namespace CodePoint

theorem isPrintable_of_ascii {c : CodePoint} (low : 0x20 ≤ c.value) (high : c.value ≤ 0x7E) :
    c.isPrintable = true := by
  have first : (0x20, 0x7E) ∈ printableRuns := List.mem_cons_self
  exact List.any_eq_true.mpr ⟨_, first, by simp [low, high]⟩

theorem blank_le_of_isPrintable {c : CodePoint} (printable : c.isPrintable = true) :
    0x20 ≤ c.value := by
  have least : ∀ run ∈ printableRuns, 0x20 ≤ run.1 := by decide +kernel
  obtain ⟨run, inside, bounds⟩ := List.any_eq_true.mp printable
  have low := (Bool.and_eq_true_iff.mp bounds).1
  exact le_trans (least run inside) (of_decide_eq_true low)

theorem isPrintable_ofChar {c : Char} (low : ' ' ≤ c) (high : c ≤ '~') :
    (ofChar c).isPrintable = true :=
  isPrintable_of_ascii low high

theorem ofChar_injective {c d : Char} (same : ofChar c = ofChar d) : c = d := by
  have value : c.toNat = d.toNat := congrArg CodePoint.value same
  exact Char.ext (UInt32.toNat_inj.mp value)

/-- The code points that have an escape of their own, each with the letter of it. -/
def controls : List (Nat × Char) :=
  [(0x0A, 'n'), (0x0D, 'r'), (0x09, 't'), (0x08, 'b'), (0x0C, 'f')]

/-- The four forms of an escaped code point. -/
theorem escape_cases (c : CodePoint) :
    c.isPrintable = true ∧ c.escape = [c] ∨
    (∃ letter, (c.value, letter) ∈ controls ∧ c.escape = [ofChar '\\', ofChar letter]) ∨
    c.isPrintable = false ∧ c.value < 0x10000 ∧ c.escape = unitEscape c.value ∨
    c.isPrintable = false ∧ 0x10000 ≤ c.value ∧
      c.escape = unitEscape (0xD800 + (c.value - 0x10000) / 0x400) ++
        unitEscape (0xDC00 + (c.value - 0x10000) % 0x400) := by
  unfold escape
  split
  case h_6 =>
    by_cases printable : c.isPrintable = true
    · exact .inl ⟨printable, if_pos printable⟩
    rw [if_neg printable]
    have hidden := Bool.eq_false_iff.mpr printable
    by_cases large : 0xFFFF < c.value
    · exact .inr (.inr (.inr ⟨hidden, large, if_pos large⟩))
    · exact .inr (.inr (.inl ⟨hidden, by omega, if_neg large⟩))
  all_goals
    rename_i value
    refine .inr (.inl ⟨_, ?_, rfl⟩)
    rw [value]
    decide

end CodePoint

/-- The last digit stands behind the digits of what is left. -/
theorem toList_hex_succ {width : Nat} (n : Nat) (positive : 0 < width) :
    (hex (width + 1) n).toList = (hex width (n / 16)).toList ++ [(n % 16).digitChar] := by
  simp only [hex, String.toList_ofList]
  by_cases last : n < 16
  · have digits : Nat.toDigits 16 n = [n.digitChar] := Nat.toDigits_of_lt_base last
    have rest : Nat.toDigits 16 (n / 16) = ['0'] := by
      rw [Nat.div_eq_of_lt last, Nat.toDigits_zero]
    have zeros : List.replicate width '0' = List.replicate (width - 1) '0' ++ ['0'] := by
      rw [← List.replicate_succ', Nat.sub_add_cancel positive]
    rw [digits, rest, Nat.mod_eq_of_lt last]
    simp only [List.length_singleton, Nat.add_sub_cancel]
    rw [zeros]
  · have digits : Nat.toDigits 16 n = Nat.toDigits 16 (n / 16) ++ [(n % 16).digitChar] :=
      Nat.toDigits_of_base_le (by decide) (by omega)
    rw [digits]
    simp

theorem toList_hex_one {n : Nat} (small : n < 16) : (hex 1 n).toList = [n.digitChar] := by
  simp [hex, Nat.toDigits_of_lt_base small]

theorem length_hex {width n : Nat} (small : n < 16 ^ (width + 1)) :
    (hex (width + 1) n).toList.length = width + 1 := by
  induction width generalizing n with
  | zero => rw [toList_hex_one (by simpa using small), List.length_singleton]
  | succ width ih =>
    have shorter : n / 16 < 16 ^ (width + 1) :=
      Nat.div_lt_of_lt_mul (by rwa [← Nat.pow_succ'])
    rw [toList_hex_succ n (Nat.succ_pos width), List.length_append, ih shorter,
      List.length_singleton]

theorem digitChar_injective {m n : Nat} (hm : m < 16) (hn : n < 16)
    (same : m.digitChar = n.digitChar) : m = n := by
  have table : ∀ i < 16, ∀ j < 16, Nat.digitChar i = Nat.digitChar j → i = j := by decide
  exact table m hm n hn same

theorem hex_injective {width m n : Nat} (hm : m < 16 ^ (width + 1)) (hn : n < 16 ^ (width + 1))
    (same : (hex (width + 1) m).toList = (hex (width + 1) n).toList) : m = n := by
  induction width generalizing m n with
  | zero =>
    simp only [Nat.zero_add, Nat.pow_one] at hm hn
    rw [toList_hex_one hm, toList_hex_one hn] at same
    exact digitChar_injective hm hn (List.head_eq_of_cons_eq same)
  | succ width ih =>
    have positive := Nat.succ_pos width
    rw [toList_hex_succ m positive, toList_hex_succ n positive] at same
    obtain ⟨front, last⟩ := List.append_inj' same rfl
    have quotient : m / 16 = n / 16 :=
      ih (Nat.div_lt_of_lt_mul (by rwa [← Nat.pow_succ']))
        (Nat.div_lt_of_lt_mul (by rwa [← Nat.pow_succ'])) front
    have remainder : m % 16 = n % 16 :=
      digitChar_injective (Nat.mod_lt _ (by decide)) (Nat.mod_lt _ (by decide))
        (List.head_eq_of_cons_eq last)
    omega

theorem printable_digitChar {n : Nat} (small : n < 16) : ' ' ≤ n.digitChar ∧ n.digitChar ≤ '~' := by
  have table : ∀ i < 16, ' ' ≤ Nat.digitChar i ∧ Nat.digitChar i ≤ '~' := by decide
  exact table n small

theorem printable_of_mem_hex {width n : Nat} {c : Char} (small : n < 16 ^ (width + 1))
    (inside : c ∈ (hex (width + 1) n).toList) : ' ' ≤ c ∧ c ≤ '~' := by
  induction width generalizing n with
  | zero =>
    simp only [Nat.zero_add, Nat.pow_one] at small
    rw [toList_hex_one small, List.mem_singleton] at inside
    exact inside ▸ printable_digitChar small
  | succ width ih =>
    rw [toList_hex_succ n (Nat.succ_pos width), List.mem_append, List.mem_singleton] at inside
    obtain inside | rfl := inside
    · exact ih (Nat.div_lt_of_lt_mul (by rwa [← Nat.pow_succ'])) inside
    · exact printable_digitChar (Nat.mod_lt _ (by decide))

theorem unitEscape_eq (unit : Nat) :
    unitEscape unit =
      CodePoint.ofChar '\\' :: CodePoint.ofChar 'u' :: Text.ofString (hex 4 unit) := by
  simp [unitEscape, Text.ofString]

theorem isPrintable_of_mem_unitEscape {unit : Nat} {c : CodePoint} (small : unit < 0x10000)
    (inside : c ∈ unitEscape unit) : c.isPrintable = true := by
  rw [unitEscape_eq, List.mem_cons, List.mem_cons, Text.ofString, List.mem_map] at inside
  obtain rfl | rfl | ⟨digit, inside, rfl⟩ := inside
  · exact CodePoint.isPrintable_ofChar (by decide) (by decide)
  · exact CodePoint.isPrintable_ofChar (by decide) (by decide)
  · obtain ⟨low, high⟩ := printable_of_mem_hex small inside
    exact CodePoint.isPrintable_ofChar low high

theorem unitEscape_append_inj {m n : Nat} {s t : Text} (hm : m < 0x10000) (hn : n < 0x10000)
    (same : unitEscape m ++ s = unitEscape n ++ t) : m = n ∧ s = t := by
  simp only [unitEscape_eq, Text.ofString, List.cons_append, List.cons.injEq, true_and] at same
  have lengths : ((hex 4 m).toList.map CodePoint.ofChar).length =
      ((hex 4 n).toList.map CodePoint.ofChar).length := by
    rw [List.length_map, List.length_map, length_hex hm, length_hex hn]
  obtain ⟨digits, rest⟩ := List.append_inj same lengths
  have digits := List.map_injective_iff.mpr (fun _ _ => CodePoint.ofChar_injective) digits
  exact ⟨hex_injective hm hn digits, rest⟩

namespace CodePoint

theorem isPrintable_of_mem_escape {c d : CodePoint} (inside : d ∈ c.escape) :
    d.isPrintable = true := by
  have valid := c.valid
  obtain ⟨printable, plain⟩ | ⟨letter, control, written⟩ | ⟨-, small, written⟩ |
    ⟨-, large, written⟩ := escape_cases c
  · rw [plain, List.mem_singleton] at inside
    exact inside ▸ printable
  · have letters : ∀ pair ∈ controls, ' ' ≤ pair.2 ∧ pair.2 ≤ '~' := by decide
    obtain ⟨low, high⟩ := letters _ control
    rw [written, List.mem_pair] at inside
    obtain rfl | rfl := inside
    · exact isPrintable_ofChar (by decide) (by decide)
    · exact isPrintable_ofChar low high
  · exact isPrintable_of_mem_unitEscape small (written ▸ inside)
  · rw [written, List.mem_append] at inside
    obtain inside | inside := inside
    · exact isPrintable_of_mem_unitEscape (by omega) inside
    · exact isPrintable_of_mem_unitEscape (by omega) inside

/-- No control has a place among the printable code points. -/
theorem escape_of_isPrintable {c : CodePoint} (printable : c.isPrintable = true) :
    c.escape = [c] := by
  have low := blank_le_of_isPrintable printable
  obtain ⟨-, plain⟩ | ⟨letter, control, -⟩ | ⟨hidden, -⟩ | ⟨hidden, -⟩ := escape_cases c
  · exact plain
  · have small : ∀ pair ∈ controls, pair.1 < 0x20 := by decide
    have below := small _ control
    omega
  · rw [printable] at hidden
    cases hidden
  · rw [printable] at hidden
    cases hidden

theorem escape_of_isSurrogate {c : CodePoint} (low : 0xD800 ≤ c.value) (high : c.value ≤ 0xDFFF) :
    c.escape = unitEscape c.value := by
  obtain ⟨printable, -⟩ | ⟨letter, control, -⟩ | ⟨-, -, written⟩ | ⟨-, large, -⟩ := escape_cases c
  · have apart : ∀ run ∈ printableRuns, run.2 < 0xD800 ∨ 0xDFFF < run.1 := by decide +kernel
    obtain ⟨run, inside, bounds⟩ := List.any_eq_true.mp printable
    have outside := apart run inside
    simp only [Bool.and_eq_true, decide_eq_true_eq] at bounds
    omega
  · have small : ∀ pair ∈ controls, pair.1 < 0x20 := by decide
    have below := small _ control
    omega
  · exact written
  · omega

/-- A code point past the units of 16 bits is split into two surrogates. -/
theorem surrogate_of_mem_units {c d : CodePoint} (large : ¬c.value < 0x10000)
    (inside : d ∈ ModifiedUtf8.units c) : 0xD800 ≤ d.value ∧ d.value ≤ 0xDFFF := by
  have valid := c.valid
  have high := value_ofNat (n := 0xD800 + (c.value - 0x10000) / 0x400) (by omega)
  have low := value_ofNat (n := 0xDC00 + (c.value - 0x10000) % 0x400) (by omega)
  rw [ModifiedUtf8.units, if_neg large, List.mem_pair] at inside
  obtain same | same := inside
  · rw [same, high]
    omega
  · rw [same, low]
    omega

/-- The code points that are escaped one by one: what is neither printable nor one unit of 16 bits
is split first. -/
def pieces (c : CodePoint) : Text := if c.isPrintable then [c] else ModifiedUtf8.units c

theorem flatMap_escape_pieces (c : CodePoint) : c.pieces.flatMap escape = c.escape := by
  have valid := c.valid
  unfold pieces
  split_ifs with printable
  · exact List.flatMap_singleton escape c
  by_cases small : c.value < 0x10000
  · rw [ModifiedUtf8.units, if_pos small, List.flatMap_singleton]
  have surrogates : (ModifiedUtf8.units c).flatMap escape =
      (ModifiedUtf8.units c).flatMap fun d => unitEscape d.value := by
    apply List.flatMap_congr
    intro d inside
    obtain ⟨low, high⟩ := surrogate_of_mem_units small inside
    exact escape_of_isSurrogate low high
  have high := value_ofNat (n := 0xD800 + (c.value - 0x10000) / 0x400) (by omega)
  have low := value_ofNat (n := 0xDC00 + (c.value - 0x10000) % 0x400) (by omega)
  obtain ⟨visible, -⟩ | ⟨letter, control, -⟩ | ⟨-, unit, -⟩ | ⟨-, -, written⟩ := escape_cases c
  · exact absurd visible printable
  · have below : ∀ pair ∈ controls, pair.1 < 0x10000 := by decide
    exact absurd (below _ control) small
  · exact absurd unit small
  · rw [surrogates, ModifiedUtf8.units, if_neg small, List.flatMap_cons, List.flatMap_singleton,
      high, low, written]

theorem flatMap_units_pieces (c : CodePoint) :
    c.pieces.flatMap ModifiedUtf8.units = ModifiedUtf8.units c := by
  unfold pieces
  split_ifs with printable
  · exact List.flatMap_singleton _ c
  by_cases small : c.value < 0x10000
  · rw [ModifiedUtf8.units, if_pos small, List.flatMap_singleton, ModifiedUtf8.units, if_pos small]
  · have single : ∀ d ∈ ModifiedUtf8.units c, ModifiedUtf8.units d = [d] := by
      intro d inside
      have bounds := surrogate_of_mem_units small inside
      rw [ModifiedUtf8.units, if_pos (by omega)]
    rw [List.flatMap_congr single, List.flatMap_singleton']

/-- How a single piece is written. The three forms differ in their first two code points. -/
inductive Piece (c : CodePoint) : Text → Prop
  | plain (other : c ≠ ofChar '\\') : Piece c [c]
  | control {letter : Char} (listed : (c.value, letter) ∈ controls) :
      Piece c [ofChar '\\', ofChar letter]
  | unit (small : c.value < 0x10000) : Piece c (unitEscape c.value)

theorem piece_of_mem_pieces {c d : CodePoint} (other : c ≠ ofChar '\\') (inside : d ∈ c.pieces) :
    Piece d d.escape := by
  have split : d = c ∧ (c.isPrintable = true ∨ c.value < 0x10000) ∨
      0xD800 ≤ d.value ∧ d.value ≤ 0xDFFF := by
    unfold pieces at inside
    split_ifs at inside with printable
    · exact .inl ⟨List.mem_singleton.mp inside, .inl printable⟩
    by_cases small : c.value < 0x10000
    · rw [ModifiedUtf8.units, if_pos small] at inside
      exact .inl ⟨List.mem_singleton.mp inside, .inr small⟩
    · exact .inr (surrogate_of_mem_units small inside)
  obtain ⟨rfl, single⟩ | ⟨low, high⟩ := split
  · obtain ⟨-, written⟩ | ⟨letter, control, written⟩ | ⟨-, small, written⟩ | ⟨hidden, large, -⟩ :=
      escape_cases d
    · exact written ▸ .plain other
    · exact written ▸ .control control
    · exact written ▸ .unit small
    · have shown : d.isPrintable = true := single.resolve_right (Nat.not_lt.mpr large)
      rw [shown] at hidden
      cases hidden
  · rw [escape_of_isSurrogate low high]
    exact .unit (by omega)

theorem Piece.append_inj {c d : CodePoint} {p q s t : Text} (hp : Piece c p) (hq : Piece d q)
    (same : p ++ s = q ++ t) : c = d ∧ s = t := by
  have notU : ∀ pair ∈ controls, pair.2 ≠ 'u' := by decide
  have byLetter : ∀ p ∈ controls, ∀ q ∈ controls, p.2 = q.2 → p.1 = q.1 := by decide
  cases hp with
  | plain otherC =>
    cases hq with
    | plain => exact List.cons_eq_cons.mp same
    | control => exact absurd (List.head_eq_of_cons_eq same) otherC
    | unit =>
      rw [unitEscape_eq] at same
      exact absurd (List.head_eq_of_cons_eq same) otherC
  | @control letter listedC =>
    cases hq with
    | plain otherD => exact absurd (List.head_eq_of_cons_eq same).symm otherD
    | @control other listedD =>
      simp only [List.cons_append, List.nil_append, List.cons.injEq, true_and] at same
      obtain ⟨letters, rest⟩ := same
      have values := byLetter _ listedC _ listedD (ofChar_injective letters)
      exact ⟨CodePoint.ext values, rest⟩
    | unit =>
      simp only [unitEscape_eq, List.cons_append, List.cons.injEq, true_and] at same
      exact absurd (ofChar_injective same.1) (notU _ listedC)
  | unit smallC =>
    cases hq with
    | plain otherD =>
      rw [unitEscape_eq] at same
      exact absurd (List.head_eq_of_cons_eq same).symm otherD
    | control listedD =>
      simp only [unitEscape_eq, List.cons_append, List.cons.injEq, true_and] at same
      exact absurd (ofChar_injective same.1).symm (notU _ listedD)
    | unit smallD =>
      obtain ⟨values, rest⟩ := unitEscape_append_inj smallC smallD same
      exact ⟨CodePoint.ext values, rest⟩

theorem Piece.ne_nil {c : CodePoint} {p : Text} (hp : Piece c p) : p ≠ [] := by
  cases hp with
  | plain | control => exact List.cons_ne_nil _ _
  | unit => rw [unitEscape_eq]; exact List.cons_ne_nil _ _

end CodePoint

namespace Text

/-- Pieces end by themselves, so a text of them is read off from the left. -/
theorem escape_inj_of_pieces {s t : Text} (hs : ∀ c ∈ s, CodePoint.Piece c c.escape)
    (ht : ∀ c ∈ t, CodePoint.Piece c c.escape) (same : s.escape = t.escape) : s = t := by
  induction s generalizing t with
  | nil =>
    cases t with
    | nil => rfl
    | cons d t =>
      have first := (ht d List.mem_cons_self).ne_nil
      rw [escape, List.flatMap_nil, escape, List.flatMap_cons] at same
      exact absurd (List.append_eq_nil_iff.mp same.symm).1 first
  | cons c s ih =>
    have firstC := hs c List.mem_cons_self
    cases t with
    | nil =>
      rw [escape, List.flatMap_cons, escape, List.flatMap_nil] at same
      exact absurd (List.append_eq_nil_iff.mp same).1 firstC.ne_nil
    | cons d t =>
      have firstD := ht d List.mem_cons_self
      rw [escape, List.flatMap_cons, escape, List.flatMap_cons] at same
      obtain ⟨rfl, rest⟩ := firstC.append_inj firstD same
      have later := ih (fun e inside => hs e (List.mem_cons_of_mem c inside))
        (fun e inside => ht e (List.mem_cons_of_mem c inside)) rest
      rw [later]

theorem escape_flatMap_pieces (text : Text) :
    escape (text.flatMap CodePoint.pieces) = text.escape := by
  simp only [escape, List.flatMap_assoc, CodePoint.flatMap_escape_pieces]

theorem flatMap_units_pieces (text : Text) :
    (text.flatMap CodePoint.pieces).flatMap ModifiedUtf8.units =
      text.flatMap ModifiedUtf8.units := by
  simp only [List.flatMap_assoc, CodePoint.flatMap_units_pieces]

theorem escape_of_isPrintable {text : Text} (printable : ∀ c ∈ text, c.isPrintable = true) :
    text.escape = text := by
  induction text with
  | nil => rfl
  | cons c text ih =>
    obtain ⟨first, rest⟩ := List.forall_mem_cons.mp printable
    rw [escape, List.flatMap_cons, CodePoint.escape_of_isPrintable first, ← escape, ih rest,
      List.singleton_append]

theorem isPrintable_of_mem_escape {text : Text} {c : CodePoint} (inside : c ∈ text.escape) :
    c.isPrintable = true := by
  obtain ⟨d, -, written⟩ := List.mem_flatMap.mp inside
  exact CodePoint.isPrintable_of_mem_escape written

/-- No backslash, and no high surrogate before a low one. -/
def Unescaped (text : Text) : Prop :=
  CodePoint.ofChar '\\' ∉ text ∧ ModifiedUtf8.Unpaired text

instance : DecidablePred Unescaped := fun _ => inferInstanceAs (Decidable (_ ∧ _))

theorem escape_inj {s t : Text} (hs : Unescaped s) (ht : Unescaped t)
    (same : s.escape = t.escape) : s = t := by
  have single {text : Text} (plain : Unescaped text) :
      ∀ d ∈ text.flatMap CodePoint.pieces, CodePoint.Piece d d.escape := by
    intro d inside
    obtain ⟨c, member, inside⟩ := List.mem_flatMap.mp inside
    exact CodePoint.piece_of_mem_pieces (ne_of_mem_of_not_mem member plain.1) inside
  have pieces : s.flatMap CodePoint.pieces = t.flatMap CodePoint.pieces := by
    apply escape_inj_of_pieces (single hs) (single ht)
    rw [escape_flatMap_pieces, escape_flatMap_pieces, same]
  have units : s.flatMap ModifiedUtf8.units = t.flatMap ModifiedUtf8.units := by
    rw [← flatMap_units_pieces s, pieces, flatMap_units_pieces]
  rw [← ModifiedUtf8.joinPairs_flatMap_units hs.2, units, ModifiedUtf8.joinPairs_flatMap_units ht.2]

-- A tab, a letter, a printable supplementary code point and one that is not.
example : escape [.ofNat 0x09, .ofNat 0x41, .ofNat 0x1F600, .ofNat 0xE0001] =
    ofString "\\tA" ++ [.ofNat 0x1F600] ++ ofString "\\udb40\\udc01" := by
  decide +kernel

/-- Escaped text is printable and stays as it is when escaped again. Texts without a backslash and
without a pair of surrogates have different escaped forms. -/
theorem escape_printable_stable_unambiguous :
    (∀ text : Text, (∀ c ∈ text.escape, c.isPrintable = true) ∧
      text.escape.escape = text.escape) ∧
    ∀ s t : Text, Unescaped s → Unescaped t → s.escape = t.escape → s = t := by
  constructor
  · intro text
    have printable : ∀ c ∈ text.escape, c.isPrintable = true :=
      fun c inside => isPrintable_of_mem_escape inside
    exact ⟨printable, escape_of_isPrintable printable⟩
  · intro s t hs ht same
    exact escape_inj hs ht same

/-- A high surrogate stands before a supplementary code point whose first unit it is. -/
theorem escape_printable_stable_unambiguous_surrogates :
    Unescaped (ModifiedUtf8.decode [0xED, 0xAD, 0x80, 0xED, 0xAD, 0x80, 0xED, 0xB0, 0x81, 0x0A]) ∧
      Unescaped [.ofNat 0xDB40, .ofNat 0xE0001, .ofNat 0x0A] ∧
      ModifiedUtf8.decode [0xED, 0xAD, 0x80, 0xED, 0xAD, 0x80, 0xED, 0xB0, 0x81, 0x0A] =
        [.ofNat 0xDB40, .ofNat 0xE0001, .ofNat 0x0A] := by
  have hs : Unescaped
      (ModifiedUtf8.decode [0xED, 0xAD, 0x80, 0xED, 0xAD, 0x80, 0xED, 0xB0, 0x81, 0x0A]) := by
    decide +kernel
  have ht : Unescaped [.ofNat 0xDB40, .ofNat 0xE0001, .ofNat 0x0A] := by decide +kernel
  exact ⟨hs, ht, escape_printable_stable_unambiguous.2 _ _ hs ht (by decide +kernel)⟩

end Text

end JavaClass
