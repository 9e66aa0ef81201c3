import JavaClass.Proofs.Escape
import Std.Data.String.ToInt

/-!
Texts that are read from the left. A run of characters of one kind ends where one of another kind
comes, so the pieces of a line that ends its runs like that can be told from the whole.
-/

namespace JavaClass

/-- No run of elements with a property goes on into the list. -/
def Stops {α : Type} (p : α → Bool) (list : List α) : Prop := ∀ x ∈ list.head?, p x = false

@[simp] theorem stops_nil {α : Type} (p : α → Bool) : Stops p [] := by
  simp [Stops]

@[simp] theorem stops_cons {α : Type} {p : α → Bool} {x : α} {list : List α} :
    Stops p (x :: list) ↔ p x = false := by
  simp [Stops]

/-- A run of elements with a property ends where one without it follows. -/
theorem append_inj_of_run {α : Type} {p : α → Bool} {a b s t : List α} (ha : ∀ x ∈ a, p x = true)
    (hb : ∀ x ∈ b, p x = true) (hs : Stops p s) (ht : Stops p t) (same : a ++ s = b ++ t) :
    a = b ∧ s = t := by
  have run {a s : List α} (ha : ∀ x ∈ a, p x = true) (hs : Stops p s) :
      (a ++ s).takeWhile p = a := by
    have rest : s.takeWhile p = [] := by
      cases s with
      | nil => rfl
      | cons x s => simp [hs x rfl]
    rw [List.takeWhile_append_of_pos ha, rest, List.append_nil]
  have runs : a = b := by rw [← run ha hs, same, run hb ht]
  rw [runs] at same
  exact ⟨runs, List.append_cancel_left same⟩

namespace CodePoint

def isSpace (c : CodePoint) : Bool := c = ofChar ' '

/-- A digit or a minus sign. -/
def isNumeric (c : CodePoint) : Bool := c = ofChar '-' || 0x30 ≤ c.value && c.value ≤ 0x39

theorem isNumeric_of_isDigit {c : Char} (digit : c.isDigit = true) :
    (ofChar c).isNumeric = true := by
  have bounds : 0x30 ≤ c.toNat ∧ c.toNat ≤ 0x39 := by
    simpa [Char.isDigit, UInt32.le_iff_toNat_le] using digit
  simp [isNumeric, ofChar, bounds]

theorem isSpace_of_isNumeric {c : CodePoint} (numeric : c.isNumeric = true) :
    c.isSpace = false := by
  apply decide_eq_false
  rintro rfl
  exact absurd numeric (by decide)

end CodePoint

namespace Text

theorem ofString_append (a b : String) : ofString (a ++ b) = ofString a ++ ofString b := by
  simp [ofString]

theorem ofString_ofList (chars : List Char) :
    ofString (String.ofList chars) = chars.map CodePoint.ofChar := by
  rw [ofString, String.toList_ofList]

theorem stops_ofString {p : CodePoint → Bool} {c : Char} {chars : List Char} (rest : Text)
    (stop : p (.ofChar c) = false) : Stops p (ofString (String.ofList (c :: chars)) ++ rest) := by
  rw [ofString_ofList]
  exact stops_cons.mpr stop

theorem ofString_injective {a b : String} (same : ofString a = ofString b) : a = b := by
  have chars := (List.map_injective_iff.mpr fun _ _ => CodePoint.ofChar_injective) same
  exact String.toList_inj.mp chars

theorem blanks_append_inj {m n : Nat} {s t : Text} (hs : Stops CodePoint.isSpace s)
    (ht : Stops CodePoint.isSpace t) (same : blanks m ++ s = blanks n ++ t) : s = t := by
  have run (n : Nat) : ∀ c ∈ blanks n, c.isSpace = true := by
    intro c inside
    rw [List.eq_of_mem_replicate inside]
    rfl
  exact (append_inj_of_run (run m) (run n) hs ht same).2

theorem isNumeric_of_mem_toString (n : Int) {c : CodePoint} (inside : c ∈ ofString (toString n)) :
    c.isNumeric = true := by
  obtain ⟨char, member, rfl⟩ := List.mem_map.mp inside
  have digits (k : Nat) (member : char ∈ k.repr.toList) :
      (CodePoint.ofChar char).isNumeric = true := by
    rw [Nat.toList_repr] at member
    apply CodePoint.isNumeric_of_isDigit
    exact Nat.isDigit_of_mem_toDigits (by decide) (by decide) member
  rw [Int.toString_eq_repr, Int.repr_eq_if] at member
  split_ifs at member with sign
  · exact digits _ member
  · rw [String.toList_append] at member
    obtain member | member := List.mem_append.mp member
    · rw [List.mem_singleton.mp member]
      rfl
    · exact digits _ member

theorem toString_append_inj {m n : Int} {s t : Text} (hs : Stops CodePoint.isNumeric s)
    (ht : Stops CodePoint.isNumeric t)
    (same : ofString (toString m) ++ s = ofString (toString n) ++ t) : m = n ∧ s = t := by
  obtain ⟨numbers, rest⟩ := append_inj_of_run (fun _ => isNumeric_of_mem_toString m)
    (fun _ => isNumeric_of_mem_toString n) hs ht same
  exact ⟨Int.repr_injective (ofString_injective numbers), rest⟩

theorem toString_append_inj_nat {m n : Nat} {s t : Text} (hs : Stops CodePoint.isNumeric s)
    (ht : Stops CodePoint.isNumeric t)
    (same : ofString (toString m) ++ s = ofString (toString n) ++ t) : m = n ∧ s = t := by
  obtain ⟨numbers, rest⟩ := toString_append_inj (m := m) (n := n) hs ht same
  exact ⟨Int.ofNat.inj numbers, rest⟩

theorem toString_ne_nil (n : Int) : ofString (toString n) ≠ [] := by
  intro empty
  have empty := List.map_eq_nil_iff.mp empty
  have digits (k : Nat) : k.repr.toList ≠ [] := by
    rw [Nat.toList_repr]
    exact List.ne_nil_of_length_pos Nat.length_toDigits_pos
  rw [Int.toString_eq_repr, Int.repr_eq_if] at empty
  split_ifs at empty with sign
  · exact digits _ empty
  · rw [String.toList_append] at empty
    exact digits _ (List.append_eq_nil_iff.mp empty).2

/-- A number has a character, and no blank. -/
theorem stops_toString (n : Int) (rest : Text) :
    Stops CodePoint.isSpace (ofString (toString n) ++ rest) := by
  cases whole : ofString (toString n) with
  | nil => exact absurd whole (toString_ne_nil n)
  | cons c others =>
    have numeric := isNumeric_of_mem_toString n (whole ▸ List.mem_cons_self)
    exact stops_cons.mpr (CodePoint.isSpace_of_isNumeric numeric)

end Text

end JavaClass
