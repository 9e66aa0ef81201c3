import JavaClass.Proofs.Pool

/-!
The slots of a pool that has been read. Constants stand one behind the other, and only the first
slot and the slots behind constants of two slots are empty. So the counts of a pool, going through
it and looking up an index all agree.
-/

namespace JavaClass

namespace Entry

theorem width_eq_two_iff {e : Entry} : e.width = 2 ↔ e.kind = .long ∨ e.kind = .double := by
  unfold width EntryKind.width
  split <;> simp_all

theorem slots_narrow {e : Entry} (one : e.width = 1) : e.slots = [some e] := by
  simp [slots, one]

theorem slots_wide {e : Entry} (two : e.width = 2) : e.slots = [some e, none] := by
  simp [slots, two]

theorem length_flatMap_slots (entries : List Entry) :
    (entries.flatMap slots).length = (entries.map width).sum := by
  induction entries with
  | nil => rfl
  | cons e entries ih =>
    have length : e.slots.length = e.width := by
      obtain one | two := e.width_eq
      · rw [slots_narrow one, one]
        rfl
      · rw [slots_wide two, two]
        rfl
    rw [List.flatMap_cons, List.length_append, length, ih, List.map_cons, List.sum_cons]

/-- Where constants stand one behind the other, the empty slots are those behind wide ones. -/
theorem flatMap_slots_empty_iff (entries : List Entry) (place : Nat) :
    (entries.flatMap slots)[place]? = some none ↔ ∃ before e, place = before + 1 ∧
      (entries.flatMap slots)[before]? = some (some e) ∧ e.width = 2 := by
  induction entries generalizing place with
  | nil => simp
  | cons e entries ih =>
    rw [List.flatMap_cons]
    -- Behind the slots of `e` the hypothesis applies, but the first slot there needs a look: what
    -- stands before it is a slot of `e`, and the hypothesis knows of none before its first.
    obtain one | two := e.width_eq
    · rw [slots_narrow one, List.singleton_append]
      cases place with
      | zero => simp
      | succ place =>
        rw [List.getElem?_cons_succ, ih]
        cases place with
        | zero => simp [one]
        | succ place => simp
    · rw [slots_wide two]
      cases place with
      | zero => simp
      | succ place =>
        cases place with
        | zero => simp [two]
        | succ place =>
          simp only [List.cons_append, List.nil_append, List.getElem?_cons_succ, ih]
          cases place with
          | zero => simp
          | succ place => simp

end Entry

namespace Pool

/-- The slot is right behind a constant of two slots. -/
def Trails (p : Pool) (place : Nat) : Prop :=
  ∃ before e, place = before + 1 ∧ p.slots[before]? = some (some e) ∧
    (e.kind = .long ∨ e.kind = .double)

/-- Going through the pool gives this constant at this index. -/
def Yields (p : Pool) (index : Int) (e : Entry) : Prop :=
  ∃ place : Nat, index = place ∧ (place, e) ∈ p.entries

/-- What a fault says about an index is so. -/
def Justifies (p : Pool) (index : Int) : IndexFault → Prop
  | .zero => index = 0
  | .outside last => last = p.count - 1 ∧ (index < 1 ∨ last < index)
  | .secondSlot => ∃ place : Nat, index = place ∧ p.Trails place

/-- The books of a pool for which a count was declared: the counts agree, and an index leads to a
constant exactly if going through the pool comes by it. -/
structure Balanced (p : Pool) (declared : Nat) : Prop where
  count_eq : p.count = max declared 1
  slotsUsed_eq : p.slotsUsed = p.count - 1
  size_eq : p.size = (p.entries.map Prod.fst).length
  filled_eq : p.size = p.slots.countP Option.isSome
  ascending : (p.entries.map Prod.fst).Pairwise (· < ·)
  empty_iff (place : Nat) : p.slots[place]? = some none ↔ place = 0 ∨ p.Trails place
  get_iff (index : Int) (e : Entry) : p.get index = .ok e ↔ p.Yields index e
  get_missing (index : Int) : (∀ e, ¬p.Yields index e) →
    ∃ reason, p.get index = .error (.of (.badIndex index reason)) ∧ p.Justifies index reason

variable {p : Pool} {index : Int}

theorem size_eq_countP (p : Pool) : p.size = p.slots.countP Option.isSome := by
  have listed : p.size = p.constants.length := by
    rw [← map_entries, List.length_map]
    rfl
  rw [listed, constants, List.length_filterMap_eq_countP]
  rfl

theorem slotsUsed_eq_sum (p : Pool) : p.slotsUsed = (p.constants.map Entry.width).sum := by
  rw [← map_entries, List.map_map, List.sum_eq_foldr]
  rfl

theorem pairwise_indices (p : Pool) : (p.entries.map Prod.fst).Pairwise (· < ·) := by
  have places : p.slots.zipIdx.Pairwise fun a b => a.2 < b.2 := by
    rw [← List.pairwise_map, List.zipIdx_map_snd]
    exact List.pairwise_lt_range'
  rw [entries, List.pairwise_map, List.pairwise_filterMap]
  refine places.imp fun less => ?_
  intro x found y foundNext
  obtain ⟨_, _, rfl⟩ := Option.map_eq_some_iff.mp found
  obtain ⟨_, _, rfl⟩ := Option.map_eq_some_iff.mp foundNext
  exact less

namespace Valid

variable (valid : p.Valid)
include valid

theorem count_eq : p.count = (p.constants.map Entry.width).sum + 1 := by
  rw [count, valid.placed, List.length_cons, Entry.length_flatMap_slots]

theorem empty_iff (place : Nat) : p.slots[place]? = some none ↔ place = 0 ∨ p.Trails place := by
  unfold Trails
  rw [valid.placed]
  cases place with
  | zero => simp
  | succ place =>
    rw [List.getElem?_cons_succ, Entry.flatMap_slots_empty_iff]
    simp only [Entry.width_eq_two_iff]
    constructor
    · rintro ⟨before, e, rfl, held, wide⟩
      exact .inr ⟨before + 1, e, rfl, held, wide⟩
    · rintro (impossible | ⟨before, e, same, held, wide⟩)
      · omega
      · cases before with
        | zero => cases held
        | succ before => exact ⟨before, e, by omega, held, wide⟩

theorem get_iff (index : Int) (e : Entry) : p.get index = .ok e ↔ p.Yields index e := by
  rw [get_eq_ok_iff]
  constructor
  · intro holds
    have place : index = index.toNat := by
      have := holds.1
      omega
    rw [place] at holds
    exact ⟨_, place, (holds_iff_mem_entries valid.first_empty).mp holds⟩
  · rintro ⟨place, rfl, listed⟩
    exact (holds_iff_mem_entries valid.first_empty).mpr listed

/-- An index that leads to no constant is refused, for a reason that holds. -/
theorem get_missing (index : Int) (missing : ∀ e, ¬p.Yields index e) :
    ∃ reason, p.get index = .error (.of (.badIndex index reason)) ∧ p.Justifies index reason := by
  by_cases zero : index = 0
  · exact ⟨.zero, by rw [get, if_pos zero], zero⟩
  by_cases outside : index < 0 ∨ (p.count : Int) ≤ index
  · refine ⟨.outside (p.count - 1), by rw [get, if_neg zero, if_pos outside], rfl, ?_⟩
    omega
  · have inside : index.toNat < p.slots.length := by
      unfold count at outside
      omega
    have place : index = index.toNat := by omega
    have held : p.slots[index.toNat]? = some none := by
      cases slot : p.slots[index.toNat] with
      | none => rw [List.getElem?_eq_getElem inside, slot]
      | some e =>
        have listed : (index.toNat, e) ∈ p.entries := by
          rw [mem_entries_iff, List.getElem?_eq_getElem inside, slot]
        exact absurd ⟨_, place, listed⟩ (missing e)
    have trails : p.Trails index.toNat := by
      obtain first | trails := (valid.empty_iff _).mp held
      · omega
      · exact trails
    refine ⟨.secondSlot, ?_, _, place, trails⟩
    rw [get, if_neg zero, if_neg outside, held]

end Valid

/-- The books of a pool that has been read balance. -/
theorem balanced_of_read {c d : Cursor} (reads : read c = .ok p d) :
    ∃ declared rest, Reader.u2 c = .ok declared rest ∧ p.Balanced declared := by
  unfold read at reads
  obtain ⟨declared, rest, counts, reads⟩ := bind_ok_iff.mp reads
  obtain ⟨used, inside, -⟩ := (follows_readCounted declared).ok_iff.mp reads
  obtain ⟨⟨valid, widths⟩, -⟩ := Format.mem_require_mul.mp inside
  have counted := valid.count_eq
  refine ⟨declared, rest, counts, ?_⟩
  exact {
    count_eq := by omega
    slotsUsed_eq := by rw [slotsUsed_eq_sum, counted, Nat.add_sub_cancel]
    size_eq := by rw [List.length_map, size]
    filled_eq := p.size_eq_countP
    ascending := p.pairwise_indices
    empty_iff := valid.empty_iff
    get_iff := valid.get_iff
    get_missing := valid.get_missing }

/-- Bytes of an integer, a long and a double, whose second slot is the last one. -/
def wideBytes : List UInt8 := [
  0, 6,
  3, 0, 0, 0, 7,
  5, 0, 0, 0, 0, 0, 0, 0, 1,
  6, 0x40, 0x45, 0, 0, 0, 0, 0, 0]

def widePool : Pool :=
  ⟨[none, some (.integer 7), some (.long 1), none,
    some (.double (.ofBits 0x4045000000000000)), none]⟩

theorem balanced_of_read_wide :
    read (.ofBytes wideBytes 0) = .ok widePool ⟨0, 25, []⟩ ∧ widePool.Balanced 6 := by
  have reads : read (.ofBytes wideBytes 0) = .ok widePool ⟨0, 25, []⟩ := by rfl
  obtain ⟨declared, rest, counts, balanced⟩ := balanced_of_read reads
  have six : Reader.u2 (.ofBytes wideBytes 0) = .ok 6 ⟨0, 2, wideBytes.drop 2⟩ := by rfl
  cases six.symm.trans counts
  exact ⟨reads, balanced⟩

end Pool

end JavaClass
