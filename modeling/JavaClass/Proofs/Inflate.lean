import JavaClass.Storage.Inflate

/-!
How far inflating goes. Blocks and symbols are counted down from a bound, so that the reading of
them ends. Each takes up a bit, so a bound above the number of bits is never reached, and what comes
out does not depend on it. The lengths of codes are counted down from their number, and each step
gives one.
-/

namespace JavaClass.Inflate

/-- The number of bits that have not been read. -/
def State.left (s : State) : Nat := s.bits.length + 8 * s.rest.length

/-- Bits that have been read are not put back. -/
structure Spends {α : Type} (x : Inflater α) : Prop where
  left_le {s t : State} {a : α} : x s = .ok a t → t.left ≤ s.left

section
variable {α β : Type} {x y : Inflater α} {f g : α → Inflater β}

theorem exists_of_bind {s t : State} {b : β} (ran : (x >>= f) s = .ok b t) :
    ∃ a m, x s = .ok a m ∧ f a m = .ok b t := by
  change EStateM.bind x f s = _ at ran
  unfold EStateM.bind at ran
  cases first : x s with
  | ok a m =>
    rw [first] at ran
    exact ⟨a, m, rfl, ran⟩
  | error stop m =>
    rw [first] at ran
    cases ran

/-- Two runs are the same if they begin alike and go on alike from wherever that leads. -/
theorem bind_congr {s : State} (first : x s = y s) (rest : ∀ a t, x s = .ok a t → f a t = g a t) :
    (x >>= f) s = (y >>= g) s := by
  change EStateM.bind x f s = EStateM.bind y g s
  unfold EStateM.bind
  rw [← first]
  cases ran : x s with
  | ok a t => exact rest a t ran
  | error stop t => rfl

namespace Spends

protected theorem pure (a : α) : Spends (pure a : Inflater α) where
  left_le := by
    rintro s t b ⟨⟩
    exact Nat.le_refl _

protected theorem throw (stop : Stop) : Spends (throw stop : Inflater α) where
  left_le := by
    rintro s t a ⟨⟩

protected theorem get : Spends (get : Inflater State) where
  left_le := by
    rintro s t a ⟨⟩
    exact Nat.le_refl _

protected theorem modify {change : State → State} (fewer : ∀ s, (change s).left ≤ s.left) :
    Spends (modify change : Inflater Unit) where
  left_le := by
    rintro s t a ⟨⟩
    exact fewer s

theorem bind (first : Spends x) (rest : ∀ a, Spends (f a)) : Spends (x >>= f) where
  left_le ran := by
    obtain ⟨a, m, front, back⟩ := exists_of_bind ran
    exact Nat.le_trans ((rest a).left_le back) (first.left_le front)

theorem ite {condition : Prop} [Decidable condition] (yes : Spends x) (no : Spends y) :
    Spends (if condition then x else y) := by
  split
  · exact yes
  · exact no

/-- A check that may stop the run. -/
theorem guarded {condition : Prop} [Decidable condition] {stop : Stop} {next : Unit → Inflater β}
    (rest : Spends (next ())) :
    Spends (if condition then (throw stop : Inflater Unit) >>= next else next ()) := by
  split
  · exact (Spends.throw stop).bind fun _ => rest
  · exact rest

theorem mapM {step : α → Inflater β} (each : ∀ a, Spends (step a)) (list : List α) :
    Spends (list.mapM step) := by
  induction list with
  | nil => exact .pure _
  | cons a list ih =>
    rw [List.mapM_cons]
    exact (each a).bind fun _ => ih.bind fun _ => .pure _

end Spends

end

theorem left_of_bit {s t : State} {b : Bool} (ran : bit s = .ok b t) : t.left + 1 = s.left := by
  obtain ⟨bits, rest, out⟩ := s
  cases bits with
  | cons first bits =>
    cases ran
    simp only [State.left, List.length_cons]
    omega
  | nil =>
    cases rest with
    | nil => cases ran
    | cons byte rest =>
      cases ran
      simp only [State.left, List.length_cons, List.length_map, List.length_range, List.length_nil]
      omega

theorem spends_bit : Spends bit where
  left_le ran := by
    have := left_of_bit ran
    omega

theorem spends_number (width : Nat) : Spends (number width) := by
  induction width with
  | zero => exact .pure _
  | succ width ih => exact spends_bit.bind fun _ => ih.bind fun _ => .pure _

namespace Code

theorem spends_readPlace (counts : List Nat) (front first place : Nat) :
    Spends (readPlace counts front first place) := by
  induction counts generalizing front first place with
  | nil => exact .pure _
  | cons count counts ih => exact spends_bit.bind fun _ => .ite (.pure _) (ih _ _ _)

theorem spends_read? (code : Code) : Spends code.read? :=
  (spends_readPlace _ _ _ _).bind fun _ => .pure _

theorem left_lt_of_readPlace {counts : List Nat} {front first place found : Nat} {s t : State}
    (ran : readPlace counts front first place s = .ok (some found) t) : t.left < s.left := by
  cases counts with
  | nil => cases ran
  | cons count counts =>
    obtain ⟨b, m, reads, rest⟩ := exists_of_bind ran
    have fewer := left_of_bit reads
    have spent := (Spends.ite (.pure _) (spends_readPlace _ _ _ _)).left_le rest
    omega

/-- No symbol is read from nothing. -/
theorem left_lt_of_read? {code : Code} {s t : State} {symbol : Nat}
    (ran : code.read? s = .ok (some symbol) t) : t.left < s.left := by
  obtain ⟨place, m, reads, rest⟩ := exists_of_bind ran
  cases place with
  | none => cases rest
  | some place =>
    obtain ⟨-, rfl⟩ := EStateM.Result.ok.inj rest
    exact left_lt_of_readPlace reads

end Code

theorem spends_readRepeat (symbol : Nat) : Spends (readRepeat symbol) := by
  unfold readRepeat
  split
  all_goals exact (spends_number _).bind fun _ => .pure _

theorem spends_readLengths (code : Code) (total count : Nat) (lengths : Array Nat) :
    Spends (readLengths code total count lengths) := by
  induction count generalizing lengths with
  | zero => exact .pure _
  | succ count ih =>
    refine .ite (.pure _) (code.spends_read?.bind fun symbol => .ite (ih _) ?_)
    exact (spends_readRepeat _).bind fun times => .guarded (ih _)

theorem spends_readCodes : Spends readCodes := by
  unfold readCodes
  refine (spends_number _).bind fun literalCount => (spends_number _).bind fun distanceCount =>
    (spends_number _).bind fun lengthCount => .guarded ?_
  refine (Spends.mapM (fun _ => (spends_number _).bind fun _ => .pure _) _).bind fun given =>
    .guarded ?_
  refine (spends_readLengths _ _ _ _).bind fun lengths => .guarded (.guarded (.guarded ?_))
  exact .pure _

theorem spends_readValue (table : Array (Nat × Nat)) (flaw : Flaw) (symbol : Nat) :
    Spends (readValue table flaw symbol) := by
  unfold readValue
  split
  · exact (spends_number _).bind fun _ => .pure _
  · exact .throw _

theorem spends_readSymbols (codes : Codes) (count : Nat) : Spends (readSymbols codes count) := by
  induction count with
  | zero => exact .throw _
  | succ count ih =>
    unfold readSymbols
    refine codes.literals.spends_read?.bind fun found => ?_
    cases found with
    | none => exact .throw _
    | some symbol =>
      refine .ite (.bind (.modify fun _ => by exact Nat.le_refl _) fun _ => ih)
        (.ite (.pure _) ?_)
      refine (spends_readValue _ _ _).bind fun length => codes.distances.spends_read?.bind
        fun found => ?_
      cases found with
      | none => exact .throw _
      | some symbol =>
        refine (spends_readValue _ _ _).bind fun distance => Spends.get.bind fun _ => .guarded ?_
        exact .bind (.modify fun _ => by exact Nat.le_refl _) fun _ => ih

theorem spends_readStored : Spends readStored := by
  unfold readStored
  refine (Spends.modify fun s => ?_).bind fun _ => (spends_number _).bind fun length =>
    (spends_number _).bind fun complement => .guarded ?_
  · simp only [State.left, List.length_nil]
    omega
  · refine Spends.get.bind fun _ => (Spends.modify fun s => ?_).bind fun _ =>
      .ite (.throw _) (.pure _)
    simp only [State.left, List.length_drop]
    omega

/-- A count above the number of bits lasts for all symbols, so it may as well be greater. -/
theorem readSymbols_of_enough (codes : Codes) {count : Nat} (more : Nat) {s : State}
    (enough : s.left < count) :
    readSymbols codes (count + more) s = readSymbols codes count s := by
  induction count generalizing s with
  | zero => omega
  | succ count ih =>
    rw [Nat.add_right_comm]
    unfold readSymbols
    refine bind_congr rfl fun found t reads => ?_
    cases found with
    | none => rfl
    | some symbol =>
      have fewer := Code.left_lt_of_read? reads
      dsimp only
      split
      · exact ih (by change t.left < count; omega)
      · split
        · rfl
        refine bind_congr rfl fun length u reads => ?_
        have spent := (spends_readValue _ _ _).left_le reads
        refine bind_congr rfl fun found v reads => ?_
        have spent := codes.distances.spends_read?.left_le reads
        cases found with
        | none => rfl
        | some symbol =>
          refine bind_congr rfl fun distance w reads => ?_
          have spent := (spends_readValue _ _ _).left_le reads
          refine bind_congr rfl fun _ _ reads => ?_
          cases reads
          split
          · rfl
          · exact ih (by change w.left < count; omega)

theorem readBlocks_of_enough {limit count : Nat} (higher more : Nat) {s : State}
    (enough : s.left < count) (within : s.left < limit) :
    readBlocks (limit + higher) (count + more) s = readBlocks limit count s := by
  induction count generalizing s with
  | zero => omega
  | succ count ih =>
    rw [Nat.add_right_comm]
    unfold readBlocks
    refine bind_congr rfl fun isLast t reads => ?_
    have fewer := left_of_bit reads
    refine bind_congr rfl fun kind u reads => ?_
    have spent := (spends_number _).left_le reads
    have next (v : State) (order : v.left ≤ u.left) :
        (if !isLast then readBlocks (limit + higher) (count + more) else pure ()) v =
          (if !isLast then readBlocks limit count else pure ()) v := by
      split
      · exact ih (by omega) (by omega)
      · rfl
    have block (codes : Codes) (v : State) (order : v.left ≤ u.left) :
        (readSymbols codes (limit + higher) >>= fun _ =>
            if !isLast then readBlocks (limit + higher) (count + more) else pure ()) v =
          (readSymbols codes limit >>= fun _ =>
            if !isLast then readBlocks limit count else pure ()) v := by
      refine bind_congr (readSymbols_of_enough codes higher (by omega)) fun _ w reads => next w ?_
      exact Nat.le_trans ((spends_readSymbols _ _).left_le reads) order
    split
    · exact bind_congr rfl fun _ v reads => next v (spends_readStored.left_le reads)
    · exact block fixedCodes u (Nat.le_refl _)
    · exact bind_congr rfl fun codes v reads => block codes v (spends_readCodes.left_le reads)
    · rfl

theorem pos_of_readRepeat {symbol times : Nat} {s t : State}
    (ran : readRepeat symbol s = .ok times t) : 0 < times := by
  unfold readRepeat at ran
  split at ran
  all_goals
    obtain ⟨extra, m, -, rest⟩ := exists_of_bind ran
    cases rest
    omega

/-- Every step gives a length, so that a count of those which are missing is enough. -/
theorem readLengths_of_enough (code : Code) {total count : Nat} (more : Nat) {lengths : Array Nat}
    (enough : total ≤ lengths.size + count) (s : State) :
    readLengths code total (count + more) lengths s = readLengths code total count lengths s := by
  induction count generalizing lengths s with
  | zero =>
    cases more with
    | zero => rfl
    | succ more =>
      unfold readLengths
      rw [if_pos (by omega)]
  | succ count ih =>
    rw [Nat.add_right_comm]
    unfold readLengths
    split
    · rfl
    refine bind_congr rfl fun found t reads => ?_
    dsimp only
    split
    · exact ih (by rw [Array.size_push]; omega) t
    refine bind_congr rfl fun times u reads => ?_
    have some := pos_of_readRepeat reads
    split
    · rfl
    · exact ih (by rw [Array.size_append, Array.size_replicate]; omega) u

/-- No count is used up before its time: with a greater one the lengths of codes are the same, and
so is what comes out of all blocks. -/
theorem counts_suffice :
    (∀ (code : Code) (total more : Nat) (s : State),
      readLengths code total (total + more) #[] s = readLengths code total total #[] s) ∧
    ∀ (bytes : List UInt8) (limit : Nat), 8 * bytes.length < limit →
      readBlocks limit limit ⟨[], bytes, #[]⟩ = run bytes := by
  constructor
  · intro code total more s
    exact readLengths_of_enough code more (by simp) s
  · intro bytes limit enough
    obtain ⟨more, rfl⟩ := Nat.exists_eq_add_of_le (Nat.succ_le_of_lt enough)
    have left : State.left ⟨[], bytes, #[]⟩ = 8 * bytes.length := Nat.zero_add _
    exact readBlocks_of_enough more more (by omega) (by omega)

end JavaClass.Inflate
