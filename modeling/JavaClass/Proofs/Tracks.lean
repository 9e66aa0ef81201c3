import JavaClass.Proofs.PrefixFree
import JavaClass.Proofs.Windows

/-!
Where faults are placed. A reader looks at offsets only to place its faults at them. So the same
bytes at another offset have the same outcome, with its fault moved along, and no fault is placed
before the reader's start or past the end of its data.
-/

namespace JavaClass

open HasCursor (cursor)

/-- The same bytes at another offset. -/
def Cursor.moved (distance : Int) (c : Cursor) : Cursor := { c with base := c.base + distance }

/-- The same fault at another offset. -/
def Failure.moved (distance : Int) : Failure → Failure
  | .fault cause offset => .fault cause (offset.map (· + distance))
  | failure => failure

/-- States that can be at another offset. -/
class Movable (σ : Type) where
  moved : Int → σ → σ

instance : Movable Cursor := ⟨Cursor.moved⟩

instance : Movable Scan := ⟨fun distance s => { s with cursor := s.cursor.moved distance }⟩

open Movable (moved)

/-- The same outcome at another offset. -/
def moveOutcome {σ α : Type} [Movable σ] (distance : Int) :
    EStateM.Result Failure σ α → EStateM.Result Failure σ α
  | .ok a s => .ok a (moved distance s)
  | .error failure s => .error (failure.moved distance) (moved distance s)

/-- A constant is not there, or is not of the kind that it has to be. -/
def Cause.IsLookup (cause : Cause) : Prop :=
  cause.kind = .indexOutOfRange ∨ cause.kind = .typeMismatch

instance : DecidablePred Cause.IsLookup := fun _ => inferInstanceAs (Decidable (_ ∨ _))

/-- What may be placed at an offset, and what may be left without one. Where data runs out is always
known. -/
structure Policy where
  placed : Cause → Prop
  unplaced : Cause → Prop
  truncated : ∀ wanted available, placed (.truncated wanted available)

namespace Policy

/-- Looking up a constant says nothing about a place in the data. -/
def reading : Policy where
  placed cause := ¬cause.IsLookup
  unplaced _ := True
  truncated _ _ := by simp [Cause.IsLookup, Cause.kind]

theorem placed_of_kind {cause : Cause} (kind : FaultKind) (same : cause.kind = kind)
    (other : kind ≠ .indexOutOfRange ∧ kind ≠ .typeMismatch) : reading.placed cause := by
  subst same
  exact not_or.mpr other

theorem placed_of_malformed {cause : Cause} (malformed : cause.kind = .malformedData) :
    reading.placed cause :=
  placed_of_kind .malformedData malformed (by decide)

def lenient : Policy where
  placed _ := True
  unplaced _ := True
  truncated _ _ := trivial

/-- Nothing is left without a place. -/
def strict : Policy where
  placed _ := True
  unplaced _ := False
  truncated _ _ := trivial

end Policy

/-- What ends the reading of data: a fault, placed from `first` to `last` if it is placed, or data
that nests too deep. -/
def Failure.Obeys (policy : Policy) (first last : Int) : Failure → Prop
  | .fault cause (some offset) => policy.placed cause ∧ first ≤ offset ∧ offset ≤ last
  | .fault cause none => policy.unplaced cause
  | .tooDeep => True
  | _ => False

namespace Failure

variable {policy : Policy} {first last offset distance : Int} {failure : Failure}

theorem Obeys.wider {start stop : Int} (obeys : failure.Obeys policy first last)
    (earlier : start ≤ first) (later : last ≤ stop) : failure.Obeys policy start stop := by
  cases failure with
  | fault cause offset =>
    cases offset with
    | none => exact obeys
    | some offset =>
      obtain ⟨placed, after, before⟩ := obeys
      exact ⟨placed, Int.le_trans earlier after, Int.le_trans before later⟩
  | _ => exact obeys

/-- The lenient policy forbids nothing. -/
theorem Obeys.toLenient (obeys : failure.Obeys policy first last) :
    failure.Obeys .lenient first last := by
  cases failure with
  | fault cause offset =>
    cases offset with
    | none => trivial
    | some offset => exact ⟨trivial, obeys.2⟩
  | _ => exact obeys

theorem Obeys.locate (obeys : failure.Obeys policy first last) (after : first ≤ offset)
    (before : offset ≤ last) : (failure.locate offset).Obeys .strict first last := by
  cases failure with
  | fault cause place =>
    cases place with
    | none => exact ⟨trivial, after, before⟩
    | some place => exact ⟨trivial, obeys.2⟩
  | _ => exact obeys

theorem moved_locate (failure : Failure) (offset distance : Int) :
    (failure.locate offset).moved distance =
      (failure.moved distance).locate (offset + distance) := by
  cases failure with
  | fault cause place => cases place <;> rfl
  | _ => rfl

end Failure

namespace Cursor

variable {c d : Cursor} {used : List UInt8}

theorem offset_moved (distance : Int) (c : Cursor) :
    (c.moved distance).offset = c.offset + distance := by
  simp only [moved, offset]
  omega

theorem offset_le_stop (c : Cursor) : c.offset ≤ c.stop := by
  simp only [stop]
  omega

theorem Passes.offset_eq (passes : c.Passes used d) : d.offset = c.offset + used.length := by
  simp only [offset, passes.base, passes.pos]
  omega

theorem not_lacks_iff {n : Int} : ¬c.Lacks n ↔ 0 ≤ n ∧ n ≤ c.remaining := by
  unfold Lacks
  omega

theorem passes_advance {n : Int} (enough : ¬c.Lacks n) :
    (((c.rest.take n.toNat).length : Nat) : Int) = n ∧
      c.Passes (c.rest.take n.toNat) (c.advance n.toNat) := by
  obtain ⟨nonnegative, fits⟩ := not_lacks_iff.mp enough
  have length : (c.rest.take n.toNat).length = n.toNat := by
    unfold remaining at fits
    rw [List.length_take]
    omega
  refine ⟨by omega, rfl, ?_, (List.take_append_drop n.toNat c.rest).symm⟩
  rw [length]
  rfl

end Cursor

section
variable {σ α β : Type} [HasCursor σ] [Movable σ]

/-- An outcome from a state, and the outcome of the same from the state at a distance. -/
structure Agrees (policy : Policy) (distance first : Int) (s : σ)
    (outcome other : EStateM.Result Failure σ α) : Prop where
  same : other = moveOutcome distance outcome
  forward : ∀ {a t}, outcome = .ok a t → ∃ used, (cursor s).Passes used (cursor t)
  places : ∀ {failure t}, outcome = .error failure t →
    failure.Obeys policy first (cursor s).stop

namespace Agrees

variable {policy : Policy} {distance first : Int} {s m t : σ} {used : List UInt8}
  {outcome other : EStateM.Result Failure σ α} {failure : Failure}

protected theorem ok {a : α} (passes : (cursor s).Passes used (cursor t)) :
    Agrees policy distance first s (.ok a t) (.ok a (moved distance t)) := by
  refine ⟨rfl, fun gives => ?_, fun fails => ?_⟩
  · cases gives
    exact ⟨used, passes⟩
  · cases fails

protected theorem error (obeys : failure.Obeys policy first (cursor s).stop) :
    Agrees policy distance first s (.error failure t : EStateM.Result Failure σ α)
      (.error (failure.moved distance) (moved distance t)) := by
  refine ⟨rfl, fun gives => ?_, fun fails => ?_⟩
  · cases gives
  · cases fails
    exact obeys

/-- What has been passed before makes no difference. -/
theorem after (passes : (cursor s).Passes used (cursor m))
    (agrees : Agrees policy distance first m outcome other) :
    Agrees policy distance first s outcome other := by
  refine ⟨agrees.same, fun gives => ?_, fun fails => ?_⟩
  · obtain ⟨later, passesLater⟩ := agrees.forward gives
    exact ⟨used ++ later, Cursor.passes_append.mpr ⟨_, passes, passesLater⟩⟩
  · rw [← passes.stop_eq]
    exact agrees.places fails

end Agrees

/-- From past the mark on, the readers do the same at a distance, and place no fault before
`first`. -/
def Tracks (policy : Policy) (distance first mark : Int) (reader other : EStateM Failure σ α) :
    Prop :=
  ∀ s, first ≤ mark → mark ≤ (cursor s).offset →
    Agrees policy distance first s (reader s) (other (moved distance s))

omit [HasCursor σ] [Movable σ] in
theorem bind_error_iff {reader : EStateM Failure σ α} {next : α → EStateM Failure σ β} {s t : σ}
    {failure : Failure} : (reader >>= next) s = .error failure t ↔
      reader s = .error failure t ∨ ∃ a m, reader s = .ok a m ∧ next a m = .error failure t := by
  change EStateM.bind reader next s = _ ↔ _
  unfold EStateM.bind
  cases reader s <;> simp

namespace Tracks

variable {policy : Policy} {distance first mark : Int} {reader other : EStateM Failure σ α}
  {next otherNext : α → EStateM Failure σ β}

protected theorem pure (a : α) :
    Tracks policy distance first mark (pure a : EStateM Failure σ α) (pure a) := by
  intro s _ _
  exact .ok (Cursor.passes_nil.mpr rfl)

/-- A fault at an offset between the first one and the mark. -/
protected theorem fault {cause : Cause} {offset : Int} (placed : policy.placed cause)
    (after : first ≤ offset) (before : offset ≤ mark) :
    Tracks policy distance first mark (throw (.atOffset cause offset) : EStateM Failure σ α)
      (throw (.atOffset cause (offset + distance))) := by
  intro s _ past
  exact .error ⟨placed, after, Int.le_trans (Int.le_trans before past) (cursor s).offset_le_stop⟩

protected theorem tooDeep :
    Tracks policy distance first mark (throw .tooDeep : EStateM Failure σ α) (throw .tooDeep) := by
  intro s _ _
  exact .error trivial

protected theorem bind (leads : Tracks policy distance first mark reader other)
    (others : ∀ a, Tracks policy distance first mark (next a) (otherNext a)) :
    Tracks policy distance first mark (reader >>= next) (other >>= otherNext) := by
  intro s ordered past
  have agrees := leads s ordered past
  have moves := agrees.same
  cases run : reader s with
  | error failure t =>
    rw [run] at moves
    rw [bind_eq_of_error run, bind_eq_of_error moves]
    exact .error (agrees.places run)
  | ok a m =>
    rw [run] at moves
    obtain ⟨used, passes⟩ := agrees.forward run
    rw [bind_eq_of_ok run, bind_eq_of_ok moves]
    exact (others a m ordered (by rw [passes.offset_eq]; omega)).after passes

protected theorem ite {condition : Prop} [Decidable condition]
    {reader' other' : EStateM Failure σ α} (leads : Tracks policy distance first mark reader other)
    (otherwise : Tracks policy distance first mark reader' other') :
    Tracks policy distance first mark (if condition then reader else reader')
      (if condition then other else other') := by
  split
  · exact leads
  · exact otherwise

theorem ite_bind {condition : Prop} [Decidable condition]
    {check otherCheck : EStateM Failure σ Unit}
    (checks : Tracks policy distance first mark check otherCheck)
    (others : Tracks policy distance first mark reader other) :
    Tracks policy distance first mark (if condition then check >>= fun _ => reader else reader)
      (if condition then otherCheck >>= fun _ => other else other) :=
  .ite (checks.bind fun _ => others) others

protected theorem times (n : Nat) (leads : Tracks policy distance first mark reader other) :
    Tracks policy distance first mark (times n reader) (times n other) := by
  induction n with
  | zero => exact .pure []
  | succ n ih => exact leads.bind fun first => ih.bind fun others => .pure _

/-- A number of items behind their number. -/
protected theorem counted {count otherCount : EStateM Failure σ Nat} {make : List α → β}
    (counts : Tracks policy distance first mark count otherCount)
    (leads : Tracks policy distance first mark reader other) :
    Tracks policy distance first mark
      (count >>= fun n => times n reader >>= fun items => pure (make items))
      (otherCount >>= fun n => times n other >>= fun items => pure (make items)) :=
  counts.bind fun n => (leads.times n).bind fun _ => .pure _

protected theorem forM {check otherCheck : α → EStateM Failure σ Unit} (items : List α)
    (leads : ∀ a, Tracks policy distance first mark (check a) (otherCheck a)) :
    Tracks policy distance first mark (items.forM check) (items.forM otherCheck) := by
  induction items with
  | nil => exact .pure ()
  | cons a items ih => exact (leads a).bind fun _ => ih

protected theorem discard (leads : Tracks policy distance first mark reader other) :
    Tracks policy distance first mark (discard reader) (discard other) := by
  rw [discard_eq_bind, discard_eq_bind]
  exact leads.bind fun _ => .pure ()

theorem toLenient (leads : Tracks policy distance first mark reader other) :
    Tracks .lenient distance first mark reader other := by
  intro s ordered past
  obtain ⟨same, forward, places⟩ := leads s ordered past
  exact ⟨same, forward, fun fails => (places fails).toLenient⟩

end Tracks

end

/-- Work that fails at no place. -/
def Placeless {α : Type} (x : Except Failure α) : Prop :=
  ∀ failure, x = .error failure → ∃ cause, failure = .of cause

namespace Placeless

variable {α β : Type} {x : Except Failure α} {next : α → Except Failure β}

protected theorem ok (a : α) : Placeless (.ok a) := by
  intro failure fails
  cases fails

protected theorem error (cause : Cause) : Placeless (.error (.of cause) : Except Failure α) := by
  intro failure fails
  cases fails
  exact ⟨cause, rfl⟩

protected theorem bind (first : Placeless x) (others : ∀ a, Placeless (next a)) :
    Placeless (x >>= next) := by
  cases x with
  | ok a => exact others a
  | error failure =>
    obtain ⟨cause, rfl⟩ := first failure rfl
    exact .error cause

protected theorem discard (placeless : Placeless x) : Placeless (discard x) := by
  cases x with
  | ok a => exact .ok ()
  | error failure =>
    obtain ⟨cause, rfl⟩ := placeless failure rfl
    exact .error cause

end Placeless

namespace Pool

theorem placeless_get (p : Pool) (index : Int) : Placeless (p.get index) := by
  unfold get
  split
  · exact .error _
  · split
    · exact .error _
    · split
      · exact .ok _
      · exact .error _

theorem placeless_expect (p : Pool) (index : Int) (kinds : List EntryKind) :
    Placeless (p.expect index kinds) := by
  apply (p.placeless_get index).bind
  intro entry
  split
  · exact .ok _
  · exact .error _

theorem placeless_utf8 (p : Pool) (index : Int) : Placeless (p.utf8 index) := by
  apply (p.placeless_get index).bind
  intro entry
  split
  · exact .ok _
  · exact .error _

theorem placeless_className (p : Pool) (index : Int) : Placeless (p.className index) := by
  apply (p.placeless_get index).bind
  intro entry
  split
  · exact p.placeless_utf8 _
  · exact .error _

theorem placeless_expectOptional (p : Pool) (index : Nat) (kinds : List EntryKind) :
    Placeless (p.expectOptional index kinds) := by
  unfold expectOptional
  split
  · exact .ok _
  · exact (p.placeless_expect index kinds).discard

end Pool

theorem Entry.placeless_checkLinks (p : Pool) (index : Nat) (e : Entry) :
    Placeless (e.checkLinks p index) := by
  have expect (target : Int) (kinds : List EntryKind) :
      Placeless (discard (p.expect target kinds)) :=
    (p.placeless_expect target kinds).discard
  cases e with
  | memberRef | nameAndType => exact (expect _ _).bind fun _ => expect _ _
  | methodHandle kind reference =>
    rw [checkLinks]
    split
    · exact .error _
    · exact expect _ _
  | utf8 | integer | float | long | double | unknown => exact .ok ()
  | _ => exact expect _ _

theorem Pool.placeless_checkLinks (p : Pool) : Placeless p.checkLinks := by
  unfold checkLinks
  induction p.entries with
  | nil => exact .ok ()
  | cons e entries ih => exact (Entry.placeless_checkLinks p _ _).bind fun _ => ih

theorem Reader.takes_bytes (n : Nat) : Takes (bytes n) n fun _ bytes => bytes := by
  rw [← bytesOf_cast]
  exact takes_bytesOf n

namespace Scanner

variable {α : Type} {scanner : Scanner α} {window : Cursor} {s t : Scan} {a : α} {failure : Failure}

theorem within_of_ok (run : scanner ⟨window, s.notes⟩ = .ok a t) :
    within window scanner s = .ok (a, t.cursor) { s with notes := t.notes } := by
  simp only [within, run]

theorem within_of_error (run : scanner ⟨window, s.notes⟩ = .error failure t) :
    within window scanner s = .error failure { s with notes := t.notes } := by
  simp only [within, run]

end Scanner

namespace Tracks

variable {α β : Type} {policy : Policy} {distance first mark : Int}

/-- Work outside of the data, which may give a fault that was placed in the data before. -/
theorem lift {x y : Except Failure α} (same : y = x.mapError (Failure.moved distance))
    (places : ∀ {failure}, x = .error failure → failure.Obeys policy first mark) :
    Tracks policy distance first mark (liftM x : Reader α) (liftM y) := by
  intro c _ past
  subst same
  have inside : mark ≤ c.stop := Int.le_trans past c.offset_le_stop
  cases x with
  | ok a => exact (Tracks.pure a : Tracks policy distance first mark _ _) c (by omega) past
  | error failure =>
    exact .error ((places rfl).wider (Int.le_refl _) inside)

theorem lookup {x : Except Failure α} (placeless : Placeless x) :
    Tracks .reading distance first mark (liftM x : Reader α) (liftM x) := by
  apply lift
  · cases x with
    | ok a => rfl
    | error failure =>
      obtain ⟨cause, rfl⟩ := placeless failure rfl
      rfl
  · intro failure fails
    obtain ⟨cause, rfl⟩ := placeless failure fails
    trivial

theorem offset_bind {next other : Int → Reader α}
    (others : ∀ offset, first ≤ offset →
      Tracks policy distance first offset (next offset) (other (offset + distance))) :
    Tracks policy distance first mark (Reader.offset >>= next) (Reader.offset >>= other) := by
  intro c ordered past
  have after : first ≤ c.offset := Int.le_trans ordered past
  have agrees := others c.offset after c after (Int.le_refl _)
  rw [← Cursor.offset_moved] at agrees
  exact agrees

theorem offset_bind_scan {next other : Int → Scanner α}
    (others : ∀ offset, first ≤ offset →
      Tracks policy distance first offset (next offset) (other (offset + distance))) :
    Tracks policy distance first mark (liftM Reader.offset >>= next)
      (liftM Reader.offset >>= other) := by
  intro s ordered past
  have after : first ≤ s.cursor.offset := Int.le_trans ordered past
  have agrees := others s.cursor.offset after s after (Int.le_refl _)
  rw [← Cursor.offset_moved] at agrees
  exact agrees

protected theorem scan {reader other : Reader α}
    (leads : Tracks policy distance first mark reader other) :
    Tracks policy distance first mark (liftM reader : Scanner α) (liftM other) := by
  intro s ordered past
  obtain ⟨moves, forward, places⟩ := leads s.cursor ordered past
  cases run : reader s.cursor with
  | ok a c =>
    rw [run] at moves
    rw [Scanner.lift_ok_iff.mpr ⟨c, run, rfl⟩,
      (Scanner.lift_ok_iff (s := moved distance s)).mpr ⟨_, moves, rfl⟩]
    obtain ⟨used, passes⟩ := forward run
    exact Agrees.ok (s := s) (t := ⟨c, s.notes⟩) passes
  | error failure c =>
    rw [run] at moves
    rw [Scanner.lift_eq_error run, Scanner.lift_eq_error (s := moved distance s) moves]
    exact .error (places run)

section
variable {reader : Reader α} {n : Int} {make : Int → List UInt8 → α}

/-- The bytes that a read takes are behind the cursor, and what it makes of them goes along with
their offset. -/
theorem takes_bind (takes : reader.Takes n make) {next other : α → Scanner β}
    (others : ∀ offset taken, mark ≤ offset → (taken.length : Int) = n →
      Tracks policy distance first (offset + n) (next (make offset taken))
        (other (make (offset + distance) taken))) :
    Tracks policy distance first mark (liftM reader >>= next) (liftM reader >>= other) := by
  intro s ordered past
  change mark ≤ s.cursor.offset at past
  have offsetMoved := Cursor.offset_moved distance s.cursor
  by_cases lacks : s.cursor.Lacks n
  · have fails := takes.short s.cursor lacks
    have failsMoved := takes.short (s.cursor.moved distance) lacks
    rw [bind_eq_of_error (Scanner.lift_eq_error fails),
      bind_eq_of_error (Scanner.lift_eq_error (s := moved distance s) failsMoved), offsetMoved]
    exact .error ⟨policy.truncated _ _, Int.le_trans ordered past, s.cursor.offset_le_stop⟩
  · have reads := takes.enough s.cursor lacks
    have readsMoved := takes.enough (s.cursor.moved distance) lacks
    obtain ⟨length, passes⟩ := Cursor.passes_advance lacks
    obtain ⟨nonnegative, _⟩ := Cursor.not_lacks_iff.mp lacks
    rw [offsetMoved] at readsMoved
    rw [bind_eq_of_ok (Scanner.lift_ok_iff.mpr ⟨_, reads, rfl⟩),
      bind_eq_of_ok (Scanner.lift_ok_iff (s := moved distance s).mpr ⟨_, readsMoved, rfl⟩)]
    refine Agrees.after (m := (⟨s.cursor.advance n.toNat, s.notes⟩ : Scan)) passes ?_
    apply others s.cursor.offset _ past length
    · omega
    · change _ ≤ (s.cursor.advance n.toNat).offset
      rw [passes.offset_eq, length]

/-- A read of a number of bytes, whatever their offset. -/
theorem takes {make : List UInt8 → α} (takes : reader.Takes n fun _ => make) :
    Tracks policy distance first mark reader reader := by
  intro c ordered past
  change mark ≤ c.offset at past
  by_cases lacks : c.Lacks n
  · have failsMoved := takes.short (c.moved distance) lacks
    rw [Cursor.offset_moved] at failsMoved
    change Agrees _ _ _ _ _ (reader (c.moved distance))
    rw [takes.short c lacks, failsMoved]
    exact .error ⟨policy.truncated _ _, Int.le_trans ordered past, c.offset_le_stop⟩
  · change Agrees _ _ _ _ _ (reader (c.moved distance))
    rw [takes.enough c lacks, takes.enough (c.moved distance) lacks]
    exact .ok (Cursor.passes_advance lacks).2

end

protected theorem note (note : Note) :
    Tracks policy distance first mark (Scanner.note note) (Scanner.note note) := by
  intro s _ _
  exact Agrees.ok (s := s) (t := { s with notes := note :: s.notes }) (Cursor.passes_nil.mpr rfl)

/-- Whatever is not placed yet is placed at an offset that has been passed. -/
protected theorem located {offset : Int} {scanner other : Scanner α} (after : first ≤ offset)
    (before : offset ≤ mark) (leads : Tracks policy distance first mark scanner other) :
    Tracks .strict distance first mark (Scanner.located offset scanner)
      (Scanner.located (offset + distance) other) := by
  intro s ordered past
  obtain ⟨moves, forward, places⟩ := leads s ordered past
  have inside : offset ≤ (cursor s).stop :=
    Int.le_trans (Int.le_trans before past) (cursor s).offset_le_stop
  simp only [Scanner.located, moves]
  cases run : scanner s with
  | ok a t =>
    obtain ⟨used, passes⟩ := forward run
    exact .ok passes
  | error failure t =>
    change Agrees _ _ _ _ _ (.error ((failure.moved distance).locate (offset + distance)) _)
    rw [← failure.moved_locate]
    exact .error ((places run).locate after inside)

/-- A window that is behind the cursor is scanned apart from what comes after it. -/
theorem within_bind {scanner other : Scanner α} {window : Cursor}
    {next otherNext : α × Cursor → Scanner β}
    (after : first ≤ window.offset) (before : window.stop ≤ mark)
    (leads : Tracks policy distance first window.offset scanner other)
    (others : ∀ a last, first ≤ last.offset → last.offset ≤ mark →
      Tracks policy distance first mark (next (a, last)) (otherNext (a, last.moved distance))) :
    Tracks policy distance first mark (Scanner.within window scanner >>= next)
      (Scanner.within (window.moved distance) other >>= otherNext) := by
  intro s ordered past
  change mark ≤ s.cursor.offset at past
  have inside : window.stop ≤ s.cursor.stop :=
    Int.le_trans before (Int.le_trans past s.cursor.offset_le_stop)
  obtain ⟨moves, forward, places⟩ := leads ⟨window, s.notes⟩ after (Int.le_refl _)
  cases run : scanner ⟨window, s.notes⟩ with
  | error failure t =>
    rw [run] at moves
    rw [bind_eq_of_error (Scanner.within_of_error run),
      bind_eq_of_error (Scanner.within_of_error (s := moved distance s) moves)]
    exact .error ((places run).wider (Int.le_refl _) inside)
  | ok a t =>
    rw [run] at moves
    obtain ⟨used, passes⟩ := forward run
    have start : t.cursor.offset = window.offset + used.length := passes.offset_eq
    have stop : t.cursor.stop = window.stop := passes.stop_eq
    have here := t.cursor.offset_le_stop
    rw [bind_eq_of_ok (Scanner.within_of_ok run),
      bind_eq_of_ok (Scanner.within_of_ok (s := moved distance s) moves)]
    refine Agrees.after (m := { s with notes := t.notes }) (Cursor.passes_nil.mpr rfl) ?_
    exact others a t.cursor (by omega) (by omega) _ ordered past

end Tracks

end JavaClass
