import JavaClass.Attribute.Reader
import JavaClass.Proofs.Format

/-!
What it means for a reader to follow a format: it succeeds exactly on the bytes that the format
allows, and takes just them. The rules below go along the structure of readers, so that the format
of a reader is put together from those of its parts.
-/

namespace JavaClass

namespace Cursor

/-- One cursor passes over bytes and stands where the other does. -/
structure Passes (c : Cursor) (used : List UInt8) (d : Cursor) : Prop where
  base : d.base = c.base
  pos : d.pos = c.pos + used.length
  rest : c.rest = used ++ d.rest

theorem passes_nil {c d : Cursor} : c.Passes [] d ↔ d = c := by
  constructor
  · rintro ⟨base, pos, rest⟩
    cases c; cases d; simp_all
  · rintro rfl
    exact ⟨rfl, rfl, rfl⟩

theorem passes_append {c d : Cursor} {front back : List UInt8} :
    c.Passes (front ++ back) d ↔ ∃ m, c.Passes front m ∧ m.Passes back d := by
  constructor
  · rintro ⟨base, pos, rest⟩
    refine ⟨⟨c.base, c.pos + front.length, back ++ d.rest⟩, ⟨rfl, rfl, ?_⟩, base, ?_, rfl⟩
    · simp [rest]
    · simp [pos, Nat.add_assoc]
  · rintro ⟨m, ⟨base, pos, rest⟩, base', pos', rest'⟩
    exact ⟨base'.trans base, by simp [pos, pos', Nat.add_assoc], by simp [rest, rest']⟩

/-- Passing over a language to the end takes all that is left. -/
theorem exists_passes_atEnd {c : Cursor} {language : Language UInt8} :
    (∃ d, (∃ used ∈ language, c.Passes used d) ∧ d.atEnd) ↔ c.rest ∈ language := by
  constructor
  · rintro ⟨d, ⟨used, inside, passes⟩, stop⟩
    rw [passes.rest, List.isEmpty_iff.mp stop, List.append_nil]
    exact inside
  · intro inside
    exact ⟨⟨c.base, c.pos + c.rest.length, []⟩, ⟨c.rest, inside, rfl, rfl, by simp⟩, rfl⟩

end Cursor

section
variable {σ α β : Type} {s t : σ}

theorem bind_ok_iff {reader : EStateM Failure σ α} {next : α → EStateM Failure σ β} {b : β} :
    (reader >>= next) s = .ok b t ↔ ∃ a m, reader s = .ok a m ∧ next a m = .ok b t := by
  change EStateM.bind reader next s = _ ↔ _
  unfold EStateM.bind
  cases reader s <;> simp

theorem pure_ok_iff {a b : α} :
    (pure a : EStateM Failure σ α) s = .ok b t ↔ b = a ∧ t = s := by
  change EStateM.Result.ok a s = .ok b t ↔ _
  simp [eq_comm]

theorem get_ok_iff {a : σ} : (get : EStateM Failure σ σ) s = .ok a t ↔ a = s ∧ t = s := by
  change EStateM.Result.ok s s = .ok a t ↔ _
  simp [eq_comm]

theorem discard_eq_bind (reader : EStateM Failure σ α) :
    discard reader = reader >>= fun _ => pure () := by
  funext s
  change EStateM.map _ reader s = EStateM.bind reader _ s
  unfold EStateM.map EStateM.bind
  cases reader s <;> rfl

end

/-- States of which a cursor is a part. -/
class HasCursor (σ : Type) where
  cursor : σ → Cursor

instance : HasCursor Cursor := ⟨id⟩

instance : HasCursor Scan := ⟨Scan.cursor⟩

open HasCursor (cursor)

section
variable {σ α β : Type} [HasCursor σ]

/-- The reader gives a value and stops at a place exactly when the bytes up to there encode the
value. -/
def Follows (reader : EStateM Failure σ α) (format : Format α) : Prop :=
  ∀ s a d, (∃ t, reader s = .ok a t ∧ cursor t = d) ↔ ∃ used ∈ format a, (cursor s).Passes used d

namespace Follows

variable {reader : EStateM Failure σ α} {next : α → EStateM Failure σ β}
  {format : Format α} {nextFormat : α → Format β}

theorem congr {other : Format α} (follows : Follows reader format)
    (same : ∀ a bytes, bytes ∈ format a ↔ bytes ∈ other a) : Follows reader other := by
  rwa [← funext fun a => Language.ext (same a)]

/-- A reader that gives only values with a property, and reads those by a format. -/
theorem tagged {property : α → Prop} {other : Format α} (follows : Follows reader format)
    (only : ∀ {a bytes}, bytes ∈ format a → property a)
    (same : ∀ a bytes, property a → (bytes ∈ format a ↔ bytes ∈ other a)) :
    Follows reader (fun a => Format.require (property a) * other a) := by
  refine follows.congr fun a bytes => ?_
  rw [Format.mem_require_mul]
  constructor
  · intro inside
    exact ⟨only inside, (same a bytes (only inside)).mp inside⟩
  · rintro ⟨holds, inside⟩
    exact (same a bytes holds).mpr inside

protected theorem pure (a : α) :
    Follows (pure a : EStateM Failure σ α) (fun b => Format.require (b = a)) := by
  intro s b d
  simp only [pure_ok_iff]
  constructor
  · rintro ⟨t, ⟨rfl, rfl⟩, rfl⟩
    exact ⟨[], ⟨rfl, rfl⟩, Cursor.passes_nil.mpr rfl⟩
  · rintro ⟨used, ⟨rfl, rfl⟩, passes⟩
    exact ⟨s, ⟨rfl, rfl⟩, (Cursor.passes_nil.mp passes).symm⟩

protected theorem throw (failure : Failure) :
    Follows (throw failure : EStateM Failure σ α) (fun _ => 0) := by
  intro s a d
  constructor
  · rintro ⟨t, fails, _⟩
    cases fails
  · rintro ⟨used, impossible, _⟩
    exact absurd impossible (Language.notMem_zero used)

protected theorem bind (first : Follows reader format)
    (others : ∀ a, Follows (next a) (nextFormat a)) :
    Follows (reader >>= next) (fun b => ⨆ a, format a * nextFormat a b) := by
  intro s b d
  simp only [bind_ok_iff, Language.mem_iSup, Language.mem_mul]
  constructor
  · rintro ⟨t, ⟨a, m, read, readNext⟩, stop⟩
    obtain ⟨front, inFirst, passes⟩ := (first s a (cursor m)).mp ⟨m, read, rfl⟩
    obtain ⟨back, inNext, passesNext⟩ := (others a m b d).mp ⟨t, readNext, stop⟩
    exact ⟨front ++ back, ⟨a, front, inFirst, back, inNext, rfl⟩,
      Cursor.passes_append.mpr ⟨_, passes, passesNext⟩⟩
  · rintro ⟨used, ⟨a, front, inFirst, back, inNext, rfl⟩, passes⟩
    obtain ⟨middle, passes, passesNext⟩ := Cursor.passes_append.mp passes
    obtain ⟨m, read, rfl⟩ := (first s a middle).mpr ⟨front, inFirst, passes⟩
    obtain ⟨t, readNext, stop⟩ := (others a m b d).mpr ⟨back, inNext, passesNext⟩
    exact ⟨t, ⟨a, m, read, readNext⟩, stop⟩

protected theorem discard (follows : Follows reader format) :
    Follows (discard reader) (fun _ => ⨆ a, format a) := by
  rw [discard_eq_bind]
  exact (follows.bind fun _ => .pure ()).congr fun _ bytes => by simp

/-- An action that leaves the cursor alone and only says something to the rest of the reader. -/
theorem bind_const {action : EStateM Failure σ α} {format : Format β}
    (still : ∀ s, ∃ a t, action s = .ok a t ∧ cursor t = cursor s)
    (others : ∀ a, Follows (next a) format) : Follows (action >>= next) format := by
  intro s b d
  obtain ⟨a, t, runs, same⟩ := still s
  simp only [bind_ok_iff, runs, EStateM.Result.ok.injEq, ← same]
  rw [← others a t b d]
  constructor
  · rintro ⟨u, ⟨_, _, ⟨rfl, rfl⟩, reads⟩, stop⟩
    exact ⟨u, reads, stop⟩
  · rintro ⟨u, reads, stop⟩
    exact ⟨u, ⟨a, t, ⟨rfl, rfl⟩, reads⟩, stop⟩

theorem throw_bind (failure : Failure) :
    Follows (throw failure >>= next) (fun _ => 0) :=
  Follows.throw failure

protected theorem ite {condition : Prop} [Decidable condition] {other : EStateM Failure σ α}
    {otherFormat : Format α} (follows : Follows reader format)
    (otherwise : Follows other otherFormat) :
    Follows (if condition then reader else other) (fun a =>
      Format.require condition * format a + Format.require (¬condition) * otherFormat a) := by
  by_cases holds : condition
  · rw [if_pos holds]
    exact follows.congr fun a bytes => by simp [holds, Language.mem_add]
  · rw [if_neg holds]
    exact otherwise.congr fun a bytes => by simp [holds, Language.mem_add]

/-- A reader that gives up where a condition holds. -/
theorem guarded {condition : Prop} [Decidable condition] {refusal : EStateM Failure σ α}
    (refuses : Follows refusal (fun _ => 0)) (follows : ¬condition → Follows reader format) :
    Follows (if condition then refusal else reader)
      (fun a => Format.require (¬condition) * format a) := by
  by_cases holds : condition
  · rw [if_pos holds]
    exact refuses.congr fun a bytes => by simp [holds]
  · rw [if_neg holds]
    exact (follows holds).congr fun a bytes => by simp [holds]

protected theorem forM {check : α → EStateM Failure σ Unit} {format : α → Language UInt8}
    (items : List α) (follows : ∀ a, Follows (check a) (fun _ => format a)) :
    Follows (items.forM check) (fun _ => (items.map format).prod) := by
  induction items with
  | nil => exact (Follows.pure ()).congr fun _ bytes => by simp
  | cons a items ih => exact ((follows a).bind fun _ => ih).congr fun _ bytes => by simp

protected theorem times (n : Nat) (follows : Follows reader format) :
    Follows (times n reader)
      (fun values => Format.require (values.length = n) * (values.map format).prod) := by
  induction n with
  | zero =>
    refine (Follows.pure []).congr fun values bytes => ?_
    cases values <;> simp
  | succ n ih =>
    refine (follows.bind fun first => ih.bind fun others => .pure _).congr fun values bytes => ?_
    cases values with
    | nil => simp
    | cons first others => simp [mul_assoc, and_assoc]

/-- A counted list: the count, then that many items. -/
theorem counted {width : Nat} {count : EStateM Failure σ Nat}
    (reads : Follows count (Format.unsigned width)) (follows : Follows reader format) :
    Follows (count >>= fun n => times n reader)
      (fun values => Format.counted width (values.map format)) := by
  refine (reads.bind fun n => follows.times n).congr fun values bytes => ?_
  simp [Format.counted]

theorem counted_bind {γ : Type} {width : Nat} {count : EStateM Failure σ Nat}
    {next : List α → EStateM Failure σ γ} {nextFormat : List α → Format γ}
    (reads : Follows count (Format.unsigned width)) (follows : Follows reader format)
    (others : ∀ values, Follows (next values) (nextFormat values)) :
    Follows (count >>= fun n => times n reader >>= next)
      (fun c => ⨆ values, Format.counted width (values.map format) * nextFormat values c) := by
  rw [← bind_assoc]
  exact (counted reads follows).bind others

end Follows

end

namespace Follows

variable {α β : Type} {format : Format α}

theorem ok_iff {reader : Reader α} (follows : Follows reader format) {c d : Cursor} {a : α} :
    reader c = .ok a d ↔ ∃ used ∈ format a, c.Passes used d := by
  rw [show c = cursor c from rfl, ← follows c a d]
  exact ⟨fun reads => ⟨d, reads, rfl⟩, fun ⟨_, reads, stop⟩ => stop ▸ reads⟩

theorem scan_ok_iff {scanner : Scanner α} (follows : Follows scanner format) {s : Scan} {d : Cursor}
    {a : α} : (∃ notes, scanner s = .ok a ⟨d, notes⟩) ↔
      ∃ used ∈ format a, s.cursor.Passes used d := by
  refine Iff.trans ?_ (follows s a d)
  constructor
  · rintro ⟨notes, reads⟩
    exact ⟨_, reads, rfl⟩
  · rintro ⟨t, reads, rfl⟩
    exact ⟨t.notes, reads⟩

theorem lift (x : Except Failure α) :
    Follows (liftM x : Reader α) (fun a => Format.require (x = .ok a)) := by
  cases x with
  | ok value =>
    refine (Follows.pure value).congr fun a bytes => ?_
    simp [eq_comm]
  | error failure =>
    refine (Follows.throw failure).congr fun a bytes => ?_
    simp

theorem scan {reader : Reader α} (follows : Follows reader format) :
    Follows (liftM reader : Scanner α) format := by
  intro s a d
  rw [show cursor s = cursor s.cursor from rfl, ← follows s.cursor a d]
  simp only [liftM, monadLift, MonadLift.monadLift]
  cases reader s.cursor with
  | ok value c => simp [cursor]
  | error failure c => simp

/-- Work that is done only to see whether it succeeds. -/
theorem discard_lift (x : Except Failure α) :
    Follows (discard (liftM x : Reader α)) (fun _ => Format.require (∃ a, x = .ok a)) :=
  (lift x).discard.congr fun _ bytes => by simp

theorem discard_lift_scan (x : Except Failure α) :
    Follows (discard (liftM x : Scanner α)) (fun _ => Format.require (∃ a, x = .ok a)) :=
  (lift x).scan.discard.congr fun _ bytes => by simp

theorem located {scanner : Scanner α} (offset : Int) (follows : Follows scanner format) :
    Follows (Scanner.located offset scanner) format := by
  intro s a d
  rw [← follows s a d]
  simp only [Scanner.located]
  cases scanner s <;> simp

/-- What a window holds is read apart from the bytes around it. -/
theorem within {scanner : Scanner α} (window : Cursor) (follows : Follows scanner format) :
    Follows (Scanner.within window scanner)
      (fun (a, last) => Format.require (∃ used ∈ format a, window.Passes used last)) := by
  rintro s ⟨a, last⟩ d
  have inner := follows { s with cursor := window } a last
  change _ ↔ ∃ used ∈ format a, window.Passes used last at inner
  simp only [Format.mem_require, ← inner, Scanner.within]
  cases scanner { s with cursor := window } with
  | ok value t =>
    simp [cursor, Cursor.passes_nil, eq_comm]
  | error failure t => simp

/-- A scan of a window that has to come to its end. -/
theorem within_bind {scanner : Scanner α} {next : α → Scanner β} {nextFormat : α → Format β}
    {failure : α × Cursor → Failure} (window : Cursor) (follows : Follows scanner format)
    (others : ∀ a, Follows (next a) (nextFormat a)) :
    Follows (Scanner.within window scanner >>= fun p =>
        if (!p.2.atEnd) = true then throw (failure p) >>= fun (_ : Unit) => next p.1 else next p.1)
      (fun b => ⨆ a, Format.require (window.rest ∈ format a) * nextFormat a b) := by
  refine Follows.congr (.bind (follows.within window) fun p => .guarded (.throw_bind _) fun _ =>
    others p.1) fun b bytes => ?_
  simp only [Format.require_mul_require_mul, Language.mem_iSup, Format.mem_require_mul, Prod.exists,
    Bool.not_eq_true', Bool.not_eq_false, ← Cursor.exists_passes_atEnd, exists_and_right]

theorem offset_bind {next : Int → Reader β} {nextFormat : Format β}
    (others : ∀ offset, Follows (next offset) nextFormat) :
    Follows (Reader.offset >>= next) nextFormat :=
  bind_const (fun _ => ⟨_, _, rfl, rfl⟩) others

theorem offset_bind_scan {next : Int → Scanner β} {nextFormat : Format β}
    (others : ∀ offset, Follows (next offset) nextFormat) :
    Follows (liftM Reader.offset >>= next) nextFormat :=
  bind_const (fun _ => ⟨_, _, rfl, rfl⟩) others

protected theorem note (note : Note) : Follows (Scanner.note note) (fun _ => 1) := by
  intro s _ d
  constructor
  · rintro ⟨t, reads, rfl⟩
    cases reads
    exact ⟨[], rfl, Cursor.passes_nil.mpr rfl⟩
  · rintro ⟨used, empty, passes⟩
    obtain rfl := (Language.mem_one used).mp empty
    exact ⟨_, rfl, (Cursor.passes_nil.mp passes).symm⟩

end Follows

section
variable {σ α β : Type} [HasCursor σ]

/-- The reader gives a value exactly when all the bytes that are left encode the value. -/
def Exhausts (reader : EStateM Failure σ α) (format : Format α) : Prop :=
  ∀ s a, (∃ t, reader s = .ok a t) ↔ (cursor s).rest ∈ format a

namespace Exhausts

variable {reader : EStateM Failure σ α} {next : α → EStateM Failure σ β}
  {format : Format α} {nextFormat : α → Format β}

theorem congr {other : Format α} (exhausts : Exhausts reader format)
    (same : ∀ a bytes, bytes ∈ format a ↔ bytes ∈ other a) : Exhausts reader other := by
  rwa [← funext fun a => Language.ext (same a)]

/-- What comes later may rely on the values that can be read first. -/
theorem bind_of (first : Follows reader format)
    (others : ∀ a bytes, bytes ∈ format a → Exhausts (next a) (nextFormat a)) :
    Exhausts (reader >>= next) (fun b => ⨆ a, format a * nextFormat a b) := by
  intro s b
  simp only [bind_ok_iff, Language.mem_iSup, Language.mem_mul]
  constructor
  · rintro ⟨t, a, m, read, readNext⟩
    obtain ⟨front, inFirst, passes⟩ := (first s a (cursor m)).mp ⟨m, read, rfl⟩
    have inNext := (others a front inFirst m b).mp ⟨t, readNext⟩
    exact ⟨a, front, inFirst, _, inNext, passes.rest.symm⟩
  · rintro ⟨a, front, inFirst, back, inNext, whole⟩
    obtain ⟨m, read, stop⟩ := (first s a ⟨(cursor s).base, (cursor s).pos + front.length, back⟩).mpr
      ⟨front, inFirst, rfl, rfl, whole.symm⟩
    obtain ⟨t, readNext⟩ := (others a front inFirst m b).mpr (by rwa [stop])
    exact ⟨t, a, m, read, readNext⟩

protected theorem bind (first : Follows reader format)
    (others : ∀ a, Exhausts (next a) (nextFormat a)) :
    Exhausts (reader >>= next) (fun b => ⨆ a, format a * nextFormat a b) :=
  bind_of first fun a _ _ => others a

theorem counted_bind {width : Nat} {count : EStateM Failure σ Nat}
    {next : List α → EStateM Failure σ β} {nextFormat : List α → Format β}
    (reads : Follows count (Format.unsigned width)) (follows : Follows reader format)
    (others : ∀ values, Exhausts (next values) (nextFormat values)) :
    Exhausts (count >>= fun n => times n reader >>= next)
      (fun b => ⨆ values, Format.counted width (values.map format) * nextFormat values b) := by
  rw [← bind_assoc]
  exact Exhausts.bind (Follows.counted reads follows) others

/-- A check that is made only where a condition holds. -/
theorem ite_bind {condition passed : Prop} [Decidable condition] {check : EStateM Failure σ Unit}
    (follows : Follows check (fun _ => Format.require passed)) (exhausts : Exhausts reader format) :
    Exhausts (if condition then check >>= fun _ => reader else reader)
      (fun a => Format.require (condition → passed) * format a) := by
  by_cases holds : condition
  · rw [if_pos holds]
    exact (Exhausts.bind follows fun _ => exhausts).congr fun a bytes => by simp [holds]
  · rw [if_neg holds]
    exact exhausts.congr fun a bytes => by simp [holds]

end Exhausts

end

theorem Exhausts.at_end {α : Type} {last : Scanner α} {a : α} {failure : Scan → Failure}
    (runs : ∀ s, ∃ t, last s = .ok a t) :
    Exhausts (get >>= fun s =>
        if (!s.cursor.atEnd) = true then throw (failure s) >>= fun (_ : Unit) => last else last)
      (fun b => Format.require (b = a)) := by
  intro s b
  obtain ⟨t, runs⟩ := runs s
  change (∃ t, (if (!s.cursor.atEnd) = true then throw (failure s) >>= fun (_ : Unit) => last
    else last) s = .ok b t) ↔ b = a ∧ s.cursor.rest = []
  by_cases stop : s.cursor.atEnd = true
  · rw [if_neg (by simp [stop]), runs]
    simp [List.isEmpty_iff.mp stop, eq_comm]
  · rw [if_pos (by simp [stop])]
    constructor
    · rintro ⟨t, fails⟩
      cases fails
    · rintro ⟨_, empty⟩
      exact absurd (List.isEmpty_iff.mpr empty) stop

theorem splitFirst?_eq_some_iff {α : Type} {n : Nat} {items taken rest : List α} :
    splitFirst? n items = some (taken, rest) ↔ items = taken ++ rest ∧ taken.length = n := by
  induction n generalizing items taken with
  | zero => cases taken <;> simp [splitFirst?, eq_comm]
  | succ n ih =>
    cases items with
    | nil => cases taken <;> simp [splitFirst?]
    | cons x items =>
      cases taken with
      | nil => simp [splitFirst?]
      | cons y taken => simp [splitFirst?, ih, and_assoc, and_left_comm]

theorem splitFirst?_eq_none_iff {α : Type} {n : Nat} {items : List α} :
    splitFirst? n items = none ↔ items.length < n := by
  induction n generalizing items with
  | zero => simp [splitFirst?]
  | succ n ih => cases items <;> simp [splitFirst?, ih]

namespace Reader
open Format

theorem follows_bytes (n : Nat) :
    Follows (bytes n) (fun value => require (value.length = n) * exactly value) := by
  intro c value d
  simp only [mem_require_mul, mem_exactly, bytes]
  constructor
  · rintro ⟨t, read, rfl⟩
    split at read
    · rename_i taken rest found
      obtain ⟨split, length⟩ := splitFirst?_eq_some_iff.mp found
      cases read
      exact ⟨value, ⟨length, rfl⟩, rfl, by simp [HasCursor.cursor, length], split⟩
    · cases read
  · rintro ⟨_, ⟨length, rfl⟩, base, pos, rest⟩
    refine ⟨d, ?_, rfl⟩
    have found := splitFirst?_eq_some_iff.mpr ⟨rest, length⟩
    simp only [HasCursor.cursor, id_eq] at *
    rw [found]
    cases d; simp_all

theorem follows_unsigned (width : Nat) :
    Follows (return bigEndian (← bytes width)) (unsigned width) := by
  refine ((follows_bytes width).bind fun value => .pure _).congr fun n bytes => ?_
  simp [mem_unsigned, and_comm]

theorem follows_u1 : Follows u1 (unsigned 1) := follows_unsigned 1

theorem follows_u2 : Follows u2 (unsigned 2) := follows_unsigned 2

theorem follows_u4 : Follows u4 (unsigned 4) := follows_unsigned 4

theorem follows_u8 : Follows u8 (unsigned 8) := follows_unsigned 8

theorem follows_signed {width bits : Nat} (positive : 0 < width) (size : bits = 8 * width)
    {reader : Reader Nat} (follows : Follows reader (unsigned width)) :
    Follows (return twosComplement bits (← reader)) (signed width) := by
  subst size
  refine (follows.bind fun n => .pure _).congr fun z bytes => ?_
  simp [mem_unsigned, mem_signed positive, and_comm]

theorem follows_i1 : Follows i1 (signed 1) := follows_signed (by decide) (by decide) follows_u1

theorem follows_i2 : Follows i2 (signed 2) := follows_signed (by decide) (by decide) follows_u2

theorem follows_i4 : Follows i4 (signed 4) := follows_signed (by decide) (by decide) follows_u4

theorem follows_i8 : Follows i8 (signed 8) := follows_signed (by decide) (by decide) follows_u8

theorem bytesOf_cast (n : Nat) : bytesOf n = bytes n := by
  funext c
  simp [bytesOf]

theorem follows_skip (n : Nat) : Follows (skip n) (fun _ => anyBytes n) := by
  rw [skip, bytesOf_cast]
  refine ((follows_bytes n).bind fun value => .pure _).congr fun _ bytes => ?_
  simp

/-- What comes after opening a window may depend on the bytes in it, but not on its place. -/
theorem follows_window_bind {β : Type} (n : Nat) {next : Cursor → Scanner β}
    {nextFormat : List UInt8 → Format β}
    (others : ∀ w, Follows (next w) (nextFormat w.rest)) :
    Follows (liftM (window n) >>= next)
      (fun b => ⨆ info, require (info.length = n) * (exactly info * nextFormat info b)) := by
  have opened (base : Int) : Follows (return Cursor.ofBytes (← bytes n) base)
      (fun w => ⨆ info, require (w = Cursor.ofBytes info base ∧ info.length = n) * exactly info) :=
    ((follows_bytes n).bind fun info => .pure _).congr fun w bytes => by simp
  have split : (liftM (window n) >>= next : Scanner β) = liftM offset >>= fun base =>
      liftM (do return .ofBytes (← bytes n) base : Reader Cursor) >>= next := by
    rw [window, bytesOf_cast]
    funext s
    rfl
  rw [split]
  refine Follows.offset_bind_scan fun base =>
    ((opened base).scan.bind others).congr fun b bytes => ?_
  simp only [Language.mem_iSup, Language.iSup_mul, mul_assoc, mem_require_mul]
  constructor
  · rintro ⟨_, info, ⟨rfl, length⟩, inside⟩
    exact ⟨info, length, inside⟩
  · rintro ⟨info, length, inside⟩
    exact ⟨_, info, ⟨rfl, length⟩, inside⟩

end Reader

end JavaClass
