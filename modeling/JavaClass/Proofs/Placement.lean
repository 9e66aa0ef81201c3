import JavaClass.Proofs.ClassFile
import JavaClass.Proofs.Displacement

/-!
Where the faults of class files are placed. A fault that is placed at all is in the file. All faults
of attributes are placed, those of a constant at the attribute whose bytes name the constant.
-/

namespace JavaClass

open HasCursor (cursor)
open Reader (tracks_u2 tracks_u4)

theorem Member.tracks_read {distance first mark : Int} {pool : Pool} :
    Tracks .lenient distance first mark (Member.read pool) (Member.read pool) := by
  unfold Member.read
  apply tracks_u2.scan.bind
  intro flags
  apply tracks_u2.scan.bind
  intro nameIndex
  apply tracks_u2.scan.bind
  intro descriptorIndex
  apply (pool.tracks_utf8 nameIndex).scan.toLenient.bind
  intro name
  apply (pool.tracks_utf8 descriptorIndex).scan.toLenient.bind
  intro descriptor
  exact Attribute.tracks_readMany.toLenient.bind fun _ => .pure _

theorem Tracks.at_end {α : Type} {distance first mark : Int} {last : Scanner α}
    (leads : ∀ {mark}, Tracks .lenient distance first mark last last) :
    Tracks .lenient distance first mark
      (get >>= fun s : Scan =>
        if (!s.cursor.atEnd) = true then
          throw (.atOffset (.trailingBytes s.cursor.remaining) s.cursor.offset) >>=
            fun (_ : Unit) => last
        else last)
      (get >>= fun s : Scan =>
        if (!s.cursor.atEnd) = true then
          throw (.atOffset (.trailingBytes s.cursor.remaining) s.cursor.offset) >>=
            fun (_ : Unit) => last
        else last) := by
  intro s ordered past
  have after : first ≤ s.cursor.offset := Int.le_trans ordered past
  have refusal : Tracks .lenient distance first s.cursor.offset
      (throw (.atOffset (.trailingBytes s.cursor.remaining) s.cursor.offset) : Scanner Unit)
      (throw (.atOffset (.trailingBytes s.cursor.remaining) (s.cursor.offset + distance))) :=
    .fault trivial after (Int.le_refl _)
  rw [← Cursor.offset_moved] at refusal
  exact Tracks.ite_bind refusal leads s after (Int.le_refl _)

namespace ClassFile

variable {distance first mark : Int}

/-- The magic number is at the start of the file, wherever that is read. -/
theorem tracks_readMagic : Tracks .lenient 0 0 0 readMagic readMagic := by
  unfold readMagic
  apply tracks_u4.bind
  intro found
  apply Tracks.ite
  · exact .fault trivial (Int.le_refl 0) (Int.le_refl 0)
  · exact .pure ()

theorem tracks_readVersion (limit : Option Int) :
    Tracks .lenient distance first mark (readVersion limit) (readVersion limit) := by
  unfold readVersion
  apply tracks_u2.bind
  intro minor
  apply Tracks.offset_bind
  intro offset after
  apply tracks_u2.bind
  intro major
  apply Tracks.ite
  · exact .fault trivial after (Int.le_refl _)
  · cases limit with
    | none => exact .pure _
    | some newest => exact .ite (.fault trivial after (Int.le_refl _)) (.pure _)

theorem tracks_readInterfaces (pool : Pool) :
    Tracks .lenient distance first mark (readInterfaces pool) (readInterfaces pool) := by
  unfold readInterfaces
  apply tracks_u2.bind
  intro count
  apply (tracks_u2.times count).bind
  intro interfaces
  apply Tracks.bind
  · exact .forM _ fun index => (Tracks.lookup (pool.placeless_className index)).discard.toLenient
  · exact fun _ => .pure _

theorem tracks_read (limit : Option Int) : Tracks .lenient 0 0 0 (read limit) (read limit) := by
  unfold read
  apply tracks_readMagic.scan.bind
  intro _
  apply (tracks_readVersion limit).scan.bind
  intro version
  apply tracks_u2.scan.bind
  intro count
  apply (Pool.tracks_readCounted count).scan.toLenient.bind
  intro pool
  apply (Tracks.note _).bind
  intro _
  apply tracks_u2.scan.bind
  intro flags
  apply tracks_u2.scan.bind
  intro thisClass
  apply tracks_u2.scan.bind
  intro superClass
  apply (Tracks.lookup (pool.placeless_className thisClass)).scan.toLenient.bind
  intro name
  apply Tracks.ite_bind (Tracks.lookup (pool.placeless_className superClass)).scan.toLenient.discard
  apply (tracks_readInterfaces pool).scan.bind
  intro interfaces
  apply tracks_u2.scan.bind
  intro fieldCount
  apply (Member.tracks_read.times fieldCount).bind
  intro fields
  apply tracks_u2.scan.bind
  intro methodCount
  apply (Member.tracks_read.times methodCount).bind
  intro methods
  apply Attribute.tracks_readMany.toLenient.bind
  intro attributes
  exact .at_end ((Tracks.note _).bind fun _ => .pure _)

/-- Whatever stops the reading of a class file is a fault, and its place, if it has one, is in the
file or at its end. -/
theorem fault_of_parse_error {data : List UInt8} {limit : Option Int} {failure : Failure}
    (fails : parse data limit = .error failure) :
    ∃ cause place, failure = .fault cause place ∧
      ∀ offset ∈ place, 0 ≤ offset ∧ offset ≤ data.length := by
  have agrees := tracks_read limit ⟨.ofBytes data 0, []⟩ (Int.le_refl 0) (Int.le_refl 0)
  unfold parse load at fails
  cases run : read limit ⟨.ofBytes data 0, []⟩ with
  | ok c t => simp [run] at fails
  | error found t =>
    have obeys := agrees.places run
    simp only [run, Except.error.injEq] at fails
    subst fails
    cases found with
    | tooDeep => exact ⟨.nestedTooDeeply, none, rfl, by simp⟩
    | fault cause place =>
      refine ⟨cause, place, rfl, ?_⟩
      rintro offset rfl
      obtain ⟨-, after, before⟩ := obeys
      change offset ≤ (Cursor.ofBytes data 0).stop at before
      rw [Cursor.stop_ofBytes] at before
      exact ⟨after, by omega⟩
    | _ => exact absurd obeys id

/-- A fault is placed in the file, its end among the places. -/
theorem fault_in_file {data : List UInt8} {limit : Option Int} {cause : Cause} {offset : Int}
    (fails : parse data limit = .error (.fault cause (some offset))) :
    0 ≤ offset ∧ offset ≤ data.length := by
  obtain ⟨_, _, ⟨⟩, placed⟩ := fault_of_parse_error fails
  exact placed offset rfl

end ClassFile

namespace Cursor

variable {c d e : Cursor}

/-- The bytes that `d` has still to read are among those of `c`, at the offset where `d` is. -/
def Inside (d c : Cursor) : Prop :=
  ∃ before after, c.rest = before ++ d.rest ++ after ∧ d.offset = c.offset + before.length

theorem Inside.refl (c : Cursor) : c.Inside c := ⟨[], [], by simp, by simp⟩

theorem Inside.trans (inner : e.Inside d) (outer : d.Inside c) : e.Inside c := by
  obtain ⟨before, after, rest, offset⟩ := inner
  obtain ⟨front, back, around, place⟩ := outer
  refine ⟨front ++ before, after ++ back, ?_, ?_⟩
  · rw [around, rest]
    simp only [List.append_assoc]
  · rw [offset, place, List.length_append]
    omega

theorem Passes.inside {used : List UInt8} (passes : c.Passes used d) : d.Inside c :=
  ⟨used, [], by rw [passes.rest, List.append_nil], passes.offset_eq⟩

theorem inside_take (c : Cursor) (n : Nat) : (ofBytes (c.rest.take n) c.offset).Inside c := by
  refine ⟨[], c.rest.drop n, ?_, ?_⟩
  · simp [ofBytes]
  · simp [ofBytes, offset]

end Cursor

section
variable {σ α : Type} {reader : EStateM Failure σ α} {s t : σ} {failure : Failure}

section
variable [HasCursor σ] [Movable σ] {policy : Policy}
  (leads : Tracks policy 0 (cursor s).offset (cursor s).offset reader reader)
include leads

theorem Tracks.passes {a : α} (gives : reader s = .ok a t) :
    ∃ used, (cursor s).Passes used (cursor t) :=
  (leads s (Int.le_refl _) (Int.le_refl _)).forward gives

theorem Tracks.obeys (fails : reader s = .error failure t) :
    failure.Obeys policy (cursor s).offset (cursor s).stop :=
  (leads s (Int.le_refl _) (Int.le_refl _)).places fails

end

/-- Where the first of a number of runs starts that fails. -/
def stopsAt? (reader : EStateM Failure σ α) : Nat → σ → Option σ
  | 0, _ => none
  | n + 1, s =>
    match reader s with
    | .ok _ t => stopsAt? reader n t
    | .error .. => some s

theorem stopsAt?_of_ok {n : Nat} {items : List α} (runs : times n reader s = .ok items t) :
    stopsAt? reader n s = none := by
  induction n generalizing s t items with
  | zero => rfl
  | succ n ih =>
    obtain ⟨item, m, first, others⟩ := bind_ok_iff.mp runs
    obtain ⟨items, m', others, -⟩ := bind_ok_iff.mp others
    rw [stopsAt?, first]
    exact ih others

theorem stopsAt?_of_error {n : Nat} (fails : times n reader s = .error failure t) :
    ∃ m t, stopsAt? reader n s = some m ∧ reader m = .error failure t := by
  induction n generalizing s with
  | zero => cases fails
  | succ n ih =>
    obtain first | ⟨item, m, first, others⟩ := bind_error_iff.mp fails
    · exact ⟨s, t, by rw [stopsAt?, first], first⟩
    · obtain others | ⟨items, m', -, ends⟩ := bind_error_iff.mp others
      · rw [stopsAt?, first]
        exact ih others
      · cases ends

theorem stopsAt?_passes [HasCursor σ] [Movable σ] {n : Nat} {m : σ}
    {policy : Policy} (leads : ∀ {mark}, Tracks policy 0 mark mark reader reader)
    (stops : stopsAt? reader n s = some m) : ∃ used, (cursor s).Passes used (cursor m) := by
  induction n generalizing s with
  | zero => cases stops
  | succ n ih =>
    rw [stopsAt?] at stops
    split at stops
    · rename_i item t first
      obtain ⟨used, passes⟩ := leads.passes first
      obtain ⟨later, passesLater⟩ := ih stops
      exact ⟨used ++ later, Cursor.passes_append.mpr ⟨_, passes, passesLater⟩⟩
    · cases stops
      exact ⟨[], Cursor.passes_nil.mpr rfl⟩

end

namespace Failure

/-- What ends the reading of attributes: a fault that is placed, at the right offset if it is about
a constant, or data that nests too deep. -/
def Places (right : Int → Prop) : Failure → Prop
  | .fault cause (some offset) => cause.IsLookup → right offset
  | .tooDeep => True
  | _ => False

variable {failure : Failure} {right : Int → Prop}

theorem Obeys.places {first last : Int} (obeys : failure.Obeys .reading first last) (offset : Int) :
    (failure.locate offset).Places (· = offset) := by
  cases failure with
  | fault cause place =>
    cases place with
    | none => exact fun _ => rfl
    | some place => exact fun lookup => absurd lookup obeys.1
  | tooDeep => trivial
  | _ => exact obeys

theorem Places.mono {other : Int → Prop} (places : failure.Places right)
    (wider : ∀ offset, right offset → other offset) : failure.Places other := by
  cases failure with
  | fault cause place =>
    cases place with
    | none => exact places
    | some place => exact fun lookup => wider place (places lookup)
  | _ => exact places

/-- What has a place keeps it. -/
theorem Places.locate_eq (places : failure.Places right) (offset : Int) :
    failure.locate offset = failure := by
  cases failure with
  | fault cause place =>
    cases place with
    | none => exact places.elim
    | some place => rfl
  | _ => rfl

theorem Places.of_malformed {cause : Cause} {offset : Int}
    (malformed : cause.kind = .malformedData) :
    (Failure.atOffset cause offset).Places right :=
  fun lookup => absurd lookup (Policy.placed_of_malformed malformed)

end Failure

namespace Scanner

variable {α : Type} {scanner : Scanner α} {window : Cursor} {s t : Scan} {failure : Failure}

theorem exists_of_located_error {offset : Int}
    (fails : located offset scanner s = .error failure t) :
    ∃ found, scanner s = .error found t ∧ failure = found.locate offset := by
  unfold located at fails
  cases run : scanner s with
  | ok a m => simp [run] at fails
  | error found m =>
    simp only [run, EStateM.Result.error.injEq] at fails
    obtain ⟨rfl, rfl⟩ := fails
    exact ⟨found, rfl, rfl⟩

theorem located_ok_iff {offset : Int} {a : α} :
    located offset scanner s = .ok a t ↔ scanner s = .ok a t := by
  unfold located
  cases scanner s <;> simp

theorem exists_of_within_error (fails : within window scanner s = .error failure t) :
    ∃ m, scanner ⟨window, s.notes⟩ = .error failure m := by
  cases run : scanner ⟨window, s.notes⟩ with
  | ok a m =>
    rw [within_of_ok run] at fails
    cases fails
  | error found m =>
    rw [within_of_error run] at fails
    cases fails
    exact ⟨m, rfl⟩

theorem exists_of_within_ok {p : α × Cursor} (gives : within window scanner s = .ok p t) :
    ∃ m, scanner ⟨window, s.notes⟩ = .ok p.1 m := by
  cases run : scanner ⟨window, s.notes⟩ with
  | ok a m =>
    rw [within_of_ok run] at gives
    cases gives
    exact ⟨m, rfl⟩
  | error found m =>
    rw [within_of_error run] at gives
    cases gives

end Scanner

namespace Reader

variable {α : Type} {reader : Reader α} {n : Int} {make : Int → List UInt8 → α} {a : α} {s t : Scan}

theorem Takes.eq_of_ok (takes : reader.Takes n make)
    (reads : (liftM reader : Scanner α) s = .ok a t) :
    a = make s.cursor.offset (s.cursor.rest.take n.toNat) ∧
      s.cursor.Passes (s.cursor.rest.take n.toNat) t.cursor := by
  obtain ⟨c, taken, rfl⟩ := Scanner.lift_ok_iff.mp reads
  by_cases lacks : s.cursor.Lacks n
  · rw [takes.short _ lacks] at taken
    cases taken
  · rw [takes.enough _ lacks] at taken
    cases taken
    exact ⟨rfl, (Cursor.passes_advance lacks).2⟩

theorem Takes.places {right : Int → Prop} {failure : Failure} (takes : reader.Takes n make)
    (fails : (liftM reader : Scanner α) s = .error failure t) : failure.Places right := by
  by_cases lacks : s.cursor.Lacks n
  · rw [Scanner.lift_eq_error (takes.short _ lacks)] at fails
    cases fails
    exact fun lookup => absurd lookup (Policy.reading.truncated _ _)
  · rw [Scanner.lift_ok_iff.mpr ⟨_, takes.enough _ lacks, rfl⟩] at fails
    cases fails

theorem takes_u2 : Takes u2 2 fun _ => bigEndian := (takes_bytes 2).map bigEndian

theorem takes_u4 : Takes u4 4 fun _ => bigEndian := (takes_bytes 4).map bigEndian

end Reader

namespace CodeOf

variable {pool : Pool} {nested : Scanner Attribute} {s t : Scan} {failure : Failure}

/-- Reads code up to its attributes, and tells their number. -/
def readCount (pool : Pool) : Scanner Nat := do
  let _ ← readHead pool
  Reader.u2

theorem tracks_readCount {distance first mark : Int} :
    Tracks .reading distance first mark (readCount pool) (readCount pool) :=
  tracks_readHead.bind fun _ => tracks_u2.scan

theorem exists_of_read_ok {code : Code} (reads : CodeOf.read pool nested s = .ok code t) :
    ∃ count m items, readCount pool s = .ok count m ∧ times count nested m = .ok items t := by
  rw [read_eq] at reads
  obtain ⟨head, m, heads, reads⟩ := bind_ok_iff.mp reads
  obtain ⟨count, m', counts, reads⟩ := bind_ok_iff.mp reads
  obtain ⟨items, m'', lists, ends⟩ := bind_ok_iff.mp reads
  obtain ⟨rfl, rfl⟩ := pure_ok_iff.mp ends
  exact ⟨count, m', items, bind_ok_iff.mpr ⟨head, m, heads, counts⟩, lists⟩

theorem cases_of_read_error (fails : CodeOf.read pool nested s = .error failure t) :
    readCount pool s = .error failure t ∨
      ∃ count m, readCount pool s = .ok count m ∧ times count nested m = .error failure t := by
  rw [read_eq] at fails
  obtain heads | ⟨head, m, heads, fails⟩ := bind_error_iff.mp fails
  · exact .inl (bind_error_iff.mpr (.inl heads))
  obtain counts | ⟨count, m', counts, fails⟩ := bind_error_iff.mp fails
  · exact .inl (bind_error_iff.mpr (.inr ⟨head, m, heads, counts⟩))
  obtain lists | ⟨items, m'', -, ends⟩ := bind_error_iff.mp fails
  · exact .inr ⟨count, m', bind_ok_iff.mpr ⟨head, m, heads, counts⟩, lists⟩
  · cases ends

end CodeOf

namespace Attribute

/-- What is known of an attribute before its body is read. -/
structure Header where
  offset : Int
  nameIndex : Nat
  name : Text
  length : Nat
  window : Cursor

def readHeader (pool : Pool) : Scanner Header := do
  let offset ← Reader.offset
  let nameIndex ← Reader.u2
  let name ← Scanner.located offset (pool.utf8 nameIndex)
  let length ← Reader.u4
  let window ← Reader.window length
  return { offset, nameIndex, name, length, window }

/-- Reads the rest of an attribute. -/
def Header.complete (h : Header) (pool : Pool) (nested : Scanner Attribute) (budget : Nat) :
    Scanner Attribute :=
  match AttributeName.ofText? h.name with
  | none => do
    Scanner.note (.attributeKept h.name h.length)
    return { nameIndex := h.nameIndex, name := h.name, info := h.window.rest, body := none }
  | some known => do
    let (body, last) ← Scanner.within h.window
      (Scanner.located h.offset (Body.read pool nested budget known))
    if !last.atEnd then
      throw (.atOffset (.unreadBytes known.name last.remaining) last.offset)
    return { nameIndex := h.nameIndex, name := h.name, info := h.window.rest, body := some body }

variable {pool : Pool} {nested : Scanner Attribute} {budget : Nat} {s t : Scan} {failure : Failure}

theorem readWith_eq : readWith pool nested budget =
    readHeader pool >>= fun header => header.complete pool nested budget := by
  simp only [readWith, readHeader, bind_assoc, pure_bind]
  rfl

theorem places_of_readHeader (fails : readHeader pool s = .error failure t) :
    failure.Places (· = s.cursor.offset) := by
  obtain offsets | ⟨offset, m, offsets, fails⟩ := bind_error_iff.mp fails
  · cases offsets
  cases offsets
  obtain index | ⟨nameIndex, m, -, fails⟩ := bind_error_iff.mp fails
  · exact Reader.takes_u2.places index
  obtain names | ⟨name, m', -, fails⟩ := bind_error_iff.mp fails
  · obtain ⟨found, looks, rfl⟩ := Scanner.exists_of_located_error names
    exact ((pool.tracks_utf8 nameIndex).scan.obeys looks).places _
  obtain sizes | ⟨length, m'', -, fails⟩ := bind_error_iff.mp fails
  · exact Reader.takes_u4.places sizes
  obtain windows | ⟨window, last, -, ends⟩ := bind_error_iff.mp fails
  · exact (Reader.takes_window length).places windows
  · cases ends

theorem inside_of_readHeader {header : Header} (reads : readHeader pool s = .ok header t) :
    header.offset = s.cursor.offset ∧ header.window.Inside s.cursor := by
  obtain ⟨offset, m, offsets, reads⟩ := bind_ok_iff.mp reads
  cases offsets
  obtain ⟨nameIndex, m₁, index, reads⟩ := bind_ok_iff.mp reads
  obtain ⟨name, m₂, names, reads⟩ := bind_ok_iff.mp reads
  obtain ⟨length, m₃, sizes, reads⟩ := bind_ok_iff.mp reads
  obtain ⟨window, m₄, windows, ends⟩ := bind_ok_iff.mp reads
  obtain ⟨rfl, rfl⟩ := pure_ok_iff.mp ends
  obtain ⟨-, afterIndex⟩ := Reader.takes_u2.eq_of_ok index
  obtain ⟨used, afterName⟩ :=
    (pool.tracks_utf8 nameIndex).scan.passes (Scanner.located_ok_iff.mp names)
  obtain ⟨-, afterLength⟩ := Reader.takes_u4.eq_of_ok sizes
  obtain ⟨rfl, -⟩ := (Reader.takes_window length).eq_of_ok windows
  have here := m₃.cursor.inside_take (length : Int).toNat
  exact ⟨rfl, here.trans (afterLength.inside.trans (afterName.inside.trans afterIndex.inside))⟩

/-- The body cannot be read, or is read and does not fill its window. -/
theorem Header.cases_of_complete_error {h : Header}
    (fails : h.complete pool nested budget s = .error failure t) :
    ∃ known, AttributeName.ofText? h.name = some known ∧
      ((∃ m found, Body.read pool nested budget known ⟨h.window, s.notes⟩ = .error found m ∧
          failure = found.locate h.offset) ∨
        ∃ body m, Body.read pool nested budget known ⟨h.window, s.notes⟩ = .ok body m ∧
          ∀ right, failure.Places right) := by
  cases named : AttributeName.ofText? h.name with
  | none =>
    simp only [complete, named] at fails
    cases fails
  | some known =>
    refine ⟨known, rfl, ?_⟩
    simp only [complete, named] at fails
    obtain bodies | ⟨p, m, bodies, fails⟩ := bind_error_iff.mp fails
    · obtain ⟨m, inner⟩ := Scanner.exists_of_within_error bodies
      obtain ⟨found, reads, rfl⟩ := Scanner.exists_of_located_error inner
      exact .inl ⟨m, found, reads, rfl⟩
    · obtain ⟨m', inner⟩ := Scanner.exists_of_within_ok bodies
      refine .inr ⟨p.1, m', Scanner.located_ok_iff.mp inner, fun right => ?_⟩
      by_cases ended : (!p.2.atEnd) = true
      · rw [if_pos ended] at fails
        cases fails
        exact .of_malformed rfl
      · rw [if_neg ended] at fails
        cases fails

/-- The first of the attributes of code that cannot be read, given how to read them. -/
def nestedFailure? (pool : Pool) (nested : Scanner Attribute) (s : Scan) : Option Scan :=
  match readHeader pool s with
  | .ok header t =>
    if AttributeName.ofText? header.name = some .code then
      match CodeOf.readCount pool ⟨header.window, t.notes⟩ with
      | .ok count m => stopsAt? nested count m
      | .error .. => none
    else none
  | .error .. => none

theorem nestedFailure?_eq {header : Header} {count : Nat} {m : Scan}
    (headers : readHeader pool s = .ok header t)
    (named : AttributeName.ofText? header.name = some .code)
    (counts : CodeOf.readCount pool ⟨header.window, t.notes⟩ = .ok count m) :
    nestedFailure? pool nested s = stopsAt? nested count m := by
  simp only [nestedFailure?, headers, named, counts, if_true]

/-- An attribute that cannot be read is at fault, or has an attribute that cannot be read. -/
theorem cases_of_readWith_error (fails : readWith pool nested budget s = .error failure t) :
    nestedFailure? pool nested s = none ∧ failure.Places (· = s.cursor.offset) ∨
      ∃ m t found, nestedFailure? pool nested s = some m ∧ nested m = .error found t ∧
        failure = found.locate s.cursor.offset := by
  rw [readWith_eq] at fails
  obtain headers | ⟨header, m, headers, fails⟩ := bind_error_iff.mp fails
  · exact .inl ⟨by rw [nestedFailure?, headers], places_of_readHeader headers⟩
  obtain ⟨here, -⟩ := inside_of_readHeader headers
  rw [← here]
  obtain ⟨known, named, bodies⟩ := Header.cases_of_complete_error fails
  -- Only code has attributes of its own.
  by_cases plain : known ≠ .code
  · left
    constructor
    · simp [nestedFailure?, headers, named, plain]
    · obtain ⟨m', found, reads, rfl⟩ | ⟨-, -, -, places⟩ := bodies
      · exact ((Body.tracks_plain plain).obeys reads).places _
      · exact places _
  obtain rfl := not_not.mp plain
  obtain ⟨m', found, reads, rfl⟩ | ⟨body, m', reads, places⟩ := bodies
  · obtain codes | ⟨code, m', -, ends⟩ := bind_error_iff.mp reads
    · obtain counts | ⟨count, m'', counts, lists⟩ := CodeOf.cases_of_read_error codes
      · left
        constructor
        · simp [nestedFailure?, headers, named, counts]
        · exact (CodeOf.tracks_readCount.obeys counts).places _
      · obtain ⟨u, t', stops, nests⟩ := stopsAt?_of_error lists
        exact .inr ⟨u, t', found, (nestedFailure?_eq headers named counts).trans stops, nests, rfl⟩
    · cases ends
  · obtain ⟨code, m', codes, -⟩ := bind_ok_iff.mp reads
    obtain ⟨count, m'', items, counts, lists⟩ := CodeOf.exists_of_read_ok codes
    exact .inl ⟨(nestedFailure?_eq headers named counts).trans (stopsAt?_of_ok lists), places _⟩

/-- What is nested in an attribute stands inside of it. -/
theorem inside_of_nestedFailure? {m : Scan}
    (leads : ∀ {mark}, Tracks .strict 0 mark mark nested nested)
    (stops : nestedFailure? pool nested s = some m) : m.cursor.Inside s.cursor := by
  cases headers : readHeader pool s with
  | error failure t => simp [nestedFailure?, headers] at stops
  | ok header t =>
    by_cases named : AttributeName.ofText? header.name = some .code
    · cases counts : CodeOf.readCount pool ⟨header.window, t.notes⟩ with
      | error failure t => simp [nestedFailure?, headers, named, counts] at stops
      | ok count m' =>
        rw [nestedFailure?_eq headers named counts] at stops
        obtain ⟨-, window⟩ := inside_of_readHeader headers
        obtain ⟨used, afterHead⟩ := CodeOf.tracks_readCount.passes counts
        obtain ⟨later, afterOthers⟩ := stopsAt?_passes leads stops
        exact afterOthers.inside.trans (afterHead.inside.trans window)
    · simp [nestedFailure?, headers, named] at stops

/-- The attribute that is being read where the reading of an attribute comes to a failure. -/
def innermost (pool : Pool) (budget : Nat) (s : Scan) : Scan :=
  match budget with
  | budget + 4 =>
    match nestedFailure? pool (readWithin pool budget) s with
    | some m => innermost pool budget m
    | none => s
  | _ => s

theorem innermost_inside (pool : Pool) (budget : Nat) (s : Scan) :
    (innermost pool budget s).cursor.Inside s.cursor := by
  induction budget using Nat.strong_induction_on generalizing s with
  | _ budget ih =>
    unfold innermost
    split
    · rename_i budget
      split
      · rename_i m stops
        have inside := inside_of_nestedFailure? (tracks_readWithin budget) stops
        exact (ih budget (by omega) m).trans inside
      · exact .refl _
    · exact .refl _

/-- Every failure of an attribute has a place, and a fault of a constant is placed at the innermost
attribute around. -/
theorem places_of_readWithin (fails : readWithin pool budget s = .error failure t) :
    failure.Places (· = (innermost pool budget s).cursor.offset) := by
  induction budget using Nat.strong_induction_on generalizing s failure t with
  | _ budget ih =>
    unfold innermost
    split
    · rename_i budget
      rw [readWithin] at fails
      obtain ⟨stops, places⟩ | ⟨m, t', found, stops, nests, rfl⟩ := cases_of_readWith_error fails
      · rw [stops]
        exact places
      · have places := ih budget (by omega) nests
        rw [stops, places.locate_eq]
        exact places
    · rename_i short
      rw [readWithin] at fails
      · obtain ⟨-, places⟩ | ⟨m, t', found, -, nests, rfl⟩ := cases_of_readWith_error fails
        · exact places
        · cases nests
          trivial
      · exact short

/-- The attribute that is being read where the reading of a counted list comes to a failure. -/
def innermostOfList? (pool : Pool) (budget : Nat) (s : Scan) : Option Scan :=
  match (liftM Reader.u2 : Scanner Nat) s with
  | .ok count t => (stopsAt? (readWithin pool budget) count t).map (innermost pool budget)
  | .error .. => none

theorem places_of_list
    (fails : (do times (← Reader.u2) (readWithin pool budget) : Scanner (List Attribute)) s =
      .error failure t) :
    failure.Places fun offset => ∃ start, innermostOfList? pool budget s = some start ∧
      start.cursor.Inside s.cursor ∧ start.cursor.offset = offset := by
  obtain counts | ⟨count, m, counts, lists⟩ := bind_error_iff.mp fails
  · exact Reader.takes_u2.places counts
  obtain ⟨u, t', stops, items⟩ := stopsAt?_of_error lists
  obtain ⟨-, afterCount⟩ := Reader.takes_u2.eq_of_ok counts
  obtain ⟨used, afterOthers⟩ := stopsAt?_passes (tracks_readWithin budget) stops
  have found : innermostOfList? pool budget s = some (innermost pool budget u) := by
    simp only [innermostOfList?, counts, stops, Option.map_some]
  have inside := (innermost_inside pool budget u).trans (afterOthers.inside.trans afterCount.inside)
  refine (places_of_readWithin items).mono fun offset here => ⟨_, found, inside, here.symm⟩

end Attribute

/-- Faults of class files are placed in the file, or nowhere. Whatever fails in a counted list of
attributes, which for a class or a member has the whole of the budget and for code what is left of
it, is placed, unless it nests too deep; and a constant that is not there or of another kind is a
fault at the innermost attribute that is being read, where its name index stands. -/
theorem faults_placed_in_file_and_at_attributes :
    (∀ (data : List UInt8) (limit : Option Int) (cause : Cause) (offset : Int),
      ClassFile.parse data limit = .error (.fault cause (some offset)) →
        0 ≤ offset ∧ offset ≤ data.length) ∧
    ∀ (pool : Pool) (budget : Nat) (s t : Scan) (failure : Failure),
      (do times (← Reader.u2) (Attribute.readWithin pool budget) : Scanner (List Attribute)) s =
          .error failure t →
        failure = .tooDeep ∨ ∃ cause offset, failure = .fault cause (some offset) ∧
          (cause.IsLookup → ∃ start, Attribute.innermostOfList? pool budget s = some start ∧
            start.cursor.Inside s.cursor ∧ start.cursor.offset = offset) := by
  refine ⟨fun _ _ _ _ => ClassFile.fault_in_file, fun pool budget s t failure fails => ?_⟩
  have places := Attribute.places_of_list fails
  cases failure with
  | tooDeep => exact .inl rfl
  | fault cause place =>
    cases place with
    | none => exact places.elim
    | some offset => exact .inr ⟨cause, offset, rfl, places⟩
  | _ => exact places.elim

def failureOf? {σ α : Type} : EStateM.Result Failure σ α → Option Failure
  | .ok .. => none
  | .error failure _ => some failure

theorem exists_of_failureOf? {σ α : Type} {outcome : EStateM.Result Failure σ α} {failure : Failure}
    (found : failureOf? outcome = some failure) : ∃ t, outcome = .error failure t := by
  cases outcome with
  | ok a t => cases found
  | error other t =>
    cases found
    exact ⟨t, rfl⟩

/-- A pool that holds the names of two attributes. -/
def Pool.twoNames : Pool := ⟨[none, some (.utf8 "Code"), some (.utf8 "SourceFile")]⟩

/-- Code with a source file that has no name. -/
def Attribute.namelessSource : List UInt8 := [
  0, 1,
  0, 1, 0, 0, 0, 21, 0, 1, 0, 0, 0, 0, 0, 1, 0xB1, 0, 0,
  0, 1, 0, 2, 0, 0, 0, 2, 0, 9]

theorem faults_placed_in_file_and_at_attributes_sample :
    (ClassFile.parse (ClassFile.sample.take 75) none = .error (.fault (.truncated 2 1) (some 74)) ∧
      0 ≤ (74 : Int) ∧ (74 : Int) ≤ (ClassFile.sample.take 75).length) ∧
    (∃ t, (do times (← Reader.u2) (Attribute.readWithin .twoNames 980) : Scanner (List Attribute))
        ⟨.ofBytes Attribute.namelessSource 100, []⟩ =
          .error (.fault (.badIndex 9 (.outside 2)) (some 121)) t) ∧
    ∃ start, Attribute.innermostOfList? .twoNames 980
        ⟨.ofBytes Attribute.namelessSource 100, []⟩ = some start ∧
      start.cursor.Inside (.ofBytes Attribute.namelessSource 100) ∧ start.cursor.offset = 121 := by
  obtain ⟨inFile, atAttribute⟩ := faults_placed_in_file_and_at_attributes
  obtain ⟨t, cut⟩ : ∃ t, ClassFile.read none ⟨.ofBytes (ClassFile.sample.take 75) 0, []⟩ =
      .error (.atOffset (.truncated 2 1) 74) t :=
    exists_of_failureOf? (by decide +kernel)
  obtain ⟨t', missing⟩ :
      ∃ t, (do times (← Reader.u2) (Attribute.readWithin .twoNames 980) : Scanner (List Attribute))
        ⟨.ofBytes Attribute.namelessSource 100, []⟩ =
          .error (.fault (.badIndex 9 (.outside 2)) (some 121)) t :=
    exists_of_failureOf? (by decide +kernel)
  have fails := ClassFile.parse_eq_of_fault cut
  refine ⟨⟨fails, inFile _ _ _ _ fails⟩, ⟨t', missing⟩, ?_⟩
  obtain tooDeep | ⟨cause, offset, same, lookup⟩ := atAttribute _ _ _ _ _ missing
  · cases tooDeep
  · cases same
    exact lookup (by decide)

end JavaClass
