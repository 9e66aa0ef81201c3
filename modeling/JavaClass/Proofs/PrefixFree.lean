import JavaClass.Proofs.ClassFile

/-!
Too few bytes, and too many. A reader that takes its bytes one after the other runs out of them
wherever the data is cut off in what it would take. A class file has to end where the data does, so
whatever comes after it is refused, and no class file is the beginning of another one.
-/

namespace JavaClass

open HasCursor (cursor)

namespace Cursor

variable {c d c' d' : Cursor} {used : List UInt8}

/-- File offset at which the window ends. -/
def stop (c : Cursor) : Int := c.offset + c.remaining

theorem stop_ofBytes (data : List UInt8) (base : Int) :
    (ofBytes data base).stop = base + data.length := by
  simp [stop, offset, remaining, ofBytes]

/-- Both cursors are at one place, whatever comes after it. -/
structure Aligned (c d : Cursor) : Prop where
  base : c.base = d.base
  pos : c.pos = d.pos

theorem Aligned.passes (aligned : c.Aligned d) (first : c.Passes used c')
    (second : d.Passes used d') : c'.Aligned d' := by
  constructor
  · rw [first.base, second.base, aligned.base]
  · rw [first.pos, second.pos, aligned.pos]

theorem Passes.rest_eq {rest : List UInt8} (passes : c.Passes used d)
    (split : c.rest = used ++ rest) : d.rest = rest := by
  have same := passes.rest
  rw [split] at same
  exact (List.append_cancel_left same).symm

theorem Passes.stop_eq (passes : c.Passes used d) : d.stop = c.stop := by
  have length := congrArg List.length passes.rest
  rw [List.length_append] at length
  simp only [stop, offset, remaining, passes.base, passes.pos]
  omega

end Cursor

section
variable {σ α β : Type} {s m t : σ} {a : α} {failure : Failure}

theorem bind_eq_of_ok {reader : EStateM Failure σ α} {next : α → EStateM Failure σ β}
    (reads : reader s = .ok a m) : (reader >>= next) s = next a m := by
  change EStateM.bind reader next s = _
  rw [EStateM.bind, reads]

theorem bind_eq_of_error {reader : EStateM Failure σ α} {next : α → EStateM Failure σ β}
    (fails : reader s = .error failure t) : (reader >>= next) s = .error failure t := by
  change EStateM.bind reader next s = _
  rw [EStateM.bind, fails]

end

section
variable {σ α β : Type} [HasCursor σ]

/-- The reader fails because it wants more bytes than are left before the data stops. -/
def RunsOut (reader : EStateM Failure σ α) (s : σ) : Prop :=
  ∃ (wanted : Int) (available : Nat) (t : σ), available < wanted ∧
    reader s = .error (.atOffset (.truncated wanted available) ((cursor s).stop - available)) t

section
variable {reader : EStateM Failure σ α} {next : α → EStateM Failure σ β} {s m : σ} {a : α}
  {used : List UInt8}

theorem RunsOut.bind_first (runsOut : RunsOut reader s) : RunsOut (reader >>= next) s := by
  obtain ⟨wanted, available, t, less, fails⟩ := runsOut
  exact ⟨wanted, available, t, less, bind_eq_of_error fails⟩

theorem RunsOut.bind_next (reads : reader s = .ok a m) (passes : (cursor s).Passes used (cursor m))
    (runsOut : RunsOut (next a) m) : RunsOut (reader >>= next) s := by
  obtain ⟨wanted, available, t, less, fails⟩ := runsOut
  rw [passes.stop_eq] at fails
  exact ⟨wanted, available, t, less, by rw [bind_eq_of_ok reads, fails]⟩

/-- The reader gives a value if the bytes for it come next, and runs out if only a part of them is
left. -/
structure Decides (reader : EStateM Failure σ α) (a : α) (used : List UInt8) (s : σ) : Prop where
  enough : ∀ rest, (cursor s).rest = used ++ rest →
    ∃ t, reader s = .ok a t ∧ (cursor s).Passes used (cursor t)
  short : ∀ missing, missing ≠ [] → used = (cursor s).rest ++ missing → RunsOut reader s

/-- Data that is cut off runs out in the bytes of the first reader or in those after it. -/
theorem Decides.bind_short {back missing : List UInt8} (decides : Decides reader a used s)
    (whole : used ++ back = (cursor s).rest ++ missing)
    (later : ∀ m, reader s = .ok a m → (cursor s).Passes used (cursor m) →
      back = (cursor m).rest ++ missing → RunsOut (next a) m) : RunsOut (reader >>= next) s := by
  have after (rest : List UInt8) (split : (cursor s).rest = used ++ rest)
      (cut : back = rest ++ missing) : RunsOut (reader >>= next) s := by
    obtain ⟨m, reads, passes⟩ := decides.enough rest split
    exact .bind_next reads passes (later m reads passes (by rw [passes.rest_eq split, cut]))
  obtain ⟨rest, split, cut⟩ | ⟨lost, split, cut⟩ := List.append_eq_append_iff.mp whole
  · exact after rest split cut
  · by_cases none : lost = []
    · subst none
      rw [List.append_nil] at split
      exact after [] (by rw [split, List.append_nil]) cut.symm
    · exact .bind_first (decides.short lost none split)

end

/-- A reader for which nothing counts but the bytes that it takes. -/
def Sequential (reader : EStateM Failure σ α) : Prop :=
  ∀ s a t, reader s = .ok a t → ∃ used, (cursor s).Passes used (cursor t) ∧
    ∀ s', (cursor s').Aligned (cursor s) → Decides reader a used s'

namespace Sequential

variable {reader : EStateM Failure σ α} {next : α → EStateM Failure σ β}

/-- A check takes no bytes, so it cannot run out of them. -/
theorem of_check {condition : α → Prop}
    (follows : Follows reader (fun a => Format.require (condition a))) : Sequential reader := by
  intro s a t reads
  obtain ⟨_, ⟨holds, rfl⟩, passes⟩ := (follows s a (cursor t)).mp ⟨t, reads, rfl⟩
  refine ⟨[], passes, fun s' _ => ⟨fun rest _ => ?_, fun missing some whole => ?_⟩⟩
  · have still : (cursor s').Passes [] (cursor s') := Cursor.passes_nil.mpr rfl
    obtain ⟨t', reads', same⟩ := (follows s' a (cursor s')).mpr ⟨[], ⟨holds, rfl⟩, still⟩
    exact ⟨t', reads', same ▸ still⟩
  · exact absurd (List.append_eq_nil_iff.mp whole.symm).2 some

protected theorem pure (a : α) : Sequential (pure a : EStateM Failure σ α) :=
  of_check (Follows.pure a)

protected theorem throw (failure : Failure) :
    Sequential (throw failure : EStateM Failure σ α) := by
  intro s a t reads
  cases reads

protected theorem bind (first : Sequential reader) (others : ∀ a, Sequential (next a)) :
    Sequential (reader >>= next) := by
  intro s b t runs
  obtain ⟨a, m, reads, readsNext⟩ := bind_ok_iff.mp runs
  obtain ⟨front, passes, decides⟩ := first s a m reads
  obtain ⟨back, passesNext, decidesNext⟩ := others a m b t readsNext
  refine ⟨front ++ back, Cursor.passes_append.mpr ⟨_, passes, passesNext⟩, ?_⟩
  intro s' aligned
  constructor
  · intro rest whole
    rw [List.append_assoc] at whole
    obtain ⟨m', reads', passes'⟩ := (decides s' aligned).enough _ whole
    have decides' := decidesNext m' (aligned.passes passes' passes)
    obtain ⟨t', readsNext', passesNext'⟩ := decides'.enough rest (passes'.rest_eq whole)
    exact ⟨t', by rw [bind_eq_of_ok reads', readsNext'],
      Cursor.passes_append.mpr ⟨_, passes', passesNext'⟩⟩
  · intro missing some whole
    apply (decides s' aligned).bind_short whole
    intro m' reads' passes' cut
    exact (decidesNext m' (aligned.passes passes' passes)).short missing some cut

protected theorem ite {condition : Prop} [Decidable condition] {other : EStateM Failure σ α}
    (sequential : Sequential reader) (otherwise : Sequential other) :
    Sequential (if condition then reader else other) := by
  split
  · exact sequential
  · exact otherwise

protected theorem times (n : Nat) (sequential : Sequential reader) :
    Sequential (times n reader) := by
  induction n with
  | zero => exact .pure []
  | succ n ih => exact sequential.bind fun first => ih.bind fun others => .pure _

protected theorem forM {check : α → EStateM Failure σ Unit} (items : List α)
    (sequential : ∀ a, Sequential (check a)) : Sequential (items.forM check) := by
  induction items with
  | nil => exact .pure ()
  | cons a items ih => exact (sequential a).bind fun _ => ih

end Sequential

end

namespace Scanner

variable {α : Type} {reader : Reader α} {s t : Scan} {c : Cursor} {a : α} {failure : Failure}

theorem lift_ok_iff :
    (liftM reader : Scanner α) s = .ok a t ↔ ∃ c, reader s.cursor = .ok a c ∧ ⟨c, s.notes⟩ = t := by
  simp only [liftM, monadLift, MonadLift.monadLift]
  cases reader s.cursor <;> simp

theorem lift_eq_error (fails : reader s.cursor = .error failure c) :
    (liftM reader : Scanner α) s = .error failure ⟨c, s.notes⟩ := by
  simp only [liftM, monadLift, MonadLift.monadLift, fails]

end Scanner

namespace Sequential

variable {α : Type}

protected theorem scan {reader : Reader α} (sequential : Sequential reader) :
    Sequential (liftM reader : Scanner α) := by
  intro s a t reads
  obtain ⟨d, run, rfl⟩ := Scanner.lift_ok_iff.mp reads
  obtain ⟨used, passes, decides⟩ := sequential s.cursor a d run
  refine ⟨used, passes, fun s' aligned => ?_⟩
  obtain ⟨enough, short⟩ := decides s'.cursor aligned
  constructor
  · intro rest whole
    obtain ⟨d', run', passes'⟩ := enough rest whole
    exact ⟨_, Scanner.lift_ok_iff.mpr ⟨d', run', rfl⟩, passes'⟩
  · intro missing some whole
    obtain ⟨wanted, available, d', less, fails⟩ := short missing some whole
    exact ⟨wanted, available, _, less, Scanner.lift_eq_error fails⟩

theorem lift (x : Except Failure α) : Sequential (liftM x : Reader α) := of_check (Follows.lift x)

theorem discard_lift (x : Except Failure α) : Sequential (discard (liftM x : Reader α)) :=
  of_check (Follows.discard_lift x)

protected theorem note (note : Note) : Sequential (Scanner.note note) := by
  have follows : Follows (Scanner.note note) (fun _ => Format.require True) :=
    (Follows.note note).congr fun _ bytes => by simp
  exact of_check follows

end Sequential

namespace Reader

theorem sequential_bytes (n : Nat) : Sequential (bytes n) := by
  intro c value d reads
  obtain ⟨used, inside, passes⟩ := (follows_bytes n).ok_iff.mp reads
  obtain ⟨length, rfl⟩ := Format.mem_require_mul.mp inside
  refine ⟨used, passes, fun c' aligned => ⟨fun rest whole => ?_, fun missing some whole => ?_⟩⟩
  · have passes' : c'.Passes used ⟨c'.base, c'.pos + used.length, rest⟩ := ⟨rfl, rfl, whole⟩
    exact ⟨_, (follows_bytes n).ok_iff.mpr ⟨used, inside, passes'⟩, passes'⟩
  · have missed := List.length_pos_of_ne_nil some
    have counted := congrArg List.length whole
    rw [length, List.length_append] at counted
    change n = c'.rest.length + missing.length at counted
    have none : splitFirst? n c'.rest = none := splitFirst?_eq_none_iff.mpr (by omega)
    have place : c'.offset = c'.stop - c'.remaining := by
      simp only [Cursor.stop]
      omega
    refine ⟨n, c'.remaining, c', ?_, ?_⟩
    · simp only [Cursor.remaining]
      omega
    · rw [bytes, none]
      exact congrArg (EStateM.Result.error · c') (congrArg _ place)

theorem sequential_offset : Sequential offset := by
  intro c value d reads
  cases reads
  have still (c : Cursor) : c.Passes [] c := Cursor.passes_nil.mpr rfl
  refine ⟨[], still c, fun c' aligned => ⟨fun rest _ => ⟨c', ?_, still c'⟩, ?_⟩⟩
  · change EStateM.Result.ok c'.offset c' = .ok c.offset c'
    have base : c'.base = c.base := aligned.base
    have pos : c'.pos = c.pos := aligned.pos
    rw [Cursor.offset, Cursor.offset, base, pos]
  · intro missing some whole
    exact absurd (List.append_eq_nil_iff.mp whole.symm).2 some

theorem sequential_u1 : Sequential u1 := (sequential_bytes 1).bind fun _ => .pure _

theorem sequential_u2 : Sequential u2 := (sequential_bytes 2).bind fun _ => .pure _

theorem sequential_u4 : Sequential u4 := (sequential_bytes 4).bind fun _ => .pure _

theorem sequential_u8 : Sequential u8 := (sequential_bytes 8).bind fun _ => .pure _

theorem sequential_window (n : Nat) : Sequential (window n) := by
  rw [window, bytesOf_cast]
  exact sequential_offset.bind fun base => (sequential_bytes n).bind fun _ => .pure _

end Reader

/-- Every constant has fields of a fixed size, a text apart, whose size is the first field. -/
theorem Entry.sequential_read (tag : Nat) (offset : Int) : Sequential (Entry.read tag offset) := by
  have u2 := Reader.sequential_u2
  unfold Entry.read
  split
  case h_1 => exact u2.bind fun length => (Reader.sequential_bytes length).bind fun _ => .pure _
  case h_2 => exact (Reader.sequential_u4.bind fun _ => .pure _).bind fun _ => .pure _
  case h_3 => exact (Reader.sequential_u4.bind fun _ => .pure _).bind fun _ => .pure _
  case h_4 => exact (Reader.sequential_u8.bind fun _ => .pure _).bind fun _ => .pure _
  case h_5 => exact (Reader.sequential_u8.bind fun _ => .pure _).bind fun _ => .pure _
  case h_12 => exact Reader.sequential_u1.bind fun _ => u2.bind fun _ => .pure _
  case h_18 => exact .throw _
  case h_6 | h_7 | h_13 | h_16 | h_17 => exact u2.bind fun _ => .pure _
  all_goals exact u2.bind fun _ => u2.bind fun _ => .pure _

namespace Pool

theorem sequential_readSlots (index free : Nat) : Sequential (readSlots index free) := by
  induction free using Nat.strong_induction_on generalizing index with
  | _ free ih =>
    cases free with
    | zero => exact .pure []
    | succ free =>
      unfold readSlots
      apply Reader.sequential_offset.bind
      intro offset
      apply Reader.sequential_u1.bind
      intro tag
      apply (Entry.sequential_read tag offset).bind
      intro e
      apply Sequential.ite
      · exact (ih free (by omega) _).bind fun _ => .pure _
      · cases free with
        | zero => exact .throw _
        | succ free => exact (ih free (by omega) _).bind fun _ => .pure _

theorem sequential_readCounted (count : Nat) : Sequential (readCounted count) :=
  (sequential_readSlots 1 (count - 1)).bind fun _ => (Sequential.lift _).bind fun _ => .pure _

end Pool

namespace Attribute

variable {pool : Pool} {nested : Scanner Attribute} {budget : Nat}

/-- The bytes of an attribute are taken all at once, and what is made of them takes no more. -/
theorem sequential_readWith
    (follows : Follows nested (fun a => Format.require (a.depth + 4 ≤ budget) * a.encoding pool)) :
    Sequential (readWith pool nested budget) := by
  unfold readWith
  apply Reader.sequential_offset.scan.bind
  intro offset
  apply Reader.sequential_u2.scan.bind
  intro nameIndex
  have named := Follows.located offset (pool.follows_utf8 nameIndex).scan
  apply (Sequential.of_check named).bind
  intro name
  apply Reader.sequential_u4.scan.bind
  intro length
  apply (Reader.sequential_window length).scan.bind
  intro window
  split
  · exact (Sequential.note _).bind fun _ => .pure _
  · rename_i known found
    have body := Follows.within window (Follows.located offset (Body.follows_read follows known))
    apply (Sequential.of_check body).bind
    intro p
    exact .ite (.throw _) (.pure _)

theorem sequential_readWithin (pool : Pool) (budget : Nat) :
    Sequential (readWithin pool budget) := by
  unfold readWithin
  split
  · rename_i budget
    exact sequential_readWith ((follows_readWithin pool budget).congr fun a bytes => by simp)
  · rename_i short
    exact sequential_readWith (follows_tooDeep short)

theorem sequential_readMany : Sequential (readMany pool) :=
  Reader.sequential_u2.scan.bind fun count =>
    (sequential_readWithin pool nestingBudget).times count

end Attribute

theorem Member.sequential_read {pool : Pool} : Sequential (Member.read pool) := by
  have u2 := Reader.sequential_u2.scan
  have text (index : Nat) : Sequential (liftM (pool.utf8 index) : Scanner Text) :=
    (Sequential.lift _).scan
  exact u2.bind fun _ => u2.bind fun nameIndex => u2.bind fun descriptorIndex =>
    (text nameIndex).bind fun _ => (text descriptorIndex).bind fun _ =>
      Attribute.sequential_readMany.bind fun _ => .pure _

section
variable {σ α β : Type} [HasCursor σ]

/-- The reader does with this data and no other: it runs out where the end is missing, and finds
what is left over where there is more. -/
structure Refuses (reader : EStateM Failure σ α) (data : List UInt8) (s : σ) : Prop where
  short : ∀ missing, missing ≠ [] → data = (cursor s).rest ++ missing → RunsOut reader s
  long : ∀ extra, extra ≠ [] → (cursor s).rest = data ++ extra → ∃ t,
    reader s = .error (.atOffset (.trailingBytes extra.length) ((cursor s).stop - extra.length)) t

/-- A reader that has to come to the end of the data. -/
def Delimited (reader : EStateM Failure σ α) : Prop :=
  ∀ s a t, reader s = .ok a t →
    ∀ s', (cursor s').Aligned (cursor s) → Refuses reader (cursor s).rest s'

namespace Delimited

variable {reader : EStateM Failure σ α} {next : α → EStateM Failure σ β}

protected theorem bind (first : Sequential reader) (others : ∀ a, Delimited (next a)) :
    Delimited (reader >>= next) := by
  intro s b t runs s' aligned
  obtain ⟨a, m, reads, readsNext⟩ := bind_ok_iff.mp runs
  obtain ⟨front, passes, decides⟩ := first s a m reads
  rw [passes.rest]
  have refuses (m' : σ) (passes' : (cursor s').Passes front (cursor m')) :
      Refuses (next a) (cursor m).rest m' :=
    others a m b t readsNext m' (aligned.passes passes' passes)
  constructor
  · intro missing some whole
    apply (decides s' aligned).bind_short whole
    intro m' reads' passes' cut
    exact (refuses m' passes').short missing some cut
  · intro extra some whole
    rw [List.append_assoc] at whole
    obtain ⟨m', reads', passes'⟩ := (decides s' aligned).enough _ whole
    obtain ⟨t', fails⟩ := (refuses m' passes').long extra some (passes'.rest_eq whole)
    rw [passes'.stop_eq] at fails
    exact ⟨t', by rw [bind_eq_of_ok reads', fails]⟩

theorem ite_bind {condition : Prop} [Decidable condition] {check : EStateM Failure σ Unit}
    (sequential : Sequential check) (delimited : Delimited reader) :
    Delimited (if condition then check >>= fun _ => reader else reader) := by
  split
  · exact Delimited.bind sequential fun _ => delimited
  · exact delimited

end Delimited

end

theorem Delimited.at_end {α : Type} {last : Scanner α} :
    Delimited (get >>= fun s : Scan =>
      if (!s.cursor.atEnd) = true then
        throw (.atOffset (.trailingBytes s.cursor.remaining) s.cursor.offset) >>=
          fun (_ : Unit) => last
      else last) := by
  intro s a t runs s' _
  have ended : s.cursor.rest = [] := by
    apply List.isEmpty_iff.mp
    by_contra more
    change (if (!s.cursor.atEnd) = true then _ else _ : Scanner α) s = _ at runs
    rw [if_pos (by simpa [Cursor.atEnd] using more)] at runs
    cases runs
  change Refuses _ s.cursor.rest s'
  rw [ended]
  constructor
  · intro missing some whole
    exact absurd (List.append_eq_nil_iff.mp whole.symm).2 some
  · intro extra some whole
    change s'.cursor.rest = extra at whole
    have more : (!s'.cursor.atEnd) = true := by simpa [Cursor.atEnd, whole] using some
    have place : s'.cursor.offset = s'.cursor.stop - extra.length := by
      simp only [Cursor.stop, Cursor.remaining, whole]
      omega
    refine ⟨s', ?_⟩
    change (if (!s'.cursor.atEnd) = true then _ else _ : Scanner α) s' = _
    rw [if_pos more]
    change EStateM.Result.error (Failure.atOffset (.trailingBytes s'.cursor.rest.length)
      s'.cursor.offset) s' = _
    rw [whole, place]
    rfl

namespace ClassFile

theorem sequential_readMagic : Sequential readMagic :=
  Reader.sequential_u4.bind fun _ => .ite (.throw _) (.pure _)

theorem sequential_readVersion (limit : Option Int) : Sequential (readVersion limit) := by
  unfold readVersion
  apply Reader.sequential_u2.bind
  intro minor
  apply Reader.sequential_offset.bind
  intro offset
  apply Reader.sequential_u2.bind
  intro major
  apply Sequential.ite
  · exact .throw _
  · cases limit with
    | none => exact .pure _
    | some newest => exact .ite (.throw _) (.pure _)

theorem sequential_readInterfaces (pool : Pool) : Sequential (readInterfaces pool) :=
  Reader.sequential_u2.bind fun count => (Reader.sequential_u2.times count).bind fun interfaces =>
    (Sequential.forM interfaces fun _ => .discard_lift _).bind fun _ => .pure _

theorem delimited_read (limit : Option Int) : Delimited (read limit) := by
  have u2 := Reader.sequential_u2.scan
  unfold read
  apply Delimited.bind sequential_readMagic.scan
  intro _
  apply Delimited.bind (sequential_readVersion limit).scan
  intro version
  apply Delimited.bind u2
  intro count
  apply Delimited.bind (Pool.sequential_readCounted count).scan
  intro pool
  apply Delimited.bind (.note _)
  intro _
  apply Delimited.bind u2
  intro flags
  apply Delimited.bind u2
  intro thisClass
  apply Delimited.bind u2
  intro superClass
  apply Delimited.bind (Sequential.lift _).scan
  intro name
  apply Delimited.ite_bind (.of_check (.discard_lift_scan _))
  apply Delimited.bind (sequential_readInterfaces pool).scan
  intro interfaces
  apply Delimited.bind u2
  intro fieldCount
  apply Delimited.bind (Member.sequential_read.times fieldCount)
  intro fields
  apply Delimited.bind u2
  intro methodCount
  apply Delimited.bind (Member.sequential_read.times methodCount)
  intro methods
  apply Delimited.bind Attribute.sequential_readMany
  intro attributes
  exact .at_end

theorem parse_eq_of_fault {data : List UInt8} {limit : Option Int} {cause : Cause} {offset : Int}
    {t : Scan} (fails : read limit ⟨.ofBytes data 0, []⟩ = .error (.atOffset cause offset) t) :
    parse data limit = .error (.atOffset cause offset) := by
  rw [parse, load, fails]
  rfl

/-- No class file goes on into another one. Where its bytes are cut off, a read asks for more than
is left of them; where bytes follow, they are found at the place where the class file ends. -/
theorem parse_of_cut_or_extended {data : List UInt8} {limit : Option Int} {c : ClassFile}
    (accepted : parse data limit = .ok c) :
    (∀ cut, cut <+: data → cut ≠ data → ∃ (wanted : Int) (available : Nat), available < wanted ∧
      parse cut limit =
        .error (.atOffset (.truncated wanted available) (cut.length - available))) ∧
    ∀ extra, extra ≠ [] → parse (data ++ extra) limit =
      .error (.atOffset (.trailingBytes extra.length) data.length) := by
  obtain ⟨t, reads⟩ := parse_eq_ok_iff.mp accepted
  have refuses (other : List UInt8) : Refuses (read limit) data ⟨.ofBytes other 0, []⟩ :=
    delimited_read limit _ c t reads ⟨.ofBytes other 0, []⟩ ⟨rfl, rfl⟩
  constructor
  · rintro cut ⟨missing, rfl⟩ proper
    have some : missing ≠ [] := by
      rintro rfl
      exact proper (List.append_nil cut).symm
    obtain ⟨wanted, available, t', less, fails⟩ := (refuses cut).short missing some rfl
    have place : (Cursor.ofBytes cut 0).stop - available = cut.length - available := by
      rw [Cursor.stop_ofBytes, Int.zero_add]
    exact ⟨wanted, available, less, place ▸ parse_eq_of_fault fails⟩
  · intro extra some
    obtain ⟨t', fails⟩ := (refuses (data ++ extra)).long extra some rfl
    have place : (Cursor.ofBytes (data ++ extra) 0).stop - extra.length = data.length := by
      rw [Cursor.stop_ofBytes, List.length_append]
      omega
    exact place ▸ parse_eq_of_fault fails

theorem parse_of_cut_or_extended_sample :
    (∃ c, parse sample none = .ok c) ∧
    (∃ (wanted : Int) (available : Nat), available < wanted ∧ parse (sample.take 75) none =
      .error (.atOffset (.truncated wanted available) ((sample.take 75).length - available))) ∧
    parse (sample ++ [0]) none = .error (.atOffset (.trailingBytes 1) sample.length) := by
  obtain ⟨c, accepted⟩ := exists_parse_sample
  obtain ⟨cut, extended⟩ := parse_of_cut_or_extended accepted
  exact ⟨⟨c, accepted⟩, cut (sample.take 75) (List.take_prefix _ _) (by decide),
    extended [0] (by decide)⟩

end ClassFile

end JavaClass
