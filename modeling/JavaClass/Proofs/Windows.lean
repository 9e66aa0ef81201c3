import JavaClass.Proofs.Pool

/-!
Windows in windows. A cursor opened inside another one is a window on the same data, and the offset
that it starts from tells which. Whatever is read, skipped, opened and closed, every cursor stays
inside its window, and what it gives are the bytes of the data at its offset.
-/

namespace JavaClass

open Format

namespace Cursor

/-- The cursor after its next `n` bytes. -/
def advance (c : Cursor) (n : Nat) : Cursor :=
  { c with pos := c.pos + n, rest := c.rest.drop n }

/-- There are no `n` bytes left. -/
def Lacks (c : Cursor) (n : Int) : Prop := n < 0 ∨ (c.remaining : Int) < n

end Cursor

namespace Reader

/-- A reader that makes its value of the next `n` bytes and their offset, and fails without a move
where they are missing. -/
structure Takes {α : Type} (reader : Reader α) (n : Int) (make : Int → List UInt8 → α) : Prop where
  short : ∀ c : Cursor, c.Lacks n →
    reader c = .error (.atOffset (.truncated n c.remaining) c.offset) c
  enough : ∀ c : Cursor, ¬c.Lacks n →
    reader c = .ok (make c.offset (c.rest.take n.toNat)) (c.advance n.toNat)

theorem takes_bytesOf (n : Int) : Takes (bytesOf n) n fun _ bytes => bytes where
  short c lacks := by
    unfold bytesOf
    split
    · rfl
    · rename_i nonnegative
      have fewer : c.rest.length < n.toNat := by
        have missing := lacks.resolve_left nonnegative
        unfold Cursor.remaining at missing
        omega
      have cast : ((n.toNat : Nat) : Int) = n := by omega
      rw [bytes, splitFirst?_eq_none_iff.mpr fewer, cast]
  enough c enough := by
    obtain ⟨nonnegative, rest⟩ := not_or.mp enough
    have length : (c.rest.take n.toNat).length = n.toNat := by
      unfold Cursor.remaining at rest
      rw [List.length_take]
      omega
    have split := splitFirst?_eq_some_iff.mpr ⟨(List.take_append_drop n.toNat c.rest).symm, length⟩
    rw [bytesOf, if_neg nonnegative, bytes, split]
    rfl

section
variable {α β : Type} {reader : Reader α} {n : Int} {make : Int → List UInt8 → α}

theorem Takes.map (takes : Takes reader n make) (f : α → β) :
    Takes (do return f (← reader)) n fun offset bytes => f (make offset bytes) where
  short c lacks := by
    change EStateM.bind reader _ c = _
    rw [EStateM.bind, takes.short c lacks]
  enough c enough := by
    change EStateM.bind reader _ c = _
    rw [EStateM.bind, takes.enough c enough]
    rfl

end

theorem takes_window (n : Int) :
    Takes (window n) n fun offset bytes => Cursor.ofBytes bytes offset where
  short c lacks := by
    change EStateM.bind (bytesOf n) _ c = _
    rw [EStateM.bind, (takes_bytesOf n).short c lacks]
  enough c enough := by
    change EStateM.bind (bytesOf n) _ c = _
    rw [EStateM.bind, (takes_bytesOf n).enough c enough]
    rfl

end Reader

namespace Windows

/-- The widths of integers, in bytes. -/
inductive Width where
  | one
  | two
  | four
  | eight
  deriving DecidableEq, Repr

def Width.size : Width → Nat
  | .one => 1
  | .two => 2
  | .four => 4
  | .eight => 8

/-- The reads of fixed width. -/
inductive Fixed where
  | unsigned (width : Width)
  | signed (width : Width)
  | single
  | double
  deriving DecidableEq, Repr

/-- What may be read. -/
inductive Value where
  | number (z : Int)
  | float (value : Binary64)
  | bytes (bytes : List UInt8)
  | window (c : Cursor)
  | nothing
  deriving DecidableEq, Repr

namespace Fixed

def size : Fixed → Nat
  | .unsigned width | .signed width => width.size
  | .single => 4
  | .double => 8

def read : Fixed → Reader Value
  | .unsigned .one => return .number (← Reader.u1)
  | .unsigned .two => return .number (← Reader.u2)
  | .unsigned .four => return .number (← Reader.u4)
  | .unsigned .eight => return .number (← Reader.u8)
  | .signed .one => return .number (← Reader.i1)
  | .signed .two => return .number (← Reader.i2)
  | .signed .four => return .number (← Reader.i4)
  | .signed .eight => return .number (← Reader.i8)
  | .single => return .float (← Reader.f4)
  | .double => return .float (← Reader.f8)

/-- The bytes that spell a value, most significant byte first. -/
def encoding : Fixed → Format Value
  | .unsigned width, .number z => natural width.size z
  | .signed width, .number z => Format.signed width.size z
  | .single, .float value => ⨆ bits, require (value.HasBits .single bits) * Format.unsigned 4 bits
  | .double, .float value => ⨆ bits, require (value.HasBits .double bits) * Format.unsigned 8 bits
  | _, _ => 0

def decode : Fixed → List UInt8 → Value
  | .unsigned _, bytes => .number (bigEndian bytes)
  | .signed width, bytes => .number (twosComplement (8 * width.size) (bigEndian bytes))
  | .single, bytes => .float (.ofSingleBits (bigEndian bytes))
  | .double, bytes => .float (.ofBits (bigEndian bytes))

theorem takes_read (f : Fixed) : Reader.Takes f.read f.size fun _ => f.decode := by
  have unsigned (n : Nat) : Reader.Takes (do return bigEndian (← Reader.bytes n)) n
      fun _ => bigEndian := by
    rw [← Reader.bytesOf_cast]
    exact (Reader.takes_bytesOf n).map bigEndian
  cases f with
  | unsigned width => cases width <;> exact (unsigned _).map _
  | signed width => cases width <;> exact ((unsigned _).map _).map _
  | single => exact ((unsigned 4).map _).map _
  | double => exact ((unsigned 8).map _).map _

theorem mem_encoding_decode {f : Fixed} {bytes : List UInt8} (length : bytes.length = f.size) :
    bytes ∈ f.encoding (f.decode bytes) := by
  have spelled {width : Nat} (same : bytes.length = width) :
      bytes ∈ Format.unsigned width (bigEndian bytes) := mem_unsigned.mpr ⟨same, rfl⟩
  cases f with
  | unsigned width =>
    have here : bytes ∈ Format.unsigned width.size (bigEndian bytes) := spelled length
    simpa [encoding, decode, natural] using here
  | signed width =>
    have positive : 0 < width.size := by cases width <;> decide
    exact (mem_signed positive).mpr ⟨length, rfl⟩
  | single =>
    have here := spelled length
    refine Language.mem_iSup.mpr ⟨_, mem_require_mul.mpr ⟨?_, here⟩⟩
    exact (Binary64.ofSingleBits_eq_iff here.1).mp rfl
  | double =>
    have here := spelled length
    refine Language.mem_iSup.mpr ⟨_, mem_require_mul.mpr ⟨?_, here⟩⟩
    exact (Binary64.ofBits_eq_iff here.1).mp rfl

end Fixed

/-- What may be asked of a cursor. -/
inductive Request where
  | fixed (f : Fixed)
  | bytes (n : Int)
  | skip (n : Int)
  /-- A window over the next bytes. -/
  | sub (n : Int)
  deriving DecidableEq, Repr

namespace Request

def size : Request → Int
  | .fixed f => f.size
  | .bytes n | .skip n | .sub n => n

def read : Request → Reader Value
  | .fixed f => f.read
  | .bytes n => return .bytes (← Reader.bytesOf n)
  | .skip n => do
    let _ ← Reader.skip n
    return .nothing
  | .sub n => return .window (← Reader.window n)

/-- What a request makes of the bytes that it gets, and of their offset. -/
def Gives (offset : Int) (taken : List UInt8) : Request → Value → Prop
  | .fixed f, value => taken ∈ f.encoding value
  | .bytes _, value => value = .bytes taken
  | .skip _, value => value = .nothing
  | .sub _, value => value = .window (.ofBytes taken offset)

def make : Request → Int → List UInt8 → Value
  | .fixed f, _, taken => f.decode taken
  | .bytes _, _, taken => .bytes taken
  | .skip _, _, _ => .nothing
  | .sub _, offset, taken => .window (.ofBytes taken offset)

theorem takes_read (r : Request) : r.read.Takes r.size r.make := by
  cases r with
  | fixed f => exact f.takes_read
  | bytes n => exact (Reader.takes_bytesOf n).map Value.bytes
  | skip n => exact ((Reader.takes_bytesOf n).map fun _ => ()).map fun _ => Value.nothing
  | sub n => exact (Reader.takes_window n).map Value.window

theorem gives_make {r : Request} {offset : Int} {taken : List UInt8}
    (length : (taken.length : Int) = r.size) : r.Gives offset taken (r.make offset taken) := by
  cases r with
  | fixed f => exact Fixed.mem_encoding_decode (Int.ofNat.inj length)
  | _ => rfl

/-- A window that is given is one over the bytes. -/
theorem eq_ofBytes_of_gives {r : Request} {offset : Int} {taken : List UInt8} {inner : Cursor}
    (gives : r.Gives offset taken (.window inner)) : inner = .ofBytes taken offset := by
  cases r with
  | fixed f => cases f <;> exact (Language.notMem_zero _ gives).elim
  | sub n => exact Value.window.inj gives
  | _ => cases gives

end Request

/-- A cursor and the bytes that it was opened over. -/
structure Window where
  bytes : List UInt8
  cursor : Cursor
  deriving DecidableEq, Repr

def Window.ofCursor (c : Cursor) : Window := ⟨c.rest, c⟩

/-- Windows, each but the last opened in the one below it. -/
structure Stack where
  top : Window
  below : List Window
  deriving DecidableEq, Repr

inductive Step where
  | request (r : Request)
  /-- Goes back to the window around the one on top. -/
  | pop
  deriving DecidableEq, Repr

namespace Stack

def windows (s : Stack) : List Window := s.top :: s.below

/-- The top cursor has moved, and if it has given a window, that one is on top. -/
def moved (s : Stack) (c : Cursor) : Value → Stack
  | .window inner => ⟨.ofCursor inner, { s.top with cursor := c } :: s.below⟩
  | _ => { s with top := { s.top with cursor := c } }

def answer (s : Stack) (r : Request) : Except Failure Value × Stack :=
  match r.read s.top.cursor with
  | .ok value c => (.ok value, s.moved c value)
  | .error failure c => (.error failure, s.moved c .nothing)

/-- The outermost window is never left. -/
def pop (s : Stack) : Stack :=
  match s.below with
  | [] => s
  | w :: below => ⟨w, below⟩

def step (s : Stack) : Step → Stack
  | .request r => (s.answer r).2
  | .pop => s.pop

/-- The windows after some steps, of which the first finds a cursor over the data. -/
def after (data : List UInt8) (base : Int) (steps : List Step) : Stack :=
  steps.foldl step ⟨.ofCursor (.ofBytes data base), []⟩

end Stack

/-- The bytes at an offset, in data that starts at a base. -/
def bytesAt (data : List UInt8) (base offset : Int) (n : Nat) : List UInt8 :=
  (data.drop (offset - base).toNat).take n

/-- The window is a part of the data, and its cursor is inside of it. -/
structure Window.On (data : List UInt8) (base : Int) (w : Window) : Prop where
  base_le : base ≤ w.cursor.base
  bytes_eq : w.bytes = bytesAt data base w.cursor.base w.bytes.length
  pos_le : w.cursor.pos ≤ w.bytes.length
  rest_eq : w.cursor.rest = w.bytes.drop w.cursor.pos

/-- A request is answered from the data at the top cursor's offset; where bytes are missing, it fails
and nothing moves. -/
structure Stack.Serves (data : List UInt8) (base : Int) (s : Stack) (r : Request) : Prop where
  short : r.size < 0 ∨ s.top.cursor.remaining < r.size →
    s.answer r = (.error (.atOffset (.truncated r.size s.top.cursor.remaining)
      s.top.cursor.offset), s)
  enough : 0 ≤ r.size → r.size ≤ s.top.cursor.remaining →
    ∃ taken value, taken = bytesAt data base s.top.cursor.offset r.size.toNat ∧
      (taken.length : Int) = r.size ∧ r.Gives s.top.cursor.offset taken value ∧
      s.answer r = (.ok value, s.moved (s.top.cursor.advance r.size.toNat) value)

namespace Window.On

variable {data : List UInt8} {base : Int} {w : Window}

theorem ofBytes (data : List UInt8) (base : Int) :
    (ofCursor (.ofBytes data base)).On data base where
  base_le := Int.le_refl base
  bytes_eq := by simp [ofCursor, bytesAt, Cursor.ofBytes]
  pos_le := Nat.zero_le _
  rest_eq := rfl

variable (on : w.On data base) {n : Nat} (enough : n ≤ w.cursor.remaining)
include on enough

theorem advance : (Window.mk w.bytes (w.cursor.advance n)).On data base where
  base_le := on.base_le
  bytes_eq := on.bytes_eq
  pos_le := by
    have inside := on.pos_le
    rw [Cursor.remaining, on.rest_eq, List.length_drop] at enough
    simp only [Cursor.advance]
    omega
  rest_eq := by
    simp only [Cursor.advance]
    rw [on.rest_eq, List.drop_drop]

/-- The next bytes of a window are the bytes of the data at its offset. -/
theorem take_rest : w.cursor.rest.take n = bytesAt data base w.cursor.offset n := by
  have start := on.base_le
  have inside := on.pos_le
  rw [Cursor.remaining, on.rest_eq, List.length_drop] at enough
  have place : (w.cursor.offset - base).toNat = (w.cursor.base - base).toNat + w.cursor.pos := by
    unfold Cursor.offset
    omega
  rw [on.rest_eq, on.bytes_eq, bytesAt, bytesAt, place, List.drop_take, List.take_take,
    List.drop_drop, Nat.min_eq_left enough]

theorem length_bytesAt : (bytesAt data base w.cursor.offset n).length = n := by
  rw [← on.take_rest enough, List.length_take]
  exact Nat.min_eq_left enough

/-- The next bytes of a window are a window themselves. -/
theorem sub : (ofCursor
    (.ofBytes (bytesAt data base w.cursor.offset n) w.cursor.offset)).On data base where
  base_le := by
    have start := on.base_le
    simp only [ofCursor, Cursor.ofBytes, Cursor.offset]
    omega
  bytes_eq := by
    simp only [ofCursor, Cursor.ofBytes]
    rw [on.length_bytesAt enough]
  pos_le := Nat.zero_le _
  rest_eq := rfl

end Window.On

namespace Stack

variable {data : List UInt8} {base : Int} {s : Stack}

theorem serves (on : s.top.On data base) (r : Request) : s.Serves data base r where
  short lacks := by
    rw [answer, r.takes_read.short _ lacks]
    rfl
  enough nonnegative fits := by
    have enough : ¬s.top.cursor.Lacks r.size := by
      unfold Cursor.Lacks
      omega
    have fitsNat : r.size.toNat ≤ s.top.cursor.remaining := by omega
    have length := on.length_bytesAt fitsNat
    refine ⟨_, _, rfl, by omega, Request.gives_make (by omega), ?_⟩
    rw [answer, r.takes_read.enough _ enough, on.take_rest fitsNat]

/-- An answer keeps every window a part of the data. -/
theorem on_answer (all : ∀ w ∈ s.windows, w.On data base) (r : Request) :
    ∀ w ∈ (s.answer r).2.windows, w.On data base := by
  obtain ⟨on, others⟩ := List.forall_mem_cons.mp all
  have serves := serves on r
  by_cases lacks : s.top.cursor.Lacks r.size
  · rw [serves.short lacks]
    exact all
  · unfold Cursor.Lacks at lacks
    obtain ⟨taken, value, rfl, length, gives, answered⟩ := serves.enough (by omega) (by omega)
    have fits : r.size.toNat ≤ s.top.cursor.remaining := by omega
    have ahead := List.forall_mem_cons.mpr ⟨on.advance fits, others⟩
    rw [answered]
    cases value with
    | window inner =>
      obtain rfl := Request.eq_ofBytes_of_gives gives
      exact List.forall_mem_cons.mpr ⟨on.sub fits, ahead⟩
    | _ => exact ahead

/-- So does any step. -/
theorem on_step (all : ∀ w ∈ s.windows, w.On data base) (step : Step) :
    ∀ w ∈ (s.step step).windows, w.On data base := by
  cases step with
  | request r => exact on_answer all r
  | pop =>
    obtain ⟨top, _ | ⟨w, below⟩⟩ := s
    · exact all
    · exact (List.forall_mem_cons.mp all).2

theorem on_after (data : List UInt8) (base : Int) (steps : List Step) :
    ∀ w ∈ (after data base steps).windows, w.On data base := by
  -- From the last step back, as each step finds the windows that those before it have left.
  induction steps using List.reverseRecOn with
  | nil => exact List.forall_mem_singleton.mpr (.ofBytes data base)
  | append_singleton steps step ih =>
    rw [after, List.foldl_append]
    exact on_step ih step

/-- After any steps, each window is a part of the data with its cursor inside, and any request is
answered from the data. -/
theorem after_on_and_serves (data : List UInt8) (base : Int) (steps : List Step) :
    (∀ w ∈ (after data base steps).windows, w.On data base) ∧
      ∀ r, (after data base steps).Serves data base r := by
  have all := on_after data base steps
  exact ⟨all, serves (all _ List.mem_cons_self)⟩

end Stack

end Windows

end JavaClass
