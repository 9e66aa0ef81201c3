import JavaClass.ClassFile.Reader
import JavaClass.Proofs.Attribute

/-!
The format of class files. The pool and the attributes are told by what their own readers make of
their bytes; parsing accepts a file exactly if its bytes are these parts in their order, without a
byte left over.
-/

namespace JavaClass

open Format

/-- The bytes that a reader takes whole when it is given them alone. -/
def Reader.taken {α : Type} (reader : Reader α) : Format α := fun a =>
  {bytes | ∃ d, reader (.ofBytes bytes 0) = .ok a d ∧ d.atEnd}

def Scanner.taken {α : Type} (scanner : Scanner α) : Format α := fun a =>
  {bytes | ∃ d notes, scanner ⟨.ofBytes bytes 0, []⟩ = .ok a ⟨d, notes⟩ ∧ d.atEnd}

section
variable (pool : Pool)

/-- A block that holds an attribute: its name, its length and its bytes. -/
def Attribute.block (a : Attribute) : Language UInt8 :=
  {bytes | bytes ∈ unsigned 2 a.nameIndex * unsigned 4 a.info.length * exactly a.info ∧
    bytes ∈ (Attribute.read pool).taken a}

def Member.encoding (m : Member) : Language UInt8 :=
  unsigned 2 m.flags * pool.indexOfText m.name m.nameIndex *
    pool.indexOfText m.descriptor m.descriptorIndex *
    counted 2 (m.attributes.map (Attribute.block pool))

end

namespace ClassFile

/-- What comes after the pool. -/
def contents (c : ClassFile) : Language UInt8 :=
  unsigned 2 c.flags * c.pool.indexOf [.classRef] c.thisClass *
    c.pool.optionalIndexOf [.classRef] c.superClass *
    counted 2 (c.interfaces.map (c.pool.indexOf [.classRef])) *
    counted 2 (c.fields.map (Member.encoding c.pool)) *
    counted 2 (c.methods.map (Member.encoding c.pool)) *
    counted 2 (c.attributes.map (Attribute.block c.pool))

/-- A whole class file whose version is not past the limit, if there is one. -/
def encoding (limit : Option Int) (c : ClassFile) : Language UInt8 :=
  require (45 ≤ c.majorVersion ∧ ∀ newest ∈ limit, (c.majorVersion : Int) ≤ newest) *
    (exactly [0xCA, 0xFE, 0xBA, 0xBE] * unsigned 2 c.minorVersion * unsigned 2 c.majorVersion *
      Pool.read.taken c.pool * c.contents)

end ClassFile

theorem Reader.taken_eq {α : Type} {reader : Reader α} {format : Format α}
    (follows : Follows reader format) : reader.taken = format := by
  funext a
  ext bytes
  change (∃ d, reader (.ofBytes bytes 0) = .ok a d ∧ d.atEnd) ↔ _
  simp only [follows.ok_iff]
  exact Cursor.exists_passes_atEnd

theorem Scanner.taken_eq {α : Type} {scanner : Scanner α} {format : Format α}
    (follows : Follows scanner format) : scanner.taken = format := by
  funext a
  ext bytes
  change (∃ d notes, scanner ⟨.ofBytes bytes 0, []⟩ = .ok a ⟨d, notes⟩ ∧ d.atEnd) ↔ _
  simp only [exists_and_right, follows.scan_ok_iff]
  exact Cursor.exists_passes_atEnd

namespace Attribute

variable {pool : Pool}

theorem follows_read : Follows (read pool) (block pool) := by
  have follows := follows_readWithin pool nestingBudget
  refine follows.congr fun a bytes => ?_
  change _ ↔ _ ∧ bytes ∈ (readWithin pool nestingBudget).taken a
  rw [Scanner.taken_eq follows]
  simp [encoding_eq, Pool.indexOfText, mul_assoc]

theorem follows_readMany :
    Follows (readMany pool) (fun attributes => counted 2 (attributes.map (block pool))) :=
  Follows.counted Reader.follows_u2.scan follows_read

end Attribute

theorem Member.follows_read {pool : Pool} : Follows (Member.read pool) (Member.encoding pool) := by
  unfold Member.read
  refine Follows.congr (.bind Reader.follows_u2.scan fun _ => .bind Reader.follows_u2.scan
    fun nameIndex => .bind Reader.follows_u2.scan fun descriptorIndex =>
      .bind (pool.follows_utf8 nameIndex).scan fun _ =>
        .bind (pool.follows_utf8 descriptorIndex).scan fun _ =>
          .bind Attribute.follows_readMany fun _ => .pure _) fun ⟨_, _, _, _, _, _⟩ bytes => ?_
  simp [encoding, Pool.indexOfText, mul_assoc]

namespace ClassFile

theorem follows_readMagic : Follows readMagic (fun _ => exactly [0xCA, 0xFE, 0xBA, 0xBE]) := by
  unfold readMagic
  refine Follows.congr (.bind Reader.follows_u4 fun found => .guarded (.throw _) fun _ => .pure _)
    fun _ bytes => ?_
  have spelled : unsigned 4 magic = exactly [0xCA, 0xFE, 0xBA, 0xBE] :=
    unsigned_eq_exactly (by decide)
  simp [← spelled]

theorem follows_readVersion (limit : Option Int) :
    Follows (readVersion limit) (fun (minor, major) =>
      require (45 ≤ major ∧ ∀ newest ∈ limit, (major : Int) ≤ newest) *
        (unsigned 2 minor * unsigned 2 major)) := by
  unfold readVersion
  cases limit with
  | none =>
    refine Follows.congr (.bind Reader.follows_u2 fun _ => Follows.offset_bind fun _ =>
      .bind Reader.follows_u2 fun _ => .guarded (.throw_bind _) fun _ => .pure _)
        fun (minor, major) bytes => ?_
    simp [oldestVersion]
  | some newest =>
    refine Follows.congr (.bind Reader.follows_u2 fun _ => Follows.offset_bind fun _ =>
      .bind Reader.follows_u2 fun _ => .guarded (.throw_bind _) fun _ =>
        .guarded (.throw _) fun _ => .pure _) fun (minor, major) bytes => ?_
    simp [oldestVersion]

theorem follows_readInterfaces (pool : Pool) :
    Follows (readInterfaces pool) (fun interfaces =>
      require (∀ index ∈ interfaces, ∃ name, pool.className (index : Nat) = .ok name) *
        counted 2 (interfaces.map (unsigned 2))) := by
  unfold readInterfaces
  refine Follows.congr (.counted_bind Reader.follows_u2 Reader.follows_u2 fun interfaces =>
    .bind (Follows.forM interfaces fun _ => .discard_lift _) fun _ => .pure _)
      fun interfaces bytes => ?_
  simp [prod_require]

theorem exhausts_read (limit : Option Int) : Exhausts (read limit) (encoding limit) := by
  unfold read
  refine Exhausts.congr (.bind follows_readMagic.scan fun _ =>
    .bind (follows_readVersion limit).scan fun version => .bind Reader.follows_u2.scan fun count =>
      .bind_of (Pool.follows_readCounted count).scan fun pool _ readable =>
        .bind (.note _) fun _ => (?_ : Exhausts _ fun c : ClassFile =>
          require (c.minorVersion = version.1 ∧ c.majorVersion = version.2 ∧ c.pool = pool) *
            c.contents)) fun c bytes => ?_
  · -- The pool is known to be linked here, so an index of a class is all that a name takes.
    have valid := (mem_require_mul.mp readable).1.1
    refine Exhausts.congr (.bind Reader.follows_u2.scan fun _ => .bind Reader.follows_u2.scan
      fun thisClass => .bind Reader.follows_u2.scan fun superClass =>
        .bind (Follows.lift (pool.className thisClass)).scan fun _ =>
          .ite_bind (.discard_lift_scan (pool.className superClass))
            (.bind (follows_readInterfaces pool).scan fun _ =>
              .counted_bind Reader.follows_u2.scan Member.follows_read fun _ =>
                .counted_bind Reader.follows_u2.scan Member.follows_read fun _ =>
                  .bind Attribute.follows_readMany fun _ => .at_end fun _ => ⟨_, rfl⟩))
      fun c bytes => ?_
    obtain ⟨minorVersion, majorVersion, ownPool, flags, thisClass, superClass, interfaces, fields,
      methods, attributes⟩ := c
    by_cases own : ownPool = pool
    · subst own
      simp only [contents, Pool.counted_indexOf, Pool.indexOf, Pool.optionalIndexOf]
      simp [Pool.exists_className_iff valid.linked, or_iff_not_imp_left, mul_assoc]
      -- Both sides make the same conditions in another order.
      tauto
    · simp [own]
  · simp [encoding, Reader.taken_eq Pool.follows_read, Pool.encoding, mul_assoc]

theorem parse_eq_ok_iff {data : List UInt8} {limit : Option Int} {c : ClassFile} :
    parse data limit = .ok c ↔ ∃ t, read limit ⟨.ofBytes data 0, []⟩ = .ok c t := by
  unfold parse load
  cases read limit ⟨.ofBytes data 0, []⟩ <;> simp

/-- Parsing gives a class file exactly from the bytes that encode it. -/
theorem parse_ok_iff_mem_encoding (data : List UInt8) (limit : Option Int) (c : ClassFile) :
    parse data limit = .ok c ↔ data ∈ c.encoding limit := by
  have exhausts := exhausts_read limit ⟨.ofBytes data 0, []⟩ c
  refine Iff.trans ?_ exhausts
  unfold parse load
  cases read limit ⟨.ofBytes data 0, []⟩ <;> simp

/-- A class `A` with one field, `float x`, whose initial value is the greatest float. -/
def sample : List UInt8 := [
  0xCA, 0xFE, 0xBA, 0xBE, 0, 0, 0, 52, 0, 7,
  1, 0, 1, 0x41,
  7, 0, 1,
  1, 0, 13, 0x43, 0x6F, 0x6E, 0x73, 0x74, 0x61, 0x6E, 0x74, 0x56, 0x61, 0x6C, 0x75, 0x65,
  4, 0x7F, 0x7F, 0xFF, 0xFF,
  1, 0, 1, 0x78,
  1, 0, 1, 0x46,
  0, 0x21, 0, 2, 0, 0, 0, 0,
  0, 1, 0, 0, 0, 5, 0, 6, 0, 1, 0, 3, 0, 0, 0, 2, 0, 4,
  0, 0, 0, 0]

theorem exists_parse_sample : ∃ c, parse sample none = .ok c := by
  have accepted : (parse sample none).isOk = true := by decide +kernel
  cases parsed : parse sample none with
  | ok c => exact ⟨c, rfl⟩
  | error failure =>
    rw [parsed] at accepted
    cases accepted

end ClassFile

end JavaClass
