import JavaClass.Storage.Codec
import JavaClass.Storage.CodePage
import JavaClass.Storage.Crc32
import JavaClass.Storage.FileSystem
import JavaClass.Text.Escape

/-!
Archives whose members are stored as they are or compressed. A directory at the end lists the
members; bytes in front of the first member are skipped over.
-/

namespace JavaClass

/-- The unsigned number that bytes spell, least significant byte first. -/
def littleEndian (bytes : List UInt8) : Nat :=
  bytes.foldr (fun b n => b.toNat + 256 * n) 0

namespace Archive

/-- `length` bytes from `start` on, or as many as there are. -/
def slice (bytes : List UInt8) (start length : Nat) : List UInt8 := (bytes.drop start).take length

def number (bytes : List UInt8) (start length : Nat) : Nat :=
  littleEndian (slice bytes start length)

def endMark : List UInt8 := [0x50, 0x4B, 0x05, 0x06]

def extendedEndMark : List UInt8 := [0x50, 0x4B, 0x06, 0x06]

def locatorMark : List UInt8 := [0x50, 0x4B, 0x06, 0x07]

def directoryMark : List UInt8 := [0x50, 0x4B, 0x01, 0x02]

def headerMark : List UInt8 := [0x50, 0x4B, 0x03, 0x04]

/-- The record behind the directory, which says how large the directory is and where it was when
the archive was written. -/
structure EndRecord where
  location : Nat
  directorySize : Nat
  directoryOffset : Nat
  extended : Bool
  deriving DecidableEq, Repr

/-- The last place of a mark in bytes that start at position `pos`. -/
def lastMark? (mark : List UInt8) (pos : Nat) : List UInt8 → Option Nat
  | [] => none
  | b :: rest =>
    match lastMark? mark (pos + 1) rest with
    | some found => some found
    | none => if mark.isPrefixOf (b :: rest) then some pos else none

def endRecordAt (bytes : List UInt8) (location : Nat) : EndRecord :=
  ⟨location, number bytes (location + 12) 4, number bytes (location + 16) 4, false⟩

/-- The end record is the last thing in the archive but for a comment of less than 64 KiB. -/
def endRecord? (bytes : List UInt8) : Option EndRecord :=
  let size := bytes.length
  let last := size - 22
  if size < 22 then none
  else if endMark.isPrefixOf (bytes.drop last) && number bytes (size - 2) 2 = 0 then
    some (endRecordAt bytes last)
  else
    let start := size - (65536 + 22)
    match lastMark? endMark start (bytes.drop start) with
    | some location => if location + 22 ≤ size then some (endRecordAt bytes location) else none
    | none => none

/-- Of a large archive the sizes stand in a longer record, to which a locator leads. -/
def extendRecord (bytes : List UInt8) (r : EndRecord) : Except ArchiveFault EndRecord :=
  let locator := r.location - 20
  let record := r.location - 76
  if r.location < 20 || !locatorMark.isPrefixOf (bytes.drop locator) then .ok r
  else if number bytes (locator + 4) 4 ≠ 0 || 1 < number bytes (locator + 16) 4 then
    .error .severalDisks
  else if r.location < 76 then .error .notAnArchive
  else if !extendedEndMark.isPrefixOf (bytes.drop record) then .ok r
  else .ok ⟨r.location, number bytes (record + 40) 8, number bytes (record + 48) 8, true⟩

/-- A member as the directory lists it. -/
structure DirectoryEntry where
  /-- The name up to its first NUL. -/
  name : String
  listedName : String
  flags : Nat
  method : Nat
  checksum : Nat
  storedSize : Nat
  size : Nat
  /-- Position of the header in front of the member. -/
  start : Int
  deriving DecidableEq, Repr

/-- A flag tells names in UTF-8 from those in the old code page. -/
def decodeName (flags : Nat) (bytes : List UInt8) : Except ArchiveFault String :=
  if flags.testBit 11 then
    match Utf8.decode bytes with
    | .ok name => .ok name.display
    | .error place => .error (.undecodableName bytes place)
  else .ok (Text.display (CodePage.decode bytes))

/-- The value of a field that is all ones stands at the front of `data` instead. -/
def extendField (field : ExtendedField) (isMoved : Bool) (value : Nat) (data : List UInt8) :
    Except ArchiveFault (Nat × List UInt8) :=
  if !isMoved then .ok (value, data)
  else if data.length < 8 then .error (.extendedField field)
  else .ok (littleEndian (data.take 8), data.drop 8)

def extendEntry (e : DirectoryEntry) (data : List UInt8) : Except ArchiveFault DirectoryEntry := do
  let ones := 0xFFFFFFFF
  let isMoved := e.size = ones || e.size = 0xFFFFFFFFFFFFFFFF
  let (size, data) ← extendField .fileSize isMoved e.size data
  let (storedSize, data) ← extendField .compressedSize (e.storedSize = ones) e.storedSize data
  let (start, _) ← extendField .headerOffset (e.start = ones) e.start.toNat data
  return { e with size, storedSize, start }

/-- Applies the extra fields of an entry, of which there are at most `count`. -/
def applyExtra (e : DirectoryEntry) (extra : List UInt8) :
    (count : Nat) → Except ArchiveFault DirectoryEntry
  | 0 => .ok e
  | count + 1 => do
    if extra.length < 4 then
      return e
    let id := number extra 0 2
    let length := number extra 2 2
    if extra.length < length + 4 then
      .error (.extraField id length)
    else if id = 1 then
      applyExtra (← extendEntry e (slice extra 4 length)) (extra.drop (length + 4)) count
    else applyExtra e (extra.drop (length + 4)) count

/-- Reads the entry at the front of a directory, and what follows it. The archive has moved by
`shift` bytes since it was written. -/
def readEntry (shift : Int) (data : List UInt8) :
    Except ArchiveFault (DirectoryEntry × List UInt8) := do
  if data.length < 46 then
    .error .directoryCutShort
  if !directoryMark.isPrefixOf data then
    .error .directoryMark
  let nameLength := number data 28 2
  let extraLength := number data 30 2
  let commentLength := number data 32 2
  let flags := number data 8 2
  let listedName ← decodeName flags (slice data 46 nameLength)
  let version := number data 6 1
  if 63 < version then
    .error (.version version)
  let listed : DirectoryEntry := {
    name := String.ofList (listedName.toList.takeWhile (· ≠ '\x00'))
    listedName, flags
    method := number data 10 2
    checksum := number data 16 4
    storedSize := number data 20 4
    size := number data 24 4
    start := number data 42 4 }
  let extra := slice data (46 + nameLength) extraLength
  let entry ← applyExtra listed extra extra.length
  return ({ entry with start := entry.start + shift },
    data.drop (46 + nameLength + extraLength + commentLength))

/-- Reads a directory of at most `count` entries. -/
def readEntries (shift : Int) :
    (count : Nat) → List UInt8 → Except ArchiveFault (List DirectoryEntry)
  | 0, _ => .ok []
  | count + 1, data =>
    if data.isEmpty then .ok []
    else do
      let (entry, rest) ← readEntry shift data
      return entry :: (← readEntries shift count rest)

/-- Where the data of the entry at `index` has to end: at the next header behind its own, or at the
directory. Of entries that share a header, each later one has no room. -/
def roomEnd (directoryStart : Int) (entries : List DirectoryEntry) (index : Nat)
    (e : DirectoryEntry) : Int :=
  let behind := entries.zipIdx.filterMap fun (other, i) =>
    if e.start < other.start || (e.start = other.start && i < index) then some other.start else none
  behind.min?.getD directoryStart

end Archive

/-- A member and the position at which its data has to end. -/
structure ArchiveMember where
  entry : Archive.DirectoryEntry
  stop : Int
  deriving DecidableEq, Repr

structure Archive where
  members : List ArchiveMember
  deriving DecidableEq, Repr

namespace Archive

/-- Reads the directory of an archive. -/
def ofBytes (bytes : List UInt8) : Except ArchiveFault Archive := do
  match endRecord? bytes with
  | none => .error .notAnArchive
  | some found =>
    let r ← extendRecord bytes found
    let start : Int := r.location - r.directorySize - (if r.extended then 76 else 0)
    if start < 0 then
      .error .directoryOffset
    let data := slice bytes start.toNat r.directorySize
    let entries ← readEntries (start - r.directoryOffset) data.length data
    return ⟨entries.zipIdx.map fun (e, index) => ⟨e, roomEnd start entries index e⟩⟩

/-- The last member of a name. -/
def find? (archive : Archive) (name : String) : Option ArchiveMember :=
  archive.members.reverse.find? (·.entry.name = name)

/-- How the data of a member is had from what is stored. What is stored as it is has no end of its
own. -/
def memberDecoder (codecs : Codecs) (e : DirectoryEntry) :
    Except ArchiveFault (List UInt8 → Except ArchiveFault Decoded) :=
  if e.method = 0 then .ok fun stored => .ok ⟨stored, false⟩
  else match Compression.ofNumber? e.method with
    | none => .error .compression
    | some compression =>
      match codecs.decoder? compression with
      | none => .error (.noDecoder compression)
      | some decode => .ok fun stored => (decode e.size stored).mapError (.undecodable compression)

/-- The data of a member that is stored from position `pos` on. If the archive ends too early, that
does no harm once there is as much data as there should be. -/
def memberData (bytes : List UInt8) (e : DirectoryEntry) (pos : Nat)
    (decode : List UInt8 → Except ArchiveFault Decoded) : Except ArchiveFault (List UInt8) := do
  let stored := slice bytes pos e.storedSize
  if stored.isEmpty && 0 < e.storedSize then
    .error .dataCutShort
  let decoded ← decode stored
  let data := decoded.bytes.take e.size
  if stored.length < e.storedSize && !decoded.ended && data.length < e.size then
    .error .dataCutShort
  else if (Crc32.checksum data).toNat ≠ e.checksum then .error (.checksum e.name)
  else .ok data

/-- Whether a file can be read from a position on. Some numbers are too large to be positions. -/
def checkPosition (lastPosition : Nat) (position : Int) : Except ArchiveFault Unit :=
  let greatest : Int := FileSystem.greatestPosition
  if position < -greatest - 1 || greatest < position then .error .hugePosition
  else if position < 0 || lastPosition < position then .error .badPosition
  else .ok ()

/-- Takes a member out of the archive's bytes. Its header has to agree with the directory. -/
def extract (codecs : Codecs) (lastPosition : Nat) (bytes : List UInt8) (m : ArchiveMember) :
    Except ArchiveFault (List UInt8) := do
  let e := m.entry
  checkPosition lastPosition e.start
  let start := e.start.toNat
  let header := slice bytes start 30
  if header.length < 30 then
    .error .headerCutShort
  if !headerMark.isPrefixOf header then
    .error .headerMark
  let stored := slice bytes (start + 30) (number header 26 2)
  let afterName := start + 30 + stored.length
  let pos := afterName + (slice bytes afterName (number header 28 2)).length
  if e.flags.testBit 5 then
    .error .patchedData
  if e.flags.testBit 6 then
    .error .strongEncryption
  let name ← decodeName (number header 6 2) stored
  if name ≠ e.listedName then
    .error (.nameMismatch e.listedName stored)
  if m.stop < pos + e.storedSize then
    .error (.overlap e.listedName)
  if e.flags.testBit 0 then
    .error (.encrypted e.name)
  memberData bytes e pos (← memberDecoder codecs e)

end Archive

end JavaClass
