import JavaClass.Text.Quoted
import JavaClass.Text.Utf8

/-! Why a file or an archive cannot be read. -/

namespace JavaClass

/-- What an operating system says when it cannot do something with a file. -/
structure FileFault where
  number : Nat
  message : String
  deriving DecidableEq, Repr

namespace FileFault

def notFound : FileFault := ⟨2, "No such file or directory"⟩

def accessDenied : FileFault := ⟨13, "Permission denied"⟩

def notDirectory : FileFault := ⟨20, "Not a directory"⟩

def isDirectory : FileFault := ⟨21, "Is a directory"⟩

def nameTooLong : FileFault := ⟨36, "File name too long"⟩

/-- Whether a path leads nowhere: nothing is there, or something on the way is no directory, is
closed or leads back to itself. -/
def leadsNowhere (fault : FileFault) : Bool := [2, 9, 20, 40].contains fault.number

/-- The message with its number and the path it concerns. -/
def report (fault : FileFault) (path : String) : String :=
  s!"[Errno {fault.number}] {fault.message}: " ++ Text.quoted path

end FileFault

/-- How a member of an archive may be compressed. -/
inductive Compression where
  | deflate
  | bzip2
  | lzma
  deriving DecidableEq, Repr

namespace Compression

def ofNumber? : Nat → Option Compression
  | 8 => some .deflate
  | 12 => some .bzip2
  | 14 => some .lzma
  | _ => none

/-- What the decoder is called. -/
def decoderName : Compression → String
  | .deflate => "zlib"
  | .bzip2 => "bz2"
  | .lzma => "lzma"

end Compression

/-- The parts of an entry that a directory may move into an extra field. -/
inductive ExtendedField where
  | fileSize
  | compressedSize
  | headerOffset
  deriving DecidableEq, Repr

def ExtendedField.name : ExtendedField → String
  | .fileSize => "File size"
  | .compressedSize => "Compress size"
  | .headerOffset => "Header offset"

inductive ArchiveFault where
  | notAnArchive
  | severalDisks
  | directoryOffset
  | directoryCutShort
  | directoryMark
  | extraField (id size : Nat)
  | extendedField (field : ExtendedField)
  | headerCutShort
  | headerMark
  | nameMismatch (listed : String) (stored : List UInt8)
  | overlap (name : String)
  | checksum (name : String)
  | version (number : Nat)
  | patchedData
  | strongEncryption
  | encrypted (name : String)
  | compression
  | noDecoder (compression : Compression)
  | undecodable (compression : Compression) (message : String)
  | undecodableName (bytes : List UInt8) (place : Utf8.Place)
  | badPosition
  | hugePosition
  | dataCutShort
  | closed
  deriving DecidableEq, Repr

namespace ArchiveFault

/-- Whether the archive is not as it should be; otherwise it asks for more than can be done. -/
def isDamage : ArchiveFault → Bool
  | .version _ | .patchedData | .strongEncryption | .encrypted _ | .compression | .noDecoder _
  | .undecodable .. | .undecodableName .. | .badPosition | .hugePosition | .dataCutShort
  | .closed => false
  | _ => true

/-- Bytes quoted like text, with everything outside ASCII escaped. -/
def quotedBytes (bytes : List UInt8) : String :=
  let mark := Text.quoteMark (bytes.map fun b => CodePoint.ofNat b.toNat)
  let item (b : UInt8) : List Char :=
    if b < 0x7F then Text.quoteCodePoint mark (CodePoint.ofNat b.toNat)
    else '\\' :: 'x' :: (hex 2 b.toNat).toList
  String.ofList ('b' :: mark :: bytes.flatMap item ++ [mark])

/-- The bytes that are no UTF-8: one with its place, several with the places they take up. -/
def flawedSpan (bytes : List UInt8) (place : Utf8.Place) : String :=
  if place.stop = place.start + 1 then
    s!"byte 0x{hex 2 ((bytes[place.start]?).getD 0).toNat} in position {place.start}"
  else s!"bytes in position {place.start}-{place.stop - 1}"

def message : ArchiveFault → String
  | .notAnArchive => "File is not a zip file"
  | .severalDisks => "zipfiles that span multiple disks are not supported"
  | .directoryOffset => "Bad offset for central directory"
  | .directoryCutShort => "Truncated central directory"
  | .directoryMark => "Bad magic number for central directory"
  | .extraField id size => s!"Corrupt extra field {hex 4 id} (size={size})"
  | .extendedField field => s!"Corrupt zip64 extra field. {field.name} not found."
  | .headerCutShort => "Truncated file header"
  | .headerMark => "Bad magic number for file header"
  | .nameMismatch listed stored =>
    s!"File name in directory {Text.quoted listed} and header {quotedBytes stored} differ."
  | .overlap name => s!"Overlapped entries: {Text.quoted name} (possible zip bomb)"
  | .checksum name => s!"Bad CRC-32 for file {Text.quoted name}"
  | .version number => s!"zip file version {number / 10}.{number % 10}"
  | .patchedData => "compressed patched data (flag bit 5)"
  | .strongEncryption => "strong encryption (flag bit 6)"
  | .encrypted name => s!"File {Text.quoted name} is encrypted, password required for extraction"
  | .compression => "That compression method is not supported"
  | .noDecoder method => s!"Compression requires the (missing) {method.decoderName} module"
  | .undecodable _ message => message
  | .undecodableName bytes place =>
    "'utf-8' codec can't decode " ++ flawedSpan bytes place ++ ": " ++ place.flaw.message
  | .badPosition => "[Errno 22] Invalid argument"
  | .hugePosition => "cannot fit 'int' into an offset-sized integer"
  | .dataCutShort => ""
  | .closed => "Attempt to use ZIP archive that was already closed"

end ArchiveFault

end JavaClass
