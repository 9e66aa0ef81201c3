import JavaClass.Storage.Fault
import JavaClass.Storage.Inflate

/-!
Decoders of compressed data. Which of them there are is not for an archive to say, so whatever
reads one is told.
-/

namespace JavaClass

/-- What has come out of compressed data, and whether the data says that this is all. -/
structure Decoded where
  bytes : List UInt8
  ended : Bool
  deriving DecidableEq, Repr

/-- A decoder is told how much is wanted, and need not look at what is left once it has given as
much. It fails with a message of its own. -/
abbrev Decoder := (wanted : Nat) → List UInt8 → Except String Decoded

structure Codecs where
  decoder? : Compression → Option Decoder

/-- All that comes out of deflated data, whatever is wanted of it. -/
def Inflate.decoder : Decoder := fun _ bytes =>
  match Inflate.run bytes with
  | .ok () s => .ok ⟨s.out.toList, true⟩
  | .error .exhausted s => .ok ⟨s.out.toList, false⟩
  | .error (.flawed flaw) _ => .error ("Error -3 while decompressing data: " ++ flaw.message)

/-- The decoders that are built in. -/
def Codecs.builtIn : Codecs where
  decoder?
    | .deflate => some Inflate.decoder
    | .bzip2 | .lzma => none

end JavaClass
