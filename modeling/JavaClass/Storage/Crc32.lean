/-! The checksum that archives keep of their members. -/

namespace JavaClass.Crc32

/-- One bit of the division by the generator polynomial, least significant bit first. -/
def bitStep (state : UInt32) : UInt32 :=
  if state &&& 1 = 1 then (state >>> 1) ^^^ 0xEDB88320 else state >>> 1

def byteStep (state : UInt32) (b : UInt8) : UInt32 :=
  Nat.repeat bitStep 8 (state ^^^ b.toUInt32)

def checksum (bytes : List UInt8) : UInt32 := bytes.foldl byteStep 0xFFFFFFFF ^^^ 0xFFFFFFFF

end JavaClass.Crc32
