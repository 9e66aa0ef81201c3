import JavaClass.Text.Utf8

/-!
Modified UTF-8, the encoding of text in class files. It differs from UTF-8 in two ways: NUL is
`C0 80`, and a supplementary character is a pair of surrogates of three bytes each. Surrogates that
stand alone are let through; bytes that encode nothing decode as U+FFFD.
-/

namespace JavaClass.ModifiedUtf8

/-- Every `C0 80` is read as a NUL byte, wherever it stands. -/
def unpackNul : List UInt8 → List UInt8
  | 0xC0 :: 0x80 :: rest => 0 :: unpackNul rest
  | b :: rest => b :: unpackNul rest
  | [] => []

/-- The surrogate that three bytes spell, which UTF-8 has no place for. -/
def surrogate? (b : UInt8) (rest : List UInt8) : Option CodePoint :=
  match rest with
  | c :: d :: _ =>
    if b = 0xED && 0xA0 ≤ c && c ≤ 0xBF && Utf8.isTail d then some (Utf8.sequence 0xD [c, d])
    else none
  | _ => none

/-- The code point that a byte starts, and how many of the bytes after it belong to it. The bytes
of a flawed sequence make one U+FFFD. -/
def first (b : UInt8) (rest : List UInt8) : CodePoint × Nat :=
  match Utf8.step b rest with
  | .codePoint c more => (c, more)
  | .flawed _ more =>
    match surrogate? b rest with
    | some c => (c, 2)
    | none => (.replacement, more)

/-- The code points of a byte string after its first `used` bytes. -/
def codePoints : Nat → List UInt8 → Text
  | _, [] => []
  | used + 1, _ :: rest => codePoints used rest
  | 0, b :: rest =>
    let (c, used) := first b rest
    c :: codePoints used rest

/-- The supplementary code point that two surrogates stand for. -/
def supplementary (high low : CodePoint) : CodePoint :=
  .ofNat (0x10000 + 0x400 * (high.value - 0xD800) + (low.value - 0xDC00))

/-- Every high surrogate with a low one after it becomes one code point. -/
def joinPairs : Text → Text
  | high :: low :: rest =>
    if high.isHighSurrogate && low.isLowSurrogate then supplementary high low :: joinPairs rest
    else high :: joinPairs (low :: rest)
  | text => text

def decode (bytes : List UInt8) : Text := joinPairs (codePoints 0 (unpackNul bytes))

/-- The three bytes of a code unit. -/
def encodeUnit (unit : Nat) : List UInt8 :=
  [.ofNat (0xE0 + unit / 0x1000), .ofNat (0x80 + unit / 0x40 % 0x40), .ofNat (0x80 + unit % 0x40)]

def encodeCodePoint (c : CodePoint) : List UInt8 :=
  let n := c.value
  if n = 0 then [0xC0, 0x80]
  else if n < 0x80 then [.ofNat n]
  else if n < 0x800 then [.ofNat (0xC0 + n / 0x40), .ofNat (0x80 + n % 0x40)]
  else if n < 0x10000 then encodeUnit n
  else encodeUnit (0xD800 + (n - 0x10000) / 0x400) ++ encodeUnit (0xDC00 + (n - 0x10000) % 0x400)

def encode (text : Text) : List UInt8 := text.flatMap encodeCodePoint

end JavaClass.ModifiedUtf8
