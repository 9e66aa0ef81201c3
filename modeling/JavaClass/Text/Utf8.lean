import JavaClass.Text.CodePoint

/-! UTF-8, one sequence at a time, and what can be wrong with a sequence. -/

namespace JavaClass.Utf8

def isTail (b : UInt8) : Bool := 0x80 ≤ b && b ≤ 0xBF

/-- Whether `second` may come after `first` in a sequence of three or four bytes. It may not where
the sequence would be longer than needed, name a surrogate or leave Unicode. -/
def isSecond (first second : UInt8) : Bool :=
  isTail second &&
    (match first with
    | 0xE0 => 0xA0 ≤ second
    | 0xED => second ≤ 0x9F
    | 0xF0 => 0x90 ≤ second
    | 0xF4 => second ≤ 0x8F
    | _ => true)

/-- The bits of a first byte followed by those of its tail bytes. -/
def sequence (lead : Nat) (tails : List UInt8) : CodePoint :=
  .ofNat (tails.foldl (fun n b => 64 * n + b.toNat % 64) lead)

inductive Flaw where
  | badStart
  | badContinuation
  | cutShort
  deriving DecidableEq, Repr

def Flaw.message : Flaw → String
  | .badStart => "invalid start byte"
  | .badContinuation => "invalid continuation byte"
  | .cutShort => "unexpected end of data"

/-- A sequence that encodes a code point, or the longest start of one that there is; with the number
of bytes after its first. -/
inductive Step where
  | codePoint (c : CodePoint) (more : Nat)
  | flawed (flaw : Flaw) (more : Nat)
  deriving DecidableEq, Repr

/-- The sequence that starts with `b`. -/
def step (b : UInt8) (rest : List UInt8) : Step :=
  if b < 0x80 then .codePoint (.ofNat b.toNat) 0
  else if b < 0xC2 || 0xF4 < b then .flawed .badStart 0
  else if b < 0xE0 then
    match rest with
    | c :: _ =>
      if isTail c then .codePoint (sequence (b.toNat % 32) [c]) 1 else .flawed .badContinuation 0
    | [] => .flawed .cutShort 0
  else if b < 0xF0 then
    match rest with
    | c :: d :: _ =>
      if !isSecond b c then .flawed .badContinuation 0
      else if !isTail d then .flawed .badContinuation 1
      else .codePoint (sequence (b.toNat % 16) [c, d]) 2
    | [c] => if isSecond b c then .flawed .cutShort 1 else .flawed .badContinuation 0
    | [] => .flawed .cutShort 0
  else
    match rest with
    | c :: d :: e :: _ =>
      if !isSecond b c then .flawed .badContinuation 0
      else if !isTail d then .flawed .badContinuation 1
      else if !isTail e then .flawed .badContinuation 2
      else .codePoint (sequence (b.toNat % 8) [c, d, e]) 3
    | [c, d] =>
      if !isSecond b c then .flawed .badContinuation 0
      else if !isTail d then .flawed .badContinuation 1
      else .flawed .cutShort 2
    | [c] => if isSecond b c then .flawed .cutShort 1 else .flawed .badContinuation 0
    | [] => .flawed .cutShort 0

/-- Where UTF-8 is flawed: the first byte of a sequence and the byte after its last. -/
structure Place where
  start : Nat
  stop : Nat
  flaw : Flaw
  deriving DecidableEq, Repr

/-- Decodes the bytes from position `pos` on, the first `more` of which have been used. -/
def decodeFrom (pos : Nat) : Nat → List UInt8 → Except Place Text
  | _, [] => .ok []
  | more + 1, _ :: rest => decodeFrom (pos + 1) more rest
  | 0, b :: rest =>
    match step b rest with
    | .codePoint c more => return c :: (← decodeFrom (pos + 1) more rest)
    | .flawed flaw more => .error ⟨pos, pos + more + 1, flaw⟩

def decode (bytes : List UInt8) : Except Place Text := decodeFrom 0 0 bytes

end JavaClass.Utf8
