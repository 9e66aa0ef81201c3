import JavaClass.Command.Integer
import JavaClass.Command.Usage

/-!
The arguments of the command. Each word is first told apart by itself: a switch, which may be cut
short as long as it stays clear which is meant; a plain word; or `--`, after which all words are
plain. Then switches take their values and the first plain word left is the target.
-/

namespace JavaClass.Command

/-- What a word stands for. A switch may have something attached in the same word: after `=`, or
right behind a single letter. -/
inductive Word where
  | plain (text : String)
  | separator
  /-- A switch, and whether it was written with two hyphens. -/
  | switch (switch : Switch) (isLong : Bool) (attached : Option (List Char))
  | unknown (text : String)
  deriving DecidableEq, Repr

namespace Word

/-- The part of a word before its first `=`, and the part after it. -/
def cutEquals (chars : List Char) : List Char × Option (List Char) :=
  match chars.dropWhile (· ≠ '=') with
  | _ :: value => (chars.takeWhile (· ≠ '='), some value)
  | [] => (chars, none)

def isLongName (name : String) : Bool := ['-', '-'].isPrefixOf name.toList

/-- The switches that a word with two hyphens may be short for. -/
def longCandidates (chars : List Char) : List (String × Word) :=
  let (start, attached) := cutEquals chars
  (Switch.spellings.filter fun (name, _) => start.isPrefixOf name.toList).map fun (name, s) =>
    (name, .switch s (isLongName name) attached)

/-- The switches that a word with one hyphen may mean: one of a single letter with something behind
it, or one that the word is short for. -/
def shortCandidates (chars : List Char) : List (String × Word) :=
  Switch.spellings.filterMap fun (name, s) =>
    if name.toList = chars.take 2 then
      some (name, .switch s (isLongName name) (some (chars.drop 2)))
    else if chars.isPrefixOf name.toList then some (name, .switch s (isLongName name) none)
    else none

/-- A word that starts like a switch but is none. -/
def leftOver (text : String) : Word :=
  if isNegativeNumber text || text.toList.contains ' ' then .plain text else .unknown text

/-- What a word that starts with a hyphen and is no switch in full may mean. -/
def guess (text : String) (candidates : List (String × Word)) : Except UsageError Word :=
  match candidates with
  | [] => .ok (leftOver text)
  | [(_, word)] => .ok word
  | _ => .error (.ambiguous text (candidates.map Prod.fst))

/-- A switch in full, by itself or before `=`. -/
def full? (text : String) : Option Word :=
  let (start, attached) := cutEquals text.toList
  let cut := String.ofList start
  match Switch.ofName? text, Switch.ofName? cut with
  | some s, _ => some (.switch s (isLongName text) none)
  | none, some s => attached.map fun value => .switch s (isLongName cut) (some value)
  | none, none => none

def ofString (text : String) : Except UsageError Word :=
  match text.toList with
  | '-' :: second :: rest =>
    match full? text with
    | some word => .ok word
    | none =>
      if second = '-' then guess text (longCandidates ('-' :: second :: rest))
      else guess text (shortCandidates ('-' :: second :: rest))
  | _ => .ok (.plain text)

/-- Tells the words apart; all words after `--` are plain. -/
def ofStrings : List String → Except UsageError (List Word)
  | [] => .ok []
  | text :: rest =>
    if text = "--" then .ok (.separator :: rest.map .plain)
    else return (← ofString text) :: (← ofStrings rest)

end Word

/-- What the command is to do. -/
structure Arguments where
  target : String
  classPath : Option String
  noPool : Bool
  noCode : Bool
  publicOnly : Bool
  /-- The switch may have been given without a value. -/
  maxVersion : Option (Option Int)
  verbose : Bool
  deriving DecidableEq, Repr

inductive Request where
  | help
  | list (arguments : Arguments)
  deriving DecidableEq, Repr

/-- Switches set so far, the target if there is one, and words for which there is no use. -/
structure Settings where
  target : Option String
  values : Arguments
  unused : List String
  deriving DecidableEq, Repr

namespace Settings

def initial : Settings := ⟨none, ⟨"", none, false, false, false, none, false⟩, []⟩

def discardWord (s : Settings) (word : String) : Settings := { s with unused := s.unused ++ [word] }

/-- The first plain word is the target. -/
def addPlain (s : Settings) (word : String) : Settings :=
  match s.target with
  | none => { s with target := some word }
  | some _ => s.discardWord word

/-- Sets a switch, to a value if it takes one. There is nothing after asking for help. A value that
is `--` is dropped, as the first `--` always is, and leaves the switch without one. -/
def set (s : Settings) (switch : Switch) (value : String) : Except UsageError (Option Settings) :=
  match switch with
  | .help => .ok none
  | .classPath =>
    .ok (some { s with values.classPath := if value = "--" then none else some value })
  | .noPool => .ok (some { s with values.noPool := true })
  | .noCode => .ok (some { s with values.noCode := true })
  | .publicOnly => .ok (some { s with values.publicOnly := true })
  | .verbose => .ok (some { s with values.verbose := true })
  | .maxVersion =>
    if value = "--" then .ok (some { s with values.maxVersion := some none })
    else match readInteger? value with
      | some limit => .ok (some { s with values.maxVersion := some (some limit) })
      | none => .error (.notInteger .maxVersion value)

def setAll (s : Settings) : List (Switch × String) → Except UsageError (Option Settings)
  | [] => .ok (some s)
  | (switch, value) :: rest => do
    match ← s.set switch value with
    | none => return none
    | some s => s.setAll rest

/-- The request that the settings amount to when there are no more words. -/
def finish (s : Settings) : Except UsageError Request :=
  match s.target with
  | none => .error .missingTarget
  | some target =>
    if s.unused.isEmpty then .ok (.list { s.values with target })
    else .error (.unrecognized s.unused)

end Settings

/-- The switches that one word sets, with their values, and the switch that still waits for one. -/
structure Unpacked where
  settings : List (Switch × String)
  waiting : Option Switch
  deriving DecidableEq, Repr

/-- A switch with nothing attached. -/
def unpackAlone (switch : Switch) : Unpacked :=
  if switch.takesValue then ⟨[], some switch⟩ else ⟨[(switch, "")], none⟩

/-- Unpacks a switch with something attached. Letters behind a switch of one letter that takes no
value are switches again, and have to be. -/
def unpackAttached (switch : Switch) (isLong : Bool) : List Char → Except UsageError Unpacked
  | [] =>
    if switch.takesValue then .ok ⟨[(switch, "")], none⟩ else .error (.unwantedValue switch "")
  | letter :: rest =>
    let text := String.ofList (letter :: rest)
    if switch.takesValue then .ok ⟨[(switch, text)], none⟩
    else if isLong then .error (.unwantedValue switch text)
    else match Switch.ofName? (String.ofList ['-', letter]), rest with
      | none, _ => .error (.unwantedValue switch text)
      | some next, [] =>
        let others := unpackAlone next
        .ok { others with settings := (switch, "") :: others.settings }
      | some next, c :: more => do
        let others ← unpackAttached next false (c :: more)
        return { others with settings := (switch, "") :: others.settings }

def unpack (switch : Switch) (isLong : Bool) : Option (List Char) → Except UsageError Unpacked
  | some attached => unpackAttached switch isLong attached
  | none => .ok (unpackAlone switch)

/-- Goes through the words from left to right. -/
def collect (s : Settings) : List Word → Except UsageError Request
  | [] => s.finish
  | .unknown text :: rest => collect (s.discardWord text) rest
  | .separator :: .plain text :: rest =>
    match s.target with
    | none => collect (s.addPlain text) rest
    | some _ => collect ((s.discardWord "--").addPlain text) rest
  | .separator :: rest => collect (s.discardWord "--") rest
  | .plain text :: .separator :: rest =>
    match s.target with
    | none => collect (s.addPlain text) rest
    | some _ => collect ((s.addPlain text).discardWord "--") rest
  | .plain text :: rest => collect (s.addPlain text) rest
  | .switch switch isLong attached :: rest => do
    let unpacked ← unpack switch isLong attached
    match unpacked.waiting, rest with
    | none, rest =>
      match ← s.setAll unpacked.settings with
      | none => return .help
      | some s => collect s rest
    | some waiting, .plain value :: rest =>
      match ← s.setAll (unpacked.settings ++ [(waiting, value)]) with
      | none => return .help
      | some s => collect s rest
    | some waiting, _ => .error (.missingValue waiting)

def Request.parse (words : List String) : Except UsageError Request := do
  collect .initial (← Word.ofStrings words)

end JavaClass.Command
