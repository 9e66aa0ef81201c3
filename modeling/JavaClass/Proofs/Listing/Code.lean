import JavaClass.Listing.Code
import JavaClass.Proofs.Instruction

/-!
Instructions in a listing. Every piece of an instruction's first line ends where a character comes
that it has none of, so the line tells the offset, the opcode and how many lines belong to the
instruction, and these tell the operands. Main statement: code that gives the same listing gives the
same instructions.
-/

namespace JavaClass.Listing

open Format Text

/-- Texts that go on with a blank, if at all. -/
abbrev Apart (text : Text) : Prop := Stops (fun c => !c.isSpace) text

theorem Apart.stops {text : Text} (apart : Apart text) : Stops CodePoint.isNumeric text := by
  intro c first
  have space := apart c first
  rw [Bool.not_eq_false'] at space
  by_contra numeric
  rw [Bool.not_eq_false] at numeric
  rw [CodePoint.isSpace_of_isNumeric numeric] at space
  cases space

theorem offsetLabel_append_inj {p q : Nat} {s t : Text}
    (same : offsetLabel p ++ s = offsetLabel q ++ t) : p = q ∧ s = t := by
  unfold offsetLabel padLeft at same
  simp only [List.append_assoc] at same
  have same := blanks_append_inj (stops_toString p _) (stops_toString q _) same
  obtain ⟨offsets, same⟩ :=
    toString_append_inj_nat (stops_ofString s rfl) (stops_ofString t rfl) same
  exact ⟨offsets, List.append_cancel_left same⟩

/-- What stands behind the mnemonic, up to a comment. -/
def operandText (pc : Nat) : Operands → Text
  | .none => []
  | .value value => toString value
  | .slot slot => toString slot
  | .increment slot amount => s!"{slot}, {amount}"
  | .constant index => s!"#{index}"
  | .jump distance => toString (pc + distance)
  | .interfaceCall index count | .arrayDimensions index count => s!"#{index},  {count}"
  | .dynamicCall index => s!"#{index},  0"
  | .arrayType code => arrayTypeText code
  | .tableSwitch table => "\x7b // " ++ s!"{table.low} to {table.high}"
  | .lookupSwitch table => "\x7b // " ++ toString table.pairs.length

def laterLines (pc : Nat) : Operands → List Text
  | .tableSwitch table => caseLines pc table.cases table.fallback
  | .lookupSwitch table => caseLines pc table.pairs table.fallback
  | _ => []

theorem apart_withComment (text comment : Text) :
    ∃ behind, Apart behind ∧ withComment text comment = text ++ behind := by
  unfold withComment
  split
  · refine ⟨blanks (commentColumn - text.length) ++ "// " ++ comment, ?_, ?_⟩
    · obtain ⟨more, short⟩ : ∃ more, commentColumn - text.length = more + 1 :=
        ⟨commentColumn - text.length - 1, by omega⟩
      rw [short, blanks, List.replicate_succ]
      exact stops_cons.mpr rfl
    · simp [padRight]
  · refine ⟨" // " ++ comment, ?_, ?_⟩
    · exact stops_ofString comment rfl
    · simp

/-- What stands behind the mnemonic: nothing if there are no operands, and otherwise these in their
column, behind which a comment may stand. -/
def IsTail (i : Instruction) (tail : Text) : Prop :=
  i.operands = .none ∧ tail = [] ∨ ∃ behind, Apart behind ∧
    tail = blanks (13 - (markedMnemonic i).length) ++ " " ++
      (operandText i.offset i.operands ++ behind)

/-- The lines of an instruction. -/
def Shows (i : Instruction) (texts : List Text) : Prop :=
  ∃ tail, IsTail i tail ∧
    texts = (offsetLabel i.offset ++ (markedMnemonic i ++ tail)) :: laterLines i.offset i.operands

theorem shows_head {i : Instruction} {behind : Text} (apart : Apart behind) :
    Shows i ((instructionHead i ++ operandText i.offset i.operands ++ behind) ::
      laterLines i.offset i.operands) := by
  refine ⟨_, .inr ⟨behind, apart, rfl⟩, ?_⟩
  simp [instructionHead, padRight]

theorem shows_described {pool : Pool} {i : Instruction} {texts : List Text} {operands : Text}
    {index : Nat} (same : operands = operandText i.offset i.operands)
    (alone : laterLines i.offset i.operands = [])
    (written : (do return [withComment (instructionHead i ++ operands) (← pool.describe index)] :
      Except Failure (List Text)) = .ok texts) : Shows i texts := by
  obtain ⟨comment, -, written⟩ := bind_eq_ok_iff.mp written
  obtain ⟨behind, apart, whole⟩ :=
    apart_withComment (instructionHead i ++ operands) comment
  cases written
  rw [whole, same, ← alone]
  exact shows_head apart

theorem shows_of_instructionTexts {pool : Pool} {i : Instruction} {texts : List Text}
    (written : instructionTexts pool i = .ok texts) : Shows i texts := by
  have plain {operands : Text} {later : List Text}
      (same : operands = operandText i.offset i.operands)
      (lines : later = laterLines i.offset i.operands)
      (written : Except.ok ((instructionHead i ++ operands) :: later) =
        (.ok texts : Except Failure (List Text))) : Shows i texts := by
    have shows := shows_head (i := i) (stops_nil _)
    rwa [List.append_nil, ← same, ← lines, Except.ok.inj written] at shows
  unfold instructionTexts at written
  cases operands : i.operands <;> rw [operands] at written <;> dsimp only at written
  case none =>
    cases written
    exact ⟨[], .inl ⟨operands, rfl⟩, by simp [laterLines, operands]⟩
  case constant | interfaceCall | arrayDimensions | dynamicCall =>
    exact shows_described (by rw [operands]; rfl) (by rw [operands]; rfl) written
  all_goals exact plain (by rw [operands]; rfl) (by rw [operands]; rfl) written

theorem target_inj {pc : Nat} {jump other : Int}
    (same : ofString s!": {pc + jump}" = ofString s!": {pc + other}") : jump = other := by
  rw [ofString_append, ofString_append] at same
  have targets := Int.repr_injective (ofString_injective (List.append_cancel_left same))
  omega

/-- A key ends at the colon behind it, and no blanks of the margin belong to it. -/
theorem caseLine_inj {pc : Nat} {key other jump target : Int}
    (same : caseLine pc (toString key) jump = caseLine pc (toString other) target) :
    key = other ∧ jump = target := by
  unfold caseLine padLeft at same
  simp only [List.append_assoc] at same
  have same := List.append_cancel_left same
  have same := blanks_append_inj (stops_toString key _) (stops_toString other _) same
  have stops (n : Int) : Stops CodePoint.isNumeric (ofString s!": {n}") := by
    rw [ofString_append]
    exact stops_ofString _ rfl
  obtain ⟨keys, targets⟩ := toString_append_inj (stops _) (stops _) same
  exact ⟨keys, target_inj targets⟩

theorem caseLines_inj {pc : Nat} {cases others : List (Int × Int)} {fallback other : Int}
    (same : caseLines pc cases fallback = caseLines pc others other) :
    cases = others ∧ fallback = other := by
  unfold caseLines at same
  obtain ⟨lines, last⟩ := List.append_inj' same (by simp only [List.length_cons, List.length_nil])
  constructor
  · refine List.map_injective_iff.mpr ?_ lines
    rintro ⟨key, jump⟩ ⟨other, target⟩ same
    obtain ⟨rfl, rfl⟩ := caseLine_inj same
    rfl
  · have same := (List.cons.inj last).1
    exact target_inj (List.append_cancel_left same)

theorem index_append_inj {m n : Nat} {s t : Text} (hs : Stops CodePoint.isNumeric s)
    (ht : Stops CodePoint.isNumeric t)
    (same : ofString s!"#{m}" ++ s = ofString s!"#{n}" ++ t) : m = n ∧ s = t := by
  simp only [ofString_append, List.append_assoc] at same
  exact toString_append_inj_nat hs ht (List.append_cancel_left same)

theorem indexed_append_inj {m n v w : Nat} {s t : Text} (hs : Stops CodePoint.isNumeric s)
    (ht : Stops CodePoint.isNumeric t)
    (same : ofString s!"#{m},  {v}" ++ s = ofString s!"#{n},  {w}" ++ t) : m = n ∧ v = w := by
  simp only [ofString_append, List.append_assoc] at same
  obtain ⟨indices, same⟩ := toString_append_inj_nat (stops_ofString _ rfl) (stops_ofString _ rfl)
    (List.append_cancel_left same)
  exact ⟨indices, (toString_append_inj_nat hs ht (List.append_cancel_left same)).1⟩

theorem mem_of_arrayTypeName? {code : Nat} {name : String}
    (found : arrayTypeName? code = some name) : code ∈ [4, 5, 6, 7, 8, 9, 10, 11] := by
  unfold arrayTypeName? at found
  split at found <;> simp at found ⊢

theorem arrayTypeText_of_none {code : Nat} (unnamed : arrayTypeName? code = none) :
    arrayTypeText code = toString code := by
  rw [arrayTypeText, unnamed, Option.getD_none]

/-- Names have neither blanks nor digits. -/
theorem not_isNumeric_of_mem {code : Nat} {name : String} (found : arrayTypeName? code = some name)
    {c : CodePoint} (member : c ∈ ofString (arrayTypeText code)) :
    c.isNumeric = false ∧ c.isSpace = false := by
  have table : ∀ code ∈ [4, 5, 6, 7, 8, 9, 10, 11],
      ((ofString (arrayTypeText code)).all fun c => !c.isNumeric && !c.isSpace) = true := by
    decide +kernel
  have letter := List.all_eq_true.mp (table code (mem_of_arrayTypeName? found)) c member
  simpa using letter

theorem arrayTypeText_injective {m n : Nat} (same : arrayTypeText m = arrayTypeText n) : m = n := by
  have mixed {m n : Nat} {name : String} (found : arrayTypeName? m = some name)
      (unnamed : arrayTypeName? n = none) : arrayTypeText m ≠ arrayTypeText n := by
    intro same
    obtain ⟨c, member⟩ := List.exists_mem_of_ne_nil _ (toString_ne_nil n)
    have numeric := isNumeric_of_mem_toString n member
    have letter := (not_isNumeric_of_mem found (c := c) ?_).1
    · rw [numeric] at letter
      cases letter
    · rw [same, arrayTypeText_of_none unnamed]
      exact member
  cases foundM : arrayTypeName? m with
  | none =>
    cases foundN : arrayTypeName? n with
    | none =>
      rw [arrayTypeText_of_none foundM, arrayTypeText_of_none foundN] at same
      exact Nat.repr_injective same
    | some name => exact absurd same.symm (mixed foundN foundM)
  | some name =>
    cases foundN : arrayTypeName? n with
    | none => exact absurd same (mixed foundM foundN)
    | some other =>
      have table : ∀ m ∈ [4, 5, 6, 7, 8, 9, 10, 11], ∀ n ∈ [4, 5, 6, 7, 8, 9, 10, 11],
          arrayTypeText m = arrayTypeText n → m = n := by
        decide +kernel
      exact table m (mem_of_arrayTypeName? foundM) n (mem_of_arrayTypeName? foundN) same

theorem arrayTypeText_append_inj {m n : Nat} {s t : Text} (hs : Apart s) (ht : Apart t)
    (same : ofString (arrayTypeText m) ++ s = ofString (arrayTypeText n) ++ t) : m = n := by
  have word (code : Nat) : ∀ c ∈ ofString (arrayTypeText code), (!c.isSpace) = true := by
    intro c member
    rw [Bool.not_eq_true']
    cases found : arrayTypeName? code with
    | none =>
      rw [arrayTypeText_of_none found] at member
      exact CodePoint.isSpace_of_isNumeric (isNumeric_of_mem_toString code member)
    | some name => exact (not_isNumeric_of_mem found member).2
  exact arrayTypeText_injective
    (ofString_injective (append_inj_of_run (word m) (word n) hs ht same).1)

theorem length_caseLines (pc : Nat) (cases : List (Int × Int)) (fallback : Int) :
    (caseLines pc cases fallback).length = cases.length + 2 := by
  simp [caseLines]

theorem map_snd_cases (table : TableSwitch) : table.cases.map Prod.snd = table.jumps := by
  simp [TableSwitch.cases, Function.comp_def]

/-- The bounds of a table say how many cases follow. -/
theorem tableSwitch_inj {pc : Nat} {a b : TableSwitch} {s t : Text}
    (ha : Layout.tableSwitch.Takes (.tableSwitch a))
    (hb : Layout.tableSwitch.Takes (.tableSwitch b)) (hs : Stops CodePoint.isNumeric s)
    (ht : Stops CodePoint.isNumeric t)
    (same : operandText pc (.tableSwitch a) ++ s = operandText pc (.tableSwitch b) ++ t) :
    (laterLines pc (.tableSwitch a)).length = (laterLines pc (.tableSwitch b)).length ∧
      (laterLines pc (.tableSwitch a) = laterLines pc (.tableSwitch b) →
        Operands.tableSwitch a = .tableSwitch b) := by
  simp only [operandText, ofString_append, List.append_assoc] at same
  obtain ⟨lows, same⟩ := toString_append_inj (stops_ofString _ rfl) (stops_ofString _ rfl)
    (List.append_cancel_left same)
  obtain ⟨highs, -⟩ := toString_append_inj hs ht (List.append_cancel_left same)
  have counts : a.jumps.length = b.jumps.length := by
    change (a.jumps.length : Int) = a.high - a.low + 1 at ha
    change (b.jumps.length : Int) = b.high - b.low + 1 at hb
    omega
  simp only [laterLines, length_caseLines]
  constructor
  · rw [← map_snd_cases a, ← map_snd_cases b, List.length_map, List.length_map] at counts
    rw [counts]
  · intro lines
    obtain ⟨cases, fallbacks⟩ := caseLines_inj lines
    have jumps : a.jumps = b.jumps := by rw [← map_snd_cases, ← map_snd_cases, cases]
    cases a
    cases b
    cases lows
    cases highs
    cases fallbacks
    cases jumps
    rfl

theorem lookupSwitch_inj {pc : Nat} {a b : LookupSwitch} {s t : Text}
    (hs : Stops CodePoint.isNumeric s) (ht : Stops CodePoint.isNumeric t)
    (same : operandText pc (.lookupSwitch a) ++ s = operandText pc (.lookupSwitch b) ++ t) :
    (laterLines pc (.lookupSwitch a)).length = (laterLines pc (.lookupSwitch b)).length ∧
      (laterLines pc (.lookupSwitch a) = laterLines pc (.lookupSwitch b) →
        Operands.lookupSwitch a = .lookupSwitch b) := by
  simp only [operandText, List.append_assoc] at same
  obtain ⟨counts, -⟩ := toString_append_inj_nat hs ht (List.append_cancel_left same)
  simp only [laterLines, length_caseLines]
  constructor
  · rw [counts]
  · intro lines
    obtain ⟨pairs, fallbacks⟩ := caseLines_inj lines
    cases a
    cases b
    cases pairs
    cases fallbacks
    rfl

theorem operandText_append_inj {layout : Layout} {pc : Nat} {a b : Operands}
    (ha : layout.Takes a) (hb : layout.Takes b) {s t : Text} (hs : Apart s) (ht : Apart t)
    (same : operandText pc a ++ s = operandText pc b ++ t) :
    (laterLines pc a).length = (laterLines pc b).length ∧
      (laterLines pc a = laterLines pc b → a = b) := by
  cases layout <;> cases a <;> try exact ha.elim
  all_goals cases b <;> try exact hb.elim
  case none.none.none => exact ⟨rfl, fun _ => rfl⟩
  case byte.value.value v w | short.value.value v w =>
    obtain ⟨rfl, -⟩ := toString_append_inj hs.stops ht.stops same
    exact ⟨rfl, fun _ => rfl⟩
  case slot.slot.slot m n =>
    obtain ⟨rfl, -⟩ := toString_append_inj_nat hs.stops ht.stops same
    exact ⟨rfl, fun _ => rfl⟩
  case branch.jump.jump v w | farBranch.jump.jump v w =>
    obtain ⟨targets, -⟩ := toString_append_inj hs.stops ht.stops same
    obtain rfl : v = w := by omega
    exact ⟨rfl, fun _ => rfl⟩
  case constant.constant.constant m n | shortConstant.constant.constant m n =>
    obtain ⟨rfl, -⟩ := index_append_inj hs.stops ht.stops same
    exact ⟨rfl, fun _ => rfl⟩
  case increment.increment.increment m v n w =>
    simp only [operandText, ofString_append, List.append_assoc] at same
    obtain ⟨slots, rest⟩ :=
      toString_append_inj_nat (stops_ofString _ rfl) (stops_ofString _ rfl) same
    obtain ⟨amounts, -⟩ := toString_append_inj hs.stops ht.stops (List.append_cancel_left rest)
    obtain ⟨rfl, rfl⟩ := And.intro slots amounts
    exact ⟨rfl, fun _ => rfl⟩
  case interfaceCall.interfaceCall.interfaceCall m v n w
      | arrayDimensions.arrayDimensions.arrayDimensions m v n w =>
    obtain ⟨rfl, rfl⟩ := indexed_append_inj hs.stops ht.stops same
    exact ⟨rfl, fun _ => rfl⟩
  case dynamicCall.dynamicCall.dynamicCall m n =>
    simp only [operandText, ofString_append, List.append_assoc] at same
    obtain ⟨rfl, -⟩ := toString_append_inj_nat (stops_ofString _ rfl) (stops_ofString _ rfl)
      (List.append_cancel_left same)
    exact ⟨rfl, fun _ => rfl⟩
  case arrayType.arrayType.arrayType m n =>
    obtain rfl := arrayTypeText_append_inj hs ht same
    exact ⟨rfl, fun _ => rfl⟩
  case tableSwitch.tableSwitch.tableSwitch first second =>
    exact tableSwitch_inj ha hb hs.stops ht.stops same
  case lookupSwitch.lookupSwitch.lookupSwitch first second =>
    exact lookupSwitch_inj hs.stops ht.stops same

theorem markedMnemonic_eq (i : Instruction) :
    markedMnemonic i = ofString (if i.wide then i.mnemonic ++ "_w" else i.mnemonic) := by
  unfold markedMnemonic
  cases i.wide with
  | false => rfl
  | true => exact (ofString_append i.mnemonic "_w").symm

namespace IsTail

theorem apart {i : Instruction} {tail : Text} (isTail : IsTail i tail) : Apart tail := by
  obtain ⟨-, rfl⟩ | ⟨behind, -, rfl⟩ := isTail
  · exact stops_nil _
  · cases 13 - (markedMnemonic i).length with
    | zero => exact stops_ofString _ rfl
    | succ count => exact stops_cons.mpr rfl

/-- Behind the same mnemonic, the same text has the same operands, or those of switches with as many
cases. -/
theorem operands_inj {i j : Instruction} {tail : Text} (isTail : IsTail i tail)
    (other : IsTail j tail) (takes : i.layout.Takes i.operands)
    (takesOther : i.layout.Takes j.operands) (offset : i.offset = j.offset)
    (words : markedMnemonic i = markedMnemonic j) :
    (laterLines i.offset i.operands).length = (laterLines i.offset j.operands).length ∧
      (laterLines i.offset i.operands = laterLines i.offset j.operands →
        i.operands = j.operands) := by
  have nonempty (count : Nat) (rest : Text) : (blanks count ++ " " ++ rest : Text) ≠ [] := by
    simp [ofString]
  obtain ⟨none, empty⟩ | ⟨behind, apart, full⟩ := isTail
  · obtain ⟨noneOther, -⟩ | ⟨behindOther, -, fullOther⟩ := other
    · rw [none, noneOther]
      exact ⟨rfl, fun _ => rfl⟩
    · exact absurd (fullOther.symm.trans empty) (nonempty _ _)
  · obtain ⟨-, emptyOther⟩ | ⟨behindOther, apartOther, fullOther⟩ := other
    · exact absurd (full.symm.trans emptyOther) (nonempty _ _)
    · rw [full, words, ← offset] at fullOther
      exact operandText_append_inj takes takesOther apart apartOther
        (List.append_cancel_left fullOther)

end IsTail

/-- The mnemonic is a word of its own, and no two instructions share one. -/
theorem mnemonic_append_inj {i j : Instruction} (hi : Possible i.encoding)
    (hj : Possible j.encoding) {s t : Text} (hs : Apart s) (ht : Apart t)
    (same : markedMnemonic i ++ s = markedMnemonic j ++ t) :
    i.opcode = j.opcode ∧ i.wide = j.wide ∧ markedMnemonic i = markedMnemonic j ∧ s = t := by
  have rowI := Instruction.mem_marked_of_possible hi
  have rowJ := Instruction.mem_marked_of_possible hj
  have word {i : Instruction} (hi : Possible i.encoding) :
      ∀ c ∈ markedMnemonic i, (!c.isSpace) = true := by
    intro c member
    rw [markedMnemonic_eq] at member
    exact Opcode.isSpace_of_mem_marked (Instruction.mem_marked_of_possible hi) member
  obtain ⟨words, rest⟩ := append_inj_of_run (word hi) (word hj) hs ht same
  have names := words
  rw [markedMnemonic_eq, markedMnemonic_eq] at names
  have rows := Opcode.marked_injective rowI rowJ (ofString_injective names)
  have keys := (Prod.mk.inj rows).2
  exact ⟨(Prod.mk.inj keys).1, (Prod.mk.inj keys).2, words, rest⟩

/-- The first line of an instruction tells how many lines it has, and with these the instruction. -/
theorem Shows.append_inj {i j : Instruction} (hi : Possible i.encoding) (hj : Possible j.encoding)
    {a b r u : List Text} (showsI : Shows i a) (showsJ : Shows j b) (same : a ++ r = b ++ u) :
    i = j ∧ r = u := by
  obtain ⟨tailI, isTailI, rfl⟩ := showsI
  obtain ⟨tailJ, isTailJ, rfl⟩ := showsJ
  obtain ⟨first, later⟩ := List.cons.inj same
  obtain ⟨offset, first⟩ := offsetLabel_append_inj first
  obtain ⟨opcode, wide, words, rfl⟩ := mnemonic_append_inj hi hj isTailI.apart isTailJ.apart first
  have takesJ : i.layout.Takes j.operands := by
    rw [Instruction.layout, opcode]
    exact Instruction.takes_of_possible hj
  obtain ⟨counts, operands⟩ :=
    isTailI.operands_inj isTailJ (Instruction.takes_of_possible hi) takesJ offset words
  rw [← offset] at later
  obtain ⟨lines, others⟩ := List.append_inj later counts
  exact ⟨Instruction.eq_of_possible hi hj offset opcode (operands lines) wide, others⟩

theorem mapM_cons_eq_ok {pool : Pool} {i : Instruction} {is : List Instruction}
    {texts : List (List Text)} (written : (i :: is).mapM (instructionTexts pool) = .ok texts) :
    ∃ first rest, texts = first :: rest ∧ Shows i first ∧
      is.mapM (instructionTexts pool) = .ok rest := by
  rw [List.mapM_cons] at written
  obtain ⟨first, shown, written⟩ := bind_eq_ok_iff.mp written
  obtain ⟨rest, others, written⟩ := bind_eq_ok_iff.mp written
  cases written
  exact ⟨first, rest, rfl, shows_of_instructionTexts shown, others⟩

/-- Every instruction has a line. -/
theorem flatten_eq_nil {pool : Pool} {is : List Instruction} {texts : List (List Text)}
    (written : is.mapM (instructionTexts pool) = .ok texts) (empty : texts.flatten = []) :
    is = [] := by
  cases is with
  | nil => rfl
  | cons i is =>
    obtain ⟨_, rest, rfl, ⟨tail, -, rfl⟩, -⟩ := mapM_cons_eq_ok written
    cases empty

/-- Instructions are told apart one by one, from the first on. -/
theorem instructionTexts_flatten_inj {pool : Pool} {is js : List Instruction}
    (hi : ∀ i ∈ is, Possible i.encoding) (hj : ∀ j ∈ js, Possible j.encoding)
    {texts others : List (List Text)} (writtenI : is.mapM (instructionTexts pool) = .ok texts)
    (writtenJ : js.mapM (instructionTexts pool) = .ok others)
    (same : texts.flatten = others.flatten) : is = js := by
  induction is generalizing js texts others with
  | nil =>
    cases writtenI
    exact (flatten_eq_nil writtenJ same.symm).symm
  | cons i is ih =>
    cases js with
    | nil =>
      cases writtenJ
      exact flatten_eq_nil writtenI same
    | cons j js =>
      obtain ⟨first, rest, rfl, shown, restI⟩ := mapM_cons_eq_ok writtenI
      obtain ⟨other, restOther, rfl, shownOther, restJ⟩ := mapM_cons_eq_ok writtenJ
      obtain ⟨possible, hi⟩ := List.forall_mem_cons.mp hi
      obtain ⟨possibleOther, hj⟩ := List.forall_mem_cons.mp hj
      rw [List.flatten_cons, List.flatten_cons] at same
      obtain ⟨equal, later⟩ := Shows.append_inj possible possibleOther shown shownOther same
      rw [equal, ih hi hj restI restJ later]

/-- Code whose listings are the same over a pool has the same instructions, with their offsets,
lengths and switch tables. -/
theorem instructionLines_faithful (pool : Pool) {code other : List UInt8} {base start : Int}
    {is js : List Instruction} {lines : List Line} (decoded : disassemble code base = .ok is)
    (decodedOther : disassemble other start = .ok js)
    (listed : instructionLines pool is = .ok lines)
    (listedOther : instructionLines pool js = .ok lines) : is = js := by
  have possible {code : List UInt8} {base : Int} {is : List Instruction}
      (decoded : disassemble code base = .ok is) : ∀ i ∈ is, Possible i.encoding := by
    rw [Disassembly.disassemble_eq_ok_iff, Disassembly.ofCode_eq_iff] at decoded
    exact Instruction.possible_of_mem_codeEncoding decoded
  obtain ⟨texts, written, shown⟩ := bind_eq_ok_iff.mp listed
  obtain ⟨others, writtenOther, shownOther⟩ := bind_eq_ok_iff.mp listedOther
  have line_injective : Function.Injective line := by
    intro a b same
    exact congrArg Line.text same
  have same : texts.flatten = others.flatten := by
    apply List.map_injective_iff.mpr line_injective
    exact Except.ok.inj (shown.trans shownOther.symm)
  exact instructionTexts_flatten_inj (possible decoded) (possible decodedOther) written writtenOther
    same

/-- An instance creation and a switch that is padded with one of several bytes. -/
def paddedCode (padding : UInt8) : List UInt8 := [
  0x00, 0xBB, 0x00, 0x02, 0xAA, padding, padding, padding, 0x00, 0x00, 0x00, 0x14,
  0x00, 0x00, 0x00, 0x01, 0x00, 0x00, 0x00, 0x02, 0x00, 0x00, 0x00, 0x18, 0xFF, 0xFF, 0xFF, 0xFC]

def classPool : Pool := ⟨[none, some (.utf8 "p/A"), some (.classRef 1)]⟩

theorem instructionLines_faithful_padding :
    ∃ is js lines, disassemble (paddedCode 0x00) 0 = .ok is ∧
      disassemble (paddedCode 0xFF) 100 = .ok js ∧ instructionLines classPool is = .ok lines ∧
      instructionLines classPool js = .ok lines ∧ is = js := by
  have same : (disassemble (paddedCode 0x00) 0 >>= instructionLines classPool) =
      (disassemble (paddedCode 0xFF) 100 >>= instructionLines classPool) := by
    decide +kernel
  have accepted : (disassemble (paddedCode 0x00) 0 >>= instructionLines classPool).isOk = true := by
    decide +kernel
  cases whole : disassemble (paddedCode 0x00) 0 >>= instructionLines classPool with
  | error failure =>
    rw [whole] at accepted
    cases accepted
  | ok lines =>
    obtain ⟨is, decoded, listed⟩ := bind_eq_ok_iff.mp whole
    obtain ⟨js, decodedOther, listedOther⟩ := bind_eq_ok_iff.mp (same.symm.trans whole)
    exact ⟨is, js, lines, decoded, decodedOther, listed, listedOther,
      instructionLines_faithful classPool decoded decodedOther listed listedOther⟩

end JavaClass.Listing
