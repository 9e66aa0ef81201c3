import JavaClass.Proofs.ClassFile

/-!
The bytes of attributes that are not recognised. Nothing looks into them: they can be exchanged for
any others of their number, wherever the attribute is, and the class file stays what it was but for
them.
-/

namespace JavaClass

open Format

/-- The code of an attribute. -/
def Attribute.code? (a : Attribute) : Option Code :=
  match a.body with
  | some (.code code) => some code
  | _ => none

/-- Puts other attributes into code. -/
def BodyOf.mapAttributes {Attr : Type} (change : List Attr → List Attr) : BodyOf Attr → BodyOf Attr
  | .code c => .code { c with attributes := change c.attributes }
  | body => body

namespace Attribute

/-- The attribute at a position, in the code of the attributes at the positions around it, the
outermost first. -/
def at? (attributes : List Attribute) : List Nat → Nat → Option Attribute
  | [], position => attributes[position]?
  | outer :: around, position => do
    let code ← (← attributes[outer]?).code?
    at? code.attributes around position

/-- The attributes without the bytes of the one at a position and of the code around it. -/
def masked (attributes : List Attribute) : List Nat → Nat → List Attribute
  | [], position => attributes.modify position fun a => { a with info := [] }
  | outer :: around, position => attributes.modify outer fun a =>
    { a with info := [], body := a.body.map (.mapAttributes (masked · around position)) }

end Attribute

/-- What has attributes in a class file. -/
inductive AttributeOwner where
  | ofClass
  | ofField (position : Nat)
  | ofMethod (position : Nat)
  deriving DecidableEq, Repr

/-- Where an attribute is in a class file. -/
structure AttributePlace where
  owner : AttributeOwner
  around : List Nat
  position : Nat
  deriving DecidableEq, Repr

def Member.mapAttributes (change : List Attribute → List Attribute) (m : Member) : Member :=
  { m with attributes := change m.attributes }

namespace ClassFile

def attributesOf? (c : ClassFile) : AttributeOwner → Option (List Attribute)
  | .ofClass => some c.attributes
  | .ofField position => c.fields[position]?.map (·.attributes)
  | .ofMethod position => c.methods[position]?.map (·.attributes)

def attributeAt? (c : ClassFile) (place : AttributePlace) : Option Attribute := do
  Attribute.at? (← c.attributesOf? place.owner) place.around place.position

def mapAttributes (change : List Attribute → List Attribute) (c : ClassFile) :
    AttributeOwner → ClassFile
  | .ofClass => { c with attributes := change c.attributes }
  | .ofField position => { c with fields := c.fields.modify position (.mapAttributes change) }
  | .ofMethod position => { c with methods := c.methods.modify position (.mapAttributes change) }

/-- The class file without the bytes of the attribute at a place and of the code around it. -/
def maskedAt (c : ClassFile) (place : AttributePlace) : ClassFile :=
  c.mapAttributes (Attribute.masked · place.around place.position) place.owner

end ClassFile

section
variable {α β : Type} {mark : Language UInt8} {payload : List UInt8} {format : Format α} {x : α}
  {Becomes : List UInt8 → α → Prop}

/-- In all bytes that encode a value there is the payload, behind a mark, and other bytes of its
length in its place encode what the value becomes with them. -/
def Exchanges (mark : Language UInt8) (payload : List UInt8) (format : Format α) (x : α)
    (Becomes : List UInt8 → α → Prop) : Prop :=
  ∀ bytes ∈ format x, ∃ before after, before ∈ ⊤ * mark ∧ bytes = before ++ payload ++ after ∧
    ∀ other : List UInt8, other.length = payload.length →
      ∃ y, Becomes other y ∧ before ++ other ++ after ∈ format y

namespace Exchanges

theorem of_possible
    (exchanges : (∃ bytes, bytes ∈ format x) → Exchanges mark payload format x Becomes) :
    Exchanges mark payload format x Becomes :=
  fun bytes inside => exchanges ⟨bytes, inside⟩ bytes inside

theorem mono {Other : List UInt8 → α → Prop} (exchanges : Exchanges mark payload format x Becomes)
    (wider : ∀ other y, Becomes other y → Other other y) :
    Exchanges mark payload format x Other := by
  intro bytes inside
  obtain ⟨before, after, marked, whole, others⟩ := exchanges bytes inside
  refine ⟨before, after, marked, whole, fun other length => ?_⟩
  obtain ⟨y, becomes, encodes⟩ := others other length
  exact ⟨y, wider other y becomes, encodes⟩

/-- What holds a value between other parts holds its payload. -/
theorem within {whole : Format β} {z : β} {Other : List UInt8 → β → Prop}
    (exchanges : Exchanges mark payload format x Becomes) (front back : Language UInt8)
    (here : whole z = front * format x * back)
    (others : ∀ other y, Becomes other y →
      ∃ w, Other other w ∧ whole w = front * format y * back) :
    Exchanges mark payload whole z Other := by
  intro bytes inside
  rw [here] at inside
  obtain ⟨_, ⟨left, inFront, middle, inMiddle, rfl⟩, right, inBack, rfl⟩ := inside
  obtain ⟨before, after, marked, rfl, exchanged⟩ := exchanges middle inMiddle
  obtain ⟨start, _, header, inMark, rfl⟩ := marked
  refine ⟨left ++ (start ++ header), after ++ right, ?_, by simp, fun other length => ?_⟩
  · rw [← List.append_assoc]
    exact Language.append_mem_mul trivial inMark
  · obtain ⟨y, becomes, encodes⟩ := exchanged other length
    obtain ⟨w, becomesWhole, split⟩ := others other y becomes
    have joined := Language.append_mem_mul (Language.append_mem_mul inFront encodes) inBack
    rw [← split] at joined
    exact ⟨w, becomesWhole, by simpa only [List.append_assoc] using joined⟩

/-- A value that is kept as its bytes. -/
theorem exactly {info : List UInt8} (exchanges : Exchanges mark payload format x Becomes)
    (encodes : info ∈ format x) :
    Exchanges mark payload Format.exactly info fun other info' =>
      info'.length = info.length ∧ ∃ y, Becomes other y ∧ info' ∈ format y := by
  rintro _ rfl
  obtain ⟨before, after, marked, rfl, others⟩ := exchanges _ encodes
  refine ⟨before, after, marked, rfl, fun other length => ?_⟩
  obtain ⟨y, becomes, inside⟩ := others other length
  exact ⟨before ++ other ++ after, ⟨by simp [length], y, becomes, inside⟩, rfl⟩

end Exchanges

section
variable {items : List α} {position : Nat} {y : α}

theorem modify_set {change : α → α} (found : items[position]? = some x)
    (same : change y = change x) :
    (items.set position y).modify position change = items.modify position change := by
  apply List.ext_getElem?
  intro i
  rw [List.getElem?_modify, List.getElem?_modify, List.getElem?_set]
  by_cases here : position = i
  · subst here
    obtain ⟨inside, rfl⟩ := List.getElem?_eq_some_iff.mp found
    simp [inside, same]
  · simp [here]

theorem map_set_eq {f : α → β} (found : items[position]? = some x) (same : f y = f x) :
    (items.set position y).map f = items.map f := by
  obtain ⟨inside, rfl⟩ := List.getElem?_eq_some_iff.mp found
  rw [List.map_set, same, ← List.map_set, List.set_getElem_self]

/-- A list holds what its items hold. -/
theorem Exchanges.counted {width : Nat} (found : items[position]? = some x)
    (exchanges : Exchanges mark payload format x Becomes) :
    Exchanges mark payload (fun items : List α => Format.counted width (items.map format)) items
      fun other new => ∃ y, Becomes other y ∧ new = items.set position y := by
  obtain ⟨inside, rfl⟩ := List.getElem?_eq_some_iff.mp found
  have split (y : α) : Format.counted width ((items.set position y).map format) =
      unsigned width items.length * ((items.take position).map format).prod * format y *
        ((items.drop (position + 1)).map format).prod := by
    rw [Format.counted, List.length_map, List.length_set, List.set_eq_take_append_cons_drop,
      if_pos inside, List.map_append, List.map_cons, List.prod_append, List.prod_cons]
    simp only [mul_assoc]
  have here := split items[position]
  rw [List.set_getElem_self] at here
  exact exchanges.within _ _ here fun other y becomes => ⟨_, ⟨y, becomes, rfl⟩, split y⟩

end

end

namespace Attribute

variable {pool : Pool} {a : Attribute}

theorem encoding_of_fits (fits : a.BodyFits pool) :
    a.encoding pool =
      pool.indexOfText a.name a.nameIndex * unsigned 4 a.info.length * exactly a.info := by
  rw [encoding_eq, require_pos fits, one_mul]

theorem fits_of_possible (possible : ∃ bytes, bytes ∈ a.encoding pool) : a.BodyFits pool := by
  obtain ⟨bytes, inside⟩ := possible
  rw [encoding_eq] at inside
  exact (mem_require_mul.mp inside).1

theorem depth_eq (a : Attribute) : a.depth = (a.body.map Body.depth).getD 0 := by
  obtain ⟨nameIndex, name, info, _ | body⟩ := a <;> rw [depth] <;> rfl

theorem depth_code (code : Code) :
    Body.depth (.code code) = ((code.attributes.map depth).map (· + 4)).foldr max 0 := by
  obtain ⟨maxStack, maxLocals, bytes, handlers, attributes, instructions⟩ := code
  rw [Body.depth, List.map_map]
  rfl

/-- The name and the length that an attribute starts with. -/
def heading (a : Attribute) : Language UInt8 := unsigned 2 a.nameIndex * unsigned 4 a.info.length

theorem exchanges_info (unknown : ∀ known : AttributeName, a.name ≠ known.name) :
    Exchanges a.heading a.info (encoding pool) a fun other b => b = { a with info := other } := by
  refine .of_possible fun possible => ?_
  have fits := fits_of_possible possible
  obtain ⟨nameIndex, name, info, _ | body⟩ := a
  · intro bytes inside
    rw [encoding_of_fits fits] at inside
    obtain ⟨before, inFront, _, rfl, rfl⟩ := inside
    refine ⟨before, [], ?_, by simp, fun other length => ⟨_, rfl, ?_⟩⟩
    · rw [Pool.indexOfText, mul_assoc] at inFront
      exact Language.append_mem_mul (a := []) trivial (mem_require_mul.mp inFront).2
    · have fitsOther : BodyFits pool ⟨nameIndex, name, other, none⟩ := unknown
      rw [encoding_of_fits fitsOther, List.append_nil, length]
      exact Language.append_mem_mul inFront rfl
  · exact absurd fits.1 (unknown _)

theorem body_of_code? {code : Code} (isCode : a.code? = some code) :
    a.body = some (.code code) := by
  unfold code? at isCode
  split at isCode
  · rename_i found
    rw [found, Option.some.inj isCode]
  · cases isCode

theorem encoding_code {nameIndex : Nat} {name : Text} {info : List UInt8} {code : Code}
    (named : name = AttributeName.code.name) (encodes : info ∈ Body.encoding pool (.code code)) :
    encoding pool ⟨nameIndex, name, info, some (.code code)⟩ =
      pool.indexOfText name nameIndex * unsigned 4 info.length * exactly info :=
  encoding_of_fits (And.intro named encodes)

section
variable {mark : Language UInt8} {payload : List UInt8} {code : Code}

theorem exchanges_code {Becomes : List UInt8 → Code → Prop} (isCode : a.code? = some code)
    (exchanges : Exchanges mark payload (fun c => Body.encoding pool (.code c)) code Becomes) :
    Exchanges mark payload (encoding pool) a fun other b =>
      ∃ info c, Becomes other c ∧ b = { a with info, body := some (.code c) } := by
  refine .of_possible fun possible => ?_
  have fits := fits_of_possible possible
  have hasCode := body_of_code? isCode
  obtain ⟨nameIndex, name, info, body⟩ := a
  obtain rfl : body = some (.code code) := hasCode
  obtain ⟨named, encodes⟩ := fits
  -- The code keeps its length, so the length in front of it stays as well.
  refine (exchanges.exactly encodes).within _ 1 (by rw [encoding_code named encodes, mul_one]) ?_
  rintro other info' ⟨length, c, becomes, encodes'⟩
  refine ⟨⟨nameIndex, name, info', some (.code c)⟩, ⟨info', c, becomes, rfl⟩, ?_⟩
  rw [encoding_code named encodes', mul_one, length]

theorem exchanges_codeAttributes {Becomes : List UInt8 → List Attribute → Prop}
    (exchanges : Exchanges mark payload
      (fun attributes : List Attribute => counted 2 (attributes.map (encoding pool)))
      code.attributes Becomes) :
    Exchanges mark payload (fun c => Body.encoding pool (.code c)) code fun other c =>
      ∃ attributes, Becomes other attributes ∧ c = { code with attributes } := by
  obtain ⟨maxStack, maxLocals, bytes, handlers, attributes, instructions⟩ := code
  refine exchanges.within _ 1 (by rw [Body.encoding, ← mul_assoc, mul_one]) ?_
  intro other attributes' becomes
  refine ⟨⟨maxStack, maxLocals, bytes, handlers, attributes', instructions⟩,
    ⟨attributes', becomes, rfl⟩, ?_⟩
  rw [Body.encoding, ← mul_assoc, mul_one]

end

/-- What attributes become with other bytes in the one at a position. -/
structure Exchanged (around : List Nat) (position : Nat) (a : Attribute) (old : List Attribute)
    (other : List UInt8) (new : List Attribute) : Prop where
  found : at? new around position = some { a with info := other }
  rest : masked new around position = masked old around position
  depths : new.map depth = old.map depth

theorem exchanges_attributes {attributes : List Attribute} {around : List Nat} {position : Nat}
    (found : at? attributes around position = some a)
    (unknown : ∀ known : AttributeName, a.name ≠ known.name) :
    Exchanges a.heading a.info
      (fun attributes : List Attribute => counted 2 (attributes.map (encoding pool))) attributes
      (Exchanged around position a attributes) := by
  -- From the outermost code around the attribute to the attribute.
  induction around generalizing attributes with
  | nil =>
    change attributes[position]? = some a at found
    refine ((exchanges_info unknown).counted found).mono ?_
    rintro other _ ⟨b, rfl, rfl⟩
    refine ⟨?_, modify_set found rfl, map_set_eq found ?_⟩
    · obtain ⟨inside, -⟩ := List.getElem?_eq_some_iff.mp found
      exact List.getElem?_set_self inside
    · rw [depth_eq, depth_eq]
  | cons outer around ih =>
    obtain ⟨b, foundOuter, found⟩ := Option.bind_eq_some_iff.mp found
    obtain ⟨code, isCode, found⟩ := Option.bind_eq_some_iff.mp found
    have hasCode := body_of_code? isCode
    have inCode := exchanges_code isCode (exchanges_codeAttributes (ih found))
    refine (inCode.counted foundOuter).mono ?_
    rintro other _ ⟨_, ⟨info, _, ⟨attributes', exchanged, rfl⟩, rfl⟩, rfl⟩
    refine ⟨?_, modify_set foundOuter ?_, map_set_eq foundOuter ?_⟩
    · obtain ⟨inside, -⟩ := List.getElem?_eq_some_iff.mp foundOuter
      simp [at?, inside, code?, exchanged.found]
    · simp [hasCode, BodyOf.mapAttributes, exchanged.rest]
    · simp [depth_eq, hasCode, depth_code, exchanged.depths]

theorem block_eq (pool : Pool) :
    block pool = fun a => require (a.depth ≤ nestingBudget) * a.encoding pool :=
  (Scanner.taken_eq follows_read).symm.trans (Scanner.taken_eq (follows_readWithin pool _))

/-- Other bytes do not make attributes nest any deeper. -/
theorem exchanges_blocks {attributes : List Attribute} {around : List Nat} {position : Nat}
    (found : at? attributes around position = some a)
    (unknown : ∀ known : AttributeName, a.name ≠ known.name) :
    Exchanges a.heading a.info
      (fun attributes : List Attribute => counted 2 (attributes.map (block pool))) attributes
      (Exchanged around position a attributes) := by
  have split (attributes : List Attribute) : counted 2 (attributes.map (block pool)) =
      require (∀ taken ∈ attributes.map depth, taken ≤ nestingBudget) *
        counted 2 (attributes.map (encoding pool)) * 1 := by
    rw [block_eq, counted_require_mul, List.forall_mem_map, mul_one]
  refine (exchanges_attributes found unknown).within _ 1 (split attributes) ?_
  intro other attributes' exchanged
  refine ⟨attributes', exchanged, ?_⟩
  rw [split, exchanged.depths]

end Attribute

namespace Member

variable {pool : Pool} {m : Member} {a : Attribute} {around : List Nat} {position : Nat}

theorem exchanges_attributes (found : Attribute.at? m.attributes around position = some a)
    (unknown : ∀ known : AttributeName, a.name ≠ known.name) :
    Exchanges a.heading a.info (encoding pool) m fun other n =>
      ∃ attributes, Attribute.Exchanged around position a m.attributes other attributes ∧
        n = { m with attributes } := by
  refine (Attribute.exchanges_blocks found unknown).within _ 1 (by rw [encoding, mul_one]) ?_
  intro other attributes exchanged
  exact ⟨{ m with attributes }, ⟨attributes, exchanged, rfl⟩, by rw [encoding, mul_one]⟩

/-- What members become with other bytes in an attribute of the one at an index. -/
structure Exchanged (index : Nat) (around : List Nat) (position : Nat) (a : Attribute)
    (old : List Member) (other : List UInt8) (new : List Member) : Prop where
  found : (new[index]?.map (·.attributes)).bind (Attribute.at? · around position) =
    some { a with info := other }
  rest : new.modify index (mapAttributes (Attribute.masked · around position)) =
    old.modify index (mapAttributes (Attribute.masked · around position))

theorem exchanges_members {members : List Member} {index : Nat} (listed : members[index]? = some m)
    (found : Attribute.at? m.attributes around position = some a)
    (unknown : ∀ known : AttributeName, a.name ≠ known.name) :
    Exchanges a.heading a.info
      (fun members : List Member => counted 2 (members.map (encoding pool))) members
      (Exchanged index around position a members) := by
  refine ((exchanges_attributes found unknown).counted listed).mono ?_
  rintro other _ ⟨_, ⟨attributes, exchanged, rfl⟩, rfl⟩
  obtain ⟨inside, -⟩ := List.getElem?_eq_some_iff.mp listed
  refine ⟨?_, modify_set listed ?_⟩
  · simp [inside, exchanged.found]
  · simp [mapAttributes, exchanged.rest]

end Member

namespace ClassFile

variable {limit : Option Int} {c : ClassFile} {place : AttributePlace} {a : Attribute}

/-- What comes before the members. -/
def preface (limit : Option Int) (c : ClassFile) : Language UInt8 :=
  require (45 ≤ c.majorVersion ∧ ∀ newest ∈ limit, (c.majorVersion : Int) ≤ newest) *
    (exactly [0xCA, 0xFE, 0xBA, 0xBE] * unsigned 2 c.minorVersion * unsigned 2 c.majorVersion *
      Pool.read.taken c.pool) * (unsigned 2 c.flags * c.pool.indexOf [.classRef] c.thisClass *
    c.pool.optionalIndexOf [.classRef] c.superClass *
    counted 2 (c.interfaces.map (c.pool.indexOf [.classRef])))

theorem encoding_eq (limit : Option Int) (c : ClassFile) :
    c.encoding limit = c.preface limit * counted 2 (c.fields.map (Member.encoding c.pool)) *
      counted 2 (c.methods.map (Member.encoding c.pool)) *
      counted 2 (c.attributes.map (Attribute.block c.pool)) := by
  simp only [encoding, contents, preface, mul_assoc]

/-- What a class file becomes with other bytes in the attribute at a place. -/
structure Exchanged (place : AttributePlace) (a : Attribute) (old : ClassFile) (other : List UInt8)
    (new : ClassFile) : Prop where
  found : new.attributeAt? place = some { a with info := other }
  rest : new.maskedAt place = old.maskedAt place

theorem exchanges_attribute (found : c.attributeAt? place = some a)
    (unknown : ∀ known : AttributeName, a.name ≠ known.name) :
    Exchanges a.heading a.info (encoding limit) c (Exchanged place a c) := by
  obtain ⟨owner, around, position⟩ := place
  obtain ⟨attributes, owned, found⟩ := Option.bind_eq_some_iff.mp found
  cases owner with
  | ofClass =>
    cases owned
    refine (Attribute.exchanges_blocks found unknown).within _ 1 (by rw [encoding_eq, mul_one]) ?_
    intro other attributes exchanged
    refine ⟨{ c with attributes }, ⟨exchanged.found, ?_⟩, by rw [encoding_eq, mul_one]; rfl⟩
    simp [maskedAt, mapAttributes, exchanged.rest]
  | ofField index =>
    obtain ⟨m, listed, rfl⟩ := Option.map_eq_some_iff.mp owned
    refine (Member.exchanges_members listed found unknown).within _ _
      (by rw [encoding_eq, mul_assoc]) ?_
    intro other fields exchanged
    refine ⟨{ c with fields }, ⟨exchanged.found, ?_⟩, by rw [encoding_eq, mul_assoc]; rfl⟩
    simp [maskedAt, mapAttributes, exchanged.rest]
  | ofMethod index =>
    obtain ⟨m, listed, rfl⟩ := Option.map_eq_some_iff.mp owned
    refine (Member.exchanges_members listed found unknown).within _ _ (encoding_eq limit c) ?_
    intro other methods exchanged
    refine ⟨{ c with methods }, ⟨exchanged.found, ?_⟩, encoding_eq limit _⟩
    simp [maskedAt, mapAttributes, exchanged.rest]

/-- The bytes of an attribute that is not recognised, wherever it is, stand in the file behind the
attribute's name and length, and nothing looks into them: with any others of their number the file
is accepted too, as the same class file but for these bytes and those of the code around. -/
theorem unrecognised_payload_exchangeable {data : List UInt8} (accepted : parse data limit = .ok c)
    (found : c.attributeAt? place = some a)
    (unknown : ∀ known : AttributeName, a.name ≠ known.name) :
    ∃ before after,
      before ∈ ⊤ * (unsigned 2 a.nameIndex * unsigned 4 a.info.length) ∧
      data = before ++ a.info ++ after ∧
      ∀ other : List UInt8, other.length = a.info.length → ∃ changed,
        parse (before ++ other ++ after) limit = .ok changed ∧
        changed.attributeAt? place = some { a with info := other } ∧
        changed.maskedAt place = c.maskedAt place := by
  have encodes := (exhausts_read limit _ c).mp (parse_eq_ok_iff.mp accepted)
  obtain ⟨before, after, behind, whole, others⟩ := exchanges_attribute found unknown data encodes
  refine ⟨before, after, behind, whole, fun other length => ?_⟩
  obtain ⟨changed, exchanged, inside⟩ := others other length
  exact ⟨changed, parse_eq_ok_iff.mpr ((exhausts_read limit _ changed).mpr inside),
    exchanged.found, exchanged.rest⟩

/-- A class `A` with one method, `void m()`, whose code has an attribute `X`. -/
def extended : List UInt8 := [
  0xCA, 0xFE, 0xBA, 0xBE, 0, 0, 0, 52, 0, 7,
  1, 0, 1, 0x41,
  7, 0, 1,
  1, 0, 1, 0x6D,
  1, 0, 3, 0x28, 0x29, 0x56,
  1, 0, 4, 0x43, 0x6F, 0x64, 0x65,
  1, 0, 1, 0x58,
  0, 0x21, 0, 2, 0, 0, 0, 0, 0, 0,
  0, 1, 0, 9, 0, 3, 0, 4, 0, 1,
  0, 5, 0, 0, 0, 21, 0, 0, 0, 0, 0, 0, 0, 1, 0xB1, 0, 0, 0, 1, 0, 6, 0, 0, 0, 2, 7, 8,
  0, 0]

theorem unrecognised_payload_exchangeable_extended :
    ∃ c a before after changed, parse extended none = .ok c ∧
      c.attributeAt? ⟨.ofMethod 0, [0], 0⟩ = some a ∧
      (∀ known : AttributeName, a.name ≠ known.name) ∧ extended = before ++ [7, 8] ++ after ∧
      parse (before ++ [1, 2] ++ after) none = .ok changed ∧
      changed.attributeAt? ⟨.ofMethod 0, [0], 0⟩ = some { a with info := [1, 2] } ∧
      changed.maskedAt ⟨.ofMethod 0, [0], 0⟩ = c.maskedAt ⟨.ofMethod 0, [0], 0⟩ := by
  have read : ((parse extended none).toOption.bind (·.attributeAt? ⟨.ofMethod 0, [0], 0⟩)).map
      (fun a => (a.name, a.info)) = some (Text.ofString "X", [7, 8]) := by decide +kernel
  obtain ⟨a, read, same⟩ := Option.map_eq_some_iff.mp read
  obtain ⟨c, accepted, found⟩ := Option.bind_eq_some_iff.mp read
  obtain ⟨named, kept⟩ := Prod.mk.inj same
  have accepted : parse extended none = .ok c := by
    cases outcome : parse extended none with
    | ok d =>
      rw [outcome] at accepted
      exact congrArg Except.ok (Option.some.inj accepted)
    | error failure =>
      rw [outcome] at accepted
      cases accepted
  have unknown : ∀ known : AttributeName, a.name ≠ known.name := by
    rw [named]
    exact AttributeName.ofText?_eq_none_iff.mp (by decide)
  obtain ⟨before, after, -, whole, others⟩ :=
    unrecognised_payload_exchangeable accepted found unknown
  rw [kept] at whole others
  obtain ⟨changed, accepted', found', rest⟩ := others [1, 2] rfl
  exact ⟨c, a, before, after, changed, accepted, found, unknown, whole, accepted', found', rest⟩

end ClassFile

end JavaClass
