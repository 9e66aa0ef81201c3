import Mathlib.Data.List.Forall2
import JavaClass.ClassFile.Reader
import JavaClass.Listing.ClassFile
import JavaClass.Proofs.Pool

/-!
What the options do to a listing. With fewer of them switched on fewer lines are shown, each as it
was and in its place among the others, and nothing fails that did not fail before. The blank lines
between members are the one part that no option stands for: they go with the members around them.
-/

namespace JavaClass

/-- A computation that succeeds wherever another one does, with a result related to the other's. -/
def Lighter {α β : Type} (related : α → β → Prop) (x : Except Failure α) (y : Except Failure β) :
    Prop :=
  ∀ b, y = .ok b → ∃ a, x = .ok a ∧ related a b

namespace Lighter

variable {α β γ δ : Type} {related : α → β → Prop} {after : γ → δ → Prop}
  {x : Except Failure α} {y : Except Failure β}

theorem pure {a : α} {b : β} (result : related a b) : Lighter related (pure a) (pure b) := by
  intro _ done
  cases done
  exact ⟨a, rfl, result⟩

theorem bind {next : α → Except Failure γ} {other : β → Except Failure δ}
    (first : Lighter related x y) (rest : ∀ a b, related a b → Lighter after (next a) (other b)) :
    Lighter after (x >>= next) (y >>= other) := by
  intro d done
  obtain ⟨b, found, done⟩ := bind_eq_ok_iff.mp done
  obtain ⟨a, started, result⟩ := first b found
  obtain ⟨c, ended, result⟩ := rest a b result d done
  exact ⟨c, bind_eq_ok_iff.mpr ⟨a, started, ended⟩, result⟩

theorem same (w : Except Failure δ) : Lighter Eq w w := fun d found => ⟨d, found, rfl⟩

/-- A step that both computations take. -/
theorem bind_same {w : Except Failure δ} {next : δ → Except Failure α}
    {other : δ → Except Failure β} (rest : ∀ d, Lighter related (next d) (other d)) :
    Lighter related (w >>= next) (w >>= other) := by
  apply bind (same w)
  rintro d _ rfl
  exact rest d

/-- A step that only the other computation takes. -/
theorem of_bind {other : δ → Except Failure β} {w : Except Failure δ}
    (rest : ∀ d, Lighter related x (other d)) : Lighter related x (w >>= other) := by
  intro b done
  obtain ⟨d, -, done⟩ := bind_eq_ok_iff.mp done
  exact rest d b done

/-- Some of the items, in their order, each with less to do. -/
theorem mapM {f : γ → Except Failure α} {g : γ → Except Failure β} {items others : List γ}
    (part : items.Sublist others) (each : ∀ c, Lighter related (f c) (g c)) :
    Lighter (List.SublistForall₂ related) (items.mapM f) (others.mapM g) := by
  induction part with
  | slnil => exact pure .nil
  | cons c _ ih =>
    rw [List.mapM_cons]
    refine of_bind fun _ => ?_
    intro all done
    obtain ⟨rest, written, done⟩ := bind_eq_ok_iff.mp done
    cases done
    obtain ⟨kept, shown, result⟩ := ih rest written
    exact ⟨kept, shown, result.cons_right⟩
  | cons_cons c _ ih =>
    rw [List.mapM_cons, List.mapM_cons]
    refine (each c).bind fun _ _ first => ih.bind fun _ _ rest => ?_
    exact pure (.cons first rest)

end Lighter

namespace Listing

/-- Every option that is on in the one is on in the other. -/
structure Options.Within (o o' : Options) : Prop where
  pool : o.pool → o'.pool
  code : o.code → o'.code
  privateMembers : o.privateMembers → o'.privateMembers
  attributes : o.attributes → o'.attributes

/-- Wherever all lines can be written, so can the part, and it only leaves lines out. -/
abbrev Hides (part all : Except Failure (List Line)) : Prop := Lighter List.Sublist part all

namespace Hides

theorem refl (lines : Except Failure (List Line)) : Hides lines lines :=
  fun all shown => ⟨all, shown, .refl all⟩

/-- Lines that an option stands for. -/
theorem ite {on on' : Bool} {part all : Except Failure (List Line)} (implies : on → on')
    (hides : Hides part all) :
    Hides (if on then part else .ok []) (if on' then all else .ok []) := by
  cases on with
  | true => simpa [implies rfl] using hides
  | false => exact fun lines _ => ⟨[], rfl, lines.nil_sublist⟩

end Hides

theorem headed_sublist (heading : Text) {part all : List Line} (sublist : part.Sublist all) :
    (headed heading part).Sublist (headed heading all) :=
  (sublist.map _).cons_cons _

/-- Blocks of lines, of which some are left out and others are shortened. -/
abbrev Shortened (part all : List (List Line)) : Prop := List.SublistForall₂ List.Sublist part all

namespace Shortened

variable {part all : List (List Line)}

theorem flatten (shortened : Shortened part all) : part.flatten.Sublist all.flatten := by
  induction shortened with
  | nil => exact List.nil_sublist _
  | cons first _ ih => exact first.append ih
  | cons_right _ ih => exact ih.trans (List.sublist_append_right _ _)

theorem indented (shortened : Shortened part all) :
    Shortened (part.map indented) (all.map indented) := by
  induction shortened with
  | nil => exact .nil
  | cons first _ ih => exact .cons (first.map _) ih
  | cons_right _ ih => exact .cons_right ih

theorem append {next nextAll : List (List Line)} (shortened : Shortened part all)
    (others : Shortened next nextAll) : Shortened (part ++ next) (all ++ nextAll) := by
  obtain ⟨kept, each, sublist⟩ := List.sublistForall₂_iff.mp shortened
  obtain ⟨keptNext, eachNext, sublistNext⟩ := List.sublistForall₂_iff.mp others
  exact List.sublistForall₂_iff.mpr
    ⟨kept ++ keptNext, List.rel_append each eachNext, sublist.append sublistNext⟩

end Shortened

theorem sublist_separated_cons (block : List Line) (rest : List (List Line)) :
    block.Sublist (separated (block :: rest)) := by
  cases rest with
  | nil => exact .refl block
  | cons => exact List.sublist_append_left _ _

/-- A block goes together with the blank line behind it. -/
theorem separated_sublist_cons (block : List Line) (rest : List (List Line)) :
    (separated rest).Sublist (separated (block :: rest)) := by
  cases rest with
  | nil => exact List.nil_sublist _
  | cons => exact (List.sublist_cons_self _ _).trans (List.sublist_append_right _ _)

theorem Shortened.separated {part all : List (List Line)} (shortened : Shortened part all) :
    (separated part).Sublist (separated all) := by
  induction shortened with
  | nil => exact List.nil_sublist _
  | @cons block longer rest others first later ih =>
    cases rest with
    | nil => exact first.trans (sublist_separated_cons longer others)
    | cons =>
      -- A block that is kept later on keeps the blank line behind this one as well.
      cases others with
      | nil => cases later
      | cons => exact first.append (ih.cons_cons _)
  | @cons_right block _ others _ ih => exact ih.trans (separated_sublist_cons block others)

section
variable {o o' : Options} (within : o.Within o')
include within

theorem hides_attributesLines (pool : Pool) (attributes : List Attribute) :
    Hides (attributesLines o pool attributes) (attributesLines o' pool attributes) :=
  .ite within.attributes (.refl _)

theorem hides_fieldLines (pool : Pool) (m : Member) :
    Hides (fieldLines o pool m) (fieldLines o' pool m) := by
  refine Lighter.bind_same fun declaration => ?_
  refine (hides_attributesLines within pool m.attributes).bind fun _ _ attributes => ?_
  exact .pure (headed_sublist declaration (attributes.append_left _))

theorem hides_codeLines (pool : Pool) (m : Member) (code : Code) :
    Hides (codeLines o pool m code) (codeLines o' pool m code) := by
  refine Lighter.bind_same fun slots => ?_
  refine Lighter.bind_same fun instructions => ?_
  refine Lighter.bind_same fun handlers => ?_
  refine (hides_attributesLines within pool code.attributes).bind fun _ _ attributes => ?_
  exact .pure (headed_sublist _ (attributes.append_left _))

theorem hides_methodAttributeLines (pool : Pool) (m : Member) (a : Attribute) :
    Hides (methodAttributeLines o pool m a) (methodAttributeLines o' pool m a) := by
  obtain ⟨nameIndex, name, info, _ | body⟩ := a
  · exact hides_attributesLines within pool _
  cases body with
  | code code => exact .ite within.code (hides_codeLines within pool m code)
  | _ => exact hides_attributesLines within pool _

theorem hides_methodLines (c : ClassFile) (m : Member) :
    Hides (methodLines o c m) (methodLines o' c m) := by
  refine Lighter.bind_same fun declaration => ?_
  refine (Lighter.mapM (.refl m.attributes) (hides_methodAttributeLines within c.pool m)).bind
    fun _ _ attributes => ?_
  exact .pure (headed_sublist declaration ((Shortened.flatten attributes).append_left _))

theorem filter_isShown_sublist (members : List Member) :
    (members.filter (isShown o)).Sublist (members.filter (isShown o')) := by
  apply List.monotone_filter_right
  intro m shown
  unfold isShown at shown ⊢
  rw [Bool.or_eq_true] at shown ⊢
  exact shown.imp_left within.privateMembers

theorem hides_memberLines (c : ClassFile) : Hides (memberLines o c) (memberLines o' c) := by
  have shown := filter_isShown_sublist within
  refine (Lighter.mapM (shown c.fields) (hides_fieldLines within c.pool)).bind
    fun _ _ fields => ?_
  refine (Lighter.mapM (shown c.methods) (hides_methodLines within c)).bind
    fun _ _ methods => ?_
  have members := (Shortened.append fields methods).indented.separated
  exact .pure ((members.append_right _).cons_cons _)

theorem hides_shownPoolLines (pool : Pool) :
    Hides (shownPoolLines o pool) (shownPoolLines o' pool) :=
  .ite within.pool (.refl _)

theorem hides_classLines (c : ClassFile) : Hides (classLines o c) (classLines o' c) := by
  refine Lighter.bind_same fun declaration => ?_
  refine Lighter.bind_same fun header => ?_
  refine (hides_shownPoolLines within c.pool).bind fun _ _ pool => ?_
  refine (hides_memberLines within c).bind fun _ _ members => ?_
  refine (hides_attributesLines within c.pool c.attributes).bind fun _ _ attributes => ?_
  exact .pure (((pool.append_left _).append members).append attributes)

end

end Listing

namespace ClassFile

/-- A class `A` with a deprecated field `x`, a private field `m` and a method `m`, whose code has a
line number. -/
def mixedMembers : List UInt8 := [
  0xCA, 0xFE, 0xBA, 0xBE, 0, 0, 0, 52, 0, 10,
  1, 0, 1, 0x41,
  7, 0, 1,
  1, 0, 1, 0x78,
  1, 0, 1, 0x49,
  1, 0, 1, 0x6D,
  1, 0, 3, 0x28, 0x29, 0x56,
  1, 0, 4, 0x43, 0x6F, 0x64, 0x65,
  1, 0, 15, 0x4C, 0x69, 0x6E, 0x65, 0x4E, 0x75, 0x6D, 0x62, 0x65, 0x72,
    0x54, 0x61, 0x62, 0x6C, 0x65,
  1, 0, 10, 0x44, 0x65, 0x70, 0x72, 0x65, 0x63, 0x61, 0x74, 0x65, 0x64,
  0, 0x21, 0, 2, 0, 0, 0, 0,
  0, 2,
  0, 1, 0, 3, 0, 4, 0, 1, 0, 9, 0, 0, 0, 0,
  0, 2, 0, 5, 0, 4, 0, 0,
  0, 1,
  0, 1, 0, 5, 0, 6, 0, 1, 0, 7, 0, 0, 0, 25,
  0, 0, 0, 1, 0, 0, 0, 1, 0xB1, 0, 0, 0, 1, 0, 8, 0, 0, 0, 6, 0, 1, 0, 0, 0, 7,
  0, 0]

end ClassFile

end JavaClass
