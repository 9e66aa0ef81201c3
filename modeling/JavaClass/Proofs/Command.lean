import JavaClass.Command.Run
import JavaClass.Proofs.ClassPath
import JavaClass.Proofs.Listing.ClassFile
import JavaClass.Proofs.Placement

/-!
How a run of the command ends. It lists a class, or reports a fault, or else is ended by a failure
that is no fault; each of those has one of a few reasons, in the file system, in the arguments or in
the class that is listed.
-/

namespace JavaClass.Command

/-- The places on the class path. -/
def Arguments.places (args : Arguments) : List Path :=
  ((Path.split ':' (args.classPath.getD "")).filter (· ≠ "")).map Path.ofString

/-- The name of the class that is looked for on the class path. -/
def Arguments.className (args : Arguments) : String := ClassPath.slashed (classNameOf args.target)

/-- Why the command may be ended by a failure that is no fault. -/
inductive Escapes (codecs : Codecs) (fs : FileSystem) (args : Arguments) : Failure → Prop
  /-- Something that the listing shows cannot be written. -/
  | unwritten {file : ClassFile} {item : Listing.Item} {failure : Failure}
      (loaded : (load codecs fs args).1 = .ok file) (shown : item ∈ Listing.items args.options file)
      (fails : item.Fails file.pool failure) : Escapes codecs fs args failure
  /-- An archive asks for more than can be done. -/
  | unopened {place : Path} {number : Nat} {fault : ArchiveFault} (listed : place ∈ args.places)
      (leads : fs.fileNumber place = .ok number)
      (refused : Archive.ofBytes (fs.content number) = .error fault)
      (noDamage : fault.isDamage = false) : Escapes codecs fs args (.archive fault)
  /-- An archive has the class, but it cannot be taken out. -/
  | unextracted {place : Path} {number : Nat} {archive : Archive} {found : ArchiveMember}
      {fault : ArchiveFault} (listed : place ∈ args.places)
      (leads : fs.fileNumber place = .ok number)
      (opened : Archive.ofBytes (fs.content number) = .ok archive)
      (has : archive.find? (args.className ++ ".class") = some found)
      (broken : Archive.extract codecs fs.lastPosition (fs.content number) found = .error fault) :
      Escapes codecs fs args (.archive fault)
  | nulInPath {path : Path} (asked : path ∈ args.paths) (has : FileSystem.hasNul path = true) :
      Escapes codecs fs args .nulInPath
  /-- A path cannot be followed to its end, so that it stays open where it leads. -/
  | untraceable {path : Path} {fault : FileFault} (asked : path ∈ args.paths)
      (refused : fs.find path = .error fault) (stays : fault.leadsNowhere = false) :
      Escapes codecs fs args (.file fault path.toString)
  /-- A version has to be held against a limit that was given without a value. -/
  | noLimit {major : Nat} {limit : Int} {place : Option Int} (without : args.maxVersion = some none)
      (refused : (load codecs fs args).1 = .error (.fault (.versionTooNew major limit) place)) :
      Escapes codecs fs args .missingLimit

/-- The result of a computation is good, or it has failed by a fault or for one of the reasons. -/
structure Ensures (codecs : Codecs) (fs : FileSystem) (args : Arguments) {α : Type}
    (good : α → Prop) (x : Except Failure α) : Prop where
  good_of_ok (a : α) : x = .ok a → good a
  explained (failure : Failure) : x = .error failure →
    (∃ cause place, failure = .fault cause place) ∨ Escapes codecs fs args failure

/-- Where an entry of the class path comes from. -/
def FromPlace (fs : FileSystem) (args : Arguments) : PathEntry → Prop
  | .directory place => place ∈ args.places
  | .archive source => source.path ∈ args.places ∧ source.closed = false ∧
      fs.fileNumber source.path = .ok source.file ∧
      Archive.ofBytes (fs.content source.file) = .ok source.directory

/-- The class has been read from some bytes. -/
def IsRead (limit : Option Int) (file : ClassFile) : Prop :=
  ∃ data, ClassFile.parse data limit = .ok file

variable {codecs : Codecs} {fs : FileSystem} {args : Arguments}

namespace Ensures

variable {α β : Type} {good : α → Prop} {next : β → Prop}

theorem ok {a : α} (isGood : good a) : Ensures codecs fs args good (.ok a) where
  good_of_ok := by
    rintro _ ⟨⟩
    exact isGood
  explained := by
    rintro _ ⟨⟩

theorem fault (cause : Cause) (place : Option Int) :
    Ensures codecs fs args good (.error (.fault cause place)) where
  good_of_ok := by
    rintro _ ⟨⟩
  explained := by
    rintro _ ⟨⟩
    exact .inl ⟨cause, place, rfl⟩

theorem escape {failure : Failure} (escapes : Escapes codecs fs args failure) :
    Ensures codecs fs args good (.error failure) where
  good_of_ok := by
    rintro _ ⟨⟩
  explained := by
    rintro _ ⟨⟩
    exact .inr escapes

/-- A failure that is passed on. -/
theorem of_error {x : Except Failure α} {failure : Failure} (first : Ensures codecs fs args good x)
    (fails : x = .error failure) : Ensures codecs fs args next (.error failure) where
  good_of_ok := by
    rintro _ ⟨⟩
  explained := by
    rintro _ ⟨⟩
    exact first.explained failure fails

theorem bind {x : Except Failure α} {f : α → Except Failure β}
    (first : Ensures codecs fs args good x)
    (rest : ∀ a, good a → Ensures codecs fs args next (f a)) :
    Ensures codecs fs args next (x >>= f) := by
  cases x with
  | ok a => exact rest a (first.good_of_ok a rfl)
  | error failure => exact first.of_error rfl

end Ensures

/-- Whatever the class path has, the file system may be asked about, by itself and for the class. -/
theorem mem_paths_of_mem_places {place : Path} (listed : place ∈ args.places) :
    place ∈ args.paths ∧
      place.append (Path.ofString (args.className ++ ".class")) ∈ args.paths := by
  have kept : place ∈ (Path.split ':' (args.classPath.getD "")).map Path.ofString :=
    List.map_subset _ (List.filter_subset_self _) listed
  constructor
  · exact List.mem_append_left _ (List.mem_cons_of_mem _ kept)
  · exact List.mem_append_right _ (List.mem_map_of_mem kept)

theorem target_mem_paths (args : Arguments) : Path.ofString args.target ∈ args.paths :=
  List.mem_append_left _ List.mem_cons_self

theorem ensures_parse (data : List UInt8) (limit : Option Int) :
    Ensures codecs fs args (IsRead limit) (ClassFile.parse data limit) where
  good_of_ok _ accepted := ⟨data, accepted⟩
  explained failure fails := by
    obtain ⟨cause, place, rfl, -⟩ := ClassFile.fault_of_parse_error fails
    exact .inl ⟨cause, place, rfl⟩

section
variable {path : Path} (asked : path ∈ args.paths)
include asked

theorem ensures_read : Ensures codecs fs args (fun _ => True) (fs.read path) := by
  unfold FileSystem.read
  split
  · exact .escape (.nulInPath asked ‹_›)
  · split
    · exact .ok trivial
    · exact .fault _ none

theorem ensures_leadsTo (node : Node) :
    Ensures codecs fs args (fun _ => True) (fs.leadsTo path node) := by
  unfold FileSystem.leadsTo
  split
  · exact .ok trivial
  · split
    · exact .ok trivial
    · rename_i fault refused
      split
      · exact .ok trivial
      · rename_i elsewhere
        exact .escape (.untraceable asked refused (Bool.eq_false_iff.mpr elsewhere))

theorem ensures_ofPath (limit : Option Int) :
    Ensures codecs fs args (IsRead limit) (ClassFile.ofPath fs path limit).1 := by
  have same : (ClassFile.ofPath fs path limit).1 =
      fs.read path >>= fun data => ClassFile.parse data limit := by
    unfold ClassFile.ofPath
    cases fs.read path <;> rfl
  rw [same]
  exact (ensures_read asked).bind fun data _ => ensures_parse data limit

end

theorem ensures_openArchive {place : Path} (listed : place ∈ args.places) :
    Ensures codecs fs args (fun source => FromPlace fs args (.archive source))
      (ClassPath.openArchive fs place) := by
  unfold ClassPath.openArchive
  split
  · exact .escape (.nulInPath (mem_paths_of_mem_places listed).1 ‹_›)
  · split
    · exact .fault _ none
    · rename_i number leads
      split
      · exact .ok ⟨listed, rfl, leads, ‹_›⟩
      · rename_i fault refused
        split
        · exact .fault _ none
        · rename_i noDamage
          exact .escape (.unopened listed leads refused (Bool.eq_false_iff.mpr noDamage))

theorem ensures_entryOf {place : Path} (listed : place ∈ args.places) :
    Ensures codecs fs args (FromPlace fs args) (ClassPath.entryOf fs place) := by
  unfold ClassPath.entryOf
  split
  · exact (ensures_openArchive listed).bind fun _ origin => .ok origin
  · refine (ensures_leadsTo (mem_paths_of_mem_places listed).1 _).bind fun isDirectory _ => ?_
    split
    · exact .ok listed
    · exact .fault _ none

theorem ensures_lookUp {entry : PathEntry} (origin : FromPlace fs args entry) :
    Ensures codecs fs args (fun _ => True) (entry.lookUp codecs fs args.className) := by
  cases entry with
  | directory place =>
    have asked := (mem_paths_of_mem_places origin).2
    refine (ensures_leadsTo asked _).bind fun isFile _ => ?_
    split
    · exact (ensures_read asked).bind fun _ _ => .ok trivial
    · exact .ok trivial
  | archive source =>
    obtain ⟨listed, isOpen, leads, opened⟩ := origin
    unfold PathEntry.lookUp
    dsimp only
    rw [if_neg (by simp [isOpen])]
    split
    · exact .ok trivial
    · split
      · exact .ok trivial
      · exact .escape (.unextracted listed leads opened ‹_› ‹_›)

theorem ensures_verdict {entry : PathEntry} {verdict : Except Failure (List UInt8)}
    (origin : FromPlace fs args entry)
    (said : entry.verdict? codecs fs args.className = some verdict) :
    Ensures codecs fs args (fun _ => True) verdict := by
  have looked : Ensures codecs fs args _ (entry.lookUp codecs fs args.className) :=
    ensures_lookUp origin
  unfold PathEntry.verdict? at said
  split at said
  · cases said
  · cases said
    exact .ok trivial
  · rename_i failure fails
    cases said
    exact looked.of_error fails

/-- A search can fail on entries of the path and on the class that it finds, and on nothing else. -/
theorem ensures_uncached {entries : List PathEntry}
    (origins : ∀ entry ∈ entries, FromPlace fs args entry) (limit : Option Int) :
    Ensures codecs fs args (fun answer => ∀ file ∈ answer, IsRead limit file)
      (ClassPath.uncached codecs fs limit args.className entries) := by
  unfold ClassPath.uncached
  split
  · exact .ok (by simp)
  · rename_i verdict said
    obtain ⟨entry, listed, said⟩ := List.exists_of_findSome?_eq_some said
    refine (ensures_verdict (origins entry listed) said).bind fun data _ => ?_
    exact (ensures_parse data limit).bind fun file isRead => .ok (by simpa using isRead)

theorem ensures_addAll {texts : List String}
    (listed : ∀ text ∈ texts, Path.ofString text ∈ args.places) (cp : ClassPath) :
    Ensures codecs fs args (fun _ => True) (cp.addAll fs texts).2 := by
  induction texts generalizing cp with
  | nil => exact .ok trivial
  | cons text texts ih =>
    obtain ⟨first, rest⟩ := List.forall_mem_cons.mp listed
    have added : Ensures codecs fs args (fun _ => True) (cp.addPath fs text) :=
      (ensures_entryOf first).bind fun _ _ => .ok trivial
    unfold ClassPath.addAll
    cases step : cp.addPath fs text with
    | ok cp => exact ih rest cp
    | error failure => exact added.of_error step

/-- Entries that have been added come from the class path, even if a later one could not be. -/
theorem fromPlace_of_mem_addAll {texts : List String}
    (listed : ∀ text ∈ texts, Path.ofString text ∈ args.places) {limit : Option Int}
    {entry : PathEntry} (added : entry ∈ ((ClassPath.empty limit).addAll fs texts).1.entries) :
    FromPlace fs args entry := by
  rw [ClassPath.addAll_eq] at added
  obtain ⟨answer, kept, rfl⟩ := List.mem_filterMap.mp added
  obtain ⟨text, given, made⟩ := List.mem_map.mp (List.takeWhile_subset _ kept)
  -- Nothing is decoded when an entry is added, so any decoders will do.
  have enters : Ensures .builtIn fs args _ (ClassPath.entryOf fs (Path.ofString text)) :=
    ensures_entryOf (listed text given)
  apply enters.good_of_ok
  unfold ClassPath.addable? at made
  cases entered : ClassPath.entryOf fs (Path.ofString text) <;> rw [entered] at made <;> cases made
  rfl

/-- Loading from a class path adds the places and then searches them, since the cache is empty. -/
theorem loadFromClassPath_eq (codecs : Codecs) (fs : FileSystem) (args : Arguments)
    (classPath : String) : (loadFromClassPath codecs fs args classPath).1 = (do
      let added := (ClassPath.empty args.limit).addPaths fs classPath
      added.2
      let answer ← ClassPath.uncached codecs fs args.limit args.className added.1.entries
      answer.elim (.error (.of (.classNotFound args.target))) .ok) := by
  -- This is the shortest run of a class path, so what is known of runs says how it is searched.
  have isOpen : ClassPath.Action.close ∉ [ClassPath.Action.addPaths classPath] := by simp
  have faithful : (ClassPath.after codecs fs args.limit [.addPaths classPath]).Faithful codecs fs :=
    ClassPath.faithful_after isOpen
  have searched : ∀ cp, cp = ClassPath.after codecs fs args.limit [.addPaths classPath] →
      (cp.find codecs fs (classNameOf args.target)).result =
        ClassPath.uncached codecs fs args.limit args.className cp.entries := by
    rintro cp rfl
    rw [ClassPath.result_eq_uncached faithful, ClassPath.limit_after, Arguments.className]
  unfold loadFromClassPath
  rcases added : (ClassPath.empty args.limit).addPaths fs classPath with ⟨cp, failure | done⟩
  · rfl
  · dsimp only
    rw [searched cp (congrArg Prod.fst added).symm]
    rcases ClassPath.uncached codecs fs args.limit args.className cp.entries with _ | _ | _ <;> rfl

theorem places_eq {classPath : String} (given : args.classPath = some classPath) :
    args.places = ((Path.split ':' classPath).filter (· ≠ "")).map Path.ofString := by
  rw [Arguments.places, given]
  rfl

theorem ensures_loadFromClassPath {classPath : String} (given : args.classPath = some classPath) :
    Ensures codecs fs args (IsRead args.limit) (loadFromClassPath codecs fs args classPath).1 := by
  have listed : ∀ text ∈ (Path.split ':' classPath).filter (· ≠ ""),
      Path.ofString text ∈ args.places := by
    intro text inside
    rw [places_eq given]
    exact List.mem_map_of_mem inside
  rw [loadFromClassPath_eq]
  refine (ensures_addAll listed _).bind fun _ _ => ?_
  refine (ensures_uncached (fun _ => fromPlace_of_mem_addAll listed) _).bind fun answer isRead => ?_
  cases answer with
  | none => exact .fault _ none
  | some file => exact .ok (isRead file rfl)

/-- The three ways in which a class is loaded or refused. -/
theorem load_cases (codecs : Codecs) (fs : FileSystem) (args : Arguments) :
    (load codecs fs args).1 = (ClassFile.ofPath fs (Path.ofString args.target) args.limit).1 ∨
    (∃ failure, fs.isFile (Path.ofString args.target) = .error failure ∧
      (load codecs fs args).1 = .error failure) ∨
    ∃ classPath, args.classPath = some classPath ∧
      (load codecs fs args).1 = (loadFromClassPath codecs fs args classPath).1 := by
  unfold load
  split
  · exact .inl rfl
  · exact .inl rfl
  · dsimp only
    split
    · exact .inr (.inr ⟨_, ‹_›, rfl⟩)
    · split
      · exact .inr (.inl ⟨_, ‹_›, rfl⟩)
      · exact .inl rfl
      · exact .inr (.inr ⟨_, ‹_›, rfl⟩)

/-- A class that is loaded has been read; what stops the loading is a fault or has a reason. -/
theorem ensures_load (codecs : Codecs) (fs : FileSystem) (args : Arguments) :
    Ensures codecs fs args (IsRead args.limit) (load codecs fs args).1 := by
  have asked := target_mem_paths args
  obtain direct | ⟨failure, unclear, refused⟩ | ⟨classPath, given, loaded⟩ :=
    load_cases codecs fs args
  · rw [direct]
    exact ensures_ofPath asked _
  · rw [refused]
    exact (ensures_leadsTo asked _).of_error unclear
  · rw [loaded]
    exact ensures_loadFromClassPath given

theorem escapes_of_listing {file : ClassFile} {failure : Failure}
    (loaded : (load codecs fs args).1 = .ok file)
    (fails : file.listing args.options = .error failure) :
    Escapes codecs fs args failure := by
  obtain ⟨data, accepted⟩ := (ensures_load codecs fs args).good_of_ok file loaded
  obtain ⟨sound, contents⟩ := ClassFile.parts_of_parse accepted
  have closed := ClassFile.closed_of_contents sound contents
  obtain ⟨item, shown, cause⟩ := Listing.failsOnly_listing sound closed args.options failure fails
  exact .unwritten loaded shown cause

/-- A failure to load a class is reported as it is, unless it is about a limit that is not there. -/
theorem failure_cases (args : Arguments) (failure : Failure) :
    args.failure failure = failure ∨
    args.maxVersion = some none ∧ args.failure failure = .missingLimit ∧
      ∃ major limit place, failure = .fault (.versionTooNew major limit) place := by
  unfold Arguments.failure
  split
  · split
    · exact .inr ⟨‹_›, rfl, _, _, _, rfl⟩
    · exact .inl rfl
  · exact .inl rfl

section
variable (quiet : args.verbose = false)
include quiet

theorem logText_eq_nil (notes : List Note) : logText args notes = [] := by
  simp [logText, quiet]

theorem list_of_error {failure : Failure} (refused : (load codecs fs args).1 = .error failure) :
    list codecs fs args = reportFailure [] (args.failure failure) := by
  simp only [list, refused, logText_eq_nil quiet]

theorem list_of_listing_ok {file : ClassFile} {text : String}
    (loaded : (load codecs fs args).1 = .ok file) (listed : file.listing args.options = .ok text) :
    list codecs fs args = ⟨.exit 0, text, []⟩ := by
  simp only [list, loaded, listed, logText_eq_nil quiet]

theorem list_of_listing_error {file : ClassFile} {failure : Failure}
    (loaded : (load codecs fs args).1 = .ok file)
    (fails : file.listing args.options = .error failure) :
    list codecs fs args = ⟨.failed failure, "", []⟩ := by
  simp only [list, loaded, fails, logText_eq_nil quiet]

end

theorem not_escapes_fault {cause : Cause} {place : Option Int} :
    ¬ Escapes codecs fs args (.fault cause place) := by
  intro escapes
  -- The other reasons name failures that are no faults.
  cases escapes with
  | unwritten loaded shown fails => cases fails

theorem reportFailure_of_escapes {failure : Failure} (escapes : Escapes codecs fs args failure) :
    reportFailure [] failure = ⟨.failed failure, "", []⟩ := by
  cases failure with
  | fault cause place => exact absurd escapes not_escapes_fault
  | _ => rfl

/-- A run that is to list a class, without a log, lists the class that it loads and nothing else, or
it reports the fault for which no class is loaded in a line of its own and lists nothing, or it is
ended by a failure that is no fault. -/
theorem run_lists_or_reports (codecs : Codecs) (fs : FileSystem) {words : List String}
    (asked : Request.parse words = .ok (.list args)) (quiet : args.verbose = false) :
    (∃ file text, (load codecs fs args).1 = .ok file ∧ file.listing args.options = .ok text ∧
      run codecs fs words = ⟨.exit 0, text, []⟩) ∨
    (∃ cause place message, (load codecs fs args).1 = .error (.fault cause place) ∧
      message = (Failure.fault cause place).message ∧
      run codecs fs words = ⟨.exit 1, "", s!"Error: {cause.kind.name}: {message}\n"⟩) ∨
    ∃ failure, Escapes codecs fs args failure ∧
      run codecs fs words = ⟨.failed failure, "", []⟩ := by
  have ran : run codecs fs words = list codecs fs args := by simp only [run, asked]
  rw [ran]
  cases loaded : (load codecs fs args).1 with
  | ok file =>
    cases listed : file.listing args.options with
    | ok text => exact .inl ⟨file, text, rfl, listed, list_of_listing_ok quiet loaded listed⟩
    | error failure =>
      have escapes := escapes_of_listing loaded listed
      exact .inr (.inr ⟨failure, escapes, list_of_listing_error quiet loaded listed⟩)
  | error failure =>
    rw [list_of_error quiet loaded]
    obtain same | ⟨without, missing, major, limit, place, rfl⟩ := failure_cases args failure
    · rw [same]
      obtain ⟨cause, place, rfl⟩ | escapes := (ensures_load codecs fs args).explained failure loaded
      · exact .inr (.inl ⟨cause, place, _, rfl, rfl, rfl⟩)
      · exact .inr (.inr ⟨failure, escapes, reportFailure_of_escapes escapes⟩)
    · rw [missing]
      exact .inr (.inr ⟨.missingLimit, .noLimit without loaded, rfl⟩)

/-- A member `A.class` without any data, for which a wrong checksum is noted. -/
def damagedArchive : List UInt8 :=
  Archive.ofMember [0x41, 0x2E, 0x63, 0x6C, 0x61, 0x73, 0x73] 0 [1, 0, 0, 0] 0 []

def damagedTree : FileTree := FileTree.empty.write ["lib.jar"] damagedArchive

/-- The archive can be opened, so that a search comes upon the wrong checksum. -/
theorem run_lists_or_reports_damaged :
    let codecs := Codecs.builtIn
    let fs := damagedTree.toFileSystem
    let words := ["-cp", "lib.jar", "A"]
    ∃ args, Request.parse words = .ok (.list args) ∧ args.verbose = false ∧
      Escapes codecs fs args (.archive (.checksum "A.class")) ∧
      run codecs fs words = ⟨.failed (.archive (.checksum "A.class")), "", []⟩ := by
  intro codecs fs words
  let args : Arguments := ⟨"A", some "lib.jar", false, false, false, none, false⟩
  have asked : Request.parse words = .ok (.list args) := by decide +kernel
  have ended : run codecs fs words = ⟨.failed (.archive (.checksum "A.class")), "", []⟩ := by
    decide +kernel
  refine ⟨args, asked, rfl, ?_, ended⟩
  obtain ⟨_, _, -, -, same⟩ | ⟨_, _, _, -, -, same⟩ | ⟨failure, escapes, same⟩ :=
    run_lists_or_reports codecs fs asked rfl
  · cases ended.symm.trans same
  · cases ended.symm.trans same
  · cases ended.symm.trans same
    exact escapes

-- A class that is found but may not be read is reported.
example :
    let tree := FileTree.empty.write ["lib", "A.class"] ClassFile.sample
    run .builtIn (tree.lock ["lib", "A.class"]).toFileSystem ["-cp", "lib", "A"] =
      ⟨.exit 1, "", "Error: IoFailure: Cannot read lib/A.class: Permission denied\n"⟩ := by
  decide +kernel

/-- The class is accepted, but its greatest float cannot be written, and the command neither lists
the class nor reports a fault. -/
theorem run_unwritable_float :
    let codecs := Codecs.builtIn
    let fs := (FileTree.empty.write ["A.class"] ClassFile.sample).toFileSystem
    let args : Arguments := ⟨"A.class", none, false, false, false, none, false⟩
    Request.parse ["A.class"] = .ok (.list args) ∧ (load codecs fs args).1.isOk = true ∧
      run codecs fs ["A.class"] = ⟨.failed .floatOverflow, "", []⟩ := by
  decide +kernel

end JavaClass.Command
