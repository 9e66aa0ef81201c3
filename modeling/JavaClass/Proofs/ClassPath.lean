import JavaClass.ClassPath
import JavaClass.Storage.FileTree
import Mathlib.Data.List.Induction

/-!
The cache of a class path cannot be seen. While files stay as they are, whatever is added and looked
for, and in whatever order, looking for a class gives what a search of the entries gives that knows
nothing of earlier ones.
-/

namespace JavaClass

/-- What an entry says about a class, if it says anything: it has the class, or it fails. -/
def PathEntry.verdict? (codecs : Codecs) (fs : FileSystem) (name : String) (entry : PathEntry) :
    Option (Except Failure (List UInt8)) :=
  match entry.lookUp codecs fs name with
  | .ok none => none
  | .ok (some data) => some (.ok data)
  | .error failure => some (.error failure)

namespace ClassPath

/-- A search without a cache: the first entry that says anything decides. -/
def uncached (codecs : Codecs) (fs : FileSystem) (limit : Option Int) (name : String)
    (entries : List PathEntry) : Except Failure (Option ClassFile) :=
  match entries.findSome? (PathEntry.verdict? codecs fs name) with
  | none => .ok none
  | some verdict => do return some (← ClassFile.parse (← verdict) limit)

inductive Action where
  | addPath (text : String)
  | addPaths (text : String)
  | find (name : String)
  | close
  deriving DecidableEq, Repr

def addable? (fs : FileSystem) (text : String) : Option PathEntry :=
  (entryOf fs (Path.ofString text)).toOption

/-- The entries that an action adds: of several paths, those before the first bad one. -/
def Action.added (fs : FileSystem) : Action → List PathEntry
  | .addPath text => (addable? fs text).toList
  | .addPaths text =>
    let texts := (Path.split ':' text).filter (· ≠ "")
    ((texts.map (addable? fs)).takeWhile Option.isSome).filterMap id
  | .find _ | .close => []

/-- The class path that an action leaves, also if it fails. -/
def step (codecs : Codecs) (fs : FileSystem) (cp : ClassPath) : Action → ClassPath
  | .addPath text => (cp.addPath fs text).toOption.getD cp
  | .addPaths text => (cp.addPaths fs text).1
  | .find name => (cp.find codecs fs name).classPath
  | .close => cp.close

/-- A class path after some actions on an empty one. -/
def after (codecs : Codecs) (fs : FileSystem) (limit : Option Int) (actions : List Action) :
    ClassPath :=
  actions.foldl (step codecs fs) (empty limit)

variable {codecs : Codecs} {fs : FileSystem} {limit : Option Int} {name : String}
  {entries : List PathEntry} {file : ClassFile} {cp : ClassPath}

theorem search_eq_uncached (codecs : Codecs) (fs : FileSystem) (limit : Option Int) (name : String)
    (entries : List PathEntry) :
    (search codecs fs limit name entries).1 = uncached codecs fs limit name entries := by
  induction entries with
  | nil => rfl
  | cons entry entries ih =>
    unfold search uncached
    rw [List.findSome?_cons, PathEntry.verdict?]
    cases said : entry.lookUp codecs fs name with
    | error failure => rfl
    | ok found =>
      cases found with
      | none => exact ih
      | some data =>
        change some <$> ClassFile.parse data limit = do return some (← ClassFile.parse data limit)
        cases ClassFile.parse data limit <;> rfl

/-- Entries behind those that have a class cannot change it. -/
theorem uncached_append (found : uncached codecs fs limit name entries = .ok (some file))
    (others : List PathEntry) :
    uncached codecs fs limit name (entries ++ others) = .ok (some file) := by
  unfold uncached at found ⊢
  rw [List.findSome?_append]
  cases first : entries.findSome? (PathEntry.verdict? codecs fs name) with
  | none =>
    rw [first] at found
    cases found
  | some verdict =>
    rw [first] at found
    exact found

theorem addPath_eq (fs : FileSystem) (text : String) (cp : ClassPath) :
    cp.addPath fs text = (entryOf fs (Path.ofString text)).map
      fun entry => { cp with entries := cp.entries ++ [entry] } := by
  unfold addPath
  cases entryOf fs (Path.ofString text) <;> rfl

theorem addAll_eq (fs : FileSystem) (texts : List String) (cp : ClassPath) :
    (addAll fs cp texts).1 = { cp with entries := cp.entries ++
      ((texts.map (addable? fs)).takeWhile Option.isSome).filterMap id } := by
  induction texts generalizing cp with
  | nil => simp [addAll]
  | cons text texts ih =>
    unfold addAll
    rw [addPath_eq, List.map_cons, addable?]
    cases entryOf fs (Path.ofString text) with
    | error failure => simp [Except.map, Except.toOption]
    | ok entry => simp [Except.map, Except.toOption, ih]

/-- What looking for a class does: a class from the cache changes nothing, a class that is found is
put into the cache, and nothing else leaves a trace. -/
theorem find_cases (codecs : Codecs) (fs : FileSystem) (name : String) (cp : ClassPath) :
    (∃ file, cp.cache.lookup (slashed name) = some file ∧
      (cp.find codecs fs name).result = .ok (some file) ∧ (cp.find codecs fs name).classPath = cp) ∨
    cp.cache.lookup (slashed name) = none ∧
      (cp.find codecs fs name).result = uncached codecs fs cp.limit (slashed name) cp.entries ∧
      ((∃ file, (cp.find codecs fs name).result = .ok (some file) ∧
          (cp.find codecs fs name).classPath =
            { cp with cache := cp.cache ++ [(slashed name, file)] }) ∨
        (∀ file, (cp.find codecs fs name).result ≠ .ok (some file)) ∧
          (cp.find codecs fs name).classPath = cp) := by
  cases known : cp.cache.lookup (slashed name) with
  | some file =>
    have same : cp.find codecs fs name = ⟨.ok (some file), cp, []⟩ := by simp only [find, known]
    rw [same]
    exact .inl ⟨file, rfl, rfl, rfl⟩
  | none =>
    rw [← search_eq_uncached]
    rcases searched : search codecs fs cp.limit (slashed name) cp.entries with
      ⟨failure | _ | file, notes⟩
    · have same : cp.find codecs fs name = ⟨.error failure, cp, notes⟩ := by
        simp only [find, known, searched]
      rw [same]
      exact .inr ⟨rfl, rfl, .inr ⟨by simp, rfl⟩⟩
    · have same : cp.find codecs fs name = ⟨.ok none, cp, notes⟩ := by
        simp only [find, known, searched]
      rw [same]
      exact .inr ⟨rfl, rfl, .inr ⟨by simp, rfl⟩⟩
    · have same : cp.find codecs fs name =
          ⟨.ok (some file), { cp with cache := cp.cache ++ [(slashed name, file)] }, notes⟩ := by
        simp only [find, known, searched]
      rw [same]
      exact .inr ⟨rfl, rfl, .inl ⟨file, rfl, rfl⟩⟩

/-- What an action does: it adds entries behind the others, or puts a class that was found into the
cache, or closes the archives. -/
theorem step_cases (codecs : Codecs) (fs : FileSystem) (cp : ClassPath) (action : Action) :
    (action ≠ .close ∧
      cp.step codecs fs action = { cp with entries := cp.entries ++ action.added fs }) ∨
    (∃ name file, action = .find name ∧ cp.cache.lookup (slashed name) = none ∧
      uncached codecs fs cp.limit (slashed name) cp.entries = .ok (some file) ∧
      cp.step codecs fs action = { cp with cache := cp.cache ++ [(slashed name, file)] }) ∨
    (action = .close ∧ cp.step codecs fs action = cp.close) := by
  cases action with
  | close => exact .inr (.inr ⟨rfl, rfl⟩)
  | addPaths text => exact .inl ⟨by simp, addAll_eq fs _ cp⟩
  | addPath text =>
    refine .inl ⟨by simp, ?_⟩
    rw [step, addPath_eq, Action.added, addable?]
    cases entryOf fs (Path.ofString text) <;> simp [Except.map, Except.toOption]
  | find name =>
    have unchanged : cp = { cp with entries := cp.entries ++ Action.added fs (.find name) } := by
      simp [Action.added]
    rw [step]
    obtain ⟨file, -, -, same⟩ | ⟨unknown, searched, ⟨file, found, kept⟩ | ⟨-, same⟩⟩ :=
      find_cases codecs fs name cp
    · exact .inl ⟨by simp, same.trans unchanged⟩
    · exact .inr (.inl ⟨name, file, rfl, unknown, searched ▸ found, kept⟩)
    · exact .inl ⟨by simp, same.trans unchanged⟩

/-- A search without the cache would find what is in it. -/
def Faithful (codecs : Codecs) (fs : FileSystem) (cp : ClassPath) : Prop :=
  ∀ name file, cp.cache.lookup name = some file →
    uncached codecs fs cp.limit name cp.entries = .ok (some file)

theorem limit_step (codecs : Codecs) (fs : FileSystem) (cp : ClassPath) (action : Action) :
    (cp.step codecs fs action).limit = cp.limit := by
  obtain ⟨-, same⟩ | ⟨_, _, -, -, -, same⟩ | ⟨-, same⟩ := step_cases codecs fs cp action
  all_goals rw [same]
  rfl

theorem entries_step {action : Action} (isOpen : action ≠ .close) :
    (cp.step codecs fs action).entries = cp.entries ++ action.added fs := by
  obtain ⟨-, same⟩ | ⟨name, _, rfl, -, -, same⟩ | ⟨closes, -⟩ := step_cases codecs fs cp action
  · rw [same]
  · rw [same]
    simp [Action.added]
  · exact absurd closes isOpen

/-- What is in the cache stays there, also after closing. -/
theorem lookup_step (cached : cp.cache.lookup name = some file) (action : Action) :
    (cp.step codecs fs action).cache.lookup name = some file := by
  obtain ⟨-, same⟩ | ⟨_, _, -, -, -, same⟩ | ⟨-, same⟩ := step_cases codecs fs cp action
  · rw [same]
    exact cached
  · rw [same]
    simp [List.lookup_append, cached]
  · rw [same]
    exact cached

theorem faithful_step (faithful : cp.Faithful codecs fs) {action : Action}
    (isOpen : action ≠ .close) : (cp.step codecs fs action).Faithful codecs fs := by
  intro name file cached
  obtain ⟨-, same⟩ | ⟨sought, kept, -, -, found, same⟩ | ⟨closes, -⟩ :=
    step_cases codecs fs cp action
  · rw [same] at cached ⊢
    exact uncached_append (faithful name file cached) _
  -- The new class is the last one in the cache, so it counts only for a name not known before.
  · rw [same] at cached ⊢
    simp only [List.lookup_append, Option.or_eq_some_iff] at cached
    obtain cached | ⟨-, cached⟩ := cached
    · exact faithful name file cached
    · by_cases isSought : name = slashed sought
      · subst isSought
        rw [List.lookup_cons_self] at cached
        cases cached
        exact found
      · rw [List.lookup_cons, beq_false_of_ne isSought] at cached
        cases cached
  · exact absurd closes isOpen

theorem step_eq_of_fruitless
    (fruitless : ∀ file, (cp.find codecs fs name).result ≠ .ok (some file)) :
    cp.step codecs fs (.find name) = cp := by
  rw [step]
  obtain ⟨file, -, found, -⟩ | ⟨-, -, ⟨file, found, -⟩ | ⟨-, same⟩⟩ := find_cases codecs fs name cp
  · exact absurd found (fruitless file)
  · exact absurd found (fruitless file)
  · exact same

/-- A class that is found is in the cache from then on. -/
theorem lookup_of_found (found : (cp.find codecs fs name).result = .ok (some file)) :
    (cp.step codecs fs (.find name)).cache.lookup (slashed name) = some file := by
  rw [step]
  obtain ⟨other, cached, result, same⟩ | ⟨unknown, -, ⟨other, result, same⟩ | ⟨fruitless, -⟩⟩ :=
    find_cases codecs fs name cp
  · cases found.symm.trans result
    rw [same]
    exact cached
  · cases found.symm.trans result
    rw [same, List.lookup_append, unknown, Option.none_or, List.lookup_cons_self]
  · exact absurd found (fruitless file)

theorem result_of_lookup (cached : cp.cache.lookup (slashed name) = some file) :
    (cp.find codecs fs name).result = .ok (some file) := by
  simp only [find, cached]

theorem result_eq_uncached (faithful : cp.Faithful codecs fs) (name : String) :
    (cp.find codecs fs name).result = uncached codecs fs cp.limit (slashed name) cp.entries := by
  obtain ⟨file, cached, found, -⟩ | ⟨-, searched, -⟩ := find_cases codecs fs name cp
  · rw [found, faithful _ file cached]
  · exact searched

theorem after_append (codecs : Codecs) (fs : FileSystem) (limit : Option Int)
    (before later : List Action) : after codecs fs limit (before ++ later) =
      later.foldl (step codecs fs) (after codecs fs limit before) :=
  List.foldl_append

theorem after_snoc (codecs : Codecs) (fs : FileSystem) (limit : Option Int) (actions : List Action)
    (action : Action) :
    after codecs fs limit (actions ++ [action]) =
      (after codecs fs limit actions).step codecs fs action :=
  after_append codecs fs limit actions [action]

theorem limit_after (codecs : Codecs) (fs : FileSystem) (limit : Option Int)
    (actions : List Action) : (after codecs fs limit actions).limit = limit := by
  induction actions using List.reverseRecOn with
  | nil => rfl
  | append_singleton actions action ih => rw [after_snoc, limit_step, ih]

/-- The entries of a path that has not been closed are those that were added, in that order. -/
theorem entries_after {actions : List Action} (isOpen : .close ∉ actions) :
    (after codecs fs limit actions).entries = actions.flatMap (Action.added fs) := by
  induction actions using List.reverseRecOn with
  | nil => rfl
  | append_singleton actions action ih =>
    simp only [List.mem_append, List.mem_singleton, not_or] at isOpen
    rw [after_snoc, entries_step (Ne.symm isOpen.2), ih isOpen.1, List.flatMap_append,
      List.flatMap_singleton]

theorem faithful_after {actions : List Action} (isOpen : .close ∉ actions) :
    (after codecs fs limit actions).Faithful codecs fs := by
  induction actions using List.reverseRecOn with
  | nil =>
    intro name file cached
    cases cached
  | append_singleton actions action ih =>
    simp only [List.mem_append, List.mem_singleton, not_or] at isOpen
    rw [after_snoc]
    exact faithful_step (ih isOpen.1) (Ne.symm isOpen.2)

theorem lookup_foldl (cached : cp.cache.lookup name = some file) (actions : List Action) :
    (actions.foldl (step codecs fs) cp).cache.lookup name = some file := by
  induction actions generalizing cp with
  | nil => exact cached
  | cons action actions ih => exact ih (lookup_step cached action)

/-- Before a class path is closed, looking for a class gives what a search without a cache gives in
the entries added so far. A search that finds no class leaves no trace, and a class that has been
found stays the one for its name, however that is written, whatever is done later. -/
theorem cache_unseen (codecs : Codecs) (fs : FileSystem) (limit : Option Int)
    (before : List Action) :
    (.close ∉ before →
      (after codecs fs limit before).entries = before.flatMap (Action.added fs) ∧
      ∀ name, ((after codecs fs limit before).find codecs fs name).result =
        uncached codecs fs limit (slashed name) (before.flatMap (Action.added fs))) ∧
    (∀ name,
      (∀ file, ((after codecs fs limit before).find codecs fs name).result ≠ .ok (some file)) →
      after codecs fs limit (before ++ [.find name]) = after codecs fs limit before) ∧
    ∀ name file, ((after codecs fs limit before).find codecs fs name).result = .ok (some file) →
      ∀ later other, slashed other = slashed name →
        ((after codecs fs limit (before ++ .find name :: later)).find codecs fs other).result =
          .ok (some file) := by
  refine ⟨?_, ?_, ?_⟩
  · intro isOpen
    have entries : (after codecs fs limit before).entries = before.flatMap (Action.added fs) :=
      entries_after isOpen
    refine ⟨entries, fun name => ?_⟩
    rw [result_eq_uncached (faithful_after isOpen), limit_after, entries]
  · intro name fruitless
    rw [after_snoc, step_eq_of_fruitless fruitless]
  · intro name file found later other sameName
    rw [after_append, List.foldl_cons]
    apply result_of_lookup
    rw [sameName]
    exact lookup_foldl (lookup_of_found found) later

end ClassPath

/-- An archive with a single member, of which the name, the method, the checksum and the size are
given. Its header leaves to the directory what need not be said twice. -/
def Archive.ofMember (name : List UInt8) (method : UInt8) (checksum : List UInt8) (size : UInt8)
    (stored : List UInt8) : List UInt8 :=
  let nameLength := name.length.toUInt8
  let member := headerMark ++ List.replicate 22 0 ++ [nameLength, 0, 0, 0] ++ name ++ stored
  let directory := directoryMark ++ List.replicate 6 0 ++ [method] ++ List.replicate 5 0 ++
    checksum ++ [stored.length.toUInt8, 0, 0, 0, size, 0, 0, 0, nameLength] ++
    List.replicate 17 0 ++ name
  member ++ directory ++ endMark ++ List.replicate 8 0 ++
    [directory.length.toUInt8, 0, 0, 0, member.length.toUInt8, 0, 0, 0, 0, 0]

namespace ClassPath

/-- The archive `lib.jar` with the member `p/A.class`, a class of 31 bytes that is deflated. -/
def classTree : FileTree :=
  let name := [0x70, 0x2F, 0x41, 0x2E, 0x63, 0x6C, 0x61, 0x73, 0x73]
  let deflated := [
    0x3B, 0xF5, 0x6F, 0xD7, 0x3E, 0x06, 0x06, 0x06, 0x13, 0x06, 0x66, 0x46, 0x06,
    0x46, 0x47, 0x76, 0x06, 0x46, 0x06, 0x45, 0x06, 0x26, 0x06, 0x38, 0x00, 0x00]
  FileTree.empty.write ["lib.jar"]
    (Archive.ofMember name 8 [0x61, 0x02, 0xCE, 0x52] 31 deflated)

/-- The class is looked for in vain, found after `lib.jar` is added, and still known when a path
that cannot be added and closing have come after that. The closed archive itself cannot be
searched. -/
theorem cache_unseen_closed :
    let codecs := Codecs.builtIn
    let fs := classTree.toFileSystem
    let before : List Action := [.find "p.A", .addPath "lib.jar"]
    let later : List Action := [.addPath "none", .close]
    let closed := after codecs fs none (before ++ .find "p.A" :: later)
    after codecs fs none ([] ++ [.find "p.A"]) = after codecs fs none [] ∧
      ∃ file, uncached codecs fs none "p/A" (before.flatMap (Action.added fs)) = .ok (some file) ∧
        (closed.find codecs fs "p/A").result = .ok (some file) ∧
        uncached codecs fs none "p/A" closed.entries = .error (.archive .closed) := by
  intro codecs fs before later closed
  obtain ⟨uncachedFirst, fruitless, -⟩ := cache_unseen codecs fs none []
  obtain ⟨same, -, stays⟩ := cache_unseen codecs fs none before
  have vain : ((after codecs fs none []).find codecs fs "p.A").result = .ok none := by
    rw [(uncachedFirst (by decide)).2]
    rfl
  have isFound :
      ((after codecs fs none before).find codecs fs "p.A").result.toOption.join.isSome = true := by
    decide +kernel
  have shut : uncached codecs fs none "p/A" closed.entries = .error (.archive .closed) := by
    have fails : (uncached codecs fs none "p/A" closed.entries).map (·.isSome) =
        .error (.archive .closed) := by
      decide +kernel
    cases answer : uncached codecs fs none "p/A" closed.entries with
    | ok found =>
      rw [answer] at fails
      cases fails
    | error failure =>
      rw [answer] at fails
      cases fails
      rfl
  refine ⟨fruitless "p.A" (by simp [vain]), ?_⟩
  cases result : ((after codecs fs none before).find codecs fs "p.A").result with
  | error failure =>
    rw [result] at isFound
    cases isFound
  | ok answer =>
    cases answer with
    | none =>
      rw [result] at isFound
      cases isFound
    | some file =>
      have spelled : slashed "p.A" = "p/A" := by decide
      refine ⟨file, ?_, stays "p.A" file result _ "p/A" (by decide), shut⟩
      rw [← result, (same (by decide)).2, spelled]

end ClassPath

end JavaClass
