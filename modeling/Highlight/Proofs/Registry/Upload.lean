import Highlight.Proofs.Files.Tree
import Highlight.Proofs.Registry.Mapping

/-! # Uploads change all or nothing

A refused upload leaves the registry as it is, and the files too unless it was the files that failed.
An accepted one adds its language to the mapping in memory and on disk alike, and touches no file but
the mapping's that was there before.
-/

namespace Highlight

theorem isExtension_iff (text : String) : isExtension text = true ↔
    ∃ c word, text.toList = '.' :: c :: word ∧ ∀ d ∈ c :: word, Text.isWordChar d = true := by
  unfold isExtension
  split
  · rename_i rest chars
    cases rest with
    | nil => simp [chars]
    | cons c word => simp [chars]
  · rename_i other
    constructor
    · intro impossible
      cases impossible
    · rintro ⟨c, word, chars, _⟩
      exact absurd chars (other _)

/-- A tag that makes the names of copies unique: no name in the tree starts with it. -/
structure FreshTag (files : FileTree) (tag : String) : Prop where
  slashless : '/' ∉ tag.toList
  dotless : '.' ∉ tag.toList
  unused : ∀ place name, files.get? (place ++ [tag ++ name]) = none

theorem FreshTag.of_entries {files : FileTree} {tag : String}
    (plain : '/' ∉ tag.toList ∧ '.' ∉ tag.toList)
    (clear : ∀ entry ∈ files.entries, ∀ name ∈ entry.1, ¬tag.toList <+: name.toList) :
    FreshTag files tag := by
  refine ⟨plain.1, plain.2, fun place name => ?_⟩
  unfold FileTree.get?
  rw [if_neg (by simp), List.lookup_eq_none_iff]
  intro entry member
  have away : place ++ [tag ++ name] ≠ entry.1 := fun same =>
    clear entry member (tag ++ name) (by simp [← same]) (by simp)
  simpa using away

/-- Loading reads a file. -/
theorem Language.find_of_load {converters : Converters} {files : FileTree} {path : String}
    {language : Language} (loaded : Language.load converters files path = .ok language) :
    ∃ content, files.find path = .ok (.file content) := by
  apply FileTree.isFile_iff.mp
  cases there : files.isFile path with
  | true => rfl
  | false =>
      simp only [Language.load, Definition.read, there] at loaded
      cases loaded

namespace Registry

variable {r r' : Registry} {files files' : FileTree} {tag path : String}

/-! ## Checks -/

theorem bind_eq_ok {α β : Type} {x : Except LanguageError α} {f : α → Except LanguageError β}
    {b : β} : x >>= f = .ok b ↔ ∃ a, x = .ok a ∧ f a = .ok b := by
  cases x <;> simp [bind, Except.bind]

/-- A loop that only checks its items has checked them all if it ends. -/
theorem forIn_eq_ok {α : Type} {check : α → Except LanguageError (ForInStep Unit)}
    (goes : ∀ x, check x ≠ .ok (.done ())) {xs : List α}
    (passed : (forIn xs () fun x _ => check x) = .ok ()) :
    ∀ x ∈ xs, check x = .ok (.yield ()) := by
  induction xs with
  | nil => exact fun _ member => absurd member List.not_mem_nil
  | cons x xs ih =>
      rw [List.forIn_cons] at passed
      obtain ⟨step, first, later⟩ := bind_eq_ok.mp passed
      cases step with
      | done => exact absurd first (goes x)
      | yield => exact List.forall_mem_cons.mpr ⟨first, ih later⟩

theorem check_eq_ok {language : Language} (checked : r.check language = .ok ()) :
    r.mapping.languages.lookup language.name = none ∧ ∀ e ∈ language.extensions,
      isExtension e = true ∧ r.mapping.extensions.lookup e = none := by
  unfold check at checked
  cases taken : r.mapping.languages.lookup language.name with
  | some definition =>
      rw [taken] at checked
      cases checked
  | none =>
      rw [taken] at checked
      obtain ⟨_, passed, _⟩ := bind_eq_ok.mp checked
      refine ⟨rfl, fun e member => ?_⟩
      have passed := forIn_eq_ok ?_ passed e member
      · cases shape : isExtension e with
        | false =>
            rw [shape] at passed
            cases passed
        | true =>
            cases taken : r.mapping.extensions.lookup e with
            | none => exact ⟨rfl, rfl⟩
            | some definition =>
                rw [shape, taken] at passed
                cases passed
      · intro e
        cases isExtension e <;> cases r.mapping.extensions.lookup e <;>
          simp [bind, Except.bind, pure, Except.pure]

/-! ## Copies -/

/-- Where a registry keeps definitions. -/
def directory (r : Registry) : String :=
  Path.join r.root r.definitionsDirectory

/-- A definition has been copied under the name `stored`, to a place where nothing was. -/
structure Copied (r : Registry) (files : FileTree) (tag path stored : String) (content : Content)
    (place : Location) (files' : FileTree) : Prop where
  source : files.find path = .ok (.file content)
  named : ∃ name, Path.fileName? path = some name ∧ (stored = name ∨ stored = tag ++ name ∧
    (files.makeDirectories r.directory).1.has (Path.join r.directory name) = true)
  proper : Path.IsName stored
  led : files'.locate (Path.join r.directory stored) = .ok place
  empty : files.get? place = none
  copy : files'.get? place = some (.file content)
  preserves : files.Preserves files'

/-- All that storing a definition can do. -/
theorem store_cases (r : Registry) (files : FileTree) (tag path : String) :
    r.store files tag path = (files, .error (.badFileName path)) ∨
    (∃ made io, files.AddsDirectories made ∧
      r.store files tag path = (made, .error (.file io))) ∨
    ∃ name stored made files', Path.fileName? path = some name ∧
      files.AddsDirectories made ∧ made = (files.makeDirectories r.directory).1 ∧
      stored = (if made.has (Path.join r.directory name) then tag ++ name else name) ∧
      made.copy path (Path.join r.directory stored) = .ok files' ∧
      r.store files tag path = (files', .ok (r.definitionsDirectory ++ "/" ++ stored)) := by
  have adds := FileTree.AddsDirectories.makeDirectories files r.directory
  unfold store
  cases named : Path.fileName? path with
  | none => exact .inl rfl
  | some name =>
      simp only [← directory.eq_1]
      generalize files.makeDirectories r.directory = made at adds ⊢
      obtain ⟨made, result⟩ := made
      cases result with
      | error io => exact .inr (.inl ⟨made, io, adds, rfl⟩)
      | ok =>
          simp only
          generalize choice : (if made.has (Path.join r.directory name) then tag ++ name else name) =
            stored
          cases copied : made.copy path (Path.join r.directory stored) with
          | error io => exact .inr (.inl ⟨made, io, adds, rfl⟩)
          | ok files' =>
              exact .inr (.inr ⟨name, stored, made, files', rfl, adds, rfl, choice.symm, copied, rfl⟩)

theorem store_error {e : LanguageError}
    (outcome : r.store files tag path = (files', .error e)) :
    files.AddsDirectories files' ∧ ((∀ io, e ≠ .file io) → files' = files) := by
  obtain bad | ⟨made, io, adds, failed⟩ | ⟨_, _, _, _, _, _, _, _, _, done⟩ :=
    store_cases r files tag path
  · cases bad.symm.trans outcome
    exact ⟨.refl files, fun _ => rfl⟩
  · cases failed.symm.trans outcome
    exact ⟨adds, fun other => absurd rfl (other io)⟩
  · cases done.symm.trans outcome

theorem store_ok {content : Content} {definition : String}
    (found : files.find path = .ok (.file content))
    (outcome : r.store files tag path = (files', .ok definition)) :
    ∃ stored place, definition = r.definitionsDirectory ++ "/" ++ stored ∧
      (FreshTag files tag → Copied r files tag path stored content place files') := by
  obtain bad | ⟨_, _, _, failed⟩ | ⟨name, stored, made, _, named, adds, dirs, choice, copied, done⟩ :=
    store_cases r files tag path
  · cases bad.symm.trans outcome
  · cases failed.symm.trans outcome
  · cases done.symm.trans outcome
    obtain ⟨read, same, written⟩ := FileTree.copy_eq_ok copied
    cases (adds.preserves.find found).symm.trans same
    obtain ⟨place, led, free, plain, rfl⟩ := FileTree.writeContent_eq_ok written
    refine ⟨stored, place, rfl, fun tagged => ?_⟩
    have proper := Path.isName_of_fileName? named
    have rule : (files.get? place = none ∧ Path.IsName stored) ∧ (stored = name ∨
        stored = tag ++ name ∧ made.has (Path.join r.directory name) = true) := by
      cases taken : made.has (Path.join r.directory name) with
      | false =>
          rw [taken] at choice
          subst choice
          exact ⟨⟨adds.get?_eq_none (FileTree.get?_eq_none taken led plain), proper⟩, .inl rfl⟩
      | true =>
          rw [taken] at choice
          subst choice
          have proper := proper.tagged tagged.slashless
          obtain ⟨parent, rfl⟩ :=
            FileTree.locate_concat (proper.names_join r.directory) proper led
          exact ⟨⟨tagged.unused parent name, proper⟩, .inr ⟨rfl, rfl⟩⟩
    have preserves : files.Preserves (made.set place (.file content)) := by
      refine ⟨adds.workingDirectory, fun other entry there => ?_⟩
      have away : other ≠ place := fun same => by
        cases rule.1.1.symm.trans (same ▸ there)
      rw [FileTree.get?_set (FileTree.ne_root free), if_neg away]
      exact adds.preserves.entries other entry there
    exact ⟨found, ⟨name, named, dirs ▸ rule.2⟩, rule.1.2,
      (FileTree.Keeps.set free content).locate led, rule.1.1,
      by rw [FileTree.get?_set (FileTree.ne_root free), if_pos rfl], preserves⟩

/-! ## The whole upload -/

/-- The registry with a language whose definition is stored under a name. -/
def withLanguage (r : Registry) (language : Language) (stored : String) : Registry :=
  let definition := r.definitionsDirectory ++ "/" ++ stored
  { r with mapping := r.mapping.add language.name language.extensions definition }

/-- All that an upload can do: be refused before anything is written, fail when something is, or
    register the language. -/
theorem upload_cases (r : Registry) (files : FileTree) (tag path : String) :
    (∃ e, r.upload files tag path = (r, files, .error e)) ∨
    (∃ made io, (FreshTag files tag → files.Preserves made) ∧
      r.upload files tag path = (r, made, .error (.file io))) ∨
    ∃ language stored content place copied files',
      Language.load r.converters files path = .ok language ∧ r.check language = .ok () ∧
      (FreshTag files tag → Copied r files tag path stored content place copied) ∧
      copied.writeText r.mappingPath (r.withLanguage language stored).mapping.print = .ok files' ∧
      r.upload files tag path = (r.withLanguage language stored, files', .ok language.name) := by
  unfold upload
  cases loaded : Language.load r.converters files path with
  | error e => exact .inl ⟨e, rfl⟩
  | ok language =>
      simp only
      cases checked : r.check language with
      | error e => exact .inl ⟨e, rfl⟩
      | ok =>
          simp only
          cases outcome : r.store files tag path with
          | mk made result =>
              cases result with
              | error e =>
                  obtain ⟨adds, other⟩ := store_error outcome
                  by_cases failure : ∃ io, e = .file io
                  · obtain ⟨io, rfl⟩ := failure
                    exact .inr (.inl ⟨made, io, fun _ => adds.preserves, rfl⟩)
                  · rw [other (not_exists.mp failure)]
                    exact .inl ⟨e, rfl⟩
              | ok definition =>
                  obtain ⟨content, found⟩ := Language.find_of_load loaded
                  obtain ⟨stored, place, rfl, copied⟩ := store_ok found outcome
                  cases written : made.writeText r.mappingPath (r.mapping.add language.name
                      language.extensions (r.definitionsDirectory ++ "/" ++ stored)).print with
                  | error io =>
                      exact .inr (.inl ⟨made, io, fun tagged => (copied tagged).preserves,
                        by simp only [written]⟩)
                  | ok files' =>
                      exact .inr (.inr ⟨language, stored, content, place, made, files', rfl, checked,
                        copied, written, by simp only [written]; rfl⟩)

/-- What an accepted upload does to the registry `r` over `files`. -/
structure Registers (r : Registry) (files : FileTree) (tag path : String) (language : Language)
    (r' : Registry) (files' : FileTree) : Prop where
  loaded : Language.load r.converters files path = .ok language
  newName : r.mapping.languages.lookup language.name = none
  newExtensions : ∀ e ∈ language.extensions, r.mapping.extensions.lookup e = none
  wellFormed : ∀ e ∈ language.extensions, ∃ c word, e.toList = '.' :: c :: word ∧
    ∀ d ∈ c :: word, Text.isWordChar d = true
  /-- The name and the extensions, and nothing else, are led to one new file. -/
  added : ∃ stored,
    (∀ key, r'.mapping.languages.lookup key = if key = language.name then
      some (r.definitionsDirectory ++ "/" ++ stored) else r.mapping.languages.lookup key) ∧
    (∀ key, r'.mapping.extensions.lookup key = if key ∈ language.extensions then
      some (r.definitionsDirectory ++ "/" ++ stored) else r.mapping.extensions.lookup key) ∧
    (FreshTag files tag → ∃ place content, files.find path = .ok (.file content) ∧
      files.get? place = none ∧ files'.locate (Path.join r.directory stored) = .ok place ∧
      (files'.get? place = some (.file content) ∨ files'.locate r.mappingPath = .ok place))
  ordered : r'.mapping.Ordered
  settings : r' = { r with mapping := r'.mapping }
  /-- Only the mapping file may have been there before and be another now. -/
  kept : FreshTag files tag → ∀ place entry, files.get? place = some entry →
    files'.get? place = some entry ∨ files'.locate r.mappingPath = .ok place
  /-- The registry opens again as it is. -/
  reopens : ∀ mappingFile, r.mappingPath = Path.join r.root mappingFile →
    openAt files' r.root mappingFile r.definitionsDirectory =
      (files', .ok { r' with converters := .standard })

theorem openAt_of_find {root mappingFile : String} {m : Mapping} (ordered : m.Ordered)
    (found : files.find (Path.join root mappingFile) = .ok (.file (.text m.print)))
    (definitionsDirectory : String) :
    openAt files root mappingFile definitionsDirectory =
      (files, .ok ⟨root, Path.join root mappingFile, definitionsDirectory, m, .standard⟩) := by
  have there := FileTree.isFile_iff.mpr ⟨_, found⟩
  simp only [openAt, there, if_true, FileTree.readText_of_find found, Except.mapError, bind,
    Except.bind, Mapping.parse_print ordered]
  rfl

/-- An upload that is refused changes nothing but what failing files leave behind; one that is
    accepted registers its language, in memory as on disk, and nothing else. -/
theorem upload_all_or_nothing (r : Registry) (files : FileTree) (tag path : String)
    (ordered : r.mapping.Ordered) :
    match r.upload files tag path with
    | (r', files', .error e) => r' = r ∧ ((∀ io, e ≠ .file io) → files' = files)
    | (r', files', .ok name) =>
      ∃ language, language.name = name ∧ Registers r files tag path language r' files' := by
  obtain ⟨e, refused⟩ | ⟨made, io, _, failed⟩ |
    ⟨language, stored, content, place, copied, files', loaded, checked, copy, written, done⟩ :=
      upload_cases r files tag path
  · rw [refused]
    exact ⟨rfl, fun _ => rfl⟩
  · rw [failed]
    exact ⟨rfl, fun other => absurd rfl (other io)⟩
  · rw [done]
    obtain ⟨newName, extensions⟩ := check_eq_ok checked
    obtain ⟨keeps, kept⟩ := FileTree.writeContent_keeps written
    have found := FileTree.find_writeContent written
    have ordered' : (r.withLanguage language stored).mapping.Ordered := ordered.add _ _ _
    refine ⟨language, rfl, ?_⟩
    exact {
      loaded
      newName
      newExtensions := fun e member => (extensions e member).2
      wellFormed := fun e member => (isExtension_iff e).mp (extensions e member).1
      added := ⟨stored, Mapping.lookup_languages_add _ _ _ _,
        Mapping.lookup_extensions_add _ _ _ _, fun tagged =>
          ⟨place, content, (copy tagged).source, (copy tagged).empty,
            keeps.locate (copy tagged).led, kept place _ (copy tagged).copy⟩⟩
      ordered := ordered'
      settings := rfl
      kept := fun tagged other entry there =>
        kept other entry ((copy tagged).preserves.entries other entry there)
      reopens := fun mappingFile same => by
        rw [openAt_of_find ordered' (same ▸ found), ← same]
        rfl }

/-- A second definition of the same file name is copied under another. -/
theorem upload_all_or_nothing_taken : ∃ (r r' : Registry) (files files' : FileTree),
    FreshTag files "1-" ∧ r.upload files "1-" "c.json" = (r', files', .ok "c") ∧
      r'.mapping = ⟨[(".c", "d/1-c.json"), (".k", "d/c.json")],
        [("c", "d/1-c.json"), ("k", "d/c.json")]⟩ ∧
      ∃ language, language.name = "c" ∧ Registers r files "1-" "c.json" language r' files' := by
  obtain ⟨r, files, ordered, tagged, accepted, mapping⟩ : ∃ (r : Registry) (files : FileTree),
      r.mapping.Ordered ∧ FreshTag files "1-" ∧
        (r.upload files "1-" "c.json").2.2 = .ok "c" ∧
        (r.upload files "1-" "c.json").1.mapping = ⟨[(".c", "d/1-c.json"), (".k", "d/c.json")],
          [("c", "d/1-c.json"), ("k", "d/c.json")]⟩ := by
    let definition := "\x7b\"languageName\":\"c\",\"fileExtensions\":[\".c\"]\x7d"
    let mapping : Mapping := ⟨[(".k", "d/c.json")], [("k", "d/c.json")]⟩
    refine ⟨⟨"", "languages.json", "d", mapping, .standard⟩, { entries := [(["d"], .directory),
      (["d", "c.json"], .file (.text "")), (["c.json"], .file (.text definition))] }, ?_⟩
    exact ⟨by decide, .of_entries (by decide) (by decide +kernel), by decide +kernel,
      by decide +kernel⟩
  have law := upload_all_or_nothing r files "1-" "c.json" ordered
  cases outcome : r.upload files "1-" "c.json" with
  | mk r' rest =>
      obtain ⟨files', result⟩ := rest
      rw [outcome] at law accepted mapping
      cases accepted
      exact ⟨r, r', files, files', tagged, outcome, mapping, law⟩

end Registry

end Highlight
