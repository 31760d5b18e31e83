import Highlight.Proofs.Registry.Upload

/-! # Uploaded languages are found again

A definition is copied to one path and looked up under another. Both lead to the same file, and the
file is read in the same format, with two exceptions: a definitions directory without a name, and a
file of the name `.json` that has to be renamed.
-/

namespace Highlight

/-- A language depends on the content and the format of its file only. -/
theorem Language.load_congr {files files' : FileTree} {path other : String} {content : Content}
    (found : files.find path = .ok (.file content))
    (found' : files'.find other = .ok (.file content))
    (format : Format.ofPath other = Format.ofPath path) (converters : Converters) :
    Language.load converters files' other = Language.load converters files path := by
  have text : files'.readText other = files.readText path := by
    unfold FileTree.readText
    rw [FileTree.readContent_eq_ok.mpr found, FileTree.readContent_eq_ok.mpr found']
  have read : Definition.read files' other = Definition.read files path := by
    simp only [Definition.read, FileTree.isFile_iff.mpr ⟨_, found⟩,
      FileTree.isFile_iff.mpr ⟨_, found'⟩, if_true, text, format]
  rw [Language.load, read, Language.load]

namespace Registry

variable {r r' : Registry} {files files' : FileTree} {tag path : String}

/-! ## The two paths of a copy -/

/-- Where a stored definition is looked up. -/
def lookUpPath (r : Registry) (stored : String) : String :=
  Path.join r.root (r.definitionsDirectory ++ "/" ++ stored)

theorem names_lookUpPath (below : r.definitionsDirectory ≠ "") {stored : String}
    (proper : Path.IsName stored) :
    Path.names (r.lookUpPath stored) = Path.names r.directory ++ [stored] := by
  unfold lookUpPath directory
  rw [Path.names_join, Path.names_join, String.append_assoc, Path.isAbsolute_append below,
    ← String.append_assoc, Path.names_append, proper.names]
  split
  · rfl
  · rw [List.append_assoc]

theorem locate_lookUpPath (below : r.definitionsDirectory ≠ "") {stored : String}
    (proper : Path.IsName stored) (files : FileTree) :
    files.locate (r.lookUpPath stored) = files.locate (Path.join r.directory stored) := by
  apply FileTree.locate_congr
  · exact Path.join_ne_empty (by simp [below]) r.root
  · exact Path.join_ne_empty proper.nonempty r.directory
  · unfold lookUpPath directory
    rw [Path.isAbsolute_join, Path.isAbsolute_join, Path.isAbsolute_join, String.append_assoc,
      Path.isAbsolute_append below, proper.relative, Bool.false_or]
  · rw [names_lookUpPath below proper, proper.names_join]

theorem format_lookUpPath (below : r.definitionsDirectory ≠ "") {stored : String}
    {content : Content} {place : Location}
    (copied : Copied r files tag path stored content place files') (dotless : '.' ∉ tag.toList)
    (visible : ∀ name, Path.fileName? path = some name →
      name.toList.map Char.toLower = ".json".toList →
        (files.makeDirectories r.directory).1.has (Path.join r.directory name) = false) :
    Format.ofPath (r.lookUpPath stored) = Format.ofPath path := by
  have target := Path.fileName?_of_names (names_lookUpPath below copied.proper) copied.proper
  obtain ⟨name, named, rfl | ⟨rfl, taken⟩⟩ := copied.named
  · exact Format.ofPath_congr (target.trans named.symm)
  · refine Format.ofPath_tagged dotless named target fun hidden => ?_
    rw [visible name named hidden] at taken
    cases taken

/-! ## Runs of a registry -/

/-- A registry that has been opened, and whose mapping file has been there since. -/
inductive Opened : Registry → FileTree → Prop
  | opened {start files : FileTree} {root mappingFile definitionsDirectory : String} {r : Registry}
      (done : openAt start root mappingFile definitionsDirectory = (files, .ok r)) : Opened r files
  | loader {r : Registry} {files : FileTree} (converters : Converters) (before : Opened r files) :
      Opened { r with converters } files
  | uploaded {r : Registry} {files : FileTree} {tag : String} (tagged : FreshTag files tag)
      (path : String) (before : Opened r files) :
      Opened (r.upload files tag path).1 (r.upload files tag path).2.1
  | changed {r : Registry} {files files' : FileTree} (there : files'.isFile r.mappingPath = true)
      (before : Opened r files) : Opened r files'

/-- Any number of uploads, accepted or not, and nothing else. -/
inductive Uploads (r : Registry) (files : FileTree) : Registry → FileTree → Prop
  | none : Uploads r files r files
  | more {r' : Registry} {files' : FileTree} {tag : String} (before : Uploads r files r' files')
      (tagged : FreshTag files' tag) (path : String) :
      Uploads r files (r'.upload files' tag path).1 (r'.upload files' tag path).2.1

/-- What uploads never undo. -/
structure Advances (r : Registry) (files : FileTree) (r' : Registry) (files' : FileTree) :
    Prop where
  settings : r' = { r with mapping := r'.mapping }
  languages : ∀ key definition, r.mapping.languages.lookup key = some definition →
    r'.mapping.languages.lookup key = some definition
  extensions : ∀ key definition, r.mapping.extensions.lookup key = some definition →
    r'.mapping.extensions.lookup key = some definition
  keeps : files.Keeps files'
  kept : ∀ place entry, files.get? place = some entry →
    files'.get? place = some entry ∨ files'.locate r.mappingPath = .ok place
  mappingFile : files.isFile r.mappingPath = true → files'.isFile r.mappingPath = true

theorem Advances.refl (r : Registry) (files : FileTree) : Advances r files r files :=
  ⟨rfl, fun _ _ => id, fun _ _ => id, .refl files, fun _ _ => .inl, id⟩

theorem Advances.trans {r'' : Registry} {files'' : FileTree} (first : Advances r files r' files')
    (second : Advances r' files' r'' files'') : Advances r files r'' files'' where
  settings := by rw [second.settings, first.settings]
  languages key definition found := second.languages _ _ (first.languages key definition found)
  extensions key definition found := second.extensions _ _ (first.extensions key definition found)
  keeps := first.keeps.trans second.keeps
  kept place entry found := by
    have same : r'.mappingPath = r.mappingPath := by rw [first.settings]
    cases first.kept place entry found with
    | inl there => exact same ▸ second.kept place entry there
    | inr led => exact .inr (second.keeps.locate led)
  mappingFile there := by
    have same : r'.mappingPath = r.mappingPath := by rw [first.settings]
    exact same ▸ second.mappingFile (same ▸ first.mappingFile there)

theorem advances_of_preserves (preserves : files.Preserves files') (r : Registry) :
    Advances r files r files' where
  settings := rfl
  languages _ _ := id
  extensions _ _ := id
  keeps := preserves.keeps
  kept place entry found := .inl (preserves.entries place entry found)
  mappingFile there := by
    obtain ⟨content, found⟩ := FileTree.isFile_iff.mp there
    exact FileTree.isFile_iff.mpr ⟨content, preserves.find found⟩

theorem advances_upload (r : Registry) (tagged : FreshTag files tag) (path : String) :
    Advances r files (r.upload files tag path).1 (r.upload files tag path).2.1 := by
  obtain ⟨e, refused⟩ | ⟨made, io, preserves, failed⟩ |
    ⟨language, stored, content, place, copied, files', _, checked, copy, written, done⟩ :=
      upload_cases r files tag path
  · rw [refused]
    exact .refl r files
  · rw [failed]
    exact advances_of_preserves (preserves tagged) r
  · rw [done]
    have preserves := (copy tagged).preserves
    obtain ⟨newName, newExtensions⟩ := check_eq_ok checked
    obtain ⟨keeps, kept⟩ := FileTree.writeContent_keeps written
    have found := FileTree.find_writeContent written
    exact {
      settings := rfl
      languages := fun key definition there => by
        have other : key ≠ language.name := fun same => by
          cases newName.symm.trans (same ▸ there)
        exact (Mapping.lookup_languages_add _ _ _ _ key).trans (if_neg other ▸ there)
      extensions := fun key definition there => by
        have other : key ∉ language.extensions := fun member => by
          cases (newExtensions key member).2.symm.trans there
        exact (Mapping.lookup_extensions_add _ _ _ _ key).trans (if_neg other ▸ there)
      keeps := preserves.keeps.trans keeps
      kept := fun place entry there => kept place entry (preserves.entries place entry there)
      mappingFile := fun _ => FileTree.isFile_iff.mpr ⟨_, found⟩ }

theorem Uploads.advances (uploads : Uploads r files r' files') : Advances r files r' files' := by
  induction uploads with
  | none => exact .refl r files
  | more before tagged path ih => exact ih.trans (advances_upload _ tagged path)

theorem openAt_ok {root mappingFile definitionsDirectory : String} {start : FileTree}
    (done : openAt start root mappingFile definitionsDirectory = (files, .ok r)) :
    files.isFile r.mappingPath = true ∧ r.mapping.Ordered := by
  unfold openAt at done
  cases there : start.isFile (Path.join root mappingFile) with
  | true =>
      simp only [there, if_true] at done
      obtain ⟨rfl, outcome⟩ := Prod.mk.inj done
      obtain ⟨text, _, outcome⟩ := bind_eq_ok.mp outcome
      obtain ⟨mapping, parsed, outcome⟩ := bind_eq_ok.mp outcome
      cases outcome
      exact ⟨there, Mapping.ordered_parse parsed⟩
  | false =>
      simp only [there, Bool.false_eq_true, if_false] at done
      split at done
      · cases done
      · split at done
        · cases done
        · rename_i written
          cases done
          exact ⟨FileTree.isFile_iff.mpr ⟨_, FileTree.find_writeContent written⟩, .nil, .nil⟩

theorem Opened.mappingFile (opened : Opened r files) : files.isFile r.mappingPath = true := by
  induction opened with
  | opened done => exact (openAt_ok done).1
  | loader converters before ih => exact ih
  | @uploaded r files tag tagged path before ih =>
      have advances := advances_upload r tagged path
      have same : (r.upload files tag path).1.mappingPath = r.mappingPath := by
        rw [advances.settings]
      exact same ▸ advances.mappingFile ih
  | changed there before ih => exact there

/-- The tables of a registry stay in order, whatever file they were read from. -/
theorem Opened.ordered (opened : Opened r files) : r.mapping.Ordered := by
  induction opened with
  | opened done => exact (openAt_ok done).2
  | loader converters before ih => exact ih
  | @uploaded r files tag tagged path before ih =>
      obtain ⟨e, refused⟩ | ⟨made, io, _, failed⟩ | ⟨_, _, _, _, _, _, _, _, _, _, done⟩ :=
        upload_cases r files tag path
      · rw [refused]
        exact ih
      · rw [failed]
        exact ih
      · rw [done]
        exact ih.add _ _ _
  | changed there before ih => exact ih

/-! ## Looking up -/

/-- A copy is found where it is looked up, however many uploads follow. -/
theorem find_lookUpPath (there : files.isFile r.mappingPath = true)
    (below : r.definitionsDirectory ≠ "") {stored : String} {content : Content}
    {place : Location} {copied : FileTree}
    (copy : Copied r files tag path stored content place copied) {text : String}
    (written : copied.writeText r.mappingPath text = .ok files') {r₁ r₂ : Registry}
    {after : FileTree} (later : Advances r₁ files' r₂ after)
    (same : r₁.mappingPath = r.mappingPath) :
    after.find (r.lookUpPath stored) = .ok (.file content) := by
  obtain ⟨keeps, kept⟩ := FileTree.writeContent_keeps written
  -- the mapping file was there before the copy, so it stands elsewhere
  obtain ⟨_, found⟩ := FileTree.isFile_iff.mp there
  obtain ⟨target, led, filled, _⟩ := FileTree.find_eq_file.mp found
  have apart (also : after.locate r.mappingPath = .ok place) : False := by
    have same := ((copy.preserves.keeps.trans keeps).trans later.keeps).locate led
    cases same.symm.trans also
    cases copy.empty.symm.trans filled
  have holds : after.get? place = some (.file content) := by
    cases kept place _ copy.copy with
    | inr led => exact (apart (later.keeps.locate led)).elim
    | inl there =>
        cases later.kept place _ there with
        | inl there => exact there
        | inr led => exact (apart (same ▸ led)).elim
  have target := (keeps.trans later.keeps).locate copy.led
  rw [← locate_lookUpPath below copy.proper] at target
  obtain ⟨front, joined⟩ := Path.join_eq_append r.root (r.definitionsDirectory ++ "/" ++ stored)
  have plain : FileTree.wantsDirectory (r.lookUpPath stored) = false := by
    rw [lookUpPath, joined, ← String.append_assoc]
    exact FileTree.wantsDirectory_append copy.proper _
  exact FileTree.find_eq_file.mpr ⟨place, target, holds, plain⟩

/-- What has been uploaded is found by its name and by each of its extensions, also after further
    uploads, unless the definitions directory has no name or the copy of a file `.json` had to be
    renamed. -/
theorem uploaded_language_found {r r' later : Registry} {files files' after : FileTree}
    {tag path name : String} (opened : Opened r files) (tagged : FreshTag files tag)
    (below : r.definitionsDirectory ≠ "")
    (visible : ∀ name, Path.fileName? path = some name →
      name.toList.map Char.toLower = ".json".toList →
        (files.makeDirectories r.directory).1.has (Path.join r.directory name) = false)
    (outcome : r.upload files tag path = (r', files', .ok name))
    (further : Uploads r' files' later after) :
    ∃ language, Language.load r.converters files path = .ok language ∧ language.name = name ∧
      later.byName after name = .ok (some language) ∧
      ∀ e ∈ language.extensions, later.forExtension after e = .ok (some language) := by
  obtain ⟨e, refused⟩ | ⟨made, io, _, failed⟩ |
    ⟨language, stored, content, place, copied, _, loaded, checked, copy, written, done⟩ :=
      upload_cases r files tag path
  · cases refused.symm.trans outcome
  · cases failed.symm.trans outcome
  · cases done.symm.trans outcome
    have copy := copy tagged
    have advances := further.advances
    have found := find_lookUpPath opened.mappingFile below copy written advances rfl
    have format := format_lookUpPath below copy tagged.dotless visible
    have settings : later = { r with mapping := later.mapping } := advances.settings
    have reads (table : TextMap) (key : String)
        (led : table.lookup key = some (r.definitionsDirectory ++ "/" ++ stored)) :
        later.load after table key = .ok (some language) := by
      unfold Registry.load
      rw [led, settings]
      have again := Language.load_congr copy.source found format r.converters
      rw [loaded] at again
      exact congrArg (Except.map some) again
    refine ⟨language, loaded, rfl, reads _ _ (advances.languages _ _ ?_),
      fun e member => reads _ _ (advances.extensions _ _ ?_)⟩
    · exact (Mapping.lookup_languages_add _ _ _ _ _).trans (if_pos rfl)
    · exact (Mapping.lookup_extensions_add _ _ _ _ _).trans (if_pos member)

/-- Two uploads are found in the directory `d`. One into a directory without a name is not, nor is
    a second file `.json`. -/
theorem uploaded_language_lost :
    (∃ (r later : Registry) (files after : FileTree) (language : Language), Opened r files ∧
      r.definitionsDirectory = "d" ∧ later.names = ["c", "k"] ∧ language.name = "c" ∧
        later.byName after "c" = .ok (some language)) ∧
    (∃ (r r' : Registry) (files files' : FileTree), Opened r files ∧ r.definitionsDirectory = "" ∧
      r.upload files "1-" "s/c.json" = (r', files', .ok "c") ∧
        r'.byName files' "c" = .error (.notFound "/c.json")) ∧
    ∃ (r r' : Registry) (files files' : FileTree), Opened r files ∧ r.definitionsDirectory = "d" ∧
      r.upload files "1-" "s/.json" = (r', files', .ok "c") ∧
        r'.byName files' "c" = .error .malformedJson := by
  let definition (name : String) : Entry :=
    .file (.text ("\x7b\"languageName\":\"" ++ name ++ "\"\x7d"))
  let tree (entries : List (Location × Entry)) : FileTree :=
    ⟨[(["w"], .directory), (["w", "m"], .file (.text ({} : Mapping).print)),
      (["w", "s"], .directory)] ++ entries, ["w"]⟩
  have opened (entries : List (Location × Entry)) (directory : String) :
      Opened ⟨"", "m", directory, {}, .standard⟩ (tree entries) := by
    have found : (tree entries).find (Path.join "" "m") =
        .ok (.file (.text ({} : Mapping).print)) :=
      FileTree.find_eq_file.mpr ⟨["w", "m"], rfl, rfl, rfl⟩
    exact .opened (openAt_of_find (m := {}) (by decide) found directory)
  have run {r : Registry} {files : FileTree} {path name : String}
      (accepted : (r.upload files "1-" path).2.2 = .ok name) : r.upload files "1-" path =
        ((r.upload files "1-" path).1, (r.upload files "1-" path).2.1, .ok name) := by
    rw [← accepted]
  have lost {x : Except LanguageError (Option Language)} {e : LanguageError}
      (failed : (x.map fun _ => ()) = .error e) : x = .error e := by
    cases x <;> simp_all [Except.map]
  refine ⟨?_, ?_, ?_⟩
  · obtain ⟨r, files, opened, tagged, directory, accepted, again, names⟩ :
        ∃ (r : Registry) (files : FileTree), Opened r files ∧ FreshTag files "1-" ∧
          r.definitionsDirectory = "d" ∧ (r.upload files "1-" "s/c.json").2.2 = .ok "c" ∧
          FreshTag (r.upload files "1-" "s/c.json").2.1 "2-" ∧
          ((r.upload files "1-" "s/c.json").1.upload (r.upload files "1-" "s/c.json").2.1 "2-"
            "s/k.json").1.names = ["c", "k"] := by
      refine ⟨_, _, opened [(["w", "s", "c.json"], definition "c"),
        (["w", "s", "k.json"], definition "k")] "d", ?_, rfl, ?_, ?_, ?_⟩
      · exact .of_entries (by decide) (by decide +kernel)
      · decide +kernel
      · exact .of_entries (by decide) (by decide +kernel)
      · decide +kernel
    have visible (name : String) (named : Path.fileName? "s/c.json" = some name)
        (hidden : name.toList.map Char.toLower = ".json".toList) :
        (files.makeDirectories r.directory).1.has (Path.join r.directory name) = false := by
      have same : Path.fileName? "s/c.json" = some "c.json" := by decide +kernel
      cases same.symm.trans named
      exact absurd hidden (by decide)
    obtain ⟨language, _, named, found, _⟩ := uploaded_language_found opened tagged
      (by rw [directory]; decide) visible (run accepted) (.more .none again "s/k.json")
    exact ⟨r, _, files, _, language, opened, directory, names, named, found⟩
  · have start := opened [(["w", "s", "c.json"], definition "c")] ""
    exact ⟨_, _, _, _, start, rfl, run (by decide +kernel), lost (by decide +kernel)⟩
  · have start := opened [(["w", "s", ".json"], .file (.text "languageName='c'")),
      (["w", "d"], .directory), (["w", "d", ".json"], .file (.text ""))] "d"
    exact ⟨_, _, _, _, start, rfl, run (by decide +kernel), lost (by decide +kernel)⟩

end Registry

end Highlight
