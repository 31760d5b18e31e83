import Highlight.Proofs.Registry.Upload

/-! # Languages by file name

The language of a file is looked up under what stands behind the last dot of its name. What may be
registered as an extension and what is cut off a file name are two rules of their own; they agree,
so that every registered extension is found on files of any name in any directory.
-/

namespace Highlight

/-- The extension of a file is what stands behind the last dot of its name, if that dot is not in
    front. -/
theorem Path.extension?_eq_some_iff {path after : String} : extension? path = some after ↔
    ∃ stem, stem ≠ "" ∧ fileName? path = some (stem ++ "." ++ after) ∧ '.' ∉ after.toList := by
  unfold extension?
  constructor
  · intro found
    split at found
    · cases found
    · rename_i before rest filled cut
      obtain ⟨name, named, cut⟩ := Option.bind_eq_some_iff.mp cut
      obtain ⟨chars, free⟩ := Text.splitAtLast?_eq_some_iff.mp cut
      obtain rfl := Option.some.inj found
      refine ⟨String.ofList before, ?_, ?_, by simpa using free⟩
      · intro empty
        exact filled (by simpa using empty)
      · rw [named, Option.some.injEq, ← String.toList_inj]
        simp [chars]
    · cases found
  · rintro ⟨stem, filled, named, free⟩
    have cut : Text.splitAtLast? '.' (stem ++ "." ++ after).toList =
        some (stem.toList, after.toList) :=
      Text.splitAtLast?_eq_some_iff.mpr ⟨by simp, free⟩
    rw [named, Option.bind_some, cut]
    cases chars : stem.toList with
    | nil => exact absurd (String.toList_eq_nil_iff.mp chars) filled
    | cons c rest => exact congrArg some String.ofList_toList

namespace Registry

/-- Files of the path are recognised by what the mapping has under the key. -/
def Consults (path key : String) : Prop :=
  ∀ (r : Registry) (files : FileTree), r.forPath files path = r.forExtension files key

/-- A mapping may hold any one key and no other. -/
theorem exists_only (key : String) : ∃ (r : Registry) (files : FileTree),
    r.forExtension files key ≠ .ok none ∧
      ∀ other ≠ key, r.forExtension files other = .ok none := by
  refine ⟨⟨"", "", "", { extensions := [(key, "x")] }, []⟩, {}, ?_, fun other apart => ?_⟩
  · simp only [forExtension, load, List.lookup_cons, beq_self_eq_true]
    exact fun h => nomatch h
  · simp only [forExtension, load, List.lookup_cons, beq_false_of_ne apart, List.lookup_nil]

theorem forPath_eq_none {path : String} (bare : Path.extension? path = none) (r : Registry)
    (files : FileTree) : r.forPath files path = .ok none := by
  simp only [forPath, bare]

theorem consults_iff_extension {path key : String} :
    Consults path key ↔ ∃ after, Path.extension? path = some after ∧ key = "." ++ after := by
  constructor
  · intro consults
    obtain ⟨r, files, there, elsewhere⟩ := exists_only key
    have same := consults r files
    cases found : Path.extension? path with
    | none => exact absurd (same.symm.trans (forPath_eq_none found r files)) there
    | some after =>
        refine ⟨after, rfl, ?_⟩
        by_contra apart
        simp only [forPath, found] at same
        exact there (same.symm.trans (elsewhere _ (Ne.symm apart)))
  · rintro ⟨after, found, rfl⟩ r files
    simp only [forPath, found]

theorem isWordChar_separator {c : Char} (separator : c = '.' ∨ c = '/') :
    Text.isWordChar c = false := by
  rcases separator with rfl | rfl <;> decide +kernel

/-- The characters that separate names, and a name from its extension, are in no extension. -/
theorem exists_word {extension : String} (accepted : isExtension extension = true) :
    ∃ word, extension = "." ++ word ∧ word ≠ "" ∧ '.' ∉ word.toList ∧ '/' ∉ word.toList := by
  obtain ⟨c, word, chars, proper⟩ := (isExtension_iff extension).mp accepted
  have other {d : Char} (strange : Text.isWordChar d = false) : d ∉ c :: word := by
    intro member
    rw [proper d member] at strange
    cases strange
  refine ⟨String.ofList (c :: word), ?_, by simp, ?_, ?_⟩
  · rw [← String.toList_inj, chars]
    simp
  · rw [String.toList_ofList]
    exact other (isWordChar_separator (.inl rfl))
  · rw [String.toList_ofList]
    exact other (isWordChar_separator (.inr rfl))

/-- A name that ends in an extension is neither of the two names that stand for directories. -/
theorem isName_append {stem extension : String} (accepted : isExtension extension = true)
    (slashless : '/' ∉ stem.toList) : Path.IsName (stem ++ extension) := by
  obtain ⟨word, rfl, filled, dotless, slashless'⟩ := exists_word accepted
  obtain ⟨c, member⟩ := List.exists_mem_of_ne_nil _ (mt String.toList_eq_nil_iff.mp filled)
  have solid : c ≠ '.' := by
    rintro rfl
    exact dotless member
  have member : c ∈ (stem ++ ("." ++ word)).toList := by simp [member]
  refine ⟨?_, by simp [slashless, slashless'], ?_, ?_⟩
  · intro empty
    simp [empty] at member
  · intro same
    simp [same, solid] at member
  · intro same
    simp [same, solid] at member

theorem consults_of_fileName? {path stem extension : String}
    (accepted : isExtension extension = true) (filled : stem ≠ "")
    (named : Path.fileName? path = some (stem ++ extension)) : Consults path extension := by
  obtain ⟨word, rfl, -, dotless, -⟩ := exists_word accepted
  rw [← String.append_assoc] at named
  have found := Path.extension?_eq_some_iff.mpr ⟨stem, filled, named, dotless⟩
  exact consults_iff_extension.mpr ⟨word, found, rfl⟩

/-- A registered extension is found on a file of any name in any directory, whatever dots are in
    them. Under which key a path is looked up, if under any, depends on its file name alone: it is
    the last dot with all that stands behind it, unless nothing stands in front of it. -/
theorem files_detected_by_extension :
    (∀ extension directory stem, isExtension extension = true → stem ≠ "" → '/' ∉ stem.toList →
      Consults (directory ++ "/" ++ stem ++ extension) extension ∧
        Consults (stem ++ extension) extension) ∧
    (∀ path, (∃ key, Consults path key) ∨
      ∀ (r : Registry) (files : FileTree), r.forPath files path = .ok none) ∧
    ∀ path key, Consults path key ↔ ∃ stem after, stem ≠ "" ∧
      Path.fileName? path = some (stem ++ key) ∧ key = "." ++ after ∧ '.' ∉ after.toList := by
  refine ⟨?_, ?_, ?_⟩
  · intro extension directory stem accepted filled slashless
    have name := isName_append accepted slashless
    have alone : Path.names (stem ++ extension) = [] ++ [stem ++ extension] := name.names
    have below : Path.names (directory ++ "/" ++ stem ++ extension) =
        Path.names directory ++ [stem ++ extension] := by
      rw [String.append_assoc, Path.names_append, name.names]
    exact ⟨consults_of_fileName? accepted filled (Path.fileName?_of_names below name),
      consults_of_fileName? accepted filled (Path.fileName?_of_names alone name)⟩
  · intro path
    cases found : Path.extension? path with
    | none => exact .inr (forPath_eq_none found)
    | some after => exact .inl ⟨_, consults_iff_extension.mpr ⟨after, found, rfl⟩⟩
  · intro path key
    simp only [consults_iff_extension, Path.extension?_eq_some_iff]
    constructor
    · rintro ⟨after, ⟨stem, filled, named, free⟩, rfl⟩
      exact ⟨stem, after, filled, by rwa [← String.append_assoc], rfl, free⟩
    · rintro ⟨stem, after, filled, named, rfl, free⟩
      exact ⟨after, ⟨stem, filled, by rwa [String.append_assoc], free⟩, rfl⟩

/-- A dot before the extension, and another in the directory. -/
theorem dotted_file_detected : isExtension ".c" = true ∧ Consults "a.b/..c" ".c" := by
  have accepted : isExtension ".c" = true := by decide +kernel
  obtain ⟨found, -⟩ := files_detected_by_extension.1 ".c" "a.b" "." accepted (by decide) (by decide)
  exact ⟨accepted, found⟩

end Registry

end Highlight
