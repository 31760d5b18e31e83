import Highlight.Language.Definition
import Highlight.Proofs.Text.Cutting

/-! # Names of joined paths

What a joined path leads to depends only on whether it starts at the root and on its names, and both
come from its two parts. So a path may be put together in any order of joining.
-/

namespace Highlight

namespace Path

/-! ## Names -/

/-- What a directory may hold something under. -/
structure IsName (name : String) : Prop where
  nonempty : name ≠ ""
  slashless : '/' ∉ name.toList
  ne_dot : name ≠ "."
  ne_dots : name ≠ ".."

theorem names_append (base path : String) : names (base ++ "/" ++ path) = names base ++ names path := by
  have chars : (base ++ "/" ++ path).toList = base.toList ++ '/' :: path.toList := by simp
  rw [names, chars, Text.splitOn_append, List.filter_append, List.map_append]
  rfl

theorem names_slash (base : String) : names (base ++ "/") = names base := by
  have empty := names_append base ""
  rwa [String.append_empty, show names "" = [] from rfl, List.append_nil] at empty

/-- A path below another has the names of both, unless it starts at the root. -/
theorem names_join (base path : String) :
    names (join base path) = if isAbsolute path then names path else names base ++ names path := by
  unfold join
  split
  · rfl
  · split
    · rename_i ending
      obtain empty | slash := Bool.or_eq_true_iff.mp ending
      · have empty : base = "" := String.isEmpty_iff.mp empty
        rw [empty, String.empty_append]
        rfl
      · obtain ⟨front, split⟩ := List.getLast?_eq_some_iff.mp (beq_iff_eq.mp slash)
        have base_eq : base = String.ofList front ++ "/" := by
          apply String.toList_inj.mp
          simp [split]
        rw [base_eq, names_append, names_slash]
    · exact names_append base path

theorem isAbsolute_append {base : String} (nonempty : base ≠ "") (path : String) :
    isAbsolute (base ++ path) = isAbsolute base := by
  cases chars : base.toList with
  | nil => exact absurd (String.toList_eq_nil_iff.mp chars) nonempty
  | cons c rest => simp [isAbsolute, chars]

theorem isAbsolute_join (base path : String) :
    isAbsolute (join base path) = (isAbsolute path || isAbsolute base) := by
  unfold join
  split
  · rename_i absolute
    rw [absolute, Bool.true_or]
  · rename_i relative
    by_cases empty : base = ""
    · simp [empty, isAbsolute]
    · rw [Bool.not_eq_true] at relative
      split
      · rw [isAbsolute_append empty, relative, Bool.false_or]
      · rw [String.append_assoc, isAbsolute_append empty, relative, Bool.false_or]

theorem IsName.relative {name : String} (h : IsName name) : isAbsolute name = false := by
  cases chars : name.toList with
  | nil => exact absurd (String.toList_eq_nil_iff.mp chars) h.nonempty
  | cons c rest =>
      have first : c ≠ '/' := fun same => h.slashless (by simp [chars, same])
      simp [isAbsolute, chars, first]

theorem IsName.names {name : String} (h : IsName name) : names name = [name] := by
  have filled : name.toList ≠ [] := mt String.toList_eq_nil_iff.mp h.nonempty
  simp [Path.names, Text.splitOn_of_not_mem h.slashless, filled]

theorem IsName.names_join {name : String} (h : IsName name) (base : String) :
    Path.names (join base name) = Path.names base ++ [name] := by
  rw [Path.names_join, h.relative, h.names]
  rfl

theorem join_eq_append (base path : String) : ∃ front, join base path = front ++ path := by
  unfold join
  split
  · exact ⟨"", by simp⟩
  · split
    · exact ⟨base, rfl⟩
    · exact ⟨base ++ "/", rfl⟩

theorem join_ne_empty {path : String} (filled : path ≠ "") (base : String) : join base path ≠ "" := by
  obtain ⟨front, joined⟩ := join_eq_append base path
  simp [joined, filled]

/-! ## The last name -/

theorem fileName?_of_names {path name : String} {front : List String}
    (names_eq : names path = front ++ [name]) (h : IsName name) : fileName? path = some name := by
  have last : (components path).getLast? = some name := by
    unfold components
    rw [names_eq]
    cases front with
    | nil => simp [h.ne_dot]
    | cons first front =>
        have kept : (front ++ [name]).filter (· != ".") = front.filter (· != ".") ++ [name] := by
          simp [List.filter_append, h.ne_dot]
        simp only [List.cons_append, kept]
        split
        · exact List.getLast?_concat
        · rw [← List.cons_append]
          exact List.getLast?_concat
  simp [fileName?, last, h.ne_dot, h.ne_dots]

theorem isName_of_fileName? {path name : String} (found : fileName? path = some name) :
    IsName name := by
  obtain ⟨last, proper⟩ := Option.filter_eq_some_iff.mp found
  have component : name ∈ components path := List.mem_of_getLast? last
  have member : name ∈ names path := by
    unfold components at component
    split at component
    · cases component
    · rename_i first rest names_eq
      rw [names_eq]
      split at component
      · exact List.mem_cons_of_mem _ (List.mem_filter.mp component).1
      · cases component with
        | head => exact List.mem_cons_self
        | tail _ later => exact List.mem_cons_of_mem _ (List.mem_filter.mp later).1
  obtain ⟨piece, piece_mem, rfl⟩ := List.mem_map.mp member
  obtain ⟨piece_mem, filled⟩ := List.mem_filter.mp piece_mem
  simp only [bne_iff_ne, ne_eq, Bool.and_eq_true] at proper
  exact ⟨by simpa using filled, by simpa using Text.not_mem_of_mem_splitOn piece_mem,
    proper.2, proper.1⟩

/-- A tag before a name gives a name. -/
theorem IsName.tagged {name : String} (h : IsName name) {tag : String}
    (slashless : '/' ∉ tag.toList) : IsName (tag ++ name) := by
  have ending : name.toList <:+ (tag ++ name).toList := by simp
  have chars {other : String} (ne : name ≠ other) : name.toList ≠ other.toList :=
    mt String.toList_inj.mp ne
  have filled := chars h.nonempty
  have dot := chars h.ne_dot
  have dots := chars h.ne_dots
  refine ⟨by simp [h.nonempty], by simp [slashless, h.slashless], fun same => ?_, fun same => ?_⟩
  · rw [same] at ending
    simp_all [List.suffix_cons_iff]
  · rw [same] at ending
    simp_all [List.suffix_cons_iff]

end Path

/-! ## The format of a copy -/

theorem Format.ofPath_congr {path other : String}
    (same : Path.fileName? path = Path.fileName? other) :
    Format.ofPath path = Format.ofPath other := by
  unfold Format.ofPath Path.extension?
  rw [same]

/-- A file keeps its format under a tag without dots, unless its name is a dot and `json`. -/
theorem Format.ofPath_tagged {path copy tag name : String} (dotless : '.' ∉ tag.toList)
    (source : Path.fileName? path = some name) (target : Path.fileName? copy = some (tag ++ name))
    (visible : name.toList.map Char.toLower ≠ ".json".toList) :
    Format.ofPath copy = Format.ofPath path := by
  unfold Format.ofPath Path.extension?
  simp only [source, target, Option.bind_some, String.toList_append,
    Text.splitAtLast?_append dotless]
  cases split : Text.splitAtLast? '.' name.toList with
  | none => rfl
  | some parts =>
      obtain ⟨before, after⟩ := parts
      cases before with
      | cons c before =>
          cases tag.toList <;> rfl
      | nil =>
          have hidden := (Text.splitAtLast?_eq_some_iff.mp split).1
          have other : after.map Char.toLower ≠ "json".toList := by
            intro json
            apply visible
            simp [hidden, json]
          cases tag.toList with
          | nil => rfl
          | cons c rest => simpa using other

end Highlight
