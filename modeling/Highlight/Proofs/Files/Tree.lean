import Highlight.Proofs.Files.Path

/-! # What operations on files leave alone

Paths are followed through directories only. So an operation that keeps every directory keeps every
path that leads somewhere, and one that makes directories where nothing was changes no file.
-/

namespace Highlight.FileTree

theorem get?_set {place : Location} (below : place ≠ []) (t : FileTree) (entry : Entry)
    (other : Location) :
    (t.set place entry).get? other = if other = place then some entry else t.get? other := by
  have rest (entries : List (Location × Entry)) (away : other ≠ place) :
      (entries.filter (·.1 ≠ place)).lookup other = entries.lookup other := by
    induction entries with
    | nil => rfl
    | cons first entries ih =>
        obtain ⟨found, held⟩ := first
        by_cases there : found = place
        · have skipped : (other == found) = false := beq_eq_false_iff_ne.mpr (there ▸ away)
          rw [List.filter_cons_of_neg (by simp [there]), ih]
          simp only [List.lookup_cons, skipped]
        · rw [List.filter_cons_of_pos (by simp [there])]
          simp only [List.lookup_cons, ih]
  by_cases here : other = place
  · simp [get?, set, here, below]
  · have different : (other == place) = false := beq_eq_false_iff_ne.mpr here
    simp only [get?, set, List.lookup_cons, different, if_neg here, rest t.entries here]

theorem hasDirectory_iff {t : FileTree} {place : Location} :
    t.hasDirectory place = true ↔ t.get? place = some .directory := by
  unfold hasDirectory
  split <;> simp_all

theorem ne_root {t : FileTree} {place : Location} (free : t.get? place ≠ some .directory) :
    place ≠ [] := by
  rintro rfl
  exact free rfl

/-! ## Following paths -/

/-- The place that a name in a directory leads to. -/
def enter (place : Location) (name : String) : Location :=
  if name = "." then place else if name = ".." then place.dropLast else place ++ [name]

theorem walk_cons_eq_ok {t : FileTree} {start place : Location} {name : String}
    {names : List String} : t.walk start (name :: names) = .ok place ↔
      t.get? start = some .directory ∧ t.walk (enter start name) names = .ok place := by
  rw [walk, enter]
  cases t.get? start with
  | none => simp
  | some entry =>
      cases entry with
      | file content => simp
      | directory =>
          simp only [true_and]
          split
          · rfl
          · split <;> rfl

/-- Every directory stays a directory, and relative paths start where they did. -/
structure Keeps (t t' : FileTree) : Prop where
  workingDirectory : t'.workingDirectory = t.workingDirectory
  directories : ∀ place, t.get? place = some .directory → t'.get? place = some .directory

namespace Keeps

variable {t t' t'' : FileTree}

theorem refl (t : FileTree) : Keeps t t :=
  ⟨rfl, fun _ found => found⟩

theorem trans (first : Keeps t t') (second : Keeps t' t'') : Keeps t t'' :=
  ⟨second.workingDirectory.trans first.workingDirectory,
    fun place found => second.directories place (first.directories place found)⟩

theorem walk (keeps : Keeps t t') {names : List String} {start place : Location}
    (led : t.walk start names = .ok place) : t'.walk start names = .ok place := by
  induction names generalizing start with
  | nil => exact led
  | cons name names ih =>
      obtain ⟨directory, later⟩ := walk_cons_eq_ok.mp led
      exact walk_cons_eq_ok.mpr ⟨keeps.directories start directory, ih later⟩

theorem locate (keeps : Keeps t t') {path : String} {place : Location}
    (led : t.locate path = .ok place) : t'.locate path = .ok place := by
  unfold FileTree.locate at led ⊢
  rw [keeps.workingDirectory]
  split
  · rename_i empty
    rw [if_pos empty] at led
    cases led
  · rename_i filled
    rw [if_neg filled] at led
    exact keeps.walk led

/-- Putting a file where no directory is. -/
theorem set {place : Location} (free : t.get? place ≠ some .directory) (content : Content) :
    Keeps t (t.set place (.file content)) where
  workingDirectory := rfl
  directories other found := by
    have away : other ≠ place := fun same => free (same ▸ found)
    rw [get?_set (ne_root free), if_neg away, found]

end Keeps

/-- Paths with the same start and the same names lead to the same place. -/
theorem locate_congr (t : FileTree) {path other : String} (filled : path ≠ "") (filled' : other ≠ "")
    (start : Path.isAbsolute path = Path.isAbsolute other)
    (names : Path.names path = Path.names other) : t.locate path = t.locate other := by
  unfold locate
  rw [start, names, if_neg (mt String.isEmpty_iff.mp filled),
    if_neg (mt String.isEmpty_iff.mp filled')]

/-- The last name of a path is the last name of the place it leads to. -/
theorem locate_concat {t : FileTree} {path name : String} {front : List String} {place : Location}
    (names : Path.names path = front ++ [name]) (proper : Path.IsName name)
    (led : t.locate path = .ok place) : ∃ parent, place = parent ++ [name] := by
  have last (front : List String) (start : Location)
      (led : t.walk start (front ++ [name]) = .ok place) : ∃ parent, place = parent ++ [name] := by
    induction front generalizing start with
    | nil =>
        obtain ⟨_, there⟩ := walk_cons_eq_ok.mp led
        rw [enter, if_neg proper.ne_dot, if_neg proper.ne_dots] at there
        exact ⟨start, (Except.ok.inj there).symm⟩
    | cons first front ih => exact ih _ (walk_cons_eq_ok.mp led).2
  unfold locate at led
  split at led
  · cases led
  · rw [names] at led
    exact last front _ led

theorem wantsDirectory_append {name : String} (proper : Path.IsName name) (front : String) :
    wantsDirectory (front ++ name) = false := by
  have filled : name.toList ≠ [] := mt String.toList_eq_nil_iff.mp proper.nonempty
  have last : name.toList.getLast filled ≠ '/' := fun same =>
    proper.slashless (same ▸ List.getLast_mem filled)
  simp [wantsDirectory, List.getLast?_append, List.getLast?_eq_some_getLast filled, last]

/-! ## Reading -/

theorem find_eq {t : FileTree} {path : String} {place : Location}
    (led : t.locate path = .ok place) :
    t.find path = match t.get? place with
      | none => .error .notFound
      | some .directory => .ok .directory
      | some (.file content) =>
        if wantsDirectory path then .error .notDirectory else .ok (.file content) := by
  rw [find, led]
  cases found : t.get? place with
  | none => simp only [found, bind, Except.bind]; rfl
  | some entry => cases entry <;> simp only [found, bind, Except.bind] <;> rfl

theorem find_eq_file {t : FileTree} {path : String} {content : Content} :
    t.find path = .ok (.file content) ↔ ∃ place, t.locate path = .ok place ∧
      t.get? place = some (.file content) ∧ wantsDirectory path = false := by
  cases led : t.locate path with
  | error e => simp [find, led, bind, Except.bind]
  | ok place =>
      rw [find_eq led]
      cases found : t.get? place with
      | none => simp [found]
      | some entry =>
          cases entry with
          | directory => simp [found]
          | file other => cases wantsDirectory path <;> simp [found]

/-- A file that is itself kept is found as before. -/
theorem Keeps.find {t t' : FileTree} (keeps : Keeps t t') {path : String} {content : Content}
    (found : t.find path = .ok (.file content))
    (same : ∀ place, t.locate path = .ok place → t.get? place = some (.file content) →
      t'.get? place = some (.file content)) : t'.find path = .ok (.file content) := by
  obtain ⟨place, led, there, plain⟩ := find_eq_file.mp found
  exact find_eq_file.mpr ⟨place, keeps.locate led, same place led there, plain⟩

/-- Everything that was there is still there. -/
structure Preserves (t t' : FileTree) : Prop where
  workingDirectory : t'.workingDirectory = t.workingDirectory
  entries : ∀ place entry, t.get? place = some entry → t'.get? place = some entry

theorem Preserves.keeps {t t' : FileTree} (preserves : Preserves t t') : Keeps t t' :=
  ⟨preserves.workingDirectory, fun place => preserves.entries place .directory⟩

theorem Preserves.find {t t' : FileTree} (preserves : Preserves t t') {path : String}
    {content : Content} (found : t.find path = .ok (.file content)) :
    t'.find path = .ok (.file content) :=
  preserves.keeps.find found fun place _ => preserves.entries place _

theorem isFile_iff {t : FileTree} {path : String} :
    t.isFile path = true ↔ ∃ content, t.find path = .ok (.file content) := by
  unfold isFile
  split <;> simp_all

theorem readContent_eq_ok {t : FileTree} {path : String} {content : Content} :
    t.readContent path = .ok content ↔ t.find path = .ok (.file content) := by
  unfold readContent
  cases found : t.find path with
  | error e => simp [bind, Except.bind]
  | ok entry =>
      cases entry with
      | directory => simp [bind, Except.bind, throw, throwThe, MonadExceptOf.throw]
      | file other => simp [bind, Except.bind, pure, Except.pure]

theorem readText_of_find {t : FileTree} {path value : String}
    (found : t.find path = .ok (.file (.text value))) : t.readText path = .ok value := by
  rw [readText, readContent_eq_ok.mpr found]
  rfl

/-- A place that a path leads to is empty if nothing is found there. -/
theorem get?_eq_none {t : FileTree} {path : String} {place : Location}
    (missing : t.has path = false) (led : t.locate path = .ok place)
    (plain : wantsDirectory path = false) : t.get? place = none := by
  cases found : t.get? place with
  | none => rfl
  | some entry => cases entry <;> simp [has, find_eq led, found, plain] at missing

/-! ## Writing -/

theorem writeContent_eq_ok {t t' : FileTree} {path : String} {content : Content}
    (written : t.writeContent path content = .ok t') : ∃ place, t.locate path = .ok place ∧
      t.get? place ≠ some .directory ∧ wantsDirectory path = false ∧
        t' = t.set place (.file content) := by
  unfold writeContent at written
  cases led : t.locate path with
  | error e => simp [led, bind, Except.bind] at written
  | ok place =>
      simp only [led, bind, Except.bind] at written
      split at written
      · cases written
      · rename_i allowed
        simp only [Bool.or_eq_true, not_or, hasDirectory_iff, Bool.not_eq_true] at allowed
        exact ⟨place, rfl, allowed.1, allowed.2, (Except.ok.inj written).symm⟩

/-- A path takes a file if it leads to a place without a directory, and does not ask for one. -/
def TakesFile (t : FileTree) (path : String) : Prop :=
  ∃ place, t.locate path = .ok place ∧ t.get? place ≠ some .directory ∧
    wantsDirectory path = false

theorem takesFile_iff {t : FileTree} {path : String} (content : Content) :
    t.TakesFile path ↔ ∃ t', t.writeContent path content = .ok t' := by
  constructor
  · rintro ⟨place, led, free, plain⟩
    have allowed : ¬(t.hasDirectory place || wantsDirectory path) = true := by
      simp [hasDirectory_iff, free, plain]
    refine ⟨t.set place (.file content), ?_⟩
    simp only [writeContent, led, bind, Except.bind, if_neg allowed]
    rfl
  · rintro ⟨t', written⟩
    obtain ⟨place, led, free, plain, -⟩ := writeContent_eq_ok written
    exact ⟨place, led, free, plain⟩

theorem find_writeContent {t t' : FileTree} {path : String} {content : Content}
    (written : t.writeContent path content = .ok t') : t'.find path = .ok (.file content) := by
  obtain ⟨place, led, free, plain, rfl⟩ := writeContent_eq_ok written
  exact find_eq_file.mpr ⟨place, (Keeps.set free content).locate led,
    by rw [get?_set (ne_root free), if_pos rfl], plain⟩

/-- Writing a file changes what stands there and nothing else. -/
theorem writeContent_keeps {t t' : FileTree} {path : String} {content : Content}
    (written : t.writeContent path content = .ok t') : t.Keeps t' ∧
      ∀ place entry, t.get? place = some entry →
        t'.get? place = some entry ∨ t'.locate path = .ok place := by
  obtain ⟨target, led, free, _, rfl⟩ := writeContent_eq_ok written
  have keeps := Keeps.set free content
  refine ⟨keeps, fun place entry there => ?_⟩
  by_cases here : place = target
  · exact .inr (here ▸ keeps.locate led)
  · rw [get?_set (ne_root free), if_neg here]
    exact .inl there

theorem copy_eq_ok {t t' : FileTree} {source target : String}
    (copied : t.copy source target = .ok t') : ∃ content,
      t.find source = .ok (.file content) ∧ t.writeContent target content = .ok t' := by
  unfold copy at copied
  cases read : t.readContent source with
  | error e =>
      rw [read] at copied
      cases copied
  | ok content =>
      rw [read] at copied
      exact ⟨content, readContent_eq_ok.mp read, copied⟩

/-! ## Making directories -/

/-- The only change is that directories stand where nothing was. -/
structure AddsDirectories (t t' : FileTree) : Prop where
  workingDirectory : t'.workingDirectory = t.workingDirectory
  entries : ∀ place, t'.get? place = t.get? place ∨
    t.get? place = none ∧ t'.get? place = some .directory

namespace AddsDirectories

variable {t t' t'' : FileTree}

theorem refl (t : FileTree) : AddsDirectories t t :=
  ⟨rfl, fun _ => .inl rfl⟩

theorem trans (first : AddsDirectories t t') (second : AddsDirectories t' t'') :
    AddsDirectories t t'' := by
  refine ⟨second.workingDirectory.trans first.workingDirectory, fun place => ?_⟩
  cases second.entries place with
  | inl same => rw [same]; exact first.entries place
  | inr new =>
      refine .inr ⟨?_, new.2⟩
      cases first.entries place with
      | inl same => exact same ▸ new.1
      | inr made => exact made.1

theorem preserves (adds : AddsDirectories t t') : Preserves t t' := by
  refine ⟨adds.workingDirectory, fun place entry found => ?_⟩
  cases adds.entries place with
  | inl same => exact same.trans found
  | inr made => cases made.1.symm.trans found

theorem get?_eq_none (adds : AddsDirectories t t') {place : Location}
    (empty : t'.get? place = none) : t.get? place = none := by
  cases adds.entries place with
  | inl same => exact same ▸ empty
  | inr made => exact made.1

theorem makeDirectory {path : String} (made : t.makeDirectory path = .ok t') :
    AddsDirectories t t' := by
  unfold FileTree.makeDirectory at made
  cases led : t.locate path with
  | error e => simp [led, bind, Except.bind] at made
  | ok place =>
      cases found : t.get? place with
      | some entry =>
          simp only [led, found, bind, Except.bind] at made
          cases made
      | none =>
          simp only [led, found, bind, Except.bind] at made
          have new : t' = t.set place .directory := (Except.ok.inj made).symm
          subst new
          have free : t.get? place ≠ some .directory := by simp [found]
          refine ⟨rfl, fun other => ?_⟩
          rw [get?_set (ne_root free)]
          split
          · rename_i here
            exact .inr ⟨here ▸ found, rfl⟩
          · exact .inl rfl

theorem ensureDirectory {path : String} (made : t.ensureDirectory path = .ok t') :
    AddsDirectories t t' := by
  unfold FileTree.ensureDirectory at made
  split at made
  · split at made
    · exact Except.ok.inj made ▸ refl t
    · cases made
  · exact makeDirectory made

theorem makeParents (fuel : Nat) (path : String) (t : FileTree) :
    AddsDirectories t (FileTree.makeParents fuel path t).1 := by
  induction fuel generalizing path t with
  | zero => exact refl t
  | succ fuel ih =>
      unfold FileTree.makeParents
      split
      · exact refl t
      · rename_i parent _
        split
        · rename_i made
          exact ensureDirectory made
        · have parents := ih parent t
          split
          · rename_i above outcome
            rw [outcome] at parents
            split
            · rename_i made
              exact parents.trans (ensureDirectory made)
            · exact parents
          · exact parents
        · exact refl t

theorem makeDirectories (t : FileTree) (path : String) :
    AddsDirectories t (t.makeDirectories path).1 :=
  makeParents _ path t

end AddsDirectories

end Highlight.FileTree
