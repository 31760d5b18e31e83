import Highlight.Proofs.Language.Painting
import Highlight.Registry

/-! # Languages come idle

A language that has just been loaded has no matches put off, whatever its definition holds.
-/

namespace Highlight

theorem mem_mapM_ok {α β ε : Type} {f : α → Except ε β} {items : List α} {results : List β}
    (h : items.mapM f = .ok results) : ∀ b ∈ results, ∃ a ∈ items, f a = .ok b := by
  induction items generalizing results with
  | nil =>
      rw [List.mapM_nil] at h
      cases h
      simp
  | cons a items ih =>
      rw [List.mapM_cons] at h
      cases first : f a with
      | error e => simp [first, bind, Except.bind] at h
      | ok b =>
          cases rest : items.mapM f with
          | error e => simp [first, rest, bind, Except.bind] at h
          | ok bs =>
              simp only [first, rest, bind, Except.bind, pure, Except.pure, Except.ok.injEq] at h
              subst h
              intro b' member
              rcases List.mem_cons.mp member with rfl | member
              · exact ⟨a, List.mem_cons_self, first⟩
              · obtain ⟨a', ha, same⟩ := ih rest b' member
                exact ⟨a', List.mem_cons_of_mem a ha, same⟩

theorem Definition.build_idle {converters : Converters} {definition : Definition} {l : Language}
    (h : definition.build converters = .ok l) : l.Idle := by
  simp only [build, bind, Except.bind] at h
  cases groups : definition.groups.mapM (buildGroup converters) with
  | error e => simp [groups] at h
  | ok built =>
      simp only [groups, pure, Except.pure, Except.ok.injEq] at h
      subst h
      intro g member
      obtain ⟨source, -, made⟩ := mem_mapM_ok groups g member
      simp only [buildGroup, bind, Except.bind] at made
      split at made
      · cases made
      · simp only [pure, Except.pure, Except.ok.injEq] at made
        rw [← made]
        rfl

theorem Language.load_idle {converters : Converters} {files : FileTree} {path : String}
    {l : Language} (h : Language.load converters files path = .ok l) : l.Idle := by
  simp only [Language.load, bind, Except.bind] at h
  split at h
  · cases h
  · exact Definition.build_idle h

theorem Registry.load_idle {r : Registry} {files : FileTree} {table : TextMap} {key : String}
    {language : Option Language} (h : r.load files table key = .ok language) :
    ∀ l ∈ language, l.Idle := by
  rw [load] at h
  split at h
  · rename_i definition _
    cases loaded : Language.load r.converters files (Path.join r.root definition) with
    | error e => simp [loaded, Except.map] at h
    | ok l =>
        simp only [loaded, Except.map, Except.ok.injEq] at h
        subst h
        intro l' same
        cases same
        exact Language.load_idle loaded
  · cases h
    simp

end Highlight
