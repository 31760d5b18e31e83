import Highlight.Proofs.Trie.Words
import Mathlib.Data.Finset.Union
import Mathlib.Data.Finset.Card
import Mathlib.Data.List.Infix

/-! # The points of a lexicon

Each point below the root is a stem of some word that is held, and each such stem has its point. So
the size of a lexicon is the number of stems of its words, whatever was put in and taken out before.
-/

namespace Highlight

namespace Trie

/-- The ways to the points below the root. -/
def points : Trie → List (List Char)
  | .empty => []
  | .branch label _ below rest => [label] :: below.points.map (label :: ·) ++ rest.points

theorem length_points (t : Trie) : t.points.length = t.nodeCount := by
  induction t with
  | empty => rfl
  | branch label n below rest ih_below ih_rest =>
      simp only [points, nodeCount, List.length_append, List.length_cons, List.length_map, ih_below,
        ih_rest]
      omega

theorem Pruned.mem_points {t : Trie} (h : Pruned t) {stem : List Char} :
    stem ∈ t.points ↔ stem ≠ [] ∧ t.hasStem stem = true := by
  induction h generalizing stem with
  | empty => cases stem <;> simp [points, hasStem, get?]
  | @branch label n below rest fresh alive under others ih_under ih_others =>
      cases stem with
      | nil => simp [points, ih_others]
      | cons c stem =>
          have below_or_here : stem = [] ∨ stem ∈ below.points ↔ below.hasStem stem = true := by
            rw [ih_under]
            cases stem <;> simp [hasStem]
          by_cases same : label = c
          · subst same
            have elsewhere : label :: stem ∉ rest.points := by
              simp [ih_others, hasStem, fresh]
            simp [points, hasStem, get?, elsewhere, ← below_or_here]
          · simp [points, hasStem, get?, same, Ne.symm same, ih_others]

theorem Pruned.nodup_points {t : Trie} (h : Pruned t) : t.points.Nodup := by
  induction h with
  | empty => exact List.nodup_nil
  | @branch label n below rest fresh alive under others ih_under ih_others =>
      rw [points, List.nodup_append, List.nodup_cons]
      refine ⟨⟨?_, ih_under.map (List.cons_injective)⟩, ih_others, ?_⟩
      · simp [under.mem_points]
      · intro way here way' there same
        subst same
        obtain ⟨stem, rfl⟩ : ∃ stem, way = label :: stem := by
          rcases List.mem_cons.mp here with rfl | further
          · exact ⟨[], rfl⟩
          · obtain ⟨stem, -, rfl⟩ := List.mem_map.mp further
            exact ⟨stem, rfl⟩
        simp [others.mem_points, hasStem, fresh] at there

theorem Pruned.exists_word {t : Trie} (h : Pruned t) (some_branch : t ≠ .empty) :
    ∃ word, 0 < t.count word := by
  induction h with
  | empty => exact absurd rfl some_branch
  | @branch label n below rest fresh alive under others ih_under _ =>
      rcases alive with ends | goes_on
      · exact ⟨[label], by simpa [count, get?] using ends⟩
      · obtain ⟨word, held⟩ := ih_under goes_on
        refine ⟨label :: word, ?_⟩
        have some_char : word ≠ [] := by
          rintro rfl
          cases held
        simpa [count_cons, Trie.point, get?, some_char] using held

theorem Pruned.hasStem_iff {t : Trie} (h : Pruned t) {stem : List Char} (proper : stem ≠ []) :
    t.hasStem stem = true ↔ ∃ word, stem <+: word ∧ 0 < t.count word := by
  induction stem generalizing t with
  | nil => exact absurd rfl proper
  | cons c stem ih =>
      rw [hasStem]
      cases found : t.get? c with
      | none =>
          constructor
          · intro has
            cases has
          · rintro ⟨_, ⟨rest, rfl⟩, held⟩
            simp [count_cons, Trie.point, found] at held
      | some p =>
          obtain ⟨n, below⟩ := p
          have under : Pruned below := by simpa only [point_of_get? found] using h.point c
          have counted {word : List Char} (some_char : word ≠ []) :
              t.count (c :: word) = below.count word := by
            rw [count_cons, if_neg some_char, point_of_get? found]
          cases stem with
          | nil =>
              simp only [hasStem, true_iff]
              rcases h.alive found with ends | goes_on
              · exact ⟨[c], List.prefix_rfl, by simpa [count, found] using ends⟩
              · obtain ⟨word, held⟩ := under.exists_word goes_on
                have some_char : word ≠ [] := by
                  rintro rfl
                  cases held
                exact ⟨c :: word, List.prefix_append [c] word, by rwa [counted some_char]⟩
          | cons c' stem =>
              simp only [ih under (List.cons_ne_nil c' stem)]
              constructor
              · rintro ⟨_, ⟨rest, rfl⟩, held⟩
                exact ⟨_, ⟨rest, rfl⟩, by rwa [List.cons_append, counted (by simp)]⟩
              · rintro ⟨_, ⟨rest, rfl⟩, held⟩
                exact ⟨_, ⟨rest, rfl⟩, by rwa [List.cons_append, counted (by simp)] at held⟩

theorem isEmpty_iff {t : Trie} : t.isEmpty = true ↔ t = .empty := by
  cases t <;> simp [isEmpty]

theorem Represents.isEmpty_iff {t : Trie} {words : Multiset (List Char)} (h : Represents t words) :
    t.isEmpty = true ↔ words = 0 := by
  rw [Trie.isEmpty_iff]
  constructor
  · rintro rfl
    apply Multiset.eq_zero_of_forall_notMem
    intro word member
    rw [← Multiset.count_pos, ← h.counts, count_empty] at member
    cases member
  · rintro rfl
    by_contra some_branch
    obtain ⟨word, held⟩ := h.pruned.exists_word some_branch
    rw [h.counts, Multiset.count_zero] at held
    cases held

end Trie

/-- The beginnings of words, less the empty one. -/
def stems (words : Multiset (List Char)) : Finset (List Char) :=
  words.toFinset.biUnion fun word => (word.inits.filter (· ≠ [])).toFinset

theorem mem_stems {words : Multiset (List Char)} {stem : List Char} :
    stem ∈ stems words ↔ stem ≠ [] ∧ ∃ word ∈ words, stem <+: word := by
  simp only [stems, Finset.mem_biUnion, Multiset.mem_toFinset, List.mem_toFinset, List.mem_filter,
    List.mem_inits, decide_eq_true_iff]
  constructor
  · rintro ⟨word, member, start, proper⟩
    exact ⟨proper, word, member, start⟩
  · rintro ⟨proper, word, member, start⟩
    exact ⟨word, member, start, proper⟩

theorem Trie.Represents.mem_points {t : Trie} {words : Multiset (List Char)}
    (h : Represents t words) {stem : List Char} : stem ∈ t.points ↔ stem ∈ stems words := by
  rw [h.pruned.mem_points, mem_stems]
  refine and_congr_right fun proper => ?_
  rw [h.pruned.hasStem_iff proper]
  simp only [h.counts, Multiset.count_pos, and_comm]

/-- A lexicon keeps no dead points. After any changes the points below the root are the stems of the
    words that are held, one for each: their number is that of the stems, a proper stem has a path
    exactly if some word starts with it, and the lexicon is empty exactly if no word is held. -/
theorem lexicon_points_are_stems (changes : List LexiconChange) :
    let t := (Trie.after changes).1
    let words := (LexiconChange.wordsAfter changes).1
    (t.points.Nodup ∧ ∀ stem, stem ∈ t.points ↔ stem ∈ stems words) ∧
      t.nodeCount = (stems words).card ∧
      (∀ stem, stem ≠ [] → (t.hasStem stem = true ↔ ∃ word ∈ words, stem <+: word)) ∧
      (t.isEmpty = true ↔ words = 0) := by
  intro t words
  obtain ⟨represents, -⟩ := Trie.represents_after changes
  have distinct : t.points.Nodup := represents.pruned.nodup_points
  have members (stem : List Char) : stem ∈ t.points ↔ stem ∈ stems words := represents.mem_points
  refine ⟨⟨distinct, members⟩, ?_, ?_, represents.isEmpty_iff⟩
  · have same : t.points.toFinset = stems words := by
      ext stem
      rw [List.mem_toFinset, members]
    rw [← Trie.length_points, ← List.toFinset_card_of_nodup distinct, same]
  · intro stem proper
    have := members stem
    rwa [represents.pruned.mem_points, mem_stems, and_congr_right_iff, imp_iff_right proper] at this

end Highlight
