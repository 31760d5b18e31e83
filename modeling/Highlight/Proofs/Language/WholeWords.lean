import Highlight.Language
import Highlight.Proofs.Language.Splitting
import Highlight.Proofs.Trie.Words

/-! # Keywords are found as whole words

The punctuation of a language's own words does not separate tokens, so a keyword is one plain word
of the text whatever it is made of, unless one of its characters is special. A plain word is a token
exactly where nothing plain stands next to it. The first group that holds the word takes its match.
-/

namespace Highlight

open Token

theorem Token.isPlain_eq_false_iff {isSeparator : Char → Bool} {c : Char} :
    isPlain isSeparator c = false ↔ Text.isBlank c = true ∨ isSeparator c = true := by
  rw [← Bool.not_eq_true, isPlain_iff]
  cases Text.isBlank c <;> simp

/-- A plain word is a token where it stands exactly if a blank, a separator or an end of the text
    stands on either side. -/
theorem word_mem_tokenize_iff {isSeparator : Char → Bool} {pre word post : List Char}
    (some_word : word ≠ []) (plain : ∀ c ∈ word, isPlain isSeparator c = true) :
    ⟨pre.length, pre.length + word.length, word⟩ ∈ tokenize isSeparator (pre ++ word ++ post) ↔
      (∀ c ∈ pre.getLast?, isPlain isSeparator c = false) ∧
        ∀ c ∈ post.head?, isPlain isSeparator c = false := by
  rw [(tokenize_splits isSeparator _).mem_iff]
  constructor
  · rintro ⟨⟨c, found, -, -, separator⟩ | run, -⟩
    · obtain ⟨first, rest, rfl⟩ := List.exists_cons_of_ne_nil some_word
      have here : (pre ++ first :: rest ++ post)[pre.length]? = some first := by simp
      obtain rfl : first = c := Option.some.inj (here.symm.trans found)
      have := (isPlain_iff.mp (plain first List.mem_cons_self)).2
      rw [separator] at this
      cases this
    · exact run.bounded plain
  · rintro ⟨before, behind⟩
    refine ⟨.inr (maximalRun_append some_word plain before behind), ?_⟩
    simp only
    rw [← List.length_append, List.take_left, List.drop_left]

theorem Run.mem_matches_iff {r : Run} {language : Option Language} {start stop : Nat}
    {word : List Char} : ⟨r.positionAt start, r.positionAt stop, word⟩ ∈ r.matches language ↔
      ⟨start, stop, word⟩ ∈ tokenize (isSeparator language) r.text := by
  have injective {i j : Nat} (same : r.positionAt i = r.positionAt j) : i = j := by
    have := congrArg Position.offset same
    simp only [positionAt, Position.advance] at this
    omega
  constructor
  · intro member
    obtain ⟨t, held, same⟩ := List.mem_map.mp member
    obtain ⟨start_eq, stop_eq, rfl⟩ := Match.mk.inj same
    rw [← injective start_eq, ← injective stop_eq]
    exact held
  · exact fun member => List.mem_map.mpr ⟨_, member, rfl⟩

/-! ## The words of a group -/

namespace Group

theorem contains_of_mem {words : List (List Char)} {word : List Char} (member : word ∈ words)
    (some_word : word ≠ []) (kind : GroupKind) (styles : List Style) :
    (ofWords kind words styles).contains word = true := by
  refine ((Trie.Represents.empty.extend words).contains_iff word).mpr ?_
  simp [member, some_word]

theorem mem_punctuation {words : List (List Char)} {word : List Char} (member : word ∈ words)
    {c : Char} (held : c ∈ word) (punctuation : Text.isPunctuation c = true) (kind : GroupKind)
    (styles : List Style) : c ∈ (ofWords kind words styles).punctuation :=
  List.mem_filter.mpr ⟨List.mem_flatten.mpr ⟨word, member, held⟩, punctuation⟩

end Group

namespace Language

/-- A character of an ordinary group's word separates tokens only if it is special. -/
theorem isSeparator_of_mem_word {l : Language} {kind : GroupKind} {words : List (List Char)}
    {styles : List Style} {waiting : List Match} {word : List Char}
    (group : { Group.ofWords kind words styles with pending := waiting } ∈ l.groups)
    (ordinary : kind ≠ .special) (keyword : word ∈ words) {c : Char} (held : c ∈ word) :
    isSeparator (some l) c = l.isSpecial c := by
  have inside (punctuation : Text.isPunctuation c = true) : l.isWordPunctuation c = true := by
    refine List.any_eq_true.mpr ⟨_, group, ?_⟩
    have listed := Group.mem_punctuation keyword held punctuation kind styles
    simpa [Group.ofWords, ordinary] using listed
  cases punctuation : Text.isPunctuation c with
  | false => simp [isSeparator, punctuation]
  | true => simp [isSeparator, punctuation, inside punctuation]

/-- The first group that holds the word gets the match, and no other group changes. -/
theorem offer_append {m : Match} {before after : List Group} {g : Group}
    (others : ∀ g' ∈ before, g'.contains m.word = false) (holds : g.contains m.word = true) :
    offer m (before ++ g :: after) =
      (before ++ { g with pending := g.pending ++ [m] } :: after, true) := by
  induction before with
  | nil => simp [offer, Group.tryPut, holds]
  | cons other before ih =>
      obtain ⟨other_lacks, others⟩ := List.forall_mem_cons.mp others
      simp [offer, other_lacks, ih others]

theorem exists_taker {l : Language} {word : List Char}
    (held : ∃ g ∈ l.groups, g.contains word = true) :
    ∃ before g after, l.groups = before ++ g :: after ∧
      (∀ g' ∈ before, g'.contains word = false) ∧ g.contains word = true := by
  obtain ⟨g, found⟩ := Option.isSome_iff_exists.mp (List.find?_isSome.mpr held)
  obtain ⟨holds, before, after, split, others⟩ := List.find?_eq_some_iff_append.mp found
  exact ⟨before, g, after, split, by simpa using others, holds⟩

end Language

/-- A keyword of an ordinary group, with whatever punctuation it has, is matched wherever it stands
    as a whole word and nowhere else. Its match is taken by the first group that holds the word, and
    by no other. -/
theorem keyword_matched_as_whole_word {l : Language} {kind : GroupKind}
    {words : List (List Char)} {styles : List Style} {waiting : List Match} {word : List Char}
    (group : { Group.ofWords kind words styles with pending := waiting } ∈ l.groups)
    (ordinary : kind ≠ .special) (keyword : word ∈ words) (some_word : word ≠ [])
    (clean : ∀ c ∈ word, Text.isBlank c = false ∧ l.isSpecial c = false)
    (r : Run) (pre post : List Char) (text : r.text = pre ++ word ++ post) :
    let m : Match := ⟨r.positionAt pre.length, r.positionAt (pre.length + word.length), word⟩
    (m ∈ r.matches (some l) ↔
      (∀ c ∈ pre.getLast?, Text.isBlank c = true ∨ isSeparator (some l) c = true) ∧
        ∀ c ∈ post.head?, Text.isBlank c = true ∨ isSeparator (some l) c = true) ∧
    ∃ before g after, l.groups = before ++ g :: after ∧
      (∀ g' ∈ before, g'.contains word = false) ∧ g.contains word = true ∧
      l.tryPut m =
        ({ l with groups := before ++ { g with pending := g.pending ++ [m] } :: after }, true) := by
  intro m
  have plain : ∀ c ∈ word, isPlain (isSeparator (some l)) c = true := by
    intro c held
    rw [isPlain_iff, Language.isSeparator_of_mem_word group ordinary keyword held]
    exact clean c held
  constructor
  · rw [Run.mem_matches_iff, text, word_mem_tokenize_iff some_word plain]
    simp only [isPlain_eq_false_iff]
  · have holds := Group.contains_of_mem keyword some_word kind styles
    obtain ⟨before, g, after, split, others, taker⟩ := Language.exists_taker ⟨_, group, holds⟩
    refine ⟨before, g, after, split, others, taker, ?_⟩
    rw [Language.tryPut, split, Language.offer_append others taker]

/-- A directive behind a special character: its mark, which would separate tokens in a language
    without it, belongs to the word, and the first of the two groups that hold it gets the match. -/
theorem directive_matched_as_whole_word :
    let l : Language := ⟨"C", [], [.ofWords .special [['(']] [],
      .ofWords .commentaries [['#', 'i', 'f'], ['/', '/']] [],
      .ofWords .normal [['i', 'f'], ['#', 'i', 'f']] []]⟩
    let r : Run := ⟨⟨0, 0, 0⟩, ['(', '#', 'i', 'f', ' ', 'x']⟩
    let m : Match := ⟨⟨0, 0, 1⟩, ⟨0, 0, 4⟩, ['#', 'i', 'f']⟩
    m ∈ r.matches (some l) ∧ (l.tryPut m).2 = true ∧
      (l.tryPut m).1.groups.map (·.pending) = [[], [m], []] := by
  intro l r m
  have group : { Group.ofWords .normal [['i', 'f'], ['#', 'i', 'f']] [] with pending := [] } ∈
      l.groups := by decide
  have keyword : ['#', 'i', 'f'] ∈ [['i', 'f'], ['#', 'i', 'f']] := by decide
  have clean : ∀ c ∈ ['#', 'i', 'f'], Text.isBlank c = false ∧ l.isSpecial c = false := by
    simp only [List.forall_mem_cons]
    exact ⟨by decide, by decide, by decide, by simp⟩
  obtain ⟨matched, _, _, _, -, -, -, taken⟩ := keyword_matched_as_whole_word group (by decide)
    keyword (by decide) clean r ['('] [' ', 'x'] rfl
  refine ⟨matched.mpr ⟨?_, ?_⟩, congrArg Prod.snd taken, by decide⟩
  · rintro _ ⟨⟩
    decide
  · rintro _ ⟨⟩
    decide

end Highlight
