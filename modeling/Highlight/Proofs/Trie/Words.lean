import Highlight.Proofs.Trie.Pruning
import Mathlib.Data.Multiset.AddSub
import Mathlib.Data.Multiset.Filter

/-! # The words of a lexicon

A lexicon is changed by putting words in and taking words out. Seen from outside it is a multiset of
words, less the empty one: whatever is done to it, it holds each word as often as the multiset does,
and every deletion answers whether the word was there.
-/

namespace Highlight

/-- A change of a lexicon. -/
inductive LexiconChange where
  | insert (word : List Char)
  | extend (words : List (List Char))
  | delete (word : List Char)

namespace LexiconChange

/-- What a change makes of a lexicon; only a deletion answers. -/
def onTrie (t : Trie) : LexiconChange → Trie × Option Bool
  | .insert word => (t.insert word, none)
  | .extend words => (t.extend words, none)
  | .delete word => ((t.delete word).1, some (t.delete word).2)

/-- What a change means for the words that are held. -/
def onWords (words : Multiset (List Char)) : LexiconChange → Multiset (List Char) × Option Bool
  | .insert word => (if word = [] then words else word ::ₘ words, none)
  | .extend more => (words + (more.filter (· ≠ []) : List (List Char)), none)
  | .delete word => (words.erase word, some (decide (word ∈ words)))

/-- Make changes one after the other and collect the answers. -/
def run {σ : Type} (step : σ → LexiconChange → σ × Option Bool) (s : σ) :
    List LexiconChange → σ × List (Option Bool)
  | [] => (s, [])
  | change :: changes =>
    let (s, answer) := step s change
    let (s, answers) := run step s changes
    (s, answer :: answers)

end LexiconChange

namespace Trie

/-! ## Counts -/

theorem count_cons (t : Trie) (c : Char) (word : List Char) :
    t.count (c :: word) = if word = [] then (t.point c).1 else (t.point c).2.count word := by
  cases found : t.get? c with
  | none => cases word <;> simp [count, point, found]
  | some p => cases word <;> simp [count, point, found]

theorem count_insert (t : Trie) (word other : List Char) :
    (t.insert word).count other = t.count other + if other = word ∧ word ≠ [] then 1 else 0 := by
  induction word generalizing t other with
  | nil => simp [insert]
  | cons c word ih =>
      cases other with
      | nil => rfl
      | cons c' other =>
          have unfolded : t.insert (c :: word) =
              t.set c (if word.isEmpty then (t.point c).1 + 1 else (t.point c).1)
                ((t.point c).2.insert word) := rfl
          rw [unfolded, count_cons, count_cons, point_set]
          by_cases same : c = c'
          · subst same
            cases other <;> cases word <;> simp [ih]
          · simp [same, Ne.symm same]

theorem Pruned.count_remove {t : Trie} (h : Pruned t) (word other : List Char) :
    (t.remove word).count other = t.count other - if other = word then 1 else 0 := by
  induction word generalizing t other with
  | nil =>
      cases other with
      | nil => rfl
      | cons c' other => simp [Trie.remove]
  | cons c word ih =>
      cases other with
      | nil => rfl
      | cons c' other =>
          rw [Trie.remove, count_cons, count_cons, h.point_replace]
          by_cases same : c = c'
          · subst same
            cases other <;> cases word <;> simp [ih (h.point c)]
          · simp [same, Ne.symm same]

/-- The lexicon holds each word as often as the multiset does. -/
structure Represents (t : Trie) (words : Multiset (List Char)) : Prop where
  pruned : t.Pruned
  counts : ∀ word, t.count word = words.count word

namespace Represents

theorem contains_iff {t : Trie} {words : Multiset (List Char)} (h : Represents t words)
    (word : List Char) : t.contains word = true ↔ word ∈ words := by
  rw [contains, decide_eq_true_iff, h.counts, gt_iff_lt, Multiset.count_pos]

theorem empty : Represents .empty 0 :=
  ⟨.empty, fun word => by simp⟩

theorem insert {t : Trie} {words : Multiset (List Char)} (h : Represents t words)
    (word : List Char) :
    Represents (t.insert word) (if word = [] then words else word ::ₘ words) := by
  refine ⟨h.pruned.insert word, fun other => ?_⟩
  rw [count_insert, h.counts]
  by_cases none : word = []
  · simp [none]
  · simp [none, Multiset.count_cons]

theorem extend {t : Trie} {words : Multiset (List Char)} (h : Represents t words)
    (more : List (List Char)) :
    Represents (t.extend more) (words + (more.filter (· ≠ []) : List (List Char))) := by
  induction more generalizing t words with
  | nil => simpa [Trie.extend] using h
  | cons word more ih =>
      have rest := ih (h.insert word)
      have moved : (if word = [] then words else word ::ₘ words) +
          (more.filter (· ≠ []) : List (List Char)) =
          words + ((word :: more).filter (· ≠ []) : List (List Char)) := by
        by_cases none : word = []
        · simp [none]
        · simp [none, ← Multiset.cons_coe]
      rw [moved] at rest
      exact rest

theorem delete {t : Trie} {words : Multiset (List Char)} (h : Represents t words)
    (word : List Char) :
    Represents (t.delete word).1 (words.erase word) ∧
      (t.delete word).2 = decide (word ∈ words) := by
  rw [delete_eq]
  by_cases held : word ∈ words
  · rw [if_pos ((h.contains_iff word).mpr held)]
    refine ⟨⟨h.pruned.remove word, fun other => ?_⟩, by simp [held]⟩
    rw [h.pruned.count_remove, h.counts]
    by_cases same : other = word
    · rw [same, if_pos rfl, Multiset.count_erase_self]
    · rw [if_neg same, Multiset.count_erase_of_ne same, Nat.sub_zero]
  · rw [if_neg (fun contained => held ((h.contains_iff word).mp contained)),
      Multiset.erase_of_notMem held]
    exact ⟨h, by simp [held]⟩

/-- A change does to the lexicon what it means for the words. -/
theorem step {t : Trie} {words : Multiset (List Char)} (h : Represents t words)
    (change : LexiconChange) :
    Represents (change.onTrie t).1 (change.onWords words).1 ∧
      (change.onTrie t).2 = (change.onWords words).2 := by
  cases change with
  | insert word => exact ⟨h.insert word, rfl⟩
  | extend more => exact ⟨h.extend more, rfl⟩
  | delete word =>
      obtain ⟨left, answer⟩ := h.delete word
      exact ⟨left, congrArg some answer⟩

theorem run {t : Trie} {words : Multiset (List Char)} (h : Represents t words)
    (changes : List LexiconChange) :
    let done := LexiconChange.run LexiconChange.onTrie t changes
    let meant := LexiconChange.run LexiconChange.onWords words changes
    Represents done.1 meant.1 ∧ done.2 = meant.2 := by
  induction changes generalizing t words with
  | nil => exact ⟨h, rfl⟩
  | cons change changes ih =>
      obtain ⟨stepped, answer⟩ := h.step change
      obtain ⟨done, answers⟩ := ih stepped
      exact ⟨done, by simp only [LexiconChange.run, answer, answers]⟩

end Represents

/-- The lexicon that changes make of the empty one, and their answers. -/
def after (changes : List LexiconChange) : Trie × List (Option Bool) :=
  LexiconChange.run LexiconChange.onTrie .empty changes

end Trie

/-- The words that changes leave, and the answers they should get. -/
def LexiconChange.wordsAfter (changes : List LexiconChange) :
    Multiset (List Char) × List (Option Bool) :=
  LexiconChange.run LexiconChange.onWords 0 changes

theorem Trie.represents_after (changes : List LexiconChange) :
    (after changes).1.Represents (LexiconChange.wordsAfter changes).1 ∧
      (after changes).2 = (LexiconChange.wordsAfter changes).2 :=
  Represents.empty.run changes

/-- A lexicon is a multiset of words. After any changes it holds exactly the words that are in the
    multiset, and every deletion has answered right. A further deletion answers whether the word is
    there and takes out one occurrence of it and of no other word. -/
theorem lexicon_is_multiset (changes : List LexiconChange) :
    let t := (Trie.after changes).1
    let words := (LexiconChange.wordsAfter changes).1
    (Trie.after changes).2 = (LexiconChange.wordsAfter changes).2 ∧
      ∀ word, t.count word = words.count word ∧
        (t.contains word = true ↔ 0 < words.count word) ∧
        ((t.delete word).2 = true ↔ 0 < words.count word) ∧
        ∀ other, (t.delete word).1.count other =
          if other = word then words.count word - 1 else words.count other := by
  intro t words
  obtain ⟨represents, answers⟩ := Trie.represents_after changes
  refine ⟨answers, fun word => ⟨represents.counts word, ?_, ?_, fun other => ?_⟩⟩
  · rw [Multiset.count_pos]
    exact represents.contains_iff word
  · rw [Multiset.count_pos, (represents.delete word).2, decide_eq_true_iff]
  · rw [(represents.delete word).1.counts]
    split
    · rename_i same
      rw [same, Multiset.count_erase_self]
    · rename_i different
      exact Multiset.count_erase_of_ne different _

end Highlight
