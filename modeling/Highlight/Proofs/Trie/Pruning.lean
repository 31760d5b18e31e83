import Highlight.Trie
import Mathlib.Tactic.Common

/-! # One cut is enough

A lexicon is pruned if each of its points ends a word or leads on to one. Taking a word out could
leave a whole way without words behind. Pruning that way step by step from its end comes to the same
as the one cut behind the last fork that `Trie.delete` makes.
-/

namespace Highlight.Trie

/-! ## Single branches -/

theorem get?_set (t : Trie) (c other : Char) (n : Nat) (below : Trie) :
    (t.set c n below).get? other = if c = other then some (n, below) else t.get? other := by
  induction t with
  | empty => rfl
  | branch label m under rest _ ih =>
      rw [set]
      split
      · rename_i same
        subst same
        simp only [get?]
        split <;> rfl
      · rename_i different
        simp only [get?, ih]
        split
        · rename_i here
          subst here
          rw [if_neg (Ne.symm different)]
        · rfl

/-- The count and the subtree behind one label; without a branch there is no word and no way on. -/
def point (t : Trie) (c : Char) : Nat × Trie :=
  (t.get? c).getD (0, .empty)

theorem point_of_get? {t : Trie} {c : Char} {p : Nat × Trie} (found : t.get? c = some p) :
    t.point c = p := by
  rw [point, found, Option.getD_some]

theorem point_set (t : Trie) (c other : Char) (n : Nat) (below : Trie) :
    (t.set c n below).point other = if c = other then (n, below) else t.point other := by
  rw [point, get?_set]
  split <;> rfl

theorem set_ne_empty (t : Trie) (c : Char) (n : Nat) (below : Trie) :
    t.set c n below ≠ .empty := by
  cases t with
  | empty => simp [set]
  | branch label m under rest =>
      rw [set]
      split <;> simp

theorem degree_drop {t : Trie} {c : Char} {point : Nat × Trie} (found : t.get? c = some point) :
    (t.drop c).degree + 1 = t.degree := by
  induction t with
  | empty => cases found
  | branch label m under rest _ ih =>
      rw [get?] at found
      rw [drop]
      split at found
      · rename_i same
        rw [if_pos same, degree]
      · rename_i different
        rw [if_neg different, degree, degree, ih found]

theorem eq_empty_of_degree {t : Trie} (none : t.degree = 0) : t = .empty := by
  cases t with
  | empty => rfl
  | branch label m under rest => cases none

/-! ## Pruned lexicons -/

/-- No label leaves a point twice, and every point ends a word or has a branch. -/
inductive Pruned : Trie → Prop
  | empty : Pruned .empty
  | branch {label : Char} {count : Nat} {below rest : Trie} (fresh : rest.get? label = none)
      (alive : 0 < count ∨ below ≠ .empty) (under : Pruned below) (others : Pruned rest) :
      Pruned (.branch label count below rest)

namespace Pruned

theorem point {t : Trie} (h : Pruned t) (c : Char) : Pruned (t.point c).2 := by
  induction h with
  | empty => exact .empty
  | branch fresh alive under others _ ih =>
      rw [Trie.point, get?]
      split
      · exact under
      · exact ih

theorem alive {t : Trie} (h : Pruned t) {c : Char} {n : Nat} {below : Trie}
    (found : t.get? c = some (n, below)) : 0 < n ∨ below ≠ .empty := by
  induction h with
  | empty => cases found
  | branch fresh alive under others _ ih =>
      rw [get?] at found
      split at found
      · cases found
        exact alive
      · exact ih found

theorem set {t : Trie} (h : Pruned t) (c : Char) {n : Nat} {below : Trie} (under : Pruned below)
    (alive : 0 < n ∨ below ≠ .empty) : Pruned (t.set c n below) := by
  induction h with
  | empty => exact .branch rfl alive under .empty
  | branch fresh alive' under' others _ ih =>
      rw [Trie.set]
      split
      · rename_i same
        subst same
        exact .branch fresh alive under others
      · rename_i different
        refine .branch ?_ alive' under' ih
        rw [get?_set, if_neg (Ne.symm different), fresh]

theorem get?_drop {t : Trie} (h : Pruned t) (c other : Char) :
    (t.drop c).get? other = if c = other then none else t.get? other := by
  induction h with
  | empty => simp [Trie.drop, get?]
  | branch fresh alive under others _ ih =>
      rw [Trie.drop]
      split
      · rename_i same
        subst same
        simp only [get?]
        split
        · rename_i here
          subst here
          exact fresh
        · rfl
      · rename_i different
        simp only [get?, ih]
        split
        · rename_i here
          subst here
          rw [if_neg (Ne.symm different)]
        · rfl

theorem drop {t : Trie} (h : Pruned t) (c : Char) : Pruned (t.drop c) := by
  induction h with
  | empty => exact .empty
  | branch fresh alive under others _ ih =>
      rw [Trie.drop]
      split
      · exact others
      · refine .branch ?_ alive under ih
        rw [others.get?_drop, fresh, ite_self]

theorem insert {t : Trie} (h : Pruned t) (word : List Char) : Pruned (t.insert word) := by
  induction word generalizing t with
  | nil => exact h
  | cons c word ih =>
      refine h.set c (ih (h.point c)) ?_
      cases word with
      | nil => exact .inl (Nat.succ_pos _)
      | cons c' word => exact .inr (set_ne_empty _ _ _ _)

end Pruned

/-! ## Pruning step by step -/

/-- Replace the branch of a label, or drop it if it leads nowhere. -/
def replace (t : Trie) (c : Char) (n : Nat) (below : Trie) : Trie :=
  if n = 0 ∧ below = .empty then t.drop c else t.set c n below

/-- Take one occurrence of a word out and, on the way back, drop every branch that leads nowhere. -/
def remove : List Char → Trie → Trie
  | [], t => t
  | c :: word, t =>
    t.replace c (if word.isEmpty then (t.point c).1 - 1 else (t.point c).1)
      ((t.point c).2.remove word)

theorem Pruned.replace {t : Trie} (h : Pruned t) (c : Char) (n : Nat) {below : Trie}
    (under : Pruned below) : Pruned (t.replace c n below) := by
  rw [Trie.replace]
  split
  · exact h.drop c
  · rename_i alive
    rw [not_and_or] at alive
    exact h.set c under (alive.imp_left Nat.pos_of_ne_zero)

theorem Pruned.point_replace {t : Trie} (h : Pruned t) (c other : Char) (n : Nat) (below : Trie) :
    (t.replace c n below).point other = if c = other then (n, below) else t.point other := by
  rw [Trie.replace]
  split
  · rename_i nothing
    rw [nothing.1, nothing.2, Trie.point, h.get?_drop]
    split <;> rfl
  · exact point_set t c other n below

theorem Pruned.remove {t : Trie} (h : Pruned t) (word : List Char) : Pruned (t.remove word) := by
  induction word generalizing t with
  | nil => exact h
  | cons c word ih => exact h.replace c _ (ih (h.point c))

/-! ## What a deletion comes to -/

theorem lower_ne_empty {t : Trie} (some_word : t ≠ .empty) (word : List Char) :
    t.lower word ≠ .empty := by
  cases word with
  | nil => exact some_word
  | cons c word =>
      rw [lower]
      split
      · exact some_word
      · exact set_ne_empty _ _ _ _

@[simp] theorem count_empty (word : List Char) : Trie.empty.count word = 0 := by
  match word with
  | [] => rfl
  | [_] => rfl
  | _ :: _ :: _ => rfl

/-- A word that others go on from, or that stays held, leaves its way as it is. -/
theorem lower_eq_remove {t : Trie} {word : List Char} (held : 0 < t.count word)
    (stays : t.endsAlone word = false) : t.lower word = t.remove word := by
  induction word generalizing t with
  | nil => rfl
  | cons c word ih =>
      rw [lower, remove, replace]
      cases found : t.get? c with
      | none =>
          cases word <;> simp [count, found] at held
      | some p =>
          obtain ⟨n, below⟩ := p
          rw [endsAlone, found] at stays
          rw [point_of_get? found]
          cases word with
          | nil =>
              simp only [count, found] at held
              simp only [List.isEmpty_nil, if_true, Bool.and_eq_false_iff, beq_eq_false_iff_ne]
                at stays
              have alive : ¬(n - 1 = 0 ∧ below = .empty) := by
                rintro ⟨last, leaf⟩
                rcases stays with several | goes_on
                · omega
                · exact goes_on leaf
              simp only [List.isEmpty_nil, if_true, remove, lower, if_neg alive]
          | cons c' word =>
              simp only [count, found] at held
              simp only [List.isEmpty_cons, Bool.false_eq_true, if_false] at stays ⊢
              have some_word : below ≠ .empty := by
                rintro rfl
                simp at held
              rw [← ih held stays, if_neg]
              rintro ⟨-, gone⟩
              exact lower_ne_empty some_word _ gone

/-- A lone word takes along what hangs on the link behind the last fork on its way, or behind the
    root. Nothing is left only if there is no fork. -/
theorem remove_alone {t : Trie} {word : List Char} (alone : t.endsAlone word = true) (n : Nat) :
    t.remove word = t.cut ((t.lastFork? n word).getD 0) word ∧
      (t.lastFork? n word = none ↔ n = 0 ∧ t.remove word = .empty) := by
  induction word generalizing t n with
  | nil => cases alone
  | cons c word ih =>
      cases found : t.get? c with
      | none =>
          rw [endsAlone, found] at alone
          cases alone
      | some p =>
          obtain ⟨m, below⟩ := p
          -- Whether there is a fork further down decides whether the branch goes or stays.
          have further : (below.lastFork? m word = none ∧ t.remove (c :: word) = t.drop c) ∨
              ∃ depth, below.lastFork? m word = some depth ∧
                t.remove (c :: word) = t.set c m (below.cut depth word) := by
            rw [endsAlone, found] at alone
            rw [remove, point_of_get? found]
            cases word with
            | nil =>
                simp only [List.isEmpty_nil, if_true, Bool.and_eq_true, beq_iff_eq] at alone
                obtain ⟨rfl, rfl⟩ := alone
                exact .inl ⟨rfl, rfl⟩
            | cons c' word =>
                simp only [List.isEmpty_cons, Bool.false_eq_true, if_false] at alone ⊢
                obtain ⟨cut, gone⟩ := ih alone m
                rw [replace]
                cases fork : below.lastFork? m (c' :: word) with
                | none => exact .inl ⟨rfl, if_pos (gone.mp fork)⟩
                | some depth =>
                    rw [fork] at cut gone
                    exact .inr ⟨depth, rfl, by rw [if_neg (gone.not.mp (by simp)), cut]; rfl⟩
          simp only [lastFork?, found]
          rcases further with ⟨fork, dropped⟩ | ⟨depth, fork, kept⟩
          · have degree := degree_drop found
            have cut : t.cut 0 (c :: word) = t.drop c := rfl
            simp only [fork, dropped]
            by_cases here : 1 < t.degree ∨ 0 < n
            · simp only [if_pos here, Option.getD_some, cut, true_and, reduceCtorEq, false_iff]
              rintro ⟨rfl, gone⟩
              rw [gone, Trie.degree] at degree
              omega
            · simp only [if_neg here, Option.getD_none, cut, true_and, true_iff]
              exact ⟨by omega, eq_empty_of_degree (by omega)⟩
          · simp only [fork, kept, Option.getD_some, cut, found, true_and, reduceCtorEq, false_iff]
            exact fun gone => set_ne_empty _ _ _ _ gone.2

/-- The one cut that a deletion makes leaves what pruning step by step leaves. -/
theorem delete_eq (t : Trie) (word : List Char) :
    t.delete word = if t.contains word then (t.remove word, true) else (t, false) := by
  rw [delete]
  split
  · rename_i held
    rw [contains, decide_eq_true_iff] at held
    cases alone : t.endsAlone word with
    | false => simp only [Bool.false_eq_true, if_false, lower_eq_remove held alone]
    | true => simp only [if_true, (remove_alone alone 0).1]
  · rfl

end Highlight.Trie
