/-! # Counted word trees

A lexicon of words as a tree of characters. Each branch counts how often the word that ends there
is held, so a word put in twice has to be taken out twice. Taking a word out cuts at most one link,
which is enough to leave no branch that leads to no word.
-/

namespace Highlight

/-- A lexicon: the branches that leave one point of the tree. The empty word is never held, so the
    root needs no count. -/
inductive Trie where
  /-- No branch. -/
  | empty
  /-- The branch for `label`: how often the word that ends here is held, the tree `below` it, and
      the remaining branches. -/
  | branch (label : Char) (count : Nat) (below rest : Trie)
  deriving Repr, DecidableEq

namespace Trie

/-- The count and the subtree behind one label. -/
def get? (label : Char) : Trie → Option (Nat × Trie)
  | .empty => none
  | .branch other count below rest =>
    if other = label then some (count, below) else rest.get? label

/-- Replace the branch of a label, or add it after the others. -/
def set : Trie → Char → Nat → Trie → Trie
  | .empty, label, count, below => .branch label count below .empty
  | .branch other otherCount otherBelow rest, label, count, below =>
    if other = label then .branch label count below rest
    else .branch other otherCount otherBelow (rest.set label count below)

/-- Take away the branch of a label. -/
def drop (label : Char) : Trie → Trie
  | .empty => .empty
  | .branch other count below rest =>
    if other = label then rest else .branch other count below (rest.drop label)

/-- How often a word is held. -/
def count : List Char → Trie → Nat
  | [], _ => 0
  | [c], t => match t.get? c with
    | some (n, _) => n
    | none => 0
  | c :: word, t => match t.get? c with
    | some (_, below) => below.count word
    | none => 0

/-- Put a word in once more. The empty word is ignored. -/
def insert : List Char → Trie → Trie
  | [], t => t
  | c :: word, t =>
    let (n, below) := (t.get? c).getD (0, .empty)
    t.set c (if word.isEmpty then n + 1 else n) (below.insert word)

/-- Whether the word is held. -/
def contains (word : List Char) (t : Trie) : Bool :=
  t.count word > 0

/-- Whether the tree has a path along `stem`. The empty stem is always there. -/
def hasStem : List Char → Trie → Bool
  | [], _ => true
  | c :: stem, t => match t.get? c with
    | some (_, below) => below.hasStem stem
    | none => false

/-- The number of branches that leave this point. -/
def degree : Trie → Nat
  | .empty => 0
  | .branch _ _ _ rest => rest.degree + 1

/-- Count the word that ends behind a path once less. -/
def lower : List Char → Trie → Trie
  | [], t => t
  | c :: word, t => match t.get? c with
    | none => t
    | some (n, below) => t.set c (if word.isEmpty then n - 1 else n) (below.lower word)

/-- Whether a word is held once and none goes on behind it. -/
def endsAlone : List Char → Trie → Bool
  | [], _ => false
  | c :: word, t => match t.get? c with
    | none => false
    | some (n, below) =>
      if word.isEmpty then n == 1 && below == .empty else below.endsAlone word

/-- How far along a word, but before its end, the last fork stands: a point with several branches
    or one where another word ends. `count` is the one of the point that the way starts from. -/
def lastFork? (count : Nat) : List Char → Trie → Option Nat
  | [], _ => none
  | c :: word, t => match t.get? c with
    | none => none
    | some (n, below) => match below.lastFork? n word with
      | some depth => some (depth + 1)
      | none => if 1 < t.degree ∨ 0 < count then some 0 else none

/-- Cut the link that goes on along a word behind its first `depth` characters. -/
def cut : Nat → List Char → Trie → Trie
  | _, [], t => t
  | 0, c :: _, t => t.drop c
  | depth + 1, c :: word, t => match t.get? c with
    | none => t
    | some (n, below) => t.set c n (below.cut depth word)

/-- Take one occurrence of a word out, if it is held; says whether it was. A word that ends alone
    takes its way along: the link behind the last fork, or behind the root, is cut. -/
def delete (word : List Char) (t : Trie) : Trie × Bool :=
  if t.contains word then
    (if t.endsAlone word then t.cut ((t.lastFork? 0 word).getD 0) word else t.lower word, true)
  else (t, false)

/-- The number of points below the root. -/
def nodeCount : Trie → Nat
  | .empty => 0
  | .branch _ _ below rest => 1 + below.nodeCount + rest.nodeCount

/-- Whether no word is held. -/
def isEmpty : Trie → Bool
  | .empty => true
  | .branch .. => false

/-- Put in several words, one after the other. -/
def extend (words : List (List Char)) (t : Trie) : Trie :=
  words.foldl (fun t word => t.insert word) t

/-- The lexicon of a list of words. -/
def ofList (words : List (List Char)) : Trie :=
  Trie.empty.extend words

end Trie

end Highlight
