import Highlight.Document.Paint
import Highlight.Token
import Highlight.Trie

/-! # Languages

A language is a list of keyword groups. The first group whose lexicon holds a word takes it, so
the order of the groups is their priority. Matches wait in their group until the language styles
the document in one go.
-/

namespace Highlight

/-- How the words of a group take part in cutting tokens. -/
inductive GroupKind where
  /-- Ordinary words. -/
  | normal
  /-- Single characters that also separate tokens. -/
  | special
  /-- Comment marks. -/
  | commentaries
  deriving Repr, DecidableEq

/-- A token with its place in the document. -/
structure Match where
  start : Position
  stop : Position
  word : List Char
  deriving Repr, DecidableEq

/-- A lexicon, the styles its words receive and the matches that wait for them. -/
structure Group where
  kind : GroupKind
  lexicon : Trie
  /-- The punctuation that occurs in the words. -/
  punctuation : List Char
  styles : List Style
  pending : List Match := []
  deriving Repr, DecidableEq

namespace Group

/-- The group of a list of words. -/
def ofWords (kind : GroupKind) (words : List (List Char)) (styles : List Style) : Group :=
  { kind, lexicon := .ofList words, punctuation := words.flatten.filter Text.isPunctuation, styles }

/-- Whether the lexicon holds a word. -/
def contains (g : Group) (word : List Char) : Bool :=
  g.lexicon.contains word

/-- Keep a match if the lexicon holds its word; says whether it does. -/
def tryPut (g : Group) (m : Match) : Group × Bool :=
  if g.contains m.word then ({ g with pending := g.pending ++ [m] }, true) else (g, false)

/-- Apply one style to one match; a refused style leaves the document alone. The number counts the
    styles written. -/
def styleMatch (m : Match) (written : Document × Nat) (style : Style) : Document × Nat :=
  match written.1.applyStyle m.start m.stop style with
  | .ok d => (d, written.2 + 1)
  | .error _ => written

/-- Apply every style to every waiting match, and forget the matches. -/
def applyStyling (g : Group) (d : Document) : Group × Document × Nat :=
  let written := g.pending.foldl (fun acc m => g.styles.foldl (styleMatch m) acc) (d, 0)
  ({ g with pending := [] }, written)

end Group

/-- A named list of groups with the file extensions it is for. -/
structure Language where
  name : String
  extensions : List String
  groups : List Group
  deriving Repr, DecidableEq

namespace Language

/-- Offer a match to the groups in order; the first that holds its word keeps it. -/
def offer (m : Match) : List Group → List Group × Bool
  | [] => ([], false)
  | g :: rest =>
    if g.contains m.word then ((g.tryPut m).1 :: rest, true)
    else
      let (rest, taken) := offer m rest
      (g :: rest, taken)

/-- Offer a match to the language; says whether a group took it. -/
def tryPut (l : Language) (m : Match) : Language × Bool :=
  let (groups, taken) := offer m l.groups
  ({ l with groups }, taken)

/-- Whether a special group holds the character as a word. -/
def isSpecial (l : Language) (c : Char) : Bool :=
  l.groups.any fun g => g.kind = .special && g.contains [c]

/-- Whether the character is punctuation of a word of another group, so that it must not separate
    tokens. -/
def isWordPunctuation (l : Language) (c : Char) : Bool :=
  l.groups.any fun g => g.kind ≠ .special && g.punctuation.contains c

/-- All waiting matches, group by group. -/
def pending (l : Language) : List Match :=
  l.groups.flatMap (·.pending)

/-- Forget the waiting matches. -/
def clearPending (l : Language) : Language :=
  { l with groups := l.groups.map fun g => { g with pending := [] } }

/-- Style the matches of the groups in order; gives the groups without them. -/
def styleGroups : List Group → Document → List Group × Document × Nat
  | [], d => ([], d, 0)
  | g :: rest, d =>
    let (g, d, written) := g.applyStyling d
    let (rest, d, more) := styleGroups rest d
    (g :: rest, d, written + more)

/-- Style the waiting matches of all groups; the number counts the styles written. -/
def applyStyling (l : Language) (d : Document) : Language × Document × Nat :=
  let (groups, d, written) := styleGroups l.groups d
  ({ l with groups }, d, written)

end Language

/-- Whether a character separates tokens: a special character of the language, or punctuation other
    than the underscore that occurs in none of its words. Without a language all such punctuation
    separates. -/
def isSeparator (language : Option Language) (c : Char) : Bool :=
  language.any (·.isSpecial c) ||
    (Text.isPunctuation c && c != '_' && !language.any (·.isWordPunctuation c))

/-- The tokens of a run as matches in its block. -/
def Run.matches (r : Run) (language : Option Language) : List Match :=
  (tokenize (isSeparator language) r.text).map fun t =>
    ⟨r.positionAt t.start, r.positionAt t.stop, t.text⟩

end Highlight
