import Highlight.Document.View

/-! # Brackets

Brackets are tracked in one list, ordered by their place in the document. Edits never shift the
list; entries whose place is gone are dropped later, and lines that changed are scanned anew. A
stack pairs the list up, and pairs over several lines are joined by a connector.
-/

namespace Highlight

/-- Which side of a pair a bracket is. -/
inductive BracketKind where
  | opening
  | closing
  deriving Repr, DecidableEq

/-- A bracket in the document. -/
structure Bracket where
  position : Position
  kind : BracketKind
  deriving Repr, DecidableEq

/-- The two characters that count as brackets. -/
structure BracketPair where
  opening : Char := '\x7b'
  closing : Char := '\x7d'
  deriving Repr, DecidableEq

/-- The side a character stands for; the opening side wins if both are the same. -/
def BracketPair.kindOf? (p : BracketPair) (c : Char) : Option BracketKind :=
  if c = p.opening then some .opening else if c = p.closing then some .closing else none

/-- The character of a side. -/
def BracketPair.delimiter (p : BracketPair) : BracketKind → Char
  | .opening => p.opening
  | .closing => p.closing

/-- A bracket with its place in the document; none if its position is stale. -/
abbrev PlacedBracket := Option (Nat × Nat) × Bracket

/-- Look up the place of a bracket. -/
def Bracket.placeIn (d : Document) (b : Bracket) : PlacedBracket :=
  (d.resolve? b.position, b)

/-- Put a bracket that stands at `place` into a list. It is refused, with none, if one is tracked
    there; entries with stale positions are passed over. -/
def insertAt? (place : Nat × Nat) (b : Bracket) :
    List PlacedBracket → Option (List PlacedBracket)
  | [] => some [(some place, b)]
  | other :: rest =>
    match other.1.map (Document.comparePlaces place) with
    | some .lt => some ((some place, b) :: other :: rest)
    | some .eq => none
    | _ => (insertAt? place b rest).map (other :: ·)

/-- Put a bracket into a list of placed ones. It is refused, with none, if its position is stale
    or one is tracked there. -/
def insertPlaced? (d : Document) (b : Bracket) (list : List PlacedBracket) :
    Option (List PlacedBracket) :=
  (d.resolve? b.position).bind fun place => insertAt? place b list

/-- Put a bracket into a list at its place. It is refused, with none, if its position is stale or
    one is tracked there. -/
def insertOrdered? (d : Document) (b : Bracket) (list : List Bracket) : Option (List Bracket) :=
  (insertPlaced? d b (list.map (·.placeIn d))).map fun list => list.map (·.2)

/-- The brackets in a run, with their places. -/
def Run.brackets (pair : BracketPair) (r : Run) : List Bracket :=
  r.text.zipIdx.filterMap fun (c, i) => (pair.kindOf? c).map fun kind => ⟨r.positionAt i, kind⟩

/-- The connector between the brackets of a pair: a line from below the opening one down to the
    closing one. There is none if either is gone, if both are in one block, or if the line lies
    above or below the view. -/
def connector? (d : Document) (stroke : Stroke) (first last : Bracket) : Option Connector := do
  if (← d.blockOf? first.position) = (← d.blockOf? last.position) then none
  let upper ← d.rectOf? first.position
  let lower ← d.rectOf? last.position
  if lower.y < 0 ∨ upper.y > d.geometry.viewportHeight then none
  return ⟨upper.x + upper.width / 2, upper.bottom, lower.y - upper.bottom, stroke⟩

/-- The pairs of a list that match, by their closing brackets; `stack` holds the open ones. A
    closing bracket without a partner is passed over. -/
def matchPairs (stack : List Bracket) : List Bracket → List (Bracket × Bracket)
  | [] => []
  | b :: rest =>
    match b.kind, stack with
    | .opening, _ => matchPairs (b :: stack) rest
    | .closing, [] => matchPairs [] rest
    | .closing, first :: stack => (first, b) :: matchPairs stack rest

/-- The connectors of a list of brackets. -/
def connectorLines (d : Document) (stroke : Stroke) (brackets : List Bracket) : List Connector :=
  (matchPairs [] brackets).filterMap fun (first, last) => connector? d stroke first last

/-- The tracked brackets, and the blocks they are in. -/
structure Tracker where
  brackets : List Bracket := []
  known : List BlockId := []
  deriving Repr, DecidableEq

namespace Tracker

/-- Whether a tracked bracket is still what it was. -/
def isCurrent (pair : BracketPair) (d : Document) (b : Bracket) : Bool :=
  d.charAt? b.position = some (pair.delimiter b.kind)

/-- Drop the brackets that are gone, and the blocks that are left without any. -/
def invalidate (pair : BracketPair) (d : Document) (t : Tracker) : Tracker :=
  let brackets := t.brackets.filter (isCurrent pair d)
  ⟨brackets, t.known.filter fun id => brackets.any (·.position.block == id)⟩

/-- Forget the brackets of some blocks. -/
def forget (blocks : List BlockId) (t : Tracker) : Tracker :=
  ⟨t.brackets.filter fun b => !blocks.contains b.position.block,
    t.known.filter fun id => !blocks.contains id⟩

/-- Track one bracket more, unless one is tracked at its place. The brackets go along with their
    places, which are looked up once for a whole scan. -/
def track (d : Document) (t : List PlacedBracket × List BlockId) (b : Bracket) :
    List PlacedBracket × List BlockId :=
  match insertPlaced? d b t.1 with
  | some placed =>
    (placed, if t.2.contains b.position.block then t.2 else t.2 ++ [b.position.block])
  | none => t

/-- Track several brackets more. -/
def trackAll (d : Document) (t : Tracker) (brackets : List Bracket) : Tracker :=
  let (placed, known) := brackets.foldl (track d) (t.brackets.map (·.placeIn d), t.known)
  ⟨placed.map (·.2), known⟩

/-- The part of a region that can still be scanned: all of it, or the last block if its start is
    gone. If its end is gone, a later change has queued a region of its own. -/
def scanBounds? (d : Document) (i : Interval) : Option (Position × Position) :=
  if d.isValid i.stop then
    some (if d.isValid i.start then i.start else i.stop.blockStart, i.stop)
  else none

/-- Bring the list up to date with a changed region. -/
def update (pair : BracketPair) (d : Document) (i : Interval) (t : Tracker) : Tracker :=
  let t := t.invalidate pair d
  match scanBounds? d i with
  | none => t
  | some (start, stop) =>
    let runs := d.runsBetween start stop
    let t := t.forget ((runs.map (·.start.block)).filter t.known.contains)
    t.trackAll d (runs.flatMap (·.brackets pair))

end Tracker

end Highlight
