import Highlight.Highlighter
import Highlight.Proofs.Bracket.Tracker

/-! # Brackets do not depend on styles

The two workers write spans and connectors into the document while they work. Neither moves a place:
in documents that have the same text and the same blocks, all positions resolve alike, changes are
widened to the same regions, and the bracket list is brought up to date in the same way.
-/

namespace Highlight

namespace Document

/-- Two documents with the same text in the same blocks. -/
structure Alike (d d' : Document) : Prop where
  same : d'.id = d.id
  text : d'.text = d.text
  ids : d'.ids = d.ids

namespace Alike

theorem refl (d : Document) : Alike d d :=
  ⟨rfl, rfl, rfl⟩

theorem trans {d d' d'' : Document} (first : Alike d d') (second : Alike d' d'') : Alike d d'' :=
  ⟨second.same.trans first.same, second.text.trans first.text, second.ids.trans first.ids⟩

variable {d d' : Document} (h : Alike d d')

include h

theorem lines : d'.lines = d.lines := by
  rw [d.lines_eq, d'.lines_eq, h.text]

theorem width : d'.width = d.width := by
  funext line
  rw [Document.width, Document.width, h.lines]

theorem content : d'.content = d.content := by
  funext line
  rw [Document.content, Document.content, h.lines]

theorem place : d'.place = d.place := by
  funext line column
  rw [Document.place, Document.place, h.same, blockId?_eq, blockId?_eq, h.ids]

theorem resolve? : d'.resolve? = d.resolve? := by
  funext p
  simp only [Document.resolve?, blockIndex?_eq, h.same, h.ids, h.width]

theorem blockCount : d'.blocks.length = d.blocks.length := by
  rw [← length_ids, h.ids, length_ids]

theorem region (c : Change) : d'.region c = d.region c := by
  have bounds : d'.blockBounds? = d.blockBounds? := by
    funext offset
    rw [blockBounds?, blockBounds?, length, length, lineAt, lineAt, h.text, h.lines, h.place,
      h.width]
  simp only [Document.region, contentStart, contentEnd, bounds, h.place, h.width, h.blockCount]

theorem runsBetween : d'.runsBetween = d.runsBetween := by
  have run : d'.run? = d.run? := by
    funext line
    simp only [run?, h.content, h.place]
  funext start stop
  simp only [Document.runsBetween, h.resolve?, run]

/-- The list is brought up to date in the same way. -/
theorem update (pair : BracketPair) (i : Interval) (t : Tracker) :
    t.update pair d' i = t.update pair d i := by
  have current : Tracker.isCurrent pair d' = Tracker.isCurrent pair d := by
    funext b
    rw [Tracker.isCurrent, Tracker.isCurrent, charAt?, charAt?, h.resolve?, h.content]
  have valid : d'.isValid = d.isValid := by
    funext p
    rw [isValid, isValid, h.resolve?]
  have bounds : Tracker.scanBounds? d' i = Tracker.scanBounds? d i := by
    rw [Tracker.scanBounds?, Tracker.scanBounds?, valid]
  have track : Tracker.track d' = Tracker.track d := by
    funext s b
    simp only [Tracker.track, insertPlaced?, h.resolve?]
  have placeIn : Bracket.placeIn d' = Bracket.placeIn d := by
    funext b
    simp only [Bracket.placeIn, h.resolve?]
  simp only [Tracker.update, Tracker.invalidate, Tracker.trackAll, current, bounds, track, placeIn,
    h.runsBetween]

theorem brackets (pair : BracketPair) : d'.brackets pair = d.brackets pair := by
  have line : d'.bracketsOn pair = d.bracketsOn pair := by
    funext line
    simp only [bracketsOn, h.content, h.place]
  simp only [Document.brackets, line, h.blockCount]

end Alike

end Document

end Highlight
