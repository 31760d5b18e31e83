import Highlight.Proofs.Editor.Incremental
import Highlight.Proofs.Language.Ranges
import Highlight.Proofs.Worker.Spans

/-! # Languages put in place one after the other

A text has just been loaded, and languages are put in place without an edit in between. The keyword
worker may come to rest at any time or not at all. Each language makes the whole text wait anew, so
what shows in the end depends on the last one alone, and it is what can be read off the text.
-/

namespace Highlight

namespace Editor

/-- The editors that show a freshly loaded text in which languages have been put in place, with the
    last of them, if any. Keywords are on and the keyword worker is alive; what waits for it from
    before the text was loaded does not matter. -/
inductive Showing (text : List Char) : Option (Option Language) → Editor → Prop
  | setText {e : Editor} (ready : e.highlighter.keywords.control.Ready)
      (enabled : e.highlighter.keywordsEnabled = true) :
      Showing text none { e with session := (e.session.setText text).1 }
  | openFile {e : Editor} {path content : String} {session : Session}
      (ready : e.highlighter.keywords.control.Ready)
      (enabled : e.highlighter.keywordsEnabled = true)
      (opened : e.session.openFile e.files path = .ok session)
      (read : e.files.readText path = .ok content) (loaded : content.toList = text) :
      Showing text none { e with session }
  | language {last : Option (Option Language)} {e : Editor} (run : Showing text last e)
      (language : Option Language) : Showing text (some language) (e.setLanguage language)
  | keywords {last : Option (Option Language)} {e : Editor} (run : Showing text last e) :
      Showing text last e.settleKeywords
  | brackets {last : Option (Option Language)} {e : Editor} (run : Showing text last e) :
      Showing text last e.settleBrackets

/-! ## Coming to rest -/

theorem Due.settleBrackets {e : Editor} {reader : Bus.Cursor} {first last : Nat}
    (h : Due e reader first last) : Due e.settleBrackets reader first last := by
  obtain ⟨connectors, drawn⟩ := BracketWorker.settle_document e.highlighter.brackets e.document
  have document : e.settleBrackets.document = { e.document with connectors } := drawn
  refine ⟨⟨?_, h.idle, h.ready, h.enabled, h.read⟩, ?_, h.ordered, ?_, ?_, ?_⟩
  all_goals rw [document]
  · exact ⟨h.formed.count, h.formed.distinct, h.formed.issued⟩
  · exact h.tidy
  · exact h.inside
  · exact h.waits
  · exact h.others

theorem Answered.settleBrackets {e : Editor} {reader : Bus.Cursor} (h : Answered e reader) :
    Answered e.settleBrackets reader := by
  rcases h with synced | ⟨first, last, due⟩
  · exact .inl synced.settleBrackets
  · exact .inr ⟨first, last, due.settleBrackets⟩

/-- The worker comes to rest idle and in the same language. -/
theorem Answered.at_rest {e : Editor} {reader : Bus.Cursor} (h : Answered e reader) :
    e.settleKeywords.highlighter.keywords.control.idle = true ∧
      e.settleKeywords.language = e.language := by
  rcases h with synced | ⟨first, last, due⟩
  · have settled := KeywordWorker.settle_empty synced.ready synced.empty e.document
    simp only [Editor.settleKeywords, language, settled, and_self]
  · have settled := KeywordWorker.settle_single due.ready due.waits e.document
    have pass := KeywordJob.restyle_stretch due.formed due.tidy due.ordered due.inside due.idle
    simp only [language] at pass
    rw [pass] at settled
    simp only [Editor.settleKeywords, language, settled, and_self]

/-! ## What lasts from one language to the next -/

/-- The text is in place and can be styled; once the last language is in place, the styling of all
    of it waits or is done. -/
structure Shown (text : List Char) (last : Option (Option Language)) (e : Editor) : Prop where
  formed : e.document.WellFormed
  tidy : e.document.Tidy
  text_eq : e.document.text = text
  ready : e.highlighter.keywords.control.Ready
  enabled : e.highlighter.keywordsEnabled = true
  answered : ∀ language, last = some language → (∀ l ∈ language, l.Idle) →
    e.language = language ∧ Answered e e.session.bus.log.length

theorem Shown.loaded {e : Editor} {session : Session} {d : Document} {text : List Char}
    {path : Option String} (document : session.document = { (d.setText text).1 with path })
    (ready : e.highlighter.keywords.control.Ready)
    (enabled : e.highlighter.keywordsEnabled = true) : Shown text none { e with session } := by
  have formed := Document.WellFormed.setText d text
  refine ⟨?_, ?_, ?_, ready, enabled, ?_⟩
  · change session.document.WellFormed
    rw [document]
    exact ⟨formed.count, formed.distinct, formed.issued⟩
  · change session.document.Tidy
    rw [document]
    exact Document.tidy_setText d text
  · change session.document.text = text
    rw [document]
    rfl
  · intro language installed
    cases installed

theorem Shown.setLanguage {text : List Char} {last : Option (Option Language)} {e : Editor}
    (h : Shown text last e) (language : Option Language) :
    Shown text (some language) (e.setLanguage language) := by
  have keywords := Highlighter.keywords_setLanguage h.enabled e.document language
  have enabled := (Highlighter.keywordsEnabled_setLanguage e.highlighter e.document language).trans
    h.enabled
  refine ⟨h.formed, h.tidy, h.text_eq, ?_, enabled, ?_⟩
  · have ready := ready_setLanguage (w := e.highlighter.keywords.clearIntervals) h.ready language
    change (e.highlighter.setLanguage e.document language).1.keywords.control.Ready
    rw [keywords]
    exact ready.rest _ _
  · intro language' installed idle
    cases installed
    refine ⟨?_, .inr ⟨0, _, .renewed h.formed h.tidy idle h.ready enabled keywords⟩⟩
    change (e.highlighter.setLanguage e.document language).1.keywords.job.language = language
    rw [keywords]
    rfl

theorem Shown.settleKeywords {text : List Char} {last : Option (Option Language)} {e : Editor}
    (h : Shown text last e) : Shown text last e.settleKeywords := by
  have restyled := e.highlighter.keywords.settle_restyles e.document
  refine ⟨restyled.formed h.formed, restyled.tidy h.tidy, restyled.text.trans h.text_eq,
    KeywordWorker.settle_ready h.ready _, h.enabled, ?_⟩
  intro language installed idle
  obtain ⟨active, answered⟩ := h.answered language installed idle
  exact ⟨answered.at_rest.2.trans active, .inl answered.settleKeywords⟩

theorem Shown.settleBrackets {text : List Char} {last : Option (Option Language)} {e : Editor}
    (h : Shown text last e) : Shown text last e.settleBrackets := by
  obtain ⟨connectors, drawn⟩ := BracketWorker.settle_document e.highlighter.brackets e.document
  have document : e.settleBrackets.document = { e.document with connectors } := drawn
  refine ⟨?_, ?_, ?_, h.ready, h.enabled, ?_⟩
  · rw [document]
    exact ⟨h.formed.count, h.formed.distinct, h.formed.issued⟩
  · rw [document]
    exact h.tidy
  · rw [document]
    exact h.text_eq
  · intro language installed idle
    obtain ⟨active, answered⟩ := h.answered language installed idle
    exact ⟨active, answered.settleBrackets⟩

theorem Showing.shown {text : List Char} {last : Option (Option Language)} {e : Editor}
    (run : Showing text last e) : Shown text last e := by
  induction run with
  | setText ready enabled => exact .loaded rfl ready enabled
  | openFile ready enabled opened read loaded =>
      simp only [Session.openFile, read] at opened
      split at opened
      · cases opened
        subst loaded
        exact .loaded rfl ready enabled
      · cases opened
  | language run language ih => exact ih.setLanguage language
  | keywords run ih => exact ih.settleKeywords
  | brackets run ih => exact ih.settleBrackets

end Editor

/-- What a full highlight means. When the keyword worker has come to rest, the styled ranges are
    those that the last language gives to the text, whatever was in place before; and each of them
    is a slice of the text that a group of the language holds, in a style of that group. The last
    language comes as it was loaded, without matches that wait. -/
theorem full_highlight {text : List Char} {language : Option Language} {e : Editor}
    (run : e.Showing text (some language)) (idle : ∀ l ∈ language, l.Idle) :
    let done := e.settleKeywords
    (done.highlighter.keywords.control.idle = true ∧
      done.highlighter.keywords.job.backlog = {} ∧ done.language = language ∧
      done.document.text = text) ∧
      done.document.styledRanges = rangesFor language text ∧
      ∀ r ∈ done.document.styledRanges, ∃ l ∈ language, ∃ g ∈ l.groups,
        g.contains ((text.take r.stop).drop r.start) = true ∧ r.style ∈ g.styles := by
  intro done
  have shown := run.shown
  have same : done.document.text = text := shown.settleKeywords.text_eq
  obtain ⟨active, answered⟩ := shown.answered language rfl idle
  obtain ⟨rest, kept⟩ := answered.at_rest
  have synced := answered.settleKeywords
  have ranges : done.document.styledRanges = rangesFor language text := by
    rw [← kept.trans active, ← same]
    exact synced.styled.ranges_eq synced.formed
  refine ⟨⟨rest, synced.empty, kept.trans active, same⟩, ranges, ?_⟩
  intro r member
  rw [ranges] at member
  exact rangesFor_slice member

/-- An editor without text and files; its keyword worker has been started in no language. -/
def Editor.launched : Editor where
  session := .new {}
  highlighter := {
    keywords := .launch none
    brackets := {}
    registry := { root := "", mappingPath := "", definitionsDirectory := "", mapping := {} }
    keywordsEnabled := true
    bracketsEnabled := true }
  files := {}

/-- A language that styles another word is replaced after the worker has come to rest. Of the two
    weights of the group only the second shows. -/
theorem full_highlight_replaced : ∃ (e : Editor) (l : Language),
    e.Showing ['f', 'n', ' ', 'x', '\r', '\n', 'f', 'n'] (some (some l)) ∧
      e.settleKeywords.document.styledRanges = [⟨0, 2, .weight 700⟩, ⟨6, 8, .weight 700⟩] := by
  let first : Language := ⟨"x", [], [.ofWords .normal [['x']] [.weight 500]]⟩
  let second : Language := ⟨"k", [],
    [.ofWords .normal [['f', 'n']] [.weight 500, .weight 700], .ofWords .normal [['f', 'n']] []]⟩
  have loaded : Editor.Showing ['f', 'n', ' ', 'x', '\r', '\n', 'f', 'n'] none _ :=
    .setText (e := Editor.launched) ⟨rfl, rfl, rfl, rfl⟩ rfl
  have run := (loaded.language (some first)).keywords.language (some second)
  have idle : ∀ l ∈ some second, l.Idle := by
    rintro l ⟨⟩
    simp [Language.Idle, second, Group.ofWords]
  obtain ⟨-, ranges, -⟩ := full_highlight run idle
  exact ⟨_, second, run, ranges.trans (by decide +kernel)⟩

/-- A language can be offered a match before it is put in place. The match waits for the first pass,
    which styles it along with the tokens that it finds: here a word that no group holds. -/
theorem full_highlight_shows_waiting_match :
    let text := ['y', 'y', ' ', 'z', 'z']
    let e : Editor := { Editor.launched with session := (Editor.launched.session.setText text).1 }
    let l : Language := ⟨"z", [], [.ofWords .normal [['z', 'z']] [.weight 700]]⟩
    let offered := (l.tryPut ⟨e.document.place 0 0, e.document.place 0 2, ['z', 'z']⟩).1
    let done := (e.setLanguage (some offered)).settleKeywords
    (e.setLanguage (some offered)).Showing text (some (some offered)) ∧
      (done.highlighter.keywords.control.idle = true ∧
        done.highlighter.keywords.job.backlog = {} ∧ done.document.text = text) ∧
      done.document.styledRanges = [⟨0, 2, .weight 700⟩, ⟨3, 5, .weight 700⟩] ∧
      rangesFor (some offered) text = [⟨3, 5, .weight 700⟩] ∧
      ∀ g ∈ offered.groups, g.contains ((text.take 2).drop 0) = false := by
  intro text e l offered done
  have run : (e.setLanguage (some offered)).Showing text (some (some offered)) :=
    .language (.setText ⟨rfl, rfl, rfl, rfl⟩ rfl) (some offered)
  have painted : Document.rangesFrom 0 done.document.blocks done.document.lines =
      [⟨0, 2, .weight 700⟩, ⟨3, 5, .weight 700⟩] := by decide +kernel
  refine ⟨run, by decide +kernel, ?_, by decide +kernel, by decide +kernel⟩
  rw [Document.styledRanges, painted]
  exact List.mergeSort_of_pairwise (by decide)

end Highlight
