import Highlight.Proofs.Editor.Operation
import Highlight.Proofs.Language.Loading
import Highlight.Proofs.Worker.Bracket
import Highlight.Proofs.Worker.Scratch

/-! # Incremental highlighting

After every operation of a session the styles are those of a document that was styled from scratch.
The invariant is per line: each line carries exactly what the active language gives to its content.
An edit breaks it only on the lines of its region, and a pass over the region restores it there.
-/

namespace Highlight

namespace Editor

/-- The states of an editor whose highlighter is started, has keywords on and is never suspended.
    No edit that goes through starts directly behind a carriage return. The bracket worker may come
    to rest at any time. -/
inductive Runs : Editor → Bus.Cursor → Prop
  | opened {config : Config} {registry : Registry} {highlighter : Highlighter}
      (enabled : config.keywordsEnabled = true)
      (made : Highlighter.new registry config = .ok highlighter) (files : FileTree)
      (id : DocumentId) :
      Runs { session := .new config id, highlighter := highlighter.start.1, files } 0
  | operation {e : Editor} {reader : Bus.Cursor} (run : Runs e reader) (files : FileTree)
      (op : Operation) (clear : ∀ x done, op = .edit x → x.apply e.document = .ok done →
        ¬x.BehindReturn e.document) :
      Runs (e.operate reader files op).1 (e.operate reader files op).2
  | brackets {e : Editor} {reader : Bus.Cursor} (run : Runs e reader) :
      Runs e.settleBrackets reader

end Editor

theorem Highlighter.detect_idle (h : Highlighter) (files : FileTree) (path : String) :
    ∀ l ∈ h.detect files path, l.Idle := by
  rw [detect]
  split
  · rename_i language found
    rw [Registry.forPath] at found
    split at found
    · exact Registry.load_idle found
    · cases found
      simp
  · simp

/-! ## What an operation leaves to do -/

namespace Editor

/-- The language that is active. -/
def language (e : Editor) : Option Language :=
  e.highlighter.keywords.job.language

/-- The keyword worker can work, and the reader has seen everything. -/
structure Attentive (e : Editor) (reader : Bus.Cursor) : Prop where
  formed : e.document.WellFormed
  idle : ∀ l ∈ e.language, l.Idle
  ready : e.highlighter.keywords.control.Ready
  enabled : e.highlighter.keywordsEnabled = true
  read : reader = e.session.bus.log.length

/-- Between operations: nothing waits, and every line carries what it should. -/
structure Synced (e : Editor) (reader : Bus.Cursor) : Prop extends Attentive e reader where
  empty : e.highlighter.keywords.job.backlog = {}
  styled : e.document.Styled e.language

/-- Before the worker goes on: one region of whole lines waits, and every line outside of it
    carries what it should. -/
structure Due (e : Editor) (reader : Bus.Cursor) (first last : Nat) : Prop
    extends Attentive e reader where
  tidy : e.document.Tidy
  ordered : first ≤ last
  inside : last < e.document.blocks.length
  waits : e.highlighter.keywords.job.backlog = { queue := [e.document.stretch first last] }
  others : ∀ line, ¬(first ≤ line ∧ line ≤ last) → e.document.StyledAt e.language line

theorem Due.settleKeywords {e : Editor} {reader : Bus.Cursor} {first last : Nat}
    (h : Due e reader first last) : Synced e.settleKeywords reader := by
  have settled := KeywordWorker.settle_single h.ready h.waits e.document
  have pass := KeywordJob.restyle_stretch h.formed h.tidy h.ordered h.inside h.idle
  simp only [language] at pass
  rw [pass] at settled
  have result : e.settleKeywords = { e with
      highlighter := { e.highlighter with
        keywords := ⟨{ e.highlighter.keywords.control with parked := false, idle := true },
          { language := e.language }⟩ }
      session := { e.session with
        document := e.document.restyled first last (spansFor e.language) } } := by
    rw [Editor.settleKeywords, settled]
    rfl
  rw [result]
  exact ⟨⟨h.formed.restyled _ _ _, h.idle, h.ready.rest _ _, h.enabled, h.read⟩, rfl,
    Document.styled_restyled h.others⟩

theorem Synced.settleKeywords {e : Editor} {reader : Bus.Cursor} (h : Synced e reader) :
    Synced e.settleKeywords reader := by
  have settled := KeywordWorker.settle_empty h.ready h.empty e.document
  have result : e.settleKeywords = { e with highlighter := { e.highlighter with
      keywords := { e.highlighter.keywords with
        control := { e.highlighter.keywords.control with parked := false, idle := true } } } } := by
    rw [Editor.settleKeywords, settled]
    rfl
  rw [result]
  exact ⟨⟨h.formed, h.idle, h.ready.rest _ _, h.enabled, h.read⟩, h.empty, h.styled⟩

/-- An operation has been passed on: either nothing is left to do or one region waits. -/
def Answered (e : Editor) (reader : Bus.Cursor) : Prop :=
  Synced e reader ∨ ∃ first last, Due e reader first last

theorem Answered.settleKeywords {e : Editor} {reader : Bus.Cursor} (h : Answered e reader) :
    Synced e.settleKeywords reader := by
  rcases h with synced | ⟨first, last, due⟩
  · exact synced.settleKeywords
  · exact due.settleKeywords

/-! ## Operations -/

theorem ready_setLanguage {w : KeywordWorker} (h : w.control.Ready) (language : Option Language) :
    (w.setLanguage language).control.Ready := by
  constructor <;> simp [KeywordWorker.setLanguage, Control.suspendWait, Control.suspend,
    Control.park, Control.resume, h.running, h.live, h.awake, h.quiet]

/-- With a new language all lines wait, whatever they carry. -/
theorem Due.renewed {e : Editor} {w : KeywordWorker} {language : Option Language}
    (formed : e.document.WellFormed) (tidy : e.document.Tidy) (idle : ∀ l ∈ language, l.Idle)
    (ready : w.control.Ready) (enabled : e.highlighter.keywordsEnabled = true)
    (renewed : e.highlighter.keywords =
      (w.clearIntervals.setLanguage language).push e.document.whole) :
    Due e e.session.bus.log.length 0 (e.document.blocks.length - 1) := by
  have active : e.language = language := by rw [Editor.language, renewed]; rfl
  have awake : e.highlighter.keywords.control.Ready := by
    have := ready_setLanguage (w := w.clearIntervals) ready language
    rw [renewed]
    exact this.rest _ _
  refine ⟨⟨formed, active ▸ idle, awake, enabled, rfl⟩, tidy, Nat.zero_le _,
    Nat.sub_lt formed.blocks_pos Nat.one_pos, ?_, ?_⟩
  · rw [renewed, ← Document.whole_eq_stretch]
    rfl
  · intro line outside
    exact formed.styledAt_outside fun inside => outside ⟨Nat.zero_le _, inside⟩

theorem Synced.setLanguage {e : Editor} {reader : Bus.Cursor} (h : Synced e reader)
    {language : Option Language} (idle : ∀ l ∈ language, l.Idle) (events : List Event) :
    let e' := (e.announce events).setLanguage language
    Answered e' e'.session.bus.log.length :=
  .inr ⟨0, _, .renewed h.formed (h.styled.tidy h.formed) idle h.ready
    ((Highlighter.keywordsEnabled_setLanguage _ _ _).trans h.enabled)
    (Highlighter.keywords_setLanguage h.enabled _ _)⟩

/-- Events that the highlighter does not react to. -/
theorem Synced.announce {e : Editor} {reader : Bus.Cursor} (h : Synced e reader)
    (events : List Event) :
    Answered (e.announce events) (e.announce events).session.bus.log.length :=
  .inl ⟨⟨h.formed, h.idle, h.ready, h.enabled, rfl⟩, h.empty, h.styled⟩

theorem Synced.languageUploaded {e : Editor} {reader : Bus.Cursor} (h : Synced e reader)
    (name : String) :
    let e' := ((e.announce [.languageUploaded name]).handleLogged (.languageUploaded name)).1
    Answered e' e'.session.bus.log.length := by
  intro e'
  cases shown : e.highlighter.path with
  | none =>
      have handled : e.highlighter.handle e.files e.document (.languageUploaded name) =
          .ok (e.highlighter, []) := by
        simp only [Highlighter.handle, shown]
      have same : e' = e.announce [.languageUploaded name] :=
        (handleLogged_ok (e := e.announce _) handled).trans (adopt_unchanged _)
      rw [same]
      exact h.announce _
  | some path =>
      have handled : e.highlighter.handle e.files e.document (.languageUploaded name) =
          .ok (e.highlighter.setLanguage e.document (e.highlighter.detect e.files path)) := by
        simp only [Highlighter.handle, shown]
      have same : e' = (e.announce [.languageUploaded name]).setLanguage _ :=
        handleLogged_ok handled
      rw [same]
      exact h.setLanguage (Highlighter.detect_idle _ _ _) _

theorem Synced.languageSelected {e : Editor} {reader : Bus.Cursor} (h : Synced e reader)
    (name : String) :
    let e' := ((e.announce [.languageSelected name]).handleLogged (.languageSelected name)).1
    Answered e' e'.session.bus.log.length := by
  intro e'
  cases selected : e.highlighter.select e.files e.document name with
  | error error =>
      have same : e' = e.announce [.languageSelected name] := handleLogged_error selected
      rw [same]
      exact h.announce _
  | ok done =>
      have same : e' = (e.announce [.languageSelected name]).adopt done := handleLogged_ok selected
      rw [same]
      simp only [Highlighter.select] at selected
      split at selected
      · cases selected
      · cases selected
      · rename_i language found
        cases selected
        exact h.setLanguage (Registry.load_idle found) _

theorem Synced.fileOpened {e : Editor} {reader : Bus.Cursor} (h : Synced e reader) (path : String)
    (text : List Char) :
    let session := { e.session with
      document := { (e.session.document.setText text).1 with path := some path }
      path := some path }
    let e' := ({ e with session := session.emit (.fileOpened path) }.handleLogged
      (.fileOpened path)).1
    Answered e' e'.session.bus.log.length := by
  have formed := Document.WellFormed.setText e.session.document text
  exact .inr ⟨0, _, .renewed ⟨formed.count, formed.distinct, formed.issued⟩
    (Document.tidy_setText _ text) (Highlighter.detect_idle e.highlighter e.files path) h.ready
    ((Highlighter.keywordsEnabled_showFile _ _ _ _).trans h.enabled)
    (Highlighter.keywords_showFile h.enabled _ _ _)⟩

/-- An edit leaves the lines outside of its region as they were, and those inside bare. -/
theorem Synced.contentChanged {e : Editor} {reader : Bus.Cursor} (h : Synced e reader) {x : Edit}
    (clear : ¬x.BehindReturn e.document) {d : Document} {c : Change}
    (ok : x.apply e.document = .ok (d, c)) :
    let e' := ({ e with session := (e.session.commit (d, c)).1 }.handleLogged
      (.contentChanged [c])).1
    Answered e' e'.session.bus.log.length := by
  intro e'
  obtain ⟨formed, -⟩ := Edit.apply_step h.formed ok
  obtain ⟨before, old, new, after, replaces, region⟩ := Edit.replaces h.formed clear ok
  have count := replaces.count formed
  have new_pos := List.length_pos_iff.mpr replaces.some_new
  have queued : e'.highlighter.keywords = e.highlighter.keywords.push (d.region c) :=
    (Highlighter.keywords_pushBrackets _ _).trans (Highlighter.keywords_pushKeywords h.enabled _)
  have active : e'.language = e.language := by rw [language, queued]; rfl
  have others (line : Nat) (outside : ¬(before.length ≤ line ∧
      line ≤ before.length + new.length - 1)) : d.StyledAt e.language line := by
    intro row found
    obtain ⟨line', was_there⟩ := replaces.kept outside found
    exact h.styled line' row was_there
  have tidy : d.Tidy := by
    apply Document.tidy_of_rows formed
    intro line row found
    by_cases inside : before.length ≤ line ∧ line ≤ before.length + new.length - 1
    · exact .inr (replaces.plain row (replaces.fresh inside found))
    · exact .inl (others line inside row found)
  refine .inr ⟨before.length, before.length + new.length - 1,
    ⟨formed, active ▸ h.idle, ?_, ?_, rfl⟩, tidy, by omega, ?_, ?_, active ▸ others⟩
  · rw [queued]
    exact h.ready.rest _ _
  · exact ((Highlighter.keywordsEnabled_pushBrackets _ _).trans
      (Highlighter.keywordsEnabled_pushKeywords _ _)).trans h.enabled
  · change _ < d.blocks.length
    omega
  · rw [queued, region]
    simp only [KeywordWorker.push, h.empty, Backlog.push]
    rfl

theorem Answered.pump {e : Editor} {log : List Event} {event : Event}
    (logged : e.session.bus.log = log ++ [event])
    (h : let e' := (e.handleLogged event).1; Answered e' e'.session.bus.log.length) :
    Answered (e.pump log.length).1 (e.pump log.length).2.1 := by
  obtain ⟨done, read⟩ := pump_one logged
  rw [done, read]
  exact h

theorem Synced.act {e : Editor} {reader : Bus.Cursor} (h : Synced e reader) (op : Operation)
    (clear : ∀ x done, op = .edit x → x.apply e.document = .ok done →
      ¬x.BehindReturn e.document) :
    Answered ((e.act op).pump reader).1 ((e.act op).pump reader).2.1 := by
  have quiet {e' : Editor} (h' : Synced e' reader) :
      Answered (e'.pump reader).1 (e'.pump reader).2.1 := by
    rw [pump_quiet h'.read]
    exact .inl h'
  have read := h.read
  cases op with
  | openFile path =>
      simp only [Editor.act]
      cases opened : e.session.openFile e.files path with
      | error _ => exact quiet h
      | ok session =>
          obtain ⟨text, rfl⟩ := Session.openFile_ok opened
          exact read ▸ .pump rfl (h.fileOpened path text)
  | edit x =>
      simp only [Editor.act]
      cases edited : e.session.edit x with
      | error _ => exact quiet h
      | ok done =>
          obtain ⟨d, c, applied, rfl⟩ := Session.edit_ok edited
          exact read ▸ .pump rfl (h.contentChanged (clear x _ rfl applied) applied)
  | selectLanguage name => exact read ▸ .pump rfl (h.languageSelected name)
  | announceLanguage name => exact read ▸ .pump rfl (h.languageUploaded name)
  | uploadLanguage tag path =>
      simp only [Editor.act, upload]
      rcases e.highlighter.registry.upload e.files tag path with ⟨registry, files, error | name⟩
      · exact quiet ⟨⟨h.formed, h.idle, h.ready, h.enabled, h.read⟩, h.empty, h.styled⟩
      · have registered : Synced { e with
            highlighter := { e.highlighter with registry }, files } reader :=
          ⟨⟨h.formed, h.idle, h.ready, h.enabled, h.read⟩, h.empty, h.styled⟩
        exact read ▸ .pump rfl (registered.languageUploaded name)

/-! ## Runs -/

theorem Synced.operate {e : Editor} {reader : Bus.Cursor} (h : Synced e reader) (files : FileTree)
    {op : Operation} (clear : ∀ x done, op = .edit x → x.apply e.document = .ok done →
      ¬x.BehindReturn e.document) :
    Synced (e.operate reader files op).1 (e.operate reader files op).2 := by
  have moved : Synced { e with files } reader :=
    ⟨⟨h.formed, h.idle, h.ready, h.enabled, h.read⟩, h.empty, h.styled⟩
  exact (moved.act op clear).settleKeywords

theorem Synced.settleBrackets {e : Editor} {reader : Bus.Cursor} (h : Synced e reader) :
    Synced e.settleBrackets reader := by
  obtain ⟨connectors, drawn⟩ := BracketWorker.settle_document e.highlighter.brackets e.document
  have document : e.settleBrackets.document = { e.document with connectors } := drawn
  refine ⟨⟨?_, h.idle, h.ready, h.enabled, h.read⟩, h.empty, ?_⟩
  · rw [document]
    exact ⟨h.formed.count, h.formed.distinct, h.formed.issued⟩
  · rw [document]
    exact h.styled

theorem synced_opened {config : Config} {registry : Registry} {highlighter : Highlighter}
    (enabled : config.keywordsEnabled = true)
    (made : Highlighter.new registry config = .ok highlighter) (files : FileTree)
    (id : DocumentId) :
    Synced { session := .new config id, highlighter := highlighter.start.1, files } 0 := by
  have fresh : highlighter.keywords = {} ∧ highlighter.keywordsEnabled = true := by
    simp only [Highlighter.new, bind, Except.bind] at made
    split at made
    · cases made
    · cases made
      exact ⟨rfl, enabled⟩
  have keywords : highlighter.start.1.keywords = .launch none := by
    have control : ({} : Control).run = .ok { started := true, running := true } := rfl
    simp only [Highlighter.start, fresh.1, control]
    split <;> simp [Highlighter.steerKeywords, Highlighter.steerBrackets, fresh.1,
      KeywordWorker.launch]
  have started : highlighter.start.1.keywordsEnabled = true := by
    rw [← fresh.2]
    simp only [Highlighter.start]
    split
    · rfl
    · split <;> rfl
  have formed := (Origin.new config.view).wellFormed id
  refine ⟨⟨formed, ?_, ?_, started, rfl⟩, ?_, ?_⟩
  · simp [language, keywords, KeywordWorker.launch]
  · simp only [keywords]
    exact ⟨rfl, rfl, rfl, rfl⟩
  · simp only [keywords]
    rfl
  · intro line row found
    have bare := Block.spans_fresh (List.mem_of_getElem? (Document.rows_getElem? found).1)
    simp only [language, keywords]
    exact bare

theorem Runs.synced {e : Editor} {reader : Bus.Cursor} (h : Runs e reader) : Synced e reader := by
  induction h with
  | opened enabled made files id => exact synced_opened enabled made files id
  | operation run files op clear ih => exact ih.operate files clear
  | brackets run ih => exact ih.settleBrackets

end Editor

/-- Highlighting as it goes gives what highlighting from scratch gives: after every operation of a
    run, the document is styled like a new one of its text in one pass over all of it. Both carry on
    every line what the language gives to its content. -/
theorem incremental_eq_scratch {e : Editor} {reader : Bus.Cursor} (run : e.Runs reader)
    (id : DocumentId) (geometry : Geometry) :
    let scratch := Document.styledFromScratch e.language id e.document.text geometry
    e.document.styledRanges = scratch.styledRanges ∧
      e.document.Styled e.language ∧ scratch.Styled e.language := by
  intro scratch
  have synced := run.synced
  obtain ⟨formed, styled, text⟩ :=
    Document.styledFromScratch_styled synced.idle id e.document.text geometry
  exact ⟨Document.styledRanges_congr formed synced.formed styled synced.styled text.symm,
    synced.styled, styled⟩

/-- A file of the language `k` is opened, and its one line is completed to a keyword. -/
theorem incremental_eq_scratch_keyword : ∃ (e : Editor) (reader : Bus.Cursor), e.Runs reader ∧
    (e.highlighter.languageName = some "k" ∧ e.document.styledRanges.length = 1) ∧
    e.document.styledRanges =
      (Document.styledFromScratch e.language 0 e.document.text {}).styledRanges := by
  let definition := "\x7b\"languageName\":\"k\",\"keywordGroups\":[\x7b\"keywords\":[\"fn\"]," ++
    "\"styles\":[\x7b\"propertyName\":\"Foreground\",\"valueDescriptor\":\"solid(1,2,3)\"\x7d]" ++
    "\x7d]\x7d"
  let files : FileTree := { entries :=
    [(["a.k"], .file (.text "n\r\n")), (["k.json"], .file (.text definition))] }
  let registry : Registry := {
    root := ""
    mappingPath := "languages.json"
    definitionsDirectory := "languages"
    mapping := { extensions := [(".k", "k.json")] } }
  let highlighter : Highlighter :=
    { brackets := {}, registry, keywordsEnabled := true, bracketsEnabled := true }
  have made : Highlighter.new registry {} = .ok highlighter := rfl
  have start := Editor.Runs.opened rfl made files 0
  have shown := start.operation files (.openFile "a.k") (by intro x done same; cases same)
  have completed := shown.operation files (.edit (.insert 0 ['f'])) (by
    intro x done same applied
    cases same
    rintro ⟨k, offset, -⟩
    cases offset)
  exact ⟨_, _, completed, by decide +kernel, (incremental_eq_scratch completed 0 {}).1⟩

end Highlight
