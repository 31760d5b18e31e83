import Highlight.Language
import Highlight.Style.Descriptor
import Highlight.Document.View
import Highlight.Document.Load
import Highlight.Text.WordChar
import Highlight.Json.Reader
import Highlight.Json.Printer
import Highlight.Toml.Reader
import Highlight.Toml.Printer
import Highlight.Language.Definition
import Highlight.Registry
import Highlight.Session
import Highlight.Worker.Budget
import Highlight.Worker.Keyword
import Highlight.Worker.Bracket
import Highlight.Editor
import Highlight.Command
import Highlight.Main
import Highlight.Proofs.Editor.Incremental
import Highlight.Proofs.Editor.Suspension
import Highlight.Proofs.Trie.Stems
import Highlight.Proofs.Editor.FullHighlight
import Highlight.Proofs.Bracket.Alike
import Highlight.Proofs.Bracket.Rescan
import Highlight.Proofs.Editor.LateDelivery
import Highlight.Proofs.Editor.BracketSwitch
import Highlight.Proofs.Worker.Passes
import Highlight.Proofs.Registry.LookUp
import Highlight.Proofs.Toml.Quoting
import Highlight.Proofs.Worker.LifeCycle
import Highlight.Proofs.Toml.Lines
import Highlight.Proofs.Language.RoundTrip
import Highlight.Proofs.Bracket.Matching
import Highlight.Proofs.Document.Frame
import Highlight.Proofs.Document.Tidiness
import Highlight.Proofs.Language.Splitting
import Highlight.Proofs.Language.WholeWords
import Highlight.Proofs.Document.Offsets
import Highlight.Proofs.Document.Pointwise
import Highlight.Proofs.Registry.Detection
import Highlight.Proofs.Document.Runs
import Highlight.Proofs.Editor.Reports
import Highlight.Proofs.Style.Grammar
