import Highlight.Document.Edit
import Highlight.Files.Tree

/-! # Documents from files -/

namespace Highlight

/-- The document of a text file; it remembers the file. -/
def Document.load (id : DocumentId) (files : FileTree) (path : String) :
    Except FileError Document :=
  (files.readText path).map fun text =>
    { Document.ofText id text.toList with path := some path }

end Highlight
