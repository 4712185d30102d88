import Peg.Compile
import Peg.Load.Encoding
import Peg.Load.Path
import Peg.Text.Split

/-!
# Options of a load

* `Options.ofSearchList`: the default options, with the extra directories of a search list.
* `parseSearchList`: the directories of a colon-separated list.
-/

namespace Peg

/-- The directories of a colon-separated list; empty entries are skipped. -/
def parseSearchList (text : String) : List Path :=
  ((Text.splitAll ':' text.toList).filter (!·.isEmpty)).map fun entry => ⟨String.ofList entry⟩

/-- How a grammar is loaded. -/
structure Options where
  mode : Mode
  /-- The path that the grammar is loaded relative to: its parent directory is searched first. -/
  basepath : Option Path
  encoding : Encoding
  /-- The name under which grammar text is known. -/
  urn : Option String
  /-- The directories that are searched last. -/
  searchPath : List Path
deriving DecidableEq, Repr

/-- The default options, searching the directories of a list last. -/
def Options.ofSearchList (list : Option String) : Options where
  mode := .full
  basepath := none
  encoding := .utf8Sig
  urn := none
  searchPath := (list.map parseSearchList).getD []

end Peg
