import Peg.Load.Encoding
import Peg.Load.Path

/-!
# Errors that end a load

What is wrong inside a grammar is no error here: it is reported with the grammar.
-/

namespace Peg

/-- Why a grammar could not be located or read. -/
inductive LoadError where
  /-- No searched directory holds a file of the name. -/
  | notFound (name : String) (searched : List Path)
  /-- The file exists but could not be read. -/
  | unreadable (path : Path) (cause : String)
  | undecodable (path : Path) (encoding : Encoding)
  | unsupportedEncoding (label : String)
deriving DecidableEq, Repr

namespace LoadError

/-- A searched directory as shown: the empty path is the working directory. -/
def displayDir (path : Path) : String :=
  if path.text.isEmpty then "." else path.text

def displayDirs (paths : List Path) : String :=
  if paths.isEmpty then "nothing" else String.intercalate ", " (paths.map displayDir)

def message : LoadError → String
  | .notFound name searched =>
    "grammar not found: " ++ name ++ " (searched " ++ displayDirs searched ++ ")"
  | .unreadable path cause => "cannot read " ++ path.text ++ ": " ++ cause
  | .undecodable path encoding => path.text ++ " is not valid " ++ encoding.display
  | .unsupportedEncoding label => "unsupported encoding: " ++ label

/-- The grammar could not be located at all. -/
def isNotFound : LoadError → Bool
  | .notFound .. => true
  | _ => false

/-- Another error lies behind this one. -/
def hasCause : LoadError → Bool
  | .unreadable .. => true
  | _ => false

def encodingOf (label : String) : Except LoadError Encoding :=
  match Encoding.ofLabel? label with
  | some encoding => .ok encoding
  | none => .error (.unsupportedEncoding label)

end LoadError

end Peg
