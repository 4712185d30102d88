import Peg.Load.Error
import Peg.Load.FileSystem
import Peg.Load.Options

/-!
# Locating grammar files

* `isInlineSource`: tells grammar text from the name of a file.
* `SearchPath.of`: the directories in which a name is looked up, in order.
* `SearchPath.find`: the first file of a name.
-/

namespace Peg

/-! ## Grammar text -/

/-- The tokens that introduce the body of a rule. -/
def ruleSeparators : List String := ["=", "<-"]

/-- The text is a grammar and not the name of a file: the first occurrence of a rule separator
stands past its first character. -/
def isInlineSource (source : String) : Bool :=
  ruleSeparators.any fun separator =>
    match Text.splitOnce? separator.toList source.toList with
    | some (before, _) => !before.isEmpty
    | none => false

/-! ## Searching -/

/-- A file that was found. -/
structure Found where
  /-- The absolute path of the file. -/
  path : Path
  /-- The time of its last change, in nanoseconds from the epoch. -/
  modified : Int
deriving DecidableEq, Repr

/-- The time of the last change after the epoch; earlier times count as the epoch. -/
def Found.stamp (found : Found) : Nat :=
  found.modified.toNat

/-- The directories in which a name is looked up. -/
structure SearchPath where
  dirs : List Path
deriving DecidableEq, Repr

namespace SearchPath

/-- The parent directory of a path once it is absolute; the empty path if there is none. -/
def parentDir (host : Host) (path : Path) : Path :=
  ((path.absolute? host.workDir).getD path).parent?.getD ⟨""⟩

/-- The order of search for one load: the directory of the base path or else the working directory,
the directory of the calling file, the bundled directory, and the directories of the options that are
not empty. -/
def of (host : Host) (options : Options) (caller : Option Path) : SearchPath where
  dirs :=
    [(options.basepath.map (parentDir host)).getD ⟨""⟩] ++
      (caller.map (parentDir host)).toList ++ [host.bundledDir] ++
      options.searchPath.filter (!·.text.isEmpty)

/-- The file of a given name in a directory. -/
def foundIn? (host : Host) (name : String) (directory : Path) : Option Found :=
  let candidate := directory.join name
  (host.file? candidate).bind fun file =>
    (candidate.absolute? host.workDir).map fun path => ⟨path, file.modified⟩

/-- The file of a given name in the first directory that holds one. -/
def find (search : SearchPath) (host : Host) (name : String) : Except LoadError Found :=
  match search.dirs.findSome? (foundIn? host name) with
  | some found => .ok found
  | none => .error (.notFound name search.dirs)

end SearchPath

end Peg
