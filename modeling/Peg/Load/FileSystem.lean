import Peg.Load.Path

/-!
# Files and directories

A file system is a finite table from locations to entries. Paths are walked from the working
directory or the root; every place that is walked through has to be a directory.

* `FileSystem.locate?`, `FileSystem.entry?`: where a path leads, and what is there.
* `Host`: a file system with the directories that a load starts from.
-/

namespace Peg

/-- A place in a file system: the names on the way from the root. -/
abbrev Location := List String

/-- What a file holds. -/
inductive Content where
  | bytes (bytes : ByteArray)
  /-- A file that exists, but whose reading fails. -/
  | unreadable (cause : String)

/-- A regular file. -/
structure File where
  content : Content
  /-- The time of the last change, in nanoseconds from the epoch. -/
  modified : Int

/-- What stands at a location. -/
inductive Entry where
  | directory
  | file (file : File)

/-- A file system; the root directory is always there. -/
structure FileSystem where
  entries : List (Location × Entry)

namespace FileSystem

def at? (files : FileSystem) (location : Location) : Option Entry :=
  if location = [] then some .directory else files.entries.lookup location

def isDirectoryAt (files : FileSystem) (location : Location) : Bool :=
  match files.at? location with
  | some .directory => true
  | _ => false

/-- Where a segment leads from a location; the parent of the root is the root. -/
def step (location : Location) (segment : List Char) : Location :=
  match Path.component? segment with
  | some (.name name) => location ++ [name]
  | some .up => location.dropLast
  | _ => location

/-- Walks along segments; every step starts from a directory. -/
def walk? (files : FileSystem) (location : Location) : List (List Char) → Option Location
  | [] => some location
  | segment :: segments =>
    if files.isDirectoryAt location then files.walk? (step location segment) segments else none

def start (workDir : Location) (path : Path) : Location :=
  if path.isAbsolute then [] else workDir

/-- Where a path leads; the empty path leads nowhere. -/
def locate? (files : FileSystem) (workDir : Location) (path : Path) : Option Location :=
  if path.text.isEmpty then none
  else files.walk? (start workDir path) path.layout.segments

/-- What a path leads to. -/
def entry? (files : FileSystem) (workDir : Location) (path : Path) : Option Entry :=
  (files.locate? workDir path).bind files.at?

/-! ## Changes -/

def put (files : FileSystem) (location : Location) (entry : Entry) : FileSystem :=
  ⟨(location, entry) :: files.entries.filter (·.1 ≠ location)⟩

/-- Walks along segments and makes the directories that are missing. -/
def makeAlong (files : FileSystem) (location : Location) :
    List (List Char) → FileSystem × Location
  | [] => (files, location)
  | segment :: segments =>
    let next := step location segment
    let files := if (files.at? next).isSome then files else files.put next .directory
    files.makeAlong next segments

def makeDirectory (files : FileSystem) (workDir : Location) (path : Path) : FileSystem :=
  (files.makeAlong (start workDir path) path.layout.segments).1

/-- Writes a file, making the directories on the way to it. -/
def write (files : FileSystem) (workDir : Location) (path : Path) (file : File) : FileSystem :=
  let segments := path.layout.segments
  let (files, directory) := files.makeAlong (start workDir path) segments.dropLast
  files.put (step directory (segments.getLast?.getD [])) (.file file)

/-- Removes what a path leads to, with everything below it. -/
def remove (files : FileSystem) (workDir : Location) (path : Path) : FileSystem :=
  match files.locate? workDir path with
  | some location => ⟨files.entries.filter fun entry => !location.isPrefixOf entry.1⟩
  | none => files

end FileSystem

/-! ## Hosts -/

/-- Where a load takes place. -/
structure Host where
  files : FileSystem
  /-- The working directory, an absolute path. -/
  workDir : Path
  /-- The directory of the running program, if it is known. -/
  programDir : Option Path
  /-- The directory that comes with the library. -/
  packageDir : Path

namespace Host

def workLocation (host : Host) : Location :=
  host.workDir.components.filterMap Path.Component.segment?

def entry? (host : Host) (path : Path) : Option Entry :=
  host.files.entry? host.workLocation path

/-- The regular file that a path leads to. -/
def file? (host : Host) (path : Path) : Option File :=
  match host.entry? path with
  | some (.file file) => some file
  | _ => none

def isDirectory (host : Host) (path : Path) : Bool :=
  match host.entry? path with
  | some .directory => true
  | _ => false

def grammarDirName : String := "grammar"

/-- The directory of the bundled grammars: the one beside the running program if it exists, and else
the one that comes with the library. -/
def bundledDir (host : Host) : Path :=
  let packaged := host.packageDir.join grammarDirName
  match host.programDir with
  | none => packaged
  | some directory =>
    let beside := directory.join grammarDirName
    if host.isDirectory beside then beside else packaged

end Host

end Peg
