import Peg.Text.Split

/-!
# Paths

A path is a text; what it means is read off its segments, the pieces between slashes. A path may
begin at the root, with a leading `.`, or plainly with a name.

* `Path.components`: what two paths that name the same place have in common, written one way or the
  other.
* `Path.parent?`, `Path.fileName?`, `Path.join`, `Path.absolute?`: the operations on paths; all are
  on the text alone and look at no file.
-/

namespace Peg

/-- A path as written. -/
structure Path where
  text : String
deriving DecidableEq, Repr

namespace Path

instance : Inhabited Path := ⟨⟨""⟩⟩

/-! ## Segments -/

/-- How a path begins. -/
inductive Lead where
  | root
  /-- With a `.` of its own. -/
  | current
  | plain
deriving DecidableEq, Repr

/-- A path taken apart: its beginning and the pieces between slashes after it. -/
structure Layout where
  lead : Lead
  segments : List (List Char)
deriving DecidableEq, Repr

def layoutOf : List Char → Layout
  | '/' :: rest => ⟨.root, Text.splitAll '/' rest⟩
  | ['.'] => ⟨.current, []⟩
  | '.' :: '/' :: rest => ⟨.current, Text.splitAll '/' rest⟩
  | text => ⟨.plain, Text.splitAll '/' text⟩

def layout (path : Path) : Layout :=
  layoutOf path.text.toList

def Layout.chars : Layout → List Char
  | ⟨.root, segments⟩ => '/' :: List.intercalate ['/'] segments
  | ⟨.current, []⟩ => ['.']
  | ⟨.current, segments⟩ => '.' :: '/' :: List.intercalate ['/'] segments
  | ⟨.plain, segments⟩ => List.intercalate ['/'] segments

/-- A segment that stays where it is: an empty one or a `.`. -/
def isIdle (segment : List Char) : Bool :=
  segment == [] || segment == ['.']

/-- The segments up to the last that does not stay where it is. -/
def trimIdle (segments : List (List Char)) : List (List Char) :=
  (segments.reverse.dropWhile isIdle).reverse

/-! ## Components -/

/-- A step of a path. -/
inductive Component where
  | root
  /-- A leading `.`. -/
  | current
  | up
  | name (name : String)
deriving DecidableEq, Repr

/-- The step that a segment stands for, unless it stays where it is. -/
def component? (segment : List Char) : Option Component :=
  if isIdle segment then none
  else if segment = ['.', '.'] then some .up
  else some (.name (String.ofList segment))

def Lead.components : Lead → List Component
  | .root => [.root]
  | .current => [.current]
  | .plain => []

def Layout.components (layout : Layout) : List Component :=
  layout.lead.components ++ layout.segments.filterMap component?

/-- The steps of a path; paths with the same steps are the same for every comparison. -/
def components (path : Path) : List Component :=
  path.layout.components

def isAbsolute (path : Path) : Bool :=
  path.layout.lead == .root

/-- The name that the path ends in, if its last step is a name. -/
def fileName? (path : Path) : Option String :=
  match path.components.getLast? with
  | some (.name name) => some name
  | _ => none

/-! ## Parents -/

/-- The layout without its last step. -/
def Layout.parent? (layout : Layout) : Option Layout :=
  match trimIdle layout.segments with
  | [] => if layout.lead = .current then some ⟨.plain, []⟩ else none
  | segments => some ⟨layout.lead, trimIdle segments.dropLast⟩

/-- The part of the path before its last step, as written; the root and the empty path have none. -/
def parent? (path : Path) : Option Path :=
  path.layout.parent?.map fun layout => ⟨String.ofList layout.chars⟩

/-! ## Joining -/

/-- The path of `name` in a directory. An absolute name stands alone; an empty one marks the path
with a final slash. -/
def join (directory : Path) (name : String) : Path :=
  if name.toList.head? = some '/' then ⟨name⟩
  else if directory.text.isEmpty ∨ directory.text.toList.getLast? = some '/' then
    ⟨directory.text ++ name⟩
  else ⟨directory.text ++ "/" ++ name⟩

/-- The text of a step below a directory. -/
def Component.segment? : Component → Option String
  | .root | .current => none
  | .up => some ".."
  | .name text => some text

/-- Where the steps of a path begin: at the working directory, or at the root, which is written with
two slashes when the path begins with exactly two. -/
def base (path workDir : Path) : Path :=
  match path.text.toList with
  | ['/', '/'] => ⟨"//"⟩
  | '/' :: '/' :: c :: _ => if c = '/' then ⟨"/"⟩ else ⟨"//"⟩
  | '/' :: _ => ⟨"/"⟩
  | _ => workDir

/-- The path from the root, with idle segments left out and a final slash kept. The empty path has
none. -/
def absolute? (path workDir : Path) : Option Path :=
  if path.text.isEmpty then none
  else
    let steps := (path.components.filterMap Component.segment?).foldl join (path.base workDir)
    some (if path.text.toList.getLast? = some '/' then steps.join "" else steps)

end Path

end Peg
