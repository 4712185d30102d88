/-!
# Cutting a text at a separator

* `splitAll`: every piece between separators; there is always at least one.
* `splitOnce?`: what stands before and after the first occurrence of a pattern.
-/

namespace Peg.Text

/-- The pieces of a text between the occurrences of `separator`. -/
def splitAll (separator : Char) : List Char → List (List Char)
  | [] => [[]]
  | c :: rest =>
    if c = separator then [] :: splitAll separator rest
    else
      match splitAll separator rest with
      | [] => [[c]]
      | piece :: pieces => (c :: piece) :: pieces

/-- What stands before and after the first occurrence of `pattern`. -/
def splitOnce? (pattern : List Char) : List Char → Option (List Char × List Char)
  | [] => if pattern = [] then some ([], []) else none
  | c :: rest =>
    match pattern.isPrefixOf? (c :: rest) with
    | some after => some ([], after)
    | none => (splitOnce? pattern rest).map fun (before, after) => (c :: before, after)

end Peg.Text
