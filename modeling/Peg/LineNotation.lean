import Peg.Text.Alphanumeric
import Peg.Text.Blank
import Peg.Text.Split
import Peg.Tree.Draft

/-!
# A line-oriented notation for grammars

One statement stands on each line:

* `Name = body` or `Name <- body`, where the body is made of alternatives with `/` between them, each
  a run of literals in single quotes, bracketed classes, `.`, `()` and rule names, every one with an
  optional `?`, `*` or `+` behind it;
* `example A,B text`;
* `// comment`.

Any other line is a fault. `LineNotation.parse` reads a text through the draft of its statements.
-/

namespace Peg.LineNotation

open Draft (Leaf Construct Term Statement)
open Text (isBlank isNameChar trim splitAll splitOnce?)

/-! ## Terms -/

/-- The raw text up to a closing delimiter and what follows it. An escaped character never closes;
escapes are left as they are. -/
def delimited? (close : Char) : List Char → Option (List Char × List Char)
  | [] => none
  | c :: rest =>
    if c = close then some ([], rest)
    else if c = '\\' then
      match rest with
      | [] => none
      | escaped :: rest =>
        (delimited? close rest).map fun (raw, after) => (c :: escaped :: raw, after)
    else (delimited? close rest).map fun (raw, after) => (c :: raw, after)

/-- Reads the leaf that begins with `c`. -/
def readLeaf? (c : Char) (rest : List Char) : Option (Leaf × List Char) :=
  if c = '\'' then
    (delimited? '\'' rest).map fun (raw, after) => (.literal (String.ofList raw), after)
  else if c = '[' then
    (delimited? ']' rest).map fun (raw, after) => (.charClass (String.ofList raw), after)
  else if c = '.' then some (.any, rest)
  else if c = '(' ∧ rest.head? = some ')' then some (.empty, rest.tail)
  else if isNameChar c then
    some (.name (String.ofList (c :: rest.takeWhile isNameChar)), rest.dropWhile isNameChar)
  else none

/-- The repetition that a character behind a leaf stands for. -/
def repetition? : Char → Option Construct
  | '?' => some .optional
  | '*' => some .many
  | '+' => some .many1
  | _ => none

/-- The leaf with the repetition that follows it, if one does. -/
def readRepetition (leaf : Leaf) : List Char → Term × List Char
  | [] => (.leaf leaf, [])
  | c :: rest =>
    match repetition? c with
    | some construct => (.group construct [.leaf leaf], rest)
    | none => (.leaf leaf, c :: rest)

/-- Reads the term that begins with `c`. -/
def readTerm? (c : Char) (rest : List Char) : Option (Term × List Char) :=
  (readLeaf? c rest).map fun (leaf, after) => readRepetition leaf after

theorem delimited?_length_le {close : Char} {text raw after : List Char}
    (read : delimited? close text = some (raw, after)) : after.length ≤ text.length := by
  fun_induction delimited? close text generalizing raw after with
  | case1 => simp at read
  | case2 rest => simp_all
  | case3 => simp at read
  | case4 _ escaped rest ih =>
    obtain ⟨⟨raw', after'⟩, inner, same⟩ := Option.map_eq_some_iff.1 read
    have bound := ih inner
    simp only [Prod.mk.injEq] at same
    simp only [← same.2, List.length_cons]
    omega
  | case5 c rest _ _ ih =>
    obtain ⟨⟨raw', after'⟩, inner, same⟩ := Option.map_eq_some_iff.1 read
    have bound := ih inner
    simp only [Prod.mk.injEq] at same
    simp only [← same.2, List.length_cons]
    omega

theorem readLeaf?_length_le {c : Char} {rest after : List Char} {leaf : Leaf}
    (read : readLeaf? c rest = some (leaf, after)) : after.length ≤ rest.length := by
  unfold readLeaf? at read
  split at read
  · obtain ⟨⟨raw, after'⟩, inner, same⟩ := Option.map_eq_some_iff.1 read
    simp only [Prod.mk.injEq] at same
    exact same.2 ▸ delimited?_length_le inner
  · split at read
    · obtain ⟨⟨raw, after'⟩, inner, same⟩ := Option.map_eq_some_iff.1 read
      simp only [Prod.mk.injEq] at same
      exact same.2 ▸ delimited?_length_le inner
    · split at read
      · simp_all
      · split at read
        · simp only [Option.some.injEq, Prod.mk.injEq] at read
          simp [← read.2]
        · split at read
          · simp only [Option.some.injEq, Prod.mk.injEq] at read
            exact read.2 ▸ (List.dropWhile_sublist _).length_le
          · simp at read

theorem readRepetition_length_le (leaf : Leaf) (text : List Char) :
    (readRepetition leaf text).2.length ≤ text.length := by
  unfold readRepetition
  split
  · exact Nat.le_refl _
  · split <;> simp

/-- A term takes at least one character. -/
theorem readTerm?_length_le {c : Char} {rest after : List Char} {term : Term}
    (read : readTerm? c rest = some (term, after)) : after.length ≤ rest.length := by
  obtain ⟨⟨leaf, middle⟩, inner, same⟩ := Option.map_eq_some_iff.1 read
  have bound := readRepetition_length_le leaf middle
  rw [show readRepetition leaf middle = (term, after) from same] at bound
  exact Nat.le_trans bound (readLeaf?_length_le inner)

/-! ## Bodies -/

/-- The alternatives of a body, each a run of terms. There is at least one. -/
structure Alternatives where
  first : List Term
  others : List (List Term)
deriving Repr

/-- A term in front of the first alternative. -/
def Alternatives.cons (term : Term) (alternatives : Alternatives) : Alternatives :=
  ⟨term :: alternatives.first, alternatives.others⟩

/-- An empty alternative in front of the others. -/
def Alternatives.shift (alternatives : Alternatives) : Alternatives :=
  ⟨[], alternatives.first :: alternatives.others⟩

/-- Reads a body; there is none if some part of the text is no term. -/
def alternatives? : List Char → Option Alternatives
  | [] => some ⟨[], []⟩
  | c :: rest =>
    if isBlank c then alternatives? rest
    else if c = '/' then (alternatives? rest).map .shift
    else
      match _ : readTerm? c rest with
      | some (term, after) => (alternatives? after).map (.cons term)
      | none => none
termination_by text => text.length
decreasing_by
  · simp
  · simp
  · have bound := readTerm?_length_le ‹_›
    simp only [List.length_cons]
    omega

/-- The term for one alternative. -/
def sequenceTerm : List Term → Term
  | [] => .leaf .empty
  | [term] => term
  | terms => .group .seq terms

/-- The term for a body. -/
def Alternatives.term (alternatives : Alternatives) : Term :=
  if alternatives.others.isEmpty then sequenceTerm alternatives.first
  else .group .choice ((alternatives.first :: alternatives.others).map sequenceTerm)

/-! ## Lines -/

/-- The text can name a rule. -/
def isName (text : List Char) : Bool :=
  !text.isEmpty && text.all isNameChar

/-- The two sides of the first `<-` of a line, or else of its first `=`. -/
def splitRule? (line : List Char) : Option (List Char × List Char) :=
  (splitOnce? ['<', '-'] line).or (splitOnce? ['='] line)

/-- The name and body of a line that holds a rule. -/
def rule? (line : List Char) : Option (List Char × Alternatives) := do
  let (name, body) ← splitRule? line
  if isName (trim name) then
    return (trim name, ← alternatives? (trim body))
  else none

/-- The statement for what follows the word `example`: names up to the first space, then the
documentation. -/
def exampleStatement (text : List Char) : Statement :=
  let (names, doc) := (splitOnce? [' '] text).getD (text, [])
  .exampleOf ((splitAll ',' names).map String.ofList) (String.ofList doc)

/-- The statement on a line that is trimmed and not empty. -/
def statement (line : List Char) : Statement :=
  match "//".toList.isPrefixOf? line with
  | some comment => .comment (String.ofList (trim comment))
  | none =>
    match "example ".toList.isPrefixOf? line with
    | some text => exampleStatement text
    | none =>
      match rule? line with
      | some (name, alternatives) => .rule (String.ofList name) [alternatives.term]
      | none => .error (String.ofList line) "expected a rule"

/-- The statements of a text, one for each line that is not blank. -/
def statements (text : List Char) : List Statement :=
  (((splitAll '\n' text).map trim).filter (!·.isEmpty)).map statement

/-- Reads a grammar's source in the line notation. -/
def parse (text : String) : Parse :=
  Draft.parse (statements text.toList)

end Peg.LineNotation
