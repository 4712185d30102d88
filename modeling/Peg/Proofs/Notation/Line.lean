import Peg.Load.Loader
import Peg.Proofs.Load.Path
import Peg.Proofs.Notation.Body
import Peg.Proofs.Text.Occurrence

/-!
# Printing, reading and compiling a rule

* `Tight`: a text that stands on one line and has no blank at its ends; printed bodies are such.
* `LineNotation.statement_ruleLine`: a name, an arrow and a body on a line are the statement of a rule.
* `LineNotation.compileText_display`: a rule with a printed body is read and compiled to the expression
  that was printed.
-/

namespace Peg

open Text (Ahead IsName isNameChar isBlank)

/-! ## Tight texts -/

/-- The text is not empty, stands on one line and has no blank at its ends. -/
structure Tight (text : List Char) : Prop where
  nonempty : text ≠ []
  first : Ahead (isBlank · = false) text
  last : Ahead (isBlank · = false) text.reverse
  oneLine : '\n' ∉ text

namespace Tight

variable {text more separator : List Char} {c : Char}

theorem ne_newline (solid : isBlank c = false) : '\n' ≠ c := by
  rintro rfl
  cases solid

theorem singleton (solid : isBlank c = false) : Tight [c] :=
  ⟨List.cons_ne_nil _ _, .cons solid, .cons solid, fun member =>
    ne_newline solid (List.mem_singleton.mp member)⟩

theorem join (left : Tight text) (oneLine : '\n' ∉ separator) (right : Tight more) :
    Tight (text ++ (separator ++ more)) where
  nonempty none := left.nonempty (List.append_eq_nil_iff.mp none).1
  first := left.first.append left.nonempty
  last := by
    rw [List.reverse_append, List.reverse_append, List.append_assoc]
    exact right.last.append fun none => right.nonempty (List.reverse_eq_nil_iff.mp none)
  oneLine member := by
    rcases List.mem_append.mp member with member | member
    · exact left.oneLine member
    rcases List.mem_append.mp member with member | member
    · exact oneLine member
    · exact right.oneLine member

/-- A text between two characters that are not blank is tight. -/
theorem delimited {opening closing : Char} (solid : isBlank opening = false)
    (solid' : isBlank closing = false) (oneLine : '\n' ∉ text) :
    Tight (opening :: text ++ [closing]) :=
  (singleton solid).join oneLine (singleton solid')

theorem concat (tight : Tight text) (solid : isBlank c = false) : Tight (text ++ [c]) :=
  tight.join List.not_mem_nil (singleton solid)

/-- Tight texts with a separator between each two make up a tight text. -/
theorem joinAll {pieces : List (List Char)} (first : Tight text) (oneLine : '\n' ∉ separator)
    (tight : ∀ piece ∈ pieces, Tight piece) : Tight (text ++ pieces.flatMap (separator ++ ·)) := by
  induction pieces generalizing text with
  | nil =>
      rw [List.flatMap_nil, List.append_nil]
      exact first
  | cons piece pieces ih =>
      obtain ⟨solid, tight⟩ := List.forall_mem_cons.mp tight
      rw [List.flatMap_cons, ← List.append_assoc]
      exact ih (first.join oneLine solid) tight

theorem trim_eq_self (tight : Tight text) : Text.trim text = text :=
  Text.trim_eq_self tight.first tight.last

theorem of_isName (isName : IsName text) : Tight text where
  nonempty := isName.1
  first := isName.ahead
  last := isName.reverse.ahead
  oneLine member := ne_newline (Text.isBlank_eq_false (isName.2 '\n' member)) rfl

end Tight

/-! ## Printed bodies -/

namespace Escape

theorem newline_not_mem_encodeChar (special : List Char) (c : Char) :
    '\n' ∉ encodeChar special c := by
  have hex : ∀ digit < 16, '\n' ≠ hexChar digit := by decide
  unfold encodeChar
  split
  · decide
  · next notNewline =>
    have differs : '\n' ≠ c := fun same => notNewline same.symm
    iterate 3
      split
      · decide
    split
    · simp [differs]
    split
    · have high := hex (c.toNat / 16) (by omega)
      have low := hex (c.toNat % 16) (by omega)
      simp [high, low]
    · simp [differs]

theorem newline_not_mem_encode (special text : List Char) : '\n' ∉ encode special text := by
  intro member
  obtain ⟨c, -, member⟩ := List.mem_flatMap.mp member
  exact newline_not_mem_encodeChar special c member

end Escape

namespace Expr

variable {e : Expr} {items : List Expr}

theorem newline_not_mem_displaySetBody (chars ranges : List Char) :
    '\n' ∉ displaySetBody chars ranges := by
  have printed := Escape.newline_not_mem_encode [']', '-']
  have bounds : '\n' ∉ displayRanges ranges := by
    fun_induction displayRanges ranges with
    | case1 low high rest ih =>
        have left := printed [low]
        have right := printed [high]
        simp [left, right, ih]
    | case2 => exact List.not_mem_nil
  intro member
  rcases List.mem_append.mp member with member | member
  · exact printed chars member
  · exact bounds member

theorem tight_displayAtom {a : Atom} (isLeaf : a.IsLeaf) : Tight (displayAtom a) := by
  cases isLeaf with
  | any => exact .singleton rfl
  | literal text => exact .delimited rfl rfl (Escape.newline_not_mem_encode ['\''] text.toList)
  | set => exact .delimited rfl rfl (newline_not_mem_displaySetBody _ _)
  | ref isName => exact .of_isName (Text.isName_iff.mp isName)

theorem IsTerm.tight (isTerm : e.IsTerm) : Tight e.displayChars := by
  cases isTerm with
  | leaf isLeaf => exact tight_displayAtom isLeaf
  | many isLeaf => exact (tight_displayAtom isLeaf).concat rfl
  | many1 isLeaf => exact (tight_displayAtom isLeaf).concat rfl
  | optional isLeaf => exact (tight_displayAtom isLeaf).concat rfl

theorem IsSequence.tight (isSequence : e.IsSequence) : Tight e.displayChars := by
  obtain ⟨first, others, terms, -, display⟩ := isSequence.exists_terms
  obtain ⟨isTerm, terms⟩ := List.forall_mem_cons.mp terms
  rw [display, displayTail_eq_flatMap fun item member => (terms item member).two_le_precedence]
  exact isTerm.tight.joinAll (by decide)
    (List.forall_mem_map.mpr fun item member => (terms item member).tight)

theorem IsLineBody.tight (isBody : e.IsLineBody) : Tight e.displayChars := by
  cases isBody with
  | sequence isSequence => exact isSequence.tight
  | @choice items two sequences =>
      obtain ⟨first, second, others, rfl⟩ := exists_cons_cons two
      obtain ⟨isSequence, sequences⟩ := List.forall_mem_cons.mp sequences
      rw [displayChars, displayJoined, parenthesizeIf_of_le isSequence.one_le_precedence,
        displayTail_eq_flatMap fun item member => (sequences item member).one_le_precedence]
      exact isSequence.tight.joinAll (by decide)
        (List.forall_mem_map.mpr fun item member => (sequences item member).tight)

end Expr

/-! ## Lines -/

namespace LineNotation

open Draft (Statement)

/-- The line that defines a rule. -/
def ruleLine (name body : List Char) : List Char :=
  name ++ (" <- ".toList ++ body)

variable {name body rest : List Char} {alternatives : Alternatives}

/-- A line that begins with a name is no comment. -/
theorem comment?_of_isName (isName : IsName name) (rest : List Char) :
    "//".toList.isPrefixOf? (name ++ rest) = none := by
  obtain ⟨c, more, rfl, first, -⟩ := isName.exists_cons
  refine Text.isPrefixOf?_eq_none_iff.mpr fun ⟨comment, same⟩ => ?_
  obtain ⟨rfl, -⟩ := List.cons.inj same
  cases first

/-- A line that begins with a name other than `example` holds no example. -/
theorem example?_of_isName (isName : IsName name) (notExample : name ≠ "example".toList)
    (ends : Ahead (isNameChar · = false) rest) :
    "example ".toList.isPrefixOf? (name ++ rest) = none := by
  -- Both texts go on with another character behind a name, so the names are the same.
  refine Text.isPrefixOf?_eq_none_iff.mpr fun ⟨text, same⟩ => ?_
  have letters : IsName "example".toList := by decide
  have word : ("example".toList ++ ' ' :: text).takeWhile isNameChar = "example".toList :=
    Text.takeWhile_append letters.2 (.cons rfl)
  have taken : (name ++ rest).takeWhile isNameChar = name := Text.takeWhile_append isName.2 ends
  have begins : "example".toList ++ ' ' :: text = name ++ rest := same
  rw [begins, taken] at word
  exact notExample word

/-- A line holds a rule if it is cut in two, a name stands on the left and a body on the right. -/
theorem rule?_eq_some_iff {line : List Char} : rule? line = some (name, alternatives) ↔
    ∃ before after, splitRule? line = some (before, after) ∧ Text.trim before = name ∧ IsName name ∧
      alternatives? (Text.trim after) = some alternatives := by
  constructor
  · intro rule
    obtain ⟨⟨before, after⟩, split, rest⟩ := Option.bind_eq_some_iff.mp rule
    dsimp only at rest
    split at rest
    · next isName =>
      obtain ⟨read, reads, same⟩ := Option.bind_eq_some_iff.mp rest
      cases same
      exact ⟨before, after, split, rfl, Text.isName_iff.mp isName, reads⟩
    · cases rest
  · rintro ⟨before, after, split, rfl, isName, reads⟩
    rw [rule?, split]
    dsimp only [Option.bind_eq_bind, Option.bind_some]
    rw [if_pos (Text.isName_iff.mpr isName), reads]
    rfl

/-- A name, with a blank towards the separator, and a body are the parts of a rule. -/
theorem rule?_of_split {line : List Char} (split : splitRule? line = some (name ++ [' '], rest))
    (isName : IsName name) (reads : alternatives? (Text.trim rest) = some alternatives) :
    rule? line = some (name, alternatives) := by
  have blank : ∀ c ∈ [' '], isBlank c = true := List.forall_mem_singleton.mpr rfl
  have trimmed : Text.trim (name ++ [' ']) = name := by
    rw [Text.trim_append_blanks blank, isName.trim_eq_self]
  exact rule?_eq_some_iff.mpr ⟨_, _, split, trimmed, isName, reads⟩

theorem alternatives?_trim_of_tight (tight : Tight body) (reads : alternatives? body = some alternatives) :
    alternatives? (Text.trim (' ' :: body)) = some alternatives := by
  rw [Text.trim_blank_cons rfl, tight.trim_eq_self, reads]

/-- A rule on a line that begins with its name is the statement of the line. -/
theorem statement_of_rule? (isName : IsName name) (notExample : name ≠ "example".toList)
    (ends : Ahead (isNameChar · = false) rest)
    (rule : rule? (name ++ rest) = some (name, alternatives)) :
    statement (name ++ rest) = .rule (String.ofList name) [alternatives.term] := by
  rw [statement, comment?_of_isName isName, example?_of_isName isName notExample ends, rule]

/-- A line that begins with a name, but holds no rule, is unreadable. -/
theorem statement_of_noRule (isName : IsName name) (notExample : name ≠ "example".toList)
    (ends : Ahead (isNameChar · = false) rest) (noRule : rule? (name ++ rest) = none) :
    statement (name ++ rest) = .error (String.ofList (name ++ rest)) "expected a rule" := by
  rw [statement, comment?_of_isName isName, example?_of_isName isName notExample ends, noRule]

/-- A sign that is neither of the characters of names nor blank does not stand in front of a separator. -/
theorem sign_not_mem {sign : Char} (isName : IsName name) (noName : isNameChar sign = false)
    (noBlank : sign ≠ ' ') : sign ∉ name ++ [' '] := by
  intro member
  rcases List.mem_append.mp member with member | member
  · exact Bool.false_ne_true (noName.symm.trans (isName.2 sign member))
  · exact noBlank (List.mem_singleton.mp member)

/-- A line is cut at an arrow behind a name. -/
theorem splitRule?_arrow (isName : IsName name) (rest : List Char) :
    splitRule? (name ++ (" <-".toList ++ rest)) = some (name ++ [' '], rest) := by
  have absent : '<' ∉ name ++ [' '] := sign_not_mem isName rfl (by decide)
  have shape : name ++ (" <-".toList ++ rest) = (name ++ [' ']) ++ (['<', '-'] ++ rest) := by
    simp
  rw [splitRule?, shape, Text.splitOnce?_append absent]
  rfl

/-- A name, an arrow and a body on a line are the statement of a rule. -/
theorem statement_ruleLine (isName : IsName name) (notExample : name ≠ "example".toList)
    (tight : Tight body) (reads : alternatives? body = some alternatives) :
    statement (ruleLine name body) = .rule (String.ofList name) [alternatives.term] :=
  statement_of_rule? isName notExample (.cons rfl)
    (rule?_of_split (splitRule?_arrow isName (' ' :: body)) isName (alternatives?_trim_of_tight tight reads))

theorem tight_ruleLine (isName : IsName name) (tight : Tight body) : Tight (ruleLine name body) :=
  (Tight.of_isName isName).join (by decide) tight

/-- A text of one line holds the statement of this line. -/
theorem statements_of_tight {line : List Char} (tight : Tight line) :
    statements line = [statement line] := by
  have solid : line.isEmpty = false := List.isEmpty_eq_false_iff.mpr tight.nonempty
  rw [statements, Text.splitAll_of_not_mem tight.oneLine, List.map_singleton, tight.trim_eq_self]
  simp [solid]

/-- **Printing, reading and compiling gives the rule back.** -/
theorem compileText_display {e : Expr} (isBody : e.IsLineBody) {name : String}
    (isName : isName name.toList = true) (notExample : name ≠ "example") (host : Host)
    (urn : String) (mode : Mode) (store : Store) :
    let grammar := (Loader.compileText ⟨parse, host⟩ (name ++ " <- " ++ e.display) urn mode store).1
    grammar.hasError = false ∧ grammar.diagnostics = [] ∧
      ∃ body, grammar.rules = [(name, body)] ∧ body.unplaced = e.unplaced := by
  have isName := Text.isName_iff.mp isName
  have notExample : name.toList ≠ "example".toList := fun same => notExample (String.toList_inj.mp same)
  obtain ⟨alternatives, reads, means⟩ := isBody.exists_alternatives?
  have line : (name ++ " <- " ++ e.display).toList = ruleLine name.toList e.displayChars := by
    have display : e.display.toList = e.displayChars := String.toList_ofList
    rw [String.toList_append, String.toList_append, display, List.append_assoc, ruleLine]
  have read : parse (name ++ " <- " ++ e.display) = Draft.parse [.rule name [alternatives.term]] := by
    rw [parse, line, statements_of_tight (tight_ruleLine isName isBody.tight),
      statement_ruleLine isName notExample isBody.tight reads, String.ofList_toList]
  have compiled := Draft.compile_rule means name store.supply urn mode
  rw [← read] at compiled
  exact compiled

/-- A body with delimiters, escapes and an arrow inside literals and a set. -/
def delimitedBody : Expr :=
  .choice
    [.seq [.literal "it's <- '\\'\n", .unary .many (.set "]-\\" "az--"), .ref ⟨⟨7⟩, "B2", ⟨3, 5⟩⟩],
      .unary .optional .any, .literal ""]

theorem delimitedBody_isLineBody : delimitedBody.IsLineBody := by
  have class_ : (Atom.set "]-\\" "az--").IsLeaf := .set (by decide)
  have name : (Atom.ref ⟨⟨7⟩, "B2", ⟨3, 5⟩⟩).IsLeaf := .ref (by decide)
  refine .choice (by decide) ?_
  simp only [List.forall_mem_cons, List.not_mem_nil, false_imp_iff, implies_true, and_true]
  refine ⟨.seq (by decide) ?_, .term (.optional .any), .term (.leaf (.literal ""))⟩
  simp only [List.forall_mem_cons, List.not_mem_nil, false_imp_iff, implies_true, and_true]
  exact ⟨.leaf (.literal _), .many class_, .leaf name⟩

/-- A rule whose literals and set hold delimiters, escapes and an arrow comes back from its line. -/
theorem compileText_display_delimitedBody :
    delimitedBody.display = "'it\\'s <- \\'\\\\\\'\\n' [\\]\\-\\\\a-z\\--\\-]* B2 / .? / ''" ∧
      let grammar := (Loader.compileText ⟨parse, ⟨⟨[]⟩, ⟨"/"⟩, none, ⟨"/"⟩⟩⟩
        ("Rule_1" ++ " <- " ++ delimitedBody.display) "<inline>" .pure .new).1
      grammar.hasError = false ∧ grammar.diagnostics = [] ∧
        ∃ body, grammar.rules = [("Rule_1", body)] ∧ body.unplaced = delimitedBody.unplaced :=
  ⟨by decide, compileText_display delimitedBody_isLineBody (by decide) (by decide) _ "<inline>" .pure
    .new⟩

end LineNotation

end Peg
