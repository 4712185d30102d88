import Peg.Proofs.Notation.Typeset

/-!
# The text of a source is read as the source

A text in the line notation is typeset when it is read: blanks are put in their places, arrows become
equals signs, empty alternatives are written out and what is unreadable is kept. The text that comes out
is read as the same source, with the same faults at the same places.

* `LineNotation.IsStable`: the lines for which this holds. Documentation of examples is typeset in other
  words, a rule may not be named `example`, and no arrow may stand in its body.
* `Draft.Statement.line`: the line on which a statement is typeset.
* `LineNotation.IsSettled`: a statement that is read off its own line; `LineNotation.isSettled_statement`
  says that what is read from a stable line is such.
* `LineNotation.parse_text_parse`: reading the text of what was read.
-/

namespace Peg

open Text (Ahead IsName isNameChar isBlank trim splitAll splitOnce?)

/-! ## Lines -/

namespace Draft

/-- The line on which a statement is typeset, without its end. -/
def Statement.line (statement : Statement) : List Char :=
  (Tree.textOfAll statement.trees.dropLast).toList

theorem Statement.toList_trees (statement : Statement) :
    (Tree.textOfAll statement.trees).toList = statement.line ++ ['\n'] := by
  have alone (tree : Tree) : (Tree.textOfAll [tree, newline]).toList =
      (Tree.textOfAll [tree]).toList ++ ['\n'] := by
    simp only [Tree.textOfAll, String.append_empty, String.toList_append]
    rfl
  cases statement with
  | _ => exact alone _

/-- A rule is typeset with an equals sign between its name and its body. -/
theorem Statement.line_rule (name : List Char) (term : Term) :
    (Statement.rule (String.ofList name) [term]).line = name ++ (" = ".toList ++ term.chars) := by
  have text : Tree.textOfAll (Statement.rule (String.ofList name) [term]).trees.dropLast =
      String.ofList name ++ (" " ++ ("=" ++ (" " ++ (term.tree.text ++ "")))) ++ "" := rfl
  rw [line, text]
  simp only [String.append_empty, String.toList_append, String.toList_ofList]
  rfl

theorem Statement.line_comment (text : List Char) :
    (Statement.comment (String.ofList text)).line = "// ".toList ++ text := by
  have typeset : Tree.textOfAll (Statement.comment (String.ofList text)).trees.dropLast =
      "// " ++ String.ofList text ++ "" := rfl
  rw [line, typeset]
  simp only [String.append_empty, String.toList_append, String.toList_ofList]

theorem Statement.line_error (text : List Char) (message : String) :
    (Statement.error (String.ofList text) message).line = text := by
  have typeset : Tree.textOfAll (Statement.error (String.ofList text) message).trees.dropLast =
      String.ofList text ++ "" ++ "" := rfl
  rw [line, typeset, String.append_empty, String.append_empty, String.toList_ofList]

end Draft

namespace LineNotation

/-- On the trimmed line there is no example, and if it holds a rule, this is not named `example` and
there is no arrow in its body. -/
structure IsStable (line : List Char) : Prop where
  noExample : ¬"example ".toList <+: line
  rule : ∀ parts ∈ splitRule? line, (rule? line).isSome →
    trim parts.1 ≠ "example".toList ∧ ¬"<-".toList <:+: parts.2

/-- The statement is typeset on one line, and read off it again. -/
structure IsSettled (typeset : Draft.Statement) : Prop where
  oneLine : '\n' ∉ typeset.line
  nonempty : trim typeset.line ≠ []
  reads : statement (trim typeset.line) = typeset

/-- The statements of two texts with an end of line between them are those of both. -/
theorem statements_append (first second : List Char) :
    statements (first ++ '\n' :: second) = statements first ++ statements second := by
  rw [statements, Text.splitAll_append, List.map_append, List.filter_append, List.map_append]
  rfl

/-- A line that is not blank holds one statement. -/
theorem statements_of_line {line : List Char} (oneLine : '\n' ∉ line) (nonempty : trim line ≠ []) :
    statements line = [statement (trim line)] := by
  have solid : (trim line).isEmpty = false := List.isEmpty_eq_false_iff.mpr nonempty
  rw [statements, Text.splitAll_of_not_mem oneLine]
  simp [solid]

/-- Statements that are settled are read off their text. -/
theorem statements_textOfAll {source : List Draft.Statement}
    (settled : ∀ typeset ∈ source, IsSettled typeset) :
    statements (Tree.textOfAll (source.flatMap Draft.Statement.trees)).toList = source := by
  induction source with
  | nil => rfl
  | cons typeset source ih =>
      obtain ⟨⟨oneLine, nonempty, reads⟩, others⟩ := List.forall_mem_cons.mp settled
      rw [List.flatMap_cons, Tree.textOfAll_append, String.toList_append, Draft.Statement.toList_trees,
        List.append_assoc, List.singleton_append, statements_append,
        statements_of_line oneLine nonempty, reads, ih others]
      rfl

/-! ## Statements of a line -/

variable {line : List Char}

/-- A line that is cut is made of the two sides and an arrow or an equals sign between them. -/
theorem eq_of_splitRule? {before body : List Char} (split : splitRule? line = some (before, body)) :
    line = before ++ (['<', '-'] ++ body) ∨ line = before ++ (['='] ++ body) := by
  rcases Option.or_eq_some_iff.mp split with cut | ⟨-, cut⟩
  · exact Or.inl (Text.eq_of_splitOnce? cut)
  · exact Or.inr (Text.eq_of_splitOnce? cut)

/-- The body of a rule stands on its line. -/
theorem infix_of_splitRule? {before body : List Char}
    (split : splitRule? line = some (before, body)) : body <:+: line := by
  rcases eq_of_splitRule? split with whole | whole
  · exact whole ▸ ((List.suffix_append _ body).trans (List.suffix_append before _)).isInfix
  · exact whole ▸ ((List.suffix_append _ body).trans (List.suffix_append before _)).isInfix

/-- A comment is settled: what is trimmed when it is read again was trimmed before. -/
theorem isSettled_comment {text : List Char} (oneLine : '\n' ∉ text) :
    IsSettled (.comment (String.ofList (trim text))) := by
  have again : trim ("// ".toList ++ trim text) = "//".toList ∧ trim text = [] ∨
      trim ("// ".toList ++ trim text) = "// ".toList ++ trim text := by
    by_cases none : trim text = []
    · exact Or.inl ⟨by rw [none]; decide, none⟩
    · refine Or.inr (Text.trim_eq_self (.cons rfl) ?_)
      rw [List.reverse_append]
      exact (Text.ahead_reverse_trim text).append fun empty =>
        none (List.reverse_eq_nil_iff.mp empty)
  have blank : isBlank ' ' = true := rfl
  constructor
  · rw [Draft.Statement.line_comment]
    intro member
    rcases List.mem_append.mp member with member | member
    · revert member
      decide
    · exact oneLine ((Text.trim_infix text).subset member)
  · rw [Draft.Statement.line_comment]
    rcases again with ⟨eq, -⟩ | eq
    · rw [eq]
      decide
    · rw [eq]
      exact List.cons_ne_nil _ _
  · rw [Draft.Statement.line_comment]
    rcases again with ⟨eq, none⟩ | eq
    · rw [eq, none]
      rfl
    · rw [eq]
      show Draft.Statement.comment (String.ofList (trim (' ' :: trim text))) = _
      rw [Text.trim_blank_cons blank, Text.trim_trim]

/-- Behind a name and an equals sign, the first arrow of a line is the first of what follows. -/
theorem splitOnce?_arrow_sign {name : List Char} (isName : IsName name) (rest : List Char) :
    splitOnce? ['<', '-'] (name ++ (" =".toList ++ rest)) =
      (splitOnce? ['<', '-'] rest).map fun (before, after) =>
        (name ++ (" =".toList ++ before), after) := by
  have front : Arrowless (name ++ " =".toList) :=
    (Arrowless.of_not_mem fun member => nomatch isName.2 '<' member).append
      (.of_not_mem (by decide))
  have cut := front rest
  simp only [List.append_assoc] at cut
  exact cut

/-- Without an arrow behind it, a line is cut at the equals sign behind a name. -/
theorem splitRule?_sign {name rest : List Char} (isName : IsName name)
    (noArrow : splitOnce? ['<', '-'] rest = none) :
    splitRule? (name ++ (" =".toList ++ rest)) = some (name ++ [' '], rest) := by
  have shape : name ++ (" =".toList ++ rest) = (name ++ [' ']) ++ (['='] ++ rest) := by
    simp
  rw [splitRule?, splitOnce?_arrow_sign isName, noArrow, Option.map_none, Option.none_or, shape,
    Text.splitOnce?_append (sign_not_mem isName rfl (by decide))]

/-- A rule without an arrow in its body is settled. -/
theorem isSettled_rule {name : List Char} {alternatives : Alternatives}
    (rule : rule? line = some (name, alternatives)) (oneLine : '\n' ∉ line) (stable : IsStable line) :
    IsSettled (.rule (String.ofList name) [alternatives.term]) := by
  obtain ⟨before, body, split, rfl, isName, reads⟩ := rule?_eq_some_iff.mp rule
  obtain ⟨notExample, noArrow⟩ := stable.rule _ split (by rw [rule]; rfl)
  -- What is read from the body is typeset without an arrow and read again.
  have inside : trim body <:+: line := (Text.trim_infix body).trans (infix_of_splitRule? split)
  obtain ⟨neat, again, readsAgain, same⟩ := isWritten_alternatives (isReadFrom_of_alternatives? reads)
    (fun member => oneLine (inside.subset member))
    (fun found => noArrow (found.trans (Text.trim_infix body)))
  have tight : Tight (trim before ++ (" = ".toList ++ alternatives.term.chars)) :=
    (Tight.of_isName isName).join (by decide) neat.tight
  have noArrow : splitOnce? ['<', '-'] (' ' :: alternatives.term.chars) = none :=
    ((Arrowless.singleton (by decide)).append neat.arrowless).splitOnce?_eq_none
  have ruleAgain := rule?_of_split (splitRule?_sign isName noArrow) isName
    (alternatives?_trim_of_tight neat.tight readsAgain)
  constructor
  · rw [Draft.Statement.line_rule]
    exact tight.oneLine
  · rw [Draft.Statement.line_rule, tight.trim_eq_self]
    exact tight.nonempty
  · rw [Draft.Statement.line_rule, tight.trim_eq_self, ← same]
    exact statement_of_rule? isName notExample (.cons rfl) (same ▸ ruleAgain)

/-- What is read from a stable line is settled. -/
theorem isSettled_statement (trimmed : trim line = line) (nonempty : line ≠ []) (oneLine : '\n' ∉ line)
    (stable : IsStable line) : IsSettled (statement line) := by
  cases found : "//".toList.isPrefixOf? line with
  | some comment =>
      have whole : "//".toList ++ comment = line := List.isPrefixOf?_eq_some_iff_append_eq.mp found
      rw [statement, found]
      exact isSettled_comment fun member => oneLine (whole ▸ List.mem_append_right _ member)
  | none =>
      have noExample : "example ".toList.isPrefixOf? line = none :=
        Text.isPrefixOf?_eq_none_iff.mpr stable.noExample
      cases read : rule? line with
      | some rule =>
          rw [statement, found, noExample, read]
          exact isSettled_rule read oneLine stable
      | none =>
          have unreadable : statement line = .error (String.ofList line) "expected a rule" := by
            rw [statement, found, noExample, read]
          rw [unreadable]
          constructor
          · rwa [Draft.Statement.line_error]
          · rwa [Draft.Statement.line_error, trimmed]
          · rwa [Draft.Statement.line_error, trimmed]

/-- **The text of a source is read as the source.** -/
theorem parse_text_parse {text : String}
    (stable : ∀ line ∈ (splitAll '\n' text.toList).map trim, IsStable line) :
    parse (parse text).tree.text = parse text := by
  have settled : ∀ typeset ∈ statements text.toList, IsSettled typeset := by
    rw [statements, List.forall_mem_map]
    intro line member
    obtain ⟨member, nonempty⟩ := List.mem_filter.mp member
    have stable := stable line member
    obtain ⟨piece, inside, rfl⟩ := List.mem_map.mp member
    have oneLine : '\n' ∉ trim piece := fun found =>
      Text.not_mem_of_mem_splitAll inside ((Text.trim_infix piece).subset found)
    exact isSettled_statement (Text.trim_trim piece) (by simpa using nonempty) oneLine stable
  have printed : (parse text).tree.text =
      Tree.textOfAll ((statements text.toList).flatMap Draft.Statement.trees) := rfl
  rw [printed, parse, statements_textOfAll settled, parse]

/-- A source with both signs, wide and missing blanks, empty alternatives, a fault and an empty comment. -/
def untidy : String :=
  "//  x \r\n\nA<-'a\\'='[b-]+ / / .\n  = 1\n//\nB2=()?C"

theorem statements_untidy : statements untidy.toList =
    [.comment "x",
      .rule "A" [.group .choice
        [.group .seq [.leaf (.literal "a\\'="), .group .many1 [.leaf (.charClass "b-")]],
          .leaf .empty, .leaf .any]],
      .error "= 1" "expected a rule",
      .comment "",
      .rule "B2" [.group .seq [.group .optional [.leaf .empty], .leaf (.name "C")]]] := by
  have lines : ((splitAll '\n' untidy.toList).map trim).filter (!·.isEmpty) =
      ["//  x".toList, "A<-'a\\'='[b-]+ / / .".toList, "= 1".toList, "//".toList,
        "B2=()?C".toList] := by
    decide +kernel
  have first : rule? "A<-'a\\'='[b-]+ / / .".toList = some ("A".toList,
      ⟨[.leaf (.literal "a\\'="), .group .many1 [.leaf (.charClass "b-")]], [[], [.leaf .any]]⟩) := by
    refine rule?_eq_some_iff.mpr
      ⟨"A".toList, "'a\\'='[b-]+ / / .".toList, by decide, by decide, by decide, ?_⟩
    simp [trim, Text.trimStart, Text.trimEnd, isBlank, alternatives?, readTerm?, readLeaf?,
      delimited?, readRepetition, repetition?, Alternatives.shift, Alternatives.cons]
  have second : rule? "B2=()?C".toList = some ("B2".toList,
      ⟨[.group .optional [.leaf .empty], .leaf (.name "C")], []⟩) := by
    have name : isNameChar 'C' = true := rfl
    refine rule?_eq_some_iff.mpr
      ⟨"B2".toList, "()?C".toList, by decide, by decide, by decide, ?_⟩
    simp [name, trim, Text.trimStart, Text.trimEnd, isBlank, alternatives?, readTerm?, readLeaf?,
      readRepetition, repetition?, Alternatives.cons]
  have fault : rule? "= 1".toList = none := rfl
  rw [statements, lines]
  simp only [List.map_cons, List.map_nil, statement, first, second, fault]
  rfl

/-- The untidy source is read off the text that it is typeset as. -/
theorem parse_text_parse_untidy :
    (∀ line ∈ (splitAll '\n' untidy.toList).map trim, IsStable line) ∧
      (parse untidy).tree.text = "// x\nA = 'a\\'=' [b-]+ / () / .\n= 1\n// \nB2 = ()? C\n" ∧
      parse "// x\nA = 'a\\'=' [b-]+ / () / .\n= 1\n// \nB2 = ()? C\n" = parse untidy := by
  have stable : ∀ line ∈ (splitAll '\n' untidy.toList).map trim, IsStable line := by
    have clear : ∀ line ∈ (splitAll '\n' untidy.toList).map trim, ¬"example ".toList <+: line ∧
        ∀ parts ∈ splitRule? line,
          trim parts.1 ≠ "example".toList ∧ ¬"<-".toList <:+: parts.2 := by
      decide +kernel
    exact fun line member =>
      ⟨(clear line member).1, fun parts split _ => (clear line member).2 parts split⟩
  have text : (parse untidy).tree.text =
      "// x\nA = 'a\\'=' [b-]+ / () / .\n= 1\n// \nB2 = ()? C\n" := by
    rw [parse, statements_untidy]
    decide +kernel
  have same := parse_text_parse stable
  rw [text] at same
  exact ⟨stable, text, same⟩

end LineNotation

end Peg
