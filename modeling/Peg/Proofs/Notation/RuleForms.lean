import Peg.Proofs.Notation.Normalized

/-!
# The two forms of a rule

Behind its name a rule has an arrow or an equals sign. A line is cut at its first arrow, wherever this
stands, and only if there is none at its first equals sign. So every body can follow an arrow, but a body
with an arrow in one of its literals or classes cannot follow an equals sign.

* `Parse.HoldsRule`, `Parse.HoldsFault`: a source that holds one rule and has no fault, or the converse.
* `LineNotation.statement_arrow`, `LineNotation.statement_sign`, `LineNotation.statement_sign_of_arrow`:
  the statement of a line of either form.
* `LineNotation.parse_ruleForms`: what a text of either form is read as.
-/

namespace Peg

open Text (Ahead IsName isNameChar isBlank trim trimEnd splitOnce? OccursAt)

/-- No fault was found, and the source holds one statement: the rule with the given name whose body is
laid out from the given term. -/
structure Parse.HoldsRule (parse : Parse) (name : String) (body : Draft.Term) : Prop where
  faultless : parse.faults = []
  rule : ∃ source span token start, parse.source? = some source ∧
    source.statements = [.rule span (some token) (some (body.tree.place start))] ∧ token.text = name

/-- One fault was found, with the given message, and the source holds no statement. -/
structure Parse.HoldsFault (parse : Parse) (message : String) : Prop where
  fault : ∃ span, parse.faults = [⟨message, span⟩]
  noStatement : ∃ source, parse.source? = some source ∧ source.statements = []

theorem Parse.HoldsFault.not_holdsRule {parse : Parse} {message name : String} {body : Draft.Term}
    (holdsFault : parse.HoldsFault message) : ¬parse.HoldsRule name body := by
  intro holdsRule
  obtain ⟨span, fault⟩ := holdsFault.fault
  cases fault.symm.trans holdsRule.faultless

/-! ## Terms -/

namespace Draft

theorem Term.IsReadFrom.isExpression {line : List Char} {term : Term}
    (isRead : term.IsReadFrom line) : term.isExpression = true := by
  cases isRead with
  | leaf isRead => cases isRead <;> rfl
  | repetition => rfl

/-- A draft of one rule is typeset as a source that holds it. -/
theorem holdsRule_parse {body : Term} (isExpression : body.isExpression = true) (name : String) :
    (parse [.rule name [body]]).HoldsRule name body := by
  obtain ⟨span, token, start, statements, text⟩ := exists_statements_rule isExpression name
  exact ⟨rfl, _, span, token, start, rfl, statements, text⟩

/-- A draft of one unreadable region is typeset as a source that holds it. -/
theorem holdsFault_parse (text message : String) :
    (parse [.error text message]).HoldsFault message :=
  ⟨⟨_, rfl⟩, _, rfl, rfl⟩

end Draft

namespace LineNotation

theorem isExpression_sequenceTerm {terms : List Draft.Term}
    (areExpressions : ∀ term ∈ terms, term.isExpression = true) :
    (sequenceTerm terms).isExpression = true := by
  unfold sequenceTerm
  split
  · rfl
  · exact areExpressions _ (List.mem_singleton_self _)
  · rfl

/-- A body that is read stands for an expression. -/
theorem isExpression_of_alternatives? {text : List Char} {alternatives : Alternatives}
    (reads : alternatives? text = some alternatives) : alternatives.term.isExpression = true := by
  have isRead := (List.forall_mem_cons.mp (isReadFrom_of_alternatives? reads)).1
  rw [Alternatives.term]
  split
  · exact isExpression_sequenceTerm fun term member => (isRead term member).isExpression
  · rfl

/-! ## Lines -/

section Lines

variable {name body sign : List Char} {alternatives : Alternatives}

/-- A text with a name at its start and a sign behind it is trimmed behind the sign only. -/
theorem trim_name_sign (isName : IsName name) (solid : Ahead (isBlank · = false) sign.reverse)
    (nonempty : sign ≠ []) (rest : List Char) :
    trim (name ++ (sign ++ rest)) = name ++ (sign ++ trimEnd rest) := by
  have first : Ahead (isBlank · = false) (name ++ (sign ++ rest)) := isName.ahead.append isName.1
  have last : Ahead (isBlank · = false) (name ++ sign).reverse := by
    rw [List.reverse_append]
    exact solid.append fun empty => nonempty (List.reverse_eq_nil_iff.mp empty)
  rw [trim, Text.trimStart_of_ahead first, ← List.append_assoc, Text.trimEnd_append last,
    List.append_assoc]

/-- What is left of a body at the end of a trimmed line is read like the trimmed body. -/
theorem alternatives?_trim_trimEnd (reads : alternatives? (trim body) = some alternatives) :
    alternatives? (trim (trimEnd (' ' :: body))) = some alternatives := by
  rw [Text.trim_trimEnd, Text.trim_blank_cons rfl, reads]

/-- An arrow is found in what is left of a body exactly if it occurs in the body. -/
theorem splitOnce?_arrow_eq_none_iff :
    splitOnce? ['<', '-'] (trimEnd (' ' :: body)) = none ↔ ¬"<-".toList <:+: body := by
  rw [Text.splitOnce?_eq_none_iff, ← not_exists, ← Text.infix_iff_exists_occursAt]
  refine not_congr ⟨fun found => ?_, fun found => ?_⟩
  · rcases List.infix_cons_iff.mp (found.trans (Text.trimEnd_isPrefix _).isInfix) with first | behind
    · obtain ⟨rest, eq⟩ := first
      cases eq
    · exact behind
  · obtain ⟨before, after, rfl⟩ := found
    -- An arrow does not end with a blank, so the end is cut off behind it.
    have last : Ahead (isBlank · = false) (' ' :: before ++ ['<', '-']).reverse := by
      rw [List.reverse_append]
      exact .cons rfl
    exact ⟨' ' :: before, trimEnd after, (Text.trimEnd_append last after).symm⟩

/-- There is no rule on a line with an equals sign behind a name if an arrow follows: what stands in
front of the arrow is no name. -/
theorem rule?_sign_of_arrow {rest : List Char} {parts : List Char × List Char} (isName : IsName name)
    (cut : splitOnce? ['<', '-'] rest = some parts) : rule? (name ++ (" =".toList ++ rest)) = none := by
  rw [Option.eq_none_iff_forall_ne_some]
  rintro ⟨inFront, read⟩ rule
  obtain ⟨before, after, split, rfl, isNameInFront, -⟩ := rule?_eq_some_iff.mp rule
  rw [splitRule?, splitOnce?_arrow_sign isName, cut] at split
  cases split
  have sign : '=' ∈ trim (name ++ (" =".toList ++ parts.1)) := by
    rw [@trim_name_sign name " =".toList isName (.cons rfl) (List.cons_ne_nil _ _) parts.1]
    simp
  cases isNameInFront.2 '=' sign

variable (isName : IsName name) (notExample : name ≠ "example".toList)
  (reads : alternatives? (trim body) = some alternatives)

include isName notExample reads

/-- A name, an arrow and any body are the statement of a rule. -/
theorem statement_arrow : statement (trim (name ++ (" <- ".toList ++ body))) =
    .rule (String.ofList name) [alternatives.term] := by
  have trimmed := @trim_name_sign name " <-".toList isName (.cons rfl) (List.cons_ne_nil _ _) (' ' :: body)
  have rule := rule?_of_split (splitRule?_arrow isName (trimEnd (' ' :: body))) isName
    (alternatives?_trim_trimEnd reads)
  exact trimmed ▸ statement_of_rule? isName notExample (.cons rfl) rule

/-- A name, an equals sign and a body without an arrow are the statement of a rule. -/
theorem statement_sign (noArrow : ¬"<-".toList <:+: body) :
    statement (trim (name ++ (" = ".toList ++ body))) =
      .rule (String.ofList name) [alternatives.term] := by
  have trimmed := @trim_name_sign name " =".toList isName (.cons rfl) (List.cons_ne_nil _ _) (' ' :: body)
  have rule := rule?_of_split (splitRule?_sign isName (splitOnce?_arrow_eq_none_iff.mpr noArrow)) isName
    (alternatives?_trim_trimEnd reads)
  exact trimmed ▸ statement_of_rule? isName notExample (.cons rfl) rule

omit reads

/-- A name, an equals sign and a body with an arrow are unreadable. -/
theorem statement_sign_of_arrow (arrow : "<-".toList <:+: body) :
    let line := trim (name ++ (" = ".toList ++ body))
    statement line = .error (String.ofList line) "expected a rule" := by
  have trimmed := @trim_name_sign name " =".toList isName (.cons rfl) (List.cons_ne_nil _ _) (' ' :: body)
  obtain ⟨_, cut⟩ := Option.ne_none_iff_exists'.mp
    (mt splitOnce?_arrow_eq_none_iff.mp (not_not_intro arrow))
  intro line
  have shape : line = name ++ (" =".toList ++ trimEnd (' ' :: body)) := trimmed
  rw [shape]
  exact statement_of_noRule isName notExample (.cons rfl) (rule?_sign_of_arrow isName cut)

end Lines

/-! ## Texts of one line -/

section Texts

variable {name body : String} (isName : isName name.toList = true) (oneLine : '\n' ∉ body.toList)
include isName oneLine

/-- A text of one line with a name at its start is read as the statement on this line. -/
theorem parse_ruleForm {sign : String} (noEnd : '\n' ∉ sign.toList) :
    parse (name ++ sign ++ body) =
      Draft.parse [statement (trim (name.toList ++ (sign.toList ++ body.toList)))] := by
  have isName := Text.isName_iff.mp isName
  have shape : (name ++ sign ++ body).toList = name.toList ++ (sign.toList ++ body.toList) := by
    rw [String.toList_append, String.toList_append, List.append_assoc]
  have whole : '\n' ∉ name.toList ++ (sign.toList ++ body.toList) := by
    simp only [List.mem_append, not_or]
    exact ⟨(Tight.of_isName isName).oneLine, noEnd, oneLine⟩
  have solid : trim (name.toList ++ (sign.toList ++ body.toList)) ≠ [] := by
    obtain ⟨c, more, eq, first, -⟩ := isName.exists_cons
    rw [eq, List.cons_append, Text.trim_cons_of_solid (Text.isBlank_eq_false first)]
    exact List.cons_ne_nil _ _
  rw [parse, shape, statements_of_line whole solid]

/-- A body with an arrow cannot be read behind an equals sign. -/
theorem holdsFault_of_arrow (notExample : name ≠ "example") (arrow : "<-".toList <:+: body.toList) :
    (parse (name ++ " = " ++ body)).HoldsFault "expected a rule" := by
  rw [parse_ruleForm isName oneLine (by decide),
    statement_sign_of_arrow (Text.isName_iff.mp isName) (mt String.toList_inj.mp notExample) arrow]
  exact Draft.holdsFault_parse _ _

/-- **Every body follows an arrow; a body follows an equals sign unless an arrow occurs in it.** A name,
an arrow and a body that can be read make a source that holds the rule with this name and this body, and
so do a name, an equals sign and the body if no arrow occurs in the body. If one does, in a literal or a
class, then the line with the equals sign is unreadable. -/
theorem parse_ruleForms {alternatives : Alternatives} (notExample : name ≠ "example")
    (reads : alternatives? (trim body.toList) = some alternatives) :
    (parse (name ++ " <- " ++ body)).HoldsRule name alternatives.term ∧
      (¬"<-".toList <:+: body.toList →
        (parse (name ++ " = " ++ body)).HoldsRule name alternatives.term) ∧
      ("<-".toList <:+: body.toList →
        (parse (name ++ " = " ++ body)).HoldsFault "expected a rule") := by
  have named := Text.isName_iff.mp isName
  have notExample' : name.toList ≠ "example".toList := mt String.toList_inj.mp notExample
  have holdsRule := Draft.holdsRule_parse (isExpression_of_alternatives? reads) name
  refine ⟨?_, fun noArrow => ?_, holdsFault_of_arrow isName oneLine notExample⟩
  · rw [parse_ruleForm isName oneLine (by decide), statement_arrow named notExample' reads,
      String.ofList_toList]
    exact holdsRule
  · rw [parse_ruleForm isName oneLine (by decide), statement_sign named notExample' reads noArrow,
      String.ofList_toList]
    exact holdsRule

end Texts

/-- A body in which both signs occur follows an arrow only. -/
theorem parse_ruleForms_bothSigns :
    alternatives? (trim "'<-' / [=]".toList) =
        some ⟨[.leaf (.literal "<-")], [[.leaf (.charClass "=")]]⟩ ∧
      (parse "A <- '<-' / [=]").HoldsRule "A"
        (.group .choice [.leaf (.literal "<-"), .leaf (.charClass "=")]) ∧
      (parse "A = '<-' / [=]").HoldsFault "expected a rule" := by
  have reads : alternatives? (trim "'<-' / [=]".toList) =
      some ⟨[.leaf (.literal "<-")], [[.leaf (.charClass "=")]]⟩ := by
    simp [trim, Text.trimStart, Text.trimEnd, isBlank, alternatives?, readTerm?, readLeaf?,
      delimited?, readRepetition, repetition?, Alternatives.shift, Alternatives.cons]
  have arrowForm : "A" ++ " <- " ++ "'<-' / [=]" = "A <- '<-' / [=]" := by decide
  have signForm : "A" ++ " = " ++ "'<-' / [=]" = "A = '<-' / [=]" := by decide
  have forms := @parse_ruleForms "A" "'<-' / [=]" (by decide) (by decide) _ (by decide) reads
  rw [arrowForm, signForm] at forms
  exact ⟨reads, forms.1, forms.2.2 ⟨['\''], "' / [=]".toList, rfl⟩⟩

/-- A literal with an arrow is a body, but does not follow an equals sign. -/
theorem not_forall_holdsRule_sign : ¬∀ (name body : String) (alternatives : Alternatives),
    isName name.toList = true → name ≠ "example" → '\n' ∉ body.toList →
    alternatives? (trim body.toList) = some alternatives →
    (parse (name ++ " = " ++ body)).HoldsRule name alternatives.term ∧
      (parse (name ++ " <- " ++ body)).HoldsRule name alternatives.term := by
  intro bothForms
  have reads : alternatives? (trim "'<-'".toList) = some ⟨[.leaf (.literal "<-")], []⟩ := by
    simp [trim, Text.trimStart, Text.trimEnd, isBlank, alternatives?, readTerm?, readLeaf?,
      delimited?, readRepetition, repetition?, Alternatives.cons]
  have holdsRule := (bothForms "A" "'<-'" _ (by decide) (by decide) (by decide) reads).1
  have holdsFault := @holdsFault_of_arrow "A" "'<-'" (by decide) (by decide) (by decide)
    ⟨['\''], ['\''], rfl⟩
  exact holdsFault.not_holdsRule holdsRule

end LineNotation

end Peg
