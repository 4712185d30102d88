import Peg.Proofs.Draft.Positions
import Peg.Proofs.Draft.Reading
import Peg.Proofs.Load.Session
import Peg.Proofs.Notation.Normalized
import Peg.Proofs.Text.Occurrence

/-!
# Telling grammar text from the name of a file

A text is taken for a grammar if one of the separators of rules occurs in it, but not at its start. This
looks at the text as a whole, while the line notation is read line by line.

* `isInlineSource_iff`: which texts are taken for grammars.
* `LineNotation.begins_of_faultless`: a text without faults does not begin with a separator.
* `LineNotation.loads_of_rule`: a text without faults in which there is a rule is compiled and not looked
  up.
-/

namespace Peg

open Text (OccursAt Span isBlank isNameChar trim trimEnd splitAll splitOnce?)

/-! ## Separators -/

theorem isInlineSource_iff_splitOnce? {source : String} :
    isInlineSource source = true ↔ ∃ separator ∈ ruleSeparators, ∃ before after,
      splitOnce? separator.toList source.toList = some (before, after) ∧ before ≠ [] := by
  rw [isInlineSource, List.any_eq_true]
  refine exists_congr fun separator => and_congr_right fun _ => ?_
  rcases splitOnce? separator.toList source.toList with none | ⟨before, after⟩
  · simp
  · simp [and_assoc]

/-- **A text is taken for a grammar exactly if a separator occurs in it, but not at its start.** That
another one, or the same a second time, stands behind a separator at the start does not count. -/
theorem isInlineSource_iff {source : String} :
    isInlineSource source = true ↔ ∃ separator ∈ ruleSeparators,
      ¬OccursAt separator.toList 0 source.toList ∧
        ∃ position > 0, OccursAt separator.toList position source.toList :=
  isInlineSource_iff_splitOnce?.trans
    (exists_congr fun _ => and_congr_right fun _ => Text.exists_splitOnce?_iff)

/-- The second of two equals signs stands behind the first character, but the text is no grammar. -/
theorem not_forall_isInlineSource_iff_occursAt : ¬∀ source : String,
    isInlineSource source = true ↔
      ∃ separator ∈ ruleSeparators, ∃ position > 0, OccursAt separator.toList position source.toList := by
  intro documented
  have occurs : ∃ separator ∈ ruleSeparators, ∃ position > 0,
      OccursAt separator.toList position "==".toList :=
    ⟨"=", List.mem_cons_self, 1, by decide, by decide⟩
  have noGrammar : isInlineSource "==" = false := by decide
  cases noGrammar.symm.trans ((documented "==").mpr occurs)

/-! ## Drafts -/

namespace Draft

/-- In a draft without faults there is no unreadable region. -/
theorem ne_error_of_faultsFrom {statements : List Statement} {offset : Nat}
    (faultless : faultsFrom offset statements = []) {statement : Statement}
    (member : statement ∈ statements) (text message : String) : statement ≠ .error text message := by
  induction statements generalizing offset with
  | nil => cases member
  | cons first statements ih =>
      obtain ⟨noFault, faultless⟩ := List.append_eq_nil_iff.mp faultless
      rcases List.mem_cons.mp member with rfl | member
      · rintro rfl
        cases noFault
      · exact ih faultless member

/-- A rule that is read off a typeset draft is a rule of the draft. -/
theorem exists_rule_of_mem {statements : List Statement} {span : Span} {name : Option Token}
    {body : Option Placed} (member : .rule span name body ∈ (parse statements).root.statements) :
    ∃ name terms, Statement.rule name terms ∈ statements := by
  obtain ⟨statement, typed, isRead⟩ := exists_rel_of_mem (forall₂_statements statements 0) member
  cases isRead with
  | rule => exact ⟨_, _, (List.mem_filter.mp typed).1⟩

end Draft

/-! ## Lines -/

namespace LineNotation

/-- The statements of a text stand on its lines. -/
theorem mem_statements_iff {text : List Char} {typeset : Draft.Statement} : typeset ∈ statements text ↔
    ∃ line ∈ splitAll '\n' text, trim line ≠ [] ∧ statement (trim line) = typeset := by
  simp [statements, List.mem_map, List.mem_filter, and_assoc]

section Lines

variable {c : Char} {rest : List Char}

/-- A line that holds a rule begins with a character of names. -/
theorem isNameChar_of_rule? (solid : isBlank c = false) {name : List Char} {alternatives : Alternatives}
    (rule : rule? (c :: rest) = some (name, alternatives)) : isNameChar c = true := by
  obtain ⟨before, after, split, rfl, isName, -⟩ := rule?_eq_some_iff.mp rule
  cases before with
  | nil => exact absurd rfl isName.1
  | cons d before =>
      have same : c = d := by
        rcases eq_of_splitRule? split with whole | whole
        · exact (List.cons.inj whole).1
        · exact (List.cons.inj whole).1
      subst same
      rw [Text.trim_cons_of_solid solid] at isName
      exact isName.2 c List.mem_cons_self

/-- A line that can be read begins with a slash or with a character of names. -/
theorem begins_of_readable (solid : isBlank c = false)
    (readable : ∀ text message, statement (c :: rest) ≠ .error text message) :
    c = '/' ∨ isNameChar c = true := by
  cases comment : "//".toList.isPrefixOf? (c :: rest) with
  | some text =>
      have whole := List.isPrefixOf?_eq_some_iff_append_eq.mp comment
      exact Or.inl (List.cons.inj whole).1.symm
  | none =>
      cases word : "example ".toList.isPrefixOf? (c :: rest) with
      | some text =>
          have whole := List.isPrefixOf?_eq_some_iff_append_eq.mp word
          exact Or.inr ((List.cons.inj whole).1 ▸ rfl)
      | none =>
          cases rule : rule? (c :: rest) with
          | some read => exact Or.inr (isNameChar_of_rule? solid rule)
          | none =>
              have unreadable : statement (c :: rest) =
                  .error (String.ofList (c :: rest)) "expected a rule" := by
                rw [statement, comment, word, rule]
              exact absurd unreadable (readable _ _)

/-- A text that can be read begins with a slash or with a character of names, if not with a blank. -/
theorem begins_of_faultless (solid : isBlank c = false)
    (readable : ∀ typeset ∈ statements (c :: rest), ∀ text message, typeset ≠ .error text message) :
    c = '/' ∨ isNameChar c = true := by
  have noEnd : c ≠ '\n' := by
    rintro rfl
    cases solid
  obtain ⟨first, lines, cut⟩ := Text.exists_splitAll_eq_cons '\n' rest
  have trimmed := Text.trim_cons_of_solid solid first
  have member : statement (c :: trimEnd first) ∈ statements (c :: rest) := by
    refine mem_statements_iff.mpr ⟨c :: first, ?_, ?_, ?_⟩
    · rw [Text.splitAll_cons_of_ne noEnd cut]
      exact List.mem_cons_self
    · rw [trimmed]
      exact List.cons_ne_nil _ _
    · rw [trimmed]
  exact begins_of_readable solid (readable _ member)

/-- A separator stands on a line that is cut in two. -/
theorem exists_separator_of_splitRule? {line : List Char} {parts : List Char × List Char}
    (split : splitRule? line = some parts) : ∃ separator ∈ ruleSeparators, separator.toList <:+: line := by
  rcases eq_of_splitRule? split with whole | whole
  · exact ⟨"<-", List.mem_cons_of_mem _ List.mem_cons_self, parts.1, parts.2,
      (List.append_assoc ..).trans whole.symm⟩
  · exact ⟨"=", List.mem_cons_self, parts.1, parts.2, (List.append_assoc ..).trans whole.symm⟩

theorem exists_rule?_of_statement {line : List Char} {name : String} {terms : List Draft.Term}
    (read : statement line = .rule name terms) : ∃ rule, rule? line = some rule := by
  rw [statement] at read
  split at read
  · cases read
  · split at read
    · rw [exampleStatement] at read
      cases read
    · split at read
      · next rule => exact ⟨_, rule⟩
      · cases read

end Lines

/-! ## Sources with rules -/

section Rules

variable {text : String}
  (readable : ∀ typeset ∈ statements text.toList, ∀ text message, typeset ≠ .error text message)
include readable

theorem not_occursAt_zero {separator : String} (isSeparator : separator ∈ ruleSeparators) :
    ¬OccursAt separator.toList 0 text.toList := by
  rintro ⟨rest, whole⟩
  have whole : text.toList = separator.toList ++ rest := whole.symm
  rw [whole] at readable
  rw [ruleSeparators, List.mem_cons, List.mem_singleton] at isSeparator
  rcases isSeparator with rfl | rfl
  · exact absurd (begins_of_faultless (c := '=') rfl readable) (by decide)
  · exact absurd (begins_of_faultless (c := '<') rfl readable) (by decide)

/-- The separator of a rule occurs in the text, and not at its start. -/
theorem isInlineSource_of_rule {name : String} {terms : List Draft.Term}
    (rule : .rule name terms ∈ statements text.toList) : isInlineSource text = true := by
  obtain ⟨line, isLine, -, read⟩ := mem_statements_iff.mp rule
  obtain ⟨⟨_, _⟩, holds⟩ := exists_rule?_of_statement read
  obtain ⟨before, after, split, -⟩ := rule?_eq_some_iff.mp holds
  obtain ⟨separator, isSeparator, found⟩ := exists_separator_of_splitRule? split
  have inside : trim line <:+: text.toList :=
    (Text.trim_infix line).trans (Text.infix_of_mem_splitAll isLine)
  obtain ⟨position, occurs⟩ := Text.infix_iff_exists_occursAt.mp (found.trans inside)
  have notFirst := not_occursAt_zero readable isSeparator
  have behind : position > 0 := by
    refine Nat.pos_of_ne_zero ?_
    rintro rfl
    exact notFirst occurs
  exact isInlineSource_iff_splitOnce?.mpr
    ⟨separator, isSeparator, Text.exists_splitOnce?_iff.mpr ⟨notFirst, position, behind, occurs⟩⟩

end Rules

/-- **A source with a rule is compiled and not looked up.** A text without faults in which a rule is found
is taken for a grammar. So a load of it returns the same whatever files there are, and in every session
in which those who load this text read it as line notation, all of them get what is compiled for it. -/
theorem loads_of_rule {text : String} {source : Placed} {span : Span} {name : Option Token}
    {body : Option Placed} (isOk : (parse text).isOk = true)
    (isSource : (parse text).source? = some source)
    (rule : .rule span name body ∈ source.statements) :
    isInlineSource text = true ∧
      (∀ (host host' : Host) (options : Options) (caller : Option Path) (store : Store),
        Loader.loadFrom ⟨parse, host⟩ text options caller store =
          Loader.loadFrom ⟨parse, host'⟩ text options caller store) ∧
      ∀ (visits : List Visit) (cache : Cache Grammar), Session visits cache →
        (∀ visit ∈ visits, ∀ options caller, visit.request = .source text options caller →
          visit.loader.read = parse) →
        ∀ visit ∈ visits, ∀ options caller, visit.request = .source text options caller →
          ∃ id urn, visit.result = .ok ((parse text).compile id urn options.mode) := by
  have wholeSource : (parse text).source? = some (parse text).root := rfl
  cases wholeSource.symm.trans isSource
  obtain ⟨name, terms, drafted⟩ := Draft.exists_rule_of_mem rule
  have isInline := isInlineSource_of_rule
    (fun _ member => Draft.ne_error_of_faultsFrom (List.isEmpty_iff.mp isOk) member) drafted
  refine ⟨isInline, fun host host' options caller store => ?_,
    fun visits cache session reads visit member options caller request => ?_⟩
  · rw [Loader.loadFrom, Loader.loadFrom, if_pos isInline, if_pos isInline]
    rfl
  · have asked : visit.request.inline? = some (text, options.mode) := by
      rw [request, Request.inline?, if_pos isInline]
    obtain ⟨first, id, found, returned⟩ := session.exists_first member asked
    obtain ⟨earlier, asks⟩ := Session.inline?_of_firstFor? found
    obtain ⟨options', caller', request'⟩ := Request.exists_source_of_inline? asks
    have readAlike := reads first earlier options' caller' request'
    refine ⟨id, first.request.urn, ?_⟩
    rw [returned visit member asked, Loader.grammarOf, readAlike]

/-- A comment with an arrow and an example with an equals sign in front of a rule. -/
def commented : String :=
  "// a <- b\nexample A =\n  A <- '=' / B\n"

theorem statements_commented : statements commented.toList =
    [.comment "a <- b", .exampleOf ["A"] "=",
      .rule "A" [.group .choice [.leaf (.literal "="), .leaf (.name "B")]]] := by
  have lines : ((splitAll '\n' commented.toList).map trim).filter (!·.isEmpty) =
      ["// a <- b".toList, "example A =".toList, "A <- '=' / B".toList] := by
    decide +kernel
  have rule : rule? "A <- '=' / B".toList = some ("A".toList,
      ⟨[.leaf (.literal "=")], [[.leaf (.name "B")]]⟩) := by
    have name : isNameChar 'B' = true := rfl
    refine rule?_eq_some_iff.mpr
      ⟨"A ".toList, " '=' / B".toList, by decide, by decide, by decide, ?_⟩
    simp [name, trim, Text.trimStart, Text.trimEnd, isBlank, alternatives?, readTerm?, readLeaf?,
      delimited?, readRepetition, repetition?, Alternatives.shift, Alternatives.cons]
  rw [statements, lines]
  simp only [List.map_cons, List.map_nil, statement, rule]
  rfl

/-- The commented text is compiled when it is loaded. -/
theorem loads_of_rule_commented : (parse commented).isOk = true ∧
    (∃ span name body, .rule span name body ∈ (parse commented).root.statements) ∧
    isInlineSource commented = true ∧
    ∃ loader options cache result,
      Session [⟨loader, .source commented options none, result⟩] cache ∧
        ∃ id urn, result = .ok ((parse commented).compile id urn options.mode) := by
  have isOk : (parse commented).isOk = true := by
    rw [parse, statements_commented]
    rfl
  have rule : ∃ span name body, .rule span name body ∈ (parse commented).root.statements := by
    rw [parse, statements_commented]
    exact ⟨_, _, _, List.mem_cons_of_mem _ List.mem_cons_self⟩
  obtain ⟨span, name, body, found⟩ := rule
  obtain ⟨isInline, -, compiled⟩ := loads_of_rule isOk rfl found
  let loader : Loader := ⟨parse, ⟨⟨[]⟩, ⟨"/"⟩, none, ⟨"/p"⟩⟩⟩
  let options : Options := ⟨.full, none, .utf8Sig, none, []⟩
  let answer := loader.load (.source commented options none) .new
  let only : Visit := ⟨loader, .source commented options none, answer.1⟩
  have session : Session [only] answer.2.cache := Session.start.load rfl
  have reads : ∀ visit ∈ [only], ∀ options caller,
      visit.request = .source commented options caller → visit.loader.read = parse :=
    List.forall_mem_singleton.mpr fun _ _ _ => rfl
  have returned := compiled _ _ session reads _ List.mem_cons_self options none rfl
  exact ⟨isOk, ⟨span, name, body, found⟩, isInline, loader, options, _, _, session, returned⟩

end LineNotation

end Peg
