import Peg.Proofs.Draft.Parts

/-!
# Reading a typeset draft

A draft is typeset into a tree and the tree is read by typed views. Separators, braces, labels and tags
are typeset as tokens and nodes among the terms, and the views find their way around them: they read
what the draft says.

* `Draft.Term.IsReadAs`, `Draft.Statement.IsReadAs`: what is read says what was written.
* `Draft.Term.isReadAs_outline`: every term is read as it was written, wherever it is laid out.
* `Draft.parse_isRead`: so are all statements and all expression nodes of a draft.
-/

namespace Peg.Draft

open Text (Span)
open Peg.Tree (IsLaidOut words)

/-! ## What is written -/

namespace Leaf

def kind : Leaf → Kind
  | .empty => .empty
  | .any => .any
  | .error _ => .error
  | .literal _ => .literal
  | .charClass _ => .charClass
  | .name _ => .name
  | .quoted _ => .quoted

/-- The text of the leaf as it is written, a quoted name with its quotes. -/
def text : Leaf → String
  | .empty | .any => ""
  | .error text | .literal text | .charClass text | .name text => text
  | .quoted text => "\"" ++ text ++ "\""

/-- A plain name could also be that of a function. -/
def func? : Leaf → Option String
  | .name text => some text
  | .empty | .any | .error _ | .literal _ | .charClass _ | .quoted _ => none

end Leaf

namespace Construct

/-- The function that the construct calls. -/
def func? : Construct → Option String
  | .func name => some name
  | .many | .many1 | .optional | .and | .not | .seq | .choice | .alt | .node _ | .edge _
  | .fold .. => none

/-- The text of the construct: only a call has one, the name of the function. -/
def text (construct : Construct) : String :=
  construct.func?.getD ""

def tag? : Construct → Option String
  | .node tag | .fold _ tag => tag
  | .many | .many1 | .optional | .and | .not | .seq | .choice | .alt | .edge _ | .func _ => none

def label? : Construct → Option String
  | .edge label => some label
  | .fold label _ => label
  | .many | .many1 | .optional | .and | .not | .seq | .choice | .alt | .node _ | .func _ => none

end Construct

/-- The outline says what the term says: its kind, text, tag and label, and one after the other what the
terms of its body say, unreadable regions left out. -/
inductive Term.IsReadAs : Term → Outline → Prop
  | leaf (leaf : Leaf) (span : Span) :
    IsReadAs (.leaf leaf) (.mk leaf.kind span leaf.text leaf.func? none none [])
  | group (construct : Construct) (span : Span) {body : List Term} {operands : List Outline}
    (inside : List.Forall₂ IsReadAs (body.filter Term.isExpression) operands) :
    IsReadAs (.group construct body)
      (.mk construct.kind span construct.text construct.func? construct.tag? construct.label?
        operands)

/-- The statement that is read says what the statement of the draft says. The body of a rule is its
first term, unreadable regions left out. -/
inductive Statement.IsReadAs : Statement → Peg.Statement → Prop
  | rule {name : String} {terms : List Term} (span : Span) {token : Token} {body : Option Placed}
    (named : token.text = name)
    (first : Option.Rel (fun term body => term.IsReadAs body.outline)
      (terms.find? Term.isExpression) body) :
    IsReadAs (.rule name terms) (.rule span (some token) body)
  | exampleOf {names : List String} {tokens : List Token} (span docSpan : Span) (doc : String)
    (named : tokens.map Token.text = names) :
    IsReadAs (.exampleOf names doc) (.exampleOf span tokens (some ⟨docSpan, doc⟩))

/-- Rules and examples can be read, comments and unreadable regions are passed over. -/
def Statement.isTyped : Statement → Bool
  | .rule .. | .exampleOf .. => true
  | .comment _ | .error .. => false

/-! ## Nodes -/

/-- What is read off a node, in terms of the trees that are its children. -/
theorem outline_place_node (kind : Kind) (trees : List Tree) (offset : Nat) :
    ((Tree.node kind trees).place offset).outline =
      .mk kind ⟨offset, offset + Tree.byteSizeOfAll trees⟩
        ((words (fun kind => kind == .text || kind.isRuleName) trees).head?.getD "")
        (words (· == .ident) trees).head?
        (trees.filterMap (Tree.decoration? .tag)).head?
        (trees.filterMap (Tree.decoration? .label)).head?
        (outlinesOf (Tree.placeAll offset trees)) := by
  have laid := Tree.forall₂_placeAll trees offset
  rw [Tree.place, Placed.outline, View.operandText, View.firstText_of_laid laid,
    View.funcName?_of_laid laid, View.tag?, View.decoration?_of_laid laid, View.label?,
    View.decoration?_of_laid laid]

theorem outlinesOf_eq (children : List Placed) :
    outlinesOf children = (children.filter Placed.isExpression).map Placed.outline := by
  induction children with
  | nil => rfl
  | cons child children ih =>
      rw [outlinesOf, List.filter_cons]
      split
      · rw [ih, List.map_cons]
      · exact ih

/-- A leaf is read as it was written, wherever it is laid out. -/
theorem Leaf.isReadAs_outline (leaf : Leaf) (offset : Nat) :
    (Term.leaf leaf).IsReadAs (leaf.tree.place offset).outline := by
  cases leaf with
  | literal text =>
      rw [tree, outline_place_node]
      rcases rawText_cases text with ⟨rfl, raw⟩ | raw
      · rw [raw]
        exact .leaf (.literal "") _
      · rw [raw]
        exact .leaf (.literal text) _
  | charClass text =>
      rw [tree, outline_place_node]
      rcases rawText_cases text with ⟨rfl, raw⟩ | raw
      · rw [raw]
        exact .leaf (.charClass "") _
      · rw [raw]
        exact .leaf (.charClass text) _
  | _ => exact .leaf _ _

/-! ## Groups -/

/-- A typeset term is a node, and neither a tag nor a label. -/
theorem Term.exists_tree_eq (term : Term) :
    ∃ kind children, term.tree = .node kind children ∧ kind.isDecoration = false := by
  cases term with
  | leaf leaf => cases leaf <;> exact ⟨_, _, rfl, rfl⟩
  | group construct body => cases construct <;> exact ⟨_, _, rfl, rfl⟩

theorem Term.word?_tree (term : Term) (accepts : Kind → Bool) :
    Tree.word? accepts term.tree = none := by
  obtain ⟨kind, children, eq, -⟩ := term.exists_tree_eq
  rw [eq, Tree.word?]

theorem Term.decoration?_tree (term : Term) {kind : Kind} (decorates : kind.isDecoration = true) :
    Tree.decoration? kind term.tree = none := by
  obtain ⟨own, children, eq, plain⟩ := term.exists_tree_eq
  have differs : (own == kind) = false := by
    rw [beq_eq_false_iff_ne]
    rintro rfl
    cases plain.symm.trans decorates
  rw [eq, Tree.decoration?, differs]
  rfl

/-- What a view reads off the children of a construct is what the draft says: its text, its function, its
tag and its label. -/
theorem Construct.read_children (construct : Construct) (body : List Term) :
    let trees := construct.children body
    (words (fun kind => kind == .text || kind.isRuleName) trees).head?.getD "" = construct.text ∧
      (words (· == .ident) trees).head? = construct.func? ∧
      (trees.filterMap (Tree.decoration? .tag)).head? = construct.tag? ∧
      (trees.filterMap (Tree.decoration? .label)).head? = construct.label? := by
  intro trees
  have word (accepts : Kind → Bool)
      (separator : construct.separator.filterMap (Tree.word? accepts) = []) :
      words accepts trees = words accepts (construct.opening ++ construct.closing) :=
    construct.filterMap_children separator (fun term => term.word?_tree accepts) body
  have decoration {kind : Kind} (decorates : kind.isDecoration = true) :
      trees.filterMap (Tree.decoration? kind) =
        (construct.opening ++ construct.closing).filterMap (Tree.decoration? kind) :=
    construct.filterMap_children (by cases construct <;> rfl)
      (fun term => term.decoration?_tree decorates) body
  rw [word _ (by cases construct <;> rfl), word _ (by cases construct <;> rfl), decoration rfl,
    decoration rfl]
  cases construct with
  | node tag => cases tag <;> exact ⟨rfl, rfl, rfl, rfl⟩
  | fold label tag => cases label <;> cases tag <;> exact ⟨rfl, rfl, rfl, rfl⟩
  | _ => exact ⟨rfl, rfl, rfl, rfl⟩

/-- If the expressions among trees are the terms of a body, the expression nodes among the trees, laid
out, are these terms, unreadable regions left out. -/
theorem forall₂_isLaidOut_body {trees : List Tree} {children : List Placed} {body : List Term}
    (laid : List.Forall₂ IsLaidOut trees children)
    (only : trees.filter (Tree.isNodeOf Kind.isExpression) =
      (body.map Term.tree).filter (Tree.isNodeOf Kind.isExpression)) :
    List.Forall₂ (fun term placed => Tree.IsLaidOut term.tree placed)
      (body.filter Term.isExpression) (children.filter Placed.isExpression) := by
  have terms : (body.map Term.tree).filter (Tree.isNodeOf Kind.isExpression) =
      (body.filter Term.isExpression).map Term.tree := by
    rw [List.filter_map]
    exact congrArg (List.map Term.tree) (List.filter_congr fun term _ => term.isNodeOf_tree)
  have found := Tree.filter_of_laid laid Kind.isExpression
  rw [only, terms, List.forall₂_map_left_iff] at found
  exact found

/-- Every term is read as it was written, wherever it is laid out. -/
theorem Term.isReadAs_outline (term : Term) (offset : Nat) :
    term.IsReadAs (term.tree.place offset).outline := by
  induction term generalizing offset with
  | leaf leaf => exact leaf.isReadAs_outline offset
  | group construct body ih =>
      have laid := forall₂_isLaidOut_body
        (Tree.forall₂_placeAll (construct.children body) offset)
        (construct.filter_children (fun _ => Kind.isExpression_of_isDecoration) body)
      obtain ⟨text, func, tag, label⟩ := construct.read_children body
      rw [tree_group, outline_place_node, text, func, tag, label, outlinesOf_eq]
      refine .group construct _ ?_
      have read : ∀ term ∈ body.filter isExpression, ∀ start,
          term.IsReadAs (term.tree.place start).outline :=
        fun term member => ih term (List.mem_filter.mp member).1
      rw [List.forall₂_map_right_iff]
      refine ((List.forall₂_and_left _ _).mpr ⟨read, laid⟩).imp ?_
      rintro term placed ⟨read, start, rfl⟩
      exact read start

/-! ## Statements -/

theorem word?_ruleName (name : String) :
    Tree.word? Kind.isRuleName (ruleName name) = some name := by
  unfold ruleName
  split <;> rfl

theorem words_space_ruleName (name : String) (trees : List Tree) :
    words Kind.isRuleName (space :: ruleName name :: trees) =
      name :: words Kind.isRuleName trees := by
  have blank : Tree.word? Kind.isRuleName space = none := rfl
  rw [words, List.filterMap_cons, blank, List.filterMap_cons, word?_ruleName]
  rfl

theorem words_exampleNames (names : List String) :
    words Kind.isRuleName (exampleNames names) = names := by
  fun_induction exampleNames names with
  | case1 => rfl
  | case2 name => exact words_space_ruleName name []
  | case3 name names _ ih =>
      rw [words_space_ruleName]
      exact congrArg (name :: ·) ih

theorem nodes_among_exampleNames (names : List String) (accepts : Kind → Bool) :
    (exampleNames names).filter (Tree.isNodeOf accepts) = [] := by
  fun_induction exampleNames names with
  | case1 => rfl
  | case2 name => rfl
  | case3 name names _ ih => exact ih

/-- Of two lists that are related member by member, the first members are related if there are any. -/
theorem rel_head? {α β : Type} {R : α → β → Prop} {xs : List α} {ys : List β}
    (related : List.Forall₂ R xs ys) : Option.Rel R xs.head? ys.head? := by
  cases related with
  | nil => exact .none
  | cons head _ => exact .some head

/-- A rule is read as it was written: its name comes first and no blank is taken for its body. -/
theorem isReadAs_rule (name : String) (body : List Term) (offset : Nat) :
    let trees := [ruleName name, space, .token .eq "=", space] ++ bodyTrees [space] body
    (Statement.rule name body).IsReadAs
      (.rule ⟨offset, offset + Tree.byteSizeOfAll trees⟩
        (View.firstToken? Kind.isRuleName (Tree.placeAll offset trees))
        ((Tree.placeAll offset trees).find? Placed.isExpression)) := by
  intro trees
  have laid := Tree.forall₂_placeAll trees offset
  have named : (View.firstToken? Kind.isRuleName (Tree.placeAll offset trees)).map Token.text =
      some name := by
    rw [View.firstToken?_of_laid laid]
    show (List.filterMap _ (ruleName name :: _)).head? = _
    rw [List.filterMap_cons, word?_ruleName]
    rfl
  obtain ⟨token, found, text⟩ := Option.map_eq_some_iff.mp named
  have terms := (forall₂_isLaidOut_body laid (filter_bodyTrees rfl body)).imp
    fun term placed ⟨start, eq⟩ => eq ▸ term.isReadAs_outline start
  rw [found, ← List.head?_filter]
  refine .rule _ text ?_
  rw [← List.head?_filter]
  exact rel_head? terms

/-- An example is read as it was written: blanks and commas are passed over, and its documentation is
what stands between the delimiters. -/
theorem isReadAs_exampleOf (names : List String) (doc : String) (offset : Nat) :
    let trees := .token .exampleKw "example" :: exampleNames names ++ [space, docTree doc]
    (Statement.exampleOf names doc).IsReadAs
      (.exampleOf ⟨offset, offset + Tree.byteSizeOfAll trees⟩
        ((View.tokensOf (Tree.placeAll offset trees)).filter (·.kind.isRuleName))
        (View.doc? (Tree.placeAll offset trees))) := by
  intro trees
  have laid := Tree.forall₂_placeAll trees offset
  have named : ((View.tokensOf (Tree.placeAll offset trees)).filter (·.kind.isRuleName)).map
      Token.text = names := by
    have keyword : Tree.word? Kind.isRuleName (.token .exampleKw "example") = none := rfl
    have inside := words_exampleNames names
    rw [words] at inside
    rw [View.tokensOf_of_laid laid, words, List.filterMap_append, List.filterMap_cons, keyword,
      inside]
    exact List.append_nil names
  have documentation : trees.filter (Tree.isNodeOf (· == .doc)) = [docTree doc] := by
    rw [List.filter_append, List.filter_cons, nodes_among_exampleNames]
    rfl
  have found := rel_head? (Tree.filter_of_laid laid (· == .doc))
  rw [documentation, List.head?_filter] at found
  generalize located : (Tree.placeAll offset trees).find? _ = node at found
  cases found with
  | some laidOut =>
      obtain ⟨start, rfl⟩ := laidOut
      have text : View.firstText (· == .text) ((docTree doc).place start).children = doc := by
        show View.firstText _ (Tree.placeAll start
          (.token .docDelim "'''" :: rawText doc ++ [.token .docDelim "'''"])) = doc
        exact firstText_rawText rfl rfl rfl _ _ doc start
      rw [View.doc?, View.firstNode?, located, Option.map_some, text]
      exact .exampleOf _ _ doc named

/-- The statements of a typeset draft are its rules and examples, read as they were written. -/
theorem forall₂_statements (statements : List Statement) (offset : Nat) :
    List.Forall₂ Statement.IsReadAs (statements.filter Statement.isTyped)
      ((Tree.placeAll offset (statements.flatMap Statement.trees)).filterMap Placed.statement?) := by
  induction statements generalizing offset with
  | nil => exact .nil
  | cons statement statements ih =>
      cases statement with
      | rule name body => exact .cons (isReadAs_rule name body offset) (ih _)
      | exampleOf names doc => exact .cons (isReadAs_exampleOf names doc offset) (ih _)
      | comment text => exact ih _
      | error text message => exact ih _

/-- **A draft is read as it was written.** Typesetting a draft gives a source. Its statements are the
rules and examples of the draft in order: a rule with its name and its first term for a body, an example
with its names and its documentation. Its expression nodes, in document order, are the terms of the draft
in the order in which they were written, unreadable regions left out: each with the kind of its
construct, its text, its tag and its label if it has one, and what the terms of its body say. -/
theorem parse_isRead (statements : List Statement) :
    ∃ source, (parse statements).source? = some source ∧
      List.Forall₂ Statement.IsReadAs (statements.filter Statement.isTyped) source.statements ∧
      List.Forall₂ (fun term node => term.IsReadAs node.outline) (calls statements)
        (source.nodes.filter Placed.isExpression) := by
  refine ⟨(parse statements).root, rfl, forall₂_statements statements 0, ?_⟩
  have nodes := (Tree.nodes_standIn (parse statements).tree 0 (Span.Covers.whole _)).imp
    fun _ _ stands => stands.isLaidOut
  have expressions := Tree.filter_of_laid nodes Kind.isExpression
  rw [filter_nodes_parse, List.forall₂_map_left_iff] at expressions
  exact expressions.imp fun term node ⟨start, eq⟩ => eq ▸ term.isReadAs_outline start

end Peg.Draft
