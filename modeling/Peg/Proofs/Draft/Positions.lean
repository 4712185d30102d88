import Peg.Proofs.Compile.Modes
import Peg.Proofs.Compile.References
import Peg.Proofs.Compile.Visited
import Peg.Proofs.Draft.Parts
import Peg.Proofs.Expr.Throughout

/-!
# Positions in a typeset draft

Faults, references and actions carry the span of the text that they are about. In a source that was
typeset from a draft these spans are faithful: each cuts just this text out of the text of the source.

* `Expr.IsFaithful`, `Placed.IsFaithful`: the span of an expression or of a node is faithful.
* `Placed.throughout_compile`: what is compiled from faithful nodes is faithful throughout.
* `Draft.Term.isFaithful`: typeset terms are faithful wherever they stand.
* `Draft.parse_isFaithful`: the faults of a typeset draft and all its compiled bodies are faithful.
-/

namespace Peg

open Text (Span)
open Peg.Tree (StandsIn)

/-! ## Faithful spans -/

/-- The span of a reference cuts its name out of the text, that of an action a call of its function. -/
def Expr.IsFaithful (text : String) : Expr → Prop
  | .ref target => target.span.cut? text = some target.name
  | .action func span _ _ =>
    ∃ arguments, span.cut? text = some ("@" ++ func ++ "(" ++ arguments ++ ")")
  | _ => True

namespace Placed

/-- The span of a node that refers to a rule cuts the name out of the text, that of a call a call of the
function. -/
def IsFaithful (text : String) : Placed → Prop
  | .node .name span children | .node .quoted span children =>
    span.cut? text = some (View.operandText children)
  | .node .func span children =>
    ∃ arguments,
      span.cut? text = some ("@" ++ (View.funcName? children).getD "" ++ "(" ++ arguments ++ ")")
  | _ => True

end Placed

/-! ## Compiling -/

section Assemble

variable {text : String} {grammar : GrammarId} {mode : Mode} {kind : Kind} {span : Span}
  {children : List Placed} {operands : List Expr}

theorem throughout_buildTree {operand : Expr} (operator : Operator)
    (inside : operand.Throughout (Expr.IsFaithful text)) :
    (buildTree mode operator operand).Throughout (Expr.IsFaithful text) := by
  cases mode with
  | full => exact .unary trivial inside
  | pure => exact inside

theorem throughout_callAction {func : String}
    (own : ∃ arguments, span.cut? text = some ("@" ++ func ++ "(" ++ arguments ++ ")"))
    (inside : ∀ operand ∈ operands, operand.Throughout (Expr.IsFaithful text)) :
    (callAction mode func span operands).Throughout (Expr.IsFaithful text) := by
  have recognized : (actionInner func operands).Throughout (Expr.IsFaithful text) :=
    actionInner_of func (.atom trivial) inside
  cases mode with
  | full => exact .action own recognized inside
  | pure => exact recognized

theorem CharClass.throughout_read (class_ : String) :
    (CharClass.read class_).Throughout (Expr.IsFaithful text) := by
  obtain ⟨a, eq⟩ := CharClass.exists_atom class_
  have none := CharClass.references_read class_
  rw [eq] at none ⊢
  cases a with
  | ref target => cases none
  | empty | any | fail | literal | set => exact .atom trivial

/-- A node that is faithful and assembled from faithful operands is faithful throughout. -/
theorem throughout_assemble (own : (Placed.node kind span children).IsFaithful text)
    (inside : ∀ operand ∈ operands, operand.Throughout (Expr.IsFaithful text)) :
    (assemble grammar mode kind span children operands).Throughout (Expr.IsFaithful text) := by
  have operand : (operands.headD .empty).Throughout (Expr.IsFaithful text) :=
    headD_empty_of (.atom trivial) inside
  cases kind
  case charClass => exact CharClass.throughout_read (View.operandText children)
  case name | quoted => exact .atom own
  case many | many1 | optional | and | not => exact .unary trivial operand
  case seq => exact Expr.throughout_seqOf trivial (fun _ => trivial) inside
  case choice | alt => exact Expr.throughout_choiceOf trivial (fun _ => trivial) inside
  case node | edge | fold => exact throughout_buildTree _ operand
  case func => exact throughout_callAction own inside
  all_goals exact .atom trivial

end Assemble

namespace Placed

/-- The nodes of a child are nodes of its parent. -/
theorem mem_nodes_of_mem_children {parent child part : Placed} (member : child ∈ parent.children)
    (inside : part ∈ child.nodes) : part ∈ parent.nodes := by
  cases parent with
  | token t => cases member
  | node kind span children =>
      rw [nodes_node]
      exact List.mem_cons_of_mem _ (List.mem_flatMap.mpr ⟨child, member, inside⟩)

/-- What is compiled from a tree of faithful nodes is faithful throughout, in either mode. -/
theorem throughout_compile {text : String} {body : Placed}
    (faithful : ∀ node ∈ body.nodes, node.IsFaithful text) (grammar : GrammarId) (mode : Mode) :
    (body.compile grammar mode).Throughout (Expr.IsFaithful text) := by
  induction body with
  | token t => exact .atom trivial
  | node kind span children ih =>
      rw [compile_node]
      refine throughout_assemble ?_ (List.forall_mem_map.mpr fun child member => ?_)
      · exact faithful _ (nodes_node kind span children ▸ List.mem_cons_self)
      · have among := mem_of_mem_operandsAmong member
        exact ih child among fun node inside => faithful node (mem_nodes_of_mem_children among inside)

/-- The nodes of a rule's body are nodes of the source. -/
theorem mem_nodes_of_mem_bodies {root body : Placed}
    (member : body ∈ root.statements.filterMap Statement.body?) {part : Placed}
    (inside : part ∈ body.nodes) : part ∈ root.nodes := by
  obtain ⟨statement, statementMember, isBody⟩ := List.mem_filterMap.mp member
  obtain ⟨child, childMember, read⟩ := List.mem_filterMap.mp statementMember
  refine mem_nodes_of_mem_children childMember ?_
  unfold statement? at read
  split at read
  · cases read
    exact mem_nodes_of_mem_children (List.mem_of_find?_eq_some isBody) inside
  · cases read
    cases isBody
  · cases read

end Placed

/-! ## Typesetting -/

theorem Tree.textOfAll_append (first second : List Tree) :
    textOfAll (first ++ second) = textOfAll first ++ textOfAll second := by
  induction first with
  | nil => exact String.empty_append.symm
  | cons tree first ih => rw [List.cons_append, textOfAll, textOfAll, ih, String.append_assoc]

namespace Draft

/-- A typeset call is written as `@`, the name of the function, and the arguments in parentheses. -/
theorem Construct.text_call (name : String) (body : List Term) :
    Tree.textOfAll ((Construct.func name).children body) =
      "@" ++ name ++ "(" ++ Tree.textOfAll (bodyTrees (Construct.func name).separator body) ++
        ")" := by
  rw [children, Tree.textOfAll_append, Tree.textOfAll_append]
  show "@" ++ (name ++ ("(" ++ "")) ++ _ ++ (")" ++ "") = _
  simp only [String.append_empty, String.append_assoc]

/-- A typeset term is faithful where its text stands. -/
theorem Term.isFaithful {text : String} {term : Term} {node : Placed}
    (stands : StandsIn text term.tree node) : node.IsFaithful text := by
  obtain ⟨⟨offset, rfl⟩, covers⟩ := stands
  have cut := covers.cut?_eq
  cases term with
  | leaf leaf =>
      cases leaf with
      | name text | quoted text =>
          rw [tree, Leaf.tree, Tree.text, Tree.textOfAll, Tree.textOfAll, String.append_empty] at cut
          exact cut
      | empty | any | error | literal | charClass => exact trivial
  | group construct body =>
      cases construct with
      | func name =>
          rw [tree_group, Tree.text, Construct.text_call] at cut
          exact ⟨_, cut⟩
      | _ => exact trivial

/-- The expression nodes of a typeset draft are its terms, each where its text stands. -/
theorem forall₂_calls_standIn (statements : List Statement) :
    List.Forall₂ (fun term node => StandsIn (parse statements).tree.text term.tree node)
      (calls statements) ((parse statements).root.nodes.filter Placed.isExpression) := by
  have nodes := Tree.nodes_standIn (parse statements).tree 0 (Span.Covers.whole _)
  rw [← List.forall₂_map_left_iff (f := Term.tree), ← filter_nodes_parse]
  exact List.rel_filter
    (fun _ _ stands => Bool.eq_iff_iff.mp
      (Tree.isNodeOf_of_isLaidOut stands.isLaidOut Kind.isExpression).symm) nodes

/-- Of two lists that are related member by member, each member of the second has a partner in the
first. -/
theorem exists_rel_of_mem {α β : Type} {R : α → β → Prop} {xs : List α} {ys : List β} {y : β}
    (related : List.Forall₂ R xs ys) (member : y ∈ ys) : ∃ x ∈ xs, R x y := by
  induction related with
  | nil => cases member
  | cons head _ ih =>
      rcases List.mem_cons.mp member with rfl | member
      · exact ⟨_, List.mem_cons_self, head⟩
      · obtain ⟨x, member, holds⟩ := ih member
        exact ⟨x, List.mem_cons_of_mem _ member, holds⟩

/-- All nodes of a typeset draft are faithful. -/
theorem isFaithful_of_mem_nodes {statements : List Statement} {node : Placed}
    (member : node ∈ (parse statements).root.nodes) :
    node.IsFaithful (parse statements).tree.text := by
  by_cases expression : node.isExpression = true
  · obtain ⟨term, -, stands⟩ := exists_rel_of_mem (forall₂_calls_standIn statements)
      (List.mem_filter.mpr ⟨member, expression⟩)
    exact Term.isFaithful stands
  · cases node with
    | token t => exact trivial
    | node kind span children =>
        cases kind
        case name | quoted | func => exact (expression rfl).elim
        all_goals exact trivial

/-! ## Faults -/

/-- The text and the message of an unreadable region. -/
def Statement.unreadable? : Statement → Option (String × String)
  | .error text message => some (text, message)
  | .rule .. | .exampleOf .. | .comment _ => none

/-- The fault is about the region: it carries the message and its span cuts the text out. -/
structure IsFaultOf (text : String) (region : String × String) (fault : Fault) : Prop where
  message : fault.message = region.2
  cut : fault.span.cut? text = some region.1

/-- The faults of statements are those of the unreadable regions among them, in order, wherever the
text of the statements stands. -/
theorem forall₂_isFaultOf {text : String} (statements : List Statement) (offset : Nat)
    (covers : (Span.ofText offset (Tree.textOfAll (statements.flatMap Statement.trees))).Covers text
      (Tree.textOfAll (statements.flatMap Statement.trees))) :
    List.Forall₂ (IsFaultOf text) (statements.filterMap Statement.unreadable?)
      (faultsFrom offset statements) := by
  induction statements generalizing offset with
  | nil => exact .nil
  | cons statement statements ih =>
      rw [List.flatMap_cons, Tree.textOfAll_append] at covers
      have first := covers.left
      have others := covers.right
      rw [Tree.utf8ByteSize_textOfAll] at others
      have rest := ih _ others
      cases statement with
      | error region message =>
          have cut := first.left.left.cut?_eq
          exact .cons ⟨rfl, cut⟩ rest
      | rule name body => exact rest
      | exampleOf names doc => exact rest
      | comment line => exact rest

/-! ## Drafts -/

/-- **Positions in a typeset draft are faithful.** The faults are those of the unreadable regions in
order, each with its message and a span that cuts the text of the region out of the text of the source.
In what is compiled from the body of any rule, the span of each reference cuts out its name, and the span
of each action, wherever it stands, a call of its function. -/
theorem parse_isFaithful (statements : List Statement) (grammar : GrammarId) :
    let source := parse statements
    let text := source.tree.text
    List.Forall₂ (IsFaultOf text) (statements.filterMap Statement.unreadable?) source.faults ∧
      ∀ body ∈ source.root.statements.filterMap Peg.Statement.body?,
        (∀ target ∈ (body.compile grammar .full).references,
          target.span.cut? text = some target.name) ∧
        (body.compile grammar .full).Throughout (Expr.IsFaithful text) := by
  intro source text
  refine ⟨forall₂_isFaultOf statements 0 (Span.Covers.whole _), fun body member => ?_⟩
  have faithful := Placed.throughout_compile
    (fun _ inside => isFaithful_of_mem_nodes (Placed.mem_nodes_of_mem_bodies member inside))
    grammar .full
  exact ⟨fun _ member => faithful.of_mem_references member, faithful⟩

/-- Spans stay faithful behind letters of several bytes, behind an unreadable region and in a call. -/
theorem parse_isFaithful_behind_letters :
    let statements : List Statement :=
      [.comment "é", .error "= ぁ" "expected rule name",
        .rule "A" [.group .choice
          [.group (.func "scope") [.leaf (.quoted "β"), .leaf (.name "C")], .leaf (.name "D")]]]
    let source := parse statements
    ∃ body ∈ source.root.statements.filterMap Peg.Statement.body?,
      (body.compile ⟨1⟩ .full).references =
        [⟨⟨1⟩, "\"β\"", ⟨23, 27⟩⟩, ⟨⟨1⟩, "C", ⟨29, 30⟩⟩, ⟨⟨1⟩, "D", ⟨34, 35⟩⟩] ∧
      (∀ target ∈ (body.compile ⟨1⟩ .full).references,
        target.span.cut? source.tree.text = some target.name) ∧
      (body.compile ⟨1⟩ .full).Throughout (Expr.IsFaithful source.tree.text) := by
  intro statements source
  have nonempty : source.root.statements.filterMap Peg.Statement.body? ≠ [] :=
    List.cons_ne_nil _ _
  have member := List.head_mem nonempty
  exact ⟨_, member, rfl, (parse_isFaithful statements ⟨1⟩).2 _ member⟩

end Draft

end Peg
