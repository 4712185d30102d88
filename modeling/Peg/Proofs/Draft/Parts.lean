import Peg.Proofs.Tree.Views
import Peg.Tree.Draft

/-!
# The parts of a typeset draft

The children of the node for a construct are the terms of its body among blanks, punctuation, a label
and a tag. What is collected from the children is collected from the terms and from what stands before
and behind them.

* `Draft.Term.structural`: induction over terms.
* `Draft.flatMap_bodyTrees`: what is collected from a typeset body.
* `Draft.Construct.filter_children`, `Draft.Construct.filterMap_children`: what is collected from the
  children of a construct.
* `Draft.calls`, `Draft.filter_nodes_parse`: the expression nodes of a typeset draft are its terms, in
  the order in which they were written.
-/

namespace Peg.Draft

/-- Induction over terms. -/
@[elab_as_elim, induction_eliminator]
theorem Term.structural {motive : Term → Prop} (leaf : ∀ leaf, motive (.leaf leaf))
    (group : ∀ construct body, (∀ term ∈ body, motive term) → motive (.group construct body))
    (term : Term) : motive term :=
  @Term.rec motive (fun body => ∀ term ∈ body, motive term)
    leaf group (fun _ member => nomatch member)
    (fun _ _ head tail _ member => by
      rcases List.mem_cons.mp member with rfl | member
      · exact head
      · exact tail _ member)
    term

/-! ## Raw text -/

/-- Raw text is left out or typeset as it is. -/
theorem rawText_cases (text : String) :
    text = "" ∧ rawText text = [] ∨ rawText text = [.token .text text] := by
  unfold rawText
  split
  · next none => exact Or.inl ⟨String.isEmpty_iff.mp none, rfl⟩
  · exact Or.inr rfl

/-- Raw text between two other tokens is what is read off the node around them. -/
theorem firstText_rawText {accepts : Kind → Bool} (raw : accepts .text = true)
    {opening closing : Kind} (plain : accepts opening = false) (plain' : accepts closing = false)
    (before behind text : String) (offset : Nat) :
    View.firstText accepts (Tree.placeAll offset
      (.token opening before :: rawText text ++ [.token closing behind])) = text := by
  rw [View.firstText_of_laid (Tree.forall₂_placeAll _ offset)]
  rcases rawText_cases text with ⟨rfl, eq⟩ | eq
  · simp [eq, Tree.words, Tree.word?, plain, plain']
  · simp [eq, Tree.words, Tree.word?, plain, raw]

/-! ## Bodies -/

section Body

variable {α : Type} {separator : List Tree}

theorem flatMap_tailTrees {f : Tree → List α} (none : separator.flatMap f = []) (body : List Term) :
    (tailTrees separator body).flatMap f = body.flatMap fun term => f term.tree := by
  induction body with
  | nil => rfl
  | cons term body ih =>
      rw [tailTrees, List.flatMap_append, none, List.nil_append, List.flatMap_cons, ih,
        List.flatMap_cons]

/-- If nothing is collected from the separator, what is collected from a typeset body is what is
collected from its terms. -/
theorem flatMap_bodyTrees {f : Tree → List α} (none : separator.flatMap f = []) (body : List Term) :
    (bodyTrees separator body).flatMap f = body.flatMap fun term => f term.tree := by
  cases body with
  | nil => rfl
  | cons term body =>
      rw [bodyTrees, List.flatMap_cons, flatMap_tailTrees none, List.flatMap_cons]

theorem filterMap_bodyTrees {f : Tree → Option α} (none : separator.filterMap f = [])
    (body : List Term) :
    (bodyTrees separator body).filterMap f = body.filterMap fun term => f term.tree := by
  rw [List.filterMap_eq_flatMap_toList] at none
  rw [List.filterMap_eq_flatMap_toList, List.filterMap_eq_flatMap_toList, flatMap_bodyTrees none]

theorem filter_bodyTrees {accepts : Tree → Bool} (none : separator.filter accepts = [])
    (body : List Term) :
    (bodyTrees separator body).filter accepts = (body.map Term.tree).filter accepts := by
  rw [← List.filterMap_eq_filter] at none ⊢
  rw [filterMap_bodyTrees none, List.filterMap_map]
  rfl

/-- The children of the node for a group. -/
def Construct.children (construct : Construct) (body : List Term) : List Tree :=
  construct.opening ++ bodyTrees construct.separator body ++ construct.closing

theorem Term.tree_group (construct : Construct) (body : List Term) :
    (Term.group construct body).tree = .node construct.kind (construct.children body) := by
  rw [Term.tree, Construct.children]

/-- What stands between two terms holds no node. -/
theorem Construct.nodes_separator (construct : Construct) :
    construct.separator.flatMap Tree.nodes = [] := by
  cases construct <;> rfl

/-- What is collected neither from the separator nor from terms is collected before and behind the
body. -/
theorem Construct.filterMap_children {construct : Construct} {f : Tree → Option α}
    (separator : construct.separator.filterMap f = []) (terms : ∀ term : Term, f term.tree = none)
    (body : List Term) :
    (construct.children body).filterMap f =
      (construct.opening ++ construct.closing).filterMap f := by
  have inside : body.filterMap (fun term => f term.tree) = [] :=
    List.filterMap_eq_nil_iff.mpr fun term _ => terms term
  rw [children, List.filterMap_append, List.filterMap_append, filterMap_bodyTrees separator, inside,
    List.append_nil, List.filterMap_append]

/-- Unless they are tags or labels, the nodes among the children of a construct are terms of its
body. -/
theorem Construct.filter_children {accepts : Kind → Bool}
    (plain : ∀ kind : Kind, kind.isDecoration = true → accepts kind = false) (construct : Construct)
    (body : List Term) :
    (construct.children body).filter (Tree.isNodeOf accepts) =
      (body.map Term.tree).filter (Tree.isNodeOf accepts) := by
  have tag := plain .tag rfl
  have label := plain .label rfl
  have separator : construct.separator.filter (Tree.isNodeOf accepts) = [] := by
    cases construct <;> rfl
  have opening : construct.opening.filter (Tree.isNodeOf accepts) = [] := by
    cases construct with
    | edge name => simp [Construct.opening, labelTrees, space, Tree.isNodeOf, label]
    | fold name => cases name <;>
        simp [Construct.opening, labelTrees, space, Tree.isNodeOf, label]
    | _ => rfl
  have closing : construct.closing.filter (Tree.isNodeOf accepts) = [] := by
    cases construct with
    | node name | fold _ name => cases name <;>
        simp [Construct.closing, tagTrees, space, Tree.isNodeOf, tag]
    | _ => rfl
  rw [children, List.filter_append, List.filter_append, opening, closing, filter_bodyTrees separator,
    List.nil_append, List.append_nil]

end Body

/-! ## Calls -/

/-- The term stands for an expression, not for an unreadable region. -/
def Term.isExpression : Term → Bool
  | .leaf (.error _) => false
  | .leaf .empty | .leaf .any | .leaf (.literal _) | .leaf (.charClass _) | .leaf (.name _)
  | .leaf (.quoted _) | .group .. => true

mutual

/-- The term and all terms inside it, in the order in which they are written. -/
def Term.calls : Term → List Term
  | .leaf leaf => [.leaf leaf]
  | .group construct body => .group construct body :: callsAmong body

/-- All terms of a body and inside it, in the order in which they are written. -/
def callsAmong : List Term → List Term
  | [] => []
  | term :: terms => term.calls ++ callsAmong terms

end

/-- All terms of a statement. -/
def Statement.calls : Statement → List Term
  | .rule _ body => callsAmong body
  | .exampleOf .. | .comment _ | .error .. => []

/-- All terms of a draft that stand for an expression, in the order in which they are written. -/
def calls (statements : List Statement) : List Term :=
  (statements.flatMap Statement.calls).filter Term.isExpression

theorem callsAmong_eq_flatMap (body : List Term) : callsAmong body = body.flatMap Term.calls := by
  induction body with
  | nil => rfl
  | cons term body ih => rw [callsAmong, ih, List.flatMap_cons]

/-! ## Nodes -/

theorem nodes_rawText (text : String) : (rawText text).flatMap Tree.nodes = [] := by
  unfold rawText
  split <;> rfl

/-- The node for a leaf has no other node inside. -/
theorem Leaf.nodes_tree (leaf : Leaf) : leaf.tree.nodes = [leaf.tree] := by
  cases leaf with
  | literal text | charClass text =>
      rw [tree, Tree.nodes_node, List.flatMap_append, List.flatMap_cons, nodes_rawText]
      rfl
  | _ => rfl

theorem Construct.isExpression_kind (construct : Construct) :
    construct.kind.isExpression = true := by
  cases construct <;> rfl

theorem Term.isNodeOf_tree (term : Term) :
    term.tree.isNodeOf Kind.isExpression = term.isExpression := by
  cases term with
  | leaf leaf => cases leaf <;> rfl
  | group construct body => exact construct.isExpression_kind

theorem Term.isExpression_place (term : Term) (offset : Nat) :
    (term.tree.place offset).isExpression = term.isExpression :=
  (Tree.isNodeOf_of_isLaidOut ⟨offset, rfl⟩ Kind.isExpression).trans term.isNodeOf_tree

/-- Before and behind its body a construct has no expression. -/
theorem Construct.filter_nodes_around (construct : Construct) :
    (construct.opening.flatMap Tree.nodes).filter (Tree.isNodeOf Kind.isExpression) = [] ∧
      (construct.closing.flatMap Tree.nodes).filter (Tree.isNodeOf Kind.isExpression) = [] := by
  cases construct with
  | node tag => cases tag <;> exact ⟨rfl, rfl⟩
  | fold label tag => cases label <;> cases tag <;> exact ⟨rfl, rfl⟩
  | _ => exact ⟨rfl, rfl⟩

/-- What holds of all terms of a body holds of the body: its expression nodes are its terms. -/
theorem filter_nodes_body {separator : List Tree} (none : separator.flatMap Tree.nodes = [])
    {body : List Term}
    (each : ∀ term ∈ body, term.tree.nodes.filter (Tree.isNodeOf Kind.isExpression) =
      (term.calls.filter Term.isExpression).map Term.tree) :
    ((bodyTrees separator body).flatMap Tree.nodes).filter (Tree.isNodeOf Kind.isExpression) =
      ((callsAmong body).filter Term.isExpression).map Term.tree := by
  rw [flatMap_bodyTrees none, callsAmong_eq_flatMap, List.filter_flatMap, List.filter_flatMap,
    List.map_flatMap]
  exact List.flatMap_congr each

/-- The expression nodes of a typeset term are the terms inside it. -/
theorem Term.filter_nodes (term : Term) :
    term.tree.nodes.filter (Tree.isNodeOf Kind.isExpression) =
      (term.calls.filter Term.isExpression).map Term.tree := by
  induction term with
  | leaf leaf =>
      have own := (Term.leaf leaf).isNodeOf_tree
      have alone : (Term.leaf leaf).tree.nodes = [(Term.leaf leaf).tree] := leaf.nodes_tree
      rw [alone, calls, List.filter_cons, List.filter_cons, own]
      split <;> rfl
  | group construct body ih =>
      obtain ⟨before, behind⟩ := construct.filter_nodes_around
      have own : (Tree.node construct.kind (construct.children body)).isNodeOf Kind.isExpression =
        true := construct.isExpression_kind
      have call : (Term.group construct body).isExpression = true := rfl
      have inside : ((construct.children body).flatMap Tree.nodes).filter
          (Tree.isNodeOf Kind.isExpression) =
            ((callsAmong body).filter isExpression).map Term.tree := by
        rw [Construct.children, List.flatMap_append, List.flatMap_append, List.filter_append,
          List.filter_append, before, behind, filter_nodes_body construct.nodes_separator ih,
          List.nil_append, List.append_nil]
      rw [calls, List.filter_cons_of_pos call, List.map_cons, tree_group, Tree.nodes_node,
        List.filter_cons_of_pos own, inside]

theorem nodes_exampleNames (names : List String) :
    (exampleNames names).flatMap Tree.nodes = [] := by
  fun_induction exampleNames names with
  | case1 => rfl
  | case2 name => rfl
  | case3 name names _ ih => exact ih

/-- The expression nodes of a typeset statement are the terms inside it. -/
theorem Statement.filter_nodes (statement : Statement) :
    (statement.trees.flatMap Tree.nodes).filter (Tree.isNodeOf Kind.isExpression) =
      (statement.calls.filter Term.isExpression).map Term.tree := by
  cases statement with
  | comment text => rfl
  | error text message => rfl
  | exampleOf names doc =>
      have documentation : (docTree doc).nodes = [docTree doc] := by
        rw [docTree, Tree.nodes_node, List.flatMap_append, List.flatMap_cons, nodes_rawText]
        rfl
      rw [trees, List.flatMap_cons, Tree.nodes_node, List.flatMap_append, List.flatMap_cons,
        nodes_exampleNames, List.flatMap_cons, List.flatMap_cons, documentation]
      rfl
  | rule name body =>
      have blank : [space].flatMap Tree.nodes = [] := rfl
      have inside := filter_nodes_body blank fun term (_ : term ∈ body) => term.filter_nodes
      have newline : [newline].flatMap Tree.nodes = [] := rfl
      rw [trees, List.flatMap_cons, Tree.nodes_node, List.flatMap_append, newline, List.append_nil]
      exact inside

/-- The expression nodes of a typeset draft are its terms, in the order in which they were written. -/
theorem filter_nodes_parse (statements : List Statement) :
    (parse statements).tree.nodes.filter (Tree.isNodeOf Kind.isExpression) =
      (calls statements).map Term.tree := by
  rw [Parse.tree, parse, Tree.nodes_node, List.filter_cons_of_neg Bool.false_ne_true, List.flatMap_assoc,
    List.filter_flatMap, calls, List.filter_flatMap, List.map_flatMap]
  exact List.flatMap_congr fun statement _ => statement.filter_nodes

end Peg.Draft
