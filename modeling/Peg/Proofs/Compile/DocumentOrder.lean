import Mathlib.Data.List.Flatten
import Peg.Proofs.Compile.References
import Peg.Proofs.Compile.Visited
import Peg.Proofs.Tree.Nodes

/-!
# References in document order

Splicing moves operands between constructs and an action keeps its first argument twice. Still the
references of a compiled body are those of its visited nodes: one for every node that stands for a
reference, in the order in which the nodes stand in the document.

* `Placed.refers`, `Placed.reference`: the nodes that stand for a reference, and the reference.
* `references_assemble_full`: the references of one node, in terms of those of its operands.
* `Placed.references_compile_full`: the references of a body, in terms of its visited nodes.
* `Placed.visited_sublist_nodes`: visiting goes through the document without turning back.
* `Tree.references_compile_place`: the references of a body in document order.
-/

namespace Peg

open Text (Span)

/-! ## One node -/

/-- The nodes of the kind stand for a reference. -/
def Kind.refers : Kind → Bool
  | .name | .quoted => true
  | _ => false

/-- What a construct of the kind reads of its operands: none, the first, or all of them. -/
def Kind.read {α : Type} (kind : Kind) (operands : List α) : List α :=
  match kind.arity with
  | .leaf => []
  | .unary => operands.take 1
  | .variadic => operands

theorem Kind.read_map {α β : Type} (kind : Kind) (f : α → β) (operands : List α) :
    kind.read (operands.map f) = (kind.read operands).map f := by
  unfold read
  split
  · rfl
  · exact List.map_take.symm
  · rfl

section Assemble

variable {grammar : GrammarId} {kind : Kind} {span : Span} {children : List Placed}
  {operands : List Expr}

/-- In full mode the references of a node are the one that the node itself stands for, if it stands for
one, and those of the operands that its construct reads. -/
theorem references_assemble_full :
    (assemble grammar .full kind span children operands).references =
      (if kind.refers then [⟨grammar, View.operandText children, span⟩] else []) ++
        (kind.read operands).flatMap Expr.references := by
  have first : (operands.headD .empty).references =
      (operands.take 1).flatMap Expr.references := by
    cases operands with
    | nil => rfl
    | cons operand others => exact (List.flatMap_singleton _ _).symm
  cases kind
  case charClass => exact CharClass.references_read (View.operandText children)
  case many | many1 | optional | and | not | node | edge | fold => exact first
  case seq => exact Expr.references_seqOf operands
  case choice | alt => exact Expr.references_choiceOf operands
  case func => exact Expr.references_action ..
  all_goals rfl

end Assemble

/-! ## All nodes -/

namespace Placed

/-- The node stands for a reference. -/
def refers (node : Placed) : Bool :=
  node.isNodeOf Kind.refers

/-- The reference that a node stands for: the name is its text, the place its own. -/
def reference (grammar : GrammarId) (node : Placed) : Reference :=
  ⟨grammar, View.operandText node.children, node.span⟩

theorem readOperands_eq (kind : Kind) (children : List Placed) :
    readOperands kind children = kind.read (operandsAmong children) := rfl

/-- In full mode the references of a body are those that its visited nodes stand for, each once and in
the order of visiting. -/
theorem references_compile_full (body : Placed) (grammar : GrammarId) :
    (body.compile grammar .full).references =
      (body.visited.filter refers).map (reference grammar) := by
  induction body with
  | token t => rfl
  | node kind span children ih =>
      have operands : (kind.read ((operandsAmong children).map (compile grammar .full))).flatMap
            Expr.references =
          (((readOperands kind children).flatMap visited).filter refers).map
            (reference grammar) := by
        rw [Kind.read_map, ← readOperands_eq, List.flatMap_map, List.filter_flatMap,
          List.map_flatMap]
        exact List.flatMap_congr fun child member => ih child (mem_of_mem_readOperands member)
      rw [compile_node, references_assemble_full, operands, visited_node, List.filter_cons]
      cases own : kind.refers with
      | true => simp [refers, own, reference]
      | false => simp [refers, own]

theorem readOperands_sublist (kind : Kind) (children : List Placed) :
    (readOperands kind children).Sublist children := by
  have operands : (operandsAmong children).Sublist children := List.filter_sublist
  unfold readOperands
  split
  · exact List.nil_sublist _
  · exact (List.take_sublist 1 _).trans operands
  · exact operands

/-- The visited nodes of a body are some of its nodes in document order, none of them twice. -/
theorem visited_sublist_nodes (body : Placed) : body.visited.Sublist body.nodes := by
  induction body with
  | token t => exact List.Sublist.refl _
  | node kind span children ih =>
      rw [visited_node, nodes_node]
      apply List.Sublist.cons_cons
      calc
        ((readOperands kind children).flatMap visited).Sublist
            ((readOperands kind children).flatMap nodes) :=
          List.Sublist.flatMap_right _ fun child member => ih child (mem_of_mem_readOperands member)
        List.Sublist _ (children.flatMap nodes) := (readOperands_sublist kind children).flatMap nodes

end Placed

/-- **The references of a body in document order.** Whatever tree is compiled in full mode, wherever it
stands in a source, the references of the expression are those of the visited nodes that stand for one,
each once: its name is the text of the node, its place that of the node, and it belongs to the grammar
that is compiled. The visited nodes are taken from the document in its order, so the references are
sorted by the place where they begin. -/
theorem Tree.references_compile_place (tree : Tree) (offset : Nat) (grammar : GrammarId) :
    let body := tree.place offset
    let listed := (body.compile grammar .full).references
    listed = (body.visited.filter Placed.refers).map (Placed.reference grammar) ∧
      body.visited.Sublist body.nodes ∧
      listed.Pairwise fun first second => first.span.start ≤ second.span.start := by
  intro body listed
  have eq : listed = (body.visited.filter Placed.refers).map (Placed.reference grammar) :=
    body.references_compile_full grammar
  have inOrder : (body.visited.filter Placed.refers).Sublist body.nodes :=
    List.filter_sublist.trans body.visited_sublist_nodes
  refine ⟨eq, body.visited_sublist_nodes, ?_⟩
  rw [eq, List.pairwise_map]
  exact (tree.pairwise_nodes_place offset).sublist inOrder

end Peg
