import Mathlib.Data.List.Forall2
import Peg.Proofs.Text.Cut
import Peg.Tree.View

/-!
# Nodes in document order

A tree is laid out node by node: the nodes of the tree with positions are those of the tree, in the same
order, and the span of each covers the text of the node within the text of the whole.

* `Placed.nodes`, `Tree.nodes`: all nodes, every node before those inside it.
* `Tree.pairwise_nodes_place`: this order is that of the places where the nodes begin.
* `Tree.IsLaidOut`, `Tree.forall₂_placeAll`: what trees become when they are laid out.
* `Tree.StandsIn`, `Tree.nodes_standIn`: every node of a tree stands where its text is.
-/

namespace Peg

open Text (Span)

/-! ## Document order -/

mutual

/-- All nodes of a tree in document order: every node before those inside it. -/
def Tree.nodes : Tree → List Tree
  | .node kind children => .node kind children :: Tree.nodesAmong children
  | .token .. => []

/-- All nodes of a list of trees in document order. -/
def Tree.nodesAmong : List Tree → List Tree
  | [] => []
  | tree :: trees => tree.nodes ++ Tree.nodesAmong trees

end

mutual

/-- All nodes of a tree with positions in document order: every node before those inside it. -/
def Placed.nodes : Placed → List Placed
  | .node kind span children => .node kind span children :: Placed.nodesAmong children
  | .token _ => []

/-- All nodes of a list of trees with positions in document order. -/
def Placed.nodesAmong : List Placed → List Placed
  | [] => []
  | placed :: others => placed.nodes ++ Placed.nodesAmong others

end

theorem Tree.nodesAmong_eq_flatMap (trees : List Tree) :
    Tree.nodesAmong trees = trees.flatMap Tree.nodes := by
  induction trees with
  | nil => rfl
  | cons tree trees ih => rw [Tree.nodesAmong, ih, List.flatMap_cons]

theorem Placed.nodesAmong_eq_flatMap (children : List Placed) :
    Placed.nodesAmong children = children.flatMap Placed.nodes := by
  induction children with
  | nil => rfl
  | cons child children ih => rw [Placed.nodesAmong, ih, List.flatMap_cons]

namespace Tree

theorem nodes_node (kind : Kind) (children : List Tree) :
    (node kind children).nodes = node kind children :: children.flatMap nodes := by
  rw [nodes, nodesAmong_eq_flatMap]

end Tree

namespace Placed

theorem nodes_node (kind : Kind) (span : Span) (children : List Placed) :
    (node kind span children).nodes = node kind span children :: children.flatMap nodes := by
  rw [nodes, nodesAmong_eq_flatMap]

end Placed

/-! ## Layout -/

namespace Tree

/-- The tree with positions is the tree, laid out somewhere. -/
def IsLaidOut (tree : Tree) (placed : Placed) : Prop :=
  ∃ offset, placed = tree.place offset

theorem forall₂_placeAll (trees : List Tree) (offset : Nat) :
    List.Forall₂ IsLaidOut trees (placeAll offset trees) := by
  induction trees generalizing offset with
  | nil => exact .nil
  | cons tree trees ih => exact .cons ⟨offset, rfl⟩ (ih _)

theorem span_place (tree : Tree) (offset : Nat) :
    (tree.place offset).span = .ofText offset tree.text := by
  cases tree with
  | node kind children =>
      rw [Span.ofText, utf8ByteSize_text]
      rfl
  | token kind text => rfl

/-- The tree with positions is the tree, laid out where its text stands in a text. -/
structure StandsIn (text : String) (tree : Tree) (placed : Placed) : Prop where
  isLaidOut : tree.IsLaidOut placed
  covers : placed.span.Covers text tree.text

mutual

/-- Wherever the text of a tree stands, its nodes are laid out in document order, each where its text
stands. -/
theorem nodes_standIn {text : String} : (tree : Tree) → (offset : Nat) →
    (Span.ofText offset tree.text).Covers text tree.text →
    List.Forall₂ (StandsIn text) tree.nodes (tree.place offset).nodes
  | .node kind children, offset, covers =>
    .cons ⟨⟨offset, rfl⟩, span_place (.node kind children) offset ▸ covers⟩
      (nodesAmong_standIn children offset covers)
  | .token .., _, _ => .nil

/-- The nodes of a list of trees are laid out in document order, each where its text stands. -/
theorem nodesAmong_standIn {text : String} : (trees : List Tree) → (offset : Nat) →
    (Span.ofText offset (textOfAll trees)).Covers text (textOfAll trees) →
    List.Forall₂ (StandsIn text) (nodesAmong trees) (Placed.nodesAmong (placeAll offset trees))
  | [], _, _ => .nil
  | tree :: trees, offset, covers => by
    have others := covers.right
    rw [utf8ByteSize_text] at others
    exact List.rel_append (nodes_standIn tree offset covers.left)
      (nodesAmong_standIn trees (offset + tree.byteSize) others)

end

/-! ## Positions -/

mutual

/-- Every node of a tree begins where the tree does or behind, and not behind its end. -/
theorem start_of_mem_nodes_place : (tree : Tree) → (offset : Nat) →
    ∀ part ∈ (tree.place offset).nodes,
      offset ≤ part.span.start ∧ part.span.start ≤ offset + tree.byteSize
  | .node _ children, offset, part, member => by
    rw [place, Placed.nodes] at member
    rcases List.mem_cons.mp member with rfl | member
    · exact ⟨Nat.le_refl _, Nat.le_add_right _ _⟩
    · exact start_of_mem_nodesAmong_placeAll children offset part member
  | .token .., _, _, member => nomatch member

theorem start_of_mem_nodesAmong_placeAll : (trees : List Tree) → (offset : Nat) →
    ∀ part ∈ Placed.nodesAmong (placeAll offset trees),
      offset ≤ part.span.start ∧ part.span.start ≤ offset + byteSizeOfAll trees
  | [], _, _, member => nomatch member
  | tree :: trees, offset, part, member => by
    rw [placeAll, Placed.nodesAmong] at member
    rw [byteSizeOfAll]
    rcases List.mem_append.mp member with member | member
    · have bounds := start_of_mem_nodes_place tree offset part member
      omega
    · have bounds := start_of_mem_nodesAmong_placeAll trees _ part member
      omega

end

mutual

/-- Document order is the order of the places where nodes begin. -/
theorem pairwise_nodes_place : (tree : Tree) → (offset : Nat) →
    (tree.place offset).nodes.Pairwise (fun first second => first.span.start ≤ second.span.start)
  | .node _ children, offset =>
    .cons (fun part member => (start_of_mem_nodesAmong_placeAll children offset part member).1)
      (pairwise_nodesAmong_placeAll children offset)
  | .token .., _ => .nil

theorem pairwise_nodesAmong_placeAll : (trees : List Tree) → (offset : Nat) →
    (Placed.nodesAmong (placeAll offset trees)).Pairwise
      (fun first second => first.span.start ≤ second.span.start)
  | [], _ => .nil
  | tree :: trees, offset => by
    rw [placeAll, Placed.nodesAmong, List.pairwise_append]
    refine ⟨pairwise_nodes_place tree offset, pairwise_nodesAmong_placeAll trees _, ?_⟩
    intro first firstMember second secondMember
    have firstBounds := start_of_mem_nodes_place tree offset first firstMember
    have secondBounds := start_of_mem_nodesAmong_placeAll trees _ second secondMember
    omega

end

end Tree

end Peg
