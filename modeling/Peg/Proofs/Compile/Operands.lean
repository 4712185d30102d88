import Peg.Compile

/-!
# Compiling node by node

What a node contributes and what its operands contribute, apart from each other: a proof about
compiled expressions or reports takes one node at a time.

* `Placed.structural`: induction over trees with positions.
* `Placed.readOperands`: the operands that a node of a given kind reads.
* `Placed.compile_node`, `Placed.reports_node`: the expression for a node and its reports, in terms of
  those of its operands.
* `Placed.compile_of`: what holds of a node as soon as it holds of its operands holds of all compiled
  expressions.
* `actionInner_of`, `actionInner_map`: what an action recognizes, in terms of its parameters.
-/

namespace Peg

open Text (Span)

namespace Placed

/-- Induction over trees with positions. -/
@[elab_as_elim, induction_eliminator]
theorem structural {motive : Placed → Prop}
    (node : ∀ kind span children, (∀ child ∈ children, motive child) →
      motive (.node kind span children))
    (token : ∀ t, motive (.token t)) (placed : Placed) : motive placed :=
  @Placed.rec motive (fun children => ∀ child ∈ children, motive child)
    node token (fun _ member => nomatch member)
    (fun _ _ head tail _ member => by
      rcases List.mem_cons.mp member with rfl | member
      · exact head
      · exact tail _ member)
    placed

/-- The nodes in operand position among some children. -/
def operandsAmong (children : List Placed) : List Placed :=
  children.filter isOperand

/-- The operands that a node of a given kind reads: none, the first, or all of them. -/
def readOperands (kind : Kind) (children : List Placed) : List Placed :=
  match kind.arity with
  | .leaf => []
  | .unary => (operandsAmong children).take 1
  | .variadic => operandsAmong children

theorem mem_of_mem_operandsAmong {child : Placed} {children : List Placed}
    (member : child ∈ operandsAmong children) : child ∈ children :=
  (List.mem_filter.mp member).1

theorem mem_of_mem_readOperands {kind : Kind} {child : Placed} {children : List Placed}
    (member : child ∈ readOperands kind children) : child ∈ children := by
  apply mem_of_mem_operandsAmong
  unfold readOperands at member
  split at member
  · cases member
  · exact List.mem_of_mem_take member
  · exact member

theorem compileOperands_eq (grammar : GrammarId) (mode : Mode) (children : List Placed) :
    compileOperands grammar mode children =
      (operandsAmong children).map (compile grammar mode) := by
  induction children with
  | nil => rfl
  | cons child children ih =>
      rw [compileOperands, operandsAmong, List.filter_cons]
      split
      · rw [List.map_cons, ih, operandsAmong]
      · rw [ih, operandsAmong]

theorem firstReports_eq (mode : Mode) (children : List Placed) :
    firstReports mode children = ((operandsAmong children).take 1).flatMap (reports mode) := by
  induction children with
  | nil => rfl
  | cons child children ih =>
      rw [firstReports, operandsAmong, List.filter_cons]
      split
      · simp only [List.take_succ_cons, List.take_zero, List.flatMap_singleton]
      · rw [ih, operandsAmong]

theorem allReports_eq (mode : Mode) (children : List Placed) :
    allReports mode children = (operandsAmong children).flatMap (reports mode) := by
  induction children with
  | nil => rfl
  | cons child children ih =>
      rw [allReports, operandsAmong, List.filter_cons]
      split
      · rw [List.flatMap_cons, ih, operandsAmong]
      · rw [ih, operandsAmong]

/-- The expression for a node is assembled from those for its operands. -/
theorem compile_node (grammar : GrammarId) (mode : Mode) (kind : Kind) (span : Span)
    (children : List Placed) :
    (node kind span children).compile grammar mode =
      assemble grammar mode kind span children
        ((operandsAmong children).map (compile grammar mode)) := by
  rw [compile, compileOperands_eq]

/-- What is passed on from operands to the node that is assembled from them holds of every compiled
expression. -/
theorem compile_of {P : Expr → Prop} {grammar : GrammarId} {mode : Mode} (token : P .fail)
    (node : ∀ kind span children operands, (∀ operand ∈ operands, P operand) →
      P (assemble grammar mode kind span children operands))
    (placed : Placed) : P (placed.compile grammar mode) := by
  induction placed with
  | token t => exact token
  | node kind span children ih =>
      rw [compile_node]
      refine node kind span children _ (List.forall_mem_map.mpr fun child member => ?_)
      exact ih child (mem_of_mem_operandsAmong member)

/-- The reports about a node stand around those about the operands that it reads. -/
theorem reports_node (mode : Mode) (kind : Kind) (span : Span) (children : List Placed) :
    (node kind span children).reports mode =
      openingReports kind span ++ (readOperands kind children).flatMap (reports mode) ++
        closingReports mode kind span children := by
  rw [reports, readOperands]
  cases kind.arity with
  | leaf => rfl
  | unary => exact congrArg (_ ++ · ++ _) (firstReports_eq mode children)
  | variadic => exact congrArg (_ ++ · ++ _) (allReports_eq mode children)

end Placed

/-! ## The operand of a construct with one -/

variable {P : Expr → Prop} {f : Expr → Expr} {operands : List Expr}

/-- What holds of nothing and of every operand holds of the first operand, if there is one or not. -/
theorem headD_empty_of (empty : P .empty) (all : ∀ operand ∈ operands, P operand) :
    P (operands.headD .empty) := by
  cases operands with
  | nil => exact empty
  | cons operand others => exact all operand List.mem_cons_self

theorem headD_empty_map (empty : f .empty = .empty) :
    f (operands.headD .empty) = (operands.map f).headD .empty := by
  have first := @List.headD_map _ _ f operands .empty
  rw [empty] at first
  exact first.symm

/-- What holds of nothing and of every parameter holds of what an action recognizes. -/
theorem actionInner_of (func : String) (empty : P .empty) (all : ∀ operand ∈ operands, P operand) :
    P (actionInner func operands) := by
  unfold actionInner
  split
  · exact headD_empty_of empty all
  · exact empty

theorem actionInner_map (empty : f .empty = .empty) (func : String) :
    f (actionInner func operands) = actionInner func (operands.map f) := by
  unfold actionInner
  split
  · exact headD_empty_map empty
  · exact empty

end Peg
