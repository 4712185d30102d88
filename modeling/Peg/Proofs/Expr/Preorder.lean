import Mathlib.Data.List.Basic
import Peg.Proofs.Expr.Structure

/-!
# Parts of an expression, depth first

* `Expr.preorder`: the expression and all its parts. What an action recognizes is no part besides its
  parameters.
* `Expr.preorder_eq`: an expression comes before its parts.
* `Expr.references_eq_preorder`: the references of an expression are those among its parts, depth first.
-/

namespace Peg.Expr

mutual

/-- The expression and all its parts, depth first. -/
def preorder : Expr → List Expr
  | .atom a => [.atom a]
  | .unary operator operand => .unary operator operand :: preorder operand
  | .seq items => .seq items :: preorderOfAll items
  | .choice alternatives => .choice alternatives :: preorderOfAll alternatives
  | .action func span inner params => .action func span inner params :: preorderOfAll params

/-- The expressions of a list and all their parts, depth first. -/
def preorderOfAll : List Expr → List Expr
  | [] => []
  | e :: es => preorder e ++ preorderOfAll es

end

theorem preorderOfAll_eq_flatMap (items : List Expr) :
    preorderOfAll items = items.flatMap preorder := by
  induction items with
  | nil => rfl
  | cons item items ih => rw [preorderOfAll, ih, List.flatMap_cons]

/-- Depth first, an expression comes before its parts, and they follow one after the other. -/
theorem preorder_eq (e : Expr) : e.preorder = e :: e.children.flatMap preorder := by
  cases e with
  | atom a => rfl
  | unary operator operand => rw [preorder, children, List.flatMap_singleton]
  | seq items => rw [preorder, children, preorderOfAll_eq_flatMap]
  | choice alternatives => rw [preorder, children, preorderOfAll_eq_flatMap]
  | action func span inner params => rw [preorder, children, preorderOfAll_eq_flatMap]

/-- The references of an expression are those among its parts, depth first. -/
theorem references_eq_preorder (e : Expr) : e.references = e.preorder.filterMap reference? := by
  -- What is gathered over the parts is the same; an expression with parts is no reference itself.
  have gathered {items : List Expr}
      (each : ∀ item ∈ items, item.references = item.preorder.filterMap reference?) :
      items.flatMap references = (items.flatMap preorder).filterMap reference? := by
    rw [List.filterMap_flatMap]
    exact List.flatMap_congr each
  induction e with
  | atom a =>
      cases a with
      | _ => rfl
  | unary operator operand ih =>
      rw [references, preorder, ih]
      rfl
  | seq items ih =>
      rw [references_seq, gathered ih, preorder_eq]
      rfl
  | choice alternatives ih =>
      rw [references_choice, gathered ih, preorder_eq]
      rfl
  | action func span inner params _ ih =>
      rw [references_action, gathered ih, preorder_eq]
      rfl

end Peg.Expr
