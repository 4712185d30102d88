import Peg.Expr.Basic

/-!
# Structure of expressions

* `Expr.structural`: induction over expressions. Lists of parts come with the hypothesis for every
  member, so no proof needs a companion for lists.
* `Expr.exists_cons_cons`: what two parts or more are.
* `Expr.recognizers_eq_map`, `Expr.referencesOfAll_eq_flatMap`: the list companions of the traversals
  in terms of the traversals themselves.
* `Expr.references_seq`, `Expr.references_choice`, `Expr.references_action`: the references of a
  construct are those of its parts.
-/

namespace Peg

open Text (Span)

namespace Expr

/-- Induction over expressions. -/
@[elab_as_elim, induction_eliminator]
theorem structural {motive : Expr → Prop}
    (atom : ∀ a, motive (.atom a))
    (unary : ∀ operator operand, motive operand → motive (.unary operator operand))
    (seq : ∀ items, (∀ item ∈ items, motive item) → motive (.seq items))
    (choice : ∀ alternatives, (∀ item ∈ alternatives, motive item) →
      motive (.choice alternatives))
    (action : ∀ func span inner params, motive inner → (∀ param ∈ params, motive param) →
      motive (.action func span inner params))
    (e : Expr) : motive e :=
  @Expr.rec motive (fun items => ∀ item ∈ items, motive item)
    atom unary seq choice action (fun _ member => nomatch member)
    (fun _ _ head tail _ member => by
      rcases List.mem_cons.mp member with rfl | member
      · exact head
      · exact tail _ member)
    e

/-- Two parts or more are a first, a second and others. -/
theorem exists_cons_cons {items : List Expr} (two : 2 ≤ items.length) :
    ∃ first second others, items = first :: second :: others := by
  match items, two with
  | first :: second :: others, _ => exact ⟨first, second, others, rfl⟩

theorem recognizers_eq_map (items : List Expr) : recognizers items = items.map recognizer := by
  induction items with
  | nil => rfl
  | cons item items ih => rw [recognizers, ih, List.map_cons]

theorem referencesOfAll_eq_flatMap (items : List Expr) :
    referencesOfAll items = items.flatMap references := by
  induction items with
  | nil => rfl
  | cons item items ih => rw [referencesOfAll, ih, List.flatMap_cons]

theorem references_seq (items : List Expr) :
    (Expr.seq items).references = items.flatMap references := by
  rw [references, referencesOfAll_eq_flatMap]

theorem references_choice (items : List Expr) :
    (Expr.choice items).references = items.flatMap references := by
  rw [references, referencesOfAll_eq_flatMap]

theorem references_action (func : String) (span : Span) (inner : Expr) (params : List Expr) :
    (Expr.action func span inner params).references = params.flatMap references := by
  rw [references, referencesOfAll_eq_flatMap]

end Expr

end Peg
