import Peg.Proofs.Expr.Flat
import Peg.Proofs.Expr.Preorder

/-!
# Properties that hold throughout an expression

* `Expr.Throughout`: a property holds of an expression and of everything in it, what its actions
  recognize included.
* `Expr.Throughout.of_mem_preorder`: so it holds of all parts.
* `Expr.throughout_seqOf`, `Expr.throughout_choiceOf`: splicing keeps what does not depend on lists of
  operands.
-/

namespace Peg.Expr

open Text (Span)

/-- The property holds of the expression and of everything in it, in what an action recognizes as well as
in its parameters. -/
inductive Throughout (P : Expr → Prop) : Expr → Prop
  | atom {a : Atom} (here : P (.atom a)) : Throughout P (.atom a)
  | unary {operator : Operator} {operand : Expr} (here : P (.unary operator operand))
    (inside : Throughout P operand) : Throughout P (.unary operator operand)
  | seq {items : List Expr} (here : P (.seq items)) (inside : ∀ item ∈ items, Throughout P item) :
    Throughout P (.seq items)
  | choice {alternatives : List Expr} (here : P (.choice alternatives))
    (inside : ∀ item ∈ alternatives, Throughout P item) : Throughout P (.choice alternatives)
  | action {func : String} {span : Span} {inner : Expr} {params : List Expr}
    (here : P (.action func span inner params)) (recognized : Throughout P inner)
    (inside : ∀ param ∈ params, Throughout P param) :
    Throughout P (.action func span inner params)

variable {P : Expr → Prop} {e part : Expr} {items : List Expr}

theorem Throughout.here (throughout : e.Throughout P) : P e := by
  cases throughout with
  | atom here => exact here
  | unary here => exact here
  | seq here => exact here
  | choice here => exact here
  | action here => exact here

/-- What holds throughout an expression holds of all its parts. -/
theorem Throughout.of_mem_preorder (throughout : e.Throughout P) (member : part ∈ e.preorder) :
    P part := by
  induction throughout with
  | atom here => exact List.mem_singleton.mp member ▸ here
  | unary here _ ih =>
      rcases List.mem_cons.mp member with rfl | member
      · exact here
      · exact ih member
  | seq here _ ih | choice here _ ih | action here _ _ _ ih =>
      rw [preorder_eq] at member
      rcases List.mem_cons.mp member with rfl | member
      · exact here
      · obtain ⟨item, itemMember, member⟩ := List.mem_flatMap.mp member
        exact ih item itemMember member

/-- What holds throughout an expression holds of its references. -/
theorem Throughout.of_mem_references (throughout : e.Throughout P) {target : Reference}
    (member : target ∈ e.references) : P (.ref target) := by
  rw [references_eq_preorder] at member
  obtain ⟨part, partMember, eq⟩ := List.mem_filterMap.mp member
  have isReference : part = .ref target := by
    unfold reference? at eq
    split at eq
    · cases eq
      rfl
    · cases eq
  exact throughout.of_mem_preorder (isReference ▸ partMember)

theorem Throughout.of_mem_seqItems (throughout : e.Throughout P) (member : part ∈ e.seqItems) :
    part.Throughout P := by
  cases e with
  | seq items =>
      cases throughout with
      | seq _ inside => exact inside part member
  | _ => exact List.mem_singleton.mp member ▸ throughout

theorem Throughout.of_mem_choiceItems (throughout : e.Throughout P)
    (member : part ∈ e.choiceItems) : part.Throughout P := by
  cases e with
  | choice items =>
      cases throughout with
      | choice _ inside => exact inside part member
  | _ => exact List.mem_singleton.mp member ▸ throughout

theorem throughout_seqOf (empty : P .empty) (wrap : ∀ items, P (.seq items))
    (throughout : ∀ item ∈ items, item.Throughout P) : (seqOf items).Throughout P := by
  apply Splice.seq.of_preserves (.atom empty) (Q := fun _ => True)
  · intro item itemMember part partMember
    exact ⟨trivial, (throughout item itemMember).of_mem_seqItems partMember⟩
  · intro parts _ all
    exact .seq (wrap parts) fun part member => (all part member).2

theorem throughout_choiceOf (fail : P .fail) (wrap : ∀ items, P (.choice items))
    (throughout : ∀ item ∈ items, item.Throughout P) : (choiceOf items).Throughout P := by
  apply Splice.choice.of_preserves (.atom fail) (Q := fun _ => True)
  · intro item itemMember part partMember
    exact ⟨trivial, (throughout item itemMember).of_mem_choiceItems partMember⟩
  · intro parts _ all
    exact .choice (wrap parts) fun part member => (all part member).2

end Peg.Expr
