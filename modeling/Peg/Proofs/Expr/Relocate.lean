import Peg.Proofs.Expr.Map

/-!
# Moving references

The same expression in another grammar: names and places stay, only the grammar that references belong
to is another one.

* `Expr.inGrammar`: the expression with its references moved.
* `Expr.inGrammar_seqOf`, `Expr.inGrammar_choiceOf`: moving them commutes with splicing.
-/

namespace Peg

open Text (Span)

/-- The reference to the same name in another grammar. -/
def Reference.inGrammar (grammar : GrammarId) (target : Reference) : Reference :=
  { target with grammar := grammar }

/-- The atom, a reference moved to another grammar. -/
def Atom.inGrammar (grammar : GrammarId) : Atom → Atom
  | .ref target => .ref (target.inGrammar grammar)
  | other => other

namespace Expr

mutual

/-- The expression with every reference moved to another grammar. -/
def inGrammar (grammar : GrammarId) : Expr → Expr
  | .atom a => .atom (a.inGrammar grammar)
  | .unary operator operand => .unary operator (inGrammar grammar operand)
  | .seq items => .seq (allInGrammar grammar items)
  | .choice alternatives => .choice (allInGrammar grammar alternatives)
  | .action func span inner params =>
    .action func span (inGrammar grammar inner) (allInGrammar grammar params)

/-- A list of expressions with every reference moved to another grammar. -/
def allInGrammar (grammar : GrammarId) : List Expr → List Expr
  | [] => []
  | e :: es => inGrammar grammar e :: allInGrammar grammar es

end

variable {grammar : GrammarId}

theorem allInGrammar_eq_map (items : List Expr) :
    allInGrammar grammar items = items.map (inGrammar grammar) := by
  induction items with
  | nil => rfl
  | cons item items ih => rw [allInGrammar, ih, List.map_cons]

/-- Moving references replaces atoms and nothing else. -/
theorem inGrammar_eq_map (e : Expr) :
    e.inGrammar grammar = e.map (Atom.inGrammar grammar) id := by
  induction e with
  | atom => rfl
  | unary operator operand ih => rw [inGrammar, ih, map]
  | seq items ih => rw [inGrammar, allInGrammar_eq_map, map_seq, List.map_congr_left ih]
  | choice items ih => rw [inGrammar, allInGrammar_eq_map, map_choice, List.map_congr_left ih]
  | action func span inner params ih ihParams =>
      rw [inGrammar, ih, allInGrammar_eq_map, map_action, List.map_congr_left ihParams, id]

theorem inGrammar_action (func : String) (span : Span) (inner : Expr) (params : List Expr) :
    (Expr.action func span inner params).inGrammar grammar =
      .action func span (inner.inGrammar grammar) (params.map (inGrammar grammar)) := by
  rw [inGrammar, allInGrammar_eq_map]

theorem inGrammar_seqOf (items : List Expr) :
    (seqOf items).inGrammar grammar = seqOf (items.map (inGrammar grammar)) := by
  rw [inGrammar_eq_map, map_seqOf rfl, List.map_congr_left fun item _ => inGrammar_eq_map item]

theorem inGrammar_choiceOf (items : List Expr) :
    (choiceOf items).inGrammar grammar = choiceOf (items.map (inGrammar grammar)) := by
  rw [inGrammar_eq_map, map_choiceOf rfl, List.map_congr_left fun item _ => inGrammar_eq_map item]

end Expr

end Peg
