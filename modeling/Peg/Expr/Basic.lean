import Peg.Text.Span

/-!
# Parsing expressions

The compiled form of a rule body: recognition (atoms, sequence, choice, repetition, lookahead), tree
construction (nodes, edges, folds) and actions.

* `Expr`: the expressions. Constructs with one operand share the constructor `Expr.unary`.
* `Expr.seqOf`, `Expr.choiceOf`: sequence and choice with nested ones of the same kind spliced in.
* `Expr.references`: every rule reference, depth first.
* `Expr.recognizer`: what is left when tree construction and actions are taken away.
-/

namespace Peg

open Text (Span)

/-- The identity of a grammar. -/
structure GrammarId where
  value : UInt32
deriving DecidableEq, Repr

/-- The identity handed out after this one; identities start again after the last. -/
def GrammarId.next (id : GrammarId) : GrammarId := ⟨id.value + 1⟩

/-- A rule reference: the name, the grammar it belongs to and where it was written. The rule itself
is looked up only when the reference is used. -/
structure Reference where
  grammar : GrammarId
  name : String
  span : Span
deriving DecidableEq, Repr

/-- An expression without parts. -/
inductive Atom where
  /-- Succeeds without consuming input. -/
  | empty
  /-- Any one character. -/
  | any
  /-- Never matches. -/
  | fail
  /-- The text itself. -/
  | literal (text : String)
  /-- One character out of `chars`, or between the bounds of a pair of `ranges`, which holds low and
  high bounds in turn. -/
  | set (chars ranges : String)
  /-- Another rule. -/
  | ref (target : Reference)
deriving DecidableEq, Repr

/-- A construct with one operand. -/
inductive Operator where
  /-- Zero or more. -/
  | many
  /-- One or more. -/
  | many1
  /-- Zero or one. -/
  | optional
  /-- Positive lookahead. -/
  | and
  /-- Negative lookahead. -/
  | not
  /-- A tree node tagged `tag` around the match. -/
  | node (tag : String) (shift : Int)
  /-- The tree of the match hung under the edge `label`. -/
  | edge (label : String)
  /-- The tree to the left folded into a new node under the edge `label`. -/
  | fold (label tag : String) (shift : Int)
deriving DecidableEq, Repr

/-- The operator builds a tree and recognizes what its operand recognizes. -/
def Operator.buildsTree : Operator → Bool
  | .node .. | .edge .. | .fold .. => true
  | .many | .many1 | .optional | .and | .not => false

/-- A parsing expression. -/
inductive Expr where
  | atom (atom : Atom)
  | unary (operator : Operator) (operand : Expr)
  /-- One after the other. -/
  | seq (items : List Expr)
  /-- The first alternative that matches. -/
  | choice (alternatives : List Expr)
  /-- The action `func` on `params`; `inner` is what it recognizes. -/
  | action (func : String) (span : Span) (inner : Expr) (params : List Expr)
deriving Repr

namespace Expr

@[match_pattern] abbrev empty : Expr := .atom .empty
@[match_pattern] abbrev any : Expr := .atom .any
@[match_pattern] abbrev fail : Expr := .atom .fail
@[match_pattern] abbrev literal (text : String) : Expr := .atom (.literal text)
@[match_pattern] abbrev set (chars ranges : String) : Expr := .atom (.set chars ranges)
@[match_pattern] abbrev ref (target : Reference) : Expr := .atom (.ref target)

instance : Inhabited Expr := ⟨.empty⟩

/-! ## Equality -/

mutual

/-- Decides whether two expressions are the same. -/
def decEq : (left right : Expr) → Decidable (left = right)
  | .atom x, other =>
    match other with
    | .atom y => decidable_of_iff (x = y) (by simp)
    | .unary .. | .seq .. | .choice .. | .action .. => isFalse nofun
  | .unary op x, other =>
    match other with
    | .unary op' y =>
      have := decEq x y
      decidable_of_iff (op = op' ∧ x = y) (by simp)
    | .atom .. | .seq .. | .choice .. | .action .. => isFalse nofun
  | .seq xs, other =>
    match other with
    | .seq ys =>
      have := decEqList xs ys
      decidable_of_iff (xs = ys) (by simp)
    | .atom .. | .unary .. | .choice .. | .action .. => isFalse nofun
  | .choice xs, other =>
    match other with
    | .choice ys =>
      have := decEqList xs ys
      decidable_of_iff (xs = ys) (by simp)
    | .atom .. | .unary .. | .seq .. | .action .. => isFalse nofun
  | .action func span x xs, other =>
    match other with
    | .action func' span' y ys =>
      have := decEq x y
      have := decEqList xs ys
      decidable_of_iff (func = func' ∧ span = span' ∧ x = y ∧ xs = ys) (by simp)
    | .atom .. | .unary .. | .seq .. | .choice .. => isFalse nofun

/-- Decides whether two lists of expressions are the same. -/
def decEqList : (left right : List Expr) → Decidable (left = right)
  | [], [] => isTrue rfl
  | [], _ :: _ => isFalse nofun
  | _ :: _, [] => isFalse nofun
  | x :: xs, y :: ys =>
    have := decEq x y
    have := decEqList xs ys
    decidable_of_iff (x = y ∧ xs = ys) (by simp)

end

instance : DecidableEq Expr := decEq

/-! ## Sequence and choice -/

/-- What an expression adds to a sequence around it. -/
def seqItems : Expr → List Expr
  | .seq items => items
  | other => [other]

/-- What an expression adds to a choice around it. -/
def choiceItems : Expr → List Expr
  | .choice alternatives => alternatives
  | other => [other]

/-- A sequence with nested sequences spliced in; without items it is `empty`, and one item stands for
itself. -/
def seqOf (items : List Expr) : Expr :=
  match items.flatMap seqItems with
  | [] => .empty
  | [item] => item
  | items => .seq items

/-- A choice with nested choices spliced in; without alternatives it is `fail`, and one alternative
stands for itself. -/
def choiceOf (alternatives : List Expr) : Expr :=
  match alternatives.flatMap choiceItems with
  | [] => .fail
  | [alternative] => alternative
  | alternatives => .choice alternatives

/-! ## Parts -/

/-- The direct parts, in order. Those of an action are its parameters: what it recognizes is the
first of them, or `empty`. -/
def children : Expr → List Expr
  | .atom _ => []
  | .unary _ operand => [operand]
  | .seq items => items
  | .choice alternatives => alternatives
  | .action _ _ _ params => params

/-- The reference that the expression is, if it is one. -/
def reference? : Expr → Option Reference
  | .ref target => some target
  | _ => none

mutual

/-- Every rule reference in the expression, depth first. -/
def references : Expr → List Reference
  | .atom a =>
    match a with
    | .ref target => [target]
    | _ => []
  | .unary _ operand => references operand
  | .seq items => referencesOfAll items
  | .choice alternatives => referencesOfAll alternatives
  | .action _ _ _ params => referencesOfAll params

/-- Every rule reference in a list of expressions, in order. -/
def referencesOfAll : List Expr → List Reference
  | [] => []
  | e :: es => references e ++ referencesOfAll es

end

mutual

/-- The expression without tree construction and actions: it decides in the same way whether input
matches. -/
def recognizer : Expr → Expr
  | .atom a => .atom a
  | .unary op operand =>
    if op.buildsTree then recognizer operand else .unary op (recognizer operand)
  | .seq items => seqOf (recognizers items)
  | .choice alternatives => choiceOf (recognizers alternatives)
  | .action _ _ inner _ => recognizer inner

/-- The recognizers of a list of expressions. -/
def recognizers : List Expr → List Expr
  | [] => []
  | e :: es => recognizer e :: recognizers es

end

end Expr

end Peg
