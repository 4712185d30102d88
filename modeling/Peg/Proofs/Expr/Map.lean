import Peg.Proofs.Expr.Flat

/-!
# Expressions up to what is attached to them

* `Expr.map`: the expression with its atoms and the places of its actions replaced.
* `Splice.of_map_parts`: a traversal that keeps the kinds of expressions commutes with splicing, tidy
  or not.
* `Expr.map_seqOf`, `Expr.map_choiceOf`: replacing them commutes with splicing.
* `Expr.unplaced`: the expression with all references at one place of one grammar, so two expressions
  have the same one if they differ in the grammar and the place of references only.
-/

namespace Peg

open Text (Span)

namespace Expr

mutual

/-- The expression with its atoms and the places of its actions replaced. -/
def map (onAtom : Atom → Atom) (onSpan : Span → Span) : Expr → Expr
  | .atom a => .atom (onAtom a)
  | .unary operator operand => .unary operator (map onAtom onSpan operand)
  | .seq items => .seq (mapAll onAtom onSpan items)
  | .choice alternatives => .choice (mapAll onAtom onSpan alternatives)
  | .action func span inner params =>
    .action func (onSpan span) (map onAtom onSpan inner) (mapAll onAtom onSpan params)

/-- A list of expressions with their atoms and the places of their actions replaced. -/
def mapAll (onAtom : Atom → Atom) (onSpan : Span → Span) : List Expr → List Expr
  | [] => []
  | e :: es => map onAtom onSpan e :: mapAll onAtom onSpan es

end

variable {onAtom : Atom → Atom} {onSpan : Span → Span}

theorem mapAll_eq_map (items : List Expr) :
    mapAll onAtom onSpan items = items.map (map onAtom onSpan) := by
  induction items with
  | nil => rfl
  | cons item items ih => rw [mapAll, ih, List.map_cons]

theorem map_seq (items : List Expr) :
    (Expr.seq items).map onAtom onSpan = .seq (items.map (map onAtom onSpan)) := by
  rw [map, mapAll_eq_map]

theorem map_choice (items : List Expr) :
    (Expr.choice items).map onAtom onSpan = .choice (items.map (map onAtom onSpan)) := by
  rw [map, mapAll_eq_map]

theorem map_action (func : String) (span : Span) (inner : Expr) (params : List Expr) :
    (Expr.action func span inner params).map onAtom onSpan =
      .action func (onSpan span) (inner.map onAtom onSpan) (params.map (map onAtom onSpan)) := by
  rw [map, mapAll_eq_map]

end Expr

/-- A traversal that keeps what an expression adds, part by part, commutes with splicing. -/
theorem Splice.of_map_parts {splice : Splice} {f : Expr → Expr} (unit : f splice.unit = splice.unit)
    (wrap : ∀ items, f (splice.wrap items) = splice.wrap (items.map f))
    (parts : ∀ e, splice.parts (f e) = (splice.parts e).map f) (items : List Expr) :
    f (splice.of items) = splice.of (items.map f) := by
  have added : (items.map f).flatMap splice.parts = (items.flatMap splice.parts).map f := by
    rw [List.flatMap_map, List.map_flatMap]
    exact List.flatMap_congr fun item _ => parts item
  rcases splice.of_cases items with ⟨none, eq⟩ | ⟨part, one, eq⟩ | ⟨two, eq⟩
  · rw [eq, unit, of, added, none]
    rfl
  · rw [eq, of, added, one]
    rfl
  · rw [← List.length_map f, ← added] at two
    rw [eq, wrap, of_several two, added]

namespace Expr

variable {onAtom : Atom → Atom} {onSpan : Span → Span}

theorem map_seqOf (empty : onAtom .empty = .empty) (items : List Expr) :
    (seqOf items).map onAtom onSpan = seqOf (items.map (map onAtom onSpan)) := by
  have unit : Expr.empty.map onAtom onSpan = .empty := congrArg Expr.atom empty
  refine Splice.seq.of_map_parts unit map_seq (fun e => ?_) items
  cases e with
  | seq items => exact mapAll_eq_map items
  | _ => rfl

theorem map_choiceOf (fail : onAtom .fail = .fail) (items : List Expr) :
    (choiceOf items).map onAtom onSpan = choiceOf (items.map (map onAtom onSpan)) := by
  have unit : Expr.fail.map onAtom onSpan = .fail := congrArg Expr.atom fail
  refine Splice.choice.of_map_parts unit map_choice (fun e => ?_) items
  cases e with
  | choice items => exact mapAll_eq_map items
  | _ => rfl

end Expr

/-! ## References without a place -/

/-- The reference to the name at a place of no importance. -/
def Reference.named (name : String) : Reference :=
  ⟨⟨0⟩, name, ⟨0, 0⟩⟩

/-- The atom, a reference reduced to its name. -/
def Atom.unplaced : Atom → Atom
  | .ref target => .ref (.named target.name)
  | other => other

/-- The expression with its references reduced to their names. -/
def Expr.unplaced (e : Expr) : Expr :=
  e.map Atom.unplaced id

end Peg
