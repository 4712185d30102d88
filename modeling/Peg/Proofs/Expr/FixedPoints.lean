import Peg.Proofs.Expr.Flat
import Peg.Proofs.Expr.Throughout

/-!
# Fixed points of the recognizer

Taking tree construction and actions away is done after one step: what comes out has nothing left to
take away and nothing left to splice, and such expressions are the only ones that stay as they are.

* `Expr.IsRecognizer`: neither tree construction nor an action anywhere, and flat.
* `Expr.isRecognizer_recognizer`: recognizers are such expressions, whatever they are taken of.
* `Expr.IsRecognizer.recognizer_eq`: the recognizer of such an expression is the expression.
* `Expr.recognizer_fixedPoints`: exactly these expressions are fixed points.
-/

namespace Peg.Expr

/-- The construct takes part in recognition itself: it builds no tree and is no action. -/
def Recognizing : Expr → Prop
  | .unary operator _ => operator.buildsTree = false
  | .action .. => False
  | .atom _ | .seq _ | .choice _ => True

/-- Nowhere in the expression is there tree construction or an action, and every sequence and every
choice in it has two or more parts, none of them of its own kind. -/
structure IsRecognizer (e : Expr) : Prop where
  recognizing : e.Throughout Recognizing
  flat : e.IsFlat

variable {e : Expr} {items : List Expr}

theorem throughout_recognizer (e : Expr) : e.recognizer.Throughout Recognizing := by
  induction e with
  | atom a => exact .atom trivial
  | unary operator operand ih =>
      rw [recognizer]
      split
      · exact ih
      · next recognizing => exact .unary (Bool.eq_false_iff.mpr recognizing) ih
  | seq items ih =>
      rw [recognizer_seq]
      exact throughout_seqOf trivial (fun _ => trivial) (List.forall_mem_map.mpr ih)
  | choice items ih =>
      rw [recognizer_choice]
      exact throughout_choiceOf trivial (fun _ => trivial) (List.forall_mem_map.mpr ih)
  | action func span inner params ih =>
      rw [recognizer]
      exact ih

theorem isRecognizer_recognizer (e : Expr) : e.recognizer.IsRecognizer :=
  ⟨e.throughout_recognizer, e.recognizer_isFlat⟩

/-! ## Parts -/

theorem IsRecognizer.of_unary {operator : Operator} {operand : Expr}
    (isRecognizer : (Expr.unary operator operand).IsRecognizer) :
    operator.buildsTree = false ∧ operand.IsRecognizer := by
  obtain ⟨recognizing, flat⟩ := isRecognizer
  cases recognizing with
  | unary here inside =>
      cases flat with
      | unary _ flat => exact ⟨here, inside, flat⟩

theorem IsRecognizer.of_seq (isRecognizer : (Expr.seq items).IsRecognizer) :
    2 ≤ items.length ∧ (∀ item ∈ items, item.isSeq = false) ∧ ∀ item ∈ items, item.IsRecognizer := by
  obtain ⟨recognizing, flat⟩ := isRecognizer
  cases recognizing with
  | seq _ inside =>
      cases flat with
      | seq two kinds flat =>
          exact ⟨two, kinds, fun item member => ⟨inside item member, flat item member⟩⟩

theorem IsRecognizer.of_choice (isRecognizer : (Expr.choice items).IsRecognizer) :
    2 ≤ items.length ∧ (∀ item ∈ items, item.isChoice = false) ∧
      ∀ item ∈ items, item.IsRecognizer := by
  obtain ⟨recognizing, flat⟩ := isRecognizer
  cases recognizing with
  | choice _ inside =>
      cases flat with
      | choice two kinds flat =>
          exact ⟨two, kinds, fun item member => ⟨inside item member, flat item member⟩⟩

theorem not_isRecognizer_action {func : String} {span : Text.Span} {inner : Expr}
    {params : List Expr} : ¬(Expr.action func span inner params).IsRecognizer := by
  rintro ⟨recognizing, -⟩
  exact recognizing.here

/-! ## Fixed points -/

/-- The recognizers of fixed points are the fixed points themselves. -/
theorem map_recognizer_eq (fixed : ∀ item ∈ items, item.recognizer = item) :
    items.map recognizer = items :=
  (List.map_congr_left fixed).trans (List.map_id' items)

/-- Where there is nothing to take away and nothing to splice, the recognizer is the expression. -/
theorem IsRecognizer.recognizer_eq (isRecognizer : e.IsRecognizer) : e.recognizer = e := by
  induction e with
  | atom a => rfl
  | unary operator operand ih =>
      obtain ⟨recognizing, inside⟩ := isRecognizer.of_unary
      rw [recognizer, if_neg (Bool.eq_false_iff.mp recognizing), ih inside]
  | seq items ih =>
      obtain ⟨two, kinds, inside⟩ := isRecognizer.of_seq
      have fixed := map_recognizer_eq fun item member => ih item member (inside item member)
      rw [recognizer_seq, fixed]
      exact Splice.seq.of_singles two fun item member => isSingle_seq (kinds item member)
  | choice items ih =>
      obtain ⟨two, kinds, inside⟩ := isRecognizer.of_choice
      have fixed := map_recognizer_eq fun item member => ih item member (inside item member)
      rw [recognizer_choice, fixed]
      exact Splice.choice.of_singles two fun item member => isSingle_choice (kinds item member)
  | action func span inner params => exact (not_isRecognizer_action isRecognizer).elim

/-- **The fixed points of the recognizer.** Whatever expression it is taken of, the recognizer has
neither tree construction nor an action, and its sequences and choices have two or more parts, none of
their own kind. An expression is its own recognizer exactly if it has these properties, so taking the
recognizer twice is taking it once. -/
theorem recognizer_fixedPoints (e : Expr) :
    e.recognizer.IsRecognizer ∧ (e.recognizer = e ↔ e.IsRecognizer) ∧
      e.recognizer.recognizer = e.recognizer := by
  have normal := e.isRecognizer_recognizer
  refine ⟨normal, ⟨fun fixed => fixed ▸ normal, fun isRecognizer => ?_⟩, normal.recognizer_eq⟩
  exact isRecognizer.recognizer_eq

/-- Without items a sequence is `empty`, so sequences of such sequences are not taken apart further. -/
example : (Expr.seq [.unary (.edge "left") (.seq []), .seq [.seq []], .choice [.seq [.any]]]).recognizer =
    .seq [.empty, .empty, .any] := by
  decide

end Peg.Expr
