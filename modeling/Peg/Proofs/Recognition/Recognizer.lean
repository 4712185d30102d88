import Mathlib.Data.List.Forall2
import Peg.Proofs.Expr.Flat
import Peg.Proofs.Recognition.Semantics

/-!
# Recognizers recognize the same

Splicing and the removal of tree construction and actions change an expression, not what it does on an
input.

* `Expr.Refines`: every run of one expression is a run of another; a preorder that all constructs
  respect.
* `Expr.Agrees`: both ways.
* `Splice.agrees_of`: a spliced construct does what the construct around the same operands does.
* `Expr.agrees_recognizer`: over one table of rules, a recognizer does what its expression does.
* `Recognizes.of_rules`: a table may be replaced rule by rule.
* `Expr.recognition_preserved`: the recognizer over the table of recognizers.
-/

namespace Peg

namespace Expr

variable {rules : Rules} {e e' e'' inner inner' : Expr} {items items' : List Expr}
  {input : List Char} {result : Recognition}

/-! ## Refinement -/

/-- Every run of the first expression is a run of the second. -/
def Refines (rules : Rules) (e e' : Expr) : Prop :=
  ∀ input result, Recognizes rules e input result → Recognizes rules e' input result

theorem Refines.refl (e : Expr) : Refines rules e e :=
  fun _ _ run => run

theorem Refines.trans (first : Refines rules e e') (second : Refines rules e' e'') :
    Refines rules e e'' :=
  fun input result run => second input result (first input result run)

/-- A repetition goes on as long as its operand does, so its runs are followed step by step. -/
theorem Refines.many (refines : Refines rules e e') :
    Refines rules (.unary .many e) (.unary .many e') := by
  intro input result run
  generalize same : Expr.unary .many e = whole at run
  induction run with
  | many_stop stop =>
      cases same
      exact .many_stop (refines _ _ stop)
  | many_step head _ _ tailIh =>
      cases same
      exact .many_step (refines _ _ head) (tailIh rfl)
  | _ => cases same

theorem Refines.unary (operator : Operator) (refines : Refines rules e e') :
    Refines rules (.unary operator e) (.unary operator e') := by
  intro input result run
  cases run with
  | many_stop stop => exact .many_stop (refines _ _ stop)
  | many_step head tail => exact .many_step (refines _ _ head) (refines.many _ _ tail)
  | many1 head tail => exact .many1 (refines _ _ head) (refines.many _ _ tail)
  | many1_fail run => exact .many1_fail (refines _ _ run)
  | optional run => exact .optional (refines _ _ run)
  | optional_absent run => exact .optional_absent (refines _ _ run)
  | and run => exact .and (refines _ _ run)
  | and_fail run => exact .and_fail (refines _ _ run)
  | not run => exact .not (refines _ _ run)
  | not_fail run => exact .not_fail (refines _ _ run)
  | node run => exact .node (refines _ _ run)
  | edge run => exact .edge (refines _ _ run)
  | fold run => exact .fold (refines _ _ run)

theorem Refines.seq_cons (first : Refines rules e e')
    (others : Refines rules (.seq items) (.seq items')) :
    Refines rules (.seq (e :: items)) (.seq (e' :: items')) := by
  intro input result run
  rcases run.seq_cases with ⟨consumed, rest, more, head, tail, rfl⟩ | ⟨head, rfl⟩
  · exact .seq_cons (first _ _ head) (others _ _ tail)
  · exact .seq_fail (first _ _ head)

theorem Refines.choice_cons (first : Refines rules e e')
    (others : Refines rules (.choice items) (.choice items')) :
    Refines rules (.choice (e :: items)) (.choice (e' :: items')) := by
  intro input result run
  rcases run.choice_cases with ⟨consumed, rest, head, rfl⟩ | ⟨head, tail⟩
  · exact .choice_first (first _ _ head)
  · exact .choice_next (first _ _ head) (others _ _ tail)

/-! ## Agreement -/

/-- The expressions have the same runs. -/
def Agrees (rules : Rules) (e e' : Expr) : Prop :=
  Refines rules e e' ∧ Refines rules e' e

theorem Agrees.refl (e : Expr) : Agrees rules e e :=
  ⟨.refl e, .refl e⟩

theorem Agrees.symm (agrees : Agrees rules e e') : Agrees rules e' e :=
  ⟨agrees.2, agrees.1⟩

theorem Agrees.trans (first : Agrees rules e e') (second : Agrees rules e' e'') :
    Agrees rules e e'' :=
  ⟨first.1.trans second.1, second.2.trans first.2⟩

theorem Agrees.iff (agrees : Agrees rules e e') (input : List Char) (result : Recognition) :
    Recognizes rules e input result ↔ Recognizes rules e' input result :=
  ⟨agrees.1 input result, agrees.2 input result⟩

theorem Agrees.unary (operator : Operator) (agrees : Agrees rules e e') :
    Agrees rules (.unary operator e) (.unary operator e') :=
  ⟨agrees.1.unary operator, agrees.2.unary operator⟩

/-! ## Splicing -/

theorem agrees_seq_nil : Agrees rules .empty (.seq []) := by
  constructor
  · intro input result run
    cases run
    exact .seq_nil
  · intro input result run
    cases run
    exact .empty

theorem agrees_seq_singleton (e : Expr) : Agrees rules e (.seq [e]) := by
  constructor
  · intro input result run
    cases result with
    | success consumed rest => simpa [Recognition.after] using run.seq_cons .seq_nil
    | failure => exact .seq_fail run
  · intro input result run
    rcases run.seq_cases with ⟨consumed, rest, more, head, tail, rfl⟩ | ⟨head, rfl⟩
    · cases tail
      simpa [Recognition.after] using head
    · exact head

/-- A sequence at the front of a sequence runs item by item. -/
theorem agrees_seq_append (inner items : List Expr) :
    Agrees rules (.seq (inner ++ items)) (.seq (.seq inner :: items)) := by
  induction inner with
  | nil =>
      constructor
      · intro input result run
        simpa using Recognizes.seq_nil.seq_cons run
      · intro input result run
        rcases run.seq_cases with ⟨consumed, rest, more, head, tail, rfl⟩ | ⟨head, rfl⟩
        · cases head
          simpa using tail
        · cases head
  | cons e inner ih =>
      constructor
      · intro input result run
        rcases run.seq_cases with ⟨first, rest, more, head, tail, rfl⟩ | ⟨head, rfl⟩
        · rcases (ih.1 _ _ tail).seq_cases with
            ⟨second, rest', last, middle, final, rfl⟩ | ⟨middle, rfl⟩
          · rw [Recognition.after_after]
            exact (head.seq_cons middle).seq_cons final
          · exact .seq_fail (head.seq_cons middle)
        · exact .seq_fail (.seq_fail head)
      · intro input result run
        rcases run.seq_cases with ⟨front, rest, more, whole, tail, rfl⟩ | ⟨whole, rfl⟩
        · rcases whole.seq_cases with ⟨first, rest', part, head, middle, eq⟩ | ⟨-, eq⟩
          · obtain ⟨second, rfl, rfl⟩ := Recognition.of_after_eq_success eq.symm
            rw [← Recognition.after_after]
            exact head.seq_cons (ih.2 _ _ (middle.seq_cons tail))
          · cases eq
        · rcases whole.seq_cases with ⟨first, rest', part, head, middle, eq⟩ | ⟨head, -⟩
          · cases part with
            | success => cases eq
            | failure => exact head.seq_cons (ih.2 _ _ (.seq_fail middle))
          · exact .seq_fail head

theorem agrees_choice_nil : Agrees rules .fail (.choice []) := by
  constructor
  · intro input result run
    cases run
    exact .choice_nil
  · intro input result run
    cases run
    exact .fail

theorem agrees_choice_singleton (e : Expr) : Agrees rules e (.choice [e]) := by
  constructor
  · intro input result run
    cases result with
    | success consumed rest => exact .choice_first run
    | failure => exact .choice_next run .choice_nil
  · intro input result run
    rcases run.choice_cases with ⟨consumed, rest, head, rfl⟩ | ⟨head, tail⟩
    · exact head
    · cases tail
      exact head

/-- A choice at the front of a choice runs alternative by alternative. -/
theorem agrees_choice_append (inner items : List Expr) :
    Agrees rules (.choice (inner ++ items)) (.choice (.choice inner :: items)) := by
  induction inner with
  | nil =>
      constructor
      · intro input result run
        exact .choice_next .choice_nil run
      · intro input result run
        rcases run.choice_cases with ⟨consumed, rest, head, rfl⟩ | ⟨-, tail⟩
        · cases head
        · exact tail
  | cons e inner ih =>
      constructor
      · intro input result run
        rcases run.choice_cases with ⟨consumed, rest, head, rfl⟩ | ⟨head, tail⟩
        · exact .choice_first (.choice_first head)
        · rcases (ih.1 _ _ tail).choice_cases with ⟨consumed, rest, middle, rfl⟩ | ⟨middle, tail⟩
          · exact .choice_first (.choice_next head middle)
          · exact .choice_next (.choice_next head middle) tail
      · intro input result run
        rcases run.choice_cases with ⟨consumed, rest, whole, rfl⟩ | ⟨whole, tail⟩
        · rcases whole.choice_cases with ⟨consumed', rest', head, eq⟩ | ⟨head, middle⟩
          · exact eq ▸ .choice_first head
          · exact .choice_next head (ih.2 _ _ (.choice_first middle))
        · rcases whole.choice_cases with ⟨consumed', rest', head, eq⟩ | ⟨head, middle⟩
          · cases eq
          · exact .choice_next head (ih.2 _ _ (.choice_next middle tail))

end Expr

/-- Splicing nested constructs in does not change what is recognized. This is asked of the construct on
no operand, on one, on itself in front of other operands, and operand by operand. -/
structure Splice.Transparent (splice : Splice) (rules : Rules) : Prop where
  unit : splice.unit.Agrees rules (splice.wrap [])
  single : ∀ e : Expr, e.Agrees rules (splice.wrap [e])
  append : ∀ e items, (splice.wrap (splice.parts e ++ items)).Agrees rules (splice.wrap (e :: items))
  cons : ∀ {e e' : Expr} {items items' : List Expr}, e.Refines rules e' →
    (splice.wrap items).Refines rules (splice.wrap items') →
      (splice.wrap (e :: items)).Refines rules (splice.wrap (e' :: items'))

namespace Splice

variable {splice : Splice} {rules : Rules} {e e' : Expr} {items items' : List Expr}

theorem Transparent.agrees_cons (transparent : splice.Transparent rules) (first : e.Agrees rules e')
    (others : (splice.wrap items).Agrees rules (splice.wrap items')) :
    (splice.wrap (e :: items)).Agrees rules (splice.wrap (e' :: items')) :=
  ⟨transparent.cons first.1 others.1, transparent.cons first.2 others.2⟩

theorem Transparent.agrees_wrap (transparent : splice.Transparent rules)
    (agrees : List.Forall₂ (Expr.Agrees rules) items items') :
    (splice.wrap items).Agrees rules (splice.wrap items') := by
  induction agrees with
  | nil => exact .refl _
  | cons first _ ih => exact transparent.agrees_cons first ih

theorem Transparent.agrees_flatMap (transparent : splice.Transparent rules) (items : List Expr) :
    (splice.wrap (items.flatMap splice.parts)).Agrees rules (splice.wrap items) := by
  induction items with
  | nil => exact .refl _
  | cons e items ih =>
      have spliced := transparent.append e (items.flatMap splice.parts)
      rw [List.flatMap_cons]
      exact spliced.trans (transparent.agrees_cons (.refl e) ih)

/-- A spliced construct does what the construct around the same operands does. -/
theorem Transparent.agrees_of (transparent : splice.Transparent rules) (items : List Expr) :
    (splice.of items).Agrees rules (splice.wrap items) := by
  refine Expr.Agrees.trans ?_ (transparent.agrees_flatMap items)
  rcases splice.of_cases items with ⟨none, eq⟩ | ⟨part, one, eq⟩ | ⟨-, eq⟩
  · rw [eq, none]
    exact transparent.unit
  · rw [eq, one]
    exact transparent.single part
  · rw [eq]
    exact .refl _

theorem transparent_seq (rules : Rules) : Splice.seq.Transparent rules where
  unit := Expr.agrees_seq_nil
  single := Expr.agrees_seq_singleton
  append e items := by
    cases e with
    | seq inner => exact Expr.agrees_seq_append inner items
    | _ => exact .refl _
  cons := Expr.Refines.seq_cons

theorem transparent_choice (rules : Rules) : Splice.choice.Transparent rules where
  unit := Expr.agrees_choice_nil
  single := Expr.agrees_choice_singleton
  append e items := by
    cases e with
    | choice inner => exact Expr.agrees_choice_append inner items
    | _ => exact .refl _
  cons := Expr.Refines.choice_cons

end Splice

/-! ## Recognizers -/

namespace Expr

variable {rules rules' : Rules} {e : Expr} {input : List Char} {result : Recognition}

/-- A tree-building operator does what its operand does. -/
theorem agrees_buildsTree {operator : Operator} (builds : operator.buildsTree = true) (e : Expr) :
    Agrees rules (.unary operator e) e := by
  constructor
  · intro input result run
    cases run with
    | node run | edge run | fold run => exact run
    | _ => cases builds
  · intro input result run
    cases operator with
    | node => exact .node run
    | edge => exact .edge run
    | fold => exact .fold run
    | _ => cases builds

theorem agrees_action (func : String) (span : Text.Span) (inner : Expr) (params : List Expr) :
    Agrees rules (.action func span inner params) inner := by
  constructor
  · intro input result run
    cases run with
    | action run => exact run
  · exact fun _ _ run => .action run

/-- Over one table of rules, the recognizer of an expression does what the expression does. -/
theorem agrees_recognizer (rules : Rules) (e : Expr) : Agrees rules e e.recognizer := by
  induction e with
  | atom a => exact .refl _
  | unary operator operand ih =>
      rw [recognizer]
      split
      · next builds => exact (agrees_buildsTree builds operand).trans ih
      · exact ih.unary operator
  | seq items ih =>
      have operands : List.Forall₂ (Agrees rules) items (items.map recognizer) := by
        rw [List.forall₂_map_right_iff, List.forall₂_same]
        exact ih
      rw [recognizer_seq]
      have transparent := Splice.transparent_seq rules
      exact (transparent.agrees_wrap operands).trans (transparent.agrees_of _).symm
  | choice items ih =>
      have operands : List.Forall₂ (Agrees rules) items (items.map recognizer) := by
        rw [List.forall₂_map_right_iff, List.forall₂_same]
        exact ih
      rw [recognizer_choice]
      have transparent := Splice.transparent_choice rules
      exact (transparent.agrees_wrap operands).trans (transparent.agrees_of _).symm
  | action func span inner params ih =>
      rw [recognizer]
      exact (agrees_action func span inner params).trans ih

end Expr

/-! ## Tables of rules -/

/-- Every rule replaced by its recognizer. -/
def Rules.recognizers (rules : Rules) : Rules :=
  rules.map fun rule => (rule.1, rule.2.recognizer)

theorem Rules.lookup_recognizers (rules : Rules) (name : String) :
    rules.recognizers.lookup name = (rules.lookup name).map Expr.recognizer := by
  induction rules with
  | nil => rfl
  | cons rule rules ih =>
      show List.lookup name ((rule.1, rule.2.recognizer) :: Rules.recognizers rules) = _
      rw [List.lookup_cons, List.lookup_cons, ih]
      cases name == rule.1 with
      | true => rfl
      | false => rfl

/-- The table may be replaced by one whose rules allow every run that the rules of the first do. A run
passes through references to any depth, so the induction is on the run and not on the expression. -/
theorem Recognizes.of_rules {rules rules' : Rules} {e : Expr} {input : List Char}
    {result : Recognition}
    (replaced : ∀ name body, rules.lookup name = some body →
      ∃ body', rules'.lookup name = some body' ∧ body.Refines rules' body')
    (run : Recognizes rules e input result) : Recognizes rules' e input result := by
  induction run with
  | ref rule _ ih =>
      obtain ⟨body', rule', refines⟩ := replaced _ _ rule
      exact .ref rule' (refines _ _ ih)
  | empty => exact .empty
  | any => exact .any
  | any_end => exact .any_end
  | fail => exact .fail
  | literal begins => exact .literal begins
  | literal_fail differs => exact .literal_fail differs
  | set member => exact .set member
  | set_fail differs => exact .set_fail differs
  | seq_nil => exact .seq_nil
  | seq_cons _ _ head tail => exact .seq_cons head tail
  | seq_fail _ head => exact .seq_fail head
  | choice_nil => exact .choice_nil
  | choice_first _ head => exact .choice_first head
  | choice_next _ _ head tail => exact .choice_next head tail
  | many_stop _ stop => exact .many_stop stop
  | many_step _ _ head tail => exact .many_step head tail
  | many1 _ _ head tail => exact .many1 head tail
  | many1_fail _ run => exact .many1_fail run
  | optional _ run => exact .optional run
  | optional_absent _ run => exact .optional_absent run
  | and _ run => exact .and run
  | and_fail _ run => exact .and_fail run
  | not _ run => exact .not run
  | not_fail _ run => exact .not_fail run
  | node _ run => exact .node run
  | edge _ run => exact .edge run
  | fold _ run => exact .fold run
  | action _ run => exact .action run

/-- An expression does the same over the table of recognizers. -/
theorem Recognizes.recognizers_iff {rules : Rules} {e : Expr} {input : List Char}
    {result : Recognition} :
    Recognizes rules e input result ↔ Recognizes rules.recognizers e input result := by
  constructor
  · refine of_rules fun name body rule => ⟨body.recognizer, ?_, ?_⟩
    · rw [Rules.lookup_recognizers, rule, Option.map_some]
    · exact (body.agrees_recognizer _).1
  · refine of_rules fun name recognizer rule => ?_
    rw [Rules.lookup_recognizers] at rule
    obtain ⟨body, found, rfl⟩ := Option.map_eq_some_iff.mp rule
    exact ⟨body, found, (body.agrees_recognizer _).2⟩

/-- **Recognition is preserved.** An expression succeeds on an input and consumes a prefix of it, or
fails, exactly if its recognizer does so over the table in which every rule is its recognizer. Splicing
nested sequences and choices into one changes nothing of it either. -/
theorem Expr.recognition_preserved (rules : Rules) :
    (∀ (e : Expr) (input : List Char) (result : Recognition),
      Recognizes rules e input result ↔
        Recognizes rules.recognizers e.recognizer input result) ∧
      (∀ (items : List Expr) (input : List Char) (result : Recognition),
        Recognizes rules (seqOf items) input result ↔
          Recognizes rules (.seq items) input result) ∧
      ∀ (items : List Expr) (input : List Char) (result : Recognition),
        Recognizes rules (choiceOf items) input result ↔
          Recognizes rules (.choice items) input result := by
  refine ⟨fun e input result => ?_, fun items => ?_, fun items => ?_⟩
  · rw [Recognizes.recognizers_iff]
    exact (e.agrees_recognizer rules.recognizers).iff input result
  · exact ((Splice.transparent_seq rules).agrees_of items).iff
  · exact ((Splice.transparent_choice rules).agrees_of items).iff

end Peg
