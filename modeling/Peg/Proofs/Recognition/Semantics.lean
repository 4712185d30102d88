import Peg.Expr.Basic

/-!
# What expressions recognize

Big-step semantics of parsing expressions over a table of rules. A run on an input either succeeds,
taking a prefix off the input, or fails; an expression that recurses without end, or that refers to a
rule which the table does not hold, has no run.

* `Recognition`: how a run ends.
* `Recognizes`: an expression runs on an input to a result.
* `Recognizes.splits`: what is consumed and what is left make up the input.
* `Recognizes.unique`: a run has one result.
-/

namespace Peg

/-- The rules that references stand for, each under its name. -/
abbrev Rules := List (String × Expr)

/-- How a run ends. -/
inductive Recognition where
  /-- The prefix `consumed` is taken off the input, and `rest` is left. -/
  | success (consumed rest : List Char)
  | failure
deriving DecidableEq, Repr

/-- The result of a run that goes on where another one has consumed some text. -/
def Recognition.after (consumed : List Char) : Recognition → Recognition
  | .success more rest => .success (consumed ++ more) rest
  | .failure => .failure

@[simp] theorem Recognition.after_nil (result : Recognition) : result.after [] = result := by
  cases result with
  | success => rfl
  | failure => rfl

@[simp] theorem Recognition.after_after (first second : List Char) (result : Recognition) :
    (result.after second).after first = result.after (first ++ second) := by
  cases result with
  | success => simp [after]
  | failure => rfl

theorem Recognition.of_after_eq_success {first consumed rest : List Char} {result : Recognition}
    (whole : result.after first = .success consumed rest) :
    ∃ more, result = .success more rest ∧ first ++ more = consumed := by
  cases result with
  | success more last =>
      cases whole
      exact ⟨more, rfl, rfl⟩
  | failure => cases whole

/-- The pairs of bounds in the ranges of a set; a last bound without partner bounds nothing. -/
def rangePairs : List Char → List (Char × Char)
  | low :: high :: rest => (low, high) :: rangePairs rest
  | _ => []

/-- The character is one of `chars` or lies between two bounds in `ranges`. -/
def InSet (chars ranges : String) (c : Char) : Prop :=
  c ∈ chars.toList ∨ ∃ bounds ∈ rangePairs ranges.toList, bounds.1 ≤ c ∧ c ≤ bounds.2

/-- The expression runs on the input to the result. Tree construction does not take part, and an action
recognizes its inner expression. -/
inductive Recognizes (rules : Rules) : Expr → List Char → Recognition → Prop
  | empty {input : List Char} : Recognizes rules .empty input (.success [] input)
  | any {c : Char} {rest : List Char} : Recognizes rules .any (c :: rest) (.success [c] rest)
  | any_end : Recognizes rules .any [] .failure
  | fail {input : List Char} : Recognizes rules .fail input .failure
  | literal {text : String} {input rest : List Char} (begins : input = text.toList ++ rest) :
    Recognizes rules (.literal text) input (.success text.toList rest)
  | literal_fail {text : String} {input : List Char} (differs : ¬text.toList <+: input) :
    Recognizes rules (.literal text) input .failure
  | set {chars ranges : String} {c : Char} {rest : List Char} (member : InSet chars ranges c) :
    Recognizes rules (.set chars ranges) (c :: rest) (.success [c] rest)
  | set_fail {chars ranges : String} {input : List Char}
    (differs : ∀ c ∈ input.head?, ¬InSet chars ranges c) :
    Recognizes rules (.set chars ranges) input .failure
  | ref {target : Reference} {body : Expr} {input : List Char} {result : Recognition}
    (rule : rules.lookup target.name = some body) (run : Recognizes rules body input result) :
    Recognizes rules (.ref target) input result
  | seq_nil {input : List Char} : Recognizes rules (.seq []) input (.success [] input)
  | seq_cons {e : Expr} {items : List Expr} {input consumed rest : List Char} {result : Recognition}
    (head : Recognizes rules e input (.success consumed rest))
    (tail : Recognizes rules (.seq items) rest result) :
    Recognizes rules (.seq (e :: items)) input (result.after consumed)
  | seq_fail {e : Expr} {items : List Expr} {input : List Char}
    (head : Recognizes rules e input .failure) : Recognizes rules (.seq (e :: items)) input .failure
  | choice_nil {input : List Char} : Recognizes rules (.choice []) input .failure
  | choice_first {e : Expr} {items : List Expr} {input consumed rest : List Char}
    (head : Recognizes rules e input (.success consumed rest)) :
    Recognizes rules (.choice (e :: items)) input (.success consumed rest)
  | choice_next {e : Expr} {items : List Expr} {input : List Char} {result : Recognition}
    (head : Recognizes rules e input .failure)
    (tail : Recognizes rules (.choice items) input result) :
    Recognizes rules (.choice (e :: items)) input result
  | many_stop {e : Expr} {input : List Char} (stop : Recognizes rules e input .failure) :
    Recognizes rules (.unary .many e) input (.success [] input)
  | many_step {e : Expr} {input consumed rest : List Char} {result : Recognition}
    (head : Recognizes rules e input (.success consumed rest))
    (tail : Recognizes rules (.unary .many e) rest result) :
    Recognizes rules (.unary .many e) input (result.after consumed)
  | many1 {e : Expr} {input consumed rest : List Char} {result : Recognition}
    (head : Recognizes rules e input (.success consumed rest))
    (tail : Recognizes rules (.unary .many e) rest result) :
    Recognizes rules (.unary .many1 e) input (result.after consumed)
  | many1_fail {e : Expr} {input : List Char} (run : Recognizes rules e input .failure) :
    Recognizes rules (.unary .many1 e) input .failure
  | optional {e : Expr} {input consumed rest : List Char}
    (run : Recognizes rules e input (.success consumed rest)) :
    Recognizes rules (.unary .optional e) input (.success consumed rest)
  | optional_absent {e : Expr} {input : List Char} (run : Recognizes rules e input .failure) :
    Recognizes rules (.unary .optional e) input (.success [] input)
  | and {e : Expr} {input consumed rest : List Char}
    (run : Recognizes rules e input (.success consumed rest)) :
    Recognizes rules (.unary .and e) input (.success [] input)
  | and_fail {e : Expr} {input : List Char} (run : Recognizes rules e input .failure) :
    Recognizes rules (.unary .and e) input .failure
  | not {e : Expr} {input : List Char} (run : Recognizes rules e input .failure) :
    Recognizes rules (.unary .not e) input (.success [] input)
  | not_fail {e : Expr} {input consumed rest : List Char}
    (run : Recognizes rules e input (.success consumed rest)) :
    Recognizes rules (.unary .not e) input .failure
  | node {tag : String} {shift : Int} {e : Expr} {input : List Char} {result : Recognition}
    (run : Recognizes rules e input result) :
    Recognizes rules (.unary (.node tag shift) e) input result
  | edge {label : String} {e : Expr} {input : List Char} {result : Recognition}
    (run : Recognizes rules e input result) :
    Recognizes rules (.unary (.edge label) e) input result
  | fold {label tag : String} {shift : Int} {e : Expr} {input : List Char} {result : Recognition}
    (run : Recognizes rules e input result) :
    Recognizes rules (.unary (.fold label tag shift) e) input result
  | action {func : String} {span : Text.Span} {inner : Expr} {params : List Expr}
    {input : List Char} {result : Recognition} (run : Recognizes rules inner input result) :
    Recognizes rules (.action func span inner params) input result

namespace Recognizes

variable {rules : Rules} {e : Expr} {input : List Char} {result result' : Recognition}

/-- A sequence runs its first item, and where that succeeds the other items. -/
theorem seq_cases {items : List Expr} (run : Recognizes rules (.seq (e :: items)) input result) :
    (∃ consumed rest more, Recognizes rules e input (.success consumed rest) ∧
        Recognizes rules (.seq items) rest more ∧ result = more.after consumed) ∨
      (Recognizes rules e input .failure ∧ result = .failure) := by
  cases run with
  | seq_cons head tail => exact Or.inl ⟨_, _, _, head, tail, rfl⟩
  | seq_fail head => exact Or.inr ⟨head, rfl⟩

/-- A choice runs its first alternative, and where that fails the other alternatives. -/
theorem choice_cases {items : List Expr}
    (run : Recognizes rules (.choice (e :: items)) input result) :
    (∃ consumed rest, Recognizes rules e input (.success consumed rest) ∧
        result = .success consumed rest) ∨
      (Recognizes rules e input .failure ∧ Recognizes rules (.choice items) input result) := by
  cases run with
  | choice_first head => exact Or.inl ⟨_, _, head, rfl⟩
  | choice_next head tail => exact Or.inr ⟨head, tail⟩

/-- What a run takes off the input, before what it leaves, is the input. -/
def Splits (input : List Char) : Recognition → Prop
  | .success consumed rest => consumed ++ rest = input
  | .failure => True

theorem Splits.after {consumed rest : List Char} (head : consumed ++ rest = input)
    (tail : Splits rest result) : Splits input (result.after consumed) := by
  cases result with
  | success more last =>
      have tail : more ++ last = rest := tail
      show (consumed ++ more) ++ last = input
      rw [List.append_assoc, tail, head]
  | failure => trivial

/-- What a successful run consumes and what it leaves make up the input. -/
theorem splits (run : Recognizes rules e input result) : Splits input result := by
  induction run with
  | empty | any | seq_nil | many_stop | optional_absent | and | not => rfl
  | literal begins => exact begins.symm
  | set => rfl
  | seq_cons _ _ head tail | many_step _ _ head tail | many1 _ _ head tail => exact tail.after head
  | ref _ _ ih | choice_first _ ih | choice_next _ _ _ ih | optional _ ih | node _ ih | edge _ ih
  | fold _ ih | action _ ih => exact ih
  | _ => trivial

/-- A run of an expression on an input has one result. -/
theorem unique (run : Recognizes rules e input result) (other : Recognizes rules e input result') :
    result = result' := by
  induction run generalizing result' with
  | empty | any | any_end | fail | seq_nil | choice_nil => cases other; rfl
  | @literal text input rest begins =>
      cases other with
      | literal begins' => rw [List.append_cancel_left (begins.symm.trans begins')]
      | literal_fail differs => exact (differs ⟨rest, begins.symm⟩).elim
  | literal_fail differs =>
      cases other with
      | literal begins => exact (differs ⟨_, begins.symm⟩).elim
      | literal_fail => rfl
  | set member =>
      cases other with
      | set => rfl
      | set_fail differs => exact (differs _ rfl member).elim
  | set_fail differs =>
      cases other with
      | set member => exact (differs _ rfl member).elim
      | set_fail => rfl
  | ref rule _ ih =>
      cases other with
      | ref rule' run => exact ih (Option.some.inj (rule'.symm.trans rule) ▸ run)
  | seq_cons _ _ headIh tailIh =>
      cases other with
      | seq_cons head tail =>
          cases headIh head
          rw [tailIh tail]
      | seq_fail head => cases headIh head
  | seq_fail _ headIh =>
      cases other with
      | seq_cons head => cases headIh head
      | seq_fail => rfl
  | choice_first _ headIh =>
      cases other with
      | choice_first head => exact headIh head
      | choice_next head => cases headIh head
  | choice_next _ _ headIh tailIh =>
      cases other with
      | choice_first head => cases headIh head
      | choice_next _ tail => exact tailIh tail
  | many_stop _ ih =>
      cases other with
      | many_stop => rfl
      | many_step head => cases ih head
  | many_step _ _ headIh tailIh =>
      cases other with
      | many_stop stop => cases headIh stop
      | many_step head tail =>
          cases headIh head
          rw [tailIh tail]
  | many1 _ _ headIh tailIh =>
      cases other with
      | many1 head tail =>
          cases headIh head
          rw [tailIh tail]
      | many1_fail run => cases headIh run
  | many1_fail _ ih =>
      cases other with
      | many1 head => cases ih head
      | many1_fail => rfl
  | optional _ ih =>
      cases other with
      | optional run => exact ih run
      | optional_absent run => cases ih run
  | optional_absent _ ih =>
      cases other with
      | optional run => cases ih run
      | optional_absent => rfl
  | and _ ih =>
      cases other with
      | and => rfl
      | and_fail run => cases ih run
  | and_fail _ ih =>
      cases other with
      | and run => cases ih run
      | and_fail => rfl
  | not _ ih =>
      cases other with
      | not => rfl
      | not_fail run => cases ih run
  | not_fail _ ih =>
      cases other with
      | not run => cases ih run
      | not_fail => rfl
  | node _ ih => cases other with | node run => exact ih run
  | edge _ ih => cases other with | edge run => exact ih run
  | fold _ ih => cases other with | fold run => exact ih run
  | action _ ih => cases other with | action run => exact ih run

end Recognizes

end Peg
