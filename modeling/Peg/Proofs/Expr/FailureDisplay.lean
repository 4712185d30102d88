import Mathlib.Algebra.BigOperators.Group.List.Basic
import Mathlib.Algebra.GroupWithZero.Nat
import Peg.Expr.Printer
import Peg.Proofs.Expr.Preorder

/-!
# How failure is printed

An expression that never matches is printed as if it were written `!''`, the negation of nothing, but it
counts as a construct that holds together more tightly than a negation. Written out as a negation it
needs parentheses in one place where it has none: directly under a repetition.

* `Expr.withoutFail`: the expression with every failure written out as the negation of nothing.
* `Expr.repeatedFails`: how often a failure is repeated directly.
* `Widens`: a text becomes another one by some pairs of parentheses.
* `Expr.widens_display`: writing failures out adds one pair for each that is repeated directly.
* `Expr.display_withoutFail_iff`: so it changes nothing exactly if none is.
-/

namespace Peg

/-! ## Writing failures out -/

namespace Expr

mutual

/-- The expression with every failure in it written out as the negation of nothing. -/
def withoutFail : Expr → Expr
  | .atom a =>
    match a with
    | .fail => .unary .not .empty
    | other => .atom other
  | .unary operator operand => .unary operator (withoutFail operand)
  | .seq items => .seq (allWithoutFail items)
  | .choice alternatives => .choice (allWithoutFail alternatives)
  | .action func span inner params =>
    .action func span (withoutFail inner) (allWithoutFail params)

/-- A list of expressions with every failure in it written out. -/
def allWithoutFail : List Expr → List Expr
  | [] => []
  | e :: es => withoutFail e :: allWithoutFail es

end

end Expr

/-- The operator repeats its operand and is printed behind it. -/
def Operator.repeats : Operator → Bool
  | .many | .many1 | .optional => true
  | .and | .not | .node .. | .edge _ | .fold .. => false

namespace Expr

/-- The expression repeats a failure directly. -/
def repeatsFail : Expr → Bool
  | .unary operator .fail => operator.repeats
  | _ => false

/-- How often a failure is repeated directly in the expression or its parts. -/
def repeatedFails (e : Expr) : Nat :=
  e.preorder.countP repeatsFail

theorem repeatedFails_eq (e : Expr) :
    e.repeatedFails = (e.children.map repeatedFails).sum + if e.repeatsFail then 1 else 0 := by
  rw [repeatedFails, preorder_eq, List.countP_cons, List.countP_flatMap]
  rfl

theorem repeatsFail_unary {operator : Operator} {operand : Expr} (other : operand ≠ .fail) :
    (Expr.unary operator operand).repeatsFail = false := by
  unfold repeatsFail
  split
  · next same => cases same; exact (other rfl).elim
  · rfl

end Expr

/-! ## Widening -/

/-- The second text is the first one with some pairs of parentheses, or as many other characters, put
in. -/
structure Widens (pairs : Nat) (narrow wide : List Char) : Prop where
  sublist : narrow.Sublist wide
  length : wide.length = narrow.length + 2 * pairs

namespace Widens

variable {m n : Nat} {narrow wide narrow' wide' : List Char}

theorem refl (text : List Char) : Widens 0 text text :=
  ⟨List.Sublist.refl text, rfl⟩

theorem append (first : Widens m narrow wide) (second : Widens n narrow' wide') :
    Widens (m + n) (narrow ++ narrow') (wide ++ wide') where
  sublist := first.sublist.append second.sublist
  length := by
    have length := first.length
    have length' := second.length
    simp only [List.length_append]
    omega

theorem between (before behind : List Char) (widens : Widens n narrow wide) :
    Widens n (before ++ narrow ++ behind) (before ++ wide ++ behind) := by
  have all := ((refl before).append widens).append (refl behind)
  rwa [Nat.zero_add, Nat.add_zero] at all

/-- Parentheses are one pair more. -/
theorem parenthesize (text : List Char) : Widens 1 text ('(' :: text ++ [')']) where
  sublist := (List.sublist_append_left text _).cons _
  length := by simp

theorem parenthesizeIf (needed : Bool) (widens : Widens n narrow wide) :
    Widens n (Expr.parenthesizeIf needed narrow) (Expr.parenthesizeIf needed wide) := by
  cases needed with
  | true => exact widens.between ['('] [')']
  | false => exact widens

/-- Nothing is changed exactly if no pair is put in. -/
theorem eq_iff (widens : Widens n narrow wide) : wide = narrow ↔ n = 0 := by
  have length := widens.length
  constructor
  · rintro rfl
    omega
  · rintro rfl
    exact (widens.sublist.eq_of_length length.symm).symm

end Widens

namespace Expr

/-! ## Printing one construct -/

/-- An operator writes its operand between two texts, in parentheses or not. -/
theorem exists_displayUnary_eq (operator : Operator) (level : Nat) :
    ∃ before behind needed, ∀ operand,
      displayUnary operator level operand = before ++ parenthesizeIf needed operand ++ behind := by
  cases operator with
  | many | many1 | optional => exact ⟨[], _, _, fun _ => rfl⟩
  | and => exact ⟨['&'], [], level < 2, fun _ => (List.append_nil _).symm⟩
  | not => exact ⟨['!'], [], level < 2, fun _ => (List.append_nil _).symm⟩
  | edge label => exact ⟨displayLabel label, [], level < 2, fun _ => (List.append_nil _).symm⟩
  | node tag shift =>
      refine ⟨['{', ' '], displayTag tag ++ [' ', '}'], false, fun operand => ?_⟩
      simp [displayUnary, displayBraced, parenthesizeIf]
  | fold label tag shift =>
      refine ⟨'^' :: (if label.isEmpty then [] else displayLabel label) ++ ['{', ' '],
        displayTag tag ++ [' ', '}'], false, fun operand => ?_⟩
      simp [displayUnary, displayBraced, parenthesizeIf]

theorem widens_displayUnary {n : Nat} {narrow wide : List Char} (operator : Operator) (level : Nat)
    (widens : Widens n narrow wide) :
    Widens n (displayUnary operator level narrow) (displayUnary operator level wide) := by
  obtain ⟨before, behind, needed, eq⟩ := exists_displayUnary_eq operator level
  rw [eq, eq]
  exact (widens.parenthesizeIf needed).between before behind

/-- A repetition puts a mark behind its operand. -/
theorem exists_displayUnary_repeats {operator : Operator} (repeats : operator.repeats = true) :
    ∃ mark, ∀ level operand,
      displayUnary operator level operand = parenthesizeIf (level < 4) operand ++ [mark] := by
  cases operator with
  | many | many1 | optional => exact ⟨_, fun _ _ => rfl⟩
  | and | not | node | edge | fold => cases repeats

/-- Any other operator does not tell apart what holds together as a negation and what holds together
more tightly. -/
theorem displayUnary_congr {operator : Operator} (repeats : operator.repeats = false)
    {level level' : Nat} (same : level < 2 ↔ level' < 2) (operand : List Char) :
    displayUnary operator level operand = displayUnary operator level' operand := by
  have needed : decide (level < 2) = decide (level' < 2) := decide_eq_decide.mpr same
  cases operator with
  | many | many1 | optional => cases repeats
  | node | fold => rfl
  | and | not | edge => simp only [displayUnary, needed]

theorem precedence_withoutFail {e : Expr} (other : e ≠ .fail) :
    e.withoutFail.precedence = e.precedence := by
  cases e with
  | atom a =>
      cases a with
      | fail => exact (other rfl).elim
      | empty | any | literal | set | ref => rfl
  | unary operator => cases operator <;> rfl
  | seq | choice | action => rfl

/-- Only a repetition tells a failure and the negation of nothing apart. -/
theorem precedence_withoutFail_lt (e : Expr) {least : Nat} (low : least ≤ 2) :
    e.withoutFail.precedence < least ↔ e.precedence < least := by
  by_cases fails : e = .fail
  · subst fails
    have negation : (Expr.fail.withoutFail).precedence = 2 := rfl
    have failure : Expr.fail.precedence = 4 := rfl
    omega
  · rw [precedence_withoutFail fails]

/-- A failure that is repeated directly gets a pair of parentheses. -/
theorem widens_displayUnary_fail {operator : Operator} (repeats : operator.repeats = true) :
    Widens 1 (displayChars (Expr.unary operator .fail))
      (displayChars (Expr.unary operator .fail).withoutFail) := by
  obtain ⟨mark, eq⟩ := exists_displayUnary_repeats repeats
  have narrow : displayChars (Expr.unary operator .fail) = displayAtom .fail ++ [mark] :=
    eq 4 (displayAtom .fail)
  have wide : displayChars (Expr.unary operator .fail).withoutFail =
      '(' :: displayAtom .fail ++ [')'] ++ [mark] := eq 2 (displayAtom .fail)
  rw [narrow, wide]
  exact (Widens.parenthesize (displayAtom .fail)).between [] [mark]

/-! ## Printing a list -/

section Joined

variable {separator : List Char} {least : Nat} {items : List Expr}

theorem widens_displayItem {e : Expr} (low : least ≤ 2)
    (widens : Widens e.repeatedFails e.displayChars e.withoutFail.displayChars) :
    Widens e.repeatedFails (parenthesizeIf (e.precedence < least) e.displayChars)
      (parenthesizeIf (e.withoutFail.precedence < least) e.withoutFail.displayChars) := by
  have needed : decide (e.withoutFail.precedence < least) = decide (e.precedence < least) :=
    decide_eq_decide.mpr (precedence_withoutFail_lt e low)
  rw [needed]
  exact widens.parenthesizeIf _

theorem widens_displayTail (low : least ≤ 2)
    (widens : ∀ e ∈ items, Widens e.repeatedFails e.displayChars e.withoutFail.displayChars) :
    Widens (items.map repeatedFails).sum (displayTail separator least items)
      (displayTail separator least (allWithoutFail items)) := by
  induction items with
  | nil => exact .refl []
  | cons e items ih =>
      obtain ⟨head, tail⟩ := List.forall_mem_cons.mp widens
      rw [List.map_cons, List.sum_cons, allWithoutFail, displayTail, displayTail]
      refine Widens.append ?_ (ih tail)
      have item := (widens_displayItem low head).between separator []
      rwa [List.append_nil, List.append_nil] at item

theorem widens_displayJoined (low : least ≤ 2)
    (widens : ∀ e ∈ items, Widens e.repeatedFails e.displayChars e.withoutFail.displayChars) :
    Widens (items.map repeatedFails).sum (displayJoined separator least items)
      (displayJoined separator least (allWithoutFail items)) := by
  cases items with
  | nil => exact .refl []
  | cons e items =>
      obtain ⟨head, tail⟩ := List.forall_mem_cons.mp widens
      rw [List.map_cons, List.sum_cons, allWithoutFail, displayJoined, displayJoined]
      exact (widens_displayItem low head).append (widens_displayTail low tail)

end Joined

/-! ## Printing an expression -/

/-- Writing failures out adds one pair of parentheses for each failure that is repeated directly, and
nothing else. -/
theorem widens_display (e : Expr) :
    Widens e.repeatedFails e.displayChars e.withoutFail.displayChars := by
  induction e with
  | atom a =>
      cases a with
      | _ => exact .refl _
  | unary operator operand ih =>
      by_cases repeated : operand = .fail ∧ operator.repeats = true
      · obtain ⟨rfl, repeats⟩ := repeated
        have one : (Expr.unary operator .fail).repeatedFails = 1 := by
          rw [repeatedFails_eq, repeatsFail, if_pos repeats]
          rfl
        rw [one]
        exact widens_displayUnary_fail repeats
      · have none : (Expr.unary operator operand).repeatsFail = false := by
          by_cases fails : operand = .fail
          · subst fails
            exact Bool.eq_false_iff.mpr fun repeats => repeated ⟨rfl, repeats⟩
          · exact repeatsFail_unary fails
        have count : (Expr.unary operator operand).repeatedFails = operand.repeatedFails := by
          rw [repeatedFails_eq, none, children, List.map_singleton, List.sum_singleton]
          rfl
        have level : displayUnary operator operand.withoutFail.precedence =
            displayUnary operator operand.precedence := by
          funext text
          by_cases fails : operand = .fail
          · have other : operator.repeats = false :=
              Bool.eq_false_iff.mpr fun repeats => repeated ⟨fails, repeats⟩
            exact displayUnary_congr other (precedence_withoutFail_lt operand (Nat.le_refl 2)) text
          · rw [precedence_withoutFail fails]
        rw [count, withoutFail, displayChars, displayChars, level]
        exact widens_displayUnary operator _ ih
  | seq items ih =>
      have count : (Expr.seq items).repeatedFails = (items.map repeatedFails).sum :=
        repeatedFails_eq _
      rw [count, withoutFail, displayChars, displayChars]
      exact widens_displayJoined (Nat.le_refl 2) ih
  | choice items ih =>
      have count : (Expr.choice items).repeatedFails = (items.map repeatedFails).sum :=
        repeatedFails_eq _
      rw [count, withoutFail, displayChars, displayChars]
      exact widens_displayJoined (Nat.le_succ 1) ih
  | action func span inner params _ ih =>
      have count : (Expr.action func span inner params).repeatedFails =
          (params.map repeatedFails).sum := repeatedFails_eq _
      have opened (joined : List Char) : '@' :: func.toList ++ '(' :: joined =
          '@' :: func.toList ++ ['('] ++ joined := List.append_cons _ _ _
      rw [count, withoutFail, displayChars, displayChars, opened (displayJoined _ _ params),
        opened (displayJoined _ _ (allWithoutFail params))]
      exact (widens_displayJoined (Nat.zero_le 2) ih).between ('@' :: func.toList ++ ['(']) [')']

/-- **When failure can be written out.** Writing every failure in an expression out as the negation of
nothing leaves the printed text as it is exactly if nowhere in the expression a failure is repeated
directly. -/
theorem display_withoutFail_iff (e : Expr) :
    e.withoutFail.display = e.display ↔ ∀ part ∈ e.preorder, part.repeatsFail = false := by
  have printed : e.withoutFail.display = e.display ↔ e.withoutFail.displayChars = e.displayChars :=
    String.ofList_inj
  rw [printed, e.widens_display.eq_iff, repeatedFails, List.countP_eq_zero]
  simp only [Bool.not_eq_true]

/-- A failure under a repetition is printed without the parentheses that it needs when it is written
out. -/
theorem display_many_fail_ne :
    (Expr.unary .many .fail).withoutFail.display ≠ (Expr.unary .many .fail).display := by
  decide

end Expr

end Peg
