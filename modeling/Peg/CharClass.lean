import Peg.Escape
import Peg.Expr.Basic

/-!
# Character classes

The inside of a bracketed class is a run of items, each a character or a range `low-high`, written in
the units of `Escape`.

* `CharClass.items`: the items of a class, in order.
* `CharClass.read`: the expression for a class.
-/

namespace Peg.CharClass

/-- An item of a class. -/
inductive Item where
  | single (c : Char)
  | range (low high : Char)
deriving DecidableEq, Repr

/-- The item that one unit makes up, if it has a value. -/
def singleItem (value : Option Char) : List Item :=
  value.toList.map .single

/-- The range between two units; a bound without a value drops it. -/
def rangeItem : Option Char → Option Char → List Item
  | some low, some high => [.range low high]
  | _, _ => []

/-- The item that a unit of value `low` begins, and the rest: a range if a dash with at least one
character behind it follows the unit, and the unit alone otherwise. -/
def itemAfter (low : Option Char) : List Char → List Item × List Char
  | '-' :: c :: rest =>
    (rangeItem low (Escape.decodeOne (c :: rest)).1, (Escape.decodeOne (c :: rest)).2)
  | rest => (singleItem low, rest)

theorem itemAfter_length_le (low : Option Char) (rest : List Char) :
    (itemAfter low rest).2.length ≤ rest.length := by
  unfold itemAfter
  split
  · next c after =>
    have bound := Escape.decodeOne_length_lt c after
    simp only [List.length_cons] at bound ⊢
    omega
  · exact Nat.le_refl _

/-- Reads the first item of a class. -/
def firstItem (text : List Char) : List Item × List Char :=
  itemAfter (Escape.decodeOne text).1 (Escape.decodeOne text).2

/-- An item takes at least one character. -/
theorem firstItem_length_lt (c : Char) (rest : List Char) :
    (firstItem (c :: rest)).2.length < (c :: rest).length :=
  Nat.lt_of_le_of_lt (itemAfter_length_le ..) (Escape.decodeOne_length_lt c rest)

/-- The items of a class, in order. -/
def items : List Char → List Item
  | [] => []
  | c :: rest =>
    (firstItem (c :: rest)).1 ++ items (firstItem (c :: rest)).2
termination_by text => text.length
decreasing_by exact firstItem_length_lt c rest

/-- The single characters among the items. -/
def singles (items : List Item) : List Char :=
  items.flatMap fun
    | .single c => [c]
    | .range .. => []

/-- The bounds of the ranges among the items, low and high in turn. -/
def bounds (items : List Item) : List Char :=
  items.flatMap fun
    | .single _ => []
    | .range low high => [low, high]

/-- The expression for a list of items: none never matches, and a single character alone is a
literal. -/
def ofItems (items : List Item) : Expr :=
  match items with
  | [] => .fail
  | [.single c] => .literal (String.ofList [c])
  | items => .set (String.ofList (singles items)) (String.ofList (bounds items))

/-- The expression for the inside of a bracketed class. -/
def read (text : String) : Expr :=
  ofItems (items text.toList)

end Peg.CharClass
