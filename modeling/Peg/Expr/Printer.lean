import Peg.Escape
import Peg.Expr.Basic

/-!
# Printing parsing expressions

`Expr.display` writes an expression in TPEG notation: quoted literals, bracketed sets, `/` between
alternatives, `*`, `+`, `?` behind and `&`, `!`, `label:` before their operand, braces around tree
nodes and folds, `@` before actions. An operand that binds less tightly than its place requires
stands in parentheses.
-/

namespace Peg.Expr

/-- How tightly an expression holds together when printed, from choice (loosest) to what needs no
parentheses anywhere. -/
def precedence : Expr → Nat
  | .choice _ => 0
  | .seq _ => 1
  | .unary op _ =>
    match op with
    | .and | .not | .edge _ => 2
    | .many | .many1 | .optional => 3
    | .node .. | .fold .. => 4
  | .atom _ => 4
  | .action .. => 4

/-- The text, in parentheses if they are needed. -/
def parenthesizeIf (needed : Bool) (text : List Char) : List Char :=
  if needed then '(' :: text ++ [')'] else text

/-- The printed pairs of bounds; a last bound without partner is left out. -/
def displayRanges : List Char → List Char
  | low :: high :: rest =>
    Escape.encode [']', '-'] [low] ++ '-' :: Escape.encode [']', '-'] [high] ++
      displayRanges rest
  | _ => []

/-- The inside of a printed set: the single characters, then the ranges. -/
def displaySetBody (chars ranges : List Char) : List Char :=
  Escape.encode [']', '-'] chars ++ displayRanges ranges

/-- The printed atom. -/
def displayAtom : Atom → List Char
  | .empty => ['\'', '\'']
  | .any => ['.']
  | .fail => ['!', '\'', '\'']
  | .literal text => '\'' :: Escape.encode ['\''] text.toList ++ ['\'']
  | .set chars ranges => '[' :: displaySetBody chars.toList ranges.toList ++ [']']
  | .ref target => target.name.toList

/-- The printed tag of a node or fold, with the blank before it; an empty tag is not printed. -/
def displayTag (tag : String) : List Char :=
  if tag.isEmpty then [] else ' ' :: '#' :: tag.toList

/-- The printed node around a printed operand. -/
def displayBraced (tag : String) (operand : List Char) : List Char :=
  '{' :: ' ' :: operand ++ displayTag tag ++ [' ', '}']

/-- The printed label of an edge or fold, with the blank after it. -/
def displayLabel (label : String) : List Char :=
  label.toList ++ [':', ' ']

/-- The printed operator applied to an operand that prints as `operand` and holds together as
`level` says. -/
def displayUnary (op : Operator) (level : Nat) (operand : List Char) : List Char :=
  match op with
  | .many => parenthesizeIf (level < 4) operand ++ ['*']
  | .many1 => parenthesizeIf (level < 4) operand ++ ['+']
  | .optional => parenthesizeIf (level < 4) operand ++ ['?']
  | .and => '&' :: parenthesizeIf (level < 2) operand
  | .not => '!' :: parenthesizeIf (level < 2) operand
  | .node tag _ => displayBraced tag operand
  | .edge label => displayLabel label ++ parenthesizeIf (level < 2) operand
  | .fold label tag _ =>
    '^' :: (if label.isEmpty then [] else displayLabel label) ++ displayBraced tag operand

mutual

/-- The printed expression as characters. -/
def displayChars : Expr → List Char
  | .atom a => displayAtom a
  | .unary op operand => displayUnary op operand.precedence (displayChars operand)
  | .seq items => displayJoined [' '] 2 items
  | .choice alternatives => displayJoined [' ', '/', ' '] 1 alternatives
  | .action func _ _ params =>
    '@' :: func.toList ++ '(' :: displayJoined [',', ' '] 0 params ++ [')']

/-- The printed expressions with a separator between them; one that holds together less than `least`
stands in parentheses. -/
def displayJoined (separator : List Char) (least : Nat) : List Expr → List Char
  | [] => []
  | e :: es =>
    parenthesizeIf (e.precedence < least) (displayChars e) ++ displayTail separator least es

/-- The printed expressions with a separator before each of them. -/
def displayTail (separator : List Char) (least : Nat) : List Expr → List Char
  | [] => []
  | e :: es =>
    separator ++ parenthesizeIf (e.precedence < least) (displayChars e) ++
      displayTail separator least es

end

/-- The expression in TPEG notation. -/
def display (e : Expr) : String :=
  String.ofList e.displayChars

end Peg.Expr
