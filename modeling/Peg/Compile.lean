import Peg.CharClass
import Peg.Diagnostic
import Peg.Tree.View

/-!
# Compiling rule bodies

An expression node of a source tree becomes a parsing expression. In pure mode tree construction and
actions are left out, so the result only recognizes input. A node without meaning becomes an
expression that never matches; what is replaced or ignored is reported.

* `Placed.compile`: the expression for a node.
* `Placed.reports`: the diagnostics about a node, in the order in which its parts are read.
-/

namespace Peg

open Text (Span)

/-- What a grammar is compiled for. -/
inductive Mode where
  /-- Recognition, tree construction and actions. -/
  | full
  /-- Recognition only. -/
  | pure
deriving DecidableEq, Repr

/-- The functions whose first argument takes part in recognition. -/
def transparentFunctions : List String :=
  ["lazy", "scope", "symbol", "def", "match", "equals", "contains", "cat"]

/-- The function recognizes its first argument; any other recognizes nothing of its own. -/
def isTransparent (func : String) : Bool :=
  transparentFunctions.contains func

/-! ## Expressions -/

/-- A tree-building operator around an expression, left out in pure mode. -/
def buildTree (mode : Mode) (operator : Operator) (operand : Expr) : Expr :=
  match mode with
  | .full => .unary operator operand
  | .pure => operand

/-- What an action recognizes: the first argument of a transparent function, and nothing
otherwise. -/
def actionInner (func : String) (params : List Expr) : Expr :=
  if isTransparent func then params.headD .empty else .empty

/-- The expression for a function call. -/
def callAction (mode : Mode) (func : String) (span : Span) (params : List Expr) : Expr :=
  match mode with
  | .full => .action func span (actionInner func params) params
  | .pure => actionInner func params

/-- The expression for a node, given the expressions for its operands. A construct with one operand
uses the first, or `empty` if there is none. -/
def assemble (grammar : GrammarId) (mode : Mode) (kind : Kind) (span : Span)
    (children : List Placed) (operands : List Expr) : Expr :=
  let operand := operands.headD .empty
  let tag := (View.tag? children).getD ""
  let label := (View.label? children).getD ""
  match kind with
  | .empty => .empty
  | .any => .any
  | .literal => .literal (Escape.decode (View.operandText children))
  | .charClass => CharClass.read (View.operandText children)
  | .name | .quoted => .ref ⟨grammar, View.operandText children, span⟩
  | .many => .unary .many operand
  | .many1 => .unary .many1 operand
  | .optional => .unary .optional operand
  | .and => .unary .and operand
  | .not => .unary .not operand
  | .seq => .seqOf operands
  | .choice | .alt => .choiceOf operands
  | .node => buildTree mode (.node tag 0) operand
  | .edge => buildTree mode (.edge label) operand
  | .fold => buildTree mode (.fold label tag 0) operand
  | .func => callAction mode ((View.funcName? children).getD "") span operands
  | _ => .fail

mutual

/-- The expression for a node. -/
def Placed.compile (grammar : GrammarId) (mode : Mode) : Placed → Expr
  | .node kind span children =>
    assemble grammar mode kind span children (compileOperands grammar mode children)
  | .token _ => .fail

/-- The expressions for the operand nodes among the children. -/
def compileOperands (grammar : GrammarId) (mode : Mode) : List Placed → List Expr
  | [] => []
  | child :: children =>
    if child.isOperand then
      child.compile grammar mode :: compileOperands grammar mode children
    else compileOperands grammar mode children

end

/-! ## Diagnostics -/

/-- What is reported about a node before its operands are read. -/
def openingReports (kind : Kind) (span : Span) : List Diagnostic :=
  if kind = .alt then
    [(Diagnostic.ofAnomaly .unorderedChoice span).withHint "use '/' for ordered choice"]
  else if kind.isExpression then []
  else [.of .unexpectedNode span ("unexpected syntax node " ++ kind.display)]

/-- What is reported about a function call after its arguments are read. -/
def callReports (mode : Mode) (func : String) (span : Span) (children : List Placed) :
    List Diagnostic :=
  if isTransparent func then
    if children.any Placed.isOperand then []
    else [.of .missingArgument span ("@" ++ func ++ " expects an argument")]
  else
    match mode with
    | .full => []
    | .pure => [.of .idleAction span ("@" ++ func ++ " has no effect in a pure grammar")]

/-- What is reported about a node after its operands are read. -/
def closingReports (mode : Mode) (kind : Kind) (span : Span) (children : List Placed) :
    List Diagnostic :=
  if kind = .func then callReports mode ((View.funcName? children).getD "") span children else []

mutual

/-- What is reported while a node is compiled. A construct with one operand reads only the first. -/
def Placed.reports (mode : Mode) : Placed → List Diagnostic
  | .node kind span children =>
    openingReports kind span ++
      (match kind.arity with
        | .leaf => []
        | .unary => firstReports mode children
        | .variadic => allReports mode children) ++
      closingReports mode kind span children
  | .token _ => []

/-- What is reported about the first operand node. -/
def firstReports (mode : Mode) : List Placed → List Diagnostic
  | [] => []
  | child :: children =>
    if child.isOperand then child.reports mode else firstReports mode children

/-- What is reported about all operand nodes. -/
def allReports (mode : Mode) : List Placed → List Diagnostic
  | [] => []
  | child :: children =>
    if child.isOperand then child.reports mode ++ allReports mode children
    else allReports mode children

end

end Peg
