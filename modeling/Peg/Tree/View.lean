import Peg.Tree.Basic

/-!
# Typed views of a source tree

What a reader of a tree asks for: statements, names, bodies, documentation, and for an expression its
text, function name, tag, label and operands. Each answer looks at direct children only.

* `Placed.statements`: the rules and examples of a source.
* `Outline`: an expression node with everything that is read off it.
-/

namespace Peg

open Text (Span)

namespace Placed

def kind : Placed → Kind
  | .node kind _ _ => kind
  | .token t => t.kind

def span : Placed → Span
  | .node _ span _ => span
  | .token t => t.span

def children : Placed → List Placed
  | .node _ _ children => children
  | .token _ => []

def token? : Placed → Option Token
  | .node .. => none
  | .token t => some t

/-- A node whose kind satisfies `accepts`. -/
def isNodeOf (accepts : Kind → Bool) : Placed → Bool
  | .node kind _ _ => accepts kind
  | .token _ => false

def isExpression (placed : Placed) : Bool :=
  placed.isNodeOf Kind.isExpression

/-- A node in operand position: any but a tag or label. -/
def isOperand (placed : Placed) : Bool :=
  placed.isNodeOf (!·.isDecoration)

end Placed

/-! ## Lookups among children -/

namespace View

def tokensOf (children : List Placed) : List Token :=
  children.filterMap Placed.token?

/-- The first token whose kind satisfies `accepts`. -/
def firstToken? (accepts : Kind → Bool) (children : List Placed) : Option Token :=
  (tokensOf children).find? (accepts ·.kind)

/-- The text of the first token whose kind satisfies `accepts`, or nothing. -/
def firstText (accepts : Kind → Bool) (children : List Placed) : String :=
  ((firstToken? accepts children).map Token.text).getD ""

def firstNode? (kind : Kind) (children : List Placed) : Option Placed :=
  children.find? (·.isNodeOf (· == kind))

/-- The raw text of an expression with these children: a literal, the inside of a class, or a name. -/
def operandText (children : List Placed) : String :=
  firstText (fun kind => kind == .text || kind.isRuleName) children

def funcName? (children : List Placed) : Option String :=
  (firstToken? (· == .ident) children).map Token.text

/-- The name that a tag or label among the children gives. -/
def decoration? (kind : Kind) (children : List Placed) : Option String :=
  (firstNode? kind children).map fun node => firstText (· == .ident) node.children

def tag? (children : List Placed) : Option String := decoration? .tag children

def label? (children : List Placed) : Option String := decoration? .label children

end View

/-! ## Statements -/

/-- The documentation of an example: the text between its delimiters. -/
structure Doc where
  span : Span
  text : String
deriving DecidableEq, Repr

/-- A statement of a grammar's source. -/
inductive Statement where
  /-- A rule; a tree that was built by hand may lack the name or the body. -/
  | rule (span : Span) (name : Option Token) (body : Option Placed)
  /-- An example for some rules. -/
  | exampleOf (span : Span) (names : List Token) (doc : Option Doc)

/-- The documentation among the children of an example. -/
def View.doc? (children : List Placed) : Option Doc :=
  (firstNode? .doc children).map fun node => ⟨node.span, firstText (· == .text) node.children⟩

/-- The statement that a tree element stands for. -/
def Placed.statement? : Placed → Option Statement
  | .node .rule span children =>
    some (.rule span (View.firstToken? Kind.isRuleName children) (children.find? Placed.isExpression))
  | .node .exampleStmt span children =>
    some (.exampleOf span ((View.tokensOf children).filter (·.kind.isRuleName)) (View.doc? children))
  | _ => none

def Placed.statements (root : Placed) : List Statement :=
  root.children.filterMap Placed.statement?

def Statement.body? : Statement → Option Placed
  | .rule _ _ body => body
  | .exampleOf .. => none

/-! ## Expressions -/

/-- An expression node with everything that is read off it. -/
inductive Outline where
  | mk (kind : Kind) (span : Span) (text : String) (func tag label : Option String)
      (operands : List Outline)
deriving Repr

mutual

def Placed.outline : Placed → Outline
  | .node kind span children =>
    .mk kind span (View.operandText children) (View.funcName? children) (View.tag? children)
      (View.label? children) (outlinesOf children)
  | .token t => .mk t.kind t.span t.text none none none []

/-- The outlines of the expression nodes among the children. -/
def outlinesOf : List Placed → List Outline
  | [] => []
  | child :: children =>
    if child.isExpression then child.outline :: outlinesOf children else outlinesOf children

end

mutual

/-- The kinds of all nodes, the root first. -/
def Placed.nodeKinds : Placed → List Kind
  | .node kind _ children => kind :: nodeKindsOfAll children
  | .token _ => []

/-- The kinds of all nodes of a list of trees. -/
def nodeKindsOfAll : List Placed → List Kind
  | [] => []
  | child :: children => child.nodeKinds ++ nodeKindsOfAll children

end

/-- How many nodes of the tree play a role. -/
def Placed.count (role : Role) (root : Placed) : Nat :=
  root.nodeKinds.countP role.admits

end Peg
