import Peg.Tree.Basic

/-!
# Drafts of grammar sources

A draft says what a source holds, statement by statement; `Draft.parse` typesets it: the tree gets
the blanks, punctuation and keywords that make its text read as TPEG source, and every construct
becomes one node.

* `Draft.Term`: an expression, a leaf or a construct around a body of terms.
* `Draft.Statement`: a rule, an example, a comment or an unreadable region.
* `Draft.parse`: the typeset source.
-/

namespace Peg.Draft

open Text (Span)

/-! ## What a draft says -/

/-- A term without parts. -/
inductive Leaf where
  | empty
  | any
  /-- An unreadable region in the place of a term. -/
  | error (text : String)
  /-- A literal with its escapes not decoded. -/
  | literal (text : String)
  | charClass (text : String)
  /-- A reference to a rule with a plain name. -/
  | name (name : String)
  /-- A reference to a rule with a quoted name, given without its quotes. -/
  | quoted (name : String)
deriving DecidableEq, Repr

inductive Construct where
  | many | many1 | optional | and | not | seq | choice | alt
  | node (tag : Option String)
  | edge (label : String)
  | fold (label tag : Option String)
  | func (name : String)
deriving DecidableEq, Repr

/-- A term of a rule's body. -/
inductive Term where
  | leaf (leaf : Leaf)
  | group (construct : Construct) (body : List Term)
deriving Repr

inductive Statement where
  | rule (name : String) (body : List Term)
  | exampleOf (names : List String) (doc : String)
  | comment (text : String)
  | error (text message : String)
deriving Repr

/-! ## Typesetting -/

def space : Tree := .token .whitespace " "

def newline : Tree := .token .whitespace "\n"

/-- The token for a name where a rule is named: a leading quote makes it a quoted name. -/
def ruleName (name : String) : Tree :=
  .token (if name.toList.head? = some '"' then .quotedName else .ident) name

/-- A token for raw text, left out when the text is empty. -/
def rawText (text : String) : List Tree :=
  if text.isEmpty then [] else [.token .text text]

/-- The node for a label, with the blank after it. -/
def labelTrees (label : String) : List Tree :=
  [.node .label [.token .ident label, .token .colon ":"], space]

/-- The node for a tag, with the blank before it. -/
def tagTrees (tag : String) : List Tree :=
  [space, .node .tag [.token .hash "#", .token .ident tag]]

namespace Leaf

def tree : Leaf → Tree
  | .empty => .node .empty [.token .lParen "(", .token .rParen ")"]
  | .any => .node .any [.token .dot "."]
  | .error text => .node .error [.token .text text]
  | .literal text => .node .literal (.token .quote "'" :: rawText text ++ [.token .quote "'"])
  | .charClass text =>
    .node .charClass (.token .lBracket "[" :: rawText text ++ [.token .rBracket "]"])
  | .name text => .node .name [.token .ident text]
  | .quoted text => .node .quoted [.token .quotedName ("\"" ++ text ++ "\"")]

end Leaf

namespace Construct

def kind : Construct → Kind
  | .many => .many
  | .many1 => .many1
  | .optional => .optional
  | .and => .and
  | .not => .not
  | .seq => .seq
  | .choice => .choice
  | .alt => .alt
  | .node _ => .node
  | .edge _ => .edge
  | .fold .. => .fold
  | .func _ => .func

/-- What stands between two terms of the body. -/
def separator : Construct → List Tree
  | .choice => [space, .token .slash "/", space]
  | .alt => [space, .token .pipe "|", space]
  | .func _ => [.token .comma ",", space]
  | _ => [space]

/-- What stands before the body. -/
def opening : Construct → List Tree
  | .and => [.token .amp "&"]
  | .not => [.token .bang "!"]
  | .node _ => [.token .lBrace "\x7b", space]
  | .edge label => labelTrees label
  | .fold label _ =>
    .token .caret "^" :: (label.map labelTrees).getD [] ++ [.token .lBrace "\x7b", space]
  | .func name => [.token .atSign "@", .token .ident name, .token .lParen "("]
  | .many | .many1 | .optional | .seq | .choice | .alt => []

/-- What stands after the body. -/
def closing : Construct → List Tree
  | .many => [.token .star "*"]
  | .many1 => [.token .plus "+"]
  | .optional => [.token .question "?"]
  | .node tag => (tag.map tagTrees).getD [] ++ [space, .token .rBrace "\x7d"]
  | .fold _ tag => (tag.map tagTrees).getD [] ++ [space, .token .rBrace "\x7d"]
  | .func _ => [.token .rParen ")"]
  | .and | .not | .edge _ | .seq | .choice | .alt => []

end Construct

mutual

def Term.tree : Term → Tree
  | .leaf leaf => leaf.tree
  | .group construct body =>
    .node construct.kind
      (construct.opening ++ bodyTrees construct.separator body ++ construct.closing)

/-- The nodes for a body, with `separator` between each two. -/
def bodyTrees (separator : List Tree) : List Term → List Tree
  | [] => []
  | term :: terms => term.tree :: tailTrees separator terms

/-- The nodes for the rest of a body, with `separator` before each. -/
def tailTrees (separator : List Tree) : List Term → List Tree
  | [] => []
  | term :: terms => separator ++ term.tree :: tailTrees separator terms

end

/-- The names of an example, each behind a blank and with a comma between each two. -/
def exampleNames : List String → List Tree
  | [] => []
  | [name] => [space, ruleName name]
  | name :: names => space :: ruleName name :: .token .comma "," :: exampleNames names

/-- The documentation of an example between its delimiters. -/
def docTree (doc : String) : Tree :=
  .node .doc (.token .docDelim "'''" :: rawText doc ++ [.token .docDelim "'''"])

namespace Statement

/-- The trees for a statement, the end of its line included. -/
def trees : Statement → List Tree
  | .rule name body =>
    [.node .rule
      ([ruleName name, space, .token .eq "=", space] ++ bodyTrees [space] body), newline]
  | .exampleOf names doc =>
    [.node .exampleStmt
      (.token .exampleKw "example" :: exampleNames names ++ [space, docTree doc]), newline]
  | .comment text => [.token .comment ("// " ++ text), newline]
  | .error text _ => [.node .error [.token .text text], newline]

/-- The fault that a statement at `offset` records. -/
def faults (offset : Nat) : Statement → List Fault
  | .error text message => [⟨message, Span.ofText offset text⟩]
  | _ => []

end Statement

/-- The faults of statements that begin at `offset`. -/
def faultsFrom (offset : Nat) : List Statement → List Fault
  | [] => []
  | statement :: statements =>
    statement.faults offset ++
      faultsFrom (offset + Tree.byteSizeOfAll statement.trees) statements

/-- The typeset source of a list of statements. -/
def parse (statements : List Statement) : Parse where
  kind := .source
  children := statements.flatMap Statement.trees
  faults := faultsFrom 0 statements

end Peg.Draft
