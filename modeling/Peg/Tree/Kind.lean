/-!
# Kinds of tree elements

* `Kind`: what a token or node of a grammar's source tree stands for, in a fixed order.
* `Kind.display`, `Kind.code`: its name and its place in that order.
* `Role`: the classes of nodes that the typed views distinguish.
-/

namespace Peg

/-- The kind of a token or node in a source tree. -/
inductive Kind where
  -- trivia
  | whitespace | comment
  -- words and raw text
  | ident | quotedName | text
  -- punctuation
  | quote | docDelim | lBracket | rBracket | lParen | rParen | lBrace | rBrace
  | eq | leftArrow | slash | pipe | star | plus | question | amp | bang | dot
  | hash | colon | caret | atSign | comma | semicolon
  -- keywords
  | exampleKw
  -- statements and their parts
  | source | rule | exampleStmt | doc | tag | label | error
  -- expressions
  | empty | any | literal | charClass | name | quoted
  | many | many1 | optional | and | not | seq | choice | alt
  | node | edge | fold | func
deriving DecidableEq, Repr

namespace Kind

def all : List Kind :=
  [.whitespace, .comment, .ident, .quotedName, .text, .quote, .docDelim, .lBracket, .rBracket,
    .lParen, .rParen, .lBrace, .rBrace, .eq, .leftArrow, .slash, .pipe, .star, .plus, .question,
    .amp, .bang, .dot, .hash, .colon, .caret, .atSign, .comma, .semicolon, .exampleKw, .source,
    .rule, .exampleStmt, .doc, .tag, .label, .error, .empty, .any, .literal, .charClass, .name,
    .quoted, .many, .many1, .optional, .and, .not, .seq, .choice, .alt, .node, .edge, .fold, .func]

def display : Kind → String
  | .whitespace => "WHITESPACE"
  | .comment => "COMMENT"
  | .ident => "IDENT"
  | .quotedName => "QUOTED_NAME"
  | .text => "TEXT"
  | .quote => "QUOTE"
  | .docDelim => "DOC_DELIM"
  | .lBracket => "L_BRACKET"
  | .rBracket => "R_BRACKET"
  | .lParen => "L_PAREN"
  | .rParen => "R_PAREN"
  | .lBrace => "L_BRACE"
  | .rBrace => "R_BRACE"
  | .eq => "EQ"
  | .leftArrow => "LEFT_ARROW"
  | .slash => "SLASH"
  | .pipe => "PIPE"
  | .star => "STAR"
  | .plus => "PLUS"
  | .question => "QUESTION"
  | .amp => "AMP"
  | .bang => "BANG"
  | .dot => "DOT"
  | .hash => "HASH"
  | .colon => "COLON"
  | .caret => "CARET"
  | .atSign => "AT"
  | .comma => "COMMA"
  | .semicolon => "SEMICOLON"
  | .exampleKw => "EXAMPLE_KW"
  | .source => "SOURCE"
  | .rule => "RULE"
  | .exampleStmt => "EXAMPLE"
  | .doc => "DOC"
  | .tag => "TAG"
  | .label => "LABEL"
  | .error => "ERROR"
  | .empty => "EMPTY"
  | .any => "ANY"
  | .literal => "CHAR"
  | .charClass => "CLASS"
  | .name => "NAME"
  | .quoted => "QUOTED"
  | .many => "MANY"
  | .many1 => "ONE_MANY"
  | .optional => "OPTION"
  | .and => "AND"
  | .not => "NOT"
  | .seq => "SEQ"
  | .choice => "ORE"
  | .alt => "ALT"
  | .node => "NODE"
  | .edge => "EDGE"
  | .fold => "FOLD"
  | .func => "FUNC"

def ofDisplay? (display : String) : Option Kind :=
  all.find? (·.display == display)

def code (kind : Kind) : Nat :=
  all.idxOf kind

def ofCode? (code : Nat) : Option Kind :=
  all[code]?

/-- White space or a comment. -/
def isTrivia : Kind → Bool
  | .whitespace | .comment => true
  | _ => false

def isPunctuation : Kind → Bool
  | .quote | .docDelim | .lBracket | .rBracket | .lParen | .rParen | .lBrace | .rBrace
  | .eq | .leftArrow | .slash | .pipe | .star | .plus | .question | .amp | .bang | .dot
  | .hash | .colon | .caret | .atSign | .comma | .semicolon => true
  | _ => false

/-- A token that can name a rule. -/
def isRuleName : Kind → Bool
  | .ident | .quotedName => true
  | _ => false

def isExpression : Kind → Bool
  | .empty | .any | .literal | .charClass | .name | .quoted | .many | .many1 | .optional
  | .and | .not | .seq | .choice | .alt | .node | .edge | .fold | .func => true
  | _ => false

/-- A node that decorates the expression around it and is no operand. -/
def isDecoration : Kind → Bool
  | .tag | .label => true
  | _ => false

end Kind

/-- How many of its operands an expression node uses. -/
inductive Arity where
  | leaf
  | unary
  | variadic
deriving DecidableEq, Repr

/-- The arity of the construct that a kind of node stands for; nodes that stand for none use no
operand. -/
def Kind.arity : Kind → Arity
  | .many | .many1 | .optional | .and | .not | .node | .edge | .fold => .unary
  | .seq | .choice | .alt | .func => .variadic
  | _ => .leaf

/-- A class of nodes that a typed view can be taken of. -/
inductive Role where
  | source | statement | rule | exampleStmt | doc | tag | label | expression
deriving DecidableEq, Repr

/-- Nodes of the kind play the role. -/
def Role.admits : Role → Kind → Bool
  | .source, kind => kind == .source
  | .statement, kind => kind == .rule || kind == .exampleStmt
  | .rule, kind => kind == .rule
  | .exampleStmt, kind => kind == .exampleStmt
  | .doc, kind => kind == .doc
  | .tag, kind => kind == .tag
  | .label, kind => kind == .label
  | .expression, kind => kind.isExpression

end Peg
