import Peg.Diagnostic
import Peg.Expr.Basic

/-!
# Grammars

A compiled grammar: its rules in the order of their definition, its examples, and what was reported
while it was compiled. References are looked up by name when they are used.

* `Grammar.get?`, `Grammar.resolve?`: the expression of a rule, by name and by reference.
* `Grammar.unresolved`: the references to rules that the grammar does not define.
-/

namespace Peg

/-- A compiled grammar. A grammar whose source could not be read has no rules. -/
structure Grammar where
  id : GrammarId
  /-- Where the source came from: a path or a logical name. -/
  urn : String
  rules : List (String × Expr)
  /-- Rule names with the documentation of an example. -/
  examples : List (String × String)
  hasError : Bool
  diagnostics : List Diagnostic
deriving Repr

namespace Grammar

def new (id : GrammarId) (urn : String) : Grammar :=
  ⟨id, urn, [], [], false, []⟩

def get? (grammar : Grammar) (name : String) : Option Expr :=
  grammar.rules.lookup name

def contains (grammar : Grammar) (name : String) : Bool :=
  (grammar.get? name).isSome

def ruleNames (grammar : Grammar) : List String :=
  grammar.rules.map Prod.fst

/-- The name of the first rule, where recognition starts. -/
def startRule? (grammar : Grammar) : Option String :=
  grammar.ruleNames.head?

def examplesFor (grammar : Grammar) (name : String) : List String :=
  (grammar.examples.filter (·.1 == name)).map Prod.snd

/-- What a reference stands for; a reference of another grammar stands for nothing here. -/
def resolve? (grammar : Grammar) (target : Reference) : Option Expr :=
  if target.grammar = grammar.id then grammar.get? target.name else none

/-- The references in all rules, in rule order and then depth first. -/
def references (grammar : Grammar) : List Reference :=
  grammar.rules.flatMap (·.2.references)

/-- The references that stand for nothing. -/
def unresolved (grammar : Grammar) : List Reference :=
  grammar.references.filter fun target => (grammar.resolve? target).isNone

end Grammar

end Peg
