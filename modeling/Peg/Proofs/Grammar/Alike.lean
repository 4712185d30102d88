import Peg.Proofs.Compile.Operands
import Peg.Proofs.Expr.Relocate
import Peg.Proofs.Grammar.Registration

/-!
# Grammars for one source

Every compilation gives its grammar an identity and a name of its own. Nothing else in the grammar
depends on them, apart from the references, which carry the identity.

* `Placed.inGrammar_compile`: compiling for another grammar moves the references.
* `Grammar.Alike`: two grammars are the same up to identity and name.
* `Parse.compile_alike`: all grammars for one source in one mode are alike.
-/

namespace Peg

open Text (Span)

/-! ## Expressions -/

section Assemble

variable {id id' : GrammarId} {mode : Mode} {kind : Kind} {span : Span} {children : List Placed}

theorem CharClass.inGrammar_read (text : String) :
    (CharClass.read text).inGrammar id = CharClass.read text := by
  unfold CharClass.read CharClass.ofItems
  split <;> rfl

theorem inGrammar_callAction (func : String) (operands : List Expr) :
    (callAction mode func span operands).inGrammar id =
      callAction mode func span (operands.map (Expr.inGrammar id)) := by
  have inner : (actionInner func operands).inGrammar id =
      actionInner func (operands.map (Expr.inGrammar id)) := actionInner_map rfl func
  cases mode with
  | full => rw [callAction, callAction, Expr.inGrammar_action, inner]
  | pure => exact inner

theorem inGrammar_buildTree (operator : Operator) (operand : Expr) :
    (buildTree mode operator operand).inGrammar id =
      buildTree mode operator (operand.inGrammar id) := by
  cases mode with
  | full => rfl
  | pure => rfl

/-- A node whose references are moved is the node assembled for the other grammar from its moved
operands. -/
theorem inGrammar_assemble (operands : List Expr) :
    (assemble id mode kind span children operands).inGrammar id' =
      assemble id' mode kind span children (operands.map (Expr.inGrammar id')) := by
  have operand : (operands.headD .empty).inGrammar id' =
      (operands.map (Expr.inGrammar id')).headD .empty := headD_empty_map rfl
  cases kind
  case charClass => exact CharClass.inGrammar_read _
  case many | many1 | optional | and | not => exact congrArg (Expr.unary _) operand
  case seq => exact Expr.inGrammar_seqOf operands
  case choice | alt => exact Expr.inGrammar_choiceOf operands
  case node | edge | fold =>
    show (buildTree mode _ (operands.headD .empty)).inGrammar id' = buildTree mode _ _
    rw [inGrammar_buildTree, operand]
  case func => exact inGrammar_callAction _ operands
  all_goals rfl

end Assemble

/-- Compiling for another grammar moves the references and changes nothing else. -/
theorem Placed.inGrammar_compile (placed : Placed) (id id' : GrammarId) (mode : Mode) :
    (placed.compile id mode).inGrammar id' = placed.compile id' mode := by
  induction placed with
  | token t => rfl
  | node kind span children ih =>
      have operands : ((operandsAmong children).map (compile id mode)).map (Expr.inGrammar id') =
          (operandsAmong children).map (compile id' mode) := by
        rw [List.map_map]
        exact List.map_congr_left fun child member => ih child (mem_of_mem_operandsAmong member)
      rw [compile_node, compile_node, inGrammar_assemble, operands]

/-! ## Grammars -/

/-- The rules with their references moved to another grammar. -/
def Grammar.rulesIn (grammar : Grammar) (id : GrammarId) : List (String × Expr) :=
  grammar.rules.map fun rule => (rule.1, rule.2.inGrammar id)

/-- The grammars have the same rules up to the identity that references carry, and the same examples,
reports and mark of an error. -/
structure Grammar.Alike (grammar other : Grammar) : Prop where
  rules : grammar.rulesIn other.id = other.rules
  examples : grammar.examples = other.examples
  diagnostics : grammar.diagnostics = other.diagnostics
  hasError : grammar.hasError = other.hasError

/-- A registry finished under another identity and name gives a grammar that is alike. -/
theorem Registry.finish_relabel_alike (registry : Registry) (id : GrammarId) (urn : String) :
    registry.finish.Alike (registry.relabel id urn registry.mode).finish where
  rules := by
    show (registry.bodies.map fun rule => (rule.1, rule.2.compile registry.id registry.mode)).map
        (fun rule => (rule.1, rule.2.inGrammar id)) =
      registry.bodies.map fun rule => (rule.1, rule.2.compile id registry.mode)
    rw [List.map_map]
    apply List.map_congr_left
    intro rule _
    exact congrArg (Prod.mk rule.1) (rule.2.inGrammar_compile registry.id id registry.mode)
  examples := rfl
  diagnostics := rfl
  hasError := rfl

/-- All grammars for one source in one mode are alike. -/
theorem Parse.compile_alike (parse : Parse) (id id' : GrammarId) (urn urn' : String) (mode : Mode) :
    (parse.compile id urn mode).Alike (parse.compile id' urn' mode) := by
  by_cases readable : parse.IsReadable
  · have kept : ((Registry.new id urn mode).load parse.root).mode = mode := by
      rw [Registry.load_new id id urn urn mode mode]
      rfl
    have alike := Registry.finish_relabel_alike ((Registry.new id urn mode).load parse.root) id' urn'
    rw [kept, ← Registry.load_new] at alike
    rw [compile_readable readable, compile_readable readable]
    exact alike
  · rw [compile_unreadable readable, compile_unreadable readable]
    exact ⟨rfl, rfl, rfl, rfl⟩

end Peg
