import Peg.Proofs.Compile.Operands
import Peg.Proofs.Expr.Flat
import Peg.Registry

/-!
# References of compiled expressions

* `Expr.references_seqOf`, `Expr.references_choiceOf`: splicing keeps references and their order.
* `Placed.grammar_of_mem_references`: a compiled expression refers to its own grammar only.
* `Grammar.unresolved_of_own`: what such a grammar leaves unresolved are the names that it does not
  define.
-/

namespace Peg

open Text (Span)

/-! ## Splicing -/

/-- What is gathered over the parts of a spliced construct is gathered over its operands. -/
theorem Splice.flatMap_of {splice : Splice} {β : Type} {f : Expr → List β}
    (unit : f splice.unit = []) (wrap : ∀ items, f (splice.wrap items) = items.flatMap f)
    (parts : ∀ e, (splice.parts e).flatMap f = f e) (items : List Expr) :
    f (splice.of items) = items.flatMap f := by
  have gathered : (items.flatMap splice.parts).flatMap f = items.flatMap f := by
    rw [List.flatMap_assoc]
    exact List.flatMap_congr fun item _ => parts item
  rw [← gathered]
  rcases splice.of_cases items with ⟨none, eq⟩ | ⟨part, one, eq⟩ | ⟨-, eq⟩
  · rw [eq, none, unit, List.flatMap_nil]
  · rw [eq, one, List.flatMap_singleton]
  · rw [eq, wrap]

namespace Expr

theorem references_seqOf (items : List Expr) :
    (seqOf items).references = items.flatMap references := by
  refine Splice.seq.flatMap_of rfl references_seq (fun e => ?_) items
  cases e with
  | seq items => exact (references_seq items).symm
  | _ => exact List.flatMap_singleton _ _

theorem references_choiceOf (items : List Expr) :
    (choiceOf items).references = items.flatMap references := by
  refine Splice.choice.flatMap_of rfl references_choice (fun e => ?_) items
  cases e with
  | choice items => exact (references_choice items).symm
  | _ => exact List.flatMap_singleton _ _

end Expr

theorem CharClass.references_read (text : String) : (CharClass.read text).references = [] := by
  unfold CharClass.read CharClass.ofItems
  split <;> rfl

/-! ## Owners -/

section Assemble

variable {grammar : GrammarId} {mode : Mode} {kind : Kind} {span : Span} {children : List Placed}
  {operands : List Expr} {target : Reference}

/-- Every reference of a node is the one that the node itself stands for or one of an operand. -/
theorem mem_references_assemble
    (member : target ∈ (assemble grammar mode kind span children operands).references) :
    target = ⟨grammar, View.operandText children, span⟩ ∨
      target ∈ operands.flatMap Expr.references := by
  have all : ∀ operand ∈ operands, target ∈ operand.references →
      target ∈ operands.flatMap Expr.references := by
    intro operand operandMember member
    exact List.mem_flatMap.mpr ⟨operand, operandMember, member⟩
  have ofFirst : target ∈ (operands.headD .empty).references →
      target ∈ operands.flatMap Expr.references := headD_empty_of nofun all
  have ofInner (func : String) : target ∈ (actionInner func operands).references →
      target ∈ operands.flatMap Expr.references := actionInner_of func nofun all
  cases kind
  case charClass =>
    have none := CharClass.references_read (View.operandText children)
    cases (show target ∈ ([] : List Reference) from none ▸ member)
  case name | quoted => exact Or.inl (List.mem_singleton.mp member)
  case many | many1 | optional | and | not => exact Or.inr (ofFirst member)
  case seq => exact Or.inr (Expr.references_seqOf operands ▸ member)
  case choice | alt => exact Or.inr (Expr.references_choiceOf operands ▸ member)
  case node | edge | fold =>
    cases mode with
    | full => exact Or.inr (ofFirst member)
    | pure => exact Or.inr (ofFirst member)
  case func =>
    cases mode with
    | full => exact Or.inr (Expr.references_action .. ▸ member)
    | pure => exact Or.inr (ofInner _ member)
  all_goals cases member

end Assemble

/-- A compiled expression refers to the grammar that it is compiled for. -/
theorem Placed.grammar_of_mem_references {grammar : GrammarId} {mode : Mode} {placed : Placed} :
    ∀ target ∈ (placed.compile grammar mode).references, target.grammar = grammar := by
  apply placed.compile_of (P := fun e => ∀ target ∈ e.references, target.grammar = grammar)
  · exact fun _ member => nomatch member
  · intro kind span children operands own target member
    rcases mem_references_assemble member with rfl | member
    · rfl
    · obtain ⟨operand, operandMember, member⟩ := List.mem_flatMap.mp member
      exact own operand operandMember target member

/-! ## Unresolved references -/

namespace Grammar

theorem get?_eq_none_iff {grammar : Grammar} {name : String} :
    grammar.get? name = none ↔ name ∉ grammar.ruleNames := by
  rw [get?, List.lookup_eq_none_iff, ruleNames, List.mem_map]
  constructor
  · rintro absent ⟨rule, member, rfl⟩
    exact absurd (absent rule member) (by simp)
  · intro absent rule member
    simpa using fun same : name = rule.1 => absent ⟨rule, member, same.symm⟩

/-- Among references to the grammar itself, those are unresolved whose name no rule has. -/
theorem unresolved_of_own {grammar : Grammar}
    (own : ∀ target ∈ grammar.references, target.grammar = grammar.id) :
    grammar.unresolved = grammar.references.filter (·.name ∉ grammar.ruleNames) := by
  apply List.filter_congr
  intro target member
  rw [resolve?, if_pos (own target member), Bool.eq_iff_iff, Option.isNone_iff_eq_none,
    get?_eq_none_iff, decide_eq_true_iff]

end Grammar

end Peg
