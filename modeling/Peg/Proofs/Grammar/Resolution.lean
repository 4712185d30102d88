import Peg.Proofs.Compile.NormalForm
import Peg.Proofs.Compile.References
import Peg.Proofs.Expr.Preorder
import Peg.Proofs.Grammar.History
import Peg.Proofs.Grammar.Modes

/-!
# Resolving references

A grammar that was compiled refers to itself only, wherever in its rules a reference stands. So a
reference stands for the rule of its name, and it stands for nothing exactly if there is no such rule.

* `Expr.Mentions`, `Expr.IsRegular.mem_references`: no reference in a compiled expression is left out of
  its list of references, also not one in what an action recognizes.
* `Grammar.IsSelfContained`: a grammar refers to itself only. Every finished registry and every compiled
  source gives such a grammar.
-/

namespace Peg

open Text (Span)

/-! ## References of an expression -/

namespace Expr

/-- The reference stands somewhere in the expression, in what an action recognizes or in its parameters
if not elsewhere. -/
inductive Mentions (target : Reference) : Expr → Prop
  | ref : Mentions target (.ref target)
  | unary (operator : Operator) {operand : Expr} (inside : Mentions target operand) :
    Mentions target (.unary operator operand)
  | seq {items : List Expr} {item : Expr} (member : item ∈ items) (inside : Mentions target item) :
    Mentions target (.seq items)
  | choice {alternatives : List Expr} {item : Expr} (member : item ∈ alternatives)
    (inside : Mentions target item) : Mentions target (.choice alternatives)
  | inner (func : String) (span : Span) {inner : Expr} (params : List Expr)
    (inside : Mentions target inner) : Mentions target (.action func span inner params)
  | param (func : String) (span : Span) (inner : Expr) {params : List Expr} {param : Expr}
    (member : param ∈ params) (inside : Mentions target param) :
    Mentions target (.action func span inner params)

variable {mode : Mode} {e : Expr} {target : Reference}

/-- Every listed reference stands in the expression. -/
theorem mentions_of_mem_references (member : target ∈ e.references) : e.Mentions target := by
  induction e with
  | atom a =>
      cases a with
      | ref other => exact List.mem_singleton.mp member ▸ .ref
      | empty | any | fail | literal | set => cases member
  | unary operator operand ih => exact .unary operator (ih member)
  | seq items ih =>
      rw [references_seq] at member
      obtain ⟨item, itemMember, member⟩ := List.mem_flatMap.mp member
      exact .seq itemMember (ih item itemMember member)
  | choice alternatives ih =>
      rw [references_choice] at member
      obtain ⟨item, itemMember, member⟩ := List.mem_flatMap.mp member
      exact .choice itemMember (ih item itemMember member)
  | action func span inner params _ ih =>
      rw [references_action] at member
      obtain ⟨param, paramMember, member⟩ := List.mem_flatMap.mp member
      exact .param func span inner paramMember (ih param paramMember member)

/-- A regular expression lists every reference that stands in it: what an action recognizes is nothing or
one of its parameters. -/
theorem IsRegular.mem_references (regular : e.IsRegular mode) (mentions : e.Mentions target) :
    target ∈ e.references := by
  induction mentions with
  | ref => exact List.mem_singleton_self _
  | unary operator _ ih =>
      cases regular with
      | unary _ _ regular => exact ih regular
  | @seq items item member _ ih =>
      cases regular with
      | seq regular =>
          rw [references_seq]
          exact List.mem_flatMap.mpr ⟨item, member, ih (regular item member)⟩
  | @choice alternatives item member _ ih =>
      cases regular with
      | choice regular =>
          rw [references_choice]
          exact List.mem_flatMap.mpr ⟨item, member, ih (regular item member)⟩
  | inner func span params _ ih =>
      cases regular with
      | action _ recognized regular _ =>
          rw [references_action]
          rcases recognized.empty_or_mem with rfl | member
          · cases ih regular
          · exact List.mem_flatMap.mpr ⟨_, member, ih regular⟩
  | @param func span inner params param member _ ih =>
      cases regular with
      | action _ _ _ regular =>
          rw [references_action]
          exact List.mem_flatMap.mpr ⟨param, member, ih (regular param member)⟩

end Expr

/-! ## Grammars -/

namespace Grammar

/-- The grammar refers to itself only, and its rules list every reference that stands in them. -/
structure IsSelfContained (grammar : Grammar) : Prop where
  own : ∀ rule ∈ grammar.rules, ∀ target, rule.2.Mentions target → target.grammar = grammar.id
  listed : ∀ rule ∈ grammar.rules, ∀ target, rule.2.Mentions target → target ∈ rule.2.references

variable {grammar : Grammar} {target : Reference}

/-- A reference of a grammar to itself stands for the rule of its name. -/
theorem resolve?_of_own (own : target.grammar = grammar.id) :
    grammar.resolve? target = grammar.get? target.name :=
  if_pos own

/-- A reference to another grammar stands for nothing. -/
theorem resolve?_of_foreign (foreign : target.grammar ≠ grammar.id) : grammar.resolve? target = none :=
  if_neg foreign

theorem references_eq_preorder (grammar : Grammar) :
    grammar.references = (grammar.rules.flatMap (·.2.preorder)).filterMap Expr.reference? := by
  rw [references, List.filterMap_flatMap]
  exact List.flatMap_congr fun rule _ => rule.2.references_eq_preorder

namespace IsSelfContained

theorem mem_references_iff (contained : grammar.IsSelfContained) :
    target ∈ grammar.references ↔ ∃ rule ∈ grammar.rules, rule.2.Mentions target := by
  rw [references, List.mem_flatMap]
  constructor
  · rintro ⟨rule, member, inside⟩
    exact ⟨rule, member, Expr.mentions_of_mem_references inside⟩
  · rintro ⟨rule, member, mentions⟩
    exact ⟨rule, member, contained.listed rule member target mentions⟩

/-- Unresolved are those references, in order, whose name no rule has. -/
theorem unresolved_eq (contained : grammar.IsSelfContained) :
    grammar.unresolved = grammar.references.filter (·.name ∉ grammar.ruleNames) := by
  apply unresolved_of_own
  intro target member
  obtain ⟨rule, ruleMember, mentions⟩ := contained.mem_references_iff.mp member
  exact contained.own rule ruleMember target mentions

theorem unresolved_eq_nil_iff (contained : grammar.IsSelfContained) :
    grammar.unresolved = [] ↔
      ∀ rule ∈ grammar.rules, ∀ target, rule.2.Mentions target → target.name ∈ grammar.ruleNames := by
  rw [contained.unresolved_eq, List.filter_eq_nil_iff]
  simp only [contained.mem_references_iff, decide_eq_true_iff, not_not]
  constructor
  · intro defined rule member target mentions
    exact defined target ⟨rule, member, mentions⟩
  · rintro defined target ⟨rule, member, mentions⟩
    exact defined rule member target mentions

end IsSelfContained

end Grammar

/-- What a registry is finished to refers to itself only. -/
theorem Registry.isSelfContained_finish (registry : Registry) :
    registry.finish.IsSelfContained := by
  have compiled : ∀ rule ∈ registry.finish.rules, ∀ target, rule.2.Mentions target →
      target ∈ rule.2.references ∧ target.grammar = registry.id := by
    intro rule member target mentions
    obtain ⟨⟨name, body⟩, -, rfl⟩ := List.mem_map.mp member
    have listed := (body.isRegular_compile registry.id registry.mode).mem_references mentions
    exact ⟨listed, Placed.grammar_of_mem_references target listed⟩
  constructor
  · intro rule member target mentions
    exact (compiled rule member target mentions).2
  · intro rule member target mentions
    exact (compiled rule member target mentions).1

namespace Parse

variable (parse : Parse) (id : GrammarId) (urn : String) (mode : Mode)

/-- A source is compiled for the grammar whose identity is given. -/
theorem id_compile : (parse.compile id urn mode).id = id := by
  by_cases readable : parse.IsReadable
  · rw [compile_readable readable, Registry.load_eq]
    exact ((Registry.Gathers.new id urn mode).enterAll _).id
  · rw [compile_unreadable readable]
    rfl

/-- What a source is compiled to refers to itself only. -/
theorem isSelfContained_compile : (parse.compile id urn mode).IsSelfContained := by
  by_cases readable : parse.IsReadable
  · rw [compile_readable readable]
    exact Registry.isSelfContained_finish _
  · rw [compile_unreadable readable]
    exact ⟨List.forall_mem_nil _, List.forall_mem_nil _⟩

end Parse

end Peg
