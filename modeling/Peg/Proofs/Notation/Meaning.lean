import Peg.Proofs.Compile.Operands
import Peg.Proofs.Draft.Parts
import Peg.Proofs.Expr.Map
import Peg.Proofs.Grammar.Registration

/-!
# What drafts mean

A draft is typeset, laid out and compiled; here is what comes out, without the trees in between.

* `Draft.Leaf.expr`: what a leaf stands for.
* `Placed.Means`: a node stands for an expression: that is what is compiled for it, up to the places of
  references, and nothing is reported. `Placed.Means.node` builds it up operand by operand.
* `Draft.Term.Means`: a term stands for an expression wherever its tree is laid out, with one lemma for
  each kind of term.
* `Draft.compile_rule`: the grammar for a source that holds one rule.
-/

namespace Peg

open Text (Span)

/-! ## Trees laid out -/

namespace Tree

/-- The tree is a node in operand position when it is laid out. -/
def isOperand : Tree → Bool
  | .node kind _ => !kind.isDecoration
  | .token .. => false

theorem isOperand_eq : isOperand = isNodeOf (!·.isDecoration) := by
  funext tree
  cases tree <;> rfl

/-- The operands among trees laid out one after the other are the operands among the trees. -/
theorem operandsAmong_placeAll (trees : List Tree) (offset : Nat) :
    List.Forall₂ IsLaidOut (trees.filter isOperand)
      (Placed.operandsAmong (placeAll offset trees)) := by
  rw [isOperand_eq]
  exact filter_of_laid (forall₂_placeAll trees offset) (!·.isDecoration)

end Tree

/-! ## Nodes -/

namespace Placed

/-- The node stands for an expression: that is what is compiled for it up to the places of references,
and nothing is reported. -/
structure Means (placed : Placed) (e : Expr) : Prop where
  compiles : ∀ id mode, (placed.compile id mode).unplaced = e.unplaced
  silent : ∀ mode, placed.reports mode = []
  isExpression : placed.isExpression = true

variable {operands : List Placed} {items : List Expr}

theorem Means.compiles_all (means : List.Forall₂ Means operands items) (id : GrammarId)
    (mode : Mode) : (operands.map (compile id mode)).map Expr.unplaced = items.map Expr.unplaced := by
  induction means with
  | nil => rfl
  | cons head _ ih => rw [List.map_cons, List.map_cons, List.map_cons, head.compiles, ih]

theorem Means.silent_all (means : List.Forall₂ Means operands items) (mode : Mode) :
    ∀ operand ∈ operands, operand.reports mode = [] := by
  induction means with
  | nil => exact fun _ member => nomatch member
  | cons head _ ih => exact List.forall_mem_cons.mpr ⟨head.silent mode, ih⟩

/-- A node stands for what is assembled from what its operands stand for. -/
theorem Means.node {kind : Kind} {span : Span} {children : List Placed} {e : Expr}
    (means : List.Forall₂ Means (operandsAmong children) items)
    (isExpression : kind.isExpression = true) (ordered : kind ≠ .alt) (noCall : kind ≠ .func)
    (assembles : ∀ id mode operands, operands.map Expr.unplaced = items.map Expr.unplaced →
      (assemble id mode kind span children operands).unplaced = e.unplaced) :
    (node kind span children).Means e where
  compiles id mode := by
    rw [compile_node]
    exact assembles id mode _ (Means.compiles_all means id mode)
  silent mode := by
    have before : openingReports kind span = [] := by
      rw [openingReports, if_neg ordered, if_pos isExpression]
    have after : closingReports mode kind span children = [] := if_neg noCall
    have operands : (readOperands kind children).flatMap (reports mode) = [] := by
      rw [List.flatMap_eq_nil_iff]
      intro operand member
      apply Means.silent_all means
      unfold readOperands at member
      split at member
      · cases member
      · exact List.mem_of_mem_take member
      · exact member
    rw [reports_node, before, operands, after]
    rfl
  isExpression := isExpression

end Placed

namespace Draft

/-! ## Leaves -/

namespace Leaf

/-- The expression that the leaf stands for, its reference without a place. -/
def expr : Leaf → Expr
  | .empty => .empty
  | .any => .any
  | .error _ => .fail
  | .literal text => .literal (Escape.decode text)
  | .charClass text => CharClass.read text
  | .name text => .ref (.named text)
  | .quoted text => .ref (.named ("\"" ++ text ++ "\""))

theorem unplaced_read (text : String) : (CharClass.read text).unplaced = CharClass.read text := by
  unfold CharClass.read CharClass.ofItems
  split <;> rfl

/-- What is compiled for the node of a leaf is what the leaf stands for. -/
theorem unplaced_compile (leaf : Leaf) (offset : Nat) (id : GrammarId) (mode : Mode) :
    ((leaf.tree.place offset).compile id mode).unplaced = leaf.expr := by
  cases leaf with
  | literal text =>
      have raw := @firstText_rawText (fun kind => kind == .text || kind.isRuleName) rfl
        .quote .quote rfl rfl "'" "'" text offset
      show Expr.literal (Escape.decode (View.firstText _ _)) = _
      rw [raw, expr]
  | charClass text =>
      have raw := @firstText_rawText (fun kind => kind == .text || kind.isRuleName) rfl
        .lBracket .rBracket rfl rfl "[" "]" text offset
      show (CharClass.read (View.firstText _ _)).unplaced = _
      rw [raw, expr, unplaced_read]
  | _ => rfl

/-- The leaf is no unreadable region. -/
def IsSound (leaf : Leaf) : Prop :=
  ∀ text, leaf ≠ .error text

end Leaf

/-! ## Terms -/

/-- The term stands for an expression wherever its tree is laid out. -/
def Term.Means (term : Term) (e : Expr) : Prop :=
  ∀ offset, (term.tree.place offset).Means e

theorem Term.Means.leaf {leaf : Leaf} {e : Expr} (sound : leaf.IsSound)
    (stands : leaf.expr = e.unplaced) : (Term.leaf leaf).Means e := by
  intro offset
  refine ⟨fun id mode => stands ▸ leaf.unplaced_compile offset id mode, fun mode => ?_, ?_⟩
  · cases leaf with
    | error text => exact (sound text rfl).elim
    | _ => rfl
  · cases leaf with
    | error text => exact (sound text rfl).elim
    | _ => rfl

theorem Term.isOperand_tree (term : Term) : term.tree.isOperand = true := by
  cases term with
  | leaf leaf => cases leaf <;> rfl
  | group construct body => cases construct <;> rfl

section Group

variable {body : List Term} {items : List Expr}

/-- Only the terms of the body are operands of a group. -/
theorem Construct.operands_children (construct : Construct) (body : List Term) :
    (construct.children body).filter Tree.isOperand = body.map Term.tree := by
  have terms : (body.map Term.tree).filter Tree.isOperand = body.map Term.tree :=
    List.filter_eq_self.mpr (List.forall_mem_map.mpr fun term _ => term.isOperand_tree)
  rw [Tree.isOperand_eq] at terms ⊢
  rw [construct.filter_children (fun _ decorates => congrArg Bool.not decorates), terms]

/-- The nodes in operand position of a group stand for what the terms of its body stand for. -/
theorem Term.Means.operands (means : List.Forall₂ Term.Means body items) (construct : Construct)
    (offset : Nat) :
    List.Forall₂ Placed.Means
      (Placed.operandsAmong (Tree.placeAll offset (construct.children body))) items := by
  have placed := Tree.operandsAmong_placeAll (construct.children body) offset
  rw [construct.operands_children, List.forall₂_map_left_iff] at placed
  generalize Placed.operandsAmong _ = operands at placed
  induction placed generalizing items with
  | nil =>
      cases means
      exact .nil
  | cons laid _ ih =>
      obtain ⟨start, rfl⟩ := laid
      cases means with
      | cons head tail => exact .cons (head start) (ih tail)

theorem Term.Means.seq (means : List.Forall₂ Term.Means body items) :
    (Term.group .seq body).Means (.seqOf items) := by
  intro offset
  refine .node (operands means .seq offset) rfl nofun nofun fun id mode operands same => ?_
  show (Expr.seqOf operands).unplaced = _
  rw [Expr.unplaced, Expr.unplaced, Expr.map_seqOf rfl, Expr.map_seqOf rfl]
  exact congrArg Expr.seqOf same

theorem Term.Means.choice (means : List.Forall₂ Term.Means body items) :
    (Term.group .choice body).Means (.choiceOf items) := by
  intro offset
  refine .node (operands means .choice offset) rfl nofun nofun fun id mode operands same => ?_
  show (Expr.choiceOf operands).unplaced = _
  rw [Expr.unplaced, Expr.unplaced, Expr.map_choiceOf rfl, Expr.map_choiceOf rfl]
  exact congrArg Expr.choiceOf same

end Group

/-- The operator of a repetition. -/
def Construct.repetition? : Construct → Option Operator
  | .many => some .many
  | .many1 => some .many1
  | .optional => some .optional
  | _ => none

theorem Term.Means.repetition {construct : Construct} {operator : Operator} {term : Term} {e : Expr}
    (stands : construct.repetition? = some operator) (means : term.Means e) :
    (Term.group construct [term]).Means (.unary operator e) := by
  intro offset
  have operands := operands (.cons means .nil) construct offset
  have unary : ∀ operands : List Expr, operands.map Expr.unplaced = [e.unplaced] →
      (Expr.unary operator (operands.headD .empty)).unplaced = (Expr.unary operator e).unplaced := by
    intro operands same
    obtain ⟨operand, rfl, value⟩ := List.map_eq_singleton_iff.mp same
    exact congrArg (Expr.unary operator) value
  cases construct with
  | many | many1 | optional =>
      cases stands
      exact .node operands rfl nofun nofun fun _ _ operands same => unary operands same
  | _ => cases stands

/-! ## Rules -/

/-- A laid out rule with a body of one term is a statement with its name and this body. -/
theorem exists_statements_rule {term : Term} (isExpression : term.isExpression = true) (name : String) :
    ∃ span token start, (parse [.rule name [term]]).root.statements =
      [.rule span (some token) (some (term.tree.place start))] ∧ token.text = name := by
  let trees := [ruleName name, space, .token .eq "=", space, term.tree]
  have first : ∃ token, View.firstToken? Kind.isRuleName (Tree.placeAll 0 trees) = some token ∧
      token.text = name := by
    simp only [trees, ruleName]
    split <;> exact ⟨_, rfl, rfl⟩
  have found : ∃ start, (Tree.placeAll 0 trees).find? Placed.isExpression =
      some (term.tree.place start) :=
    ⟨_, List.find?_cons_of_pos ((term.isExpression_place _).trans isExpression)⟩
  obtain ⟨token, first, text⟩ := first
  obtain ⟨start, found⟩ := found
  refine ⟨⟨0, 0 + Tree.byteSizeOfAll trees⟩, token, start, ?_, text⟩
  rw [← first, ← found]
  rfl

/-- A source that holds one rule gives a grammar with that rule, and nothing is reported. -/
theorem compile_rule {term : Term} {e : Expr} (means : term.Means e) (name : String)
    (id : GrammarId) (urn : String) (mode : Mode) :
    let grammar := (parse [.rule name [term]]).compile id urn mode
    grammar.hasError = false ∧ grammar.diagnostics = [] ∧
      ∃ body, grammar.rules = [(name, body)] ∧ body.unplaced = e.unplaced := by
  have readable : (parse [.rule name [term]]).IsReadable := ⟨rfl, rfl⟩
  have isExpression : term.isExpression = true :=
    (term.isExpression_place 0).symm.trans (means 0).isExpression
  obtain ⟨span, token, start, statements, rfl⟩ := exists_statements_rule isExpression name
  let body := term.tree.place start
  have stands : body.Means e := means start
  have loaded : (Registry.new id urn mode).load (parse [.rule token.text [term]]).root =
      { Registry.new id urn mode with bodies := [(token.text, body)] } := by
    rw [Registry.load, statements]
    rfl
  intro grammar
  have finished : grammar =
      (Registry.finish { Registry.new id urn mode with bodies := [(token.text, body)] }) := by
    rw [← loaded]
    exact Parse.compile_readable readable
  rw [finished]
  have silent : (body.reports mode ++ []) = [] := by rw [stands.silent mode, List.append_nil]
  exact ⟨rfl, silent, body.compile id mode, rfl, stands.compiles id mode⟩

end Draft

end Peg
