import Mathlib.Data.List.Forall2
import Peg.Proofs.Compile.References
import Peg.Proofs.Grammar.Registration

/-!
# Full and pure grammars

The two grammars for one source share everything that does not depend on the mode: whether the source
could be read, the names of the rules, and the examples. Pure mode adds one kind of report and leaves
references out.

* `Placed.filter_reports_pure`: the reports about a body, apart from those on idle actions, do not
  depend on the mode.
* `Placed.places_compile`: the references of the pure expression occur in the full one, in order.
* `Parse.compile_pure_vs_full`: the two grammars compared.
-/

namespace Peg

open Text (Span)

/-! ## Reports -/

/-- The report is about something other than an action without effect. -/
def Diagnostic.isActive (d : Diagnostic) : Bool :=
  d.anomaly ≠ .idleAction

theorem filter_openingReports (kind : Kind) (span : Span) :
    (openingReports kind span).filter Diagnostic.isActive = openingReports kind span := by
  unfold openingReports
  split
  · rfl
  · split
    · rfl
    · rfl

theorem filter_callReports_pure (func : String) (span : Span) (children : List Placed) :
    (callReports .pure func span children).filter Diagnostic.isActive =
      callReports .full func span children := by
  unfold callReports
  split
  · split
    · rfl
    · rfl
  · rfl

theorem filter_closingReports_pure (kind : Kind) (span : Span) (children : List Placed) :
    (closingReports .pure kind span children).filter Diagnostic.isActive =
      closingReports .full kind span children := by
  unfold closingReports
  split
  · exact filter_callReports_pure _ span children
  · rfl

/-- The reports about a tree in pure mode are those in full mode, and others about idle actions. -/
theorem Placed.filter_reports_pure (placed : Placed) :
    (placed.reports .pure).filter Diagnostic.isActive = placed.reports .full := by
  induction placed with
  | token t => rfl
  | node kind span children ih =>
      have operands : (readOperands kind children).flatMap
            (fun child => (child.reports .pure).filter Diagnostic.isActive) =
          (readOperands kind children).flatMap (reports .full) :=
        List.flatMap_congr fun child member => ih child (mem_of_mem_readOperands member)
      rw [reports_node, reports_node, List.filter_append, List.filter_append,
        List.filter_flatMap, filter_openingReports, operands, filter_closingReports_pure]

/-! ## References -/

/-- What a reference says, whichever grammar it belongs to: the name and where it was written. -/
def Reference.place (target : Reference) : String × Span :=
  (target.name, target.span)

/-- The names that an expression refers to, with the places, in order. -/
def Expr.places (e : Expr) : List (String × Span) :=
  e.references.map Reference.place

/-- The references of one expression occur in another in the same order. -/
def Expr.Within (inner outer : Expr) : Prop :=
  inner.places.Sublist outer.places

theorem Expr.Within.refl (e : Expr) : e.Within e :=
  List.Sublist.refl _

theorem Expr.Within.flatMap {inner outer : List Expr} (within : List.Forall₂ Expr.Within inner outer) :
    (inner.flatMap Expr.places).Sublist (outer.flatMap Expr.places) := by
  induction within with
  | nil => exact List.Sublist.refl _
  | cons head _ ih => exact head.append ih

theorem Expr.places_of_flatMap {e : Expr} {items : List Expr}
    (references : e.references = items.flatMap Expr.references) :
    e.places = items.flatMap Expr.places := by
  rw [places, references, List.map_flatMap]
  rfl

theorem Expr.Within.seqOf {inner outer : List Expr} (within : List.Forall₂ Expr.Within inner outer) :
    (Expr.seqOf inner).Within (Expr.seqOf outer) := by
  rw [Expr.Within, Expr.places_of_flatMap (Expr.references_seqOf inner),
    Expr.places_of_flatMap (Expr.references_seqOf outer)]
  exact flatMap within

theorem Expr.Within.choiceOf {inner outer : List Expr}
    (within : List.Forall₂ Expr.Within inner outer) :
    (Expr.choiceOf inner).Within (Expr.choiceOf outer) := by
  rw [Expr.Within, Expr.places_of_flatMap (Expr.references_choiceOf inner),
    Expr.places_of_flatMap (Expr.references_choiceOf outer)]
  exact flatMap within

section Assemble

variable {pureId fullId : GrammarId} {kind : Kind} {span : Span} {children : List Placed}
  {inner outer : List Expr}

theorem within_headD (within : List.Forall₂ Expr.Within inner outer) :
    (inner.headD .empty).Within (outer.headD .empty) := by
  cases within with
  | nil => exact .refl _
  | cons head _ => exact head

/-- What an action recognizes is within its parameters. -/
theorem within_callAction (func : String) (span : Span)
    (within : List.Forall₂ Expr.Within inner outer) :
    (callAction .pure func span inner).Within (callAction .full func span outer) := by
  rw [Expr.Within, callAction, callAction,
    Expr.places_of_flatMap (Expr.references_action func span _ outer), actionInner]
  split
  · cases within with
    | nil => exact List.nil_sublist _
    | cons head _ => exact head.trans (List.sublist_append_left _ _)
  · exact List.nil_sublist _

/-- A node in pure mode is within the node in full mode when its operands are. -/
theorem within_assemble (within : List.Forall₂ Expr.Within inner outer) :
    (assemble pureId .pure kind span children inner).Within
      (assemble fullId .full kind span children outer) := by
  have operand := within_headD within
  cases kind
  case seq => exact .seqOf within
  case choice | alt => exact .choiceOf within
  case many | many1 | optional | and | not | node | edge | fold => exact operand
  case func => exact within_callAction _ span within
  all_goals exact List.Sublist.refl _

end Assemble

/-- The references of a body in pure mode occur in full mode, in the same order. -/
theorem Placed.places_compile (placed : Placed) (pureId fullId : GrammarId) :
    (placed.compile pureId .pure).Within (placed.compile fullId .full) := by
  induction placed with
  | token t => exact .refl _
  | node kind span children ih =>
      rw [compile_node, compile_node]
      apply within_assemble
      rw [List.forall₂_map_left_iff, List.forall₂_map_right_iff, List.forall₂_same]
      exact fun child member => ih child (mem_of_mem_operandsAmong member)

/-! ## Grammars -/

namespace Registry

variable {registry : Registry}

theorem ruleNames_finish (registry : Registry) :
    registry.finish.ruleNames = registry.bodies.map Prod.fst := by
  rw [Grammar.ruleNames, finish, List.map_map]
  rfl

theorem references_finish (registry : Registry) :
    registry.finish.references = registry.bodies.flatMap fun rule =>
      (rule.2.compile registry.id registry.mode).references := by
  rw [Grammar.references, finish, List.flatMap_map]

/-- A finished grammar refers to itself only. -/
theorem own_finish (registry : Registry) :
    ∀ target ∈ registry.finish.references, target.grammar = registry.finish.id := by
  intro target member
  rw [references_finish] at member
  obtain ⟨rule, -, member⟩ := List.mem_flatMap.mp member
  exact Placed.grammar_of_mem_references target member

/-- A finished grammar leaves those references unresolved under whose name no body is registered. -/
theorem places_unresolved_finish (registry : Registry) :
    registry.finish.unresolved.map Reference.place =
      (registry.bodies.flatMap fun rule => (rule.2.compile registry.id registry.mode).places).filter
        (·.1 ∉ registry.bodies.map Prod.fst) := by
  have places : (registry.bodies.flatMap fun rule =>
        (rule.2.compile registry.id registry.mode).places) =
      registry.finish.references.map Reference.place := by
    rw [references_finish, List.map_flatMap]
    rfl
  rw [Grammar.unresolved_of_own registry.own_finish, ruleNames_finish, places, List.filter_map]
  rfl

/-- The references that are left unresolved in pure mode are left unresolved in full mode. -/
theorem places_unresolved_pure (pureId fullId : GrammarId) (pureUrn fullUrn : String) :
    ((registry.relabel pureId pureUrn .pure).finish.unresolved.map Reference.place).Sublist
      ((registry.relabel fullId fullUrn .full).finish.unresolved.map Reference.place) := by
  rw [places_unresolved_finish, places_unresolved_finish]
  apply List.Sublist.filter
  show (registry.bodies.flatMap fun rule => (rule.2.compile pureId .pure).places).Sublist
    (registry.bodies.flatMap fun rule => (rule.2.compile fullId .full).places)
  induction registry.bodies with
  | nil => exact List.Sublist.refl _
  | cons rule rules ih => exact (rule.2.places_compile pureId fullId).append ih

/-- The reports on the bodies of a registry in pure mode, without those on idle actions, are the reports
in full mode. -/
theorem filter_diagnostics_pure (reports : registry.ReportsRegistration) (pureId fullId : GrammarId)
    (pureUrn fullUrn : String) :
    (registry.relabel pureId pureUrn .pure).finish.diagnostics.filter Diagnostic.isActive =
      (registry.relabel fullId fullUrn .full).finish.diagnostics := by
  have registered : registry.diagnostics.filter Diagnostic.isActive = registry.diagnostics := by
    refine List.filter_eq_self.mpr fun d member => ?_
    rcases reports d member with anomaly | anomaly <;> simp [Diagnostic.isActive, anomaly]
  have compiled : (registry.bodies.flatMap fun rule => rule.2.reports .pure).filter
        Diagnostic.isActive =
      registry.bodies.flatMap fun rule => rule.2.reports .full := by
    rw [List.filter_flatMap]
    exact List.flatMap_congr fun rule _ => rule.2.filter_reports_pure
  show (registry.diagnostics ++ registry.bodies.flatMap fun rule => rule.2.reports .pure).filter
      Diagnostic.isActive =
    registry.diagnostics ++ registry.bodies.flatMap fun rule => rule.2.reports .full
  rw [List.filter_append, registered, compiled]

end Registry

/-- Reports on a source that could not be read are on nothing else. -/
theorem Parse.anomaly_of_mem_errorReports {parse : Parse} :
    ∀ d ∈ parse.errorReports, d.anomaly = .malformedSource := by
  intro d member
  unfold errorReports at member
  split at member
  · rw [List.mem_singleton.mp member]
    rfl
  · obtain ⟨fault, -, rfl⟩ := List.mem_map.mp member
    rfl

/-- **What the mode changes.** The full and the pure grammar for a source agree on whether it could be
read, on the names of the rules and on the examples. The reports of the pure grammar are those of the
full one with reports on idle actions among them, of which the full grammar has none. What the pure
grammar leaves unresolved, the full grammar leaves unresolved, in the same order. -/
theorem Parse.compile_pure_vs_full (parse : Parse) (pureId fullId : GrammarId)
    (pureUrn fullUrn : String) :
    let full := parse.compile fullId fullUrn .full
    let pure := parse.compile pureId pureUrn .pure
    pure.hasError = full.hasError ∧ pure.ruleNames = full.ruleNames ∧
      pure.examples = full.examples ∧
      pure.diagnostics.filter (·.anomaly ≠ .idleAction) = full.diagnostics ∧
      (∀ d ∈ full.diagnostics, d.anomaly ≠ .idleAction) ∧
      (pure.unresolved.map fun target => (target.name, target.span)).Sublist
        (full.unresolved.map fun target => (target.name, target.span)) := by
  intro full pure
  have active : pure.diagnostics.filter Diagnostic.isActive = full.diagnostics →
      ∀ d ∈ full.diagnostics, d.anomaly ≠ .idleAction := by
    intro filtered d member
    rw [← filtered] at member
    exact of_decide_eq_true (List.mem_filter.mp member).2
  by_cases readable : parse.IsReadable
  · let gathered := (Registry.new fullId fullUrn .full).load parse.root
    have pureEq : pure = (gathered.relabel pureId pureUrn .pure).finish := by
      rw [← Registry.load_new]
      exact compile_readable readable
    have fullEq : full = (gathered.relabel fullId fullUrn .full).finish := by
      rw [← Registry.load_new]
      exact compile_readable readable
    have reports : gathered.ReportsRegistration :=
      Registry.ReportsRegistration.load (fun d member => by cases member) parse.root
    have filtered : pure.diagnostics.filter Diagnostic.isActive = full.diagnostics := by
      rw [pureEq, fullEq]
      exact Registry.filter_diagnostics_pure reports pureId fullId pureUrn fullUrn
    refine ⟨?_, ?_, ?_, filtered, active filtered, ?_⟩
    · rw [pureEq, fullEq]
      rfl
    · rw [pureEq, fullEq, Registry.ruleNames_finish, Registry.ruleNames_finish]
      rfl
    · rw [pureEq, fullEq]
      rfl
    · rw [pureEq, fullEq]
      exact Registry.places_unresolved_pure pureId fullId pureUrn fullUrn
  · have fullEq : full = _ := compile_unreadable readable
    have pureEq : pure = _ := compile_unreadable readable
    have filtered : pure.diagnostics.filter Diagnostic.isActive = full.diagnostics := by
      rw [fullEq, pureEq]
      refine List.filter_eq_self.mpr fun d member => ?_
      simp [Diagnostic.isActive, anomaly_of_mem_errorReports d member]
    refine ⟨?_, ?_, ?_, filtered, active filtered, ?_⟩
    · rw [fullEq, pureEq]
    · rw [fullEq, pureEq]; rfl
    · rw [fullEq, pureEq]; rfl
    · rw [fullEq, pureEq]; exact List.Sublist.refl _

end Peg
