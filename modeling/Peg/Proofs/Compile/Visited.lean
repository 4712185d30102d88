import Mathlib.Data.List.Perm.Basic
import Peg.Proofs.Compile.Operands

/-!
# Visited nodes

Compiling a body visits the body itself and, below every visited node, the operands that its construct
uses. Each visited node is reported on by itself: what is reported about a body is what is reported
about its visited nodes, and depends on nothing else.

* `Placed.visited`: the visited nodes of a body, each as often as it is visited.
* `Placed.ownReports`: the reports about one node, its operands left aside.
* `Placed.reports_perm_visited`: the reports about a body are those about its visited nodes.
* `Placed.reports_perm`: the reports by cause, one for every visited node to which the cause applies.
-/

namespace Peg

open Text (Span)

/-! ## Visiting -/

/-- The nodes visited below a node of some kind, given those visited for each of its operands: a
construct uses all of them, or the first, or none. -/
def visitedBelow (kind : Kind) (byOperand : List (List Placed)) : List Placed :=
  match kind with
  | .seq | .choice | .alt | .func => byOperand.flatten
  | .many | .many1 | .optional | .and | .not | .node | .edge | .fold => byOperand.headD []
  | _ => []

mutual

/-- The nodes that are visited while a body is compiled: the body and those below it. -/
def Placed.visited : Placed → List Placed
  | .node kind span children =>
    .node kind span children :: visitedBelow kind (visitedByOperand children)
  | .token _ => []

/-- The nodes visited for each operand among the children; tags and labels are no operands. -/
def visitedByOperand : List Placed → List (List Placed)
  | [] => []
  | child :: children =>
    if child.isOperand then child.visited :: visitedByOperand children
    else visitedByOperand children

end

namespace Placed

@[simp]
theorem isNodeOf_node (accepts : Kind → Bool) (kind : Kind) (span : Span) (children : List Placed) :
    (node kind span children).isNodeOf accepts = accepts kind := rfl

@[simp]
theorem span_node (kind : Kind) (span : Span) (children : List Placed) :
    (node kind span children).span = span := rfl

@[simp]
theorem children_node (kind : Kind) (span : Span) (children : List Placed) :
    (node kind span children).children = children := rfl

theorem visitedByOperand_eq (children : List Placed) :
    visitedByOperand children = (operandsAmong children).map visited := by
  induction children with
  | nil => rfl
  | cons child children ih =>
      rw [visitedByOperand, operandsAmong, List.filter_cons]
      split
      · rw [List.map_cons, ih, operandsAmong]
      · rw [ih, operandsAmong]

/-- Below a node those nodes are visited that are visited for the operands that it reads. -/
theorem visited_node (kind : Kind) (span : Span) (children : List Placed) :
    (node kind span children).visited =
      node kind span children :: (readOperands kind children).flatMap visited := by
  have first : ((operandsAmong children).map visited).headD [] =
      ((operandsAmong children).take 1).flatMap visited := by
    cases operandsAmong children with
    | nil => rfl
    | cons child others => exact (List.flatMap_singleton _ _).symm
  rw [visited, visitedByOperand_eq]
  congr 1
  cases kind
  case many | many1 | optional | and | not | node | edge | fold => exact first
  all_goals rfl

/-! ## Reports about one node -/

/-- What is reported about a node, leaving its operands aside. -/
def ownReports (mode : Mode) : Placed → List Diagnostic
  | .node kind span children => openingReports kind span ++ closingReports mode kind span children
  | .token _ => []

/-- The reports about a body are those about its visited nodes, each by itself. -/
theorem reports_perm_visited (placed : Placed) (mode : Mode) :
    (placed.reports mode).Perm (placed.visited.flatMap (ownReports mode)) := by
  induction placed with
  | token t => exact List.Perm.refl _
  | node kind span children ih =>
      have operands : ((readOperands kind children).flatMap (reports mode)).Perm
          ((readOperands kind children).flatMap visited |>.flatMap (ownReports mode)) := by
        rw [List.flatMap_assoc]
        exact List.Perm.flatMap_left _ fun child member => ih child (mem_of_mem_readOperands member)
      rw [reports_node, visited_node, List.flatMap_cons, ownReports, List.append_assoc,
        List.append_assoc]
      apply List.Perm.append_left
      exact List.perm_append_comm.trans (operands.append_left _)

/-! ## Causes -/

/-- The node stands for an unordered choice. -/
def isUnorderedChoice (node : Placed) : Bool :=
  node.isNodeOf (· == .alt)

/-- The node stands for no expression. -/
def isForeign (node : Placed) : Bool :=
  node.isNodeOf (!·.isExpression)

/-- The name of the function that a node calls, empty if there is none. -/
def func (node : Placed) : String :=
  (View.funcName? node.children).getD ""

/-- The node calls a transparent function without an argument. -/
def lacksArgument (node : Placed) : Bool :=
  node.isNodeOf (· == .func) && isTransparent node.func && !node.children.any isOperand

/-- The node calls a function that is not transparent, in pure mode. -/
def isIdleCall (mode : Mode) (node : Placed) : Bool :=
  node.isNodeOf (· == .func) && !isTransparent node.func && mode == .pure

/-- The report that a node stands for an unordered choice. -/
def unorderedChoiceReport (node : Placed) : Diagnostic :=
  (Diagnostic.of .unorderedChoice node.span "unordered choice is not supported").withHint
    "use '/' for ordered choice"

/-- The report that a node stands for no expression. -/
def foreignReport (node : Placed) : Diagnostic :=
  .of .unexpectedNode node.span ("unexpected syntax node " ++ node.kind.display)

/-- The report that a call lacks an argument. -/
def missingArgumentReport (node : Placed) : Diagnostic :=
  .of .missingArgument node.span ("@" ++ node.func ++ " expects an argument")

/-- The report that a call has no effect. -/
def idleCallReport (node : Placed) : Diagnostic :=
  .of .idleAction node.span ("@" ++ node.func ++ " has no effect in a pure grammar")

/-- The report on a cause about a node, if the cause applies to it. -/
def reportIf (node : Placed) (applies : Placed → Bool) (report : Placed → Diagnostic) :
    List Diagnostic :=
  if applies node then [report node] else []

theorem openingReports_eq (kind : Kind) (span : Span) (children : List Placed) :
    openingReports kind span =
      (node kind span children).reportIf isUnorderedChoice unorderedChoiceReport ++
        (node kind span children).reportIf isForeign foreignReport := by
  unfold openingReports reportIf isUnorderedChoice isForeign
  by_cases unordered : kind = .alt
  · subst unordered
    rfl
  · cases expression : kind.isExpression with
    | true => simp [unordered, expression]
    | false =>
        simp only [unordered, expression, isNodeOf_node, beq_iff_eq, if_false, List.nil_append]
        rfl

theorem closingReports_eq (mode : Mode) (kind : Kind) (span : Span) (children : List Placed) :
    closingReports mode kind span children =
      (node kind span children).reportIf lacksArgument missingArgumentReport ++
        (node kind span children).reportIf (isIdleCall mode) idleCallReport := by
  unfold closingReports callReports reportIf lacksArgument isIdleCall
  by_cases call : kind = .func
  · have name : (View.funcName? children).getD "" = (node kind span children).func := rfl
    rw [if_pos call, name]
    cases isTransparent (node kind span children).func with
    | true =>
        cases argument : children.any isOperand with
        | true => simp [argument]
        | false => simp [argument, call, missingArgumentReport]
    | false =>
        cases mode with
        | full => simp
        | pure => simp [call, idleCallReport]
  · simp [call]

/-- The reports about one node, by cause. -/
theorem ownReports_eq (mode : Mode) (node : Placed) :
    node.ownReports mode =
      (node.reportIf isUnorderedChoice unorderedChoiceReport ++
        node.reportIf isForeign foreignReport) ++
      (node.reportIf lacksArgument missingArgumentReport ++
        node.reportIf (isIdleCall mode) idleCallReport) := by
  cases node with
  | token t => rfl
  | node kind span children =>
      rw [ownReports, openingReports_eq kind span children, closingReports_eq]

theorem flatMap_reportIf (nodes : List Placed) (applies : Placed → Bool)
    (report : Placed → Diagnostic) :
    nodes.flatMap (·.reportIf applies report) = (nodes.filter applies).map report := by
  induction nodes with
  | nil => rfl
  | cons node nodes ih =>
      rw [List.flatMap_cons, ih, reportIf, List.filter_cons]
      split
      · rfl
      · rfl

/-- What two causes bring up about some nodes, cause by cause. -/
theorem flatMap_reportIf_append_perm (nodes : List Placed) (applies applies' : Placed → Bool)
    (report report' : Placed → Diagnostic) :
    (nodes.flatMap fun node => node.reportIf applies report ++ node.reportIf applies' report').Perm
      ((nodes.filter applies).map report ++ (nodes.filter applies').map report') := by
  rw [← flatMap_reportIf, ← flatMap_reportIf]
  exact (List.flatMap_append_perm nodes _ _).symm

/-- What is reported about a body is reported about one of its visited nodes, for one of four causes. -/
theorem exists_visited_of_mem_reports {placed : Placed} {mode : Mode} {d : Diagnostic}
    (member : d ∈ placed.reports mode) :
    ∃ node ∈ placed.visited, d = node.unorderedChoiceReport ∨ d = node.foreignReport ∨
      d = node.missingArgumentReport ∨ d = node.idleCallReport := by
  obtain ⟨node, visited, own⟩ :=
    List.mem_flatMap.mp ((reports_perm_visited placed mode).mem_iff.mp member)
  refine ⟨node, visited, ?_⟩
  have reported {applies : Placed → Bool} {report : Placed → Diagnostic}
      (member : d ∈ node.reportIf applies report) : d = report node := by
    unfold reportIf at member
    split at member
    · exact List.mem_singleton.mp member
    · cases member
  rw [ownReports_eq] at own
  rcases List.mem_append.mp own with opening | closing
  · rcases List.mem_append.mp opening with member | member
    · exact Or.inl (reported member)
    · exact Or.inr (Or.inl (reported member))
  · rcases List.mem_append.mp closing with member | member
    · exact Or.inr (Or.inr (Or.inl (reported member)))
    · exact Or.inr (Or.inr (Or.inr (reported member)))

/-- **What is reported about a body.** In some order, the reports are: for every visited node that is an
unordered choice one report of that; one for every visited node that stands for no expression; one for
every visited call of a transparent function without an argument; and in pure mode one for every visited
call of any other function. Each is about the place of its node and has the severity of its cause. -/
theorem reports_perm (body : Placed) (mode : Mode) :
    (body.reports mode).Perm
        ((body.visited.filter isUnorderedChoice).map unorderedChoiceReport ++
          (body.visited.filter isForeign).map foreignReport ++
          ((body.visited.filter lacksArgument).map missingArgumentReport ++
            (body.visited.filter (isIdleCall mode)).map idleCallReport)) ∧
      ∀ d ∈ body.reports mode, d.severity = d.anomaly.severity := by
  constructor
  · refine (reports_perm_visited body mode).trans ?_
    rw [List.flatMap_congr fun node _ => ownReports_eq mode node]
    refine (List.flatMap_append_perm _ _ _).symm.trans (List.Perm.append ?_ ?_)
    · exact flatMap_reportIf_append_perm body.visited _ _ _ _
    · exact flatMap_reportIf_append_perm body.visited _ _ _ _
  · intro d member
    obtain ⟨node, -, rfl | rfl | rfl | rfl⟩ := exists_visited_of_mem_reports member
    · rfl
    · rfl
    · rfl
    · rfl

end Placed

end Peg
