import Peg.Proofs.Compile.Operands
import Peg.Proofs.Expr.Flat

/-!
# Full and pure expressions

Pure mode leaves tree construction and actions out while a body is compiled; a recognizer is what is
left when they are taken away afterwards. Both give the same expression, although the one splices
sequences and choices after leaving out and the other before.

* `Placed.isFlat_compile`: compiled expressions are flat, which is what makes the order immaterial.
* `recognizer_assemble`: the agreement for one node whose operands agree.
* `Placed.recognizer_compile_full`: the agreement for every tree.
-/

namespace Peg

open Text (Span)

theorem CharClass.exists_atom (text : String) : ∃ a, CharClass.read text = .atom a := by
  unfold CharClass.read CharClass.ofItems
  split
  · exact ⟨_, rfl⟩
  · exact ⟨_, rfl⟩
  · exact ⟨_, rfl⟩

/-! ## Flatness -/

section Assemble

variable {grammar : GrammarId} {mode : Mode} {kind : Kind} {span : Span} {children : List Placed}
  {operands : List Expr}

theorem isFlat_buildTree {operand : Expr} (operator : Operator) (flat : operand.IsFlat) :
    (buildTree mode operator operand).IsFlat := by
  cases mode with
  | full => exact .unary operator flat
  | pure => exact flat

theorem isFlat_callAction (func : String) (flat : ∀ operand ∈ operands, operand.IsFlat) :
    (callAction mode func span operands).IsFlat := by
  have inner : (actionInner func operands).IsFlat := actionInner_of func (.atom _) flat
  cases mode with
  | full => exact .action func span inner flat
  | pure => exact inner

/-- A node assembled from flat operands is flat. -/
theorem isFlat_assemble (flat : ∀ operand ∈ operands, operand.IsFlat) :
    (assemble grammar mode kind span children operands).IsFlat := by
  have operand : (operands.headD .empty).IsFlat := headD_empty_of (.atom _) flat
  cases kind
  case charClass =>
    obtain ⟨a, eq⟩ := CharClass.exists_atom (View.operandText children)
    exact (show (CharClass.read _).IsFlat from eq ▸ .atom a)
  case many | many1 | optional | and | not => exact .unary _ operand
  case seq => exact Expr.isFlat_seqOf flat
  case choice | alt => exact Expr.isFlat_choiceOf flat
  case node | edge | fold => exact isFlat_buildTree _ operand
  case func => exact isFlat_callAction _ flat
  all_goals exact .atom _

end Assemble

/-- Whatever tree is compiled, the expression for it is flat. -/
theorem Placed.isFlat_compile (grammar : GrammarId) (mode : Mode) (placed : Placed) :
    (placed.compile grammar mode).IsFlat :=
  compile_of (.atom _) (fun _ _ _ _ => isFlat_assemble) placed

/-! ## Agreement -/

section Assemble

variable {grammar : GrammarId} {kind : Kind} {span : Span} {children : List Placed}
  {operands : List Expr}

/-- A node that is assembled in full and then reduced to its recognizer is the node assembled in pure
mode from the recognizers of its operands. -/
theorem recognizer_assemble (flat : ∀ operand ∈ operands, operand.IsFlat) :
    (assemble grammar .full kind span children operands).recognizer =
      assemble grammar .pure kind span children (operands.map Expr.recognizer) := by
  have operand : (operands.headD .empty).recognizer =
      (operands.map Expr.recognizer).headD .empty := headD_empty_map rfl
  cases kind
  case charClass =>
    obtain ⟨a, eq⟩ := CharClass.exists_atom (View.operandText children)
    exact (show (CharClass.read _).recognizer = CharClass.read _ from eq ▸ rfl)
  case many | many1 | optional | and | not => exact congrArg (Expr.unary _) operand
  case seq => exact Expr.recognizer_seqOf flat
  case choice | alt => exact Expr.recognizer_choiceOf flat
  case node | edge | fold => exact operand
  case func => exact actionInner_map rfl _
  all_goals rfl

end Assemble

/-- **Pure mode is full mode without tree construction and actions.** For every tree, compiling in full
mode and taking the recognizer gives the expression that pure mode gives, with the same references. -/
theorem Placed.recognizer_compile_full (placed : Placed) (grammar : GrammarId) :
    (placed.compile grammar .full).recognizer = placed.compile grammar .pure := by
  induction placed with
  | token t => rfl
  | node kind span children ih =>
      have operands : ((operandsAmong children).map (compile grammar .full)).map Expr.recognizer =
          (operandsAmong children).map (compile grammar .pure) := by
        rw [List.map_map]
        exact List.map_congr_left fun child member => ih child (mem_of_mem_operandsAmong member)
      rw [compile_node, compile_node, recognizer_assemble, operands]
      exact List.forall_mem_map.mpr fun child _ => isFlat_compile grammar .full child

end Peg
