import Peg.Proofs.Compile.Modes
import Peg.Proofs.Notation.Escape

/-!
# The normal form of compiled expressions

A compiled expression is flat, and nothing in it is out of the ordinary: sets are written with as few
means as possible, nothing is shifted, and an action recognizes what its function and its parameters
say. Pure mode leaves neither tree construction nor actions.

* `Expr.IsRegular`: the conditions on the parts of an expression that do not concern nesting.
* `Expr.IsNormal`: the normal form of a mode, flat and regular.
* `CharClass.isClass_of_read`: what is read from a class is no set unless a set is needed.
* `isRegular_assemble`: a node assembled from regular operands is regular.
* `Placed.compile_isNormal`: whatever tree is compiled, the expression is in normal form.
-/

namespace Peg

open Text (Span)

/-! ## Sets -/

namespace CharClass

/-- Every item is a single character or the two bounds of a range. -/
theorem length_bounds (items : List Item) :
    (bounds items).length + 2 * (singles items).length = 2 * items.length := by
  induction items with
  | nil => rfl
  | cons item items ih =>
      unfold bounds singles at ih ⊢
      cases item with
      | single c =>
          simp only [List.flatMap_cons, List.length_append, List.length_cons, List.length_nil]
          omega
      | range low high =>
          simp only [List.flatMap_cons, List.length_append, List.length_cons, List.length_nil]
          omega

/-- A set that is read from a class has whole ranges, and is no single character and not empty. -/
theorem isClass_of_read {text chars ranges : String} (set : read text = .set chars ranges) :
    IsClass chars ranges := by
  unfold read ofItems at set
  split at set
  · cases set
  · cases set
  · next none single =>
    have length := length_bounds (items text.toList)
    cases set
    rw [IsClass, String.toList_ofList, String.toList_ofList]
    match items text.toList, none, single, length with
    | [], none, _, _ => exact (none rfl).elim
    | [.single c], _, single, _ => exact (single c rfl).elim
    | [.range low high], _, _, length =>
        have alone : (singles [.range low high]).length = 0 := rfl
        simp only [List.length_cons, List.length_nil] at length
        constructor
        · omega
        · omega
    | first :: second :: others, _, _, length =>
        simp only [List.length_cons] at length
        constructor
        · omega
        · omega

end CharClass

/-! ## Regular expressions -/

/-- A set is needed where one stands. -/
def Atom.IsRegular : Atom → Prop
  | .set chars ranges => CharClass.IsClass chars ranges
  | .empty | .any | .fail | .literal _ | .ref _ => True

/-- Nothing is shifted. -/
def Operator.IsUnshifted : Operator → Prop
  | .node _ shift => shift = 0
  | .fold _ _ shift => shift = 0
  | .many | .many1 | .optional | .and | .not | .edge _ => True

/-- What an action recognizes: its first parameter if the function is transparent and there is one, and
nothing otherwise. -/
def IsActionInner (func : String) (params : List Expr) (inner : Expr) : Prop :=
  match params with
  | first :: _ => inner = if isTransparent func then first else .empty
  | [] => inner = .empty

theorem IsActionInner.empty_or_mem {func : String} {params : List Expr} {inner : Expr}
    (recognized : IsActionInner func params inner) : inner = .empty ∨ inner ∈ params := by
  unfold IsActionInner at recognized
  split at recognized
  · split at recognized
    · exact Or.inr (recognized ▸ List.mem_cons_self)
    · exact Or.inl recognized
  · exact Or.inl recognized

namespace Expr

/-- Every set in the expression is needed, nothing is shifted, and every action recognizes what its
function and its parameters say. In pure mode there is neither tree construction nor an action. -/
inductive IsRegular (mode : Mode) : Expr → Prop
  | atom {a : Atom} (regular : a.IsRegular) : IsRegular mode (.atom a)
  | unary {operator : Operator} {operand : Expr} (unshifted : operator.IsUnshifted)
    (full : operator.buildsTree = true → mode = .full) (regular : IsRegular mode operand) :
    IsRegular mode (.unary operator operand)
  | seq {items : List Expr} (regular : ∀ item ∈ items, IsRegular mode item) :
    IsRegular mode (.seq items)
  | choice {alternatives : List Expr} (regular : ∀ item ∈ alternatives, IsRegular mode item) :
    IsRegular mode (.choice alternatives)
  | action {func : String} {span : Span} {inner : Expr} {params : List Expr} (full : mode = .full)
    (recognized : IsActionInner func params inner) (regular : IsRegular mode inner)
    (regularParams : ∀ param ∈ params, IsRegular mode param) :
    IsRegular mode (.action func span inner params)

/-- The normal form of a mode: the expression is flat and regular, with all its parts. -/
structure IsNormal (mode : Mode) (e : Expr) : Prop where
  flat : e.IsFlat
  regular : e.IsRegular mode

variable {mode : Mode} {e part : Expr} {items : List Expr}

theorem isRegular_empty : (Expr.empty).IsRegular mode :=
  .atom trivial

theorem IsRegular.of_mem_seqItems (regular : e.IsRegular mode) (member : part ∈ e.seqItems) :
    part.IsRegular mode := by
  cases e with
  | seq items =>
      cases regular with
      | seq regular => exact regular part member
  | _ => exact List.mem_singleton.mp member ▸ regular

theorem IsRegular.of_mem_choiceItems (regular : e.IsRegular mode) (member : part ∈ e.choiceItems) :
    part.IsRegular mode := by
  cases e with
  | choice items =>
      cases regular with
      | choice regular => exact regular part member
  | _ => exact List.mem_singleton.mp member ▸ regular

theorem isRegular_seqOf (regular : ∀ item ∈ items, item.IsRegular mode) :
    (seqOf items).IsRegular mode := by
  apply Splice.seq.of_preserves isRegular_empty (Q := fun _ => True)
  · intro item itemMember part partMember
    exact ⟨trivial, (regular item itemMember).of_mem_seqItems partMember⟩
  · intro parts _ all
    exact .seq fun part member => (all part member).2

theorem isRegular_choiceOf (regular : ∀ item ∈ items, item.IsRegular mode) :
    (choiceOf items).IsRegular mode := by
  apply Splice.choice.of_preserves (.atom trivial) (Q := fun _ => True)
  · intro item itemMember part partMember
    exact ⟨trivial, (regular item itemMember).of_mem_choiceItems partMember⟩
  · intro parts _ all
    exact .choice fun part member => (all part member).2

end Expr

/-! ## Compiled expressions -/

theorem isActionInner_actionInner (func : String) (params : List Expr) :
    IsActionInner func params (actionInner func params) := by
  unfold actionInner
  cases params with
  | nil => exact ite_self _
  | cons first others => rfl

section Assemble

variable {grammar : GrammarId} {mode : Mode} {kind : Kind} {span : Span} {children : List Placed}
  {operands : List Expr}

theorem isRegular_buildTree {operator : Operator} {operand : Expr}
    (unshifted : operator.IsUnshifted) (regular : operand.IsRegular mode) :
    (buildTree mode operator operand).IsRegular mode := by
  cases mode with
  | full => exact .unary unshifted (fun _ => rfl) regular
  | pure => exact regular

theorem isRegular_callAction (func : String)
    (regular : ∀ operand ∈ operands, operand.IsRegular mode) :
    (callAction mode func span operands).IsRegular mode := by
  have inner : (actionInner func operands).IsRegular mode :=
    actionInner_of func Expr.isRegular_empty regular
  cases mode with
  | full => exact .action rfl (isActionInner_actionInner func operands) inner regular
  | pure => exact inner

theorem CharClass.isRegular_read (text : String) : (CharClass.read text).IsRegular mode := by
  obtain ⟨a, eq⟩ := CharClass.exists_atom text
  rw [eq]
  apply Expr.IsRegular.atom
  cases a with
  | set chars ranges => exact CharClass.isClass_of_read eq
  | empty | any | fail | literal | ref => trivial

/-- A node assembled from regular operands is regular. -/
theorem isRegular_assemble (regular : ∀ operand ∈ operands, operand.IsRegular mode) :
    (assemble grammar mode kind span children operands).IsRegular mode := by
  have operand : (operands.headD .empty).IsRegular mode :=
    headD_empty_of Expr.isRegular_empty regular
  cases kind
  case charClass => exact CharClass.isRegular_read (View.operandText children)
  case many | many1 | optional | and | not => exact .unary trivial nofun operand
  case seq => exact Expr.isRegular_seqOf regular
  case choice | alt => exact Expr.isRegular_choiceOf regular
  case node | fold => exact isRegular_buildTree rfl operand
  case edge => exact isRegular_buildTree trivial operand
  case func => exact isRegular_callAction _ regular
  all_goals exact .atom trivial

end Assemble

/-- Whatever tree is compiled, the expression for it is regular. -/
theorem Placed.isRegular_compile (grammar : GrammarId) (mode : Mode) (placed : Placed) :
    (placed.compile grammar mode).IsRegular mode :=
  compile_of (.atom trivial) (fun _ _ _ _ => isRegular_assemble) placed

/-- **Compiled expressions are in normal form.** Whatever tree is compiled for whichever grammar, every
sequence and every choice in the expression has two parts or more and none of its own kind; every set
has whole ranges and is no single character; every action recognizes its first parameter if it is
transparent and has one, and nothing otherwise; and nothing is shifted. In pure mode there is neither
tree construction nor an action. -/
theorem Placed.compile_isNormal (placed : Placed) (grammar : GrammarId) (mode : Mode) :
    (placed.compile grammar mode).IsNormal mode where
  flat := placed.isFlat_compile grammar mode
  regular := placed.isRegular_compile grammar mode

end Peg
