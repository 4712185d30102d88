import Peg.Proofs.Tree.Nodes

/-!
# Views of trees that are laid out

What a typed view reads off the children of a node does not depend on where they are laid out: it can be
read off the trees themselves.

* `Tree.words`: the texts of some tokens among trees.
* `View.firstText_of_laid`, `View.funcName?_of_laid`, `View.decoration?_of_laid`: what the views read.
* `Tree.filter_of_laid`: the nodes of some kinds among trees that are laid out.
-/

namespace Peg

/-- Tags and labels are no expressions. -/
theorem Kind.isExpression_of_isDecoration {kind : Kind} (decorates : kind.isDecoration = true) :
    kind.isExpression = false := by
  cases kind
  case tag | label => rfl
  all_goals cases decorates

namespace Tree

/-- A node whose kind satisfies `accepts`. -/
def isNodeOf (accepts : Kind → Bool) : Tree → Bool
  | .node kind _ => accepts kind
  | .token .. => false

/-- The text of a token whose kind satisfies `accepts`. -/
def word? (accepts : Kind → Bool) : Tree → Option String
  | .node .. => none
  | .token kind text => if accepts kind then some text else none

/-- The texts of the tokens whose kind satisfies `accepts`. -/
def words (accepts : Kind → Bool) (trees : List Tree) : List String :=
  trees.filterMap (word? accepts)

/-- The name that a tag or label gives, if the tree is one. -/
def decoration? (kind : Kind) : Tree → Option String
  | .node kind' children =>
    if kind' == kind then some ((words (· == .ident) children).head?.getD "") else none
  | .token .. => none

theorem isNodeOf_of_isLaidOut {tree : Tree} {placed : Placed} (laid : tree.IsLaidOut placed)
    (accepts : Kind → Bool) : placed.isNodeOf accepts = tree.isNodeOf accepts := by
  obtain ⟨offset, rfl⟩ := laid
  cases tree <;> rfl

end Tree

open Peg.Tree

variable {trees : List Tree} {children : List Placed}

/-- The nodes of some kinds among trees that are laid out are those among the trees. -/
theorem Tree.filter_of_laid (laid : List.Forall₂ IsLaidOut trees children) (accepts : Kind → Bool) :
    List.Forall₂ IsLaidOut (trees.filter (isNodeOf accepts))
      (children.filter (·.isNodeOf accepts)) := by
  refine List.rel_filter ?_ laid
  intro tree placed laid
  exact Bool.eq_iff_iff.mp (isNodeOf_of_isLaidOut laid accepts).symm

namespace View

/-- The tokens of some kinds among trees that are laid out carry the texts of those among the trees. -/
theorem tokensOf_of_laid (laid : List.Forall₂ IsLaidOut trees children) (accepts : Kind → Bool) :
    ((tokensOf children).filter (accepts ·.kind)).map Token.text = words accepts trees := by
  induction laid with
  | nil => rfl
  | @cons tree placed trees children head _ ih =>
      obtain ⟨offset, rfl⟩ := head
      cases tree with
      | node kind parts => exact ih
      | token kind text =>
          have unfolded : tokensOf (place offset (.token kind text) :: children) =
              ⟨kind, .ofText offset text, text⟩ :: tokensOf children := rfl
          rw [unfolded, words, List.filterMap_cons, word?, List.filter_cons]
          cases accepted : accepts kind with
          | true => exact congrArg (text :: ·) ih
          | false => exact ih

theorem firstToken?_of_laid (laid : List.Forall₂ IsLaidOut trees children)
    (accepts : Kind → Bool) :
    (firstToken? accepts children).map Token.text = (words accepts trees).head? := by
  rw [← tokensOf_of_laid laid, List.head?_map, List.head?_filter, firstToken?]

theorem firstText_of_laid (laid : List.Forall₂ IsLaidOut trees children) (accepts : Kind → Bool) :
    firstText accepts children = (words accepts trees).head?.getD "" := by
  rw [firstText, firstToken?_of_laid laid]

theorem funcName?_of_laid (laid : List.Forall₂ IsLaidOut trees children) :
    funcName? children = (words (· == .ident) trees).head? :=
  firstToken?_of_laid laid _

/-- The name that the first tag or label among trees gives is the one that is read. -/
theorem decoration?_of_laid (laid : List.Forall₂ IsLaidOut trees children) (kind : Kind) :
    View.decoration? kind children = (trees.filterMap (Tree.decoration? kind)).head? := by
  induction laid with
  | nil => rfl
  | @cons tree placed trees children head _ ih =>
      obtain ⟨offset, rfl⟩ := head
      cases tree with
      | token kind text => exact ih
      | node kind' parts =>
          have own := firstText_of_laid (forall₂_placeAll parts offset) (· == .ident)
          unfold View.decoration? firstNode? at ih ⊢
          rw [List.filterMap_cons, Tree.decoration?, place, List.find?_cons]
          cases same : kind' == kind with
          | true => simp [Placed.isNodeOf, same, Placed.children, own]
          | false => simpa [Placed.isNodeOf, same] using ih

end View

end Peg
