import Peg.Proofs.Tree.Views

/-!
# What statements are made of

A rule and an example, each by the tokens and nodes inside it.

* `Placed.namesAmong`, `Placed.bodiesAmong`, `Placed.docAmong`: the names, the expressions and the
  documentation among the children of a statement.
* `View.firstToken?_eq_head?`, `View.find?_isExpression_eq_head?`, `View.doc?_eq_docAmong`: the typed
  views read nothing else.
* `Tree.CompletesRule`: the children of a rule that has a name and a body.
-/

namespace Peg

namespace Placed

/-- The tokens among the children that name rules. -/
def namesAmong : List Placed → List Token
  | [] => []
  | .node .. :: children => namesAmong children
  | .token t :: children =>
    if t.kind = .ident ∨ t.kind = .quotedName then t :: namesAmong children else namesAmong children

/-- The nodes among the children that are expressions. -/
def bodiesAmong : List Placed → List Placed
  | [] => []
  | .token _ :: children => bodiesAmong children
  | .node kind span parts :: children =>
    if kind.isExpression then .node kind span parts :: bodiesAmong children
    else bodiesAmong children

/-- The text of the first piece of raw text among the children, or nothing. -/
def rawTextAmong : List Placed → String
  | [] => ""
  | .node .. :: children => rawTextAmong children
  | .token t :: children => if t.kind = .text then t.text else rawTextAmong children

/-- The text of the first documentation among the children, or nothing. -/
def docAmong : List Placed → String
  | [] => ""
  | .token _ :: children => docAmong children
  | .node kind _ parts :: children => if kind = .doc then rawTextAmong parts else docAmong children

end Placed

open Placed

variable {trees : List Tree} {children : List Placed} {name : String}

/-! ## Typed views -/

theorem Kind.isRuleName_iff {kind : Kind} :
    kind.isRuleName = true ↔ kind = .ident ∨ kind = .quotedName := by
  cases kind <;> simp [isRuleName]

namespace View

theorem filter_tokensOf_eq_namesAmong (children : List Placed) :
    (tokensOf children).filter (·.kind.isRuleName) = namesAmong children := by
  induction children with
  | nil => rfl
  | cons child children ih =>
      cases child with
      | node kind span parts => exact ih
      | token token =>
          rw [namesAmong, ← ih]
          simp only [tokensOf, List.filterMap_cons, token?, List.filter_cons, Kind.isRuleName_iff]

/-- The first name that is read is the first among the children. -/
theorem firstToken?_eq_head? (children : List Placed) :
    firstToken? Kind.isRuleName children = (namesAmong children).head? := by
  rw [← filter_tokensOf_eq_namesAmong, List.head?_filter, firstToken?]

theorem filter_isExpression_eq_bodiesAmong (children : List Placed) :
    children.filter isExpression = bodiesAmong children := by
  induction children with
  | nil => rfl
  | cons child children ih =>
      cases child with
      | token token => exact ih
      | node kind span parts =>
          rw [bodiesAmong, ← ih, List.filter_cons]
          rfl

/-- The body that is read is the first expression among the children. -/
theorem find?_isExpression_eq_head? (children : List Placed) :
    children.find? isExpression = (bodiesAmong children).head? := by
  rw [← filter_isExpression_eq_bodiesAmong, List.head?_filter]

theorem firstText_eq_rawTextAmong (children : List Placed) :
    firstText (· == .text) children = rawTextAmong children := by
  induction children with
  | nil => rfl
  | cons child children ih =>
      cases child with
      | node kind span parts => exact ih
      | token token =>
          unfold firstText firstToken? at ih ⊢
          have read : tokensOf (.token token :: children) = token :: tokensOf children := rfl
          rw [read, rawTextAmong]
          by_cases raw : token.kind = .text
          · simp [raw]
          · simpa [raw] using ih

/-- The documentation that is read is the first among the children. -/
theorem doc?_eq_docAmong (children : List Placed) :
    ((doc? children).map Doc.text).getD "" = docAmong children := by
  induction children with
  | nil => rfl
  | cons child children ih =>
      cases child with
      | token token => exact ih
      | node kind span parts =>
          unfold doc? firstNode? at ih ⊢
          rw [docAmong]
          by_cases documents : kind = .doc
          · simp [documents, isNodeOf, Placed.children, firstText_eq_rawTextAmong]
          · simpa [documents, isNodeOf] using ih

end View

/-! ## Complete rules -/

/-- The children of a rule that has a name and a body. -/
structure Tree.CompletesRule (name : String) (children : List Tree) : Prop where
  /-- The first token that is an identifier or a quoted name is `name`. -/
  named : ∃ before kind after, children = before ++ .token kind name :: after ∧
    (kind = .ident ∨ kind = .quotedName) ∧
      ∀ kind' text, .token kind' text ∈ before → kind' ≠ .ident ∧ kind' ≠ .quotedName
  bodied : ∃ kind parts, .node kind parts ∈ children ∧ kind.isExpression = true

theorem Tree.word?_isRuleName_eq_some_iff {tree : Tree} :
    tree.word? Kind.isRuleName = some name ↔
      ∃ kind, tree = .token kind name ∧ (kind = .ident ∨ kind = .quotedName) := by
  cases tree with
  | node kind parts => simp [word?]
  | token kind text => simp [word?, Kind.isRuleName_iff, and_comm]

theorem Tree.word?_isRuleName_eq_none_iff {tree : Tree} :
    tree.word? Kind.isRuleName = none ↔
      ∀ kind text, tree = .token kind text → kind ≠ .ident ∧ kind ≠ .quotedName := by
  cases tree with
  | node kind parts => simp [word?]
  | token kind text => simp [word?, Kind.isRuleName_iff]

/-- The first name among trees stands behind trees that name nothing. -/
theorem Tree.head?_words_isRuleName_eq_some_iff :
    (words Kind.isRuleName trees).head? = some name ↔
      ∃ before kind after, trees = before ++ .token kind name :: after ∧
        (kind = .ident ∨ kind = .quotedName) ∧
          ∀ kind' text, .token kind' text ∈ before → kind' ≠ .ident ∧ kind' ≠ .quotedName := by
  rw [words, List.head?_filterMap, List.findSome?_eq_some_iff]
  simp only [word?_isRuleName_eq_some_iff, word?_isRuleName_eq_none_iff]
  constructor
  · intro found
    rcases found with ⟨before, tree, after, split, ⟨kind, rfl, names⟩, others⟩
    refine ⟨before, kind, after, split, names, ?_⟩
    intro kind' text member
    exact others _ member kind' text rfl
  · intro found
    rcases found with ⟨before, kind, after, split, names, others⟩
    refine ⟨before, _, after, split, ⟨kind, rfl, names⟩, ?_⟩
    intro tree member kind' text token
    exact others kind' text (token ▸ member)

theorem Tree.filter_isExpression_ne_nil_iff :
    trees.filter (isNodeOf Kind.isExpression) ≠ [] ↔
      ∃ kind parts, .node kind parts ∈ trees ∧ kind.isExpression = true := by
  constructor
  · intro some
    obtain ⟨tree, found⟩ := List.exists_mem_of_ne_nil _ some
    obtain ⟨member, expression⟩ := List.mem_filter.mp found
    cases tree with
    | node kind parts => exact ⟨kind, parts, member, expression⟩
    | token => cases expression
  · intro found
    rcases found with ⟨kind, parts, member, expression⟩
    exact List.ne_nil_of_mem (List.mem_filter.mpr ⟨member, expression⟩)

/-- A rule that is laid out has a name and a body if its tree has. -/
theorem Tree.completesRule_iff_of_laid (laid : List.Forall₂ IsLaidOut trees children) :
    CompletesRule name trees ↔
      (namesAmong children).head?.map Token.text = some name ∧ bodiesAmong children ≠ [] := by
  have named : (namesAmong children).head?.map Token.text = (words Kind.isRuleName trees).head? := by
    rw [← View.firstToken?_eq_head?, View.firstToken?_of_laid laid]
  have bodied : bodiesAmong children = [] ↔ trees.filter (isNodeOf Kind.isExpression) = [] := by
    rw [← View.filter_isExpression_eq_bodiesAmong]
    have lengths := (filter_of_laid laid Kind.isExpression).length_eq
    rw [← List.length_eq_zero_iff, ← List.length_eq_zero_iff, lengths]
    rfl
  rw [named, head?_words_isRuleName_eq_some_iff, Ne, bodied, ← Ne, filter_isExpression_ne_nil_iff]
  exact ⟨fun complete => ⟨complete.named, complete.bodied⟩, fun parts => ⟨parts.1, parts.2⟩⟩

end Peg
