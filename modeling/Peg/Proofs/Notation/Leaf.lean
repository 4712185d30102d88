import Peg.Proofs.Notation.Escape
import Peg.Proofs.Notation.Meaning
import Peg.Proofs.Notation.Names

/-!
# Printed atoms are read back

* `Atom.IsLeaf`: the atoms that are printed as a leaf of the line notation.
* `LineNotation.ReadsLeaf`: a text is read as a leaf, whatever follows that does not continue a name.
* `Atom.IsLeaf.exists_readsLeaf`: a printed atom is read as a leaf that stands for it.
-/

namespace Peg

open Text (Ahead IsName isNameChar isBlank)

namespace LineNotation

open Draft (Leaf)

/-- A leaf that is not in parentheses begins with the character. -/
def BeginsLeaf (c : Char) : Prop :=
  c = '\'' ∨ c = '[' ∨ c = '.' ∨ isNameChar c = true

/-- The text is read as the leaf wherever nothing follows that continues a name. -/
def ReadsLeaf (text : List Char) (leaf : Leaf) : Prop :=
  ∃ c more, text = c :: more ∧ BeginsLeaf c ∧
    ∀ rest, Ahead (isNameChar · = false) rest → readLeaf? c (more ++ rest) = some (leaf, rest)

theorem BeginsLeaf.ne {c d : Char} (begins : BeginsLeaf c) (quote : d ≠ '\'') (bracket : d ≠ '[')
    (dot : d ≠ '.') (noName : isNameChar d = false) : c ≠ d := by
  rintro rfl
  rcases begins with same | same | same | isName
  · exact quote same
  · exact bracket same
  · exact dot same
  · rw [noName] at isName
    cases isName

theorem BeginsLeaf.isBlank_eq_false {c : Char} (begins : BeginsLeaf c) : isBlank c = false := by
  rcases begins with rfl | rfl | rfl | isName
  · rfl
  · rfl
  · rfl
  · exact Text.isBlank_eq_false isName

variable {text : List Char}

theorem readsLeaf_any : ReadsLeaf ['.'] .any :=
  ⟨'.', [], rfl, .inr (.inr (.inl rfl)), fun _ _ => rfl⟩

theorem readsLeaf_literal (passes : Passes '\'' text) :
    ReadsLeaf ('\'' :: text ++ ['\'']) (.literal (String.ofList text)) := by
  refine ⟨'\'', text ++ ['\''], rfl, .inl rfl, fun rest _ => ?_⟩
  rw [readLeaf?, if_pos rfl, List.append_assoc, List.singleton_append, passes.delimited?_append]
  rfl

theorem readsLeaf_charClass (passes : Passes ']' text) :
    ReadsLeaf ('[' :: text ++ [']']) (.charClass (String.ofList text)) := by
  refine ⟨'[', text ++ [']'], rfl, .inr (.inl rfl), fun rest _ => ?_⟩
  rw [readLeaf?, if_neg (by decide), if_pos rfl, List.append_assoc, List.singleton_append,
    passes.delimited?_append]
  rfl

/-- A name is read up to its end. -/
theorem readsLeaf_name (isName : IsName text) : ReadsLeaf text (.name (String.ofList text)) := by
  obtain ⟨c, more, rfl, first, others⟩ := isName.exists_cons
  have begins : BeginsLeaf c := .inr (.inr (.inr first))
  have differs : ∀ d, isNameChar d = false → c ≠ d := by
    rintro d other rfl
    rw [other] at first
    cases first
  refine ⟨c, more, rfl, begins, fun rest ends => ?_⟩
  have notParen : ¬(c = '(' ∧ (more ++ rest).head? = some ')') := fun both =>
    differs '(' rfl both.1
  rw [readLeaf?, if_neg (differs '\'' rfl), if_neg (differs '[' rfl), if_neg (differs '.' rfl),
    if_neg notParen, if_pos first, Text.takeWhile_append others ends,
    Text.dropWhile_append others ends]

end LineNotation

namespace Atom

open LineNotation

/-- The atom is printed as a leaf of the line notation: it matches any character, a text, one character
out of a proper set, or what a rule with a plain name matches. -/
inductive IsLeaf : Atom → Prop
  | any : IsLeaf .any
  | literal (text : String) : IsLeaf (.literal text)
  | set {chars ranges : String} (isClass : CharClass.IsClass chars ranges) :
    IsLeaf (.set chars ranges)
  | ref {target : Reference} (isName : LineNotation.isName target.name.toList = true) :
    IsLeaf (.ref target)

/-- A printed atom is read as a leaf that stands for it. -/
theorem IsLeaf.exists_readsLeaf {a : Atom} (isLeaf : a.IsLeaf) :
    ∃ leaf : Draft.Leaf, leaf.IsSound ∧ leaf.expr = (Expr.atom a).unplaced ∧
      ReadsLeaf (Expr.displayAtom a) leaf := by
  cases isLeaf with
  | any => exact ⟨.any, nofun, rfl, readsLeaf_any⟩
  | literal text =>
      have passes : Passes '\'' (Escape.encode ['\''] text.toList) :=
        .encode (by decide) (by decide) rfl text.toList
      have value : Escape.decode (String.ofList (Escape.encode ['\''] text.toList)) = text := by
        rw [Escape.decode, String.toList_ofList, Escape.decodeAll_encode Escape.isPlain_quote,
          String.ofList_toList]
      exact ⟨.literal _, nofun, congrArg Expr.literal value, readsLeaf_literal passes⟩
  | @set chars ranges isClass =>
      have passes := Passes.displaySetBody chars.toList ranges.toList
      exact ⟨.charClass _, nofun, CharClass.read_displaySetBody isClass, readsLeaf_charClass passes⟩
  | @ref target isName =>
      have name := String.ofList_toList (s := target.name)
      exact ⟨.name _, nofun, congrArg (fun text => Expr.ref (.named text)) name,
        readsLeaf_name (Text.isName_iff.mp isName)⟩

end Atom

end Peg
