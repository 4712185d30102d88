import Mathlib.Data.List.Basic
import Peg.Text.Split

/-!
# Where a pattern occurs

Cutting a text in two looks at one occurrence of the pattern only, the first.

* `Text.OccursAt`: the pattern stands at a position of the text.
* `Text.infix_iff_exists_occursAt`: it occurs somewhere exactly if it is part of the text.
* `Text.eq_of_splitOnce?`: a text that is cut is made of its two sides and the pattern.
* `Text.occursAt_of_splitOnce?`, `Text.not_occursAt_of_splitOnce?`, `Text.splitOnce?_eq_none_iff`: a text
  is cut where the pattern occurs first, and not at all if it occurs nowhere.
* `Text.exists_splitOnce?_iff`: something stands before the cut exactly if the pattern occurs, but not at
  the start.
-/

namespace Peg.Text

variable {pattern text before after : List Char} {position : Nat}

/-! ## Positions -/

/-- The pattern stands in the text behind the given number of characters. -/
def OccursAt (pattern : List Char) (position : Nat) (text : List Char) : Prop :=
  pattern <+: text.drop position

instance (pattern : List Char) (position : Nat) (text : List Char) :
    Decidable (OccursAt pattern position text) :=
  inferInstanceAs (Decidable (pattern <+: text.drop position))

theorem infix_iff_exists_occursAt : pattern <:+: text ↔ ∃ position, OccursAt pattern position text := by
  constructor
  · rintro ⟨before, after, rfl⟩
    refine ⟨before.length, after, ?_⟩
    rw [List.append_assoc, List.drop_left]
  · rintro ⟨position, occurs⟩
    exact occurs.isInfix.trans (List.drop_suffix position text).isInfix

theorem isPrefixOf?_eq_none_iff : pattern.isPrefixOf? text = none ↔ ¬pattern <+: text := by
  rw [← Option.not_isSome_iff_eq_none, List.isSome_isPrefixOf?_eq_isPrefixOf,
    List.isPrefixOf_iff_prefix]

/-! ## Cutting in two -/

/-- A text is cut at a pattern whose first character does not stand before it. -/
theorem splitOnce?_append {first : Char} (absent : first ∉ before) (pattern after : List Char) :
    splitOnce? (first :: pattern) (before ++ (first :: pattern ++ after)) = some (before, after) := by
  induction before with
  | nil =>
      have found : (first :: pattern).isPrefixOf? (first :: (pattern ++ after)) = some after :=
        List.isPrefixOf?_eq_some_iff_append_eq.mpr rfl
      rw [List.nil_append, List.cons_append, splitOnce?, found]
  | cons c before ih =>
      rw [List.mem_cons, not_or] at absent
      have differs : (first :: pattern).isPrefixOf? (c :: (before ++ (first :: pattern ++ after))) =
          none := by
        rw [List.isPrefixOf?, if_neg (by simpa using absent.1)]
      rw [List.cons_append, splitOnce?, differs, ih absent.2]
      rfl

/-- A text that is cut is made of the two sides and the pattern between them. -/
theorem eq_of_splitOnce? (split : splitOnce? pattern text = some (before, after)) :
    text = before ++ (pattern ++ after) := by
  induction text generalizing before with
  | nil =>
      rw [splitOnce?] at split
      split at split
      · next none =>
        cases split
        rw [none]
        rfl
      · cases split
  | cons c text ih =>
      rw [splitOnce?] at split
      split at split
      · next rest found =>
        cases split
        exact (List.isPrefixOf?_eq_some_iff_append_eq.mp found).symm
      · obtain ⟨⟨inner, _⟩, cut, same⟩ := Option.map_eq_some_iff.mp split
        cases same
        rw [ih cut]
        rfl

/-- A text is not cut exactly if the pattern occurs nowhere. -/
theorem splitOnce?_eq_none_iff :
    splitOnce? pattern text = none ↔ ∀ position, ¬OccursAt pattern position text := by
  rw [← not_exists, ← infix_iff_exists_occursAt]
  induction text with
  | nil =>
      rw [splitOnce?, List.infix_nil]
      split
      · next empty => exact ⟨nofun, fun absent => absurd empty absent⟩
      · next nonempty => exact ⟨fun _ => nonempty, fun _ => rfl⟩
  | cons c text ih =>
      rw [splitOnce?, List.infix_cons_iff, not_or, ← ih]
      cases found : pattern.isPrefixOf? (c :: text) with
      | some after =>
          have first : pattern <+: c :: text :=
            ⟨after, List.isPrefixOf?_eq_some_iff_append_eq.mp found⟩
          exact ⟨nofun, fun absent => absurd first absent.1⟩
      | none =>
          rw [Option.map_eq_none_iff]
          exact ⟨fun absent => ⟨isPrefixOf?_eq_none_iff.mp found, absent⟩, And.right⟩

/-- A text is cut where the pattern occurs. -/
theorem occursAt_of_splitOnce? (split : splitOnce? pattern text = some (before, after)) :
    OccursAt pattern before.length text := by
  rw [eq_of_splitOnce? split, OccursAt, List.drop_left]
  exact List.prefix_append pattern after

/-- The pattern does not occur in front of the cut. -/
theorem not_occursAt_of_splitOnce? (split : splitOnce? pattern text = some (before, after))
    (earlier : position < before.length) : ¬OccursAt pattern position text := by
  induction text generalizing before position with
  | nil =>
      rw [splitOnce?] at split
      split at split
      · cases split
        exact absurd earlier (Nat.not_lt_zero _)
      · cases split
  | cons c text ih =>
      rw [splitOnce?] at split
      split at split
      · cases split
        exact absurd earlier (Nat.not_lt_zero _)
      · next notFirst =>
        obtain ⟨⟨inner, _⟩, cut, same⟩ := Option.map_eq_some_iff.mp split
        cases same
        cases position with
        | zero => exact isPrefixOf?_eq_none_iff.mp notFirst
        | succ position => exact ih cut (Nat.lt_of_succ_lt_succ earlier)

/-- A text is cut behind something exactly if the pattern occurs in it, but not at the start. -/
theorem exists_splitOnce?_iff :
    (∃ before after, splitOnce? pattern text = some (before, after) ∧ before ≠ []) ↔
      ¬OccursAt pattern 0 text ∧ ∃ position > 0, OccursAt pattern position text := by
  constructor
  · rintro ⟨before, after, split, nonempty⟩
    have behind := List.length_pos_iff.mpr nonempty
    exact ⟨not_occursAt_of_splitOnce? split behind, before.length, behind,
      occursAt_of_splitOnce? split⟩
  · rintro ⟨notFirst, position, -, occurs⟩
    cases split : splitOnce? pattern text with
    | none => exact absurd occurs (splitOnce?_eq_none_iff.mp split position)
    | some parts =>
        refine ⟨parts.1, parts.2, rfl, fun empty => notFirst ?_⟩
        have occurs := occursAt_of_splitOnce? split
        rwa [empty] at occurs

end Peg.Text
