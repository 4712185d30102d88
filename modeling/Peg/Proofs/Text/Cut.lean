import Mathlib.Data.String.Basic
import Peg.Text.Span

/-!
# Cutting a text by a span

A span counts bytes and a text is made of characters: something is cut out only if both ends of the
span stand between two characters.

* `splitBytes?`: a text in two parts, the first of a given number of bytes.
* `Span.cut?`: what a span cuts out of a text.
* `Span.Covers`: the span covers a part of the text, with something before and something behind it.
* `Span.Covers.cut?_eq`: a covered part is what is cut out.
-/

namespace Peg.Text

/-! ## Cutting -/

/-- The two parts of a text, the first of `size` bytes. There are none if the cut would go through a
character or behind the end. -/
def splitBytes? (size : Nat) : List Char → Option (List Char × List Char)
  | [] => if size = 0 then some ([], []) else none
  | c :: text =>
    if size = 0 then some ([], c :: text)
    else if c.utf8Size ≤ size then
      (splitBytes? (size - c.utf8Size) text).map fun (front, rest) => (c :: front, rest)
    else none

/-- What a span cuts out of a text, if it runs forward and both its ends stand between characters. -/
def Span.cut? (span : Span) (text : String) : Option String :=
  if span.start ≤ span.stop then
    (splitBytes? span.start text.toList).bind fun (_, behind) =>
      (splitBytes? (span.stop - span.start) behind).map fun (part, _) => String.ofList part
  else none

theorem splitBytes?_append (front rest : List Char) :
    splitBytes? (String.utf8Len front) (front ++ rest) = some (front, rest) := by
  induction front with
  | nil =>
      cases rest with
      | nil => rfl
      | cons c rest => exact if_pos rfl
  | cons c front ih =>
      have nonempty : String.utf8Len (c :: front) ≠ 0 := by
        have positive := c.utf8Size_pos
        rw [String.utf8Len_cons]
        omega
      rw [List.cons_append, splitBytes?, if_neg nonempty, String.utf8Len_cons,
        if_pos (Nat.le_add_left _ _), Nat.add_sub_cancel, ih]
      rfl

/-- A text that is cut is the two parts together, and the first is as long as it was asked for. -/
theorem splitBytes?_eq_some {size : Nat} {text front rest : List Char}
    (cut : splitBytes? size text = some (front, rest)) :
    text = front ++ rest ∧ String.utf8Len front = size := by
  induction text generalizing size front with
  | nil =>
      rw [splitBytes?] at cut
      split at cut
      · next empty =>
        cases cut
        exact ⟨rfl, empty.symm⟩
      · cases cut
  | cons c text ih =>
      rw [splitBytes?] at cut
      split at cut
      · next empty =>
        cases cut
        exact ⟨rfl, empty.symm⟩
      split at cut
      · next fits =>
        obtain ⟨⟨others, after⟩, inner, eq⟩ := Option.map_eq_some_iff.mp cut
        cases eq
        obtain ⟨rfl, size⟩ := ih inner
        refine ⟨rfl, ?_⟩
        rw [String.utf8Len_cons, size, Nat.sub_add_cancel fits]
      · cases cut

/-- A text in two parts, the first of as many bytes as it has. -/
theorem splitBytes?_toList (front rest : String) :
    splitBytes? front.utf8ByteSize (front ++ rest).toList = some (front.toList, rest.toList) := by
  rw [String.toList_append, ← String.utf8Len_toList]
  exact splitBytes?_append _ _

/-! ## Covered parts -/

/-- The span covers `part` in the text: it begins behind what stands before `part` and is as long as
`part`. -/
def Span.Covers (span : Span) (text part : String) : Prop :=
  ∃ before behind, text = before ++ part ++ behind ∧ span = .ofText before.utf8ByteSize part

namespace Span.Covers

variable {text part first second : String} {span : Span}

/-- The whole text is covered from its beginning. -/
theorem whole (text : String) : (Span.ofText 0 text).Covers text text :=
  ⟨"", "", by rw [String.empty_append, String.append_empty], rfl⟩

/-- The first of two parts that are covered together is covered. -/
theorem left (covers : span.Covers text (first ++ second)) :
    (Span.ofText span.start first).Covers text first := by
  obtain ⟨before, behind, rfl, rfl⟩ := covers
  exact ⟨before, second ++ behind, by simp only [String.append_assoc], rfl⟩

/-- The second of two parts that are covered together is covered. -/
theorem right (covers : span.Covers text (first ++ second)) :
    (Span.ofText (span.start + first.utf8ByteSize) second).Covers text second := by
  obtain ⟨before, behind, rfl, rfl⟩ := covers
  refine ⟨before ++ first, behind, by simp only [String.append_assoc], ?_⟩
  rw [String.utf8ByteSize_append]
  rfl

/-- A covered part is what the span cuts out of the text. -/
theorem cut?_eq (covers : span.Covers text part) : span.cut? text = some part := by
  obtain ⟨before, behind, rfl, rfl⟩ := covers
  have forward : before.utf8ByteSize ≤ before.utf8ByteSize + part.utf8ByteSize :=
    Nat.le_add_right _ _
  rw [cut?, ofText, if_pos forward, Nat.add_sub_cancel_left, String.append_assoc,
    splitBytes?_toList, Option.bind_some]
  show (splitBytes? part.utf8ByteSize (part ++ behind).toList).map _ = _
  rw [splitBytes?_toList]
  exact congrArg some String.ofList_toList

end Span.Covers

end Peg.Text
