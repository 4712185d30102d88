import Peg.Proofs.Compile.NormalForm

/-!
# Printed sets are read again

What is printed behind escapes decodes to itself, whatever is escaped on top of the control characters. A
set that is printed and read again is the same set, unless it has half a range or is written with fewer
means: nothing at all, or one character alone. No class is read as such a set.

* `Escape.decode_encode`: every printed text decodes to itself.
* `CharClass.read_displaySetBody_iff`: the sets that are read again.
* `CharClass.read_display`: what is printed between brackets, and which sets it is read as.
-/

namespace Peg

/-! ## Texts -/

namespace Escape

/-- The characters that are escaped in some printed text. -/
def delimiters : List Char := ['\'', ']', '-']

/-- No delimiter is a letter that an escape begins with. -/
theorem isPlain_of_subset {special : List Char} (subset : special ⊆ delimiters) : IsPlain special := by
  have plain : IsPlain delimiters := by
    rw [delimiters]
    exact List.forall_mem_cons.mpr ⟨⟨rfl, rfl⟩, isPlain_set⟩
  exact fun c member => plain c (subset member)

theorem decode_encode {special : List Char} (subset : special ⊆ delimiters) (text : String) :
    decode (String.ofList (encode special text.toList)) = text := by
  rw [decode, String.toList_ofList, decodeAll_encode (isPlain_of_subset subset), String.ofList_toList]

end Escape

/-! ## Sets -/

namespace CharClass

variable {chars ranges : String}

theorem display_set (chars ranges : String) :
    (Expr.set chars ranges).display =
      "[" ++ String.ofList (Expr.displaySetBody chars.toList ranges.toList) ++ "]" := by
  rw [← String.toList_inj]
  simp only [String.toList_append, String.toList_ofList, Expr.display]
  rfl

/-- A printed set is read again if a class can be read as such a set at all. -/
theorem read_displaySetBody_iff :
    read (String.ofList (Expr.displaySetBody chars.toList ranges.toList)) = .set chars ranges ↔
      IsClass chars ranges :=
  ⟨isClass_of_read, read_displaySetBody⟩

theorem isClass_iff :
    IsClass chars ranges ↔
      ranges.toList.length % 2 = 0 ∧ (2 ≤ chars.toList.length ∨ ranges ≠ "") := by
  have nonempty : ranges ≠ "" ↔ 0 < ranges.toList.length := by
    rw [List.length_pos_iff, ne_eq, ne_eq, String.toList_eq_nil_iff]
  rw [IsClass, nonempty]
  omega

/-- **Printed texts are read again.** Whatever delimiters are escaped in it, a text decodes to itself. A
printed set stands between brackets, and what stands there is read as the set exactly if its ranges are
whole and it has two characters or a range; so every set that a class is read as is read again from its
printed form. -/
theorem read_display :
    (∀ special, special ⊆ Escape.delimiters → ∀ text : String,
        Escape.decode (String.ofList (Escape.encode special text.toList)) = text) ∧
      (∀ chars ranges, ∃ body, (Expr.set chars ranges).display = "[" ++ body ++ "]" ∧
        (read body = .set chars ranges ↔
          ranges.toList.length % 2 = 0 ∧ (2 ≤ chars.toList.length ∨ ranges ≠ ""))) ∧
      ∀ token chars ranges, read token = .set chars ranges →
        ∃ body, (Expr.set chars ranges).display = "[" ++ body ++ "]" ∧ read body = .set chars ranges := by
  refine ⟨fun special subset => Escape.decode_encode subset, fun chars ranges => ?_,
    fun token chars ranges same => ?_⟩
  · exact ⟨_, display_set chars ranges, read_displaySetBody_iff.trans isClass_iff⟩
  · exact ⟨_, display_set chars ranges, read_displaySetBody (isClass_of_read same)⟩

/-- A control character before letters that look like digits, a dash and a bracket as bounds, and single
characters that could be taken for the low bound of the range. -/
theorem read_display_lookalike :
    (Expr.set "\x07fa-" "-]").display = "[\\x07fa\\-\\--\\]]" ∧
      read "\\x07fa\\-\\--\\]" = .set "\x07fa-" "-]" := by
  have printed : (Expr.set "\x07fa-" "-]").display = "[" ++ "\\x07fa\\-\\--\\]" ++ "]" := by
    decide
  obtain ⟨-, rebuilt, -⟩ := read_display
  obtain ⟨body, display, again⟩ := rebuilt "\x07fa-" "-]"
  rw [printed, String.append_left_inj, String.append_right_inj] at display
  exact ⟨printed, display ▸ again.mpr ⟨by decide, by decide⟩⟩

end CharClass

end Peg
