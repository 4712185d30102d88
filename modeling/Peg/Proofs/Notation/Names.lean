import Mathlib.Data.List.Basic
import Mathlib.Data.List.TakeWhile
import Peg.LineNotation

/-!
# Names and blanks

How a name ends, and what is left of a text whose blanks are cut off.

* `Text.Ahead`: what the first character of a text, if there is one, satisfies.
* `Text.IsName`: a text that names something; it is read up to the first character of another kind.
* `Text.isBlank_eq_false`: no character of a name is blank.
* `Text.trim_eq_self`: a text without blanks at its ends is left as it is, and `Text.ahead_trim` and
  `Text.ahead_reverse_trim` say that a trimmed text is one.
* `Text.trimEnd_append`, `Text.trim_trimEnd`: what is left of a text when only its end is trimmed.
-/

namespace Peg.Text

variable {c : Char} {text name rest : List Char}

/-! ## What comes next -/

/-- The first character of the text satisfies `P`, unless the text is empty. -/
def Ahead (P : Char → Prop) (text : List Char) : Prop :=
  ∀ c ∈ text.head?, P c

namespace Ahead

variable {P Q : Char → Prop}

theorem nil : Ahead P [] := nofun

theorem cons (holds : P c) : Ahead P (c :: text) := by
  intro first same
  rwa [← Option.some.inj same]

theorem head (ahead : Ahead P (c :: text)) : P c :=
  ahead c rfl

theorem imp (weaker : ∀ c, P c → Q c) (ahead : Ahead P text) : Ahead Q text :=
  fun c first => weaker c (ahead c first)

/-- What is ahead in a text that is not empty does not depend on what follows. -/
theorem append (nonempty : text ≠ []) (ahead : Ahead P text) : Ahead P (text ++ rest) := by
  obtain ⟨c, more, rfl⟩ := List.exists_cons_of_ne_nil nonempty
  exact cons ahead.head

theorem of_isPrefix {whole : List Char} (ahead : Ahead P whole) (isPrefix : text <+: whole) :
    Ahead P text := by
  obtain ⟨rest, rfl⟩ := isPrefix
  cases text with
  | nil => exact nil
  | cons c text => exact cons ahead.head

end Ahead

/-! ## Names -/

/-- The text is not empty and made of the characters of names. -/
def IsName (text : List Char) : Prop :=
  text ≠ [] ∧ ∀ c ∈ text, isNameChar c = true

theorem isName_iff : LineNotation.isName text = true ↔ IsName text := by
  simp [LineNotation.isName, IsName]

instance (text : List Char) : Decidable (IsName text) :=
  decidable_of_iff (LineNotation.isName text = true) isName_iff

theorem IsName.exists_cons (isName : IsName text) :
    ∃ c more, text = c :: more ∧ isNameChar c = true ∧ ∀ d ∈ more, isNameChar d = true := by
  obtain ⟨nonempty, all⟩ := isName
  obtain ⟨c, more, rfl⟩ := List.exists_cons_of_ne_nil nonempty
  exact ⟨c, more, rfl, all c List.mem_cons_self, fun d member => all d (List.mem_cons_of_mem c member)⟩

theorem takeWhile_of_ahead {p : Char → Bool} (ahead : Ahead (p · = false) rest) :
    rest.takeWhile p = [] := by
  cases rest with
  | nil => rfl
  | cons c rest => rw [List.takeWhile_cons, ahead.head, if_neg Bool.false_ne_true]

theorem dropWhile_of_ahead {p : Char → Bool} (ahead : Ahead (p · = false) rest) :
    rest.dropWhile p = rest := by
  cases rest with
  | nil => rfl
  | cons c rest => rw [List.dropWhile_cons, ahead.head, if_neg Bool.false_ne_true]

theorem ahead_dropWhile (p : Char → Bool) (text : List Char) :
    Ahead (p · = false) (text.dropWhile p) := by
  induction text with
  | nil => exact .nil
  | cons c text ih =>
      rw [List.dropWhile_cons]
      split
      · exact ih
      · next rejected => exact .cons (Bool.eq_false_iff.mpr rejected)

/-- A run of accepted characters is taken up to the first that is not accepted. -/
theorem takeWhile_append {p : Char → Bool} (all : ∀ c ∈ text, p c = true)
    (ahead : Ahead (p · = false) rest) : (text ++ rest).takeWhile p = text := by
  rw [List.takeWhile_append_of_pos all, takeWhile_of_ahead ahead, List.append_nil]

theorem dropWhile_append {p : Char → Bool} (all : ∀ c ∈ text, p c = true)
    (ahead : Ahead (p · = false) rest) : (text ++ rest).dropWhile p = rest := by
  rw [List.dropWhile_append_of_pos all, dropWhile_of_ahead ahead]

/-! ## Blanks -/

/-- The blank characters by their code points. -/
def blankCodes : List Nat :=
  [0x09, 0x0a, 0x0b, 0x0c, 0x0d, 0x20, 0x85, 0xa0, 0x1680, 0x2000, 0x2001, 0x2002, 0x2003, 0x2004,
    0x2005, 0x2006, 0x2007, 0x2008, 0x2009, 0x200a, 0x2028, 0x2029, 0x202f, 0x205f, 0x3000]

theorem toNat_mem_blankCodes (blank : isBlank c = true) : c.toNat ∈ blankCodes := by
  simp only [isBlank, Bool.or_eq_true, Bool.and_eq_true, decide_eq_true_eq, beq_iff_eq] at blank
  simp only [blankCodes, List.mem_cons, List.not_mem_nil, or_false]
  omega

/-- No character of a name is blank. -/
theorem isBlank_eq_false (isName : isNameChar c = true) : isBlank c = false := by
  -- The letters are a long table and the blanks a short one, so every blank is looked up in the first.
  have disjoint : ∀ code ∈ blankCodes, isNameChar (Char.ofNat code) = false := by decide +kernel
  cases blank : isBlank c with
  | false => rfl
  | true =>
      have no := disjoint c.toNat (toNat_mem_blankCodes blank)
      rw [Char.ofNat_toNat, isName] at no
      cases no

theorem isNameChar_eq_false (blank : isBlank c = true) : isNameChar c = false := by
  cases isName : isNameChar c with
  | false => rfl
  | true =>
      rw [isBlank_eq_false isName] at blank
      cases blank

theorem trimStart_of_ahead (ahead : Ahead (isBlank · = false) text) : trimStart text = text :=
  dropWhile_of_ahead ahead

/-- A text without blanks at its ends is left as it is. -/
theorem trim_eq_self (first : Ahead (isBlank · = false) text)
    (last : Ahead (isBlank · = false) text.reverse) : trim text = text := by
  have unchanged : trimEnd text = text := by
    rw [trimEnd, dropWhile_of_ahead last, List.reverse_reverse]
  rw [trim, trimStart_of_ahead first, unchanged]

theorem trimEnd_isPrefix (text : List Char) : trimEnd text <+: text := by
  have suffix := List.dropWhile_suffix (l := text.reverse) isBlank
  rw [trimEnd, ← List.reverse_suffix, List.reverse_reverse]
  exact suffix

/-- What is left of a trimmed text is part of it. -/
theorem trim_infix (text : List Char) : trim text <:+: text :=
  (trimEnd_isPrefix _).isInfix.trans (List.dropWhile_suffix _).isInfix

/-- A trimmed text does not begin with a blank. -/
theorem ahead_trim (text : List Char) : Ahead (isBlank · = false) (trim text) :=
  (ahead_dropWhile isBlank text).of_isPrefix (trimEnd_isPrefix _)

/-- A trimmed text does not end with a blank. -/
theorem ahead_reverse_trim (text : List Char) : Ahead (isBlank · = false) (trim text).reverse := by
  rw [trim, trimEnd, List.reverse_reverse]
  exact ahead_dropWhile isBlank _

theorem trim_trim (text : List Char) : trim (trim text) = trim text :=
  trim_eq_self (ahead_trim text) (ahead_reverse_trim text)

theorem trim_blank_cons (blank : isBlank c = true) (text : List Char) :
    trim (c :: text) = trim text := by
  rw [trim, trim, trimStart, List.dropWhile_cons_of_pos blank, trimStart]

/-- Blanks at the end of a text are cut off. -/
theorem trim_append_blanks (blanks : ∀ c ∈ rest, isBlank c = true) : trim (text ++ rest) = trim text := by
  have ends (front : List Char) : trimEnd (front ++ rest) = trimEnd front := by
    have reversed : ∀ c ∈ rest.reverse, isBlank c = true :=
      fun c member => blanks c (List.mem_reverse.mp member)
    rw [trimEnd, List.reverse_append, List.dropWhile_append_of_pos reversed, trimEnd]
  rw [trim, trim, trimStart, trimStart, List.dropWhile_append]
  split
  · next empty =>
    rw [List.dropWhile_eq_nil_iff.mpr blanks, List.isEmpty_iff.mp empty]
  · exact ends _

/-- What is cut off at the end of a text is blank. -/
theorem exists_eq_trimEnd_append (text : List Char) :
    ∃ rest, text = trimEnd text ++ rest ∧ ∀ c ∈ rest, isBlank c = true := by
  refine ⟨(text.reverse.takeWhile isBlank).reverse, ?_, fun c member => ?_⟩
  · rw [trimEnd, ← List.reverse_append, List.takeWhile_append_dropWhile, List.reverse_reverse]
  · exact List.mem_takeWhile_imp (List.mem_reverse.mp member)

theorem trim_trimEnd (text : List Char) : trim (trimEnd text) = trim text := by
  obtain ⟨rest, whole, blanks⟩ := exists_eq_trimEnd_append text
  have trimmed := @trim_append_blanks (trimEnd text) rest blanks
  rw [← whole] at trimmed
  exact trimmed.symm

/-- A text that does not end with a blank stays whole, whatever is cut off behind it. -/
theorem trimEnd_append (last : Ahead (isBlank · = false) text.reverse) (rest : List Char) :
    trimEnd (text ++ rest) = text ++ trimEnd rest := by
  have solid : text.reverse.dropWhile isBlank = text.reverse := dropWhile_of_ahead last
  rw [trimEnd, List.reverse_append, List.dropWhile_append, trimEnd]
  split
  · next empty =>
    rw [List.isEmpty_iff.mp empty, solid, List.reverse_reverse, List.reverse_nil, List.append_nil]
  · rw [List.reverse_append, List.reverse_reverse]

/-- A text that does not begin with a blank begins as before when it is trimmed. -/
theorem trim_cons_of_solid (solid : isBlank c = false) (text : List Char) :
    trim (c :: text) = c :: trimEnd text := by
  have first : Ahead (isBlank · = false) [c].reverse := .cons solid
  rw [trim, trimStart_of_ahead (.cons solid)]
  exact trimEnd_append first text

theorem IsName.ahead (isName : IsName text) : Ahead (isBlank · = false) text := by
  intro c first
  exact isBlank_eq_false (isName.2 c (List.mem_of_mem_head? first))

theorem IsName.reverse (isName : IsName text) : IsName text.reverse := by
  obtain ⟨nonempty, all⟩ := isName
  exact ⟨fun none => nonempty (List.reverse_eq_nil_iff.mp none),
    fun c member => all c (List.mem_reverse.mp member)⟩

theorem IsName.trim_eq_self (isName : IsName text) : trim text = text :=
  Text.trim_eq_self isName.ahead isName.reverse.ahead

end Peg.Text
