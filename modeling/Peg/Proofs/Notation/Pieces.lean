import Mathlib.Algebra.GroupWithZero.Nat
import Mathlib.Data.List.Induction
import Peg.Proofs.Notation.Escape

/-!
# The pieces of an escaped text

An escaped text is a run of pieces: plain characters, and escapes that begin with a backslash. What a
piece is depends on what stands behind it only where digits could follow or where the text ends, so there
is one way to take a text apart. It is decoded piece by piece, and a text may be cut anywhere but inside
an escape that could go on.

* `Piece`, `Piece.FitsBefore`: the forms of a piece, and when a piece is read in front of a text.
* `decodeOne_chars`: decoding takes one piece.
* `exists_fitting`, `Fitting.unique`: every text is made of pieces in one way.
* `Fitting.decodeAll_eq`: the values of the pieces are what a text decodes to.
* `decodeAll_append`: texts are decoded one after the other unless the first ends in an unfinished
  escape.
-/

namespace Peg.Escape

/-! ## Digits -/

/-- What holds of every ASCII character, tried one by one. -/
theorem forall_ascii {P : Char → Prop} (all : ∀ code < 128, P (Char.ofNat code)) {c : Char}
    (ascii : c.toNat < 128) : P c := by
  have here := all c.toNat ascii
  rwa [Char.ofNat_toNat] at here

/-- The value of a hexadecimal digit. -/
def digitValue (digit : Char) : Nat :=
  "0123456789abcdef".toList.idxOf digit.toLower

/-- The number that hexadecimal digits write. -/
def number (digits : List Char) : Nat :=
  digits.foldl (fun code digit => 16 * code + digitValue digit) 0

section Digits

variable {c : Char} {digits rest : List Char} {code count value : Nat} {text : List Char}

theorem isHexDigit_iff :
    c.isHexDigit = true ↔ '0' ≤ c ∧ c ≤ '9' ∨ 'a' ≤ c ∧ c ≤ 'f' ∨ 'A' ≤ c ∧ c ≤ 'F' := by
  simp only [Char.isHexDigit, Char.isDigit, Char.le_def, Bool.or_eq_true, Bool.and_eq_true,
    decide_eq_true_iff, ge_iff_le, or_assoc]

theorem toNat_lt_of_isHexDigit (hex : c.isHexDigit = true) : c.toNat < 128 := by
  have below : ∀ {bound : Char}, bound.toNat < 128 → c ≤ bound → c.toNat < 128 :=
    fun small le => Nat.lt_of_le_of_lt (UInt32.le_iff_toNat_le.mp (Char.le_def.mp le)) small
  rcases isHexDigit_iff.mp hex with range | range | range
  · exact below (by decide) range.2
  · exact below (by decide) range.2
  · exact below (by decide) range.2

theorem hexDigit?_of_isHexDigit (hex : c.isHexDigit = true) :
    hexDigit? c = some (digitValue c) ∧ digitValue c < 16 := by
  exact forall_ascii (P := fun c => c.isHexDigit = true →
    hexDigit? c = some (digitValue c) ∧ digitValue c < 16) (by decide) (toNat_lt_of_isHexDigit hex) hex

theorem isHexDigit_of_hexDigit? {digit : Nat} (read : hexDigit? c = some digit) :
    c.isHexDigit = true := by
  rw [isHexDigit_iff]
  unfold hexDigit? at read
  split at read
  · next range => exact Or.inl range
  split at read
  · next range => exact Or.inr (Or.inl range)
  split at read
  · next range => exact Or.inr (Or.inr range)
  · cases read

/-- Digits are read as the number that they continue. -/
theorem hexCodeFrom?_append (hex : ∀ digit ∈ digits, digit.isHexDigit = true) (rest : List Char) :
    hexCodeFrom? code digits.length (digits ++ rest) =
      some (digits.foldl (fun code digit => 16 * code + digitValue digit) code, rest) := by
  induction digits generalizing code with
  | nil => rfl
  | cons digit digits ih =>
      obtain ⟨first, others⟩ := List.forall_mem_cons.mp hex
      rw [List.cons_append, List.length_cons, hexCodeFrom?, (hexDigit?_of_isHexDigit first).1,
        List.foldl_cons]
      exact ih others

theorem hexCode?_append (hex : ∀ digit ∈ digits, digit.isHexDigit = true) (rest : List Char) :
    hexCode? digits.length (digits ++ rest) = some (number digits, rest) :=
  hexCodeFrom?_append hex rest

/-- What is read as a number begins with as many digits as were asked for. -/
theorem exists_digits_of_hexCodeFrom? (read : hexCodeFrom? code count text = some (value, rest)) :
    ∃ digits, text = digits ++ rest ∧ digits.length = count ∧
      ∀ digit ∈ digits, digit.isHexDigit = true := by
  induction count generalizing code text with
  | zero =>
      cases read
      exact ⟨[], rfl, rfl, nofun⟩
  | succ count ih =>
      cases text with
      | nil => cases read
      | cons c text =>
          rw [hexCodeFrom?] at read
          split at read
          · next first =>
            obtain ⟨digits, rfl, rfl, hex⟩ := ih read
            exact ⟨c :: digits, rfl, rfl,
              List.forall_mem_cons.mpr ⟨isHexDigit_of_hexDigit? first, hex⟩⟩
          · cases read

theorem number_lt (hex : ∀ digit ∈ digits, digit.isHexDigit = true) :
    number digits < 16 ^ digits.length := by
  induction digits using List.reverseRecOn with
  | nil => exact Nat.one_pos
  | append_singleton digits digit ih =>
      obtain ⟨others, last⟩ := List.forall_mem_append.mp hex
      have front := ih others
      have small := (hexDigit?_of_isHexDigit (last digit (List.mem_singleton_self digit))).2
      rw [number, List.foldl_append, List.length_append, List.length_singleton, Nat.pow_succ]
      show 16 * number digits + digitValue digit < _
      omega

end Digits

/-! ## Pieces -/

/-- A piece of an escaped text, as it is written. -/
inductive Piece where
  /-- A character that is no backslash. -/
  | plain (c : Char)
  /-- A backslash and the letter of a control character. -/
  | control (letter : Char)
  /-- A backslash, a letter that asks for digits, and the digits. -/
  | code (letter : Char) (digits : List Char)
  /-- A backslash and any other character. -/
  | escaped (c : Char)
  /-- A backslash at the end of the text. -/
  | backslash
deriving DecidableEq, Repr

/-- The letters of the control characters, and the characters. -/
def controls : List (Char × Char) :=
  [('n', '\n'), ('t', '\t'), ('r', '\r'), ('v', '\x0b'), ('f', '\x0c'), ('b', '\x08')]

def controlLetters : List Char :=
  controls.map Prod.fst

/-- The code points that are no characters. -/
def IsSurrogate (code : Nat) : Prop :=
  0xd800 ≤ code ∧ code ≤ 0xdfff

instance (code : Nat) : Decidable (IsSurrogate code) :=
  inferInstanceAs (Decidable (_ ∧ _))

/-- The letter asks for a number of hexadecimal digits. -/
def Asks (letter : Char) (count : Nat) : Prop :=
  letter ∈ ['x', 'X'] ∧ count = 2 ∨ letter ∈ ['u', 'U'] ∧ count = 4

/-- The digits are those that the letter asks for. -/
structure IsCode (letter : Char) (digits : List Char) : Prop where
  asked : Asks letter digits.length
  hex : ∀ digit ∈ digits, digit.isHexDigit = true

namespace Piece

def chars : Piece → List Char
  | plain c => [c]
  | control letter => ['\\', letter]
  | code letter digits => '\\' :: letter :: digits
  | escaped c => ['\\', c]
  | backslash => ['\\']

/-- The character that a piece stands for. -/
def value : Piece → Option Char
  | plain c => some c
  | control letter => controls.lookup letter
  | code _ digits => if IsSurrogate (number digits) then none else some (Char.ofNat (number digits))
  | escaped c => some c
  | backslash => some '\\'

/-- The piece is what is read in front of `rest`: a letter stands for itself only if it has no other
meaning, and if the digits that it asks for do not follow; a backslash only at the end. -/
def FitsBefore (rest : List Char) : Piece → Prop
  | plain c => c ≠ '\\'
  | control letter => letter ∈ controlLetters
  | code letter digits => IsCode letter digits
  | escaped c => c ∉ controlLetters ∧ ∀ digits, IsCode c digits → ¬digits <+: rest
  | backslash => rest = []

end Piece

/-- The text that pieces make up. -/
def assemble (pieces : List Piece) : List Char :=
  pieces.flatMap Piece.chars

/-- Every piece is what is read in front of those behind it. -/
inductive Fitting : List Piece → Prop
  | nil : Fitting []
  | cons {piece : Piece} {pieces : List Piece} (fits : piece.FitsBefore (assemble pieces))
    (others : Fitting pieces) : Fitting (piece :: pieces)

section Reading

variable {piece : Piece} {pieces others : List Piece} {rest text digits : List Char} {letter : Char}
  {count : Nat}

theorem control?_eq_none_iff : control? letter = none ↔ letter ∉ controlLetters := by
  unfold control?
  split <;> simp_all [controlLetters, controls]

theorem control?_eq (letter : Char) : control? letter = controls.lookup letter := by
  by_cases named : letter ∈ controlLetters
  · simp only [controlLetters, controls, List.map_cons, List.map_nil, List.mem_cons, List.not_mem_nil,
      or_false] at named
    rcases named with rfl | rfl | rfl | rfl | rfl | rfl
    all_goals rfl
  · have absent : controls.lookup letter = none := by
      rw [List.lookup_eq_none_iff]
      intro entry member
      rw [bne_iff_ne]
      rintro rfl
      exact named (List.mem_map_of_mem member)
    rw [control?_eq_none_iff.mpr named, absent]

/-- Every code of four digits is that of a character, but for the surrogates. -/
theorem charOfCode?_eq {code : Nat} (small : code < 0x10000) :
    charOfCode? code = if IsSurrogate code then none else some (Char.ofNat code) := by
  rw [charOfCode?]
  by_cases surrogate : IsSurrogate code
  · have invalid : ¬code.isValidChar := by
      rw [IsSurrogate] at surrogate
      rw [Nat.isValidChar]
      omega
    rw [dif_neg invalid, if_pos surrogate]
  · have valid : code.isValidChar := by
      rw [IsSurrogate] at surrogate
      rw [Nat.isValidChar]
      omega
    rw [dif_pos valid, if_neg surrogate, Char.ofNat, dif_pos valid]

theorem hexLength?_eq_some_iff : hexLength? letter = some count ↔ Asks letter count := by
  unfold hexLength? Asks
  split <;> simp_all [eq_comm]

/-- A letter that asks for digits names no control character. -/
theorem Asks.control? (asks : Asks letter count) : control? letter = none := by
  simp only [Asks, List.mem_cons, List.not_mem_nil, or_false] at asks
  rcases asks with ⟨rfl | rfl, -⟩ | ⟨rfl | rfl, -⟩
  · rfl
  · rfl
  · rfl
  · rfl

theorem IsCode.number_lt (code : IsCode letter digits) : number digits < 0x10000 := by
  have small := Escape.number_lt code.hex
  rcases code.asked with ⟨-, two⟩ | ⟨-, four⟩
  · rw [two] at small
    omega
  · rwa [four] at small

/-- Decoding takes one piece. -/
theorem decodeOne_chars (fits : piece.FitsBefore rest) :
    decodeOne (piece.chars ++ rest) = (piece.value, rest) := by
  cases piece with
  | plain c => exact decodeOne_of_ne fits rest
  | control letter =>
      show decodeEscape letter rest = (controls.lookup letter, rest)
      rw [← control?_eq, decodeEscape]
      cases named : Escape.control? letter with
      | none => exact absurd fits (control?_eq_none_iff.mp named)
      | some c => rfl
  | code letter digits =>
      show decodeEscape letter (digits ++ rest) = (ite _ none _, rest)
      rw [decodeEscape, fits.asked.control?, hexLength?_eq_some_iff.mpr fits.asked, Option.bind_some,
        hexCode?_append fits.hex, ← charOfCode?_eq fits.number_lt]
  | escaped c =>
      show decodeEscape c rest = (some c, rest)
      obtain ⟨unnamed, short⟩ := fits
      have noCode : (hexLength? c).bind (hexCode? · rest) = none := by
        rw [Option.bind_eq_none_iff]
        intro count asks
        rw [Option.eq_none_iff_forall_ne_some]
        rintro ⟨code, after⟩ read
        obtain ⟨digits, rfl, rfl, hex⟩ := exists_digits_of_hexCodeFrom? read
        exact short digits ⟨hexLength?_eq_some_iff.mp asks, hex⟩ (List.prefix_append digits after)
      rw [decodeEscape, control?_eq_none_iff.mpr unnamed, noCode]
  | backslash =>
      cases fits
      rfl

theorem Piece.chars_ne_nil (piece : Piece) : piece.chars ≠ [] := by
  cases piece with
  | plain | control | code | escaped | backslash => exact List.cons_ne_nil _ _

/-! ## Taking a text apart -/

/-- A text begins with some piece. -/
theorem exists_piece (nonempty : text ≠ []) :
    ∃ (piece : Piece) (rest : List Char), text = piece.chars ++ rest ∧ piece.FitsBefore rest := by
  obtain ⟨first, rest, rfl⟩ := List.exists_cons_of_ne_nil nonempty
  by_cases plain : first = '\\'
  · subst plain
    cases rest with
    | nil => exact ⟨.backslash, [], rfl, rfl⟩
    | cons letter rest =>
        by_cases named : letter ∈ controlLetters
        · exact ⟨.control letter, rest, rfl, named⟩
        by_cases coded : ∃ digits, IsCode letter digits ∧ digits <+: rest
        · obtain ⟨digits, code, after, rfl⟩ := coded
          exact ⟨.code letter digits, after, rfl, code⟩
        · have short : ∀ digits, IsCode letter digits → ¬digits <+: rest :=
            fun digits code follows => coded ⟨digits, code, follows⟩
          exact ⟨.escaped letter, rest, rfl, named, short⟩
  · exact ⟨.plain first, rest, rfl, plain⟩

theorem decodeAll_of_ne_nil (nonempty : text ≠ []) :
    decodeAll text = (decodeOne text).1.toList ++ decodeAll (decodeOne text).2 := by
  obtain ⟨first, rest, rfl⟩ := List.exists_cons_of_ne_nil nonempty
  rw [decodeAll]

theorem exists_fitting (text : List Char) : ∃ pieces, assemble pieces = text ∧ Fitting pieces := by
  fun_induction decodeAll text with
  | case1 => exact ⟨[], rfl, .nil⟩
  | case2 first more ih =>
      obtain ⟨piece, rest, eq, fits⟩ := exists_piece (List.cons_ne_nil first more)
      rw [eq, decodeOne_chars fits] at ih
      obtain ⟨pieces, rfl, others⟩ := ih
      exact ⟨piece :: pieces, eq.symm, .cons fits others⟩

/-- The piece that some characters make up, if they make up one. -/
def pieceOf : List Char → Option Piece
  | ['\\'] => some .backslash
  | ['\\', letter] => some (if letter ∈ controlLetters then .control letter else .escaped letter)
  | '\\' :: letter :: digits => some (.code letter digits)
  | [c] => some (.plain c)
  | _ => none

/-- A piece is told by its characters. -/
theorem pieceOf_chars (fits : piece.FitsBefore rest) : pieceOf piece.chars = some piece := by
  cases piece with
  | plain c =>
      show pieceOf [c] = _
      unfold pieceOf
      split
      · next same => cases same; exact absurd rfl fits
      · next same => cases same
      · next same => cases same
      · next same => cases same; rfl
      · next other => exact absurd rfl (other c)
  | control letter => exact congrArg some (if_pos fits)
  | code letter digits =>
      have several : 2 ≤ digits.length := by
        rcases fits.asked with ⟨-, two⟩ | ⟨-, four⟩
        · omega
        · omega
      match digits, several with
      | first :: second :: others, _ => rfl
  | escaped c => exact congrArg some (if_neg fits.1)
  | backslash => rfl

/-- There is one way to take a text apart. -/
theorem Fitting.unique (fitting : Fitting pieces) (fitting' : Fitting others)
    (same : assemble pieces = assemble others) : pieces = others := by
  induction fitting generalizing others with
  | nil =>
      cases fitting' with
      | nil => rfl
      | @cons piece _ _ _ => exact absurd (List.append_eq_nil_iff.mp same.symm).1 piece.chars_ne_nil
  | @cons piece pieces fits _ ih =>
      cases fitting' with
      | nil => exact absurd (List.append_eq_nil_iff.mp same).1 piece.chars_ne_nil
      | @cons piece' pieces' fits' others' =>
          have text : piece.chars ++ assemble pieces = piece'.chars ++ assemble pieces' := same
          have units := decodeOne_chars fits
          rw [text, decodeOne_chars fits'] at units
          have rest : assemble pieces' = assemble pieces := congrArg Prod.snd units
          rw [rest] at text
          have pieceEq := pieceOf_chars fits
          rw [List.append_cancel_right text, pieceOf_chars fits'] at pieceEq
          rw [Option.some.inj pieceEq, ih others' rest.symm]

/-! ## Decoding -/

/-- The values of the pieces are what the text decodes to. -/
theorem Fitting.decodeAll_eq (fitting : Fitting pieces) :
    decodeAll (assemble pieces) = pieces.filterMap Piece.value := by
  induction fitting with
  | nil => rw [assemble, List.flatMap_nil, decodeAll, List.filterMap_nil]
  | @cons piece pieces fits _ ih =>
      have text : assemble (piece :: pieces) = piece.chars ++ assemble pieces := List.flatMap_cons
      have nonempty : piece.chars ++ assemble pieces ≠ [] :=
        List.append_ne_nil_of_left_ne_nil piece.chars_ne_nil _
      rw [text, decodeAll_of_ne_nil nonempty, decodeOne_chars fits, ih, List.filterMap_cons]
      cases piece.value with
      | none => rfl
      | some c => rfl

theorem Fitting.of_append {front : List Piece} (fitting : Fitting (front ++ pieces)) :
    Fitting pieces := by
  induction front with
  | nil => exact fitting
  | cons piece front ih =>
      cases fitting with
      | cons _ others => exact ih others

/-- Only a surrogate has no value, and no two digits write one. -/
theorem Piece.value_eq_none_iff (fits : piece.FitsBefore rest) :
    piece.value = none ↔ ∃ letter digits, piece = .code letter digits ∧ digits.length = 4 ∧
      IsSurrogate (number digits) := by
  constructor
  · intro missing
    cases piece with
    | plain c | escaped c | backslash => cases missing
    | control letter => exact absurd fits (control?_eq_none_iff.mp ((control?_eq letter).trans missing))
    | code letter digits =>
        have surrogate : IsSurrogate (number digits) := by
          by_contra other
          cases missing.symm.trans (if_neg other)
        rcases fits.asked with ⟨-, two⟩ | ⟨-, four⟩
        · have small := number_lt fits.hex
          rw [IsSurrogate] at surrogate
          rw [two] at small
          omega
        · exact ⟨letter, digits, rfl, four, surrogate⟩
  · rintro ⟨letter, digits, rfl, -, surrogate⟩
    exact if_pos surrogate

/-! ## Texts in a row -/

/-- The text is an escape to which something is missing: a backslash without a letter, or a letter with
fewer digits than it asks for. -/
inductive IsUnfinished : List Char → Prop
  | backslash : IsUnfinished ['\\']
  | code {letter : Char} {digits : List Char} {count : Nat} (asks : Asks letter count)
    (hex : ∀ digit ∈ digits, digit.isHexDigit = true) (short : digits.length < count) :
    IsUnfinished ('\\' :: letter :: digits)

/-- The last pieces of a text make up an unfinished escape. -/
def EndsUnfinished (text : List Char) : Prop :=
  ∃ front back, Fitting (front ++ back) ∧ assemble (front ++ back) = text ∧ IsUnfinished (assemble back)

theorem EndsUnfinished.cons (fits : piece.FitsBefore rest) (ends : EndsUnfinished rest) :
    EndsUnfinished (piece.chars ++ rest) := by
  obtain ⟨front, back, fitting, rfl, unfinished⟩ := ends
  exact ⟨piece :: front, back, .cons fits fitting, rfl, unfinished⟩

/-- A piece stays what it is when a text follows, unless it is unfinished. -/
theorem Piece.FitsBefore.append {more : List Char} (fits : piece.FitsBefore rest)
    (finished : ¬IsUnfinished (piece.chars ++ rest)) : piece.FitsBefore (rest ++ more) := by
  cases piece with
  | plain | control | code => exact fits
  | escaped c =>
      refine ⟨fits.1, fun digits code follows => ?_⟩
      have beside : rest <+: rest ++ more := List.prefix_append rest more
      -- Digits that reach into the second text belong to an escape that the first leaves unfinished.
      rcases Nat.lt_or_ge rest.length digits.length with shorter | enough
      · have part : rest <+: digits := List.prefix_of_prefix_length_le beside follows (Nat.le_of_lt shorter)
        exact finished (.code code.asked (fun digit member => code.hex digit (part.subset member)) shorter)
      · exact fits.2 digits code (List.prefix_of_prefix_length_le follows beside enough)
  | backslash =>
      cases fits
      exact absurd IsUnfinished.backslash finished

theorem Fitting.append (fitting : Fitting pieces) (fitting' : Fitting others)
    (finished : ¬EndsUnfinished (assemble pieces)) : Fitting (pieces ++ others) := by
  -- What ends unfinished behind a piece ends unfinished with it, so the condition is kept on the way down.
  induction fitting with
  | nil => exact fitting'
  | @cons piece pieces fits rest ih =>
      have here : ¬IsUnfinished (piece.chars ++ assemble pieces) := fun unfinished =>
        finished ⟨[], piece :: pieces, .cons fits rest, rfl, unfinished⟩
      have fitsBoth := @Piece.FitsBefore.append _ _ (assemble others) fits here
      rw [assemble, assemble, ← List.flatMap_append] at fitsBoth
      exact .cons fitsBoth (ih fun ends => finished (ends.cons fits))

/-- **Decoding texts in a row.** Unless the first text ends in an unfinished escape, it does not matter
whether two texts are decoded together or one after the other. -/
theorem decodeAll_append (finished : ¬EndsUnfinished text) (more : List Char) :
    decodeAll (text ++ more) = decodeAll text ++ decodeAll more := by
  obtain ⟨pieces, rfl, fitting⟩ := exists_fitting text
  obtain ⟨others, rfl, fitting'⟩ := exists_fitting more
  have joined := (fitting.append fitting' finished).decodeAll_eq
  rw [assemble, List.flatMap_append, List.filterMap_append] at joined
  rw [fitting.decodeAll_eq, fitting'.decodeAll_eq]
  exact joined

end Reading

end Peg.Escape
