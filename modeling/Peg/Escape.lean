/-!
# Escapes in literals and character classes

The text between the delimiters of a literal or a class is a run of units: a plain character, or an
escape that begins with a backslash. Reading never fails: an escape that is not one of the known
forms stands for the escaped character itself.

* `decodeOne`: the value of the first unit and the rest of the text.
* `decodeAll`: the values of all units.
* `encode`: a text written so that `decodeAll` reads it back.
-/

namespace Peg.Escape

/-! ## Reading -/

/-- The value of an ASCII hexadecimal digit. -/
def hexDigit? (c : Char) : Option Nat :=
  if '0' ≤ c ∧ c ≤ '9' then some (c.toNat - '0'.toNat)
  else if 'a' ≤ c ∧ c ≤ 'f' then some (c.toNat - 'a'.toNat + 10)
  else if 'A' ≤ c ∧ c ≤ 'F' then some (c.toNat - 'A'.toNat + 10)
  else none

/-- Reads exactly `count` hexadecimal digits after those that make up `code`. -/
def hexCodeFrom? (code : Nat) : Nat → List Char → Option (Nat × List Char)
  | 0, text => some (code, text)
  | _ + 1, [] => none
  | count + 1, c :: rest =>
    match hexDigit? c with
    | some digit => hexCodeFrom? (16 * code + digit) count rest
    | none => none

/-- Reads exactly `count` hexadecimal digits as a number. -/
def hexCode? (count : Nat) (text : List Char) : Option (Nat × List Char) :=
  hexCodeFrom? 0 count text

/-- The character with a given code point; there is none for a surrogate. -/
def charOfCode? (code : Nat) : Option Char :=
  if valid : code.isValidChar then some (Char.ofNatAux code valid) else none

/-- The control character that a letter after a backslash stands for. -/
def control? : Char → Option Char
  | 'n' => some '\n'
  | 't' => some '\t'
  | 'r' => some '\r'
  | 'v' => some '\x0b'
  | 'f' => some '\x0c'
  | 'b' => some '\x08'
  | _ => none

/-- How many hexadecimal digits a letter after a backslash asks for. -/
def hexLength? : Char → Option Nat
  | 'x' | 'X' => some 2
  | 'u' | 'U' => some 4
  | _ => none

/-- Decodes an escape from the character after its backslash and what follows it. An escape whose
digits are missing stands for its letter. -/
def decodeEscape (letter : Char) (rest : List Char) : Option Char × List Char :=
  match control? letter with
  | some c => (some c, rest)
  | none =>
    match (hexLength? letter).bind (hexCode? · rest) with
    | some (code, rest) => (charOfCode? code, rest)
    | none => (some letter, rest)

/-- Decodes the first unit of a text. The value is missing for the empty text and for an escape that
names a surrogate; a lone final backslash stands for itself. -/
def decodeOne : List Char → Option Char × List Char
  | [] => (none, [])
  | '\\' :: [] => (some '\\', [])
  | '\\' :: letter :: rest => decodeEscape letter rest
  | c :: rest => (some c, rest)

theorem hexCodeFrom?_length_le {code count : Nat} {text rest : List Char} {value : Nat}
    (read : hexCodeFrom? code count text = some (value, rest)) : rest.length ≤ text.length := by
  induction count generalizing code text with
  | zero =>
    simp only [hexCodeFrom?, Option.some.injEq, Prod.mk.injEq] at read
    exact read.2 ▸ Nat.le_refl _
  | succ count ih =>
    cases text with
    | nil => simp [hexCodeFrom?] at read
    | cons c text =>
      simp only [hexCodeFrom?] at read
      split at read
      · exact Nat.le_trans (ih read) (by simp)
      · simp at read

theorem decodeEscape_length_le (letter : Char) (rest : List Char) :
    (decodeEscape letter rest).2.length ≤ rest.length := by
  unfold decodeEscape
  split
  · exact Nat.le_refl _
  · split
    · next code after read =>
      obtain ⟨count, -, read⟩ := Option.bind_eq_some_iff.1 read
      exact hexCodeFrom?_length_le read
    · exact Nat.le_refl _

/-- A unit takes at least one character. -/
theorem decodeOne_length_lt (c : Char) (rest : List Char) :
    (decodeOne (c :: rest)).2.length < (c :: rest).length := by
  unfold decodeOne
  split
  · contradiction
  · simp
  · next letter after same =>
    have bound := decodeEscape_length_le letter after
    simp only [same, List.length_cons]
    omega
  · next same =>
    cases same
    simp

/-- Decodes every unit of a text, leaving out those without a value. -/
def decodeAll : List Char → List Char
  | [] => []
  | c :: rest =>
    (decodeOne (c :: rest)).1.toList ++ decodeAll (decodeOne (c :: rest)).2
termination_by text => text.length
decreasing_by exact decodeOne_length_lt c rest

/-- The text that the inside of a literal stands for. -/
def decode (text : String) : String :=
  String.ofList (decodeAll text.toList)

/-! ## Writing -/

/-- A lower-case hexadecimal digit. -/
def hexChar (digit : Nat) : Char :=
  if digit < 10 then Char.ofNat ('0'.toNat + digit) else Char.ofNat ('a'.toNat + (digit - 10))

/-- Writes one character: line feed, tab, carriage return and backslash by their letters, the
`special` characters behind a backslash, other control characters below the space in hexadecimal. -/
def encodeChar (special : List Char) (c : Char) : List Char :=
  if c = '\n' then ['\\', 'n']
  else if c = '\t' then ['\\', 't']
  else if c = '\r' then ['\\', 'r']
  else if c = '\\' then ['\\', '\\']
  else if c ∈ special then ['\\', c]
  else if c.toNat < 0x20 then ['\\', 'x', hexChar (c.toNat / 16), hexChar (c.toNat % 16)]
  else [c]

/-- Writes a text character by character. -/
def encode (special : List Char) (text : List Char) : List Char :=
  text.flatMap (encodeChar special)

end Peg.Escape
