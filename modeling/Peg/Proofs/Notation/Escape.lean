import Peg.CharClass
import Peg.Expr.Printer
import Peg.LineNotation

/-!
# Escapes are undone

What is printed between the delimiters of a literal or a set is read back unit by unit, up to the closing
delimiter and no further.

* `Escape.decodeOne_encodeChar`: a printed character is one unit, whatever follows.
* `Escape.decodeAll_encode`: a printed text is read back.
* `CharClass.read_displaySetBody`: the inside of a printed set is read back.
* `Passes`: a text in which no closing delimiter is found; printed texts are such.
-/

namespace Peg

namespace Escape

/-- No escape of another meaning begins with one of the special characters. -/
def IsPlain (special : List Char) : Prop :=
  ∀ c ∈ special, control? c = none ∧ hexLength? c = none

theorem isPlain_quote : IsPlain ['\''] :=
  List.forall_mem_singleton.mpr ⟨rfl, rfl⟩

theorem isPlain_set : IsPlain [']', '-'] :=
  List.forall_mem_cons.mpr ⟨⟨rfl, rfl⟩, List.forall_mem_singleton.mpr ⟨rfl, rfl⟩⟩

variable {special : List Char}

/-! ## Units -/

theorem hexDigit?_hexChar {digit : Nat} (small : digit < 16) :
    hexDigit? (hexChar digit) = some digit := by
  have all : ∀ digit < 16, hexDigit? (hexChar digit) = some digit := by decide
  exact all digit small

theorem hexCode?_hexChar {code : Nat} (small : code < 256) (rest : List Char) :
    hexCode? 2 (hexChar (code / 16) :: hexChar (code % 16) :: rest) = some (code, rest) := by
  have high : hexDigit? (hexChar (code / 16)) = some (code / 16) := hexDigit?_hexChar (by omega)
  have low : hexDigit? (hexChar (code % 16)) = some (code % 16) := hexDigit?_hexChar (by omega)
  have whole : 16 * (16 * 0 + code / 16) + code % 16 = code := by omega
  simp only [hexCode?, hexCodeFrom?, high, low, whole]

theorem charOfCode?_toNat (c : Char) : charOfCode? c.toNat = some c := by
  have valid : c.toNat.isValidChar := c.valid
  rw [charOfCode?, dif_pos valid]
  rfl

/-- Two hexadecimal digits behind an `x` are read as the character that they name. -/
theorem decodeEscape_hexChar {c : Char} (small : c.toNat < 256) (rest : List Char) :
    decodeEscape 'x' (hexChar (c.toNat / 16) :: hexChar (c.toNat % 16) :: rest) = (some c, rest) := by
  have control : control? 'x' = none := rfl
  have two : hexLength? 'x' = some 2 := rfl
  rw [decodeEscape, control, two, Option.bind_some, hexCode?_hexChar small]
  exact congrArg (·, rest) (charOfCode?_toNat c)

/-- A special character stands for itself behind a backslash. -/
theorem decodeEscape_special (plain : IsPlain special) {c : Char} (member : c ∈ special)
    (rest : List Char) : decodeEscape c rest = (some c, rest) := by
  obtain ⟨control, hex⟩ := plain c member
  rw [decodeEscape, control, hex]
  rfl

theorem decodeOne_of_ne {c : Char} (notBackslash : c ≠ '\\') (rest : List Char) :
    decodeOne (c :: rest) = (some c, rest) := by
  unfold decodeOne
  split
  · contradiction
  · next same => cases same; contradiction
  · next same => cases same; contradiction
  · next same => cases same; rfl

/-- A printed character is one unit, whatever follows it. -/
theorem decodeOne_encodeChar (plain : IsPlain special) (c : Char) (rest : List Char) :
    decodeOne (encodeChar special c ++ rest) = (some c, rest) := by
  -- One case for each way to write a character, in the order in which they are tried.
  unfold encodeChar
  split
  · next same => subst same; rfl
  split
  · next same => subst same; rfl
  split
  · next same => subst same; rfl
  split
  · next same => subst same; rfl
  split
  · next member => exact decodeEscape_special plain member rest
  split
  · next small => exact decodeEscape_hexChar (by omega) rest
  · next notBackslash _ _ => exact decodeOne_of_ne notBackslash rest

theorem encodeChar_ne_nil (special : List Char) (c : Char) : encodeChar special c ≠ [] := by
  unfold encodeChar
  repeat' split
  all_goals exact List.cons_ne_nil _ _

theorem decodeAll_encodeChar (plain : IsPlain special) (c : Char) (rest : List Char) :
    decodeAll (encodeChar special c ++ rest) = c :: decodeAll rest := by
  have unit := decodeOne_encodeChar plain c rest
  obtain ⟨first, more, eq⟩ := List.exists_cons_of_ne_nil (encodeChar_ne_nil special c)
  rw [eq, List.cons_append] at unit ⊢
  rw [decodeAll, unit]
  rfl

theorem encode_cons (special : List Char) (c : Char) (text : List Char) :
    encode special (c :: text) = encodeChar special c ++ encode special text :=
  List.flatMap_cons

/-- A printed text is read back. -/
theorem decodeAll_encode (plain : IsPlain special) (text : List Char) :
    decodeAll (encode special text) = text := by
  induction text with
  | nil =>
      show decodeAll [] = []
      rw [decodeAll]
  | cons c text ih => rw [encode_cons, decodeAll_encodeChar plain, ih]

/-- A printed character begins with a special character only if it stands behind a backslash. -/
theorem head?_encodeChar_append {c : Char} (member : c ∈ special) (notBackslash : c ≠ '\\')
    (first : Char) (rest : List Char) : (encodeChar special first ++ rest).head? ≠ some c := by
  have behindBackslash : ∀ {more : List Char}, ('\\' :: more ++ rest).head? ≠ some c := by
    intro more same
    exact notBackslash (Option.some.inj same).symm
  unfold encodeChar
  iterate 5
    split
    · exact behindBackslash
  split
  · exact behindBackslash
  · next notSpecial _ =>
    intro same
    exact notSpecial (Option.some.inj same ▸ member)

theorem head?_encode_append {c : Char} (member : c ∈ special) (notBackslash : c ≠ '\\')
    (text : List Char) {rest : List Char} (differs : rest.head? ≠ some c) :
    (encode special text ++ rest).head? ≠ some c := by
  cases text with
  | nil => exact differs
  | cons first text =>
      rw [encode_cons, List.append_assoc]
      exact head?_encodeChar_append member notBackslash first _

end Escape

/-! ## Sets -/

namespace CharClass

open Escape

/-- The set has whole ranges only, and it is no single character and not empty. -/
def IsClass (chars ranges : String) : Prop :=
  ranges.toList.length % 2 = 0 ∧ (2 ≤ chars.toList.length ∨ 1 ≤ ranges.toList.length / 2)

instance (chars ranges : String) : Decidable (IsClass chars ranges) :=
  inferInstanceAs (Decidable (_ ∧ _))

/-- The ranges between the bounds in a list, low and high in turn. -/
def rangeItems : List Char → List Item
  | low :: high :: rest => .range low high :: rangeItems rest
  | _ => []

theorem bounds_rangeItems (ranges : List Char) (even : ranges.length % 2 = 0) :
    bounds (rangeItems ranges) = ranges := by
  fun_induction rangeItems ranges with
  | case1 low high rest ih =>
      have evenRest : rest.length % 2 = 0 := by
        simp only [List.length_cons] at even
        omega
      have inner := ih evenRest
      simp only [bounds, List.flatMap_cons] at inner ⊢
      rw [inner]
      rfl
  | case2 ranges odd =>
      match ranges, odd with
      | [], _ => rfl
      | [_], _ => simp at even
      | low :: high :: rest, odd => exact (odd low high rest rfl).elim

theorem singles_rangeItems (ranges : List Char) : singles (rangeItems ranges) = [] := by
  fun_induction rangeItems ranges with
  | case1 low high rest ih => exact ih
  | case2 => rfl

theorem items_encodeChar (c : Char) (rest : List Char) :
    items (encodeChar [']', '-'] c ++ rest) =
      (itemAfter (some c) rest).1 ++ items (itemAfter (some c) rest).2 := by
  have unit := decodeOne_encodeChar isPlain_set c rest
  obtain ⟨first, more, eq⟩ := List.exists_cons_of_ne_nil (encodeChar_ne_nil [']', '-'] c)
  rw [eq, List.cons_append] at unit ⊢
  rw [items, firstItem, unit]

theorem itemAfter_of_head?_ne {rest : List Char} (differs : rest.head? ≠ some '-') (c : Char) :
    itemAfter (some c) rest = ([.single c], rest) := by
  unfold itemAfter
  split
  · exact (differs rfl).elim
  · rfl

/-- A dash and a printed character behind a unit make a range of it. -/
theorem itemAfter_dash (low high : Char) (rest : List Char) :
    itemAfter (some low) ('-' :: (encodeChar [']', '-'] high ++ rest)) =
      ([.range low high], rest) := by
  have unit := decodeOne_encodeChar isPlain_set high rest
  obtain ⟨first, more, eq⟩ := List.exists_cons_of_ne_nil (encodeChar_ne_nil [']', '-'] high)
  rw [eq, List.cons_append] at unit ⊢
  rw [itemAfter, unit]
  rfl

theorem items_encode (chars : List Char) {rest : List Char} (differs : rest.head? ≠ some '-') :
    items (encode [']', '-'] chars ++ rest) = chars.map .single ++ items rest := by
  induction chars with
  | nil => rfl
  | cons c chars ih =>
      have next : (encode [']', '-'] chars ++ rest).head? ≠ some '-' :=
        head?_encode_append (by decide) (by decide) chars differs
      rw [encode_cons, List.append_assoc, items_encodeChar, itemAfter_of_head?_ne next, ih]
      rfl

theorem items_displayRanges (ranges : List Char) :
    items (Expr.displayRanges ranges) = rangeItems ranges := by
  fun_induction rangeItems ranges with
  | case1 low high rest ih =>
      have shape : Expr.displayRanges (low :: high :: rest) = encodeChar [']', '-'] low ++
          '-' :: (encodeChar [']', '-'] high ++ Expr.displayRanges rest) := by
        simp [Expr.displayRanges, encode]
      rw [shape, items_encodeChar, itemAfter_dash, ih]
      rfl
  | case2 ranges odd =>
      have shape : Expr.displayRanges ranges = [] := by
        unfold Expr.displayRanges
        split
        · next low high rest => exact (odd low high rest rfl).elim
        · rfl
      rw [shape, items]

theorem head?_displayRanges (ranges : List Char) :
    (Expr.displayRanges ranges).head? ≠ some '-' := by
  unfold Expr.displayRanges
  split
  · next low high rest =>
    rw [encode, List.flatMap_singleton, List.append_assoc]
    exact head?_encodeChar_append (by decide) (by decide) low _
  · simp

theorem items_displaySetBody (chars ranges : List Char) :
    items (Expr.displaySetBody chars ranges) = chars.map .single ++ rangeItems ranges := by
  rw [Expr.displaySetBody, items_encode chars (head?_displayRanges ranges), items_displayRanges]

theorem ofItems_of_several {items : List Item}
    (several : 2 ≤ (singles items).length ∨ bounds items ≠ []) :
    ofItems items = .set (String.ofList (singles items)) (String.ofList (bounds items)) := by
  unfold ofItems
  split
  · simp [singles, bounds] at several
  · simp [singles, bounds] at several
  · rfl

/-- The inside of a printed set is read back. -/
theorem read_displaySetBody {chars ranges : String} (isClass : IsClass chars ranges) :
    read (String.ofList (Expr.displaySetBody chars.toList ranges.toList)) = .set chars ranges := by
  obtain ⟨even, several⟩ := isClass
  have singles : singles (chars.toList.map .single ++ rangeItems ranges.toList) = chars.toList := by
    have none := singles_rangeItems ranges.toList
    simp only [CharClass.singles, List.flatMap_append, List.flatMap_map] at none ⊢
    rw [none, List.append_nil]
    exact List.flatMap_singleton' _
  have bounds : bounds (chars.toList.map .single ++ rangeItems ranges.toList) = ranges.toList := by
    have whole := bounds_rangeItems ranges.toList even
    simp only [CharClass.bounds, List.flatMap_append, List.flatMap_map] at whole ⊢
    rw [whole]
    simp
  rw [read, String.toList_ofList, items_displaySetBody, ofItems_of_several, singles, bounds,
    String.ofList_toList, String.ofList_toList]
  rw [singles, bounds]
  refine several.imp_right fun some none => ?_
  rw [none] at some
  simp at some

end CharClass

/-! ## Delimiters -/

/-- No closing delimiter is found in the text, whatever follows it. -/
def Passes (close : Char) (text : List Char) : Prop :=
  ∀ rest, LineNotation.delimited? close (text ++ rest) =
    (LineNotation.delimited? close rest).map fun (raw, after) => (text ++ raw, after)

namespace Passes

open Escape

variable {close : Char} {special text : List Char}

theorem nil (close : Char) : Passes close [] := by
  intro rest
  simp

theorem append {more : List Char} (first : Passes close text) (second : Passes close more) :
    Passes close (text ++ more) := by
  intro rest
  rw [List.append_assoc, first, second, Option.map_map]
  congr 1
  funext read
  exact congrArg (·, read.2) (List.append_assoc text more read.1).symm

theorem singleton {c : Char} (notClose : c ≠ close) (notBackslash : c ≠ '\\') :
    Passes close [c] := by
  intro rest
  rw [List.singleton_append, LineNotation.delimited?.eq_def]
  simp only [if_neg notClose, if_neg notBackslash]
  rfl

/-- A character behind a backslash closes nothing. -/
theorem escaped (notBackslash : close ≠ '\\') (c : Char) : Passes close ['\\', c] := by
  intro rest
  show LineNotation.delimited? close ('\\' :: c :: rest) = _
  rw [LineNotation.delimited?, if_neg notBackslash.symm, if_pos rfl]
  rfl

theorem encodeChar (member : close ∈ special) (notBackslash : close ≠ '\\')
    (notHex : hexDigit? close = none) (c : Char) : Passes close (encodeChar special c) := by
  have digit : ∀ {code : Nat}, code < 16 → Passes close [hexChar code] := by
    intro code small
    have hex := hexDigit?_hexChar small
    refine singleton ?_ ?_
    · intro same
      rw [same, notHex] at hex
      cases hex
    · intro same
      rw [same] at hex
      cases hex
  unfold Escape.encodeChar
  iterate 5
    split
    · exact escaped notBackslash _
  split
  · have high : Passes close [hexChar (c.toNat / 16)] := digit (by omega)
    have low : Passes close [hexChar (c.toNat % 16)] := digit (by omega)
    exact (escaped notBackslash 'x').append (high.append low)
  · next notEscape notSpecial _ =>
    refine singleton ?_ notEscape
    rintro rfl
    exact notSpecial member

theorem encode (member : close ∈ special) (notBackslash : close ≠ '\\')
    (notHex : hexDigit? close = none) (text : List Char) :
    Passes close (Escape.encode special text) := by
  induction text with
  | nil => exact nil close
  | cons c text ih =>
      rw [encode_cons]
      exact (encodeChar member notBackslash notHex c).append ih

/-- No closing bracket is found inside a printed set. -/
theorem displaySetBody (chars ranges : List Char) :
    Passes ']' (Expr.displaySetBody chars ranges) := by
  have printed : ∀ text, Passes ']' (Escape.encode [']', '-'] text) :=
    encode (by decide) (by decide) rfl
  refine (printed chars).append ?_
  fun_induction Expr.displayRanges ranges with
  | case1 low high rest ih =>
      have dash : Passes ']' ['-'] := singleton (by decide) (by decide)
      have range := ((printed [low]).append dash).append (printed [high])
      simpa using range.append ih
  | case2 => exact nil ']'

/-- The text is read up to the closing delimiter behind it. -/
theorem delimited?_append (passes : Passes close text) (rest : List Char) :
    LineNotation.delimited? close (text ++ close :: rest) = some (text, rest) := by
  rw [passes, LineNotation.delimited?.eq_def]
  simp

end Passes

end Peg
