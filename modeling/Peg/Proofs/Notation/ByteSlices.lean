import Mathlib.Data.List.Infix
import Peg.Proofs.Compile.NormalForm
import Peg.Proofs.Notation.ClassItems
import Peg.Proofs.Notation.Pieces
import Peg.Proofs.Text.Cut

/-!
# Escapes in memory

In memory a text is a row of bytes, and a part of it is taken out by counting bytes. Such a cut breaks
the reading off if it goes through a character. The digits of an escape and the dash of a range are cut
off like this, and the two loops that read literals and classes go on to the end all the same.

* `Loop`: the runs of a loop whose turns may break off.
* `Bytewise.takeHex`, `Bytewise.takeHex_eq`: cutting the digits off by bytes never breaks off.
* `Bytewise.Decoding`, `Bytewise.decodes`: the loop over a literal goes on to the end.
* `Bytewise.Collecting`, `Bytewise.Collecting.collects`: the loop over a class goes on to the end.
* `Escape.decodeAll_pieces`: what a text is made of, how it is decoded, and where it may be cut.
-/

namespace Peg

open Escape (number decodeOne decodeAll hexCode? control? hexLength? charOfCode?)
open Text (splitBytes?)
open CharClass (Item firstItem singles bounds)

/-! ## Loops -/

section Loops

variable {σ : Type} {goesOn : σ → Bool} {turn : σ → Option σ} {state last last' : σ}

/-- A loop goes from the first state to the last. It takes turns as long as it goes on; a turn without a
next state breaks it off. -/
inductive Loop (goesOn : σ → Bool) (turn : σ → Option σ) : σ → σ → Prop
  | ended {state : σ} (done : goesOn state = false) : Loop goesOn turn state state
  | turn {state next last : σ} (going : goesOn state = true) (taken : turn state = some next)
    (others : Loop goesOn turn next last) : Loop goesOn turn state last

/-- A loop has one end at most. -/
theorem Loop.unique (loop : Loop goesOn turn state last) (loop' : Loop goesOn turn state last') :
    last' = last := by
  induction loop with
  | ended done =>
      cases loop' with
      | ended => rfl
      | turn going => exact absurd (done.symm.trans going) Bool.false_ne_true
  | turn going taken _ ih =>
      cases loop' with
      | ended done => exact absurd (done.symm.trans going) Bool.false_ne_true
      | turn _ taken' others' =>
          cases taken.symm.trans taken'
          exact ih others'

theorem Loop.iff (loop : Loop goesOn turn state last) : Loop goesOn turn state last' ↔ last' = last :=
  ⟨loop.unique, fun same => same ▸ loop⟩

end Loops

/-! ## Bytes -/

namespace Bytewise

/-- The byte is an ASCII hexadecimal digit. -/
def isHexByte (byte : UInt8) : Bool :=
  48 ≤ byte && byte ≤ 57 || 65 ≤ byte && byte ≤ 70 || 97 ≤ byte && byte ≤ 102

/-- The bytes of a text. -/
def bytes (text : List Char) : List UInt8 :=
  text.flatMap String.utf8EncodeChar

/-- What stands behind a number of bytes; nothing if a character is cut. -/
def behind? (size : Nat) (text : List Char) : Option (List Char) :=
  (splitBytes? size text).map Prod.snd

/-- Reads hexadecimal digits that take up `count` bytes. There is no answer if the cut behind them goes
through a character. -/
def takeHex (count : Nat) (text : List Char) : Option (Option (Nat × List Char)) :=
  match (splitBytes? count text).map Prod.fst with
  | none => some none
  | some hex =>
    if (bytes hex).all isHexByte then (behind? count text).map fun rest => some (number hex, rest)
    else some none

variable {c : Char} {text rest hex : List Char} {count value : Nat}

/-- The bytes of longer characters are no digits. -/
theorem isHexByte_of_le {byte : Nat} (high : 128 ≤ byte) (small : byte < 256) :
    isHexByte (UInt8.ofNat byte) = false := by
  have toNat : (UInt8.ofNat byte).toNat = byte := UInt8.toNat_ofNat_of_lt' small
  have above : ∀ {bound : UInt8}, bound.toNat < 128 → decide (UInt8.ofNat byte ≤ bound) = false := by
    intro bound low
    rw [decide_eq_false_iff_not, UInt8.le_iff_toNat_le, toNat]
    omega
  rw [isHexByte, above (by decide), above (by decide), above (by decide), Bool.and_false, Bool.and_false,
    Bool.and_false, Bool.or_false, Bool.or_false]

theorem all_isHexByte_char (c : Char) : (String.utf8EncodeChar c).all isHexByte = c.isHexDigit := by
  by_cases ascii : c.toNat < 128
  · exact Escape.forall_ascii (P := fun c => (String.utf8EncodeChar c).all isHexByte = c.isHexDigit)
      (by decide) ascii
  · have noDigit : c.isHexDigit = false :=
      Bool.eq_false_iff.mpr fun hex => ascii (Escape.toNat_lt_of_isHexDigit hex)
    have lead : ∀ {byte : Nat} {others : List UInt8}, 128 ≤ byte → byte < 256 →
        (UInt8.ofNat byte :: others).all isHexByte = false := by
      intro byte others high small
      rw [List.all_cons, isHexByte_of_le high small, Bool.false_and]
    rw [noDigit, String.utf8EncodeChar]
    split
    · next small => exact absurd (Nat.lt_succ_of_le small) ascii
    split
    · exact lead (by omega) (by omega)
    split
    · exact lead (by omega) (by omega)
    · exact lead (by omega) (by omega)

theorem all_isHexByte (text : List Char) :
    (bytes text).all isHexByte = true ↔ ∀ digit ∈ text, digit.isHexDigit = true := by
  rw [bytes, List.all_flatMap, List.all_eq_true]
  simp only [all_isHexByte_char]

theorem utf8Len_of_isHexDigit (digits : ∀ digit ∈ hex, digit.isHexDigit = true) :
    String.utf8Len hex = hex.length := by
  induction hex with
  | nil => rfl
  | cons digit hex ih =>
      obtain ⟨first, others⟩ := List.forall_mem_cons.mp digits
      have one : digit.utf8Size = 1 :=
        if_pos (Nat.le_of_lt_succ (Escape.toNat_lt_of_isHexDigit first))
      rw [String.utf8Len_cons, ih others, one, List.length_cons]

/-- Digits that are read off character by character are cut off by bytes. -/
theorem splitBytes?_of_hexCode? (read : hexCode? count text = some (value, rest)) :
    ∃ digits, splitBytes? count text = some (digits, rest) ∧
      (∀ digit ∈ digits, digit.isHexDigit = true) ∧ value = number digits := by
  obtain ⟨digits, rfl, rfl, all⟩ := Escape.exists_digits_of_hexCodeFrom? read
  have cut := Text.splitBytes?_append digits rest
  rw [utf8Len_of_isHexDigit all] at cut
  rw [Escape.hexCode?_append all] at read
  cases read
  exact ⟨digits, cut, all, rfl⟩

/-- The cut behind the digits never goes through a character: only digits are of one byte each. -/
theorem takeHex_eq (count : Nat) (text : List Char) : takeHex count text = some (hexCode? count text) := by
  rw [takeHex, behind?]
  cases read : hexCode? count text with
  | some result =>
      obtain ⟨value, rest⟩ := result
      obtain ⟨digits, cut, all, rfl⟩ := splitBytes?_of_hexCode? read
      rw [cut]
      exact if_pos ((all_isHexByte digits).mpr all)
  | none =>
      cases cut : splitBytes? count text with
      | none => rfl
      | some parts =>
          obtain ⟨hex, rest⟩ := parts
          rw [Option.map_some]
          refine if_neg fun all => ?_
          -- Bytes that are all digits are as many characters, which would have been read off.
          rw [all_isHexByte] at all
          obtain ⟨rfl, size⟩ := Text.splitBytes?_eq_some cut
          rw [← size, utf8Len_of_isHexDigit all, Escape.hexCode?_append all] at read
          cases read

/-- Decodes the first unit of a text, with the digits of an escape cut off by bytes. -/
def decodeFirst : List Char → Option (Option Char × List Char)
  | [] => some (none, [])
  | '\\' :: [] => some (some '\\', [])
  | '\\' :: letter :: rest =>
    match control? letter with
    | some c => some (some c, rest)
    | none =>
      match hexLength? letter with
      | none => some (some letter, rest)
      | some count =>
        (takeHex count rest).map fun
          | some (code, rest) => (charOfCode? code, rest)
          | none => (some letter, rest)
  | c :: rest => some (some c, rest)

theorem decodeFirst_eq (text : List Char) : decodeFirst text = some (decodeOne text) := by
  unfold decodeFirst
  split
  · rfl
  · rfl
  · next letter rest =>
    show _ = some (Escape.decodeEscape letter rest)
    rw [Escape.decodeEscape]
    cases control? letter with
    | some c => rfl
    | none =>
        cases hexLength? letter with
        | none => rfl
        | some count =>
            refine (congrArg (Option.map _) (takeHex_eq count rest)).trans ?_
            rw [Option.bind_some]
            cases hexCode? count rest with
            | none => rfl
            | some result => rfl
  · next c rest alone followed =>
    have plain : c ≠ '\\' := by
      rintro rfl
      cases rest with
      | nil => exact alone rfl rfl
      | cons letter rest => exact followed letter rest rfl rfl
    rw [Escape.decodeOne_of_ne plain]

/-! ## Literals -/

/-- Where the loop over a literal stands: what is left of the text, and what was decoded. -/
structure Decoding where
  rest : List Char
  decoded : List Char

def Decoding.goesOn (state : Decoding) : Bool :=
  !state.rest.isEmpty

def Decoding.turn (state : Decoding) : Option Decoding :=
  (decodeFirst state.rest).map fun (c, next) => ⟨next, state.decoded ++ c.toList⟩

theorem decodes (text decoded : List Char) :
    Loop Decoding.goesOn Decoding.turn ⟨text, decoded⟩ ⟨[], decoded ++ decodeAll text⟩ := by
  fun_induction decodeAll text generalizing decoded with
  | case1 =>
      rw [List.append_nil]
      exact .ended rfl
  | case2 first more ih =>
      have taken : Decoding.turn ⟨first :: more, decoded⟩ = some _ :=
        congrArg (Option.map _) (decodeFirst_eq (first :: more))
      rw [← List.append_assoc]
      exact .turn rfl taken (ih _)

/-! ## Classes -/

/-- Where the loop over a class stands: what is left of the text, the single characters and their
number, and the bounds of the ranges. -/
structure Collecting where
  rest : List Char
  chars : List Char
  ranges : List Char
  count : Nat

namespace Collecting

def goesOn (state : Collecting) : Bool :=
  !state.rest.isEmpty

/-- A dash with something behind it follows. -/
def beforeRange (rest : List Char) : Bool :=
  1 < String.utf8Len rest && rest.head? == some '-'

def turn (state : Collecting) : Option Collecting :=
  (decodeFirst state.rest).bind fun (low, rest) =>
    if beforeRange rest then
      (behind? 1 rest).bind fun bound =>
        (decodeFirst bound).map fun (high, next) =>
          match low, high with
          | some low, some high => { state with rest := next, ranges := state.ranges ++ [low, high] }
          | _, _ => { state with rest := next }
    else
      match low with
      | some c => some { state with rest := rest, chars := state.chars ++ [c], count := state.count + 1 }
      | none => some { state with rest := rest }

/-- The expression for a class, once everything was collected. -/
def expr (state : Collecting) : Expr :=
  match state.count, state.ranges with
  | 0, [] => .fail
  | 1, [] => .literal (String.ofList state.chars)
  | _, _ => .set (String.ofList state.chars) (String.ofList state.ranges)

/-- The state once items were collected and `rest` is left. -/
def collect (state : Collecting) (items : List Item) (rest : List Char) : Collecting where
  rest := rest
  chars := state.chars ++ singles items
  ranges := state.ranges ++ bounds items
  count := state.count + (singles items).length

variable {state : Collecting}

theorem collect_append (items items' : List Item) (rest rest' : List Char) :
    (state.collect items rest).collect items' rest' = state.collect (items ++ items') rest' := by
  have chars : singles (items ++ items') = singles items ++ singles items' := List.flatMap_append
  have ranges : bounds (items ++ items') = bounds items ++ bounds items' := List.flatMap_append
  rw [collect, collect, collect, chars, ranges, List.length_append, List.append_assoc, List.append_assoc,
    Nat.add_assoc]

theorem collect_nil (rest : List Char) : state.collect [] rest = { state with rest := rest } := by
  have none : singles [] = [] ∧ bounds [] = [] := ⟨rfl, rfl⟩
  rw [collect, none.1, none.2, List.append_nil, List.append_nil, List.length_nil, Nat.add_zero]

theorem collect_single (c : Char) (rest : List Char) :
    state.collect [.single c] rest =
      { state with rest := rest, chars := state.chars ++ [c], count := state.count + 1 } := by
  have none : bounds [.single c] = [] := rfl
  rw [collect, none, List.append_nil]
  rfl

theorem collect_range (low high : Char) (rest : List Char) :
    state.collect [.range low high] rest =
      { state with rest := rest, ranges := state.ranges ++ [low, high] } := by
  have none : singles [.range low high] = [] := rfl
  rw [collect, none, List.append_nil, List.length_nil, Nat.add_zero]
  rfl

theorem beforeRange_iff {rest : List Char} : beforeRange rest = true ↔ CharClass.DashAhead rest := by
  have dash : '-'.utf8Size = 1 := by decide
  rw [beforeRange, Bool.and_eq_true, decide_eq_true_iff, beq_iff_eq]
  constructor
  · rintro ⟨several, first⟩
    obtain ⟨more, rfl⟩ := List.head?_eq_some_iff.mp first
    refine CharClass.dashAhead_of_ne_nil ?_
    rintro rfl
    rw [String.utf8Len_cons, dash] at several
    cases several with
    | step impossible => cases impossible
  · rintro ⟨c, more, rfl⟩
    have positive := c.utf8Size_pos
    rw [String.utf8Len_cons, String.utf8Len_cons, dash]
    exact ⟨by omega, rfl⟩

theorem behind?_dash (rest : List Char) : behind? 1 ('-' :: rest) = some rest :=
  congrArg (Option.map Prod.snd) (Text.splitBytes?_append ['-'] rest)

/-- A turn collects one item, and the cut behind a dash never goes through a character. -/
theorem turn_eq (state : Collecting) :
    state.turn = some (state.collect (firstItem state.rest).1 (firstItem state.rest).2) := by
  rw [turn, decodeFirst_eq, Option.bind_some, firstItem]
  obtain ⟨low, rest⟩ := decodeOne state.rest
  dsimp only
  by_cases dash : CharClass.DashAhead rest
  · rw [if_pos (beforeRange_iff.mpr dash)]
    obtain ⟨c, more, rfl⟩ := dash
    rw [behind?_dash, Option.bind_some, decodeFirst_eq, Option.map_some,
      CharClass.itemAfter_of_ne_nil (List.cons_ne_nil c more)]
    obtain ⟨high, next⟩ := decodeOne (c :: more)
    cases low with
    | none => exact congrArg some (collect_nil next).symm
    | some low =>
        cases high with
        | none => exact congrArg some (collect_nil next).symm
        | some high => exact congrArg some (collect_range low high next).symm
  · rw [if_neg (mt beforeRange_iff.mp dash), CharClass.itemAfter_of_not_dashAhead dash]
    cases low with
    | none => exact congrArg some (collect_nil rest).symm
    | some c => exact congrArg some (collect_single c rest).symm

theorem collects {text : List Char} (start : state.rest = text) :
    Loop goesOn turn state (state.collect (CharClass.items text) []) := by
  fun_induction CharClass.items text generalizing state with
  | case1 =>
      rw [collect_nil, ← start]
      exact .ended (by rw [goesOn, start]; rfl)
  | case2 first more ih =>
      have going : state.goesOn = true := by rw [goesOn, start]; rfl
      rw [← collect_append _ _ (firstItem (first :: more)).2]
      rw [← start] at ih ⊢
      exact .turn going (turn_eq state) (ih rfl)

/-- What was collected makes up the expression for the class. -/
theorem expr_collect (items : List Item) (rest : List Char) :
    (collect ⟨rest, [], [], 0⟩ items []).expr = CharClass.ofItems items := by
  have length := CharClass.length_bounds items
  rw [collect, expr, List.nil_append, List.nil_append, Nat.zero_add]
  dsimp only
  by_cases several : 2 ≤ (singles items).length ∨ bounds items ≠ []
  · rw [CharClass.ofItems_of_several several]
    split
    · next zero none => exact absurd none (several.resolve_left (by omega))
    · next one none => exact absurd none (several.resolve_left (by omega))
    · rfl
  · have none : bounds items = [] := by
      by_contra some
      exact several (Or.inr some)
    have few : items.length < 2 := by
      rw [none, List.length_nil] at length
      omega
    match items, few, none with
    | [], _, _ => rfl
    | [.single c], _, _ => rfl
    | [.range low high], _, none => cases none

end Collecting

end Bytewise

/-! ## Texts -/

/-- **What a text is made of.** There is one way to take a text apart into pieces, each of which is what
decoding takes first of what is left; their values are what the text decodes to, and the escapes that
name a surrogate are the only pieces without a value. Reading by bytes, no cut goes through a
character, so that the loops over literals and classes go on to the end and give what decoding gives.
Two texts decode one after the other unless the first ends in an unfinished escape. -/
theorem Escape.decodeAll_pieces (text : String) :
    ∃ pieces, assemble pieces = text.toList ∧ Fitting pieces ∧
      (∀ others, assemble others = text.toList → Fitting others → others = pieces) ∧
      (∀ front piece back, pieces = front ++ piece :: back → piece.chars ≠ [] ∧
        decodeOne (piece.chars ++ assemble back) = (piece.value, assemble back)) ∧
      decodeAll text.toList = pieces.filterMap Piece.value ∧
      (∀ piece ∈ pieces, piece.value = none ↔ ∃ letter digits, piece = .code letter digits ∧
        digits.length = 4 ∧ IsSurrogate (number digits)) ∧
      (∀ last, Loop Bytewise.Decoding.goesOn Bytewise.Decoding.turn ⟨text.toList, []⟩ last ↔
        last = ⟨[], decodeAll text.toList⟩) ∧
      (∃ collected : Bytewise.Collecting, collected.expr = CharClass.read text ∧
        ∀ last, Loop Bytewise.Collecting.goesOn Bytewise.Collecting.turn ⟨text.toList, [], [], 0⟩ last ↔
          last = collected) ∧
      (¬EndsUnfinished text.toList → ∀ more,
        decodeAll (text.toList ++ more) = decodeAll text.toList ++ decodeAll more) := by
  obtain ⟨pieces, assembled, fitting⟩ := exists_fitting text.toList
  have fits : ∀ front piece back, pieces = front ++ piece :: back → piece.FitsBefore (assemble back) := by
    rintro front piece back rfl
    cases fitting.of_append with
    | cons fits _ => exact fits
  refine ⟨pieces, assembled, fitting, ?_, ?_, ?_, ?_, ?_, ?_, decodeAll_append⟩
  · intro others assembled' fitting'
    exact fitting'.unique fitting (assembled'.trans assembled.symm)
  · intro front piece back eq
    exact ⟨piece.chars_ne_nil, decodeOne_chars (fits front piece back eq)⟩
  · rw [← assembled, fitting.decodeAll_eq]
  · intro piece member
    obtain ⟨front, back, eq⟩ := List.append_of_mem member
    exact Piece.value_eq_none_iff (fits front piece back eq)
  · intro last
    exact (Bytewise.decodes text.toList []).iff
  · refine ⟨_, Bytewise.Collecting.expr_collect (CharClass.items text.toList) text.toList, fun last => ?_⟩
    exact (Bytewise.Collecting.collects rfl).iff

/-- An escaped backslash begins no escape, so a digit behind it may stand in a text of its own. -/
theorem Escape.decodeAll_pieces_backslash :
    ¬EndsUnfinished "\\\\x4".toList ∧
      decodeAll ("\\\\x4".toList ++ ['1']) = decodeAll "\\\\x4".toList ++ decodeAll ['1'] ∧
      decodeAll "\\\\x4".toList = "\\x4".toList := by
  have noCount : ∀ {count}, ¬Asks '\\' count := by
    rintro count (⟨member, -⟩ | ⟨member, -⟩)
    · exact absurd member (by decide)
    · exact absurd member (by decide)
  have fitting : Fitting [.escaped '\\', .plain 'x', .plain '4'] :=
    .cons ⟨by decide, fun _ code _ => noCount code.asked⟩ <|
      .cons (show 'x' ≠ '\\' by decide) <| .cons (show '4' ≠ '\\' by decide) .nil
  have finished : ¬EndsUnfinished "\\\\x4".toList := by
    rintro ⟨front, back, fitting', assembled, unfinished⟩
    have suffix : back ∈ List.tails [Piece.escaped '\\', .plain 'x', .plain '4'] :=
      (List.mem_tails _ _).mpr ⟨front, fitting'.unique fitting assembled⟩
    simp only [List.tails, List.mem_cons, List.not_mem_nil, or_false] at suffix
    rcases suffix with rfl | rfl | rfl | rfl
    · cases unfinished with
      | code asks => exact noCount asks
    · cases unfinished
    · cases unfinished
    · cases unfinished
  obtain ⟨-, -, -, -, -, -, -, -, -, append⟩ := decodeAll_pieces "\\\\x4"
  exact ⟨finished, append finished ['1'], fitting.decodeAll_eq⟩

end Peg
