import Peg.CharClass
import Peg.Proofs.Recognition.Semantics

/-!
# What a character class accepts

A class is written as a run of parts, read from left to right. Each part is one unit, or a range if a
dash with something behind it follows the unit. The expression for a class accepts what the parts cover
together.

* `CharClass.IsMadeOf`: the parts that a class is made of; `CharClass.exists_isMadeOf` and
  `CharClass.IsMadeOf.unique` say that there is one way to read them.
* `CharClass.Part.item?`: what a part contributes.
* `CharClass.inSet_iff`: the set for some items holds what one of them covers.
* `CharClass.read_accepts`: what is accepted, and when the expression is no set.
-/

namespace Peg.CharClass

open Escape (decodeOne)

/-! ## Parts -/

/-- A part of a class, with the values of its units. An escape that names a surrogate has none. -/
inductive Part where
  | single (value : Option Char)
  | range (low high : Option Char)
deriving DecidableEq, Repr

/-- What a part contributes: nothing if one of its units has no value. -/
def Part.item? : Part → Option Item
  | .single (some c) => some (.single c)
  | .range (some low) (some high) => some (.range low high)
  | .single none | .range none _ | .range _ none => none

/-- A dash is next, and at least one character behind it. -/
def DashAhead (text : List Char) : Prop :=
  ∃ c more, text = '-' :: c :: more

/-- The text is made of the parts, read from left to right. -/
inductive IsMadeOf : List Char → List Part → Prop
  | nil : IsMadeOf [] []
  | single {text rest : List Char} {value : Option Char} {parts : List Part} (nonempty : text ≠ [])
    (unit : decodeOne text = (value, rest)) (alone : ¬DashAhead rest)
    (others : IsMadeOf rest parts) : IsMadeOf text (.single value :: parts)
  | range {text bound rest : List Char} {low high : Option Char} {parts : List Part}
    (nonempty : text ≠ []) (unit : decodeOne text = (low, '-' :: bound)) (some : bound ≠ [])
    (second : decodeOne bound = (high, rest)) (others : IsMadeOf rest parts) :
    IsMadeOf text (.range low high :: parts)

variable {text rest : List Char} {parts : List Part}

theorem dashAhead_of_ne_nil (some : rest ≠ []) : DashAhead ('-' :: rest) := by
  obtain ⟨c, more, rfl⟩ := List.exists_cons_of_ne_nil some
  exact ⟨c, more, rfl⟩

theorem itemAfter_of_not_dashAhead (alone : ¬DashAhead rest) (value : Option Char) :
    itemAfter value rest = (singleItem value, rest) := by
  unfold itemAfter
  split
  · exact (alone ⟨_, _, rfl⟩).elim
  · rfl

theorem itemAfter_of_ne_nil (some : rest ≠ []) (low : Option Char) :
    itemAfter low ('-' :: rest) = (rangeItem low (decodeOne rest).1, (decodeOne rest).2) := by
  obtain ⟨c, more, rfl⟩ := List.exists_cons_of_ne_nil some
  rfl

theorem items_of_ne_nil (nonempty : text ≠ []) :
    items text = (itemAfter (decodeOne text).1 (decodeOne text).2).1 ++
      items (itemAfter (decodeOne text).1 (decodeOne text).2).2 := by
  obtain ⟨c, more, rfl⟩ := List.exists_cons_of_ne_nil nonempty
  rw [items, firstItem]

/-- The items of a class are what its parts contribute. -/
theorem IsMadeOf.items_eq (made : IsMadeOf text parts) : items text = parts.filterMap Part.item? := by
  induction made with
  | nil => rw [items, List.filterMap_nil]
  | @single _ _ value _ nonempty unit alone _ ih =>
      rw [items_of_ne_nil nonempty, unit, itemAfter_of_not_dashAhead alone, ih]
      cases value with
      | none => rfl
      | some c => rfl
  | @range _ _ _ low high _ nonempty unit some second _ ih =>
      rw [items_of_ne_nil nonempty, unit, itemAfter_of_ne_nil some, second, ih]
      cases low with
      | none => cases high <;> rfl
      | some low => cases high <;> rfl

/-- Every text is made of parts. -/
theorem exists_isMadeOf (text : List Char) : ∃ parts, IsMadeOf text parts := by
  fun_induction items text with
  | case1 => exact ⟨[], .nil⟩
  | case2 c more ih =>
      rw [firstItem] at ih
      have nonempty : c :: more ≠ [] := List.cons_ne_nil c more
      by_cases dash : DashAhead (decodeOne (c :: more)).2
      · obtain ⟨d, others, eq⟩ := dash
        rw [eq, itemAfter_of_ne_nil (List.cons_ne_nil d others)] at ih
        obtain ⟨parts, made⟩ := ih
        exact ⟨_, .range nonempty (Prod.ext rfl eq) (List.cons_ne_nil d others) rfl made⟩
      · rw [itemAfter_of_not_dashAhead dash] at ih
        obtain ⟨parts, made⟩ := ih
        exact ⟨_, .single nonempty rfl dash made⟩

/-- There is one way to read the parts of a text. -/
theorem IsMadeOf.unique {others : List Part} (made : IsMadeOf text parts)
    (made' : IsMadeOf text others) : parts = others := by
  induction made generalizing others with
  | nil =>
      cases made' with
      | nil => rfl
      | single nonempty | range nonempty => exact (nonempty rfl).elim
  | single nonempty unit alone _ ih =>
      cases made' with
      | nil => exact (nonempty rfl).elim
      | single _ unit' _ made' =>
          obtain ⟨rfl, rfl⟩ := Prod.mk.inj (unit.symm.trans unit')
          rw [ih made']
      | range _ unit' some =>
          obtain ⟨-, rfl⟩ := Prod.mk.inj (unit.symm.trans unit')
          exact (alone (dashAhead_of_ne_nil some)).elim
  | range nonempty unit some second _ ih =>
      cases made' with
      | nil => exact (nonempty rfl).elim
      | single _ unit' alone =>
          obtain ⟨-, rfl⟩ := Prod.mk.inj (unit.symm.trans unit')
          exact (alone (dashAhead_of_ne_nil some)).elim
      | range _ unit' _ second' made' =>
          obtain ⟨rfl, same⟩ := Prod.mk.inj (unit.symm.trans unit')
          obtain ⟨-, rfl⟩ := List.cons.inj same
          obtain ⟨rfl, rfl⟩ := Prod.mk.inj (second.symm.trans second')
          rw [ih made']

/-! ## Characters -/

/-- The character is the one of the item or lies between its bounds. -/
def Item.Covers : Item → Char → Prop
  | .single d, c => c = d
  | .range low high, c => low ≤ c ∧ c ≤ high

/-- The characters that the expression for a class accepts: that of a literal of one character, or those
in a set. -/
def Accepts : Expr → Char → Prop
  | .literal text, c => text.toList = [c]
  | .set chars ranges, c => InSet chars ranges c
  | _, _ => False

theorem mem_singles_iff {c : Char} {items : List Item} : c ∈ singles items ↔ .single c ∈ items := by
  rw [singles, List.mem_flatMap]
  constructor
  · rintro ⟨item, member, mem⟩
    cases item with
    | single d => exact List.mem_singleton.mp mem ▸ member
    | range low high => cases mem
  · exact fun member => ⟨.single c, member, List.mem_singleton_self c⟩

/-- The ranges of the set for some items are those among the items. -/
theorem mem_rangePairs_bounds_iff {pair : Char × Char} (items : List Item) :
    pair ∈ rangePairs (bounds items) ↔ .range pair.1 pair.2 ∈ items := by
  induction items with
  | nil => exact iff_of_false List.not_mem_nil List.not_mem_nil
  | cons item items ih =>
      cases item with
      | single d =>
          have same : bounds (.single d :: items) = bounds items := rfl
          rw [same, ih, List.mem_cons]
          exact ⟨.inr, fun member => member.resolve_left nofun⟩
      | range low high =>
          have same : rangePairs (bounds (.range low high :: items)) =
              (low, high) :: rangePairs (bounds items) := rfl
          rw [same, List.mem_cons, ih, List.mem_cons, Prod.ext_iff, Item.range.injEq]

/-- The set for some items holds what one of them covers. -/
theorem inSet_iff {c : Char} (items : List Item) :
    InSet (String.ofList (singles items)) (String.ofList (bounds items)) c ↔
      ∃ item ∈ items, item.Covers c := by
  rw [InSet, String.toList_ofList, String.toList_ofList, mem_singles_iff]
  constructor
  · rintro (member | ⟨pair, member, within⟩)
    · exact ⟨.single c, member, rfl⟩
    · exact ⟨_, (mem_rangePairs_bounds_iff items).mp member, within⟩
  · rintro ⟨item, member, covers⟩
    cases item with
    | single d => exact Or.inl (covers ▸ member)
    | range low high => exact Or.inr ⟨(low, high), (mem_rangePairs_bounds_iff items).mpr member, covers⟩

/-! ## Expressions -/

theorem accepts_ofItems_iff {c : Char} (items : List Item) :
    Accepts (ofItems items) c ↔ ∃ item ∈ items, item.Covers c := by
  unfold ofItems
  split
  · exact iff_of_false id fun ⟨_, member, _⟩ => nomatch member
  · next d =>
    have only : (∃ item ∈ [Item.single d], item.Covers c) ↔ c = d := by
      simp only [List.mem_singleton, exists_eq_left, Item.Covers]
    rw [only, Accepts, String.toList_ofList, List.cons.injEq]
    exact ⟨fun same => same.1.symm, fun same => ⟨same.symm, rfl⟩⟩
  · exact inSet_iff items

theorem ofItems_eq_fail_iff (items : List Item) : ofItems items = .fail ↔ items = [] := by
  unfold ofItems
  split
  · exact iff_of_true rfl rfl
  · exact iff_of_false nofun nofun
  · next nonempty _ => exact iff_of_false nofun nonempty

theorem ofItems_eq_literal_iff (items : List Item) (text : String) :
    ofItems items = .literal text ↔ ∃ c, items = [.single c] ∧ text = String.ofList [c] := by
  unfold ofItems
  split
  · exact iff_of_false nofun fun ⟨_, same, _⟩ => nomatch same
  · next d =>
    constructor
    · rintro ⟨⟩
      exact ⟨d, rfl, rfl⟩
    · rintro ⟨c, same, rfl⟩
      cases same
      rfl
  · next several => exact iff_of_false nofun fun ⟨c, same, _⟩ => several c same

/-! ## Runs -/

section Runs

variable {rules : Rules} {c : Char} {rest : List Char}

/-- A literal that succeeds takes its own text. -/
theorem toList_eq_of_recognizes {text : String} {input consumed : List Char} {result : Recognition}
    (run : Recognizes rules (.literal text) input result)
    (succeeds : result = .success consumed rest) : text.toList = consumed := by
  cases run with
  | literal => exact (Recognition.success.inj succeeds).1
  | literal_fail => cases succeeds

/-- To accept a character is to take it off the input. -/
theorem recognizes_ofItems_iff (items : List Item) :
    Recognizes rules (ofItems items) (c :: rest) (.success [c] rest) ↔ Accepts (ofItems items) c := by
  unfold ofItems
  split
  · exact iff_of_false (fun run => by cases run) id
  · next d =>
    constructor
    · intro run
      exact toList_eq_of_recognizes run rfl
    · intro only
      have begins : c :: rest = (String.ofList [d]).toList ++ rest := congrArg (· ++ rest) only.symm
      have run : Recognizes rules (.literal (String.ofList [d])) (c :: rest) _ := .literal begins
      rwa [only] at run
  · constructor
    · intro run
      cases run with
      | set member => exact member
    · exact .set

end Runs

/-! ## Classes -/

/-- **What a class accepts.** The text of a class is made of parts in one way. Whatever the class is
compiled to accepts exactly the characters that the parts cover, those without a value left out, and
accepts them by taking them off the input; it never matches if no part contributes, and it is a literal
if one character and no range does. -/
theorem read_accepts (text : String) :
    ∃ parts, IsMadeOf text.toList parts ∧ (∀ others, IsMadeOf text.toList others → others = parts) ∧
      let items := parts.filterMap Part.item?
      (∀ c, Accepts (read text) c ↔ ∃ item ∈ items, item.Covers c) ∧
      (∀ rules c rest, Recognizes rules (read text) (c :: rest) (.success [c] rest) ↔
        Accepts (read text) c) ∧
      (read text = .fail ↔ items = []) ∧
      ∀ literal, read text = .literal literal ↔ ∃ c, items = [.single c] ∧ literal = String.ofList [c] := by
  obtain ⟨parts, made⟩ := exists_isMadeOf text.toList
  refine ⟨parts, made, fun others made' => made'.unique made, ?_⟩
  rw [read, made.items_eq]
  exact ⟨fun _ => accepts_ofItems_iff _, fun _ _ _ => recognizes_ofItems_iff _, ofItems_eq_fail_iff _,
    ofItems_eq_literal_iff _⟩

/-- A bound without a value drops its range, and a dash at the end stands for itself. -/
example : IsMadeOf "\\uD800-z+--\\x2d-".toList
    [.range none (some 'z'), .range (some '+') (some '-'), .single (some '-'), .single (some '-')] :=
  .range (by decide) rfl (by decide) rfl <| .range (by decide) rfl (by decide) rfl <|
    .single (by decide) rfl (by rintro ⟨_, _, same⟩; cases same) <|
      .single (by decide) rfl (by rintro ⟨_, _, same⟩; cases same) .nil

end Peg.CharClass
