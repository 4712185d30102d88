import Mathlib.Data.List.Basic
import Peg.Proofs.Expr.Structure

/-!
# Flat sequences and choices

`Expr.seqOf` and `Expr.choiceOf` splice in one level of nesting only. One level is enough when the
operands are flat themselves, and then nothing is lost or merged by splicing early or late.

* `Splice`: what sequence and choice have in common, so that every fact is proved once for both.
* `Expr.IsFlat`: no sequence or choice in the expression has fewer than two parts or a part of its
  own kind.
* `Splice.of_map`: a traversal that keeps expressions tidy commutes with splicing.
* `Expr.recognizer_isFlat`: recognizers are flat, whatever they are taken of.
* `Expr.recognizer_seqOf`, `Expr.recognizer_choiceOf`: recognizers of flat operands are spliced as the
  operands are.
-/

namespace Peg

/-! ## Splicing -/

/-- A construct that splices in nested uses of itself. -/
structure Splice where
  /-- The construct around its operands. -/
  wrap : List Expr → Expr
  /-- What it is without operands. -/
  unit : Expr
  /-- The operands that an expression adds to the construct around it. -/
  parts : Expr → List Expr
  parts_wrap : ∀ items, parts (wrap items) = items
  parts_unit : parts unit = [unit]

namespace Splice

variable {splice : Splice} {items : List Expr} {e : Expr}

/-- The construct around some operands, nested ones spliced in. -/
def of (splice : Splice) (items : List Expr) : Expr :=
  match items.flatMap splice.parts with
  | [] => splice.unit
  | [item] => item
  | items => splice.wrap items

/-- The splicing of sequences. -/
def seq : Splice where
  wrap := .seq
  unit := .empty
  parts := Expr.seqItems
  parts_wrap _ := rfl
  parts_unit := rfl

/-- The splicing of choices. -/
def choice : Splice where
  wrap := .choice
  unit := .fail
  parts := Expr.choiceItems
  parts_wrap _ := rfl
  parts_unit := rfl

/-- The expression adds itself as one operand. -/
def IsSingle (splice : Splice) (e : Expr) : Prop :=
  splice.parts e = [e]

/-- The expression is one operand, or the construct around two or more of them. -/
inductive IsTidy (splice : Splice) : Expr → Prop
  | single {e : Expr} (single : splice.IsSingle e) : IsTidy splice e
  | several {items : List Expr} (two : 2 ≤ items.length)
      (singles : ∀ item ∈ items, splice.IsSingle item) : IsTidy splice (splice.wrap items)

/-- The three shapes of a spliced construct, by the number of its parts. -/
theorem of_cases (splice : Splice) (items : List Expr) :
    (items.flatMap splice.parts = [] ∧ splice.of items = splice.unit) ∨
      (∃ part, items.flatMap splice.parts = [part] ∧ splice.of items = part) ∨
      (2 ≤ (items.flatMap splice.parts).length ∧
        splice.of items = splice.wrap (items.flatMap splice.parts)) := by
  unfold of
  match items.flatMap splice.parts with
  | [] => exact Or.inl ⟨rfl, rfl⟩
  | [part] => exact Or.inr (Or.inl ⟨part, rfl, rfl⟩)
  | _ :: _ :: _ => exact Or.inr (Or.inr ⟨by simp, rfl⟩)

theorem of_several (two : 2 ≤ (items.flatMap splice.parts).length) :
    splice.of items = splice.wrap (items.flatMap splice.parts) := by
  rcases splice.of_cases items with ⟨none, -⟩ | ⟨part, one, -⟩ | ⟨-, eq⟩
  · rw [none] at two
    simp at two
  · rw [one] at two
    simp at two
  · exact eq

/-- Two or more operands that add themselves only are left as they are. -/
theorem of_singles (two : 2 ≤ items.length) (singles : ∀ item ∈ items, splice.IsSingle item) :
    splice.of items = splice.wrap items := by
  have parts : items.flatMap splice.parts = items := by
    rw [List.flatMap_congr singles]
    exact List.flatMap_singleton' items
  rw [of_several (parts.symm ▸ two), parts]

theorem IsTidy.parts_ne_nil (tidy : splice.IsTidy e) : splice.parts e ≠ [] := by
  cases tidy with
  | single single =>
      rw [single]
      exact List.cons_ne_nil _ _
  | several two =>
      rw [splice.parts_wrap]
      rintro rfl
      simp at two

/-- What a tidy expression adds is not spliced any further. -/
theorem IsTidy.isSingle_of_mem_parts (tidy : splice.IsTidy e) {part : Expr}
    (member : part ∈ splice.parts e) : splice.IsSingle part := by
  cases tidy with
  | single single =>
      rw [single] at member
      rwa [List.mem_singleton.mp member]
  | several _ singles =>
      rw [splice.parts_wrap] at member
      exact singles part member

theorem of_singleton (tidy : splice.IsTidy e) : splice.of [e] = e := by
  cases tidy with
  | single single => rw [of, List.flatMap_singleton, single]
  | @several items two =>
      have parts : [splice.wrap items].flatMap splice.parts = items := by
        rw [List.flatMap_singleton, splice.parts_wrap]
      rw [of_several (parts.symm ▸ two), parts]

/-- A construct around at least one tidy operand adds what its operands add. -/
theorem parts_of (tidy : ∀ item ∈ items, splice.IsTidy item) (some : items ≠ []) :
    splice.parts (splice.of items) = items.flatMap splice.parts := by
  rcases splice.of_cases items with ⟨none, -⟩ | ⟨part, one, eq⟩ | ⟨-, eq⟩
  · obtain ⟨item, member⟩ := List.exists_mem_of_ne_nil items some
    exact ((tidy item member).parts_ne_nil (List.flatMap_eq_nil_iff.mp none item member)).elim
  · have member : part ∈ items.flatMap splice.parts := one ▸ List.mem_singleton_self part
    obtain ⟨item, itemMember, partMember⟩ := List.mem_flatMap.mp member
    rw [eq, one, (tidy item itemMember).isSingle_of_mem_parts partMember]
  · rw [eq, splice.parts_wrap]

/-- What holds of the parts of all operands, and so of every construct around two or more such parts,
holds of the spliced construct. -/
theorem of_preserves {P : Expr → Prop} {Q : Expr → Prop} (unit : P splice.unit)
    (parts : ∀ item ∈ items, ∀ part ∈ splice.parts item, Q part ∧ P part)
    (wrap : ∀ parts, 2 ≤ parts.length → (∀ part ∈ parts, Q part ∧ P part) →
      P (splice.wrap parts)) : P (splice.of items) := by
  have all : ∀ part ∈ items.flatMap splice.parts, Q part ∧ P part := by
    intro part member
    obtain ⟨item, itemMember, partMember⟩ := List.mem_flatMap.mp member
    exact parts item itemMember part partMember
  rcases splice.of_cases items with ⟨-, eq⟩ | ⟨part, one, eq⟩ | ⟨two, eq⟩
  · exact eq ▸ unit
  · exact eq ▸ (all part (one ▸ List.mem_singleton_self part)).2
  · exact eq ▸ wrap _ two all

/-- Splicing sees only the operands that are added in the end. -/
theorem of_congr {left right : List Expr}
    (same : left.flatMap splice.parts = right.flatMap splice.parts) :
    splice.of left = splice.of right := by
  rw [of, of, same]

/-- A traversal that yields tidy expressions and goes through the construct part by part commutes with
splicing tidy operands. -/
theorem of_map (splice : Splice) {f : Expr → Expr} (unit : f splice.unit = splice.unit)
    (wrap : ∀ items, f (splice.wrap items) = splice.of (items.map f))
    (yields : ∀ e, splice.IsTidy (f e)) (tidy : ∀ item ∈ items, splice.IsTidy item) :
    f (splice.of items) = splice.of (items.map f) := by
  -- Operand by operand, traversing and then splicing adds what splicing and then traversing adds.
  have operand : ∀ item ∈ items,
      splice.parts (f item) = (splice.parts item).flatMap fun part => splice.parts (f part) := by
    intro item member
    cases tidy item member with
    | single single => rw [single, List.flatMap_singleton]
    | @several parts two _ =>
        rw [wrap, splice.parts_wrap, parts_of, List.flatMap_map]
        · intro part partMember
          obtain ⟨source, -, rfl⟩ := List.mem_map.mp partMember
          exact yields source
        · rintro none
          rw [List.map_eq_nil_iff.mp none] at two
          simp at two
  have added : splice.of (items.map f) = splice.of ((items.flatMap splice.parts).map f) := by
    apply of_congr
    rw [List.flatMap_map, List.flatMap_map, List.flatMap_assoc]
    exact List.flatMap_congr operand
  rw [added]
  rcases splice.of_cases items with ⟨none, eq⟩ | ⟨part, one, eq⟩ | ⟨-, eq⟩
  · rw [eq, none, unit]
    rfl
  · rw [eq, one, List.map_singleton, of_singleton (yields part)]
  · rw [eq, wrap]

end Splice

/-! ## Flat expressions -/

namespace Expr

/-- A sequence. -/
def isSeq : Expr → Bool
  | .seq _ => true
  | _ => false

/-- A choice. -/
def isChoice : Expr → Bool
  | .choice _ => true
  | _ => false

/-- Every sequence and every choice in the expression has two or more parts, none of them of its own
kind. -/
inductive IsFlat : Expr → Prop
  | atom (a : Atom) : IsFlat (.atom a)
  | unary (operator : Operator) {operand : Expr} (flat : IsFlat operand) :
    IsFlat (.unary operator operand)
  | seq {items : List Expr} (two : 2 ≤ items.length)
    (kinds : ∀ item ∈ items, item.isSeq = false) (flat : ∀ item ∈ items, IsFlat item) :
    IsFlat (.seq items)
  | choice {alternatives : List Expr} (two : 2 ≤ alternatives.length)
    (kinds : ∀ item ∈ alternatives, item.isChoice = false)
    (flat : ∀ item ∈ alternatives, IsFlat item) : IsFlat (.choice alternatives)
  | action (func : String) (span : Text.Span) {inner : Expr} {params : List Expr}
    (flat : IsFlat inner) (flatParams : ∀ param ∈ params, IsFlat param) :
    IsFlat (.action func span inner params)

variable {e part : Expr} {items : List Expr}

theorem isSingle_seq (kind : e.isSeq = false) : Splice.seq.IsSingle e := by
  cases e with
  | seq => cases kind
  | _ => rfl

theorem isSingle_choice (kind : e.isChoice = false) : Splice.choice.IsSingle e := by
  cases e with
  | choice => cases kind
  | _ => rfl

theorem IsFlat.isTidy_seq (flat : e.IsFlat) : Splice.seq.IsTidy e := by
  cases flat with
  | seq two kinds _ => exact .several two fun item member => isSingle_seq (kinds item member)
  | _ => exact .single rfl

theorem IsFlat.isTidy_choice (flat : e.IsFlat) : Splice.choice.IsTidy e := by
  cases flat with
  | choice two kinds _ => exact .several two fun item member => isSingle_choice (kinds item member)
  | _ => exact .single rfl

theorem IsFlat.of_mem_seqItems (flat : e.IsFlat) (member : part ∈ e.seqItems) :
    part.isSeq = false ∧ part.IsFlat := by
  cases flat with
  | seq _ kinds flat => exact ⟨kinds part member, flat part member⟩
  | atom => exact List.mem_singleton.mp member ▸ ⟨rfl, .atom _⟩
  | unary _ flat => exact List.mem_singleton.mp member ▸ ⟨rfl, .unary _ flat⟩
  | choice two kinds flat => exact List.mem_singleton.mp member ▸ ⟨rfl, .choice two kinds flat⟩
  | action _ _ flat flatParams =>
      exact List.mem_singleton.mp member ▸ ⟨rfl, .action _ _ flat flatParams⟩

theorem IsFlat.of_mem_choiceItems (flat : e.IsFlat) (member : part ∈ e.choiceItems) :
    part.isChoice = false ∧ part.IsFlat := by
  cases flat with
  | choice _ kinds flat => exact ⟨kinds part member, flat part member⟩
  | atom => exact List.mem_singleton.mp member ▸ ⟨rfl, .atom _⟩
  | unary _ flat => exact List.mem_singleton.mp member ▸ ⟨rfl, .unary _ flat⟩
  | seq two kinds flat => exact List.mem_singleton.mp member ▸ ⟨rfl, .seq two kinds flat⟩
  | action _ _ flat flatParams =>
      exact List.mem_singleton.mp member ▸ ⟨rfl, .action _ _ flat flatParams⟩

/-- A sequence spliced from flat items is flat. -/
theorem isFlat_seqOf (flat : ∀ item ∈ items, item.IsFlat) : (seqOf items).IsFlat := by
  apply Splice.seq.of_preserves (.atom _)
  · intro item itemMember part partMember
    exact (flat item itemMember).of_mem_seqItems partMember
  · intro parts two all
    exact .seq two (fun part member => (all part member).1) fun part member => (all part member).2

/-- A choice spliced from flat alternatives is flat. -/
theorem isFlat_choiceOf (flat : ∀ item ∈ items, item.IsFlat) : (choiceOf items).IsFlat := by
  apply Splice.choice.of_preserves (.atom _)
  · intro item itemMember part partMember
    exact (flat item itemMember).of_mem_choiceItems partMember
  · intro parts two all
    exact .choice two (fun part member => (all part member).1) fun part member =>
      (all part member).2

/-! ## Recognizers -/

theorem recognizer_seq (items : List Expr) :
    (Expr.seq items).recognizer = seqOf (items.map recognizer) := by
  rw [recognizer, recognizers_eq_map]

theorem recognizer_choice (items : List Expr) :
    (Expr.choice items).recognizer = choiceOf (items.map recognizer) := by
  rw [recognizer, recognizers_eq_map]

/-- Taking tree construction and actions away leaves a flat expression, also where it brings sequences
into sequences or choices into choices. -/
theorem recognizer_isFlat (e : Expr) : e.recognizer.IsFlat := by
  induction e with
  | atom a => exact .atom a
  | unary operator operand ih =>
      rw [recognizer]
      split
      · exact ih
      · exact .unary operator ih
  | seq items ih =>
      rw [recognizer_seq]
      exact isFlat_seqOf (List.forall_mem_map.mpr ih)
  | choice items ih =>
      rw [recognizer_choice]
      exact isFlat_choiceOf (List.forall_mem_map.mpr ih)
  | action func span inner params ih =>
      rw [recognizer]
      exact ih

/-- Splicing flat items and then taking the recognizer is taking recognizers and then splicing. -/
theorem recognizer_seqOf (flat : ∀ item ∈ items, item.IsFlat) :
    (seqOf items).recognizer = seqOf (items.map recognizer) :=
  Splice.seq.of_map rfl recognizer_seq (fun e => e.recognizer_isFlat.isTidy_seq) fun item member =>
    (flat item member).isTidy_seq

/-- Splicing flat alternatives and then taking the recognizer is taking recognizers and then
splicing. -/
theorem recognizer_choiceOf (flat : ∀ item ∈ items, item.IsFlat) :
    (choiceOf items).recognizer = choiceOf (items.map recognizer) :=
  Splice.choice.of_map rfl recognizer_choice (fun e => e.recognizer_isFlat.isTidy_choice)
    fun item member => (flat item member).isTidy_choice

end Expr

end Peg
