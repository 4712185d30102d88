import Peg.Proofs.Notation.Leaf

/-!
# Printed bodies are read back

The expressions that the line notation can write are printed without parentheses, and what is printed
for them is read term by term, alternative by alternative.

* `Expr.IsTerm`, `Expr.IsSequence`, `Expr.IsLineBody`: what the line notation can write.
* `LineNotation.ReadsItem`: a text is read as a leaf, in parentheses or not.
* `LineNotation.ReadsTerm`: a text is read as a term wherever a blank or nothing follows.
* `Expr.IsLineBody.exists_alternatives?`: a printed body is read as one that stands for it.
-/

namespace Peg

open Text (Ahead IsName isNameChar isBlank)

/-! ## What the line notation can write -/

namespace Expr

/-- A leaf or a repetition of a leaf. -/
inductive IsTerm : Expr → Prop
  | leaf {a : Atom} (isLeaf : a.IsLeaf) : IsTerm (.atom a)
  | many {a : Atom} (isLeaf : a.IsLeaf) : IsTerm (.unary .many (.atom a))
  | many1 {a : Atom} (isLeaf : a.IsLeaf) : IsTerm (.unary .many1 (.atom a))
  | optional {a : Atom} (isLeaf : a.IsLeaf) : IsTerm (.unary .optional (.atom a))

/-- A term or a sequence of two or more. -/
inductive IsSequence : Expr → Prop
  | term {e : Expr} (isTerm : e.IsTerm) : IsSequence e
  | seq {items : List Expr} (two : 2 ≤ items.length) (terms : ∀ item ∈ items, item.IsTerm) :
    IsSequence (.seq items)

/-- A sequence or a choice between two or more. -/
inductive IsLineBody : Expr → Prop
  | sequence {e : Expr} (isSequence : e.IsSequence) : IsLineBody e
  | choice {alternatives : List Expr} (two : 2 ≤ alternatives.length)
    (sequences : ∀ item ∈ alternatives, item.IsSequence) : IsLineBody (.choice alternatives)

variable {e : Expr} {items : List Expr}

theorem IsTerm.three_le_precedence (isTerm : e.IsTerm) : 3 ≤ e.precedence := by
  cases isTerm with
  | leaf => exact Nat.le_succ 3
  | _ => exact Nat.le_refl 3

theorem IsTerm.two_le_precedence (isTerm : e.IsTerm) : 2 ≤ e.precedence :=
  Nat.le_of_succ_le isTerm.three_le_precedence

theorem IsTerm.isSeq_eq_false (isTerm : e.IsTerm) : e.isSeq = false := by
  cases isTerm <;> rfl

theorem IsTerm.seqOf_singleton (isTerm : e.IsTerm) : seqOf [e] = e :=
  Splice.of_singleton (.single (isSingle_seq isTerm.isSeq_eq_false))

theorem IsSequence.one_le_precedence (isSequence : e.IsSequence) : 1 ≤ e.precedence := by
  cases isSequence with
  | term isTerm => exact Nat.le_trans (by decide) isTerm.three_le_precedence
  | seq => exact Nat.le_refl 1

theorem IsSequence.isChoice_eq_false (isSequence : e.IsSequence) : e.isChoice = false := by
  cases isSequence with
  | term isTerm => cases isTerm <;> rfl
  | seq => rfl

theorem parenthesizeIf_of_le {least : Nat} (enough : least ≤ e.precedence) (text : List Char) :
    parenthesizeIf (e.precedence < least) text = text := by
  have binds : decide (e.precedence < least) = false := decide_eq_false (Nat.not_lt.mpr enough)
  rw [binds]
  rfl

/-- A sequence is spliced from terms, and they are printed with blanks between them. -/
theorem IsSequence.exists_terms (isSequence : e.IsSequence) :
    ∃ first others, (∀ item ∈ first :: others, item.IsTerm) ∧ e = seqOf (first :: others) ∧
      e.displayChars = first.displayChars ++ displayTail [' '] 2 others := by
  cases isSequence with
  | term isTerm =>
      exact ⟨e, [], List.forall_mem_singleton.mpr isTerm, isTerm.seqOf_singleton.symm,
        (List.append_nil _).symm⟩
  | @seq items two terms =>
      have whole : seqOf items = .seq items :=
        Splice.seq.of_singles two fun item member => isSingle_seq (terms item member).isSeq_eq_false
      obtain ⟨first, second, others, rfl⟩ := exists_cons_cons two
      have binds : 2 ≤ first.precedence := (terms first List.mem_cons_self).two_le_precedence
      refine ⟨first, second :: others, terms, whole.symm, ?_⟩
      rw [displayChars, displayJoined, parenthesizeIf_of_le binds]

end Expr

/-! ## Terms -/

namespace LineNotation

open Draft (Leaf Construct Term)

/-- A term begins with the character: it is no blank and does not separate alternatives. -/
def BeginsTerm (c : Char) : Prop :=
  isBlank c = false ∧ c ≠ '/'

theorem BeginsLeaf.beginsTerm {c : Char} (begins : BeginsLeaf c) : BeginsTerm c :=
  ⟨begins.isBlank_eq_false, begins.ne (by decide) (by decide) (by decide) rfl⟩

/-- The text is read as the leaf, which may stand in parentheses, wherever nothing follows that
continues a name. -/
def ReadsItem (text : List Char) (leaf : Leaf) : Prop :=
  ∃ c more, text = c :: more ∧ BeginsTerm c ∧
    ∀ rest, Ahead (isNameChar · = false) rest → readLeaf? c (more ++ rest) = some (leaf, rest)

/-- The text is read as the term wherever a blank or nothing follows. -/
def ReadsTerm (text : List Char) (term : Term) : Prop :=
  ∃ c more, text = c :: more ∧ BeginsTerm c ∧
    ∀ rest, Ahead (isBlank · = true) rest → readTerm? c (more ++ rest) = some (term, rest)

variable {text rest : List Char} {leaf : Leaf} {term : Term}

theorem ReadsLeaf.readsItem (reads : ReadsLeaf text leaf) : ReadsItem text leaf := by
  obtain ⟨c, more, eq, begins, reads⟩ := reads
  exact ⟨c, more, eq, begins.beginsTerm, reads⟩

theorem readRepetition_of_blank (ends : Ahead (isBlank · = true) rest) :
    readRepetition leaf rest = (.leaf leaf, rest) := by
  cases rest with
  | nil => rfl
  | cons c rest =>
      have none : repetition? c = none := by
        have blank := ends.head
        unfold repetition?
        split
        · cases blank
        · cases blank
        · cases blank
        · rfl
      rw [readRepetition, none]

theorem ReadsItem.readsTerm (reads : ReadsItem text leaf) : ReadsTerm text (.leaf leaf) := by
  obtain ⟨c, more, rfl, begins, reads⟩ := reads
  refine ⟨c, more, rfl, begins, fun rest ends => ?_⟩
  rw [readTerm?, reads rest (ends.imp fun _ => Text.isNameChar_eq_false), Option.map_some]
  exact congrArg some (readRepetition_of_blank ends)

/-- A mark of repetition behind a leaf belongs to it. -/
theorem ReadsItem.readsTerm_repetition {mark : Char} {construct : Construct}
    (reads : ReadsItem text leaf) (stands : repetition? mark = some construct) :
    ReadsTerm (text ++ [mark]) (.group construct [.leaf leaf]) := by
  obtain ⟨c, more, rfl, begins, reads⟩ := reads
  refine ⟨c, more ++ [mark], rfl, begins, fun rest _ => ?_⟩
  have noName : isNameChar mark = false := by
    unfold repetition? at stands
    split at stands
    · rfl
    · rfl
    · rfl
    · cases stands
  have marked : readRepetition leaf (mark :: rest) = (.group construct [.leaf leaf], rest) := by
    rw [readRepetition.eq_def]
    simp only [stands]
  rw [readTerm?, List.append_assoc, List.singleton_append, reads _ (.cons noName), Option.map_some]
  exact congrArg some marked

theorem alternatives?_nil : alternatives? [] = some ⟨[], []⟩ := by
  rw [alternatives?.eq_def]

theorem alternatives?_cons (c : Char) (rest : List Char) :
    alternatives? (c :: rest) =
      if isBlank c then alternatives? rest
      else if c = '/' then (alternatives? rest).map .shift
      else (readTerm? c rest).bind fun (term, after) => (alternatives? after).map (.cons term) := by
  rw [alternatives?.eq_def]
  dsimp only
  congr 2
  split
  · next read =>
    rw [read]
    rfl
  · next read =>
    rw [read]
    rfl

theorem alternatives?_space (text : List Char) : alternatives? (' ' :: text) = alternatives? text := by
  have blank : isBlank ' ' = true := rfl
  rw [alternatives?_cons, if_pos blank]

theorem alternatives?_slash (text : List Char) :
    alternatives? ('/' :: text) = (alternatives? text).map .shift := by
  rw [alternatives?_cons, if_neg (by decide), if_pos rfl]

/-- A term at the beginning of a body is read first. -/
theorem ReadsTerm.alternatives?_append (reads : ReadsTerm text term)
    (ends : Ahead (isBlank · = true) rest) :
    alternatives? (text ++ rest) = (alternatives? rest).map (.cons term) := by
  obtain ⟨c, more, rfl, ⟨solid, notSlash⟩, reads⟩ := reads
  rw [List.cons_append, alternatives?_cons, if_neg (Bool.eq_false_iff.mp solid), if_neg notSlash,
    reads rest ends]
  rfl

/-- Terms in front of the first alternative. -/
def Alternatives.prepend (terms : List Term) (alternatives : Alternatives) : Alternatives :=
  ⟨terms ++ alternatives.first, alternatives.others⟩

/-- At the beginning of a body the text is read as terms of the first alternative. -/
def ReadsSequence (text : List Char) (terms : List Term) : Prop :=
  ∀ rest, Ahead (isBlank · = true) rest →
    alternatives? (text ++ rest) = (alternatives? rest).map (.prepend terms)

/-- A blank is ahead where one was, or in front of the next piece. -/
theorem ahead_flatMap_space (ends : Ahead (isBlank · = true) rest) (pieces : List (List Char)) :
    Ahead (isBlank · = true) (pieces.flatMap ([' '] ++ ·) ++ rest) := by
  cases pieces with
  | nil => exact ends
  | cons piece pieces => exact .cons rfl

/-- Terms with blanks between them are read one by one. -/
theorem ReadsTerm.readsSequence {pieces : List (List Char)} {terms : List Term}
    (reads : ReadsTerm text term) (others : List.Forall₂ ReadsTerm pieces terms) :
    ReadsSequence (text ++ pieces.flatMap ([' '] ++ ·)) (term :: terms) := by
  intro rest ends
  induction others generalizing text term with
  | nil =>
      rw [List.flatMap_nil, List.append_nil, reads.alternatives?_append ends]
      rfl
  | @cons piece next pieces terms reads' _ ih =>
      have shape : (piece :: pieces).flatMap ([' '] ++ ·) ++ rest =
          ' ' :: (piece ++ pieces.flatMap ([' '] ++ ·) ++ rest) := by
        rw [List.flatMap_cons]
        rfl
      rw [List.append_assoc, reads.alternatives?_append (ahead_flatMap_space ends _), shape,
        alternatives?_space, ih reads', Option.map_map]
      rfl

/-- Alternatives with slashes between them are read one by one. -/
theorem ReadsSequence.alternatives?_eq {pieces : List (List Char)} {first : List Term}
    {others : List (List Term)} (reads : ReadsSequence text first)
    (readsOthers : List.Forall₂ ReadsSequence pieces others) :
    alternatives? (text ++ pieces.flatMap ([' ', '/', ' '] ++ ·)) = some ⟨first, others⟩ := by
  induction readsOthers generalizing text first with
  | nil =>
      rw [List.flatMap_nil, reads [] .nil, alternatives?_nil, Option.map_some, Alternatives.prepend,
        List.append_nil]
  | @cons piece next pieces others reads' _ ih =>
      have shape : (piece :: pieces).flatMap ([' ', '/', ' '] ++ ·) =
          ' ' :: '/' :: ' ' :: (piece ++ pieces.flatMap ([' ', '/', ' '] ++ ·)) := by
        rw [List.flatMap_cons]
        rfl
      rw [shape, reads _ (.cons rfl), alternatives?_space, alternatives?_slash, alternatives?_space,
        ih reads', Option.map_some, Option.map_some, Alternatives.prepend, Alternatives.shift,
        List.append_nil]

end LineNotation

/-! ## Bodies -/

namespace Expr

open LineNotation
open Draft (Term)

variable {e : Expr} {items : List Expr}

/-- A printed repetition of a leaf is read as a term that stands for it. -/
theorem exists_readsTerm_repetition {a : Atom} (isLeaf : a.IsLeaf) (mark : Char)
    {construct : Draft.Construct} {operator : Operator} (reads : repetition? mark = some construct)
    (stands : construct.repetition? = some operator) :
    ∃ term : Term, term.Means (.unary operator (.atom a)) ∧
      ReadsTerm (displayAtom a ++ [mark]) term := by
  obtain ⟨leaf, sound, value, readsLeaf⟩ := isLeaf.exists_readsLeaf
  exact ⟨.group construct [.leaf leaf], .repetition stands (.leaf sound value),
    readsLeaf.readsItem.readsTerm_repetition reads⟩

/-- A printed term is read as a term that stands for it. -/
theorem IsTerm.exists_readsTerm (isTerm : e.IsTerm) :
    ∃ term : Term, term.Means e ∧ ReadsTerm e.displayChars term := by
  cases isTerm with
  | leaf isLeaf =>
      obtain ⟨leaf, sound, value, readsLeaf⟩ := isLeaf.exists_readsLeaf
      exact ⟨.leaf leaf, .leaf sound value, readsLeaf.readsItem.readsTerm⟩
  | many isLeaf => exact exists_readsTerm_repetition isLeaf '*' rfl rfl
  | many1 isLeaf => exact exists_readsTerm_repetition isLeaf '+' rfl rfl
  | optional isLeaf => exact exists_readsTerm_repetition isLeaf '?' rfl rfl

/-- Where no item needs parentheses, the printed items stand behind separators as they are. -/
theorem displayTail_eq_flatMap {separator : List Char} {least : Nat}
    (binds : ∀ item ∈ items, least ≤ item.precedence) :
    displayTail separator least items = (items.map displayChars).flatMap (separator ++ ·) := by
  induction items with
  | nil => rfl
  | cons item items ih =>
      obtain ⟨here, others⟩ := List.forall_mem_cons.mp binds
      rw [displayTail, parenthesizeIf_of_le here, ih others, List.map_cons, List.flatMap_cons]

/-- Where each item is printed as something that stands for it, so are all of them together. -/
theorem exists_forall₂_means {α : Type} {Reads : List Char → α → Prop} {Stands : α → Expr → Prop}
    (each : ∀ item ∈ items, ∃ x, Stands x item ∧ Reads item.displayChars x) :
    ∃ xs, List.Forall₂ Stands xs items ∧ List.Forall₂ Reads (items.map displayChars) xs := by
  induction items with
  | nil => exact ⟨[], .nil, .nil⟩
  | cons item items ih =>
      obtain ⟨⟨x, stands, reads⟩, others⟩ := List.forall_mem_cons.mp each
      obtain ⟨xs, standsOthers, readsOthers⟩ := ih others
      exact ⟨x :: xs, .cons stands standsOthers, .cons reads readsOthers⟩

/-- A printed sequence is read as terms that together stand for it. -/
theorem IsSequence.exists_readsSequence (isSequence : e.IsSequence) :
    ∃ body, (sequenceTerm body).Means e ∧ ReadsSequence e.displayChars body := by
  obtain ⟨first, others, terms, rfl, display⟩ := isSequence.exists_terms
  obtain ⟨isTerm, terms⟩ := List.forall_mem_cons.mp terms
  obtain ⟨term, meansFirst, readsFirst⟩ := isTerm.exists_readsTerm
  obtain ⟨body, means, reads⟩ := exists_forall₂_means fun item member =>
    (terms item member).exists_readsTerm
  refine ⟨term :: body, ?_, ?_⟩
  · cases means with
    | nil =>
        rw [isTerm.seqOf_singleton]
        exact meansFirst
    | cons meansSecond means => exact .seq (.cons meansFirst (.cons meansSecond means))
  · rw [display, displayTail_eq_flatMap fun item member => (terms item member).two_le_precedence]
    exact readsFirst.readsSequence reads

/-- A printed body is read as one that stands for it. -/
theorem IsLineBody.exists_alternatives? (isBody : e.IsLineBody) :
    ∃ alternatives, alternatives? e.displayChars = some alternatives ∧
      alternatives.term.Means e := by
  cases isBody with
  | sequence isSequence =>
      obtain ⟨body, means, reads⟩ := isSequence.exists_readsSequence
      have whole := reads.alternatives?_eq .nil
      rw [List.flatMap_nil, List.append_nil] at whole
      exact ⟨_, whole, means⟩
  | @choice items two sequences =>
      have single : choiceOf items = .choice items :=
        Splice.choice.of_singles two fun item member =>
          isSingle_choice (sequences item member).isChoice_eq_false
      obtain ⟨first, second, others, rfl⟩ := exists_cons_cons two
      obtain ⟨isSequence, sequences⟩ := List.forall_mem_cons.mp sequences
      obtain ⟨body, meansFirst, readsFirst⟩ := isSequence.exists_readsSequence
      have each : ∀ item ∈ second :: others, ∃ body,
          (sequenceTerm body).Means item ∧ ReadsSequence item.displayChars body :=
        fun item member => (sequences item member).exists_readsSequence
      obtain ⟨bodies, means, reads⟩ := exists_forall₂_means each
      have whole := readsFirst.alternatives?_eq reads
      rw [← displayTail_eq_flatMap fun item member => (sequences item member).one_le_precedence]
        at whole
      have shape : (Expr.choice (first :: second :: others)).displayChars =
          first.displayChars ++ displayTail [' ', '/', ' '] 1 (second :: others) := by
        rw [displayChars, displayJoined, parenthesizeIf_of_le isSequence.one_le_precedence]
      refine ⟨_, shape ▸ whole, ?_⟩
      cases means with
      | @cons next _ bodies _ meansSecond means =>
          have all : List.Forall₂ Term.Means ((body :: next :: bodies).map sequenceTerm)
              (first :: second :: others) :=
            List.forall₂_map_left_iff.mpr (.cons meansFirst (.cons meansSecond means))
          exact single ▸ .choice all

end Expr

end Peg
