import Mathlib.Data.List.TakeWhile
import Peg.Proofs.Draft.Positions
import Peg.Proofs.Notation.Line

/-!
# What is read is typeset so that it is read again

The reader of the line notation yields terms of a few shapes, and raw texts that are parts of the line.
Typeset with blanks and slashes between them, such terms are read as what they are; only an alternative
without terms comes back as one with the empty term, which stands for the same.

* `LineNotation.delimited?_eq_some`: what is read up to a delimiter passes it, and stands in the text.
* `Draft.Term.IsReadFrom`, `LineNotation.isReadFrom_of_alternatives?`: the terms that are read from a
  line.
* `Arrowless`: a text in which no arrow begins, whatever follows it.
* `Draft.Term.IsReadFrom.isWritten`: typeset, such a term is read again, on one line and without an
  arrow.
* `LineNotation.isWritten_alternatives`: so is a typeset body, as one that stands for the same term.
-/

namespace Peg

open Text (Ahead IsName isNameChar isBlank)

/-! ## What is read -/

namespace LineNotation

variable {close c : Char} {text raw after rest : List Char}

/-- What is read up to a delimiter stands in front of it, and no delimiter is found in it. -/
theorem delimited?_eq_some (notBackslash : close ≠ '\\')
    (read : delimited? close text = some (raw, after)) :
    text = raw ++ close :: after ∧ Passes close raw := by
  fun_induction delimited? close text generalizing raw after with
  | case1 => cases read
  | case2 rest =>
      cases read
      exact ⟨rfl, .nil close⟩
  | case3 => cases read
  | case4 escaped rest _ ih =>
      obtain ⟨⟨raw', after'⟩, inner, same⟩ := Option.map_eq_some_iff.mp read
      cases same
      obtain ⟨rfl, passes⟩ := ih inner
      exact ⟨rfl, (Passes.escaped notBackslash escaped).append passes⟩
  | case5 c rest notClose plain ih =>
      obtain ⟨⟨raw', after'⟩, inner, same⟩ := Option.map_eq_some_iff.mp read
      cases same
      obtain ⟨rfl, passes⟩ := ih inner
      exact ⟨rfl, (Passes.singleton notClose plain).append passes⟩

end LineNotation

namespace Draft

open LineNotation (repetition?)

/-- The leaf can be read from the line: a raw text stands in the line and ends at its delimiter, and a
name is one. -/
inductive Leaf.IsReadFrom (line : List Char) : Leaf → Prop
  | empty : IsReadFrom line .empty
  | any : IsReadFrom line .any
  | literal {raw : List Char} (passes : Passes '\'' raw) (inside : raw <:+: line) :
    IsReadFrom line (.literal (String.ofList raw))
  | charClass {raw : List Char} (passes : Passes ']' raw) (inside : raw <:+: line) :
    IsReadFrom line (.charClass (String.ofList raw))
  | name {name : List Char} (isName : IsName name) : IsReadFrom line (.name (String.ofList name))

/-- The term can be read from the line: a leaf or a repetition of one. -/
inductive Term.IsReadFrom (line : List Char) : Term → Prop
  | leaf {leaf : Leaf} (isRead : leaf.IsReadFrom line) : IsReadFrom line (.leaf leaf)
  | repetition {leaf : Leaf} {mark : Char} {construct : Construct}
    (stands : repetition? mark = some construct) (isRead : leaf.IsReadFrom line) :
    IsReadFrom line (.group construct [.leaf leaf])

variable {line more : List Char}

theorem Leaf.IsReadFrom.mono {leaf : Leaf} (isRead : leaf.IsReadFrom line) (part : line <:+: more) :
    leaf.IsReadFrom more := by
  cases isRead with
  | empty => exact .empty
  | any => exact .any
  | literal passes inside => exact .literal passes (inside.trans part)
  | charClass passes inside => exact .charClass passes (inside.trans part)
  | name isName => exact .name isName

theorem Term.IsReadFrom.mono {term : Term} (isRead : term.IsReadFrom line) (part : line <:+: more) :
    term.IsReadFrom more := by
  cases isRead with
  | leaf isRead => exact .leaf (isRead.mono part)
  | repetition stands isRead => exact .repetition stands (isRead.mono part)

end Draft

namespace LineNotation

open Draft (Leaf Term)

variable {c : Char} {text rest after : List Char}

/-- A leaf that is read can be read, and what follows it is the end of the text. -/
theorem isReadFrom_of_readLeaf? {leaf : Leaf} (read : readLeaf? c rest = some (leaf, after)) :
    leaf.IsReadFrom rest ∧ after <:+ rest := by
  unfold readLeaf? at read
  split at read
  · obtain ⟨⟨raw, after'⟩, inner, same⟩ := Option.map_eq_some_iff.mp read
    cases same
    obtain ⟨rfl, passes⟩ := delimited?_eq_some (by decide) inner
    exact ⟨.literal passes (List.infix_append' [] raw _), ⟨raw ++ ['\''], List.append_assoc ..⟩⟩
  split at read
  · obtain ⟨⟨raw, after'⟩, inner, same⟩ := Option.map_eq_some_iff.mp read
    cases same
    obtain ⟨rfl, passes⟩ := delimited?_eq_some (by decide) inner
    exact ⟨.charClass passes (List.infix_append' [] raw _), ⟨raw ++ [']'], List.append_assoc ..⟩⟩
  split at read
  · cases read
    exact ⟨.any, List.suffix_refl _⟩
  split at read
  · cases read
    exact ⟨.empty, List.tail_suffix _⟩
  split at read
  · next first =>
    cases read
    have isName : IsName (c :: rest.takeWhile isNameChar) :=
      ⟨List.cons_ne_nil _ _, List.forall_mem_cons.mpr ⟨first, fun _ => List.mem_takeWhile_imp⟩⟩
    exact ⟨.name isName, List.dropWhile_suffix _⟩
  · cases read

theorem readRepetition_suffix (leaf : Leaf) (text : List Char) :
    (readRepetition leaf text).2 <:+ text := by
  unfold readRepetition
  split
  · exact List.suffix_refl _
  · split
    · exact List.suffix_cons _ _
    · exact List.suffix_refl _

theorem isReadFrom_readRepetition {leaf : Leaf} {line : List Char} (isRead : leaf.IsReadFrom line)
    (text : List Char) : (readRepetition leaf text).1.IsReadFrom line := by
  unfold readRepetition
  split
  · exact .leaf isRead
  · split
    · next stands => exact .repetition stands isRead
    · exact .leaf isRead

/-- A term that is read can be read, and what follows it is the end of the text. -/
theorem isReadFrom_of_readTerm? {term : Term} (read : readTerm? c rest = some (term, after)) :
    term.IsReadFrom rest ∧ after <:+ rest := by
  obtain ⟨⟨leaf, middle⟩, inner, same⟩ := Option.map_eq_some_iff.mp read
  obtain ⟨isRead, suffix⟩ := isReadFrom_of_readLeaf? inner
  have term := isReadFrom_readRepetition isRead middle
  have remains := readRepetition_suffix leaf middle
  rw [show readRepetition leaf middle = (_, after) from same] at term remains
  exact ⟨term, remains.trans suffix⟩

/-- The property holds of all terms of the alternatives. -/
def Alternatives.All (P : Term → Prop) (alternatives : Alternatives) : Prop :=
  ∀ terms ∈ alternatives.first :: alternatives.others, ∀ term ∈ terms, P term

namespace Alternatives.All

variable {P Q : Term → Prop} {alternatives : Alternatives}

theorem imp (weaker : ∀ term, P term → Q term) (all : alternatives.All P) : alternatives.All Q :=
  fun terms member term inside => weaker term (all terms member term inside)

theorem cons {term : Term} (holds : P term) (all : alternatives.All P) :
    (alternatives.cons term).All P := by
  obtain ⟨first, others⟩ := List.forall_mem_cons.mp all
  exact List.forall_mem_cons.mpr ⟨List.forall_mem_cons.mpr ⟨holds, first⟩, others⟩

theorem shift (all : alternatives.All P) : alternatives.shift.All P :=
  List.forall_mem_cons.mpr ⟨fun _ member => (List.not_mem_nil member).elim, all⟩

end Alternatives.All

/-- The terms of a body that is read can be read from it. -/
theorem isReadFrom_of_alternatives? {alternatives : Alternatives}
    (read : alternatives? text = some alternatives) : alternatives.All (·.IsReadFrom text) := by
  fun_induction alternatives? text generalizing alternatives with
  | case1 =>
      cases read
      exact List.forall_mem_singleton.mpr fun _ member => (List.not_mem_nil member).elim
  | case2 c rest _ ih => exact (ih read).imp fun _ isRead => isRead.mono (List.suffix_cons c rest).isInfix
  | case3 rest _ ih =>
      obtain ⟨inner, reads, rfl⟩ := Option.map_eq_some_iff.mp read
      exact ((ih reads).imp fun _ isRead => isRead.mono (List.suffix_cons '/' rest).isInfix).shift
  | case4 c rest _ _ term after reads ih =>
      obtain ⟨inner, readsInner, rfl⟩ := Option.map_eq_some_iff.mp read
      obtain ⟨isRead, suffix⟩ := isReadFrom_of_readTerm? reads
      have whole : rest <:+: c :: rest := (List.suffix_cons c rest).isInfix
      have others := (ih readsInner).imp fun _ isRead => isRead.mono (suffix.isInfix.trans whole)
      exact others.cons (isRead.mono whole)
  | case5 => cases read

end LineNotation

/-! ## Arrows -/

/-- No arrow begins in the text, whatever follows it. -/
def Arrowless (text : List Char) : Prop :=
  ∀ rest, Text.splitOnce? ['<', '-'] (text ++ rest) =
    (Text.splitOnce? ['<', '-'] rest).map fun (before, after) => (text ++ before, after)

namespace Arrowless

variable {text more separator : List Char} {c : Char}

theorem nil : Arrowless [] := by
  intro rest
  simp

theorem append (first : Arrowless text) (second : Arrowless more) : Arrowless (text ++ more) := by
  intro rest
  rw [List.append_assoc, first, second, Option.map_map]
  congr 1
  funext read
  exact congrArg (·, read.2) (List.append_assoc text more read.1).symm

theorem singleton (differs : c ≠ '<') : Arrowless [c] := by
  intro rest
  have none : ['<', '-'].isPrefixOf? (c :: rest) = none := by
    rw [List.isPrefixOf?, if_neg (by simpa using differs.symm)]
  rw [List.singleton_append, Text.splitOnce?, none]
  rfl

theorem of_not_mem (absent : '<' ∉ text) : Arrowless text := by
  induction text with
  | nil => exact nil
  | cons c text ih =>
      rw [List.mem_cons, not_or] at absent
      exact (singleton (Ne.symm absent.1)).append (ih absent.2)

/-- Where the text holds no arrow, none is made by a delimiter behind it. -/
theorem delimited (noArrow : ¬['<', '-'] <:+: text) (left : c ≠ '<') (right : c ≠ '-') :
    Arrowless (text ++ [c]) := by
  induction text with
  | nil => exact singleton left
  | cons d text ih =>
      have inner := ih fun found => noArrow (found.trans (List.suffix_cons d text).isInfix)
      intro rest
      have none : ['<', '-'].isPrefixOf? (d :: (text ++ [c] ++ rest)) = none := by
        refine Text.isPrefixOf?_eq_none_iff.mpr fun ⟨after, same⟩ => ?_
        cases text with
        | nil =>
            cases (show '<' :: '-' :: after = d :: c :: rest from same)
            exact right rfl
        | cons e text =>
            cases (show '<' :: '-' :: after = d :: e :: (text ++ [c] ++ rest) from same)
            exact noArrow ⟨[], text, rfl⟩
      rw [List.cons_append, List.cons_append, Text.splitOnce?, none]
      show (Text.splitOnce? _ _).map _ = _
      rw [inner rest, Option.map_map]
      rfl

theorem joinAll {pieces : List (List Char)} (first : Arrowless text) (between : Arrowless separator)
    (arrowless : ∀ piece ∈ pieces, Arrowless piece) :
    Arrowless (text ++ pieces.flatMap (separator ++ ·)) := by
  induction pieces generalizing text with
  | nil =>
      rw [List.flatMap_nil, List.append_nil]
      exact first
  | cons piece pieces ih =>
      obtain ⟨here, arrowless⟩ := List.forall_mem_cons.mp arrowless
      rw [List.flatMap_cons, ← List.append_assoc]
      exact ih (first.append (between.append here)) arrowless

/-- A text without an arrow is not cut at one. -/
theorem splitOnce?_eq_none (arrowless : Arrowless text) : Text.splitOnce? ['<', '-'] text = none := by
  have whole := arrowless []
  rwa [List.append_nil] at whole

end Arrowless

/-- The text stands on one line without blanks at its ends, and no arrow begins in it. -/
structure Neat (text : List Char) : Prop where
  tight : Tight text
  arrowless : Arrowless text

namespace Neat

variable {text separator raw : List Char} {c opening closing : Char}

theorem concat (neat : Neat text) (solid : isBlank c = false) (differs : c ≠ '<') :
    Neat (text ++ [c]) :=
  ⟨neat.tight.concat solid, neat.arrowless.append (.singleton differs)⟩

theorem of_isName (isName : IsName text) : Neat text :=
  ⟨.of_isName isName, .of_not_mem fun member => nomatch isName.2 '<' member⟩

/-- A raw text of a line without an arrow is neat between delimiters. -/
theorem delimited (solid : isBlank opening = false) (solid' : isBlank closing = false)
    (oneLine : '\n' ∉ raw) (noArrow : ¬['<', '-'] <:+: raw) (before : opening ≠ '<')
    (left : closing ≠ '<') (right : closing ≠ '-') : Neat (opening :: raw ++ [closing]) :=
  ⟨.delimited solid solid' oneLine,
    (Arrowless.singleton before).append (.delimited noArrow left right)⟩

theorem joinAll {pieces : List (List Char)} (first : Neat text) (oneLine : '\n' ∉ separator)
    (absent : '<' ∉ separator) (neat : ∀ piece ∈ pieces, Neat piece) :
    Neat (text ++ pieces.flatMap (separator ++ ·)) :=
  ⟨first.tight.joinAll oneLine fun piece member => (neat piece member).tight,
    first.arrowless.joinAll (.of_not_mem absent) fun piece member => (neat piece member).arrowless⟩

end Neat

/-! ## Typeset terms -/

namespace Draft

open LineNotation (ReadsItem ReadsTerm repetition?)

theorem textOfAll_rawText (text : String) : Tree.textOfAll (rawText text) = text := by
  rcases rawText_cases text with ⟨rfl, none⟩ | some
  · rw [none]
    rfl
  · rw [some]
    exact String.append_empty

/-- A raw text between two tokens is typeset between their texts. -/
theorem textOfAll_delimited (opening closing : Kind) (before behind text : String) :
    Tree.textOfAll (.token opening before :: rawText text ++ [.token closing behind]) =
      before ++ text ++ behind := by
  rw [List.cons_append, Tree.textOfAll, Tree.textOfAll_append, textOfAll_rawText, Tree.textOfAll,
    Tree.textOfAll, String.append_empty, String.append_assoc]
  rfl

/-- The typeset term as characters. -/
def Term.chars (term : Term) : List Char :=
  term.tree.text.toList

variable {line : List Char}

theorem chars_delimited {leaf : Leaf} {kind opening closing : Kind} {before behind : Char}
    {raw : List Char} (tree : leaf.tree = .node kind
      (.token opening (String.ofList [before]) :: rawText (String.ofList raw) ++
        [.token closing (String.ofList [behind])])) :
    (Term.leaf leaf).chars = before :: raw ++ [behind] := by
  rw [Term.chars, Term.tree, tree, Tree.text, textOfAll_delimited]
  simp only [String.toList_append, String.toList_ofList]
  rfl

/-- Typeset, a leaf that can be read from a line without an arrow is neat and is read again. -/
theorem Leaf.IsReadFrom.isWritten {leaf : Leaf} (isRead : leaf.IsReadFrom line)
    (oneLine : '\n' ∉ line) (noArrow : ¬['<', '-'] <:+: line) :
    Neat (Term.leaf leaf).chars ∧ ReadsItem (Term.leaf leaf).chars leaf := by
  have clean {raw : List Char} (inside : raw <:+: line) : '\n' ∉ raw ∧ ¬['<', '-'] <:+: raw :=
    ⟨fun member => oneLine (inside.subset member), fun found => noArrow (found.trans inside)⟩
  cases isRead with
  | empty =>
      have solid : Neat ['(', ')'] :=
        ⟨.delimited rfl rfl List.not_mem_nil, .of_not_mem (by decide)⟩
      exact ⟨solid, '(', [')'], rfl, ⟨rfl, by decide⟩, fun _ _ => rfl⟩
  | any => exact ⟨⟨.singleton rfl, .singleton (by decide)⟩, LineNotation.readsLeaf_any.readsItem⟩
  | @literal raw passes inside =>
      obtain ⟨oneLine, noArrow⟩ := clean inside
      have shape : (Term.leaf (.literal (String.ofList raw))).chars = '\'' :: raw ++ ['\''] :=
        chars_delimited rfl
      rw [shape]
      exact ⟨.delimited rfl rfl oneLine noArrow (by decide) (by decide) (by decide),
        (LineNotation.readsLeaf_literal passes).readsItem⟩
  | @charClass raw passes inside =>
      obtain ⟨oneLine, noArrow⟩ := clean inside
      have shape : (Term.leaf (.charClass (String.ofList raw))).chars = '[' :: raw ++ [']'] :=
        chars_delimited rfl
      rw [shape]
      exact ⟨.delimited rfl rfl oneLine noArrow (by decide) (by decide) (by decide),
        (LineNotation.readsLeaf_charClass passes).readsItem⟩
  | @name name isName =>
      have shape : (Term.leaf (.name (String.ofList name))).chars = name := by
        show (String.ofList name ++ "").toList = name
        rw [String.append_empty, String.toList_ofList]
      rw [shape]
      exact ⟨.of_isName isName, (LineNotation.readsLeaf_name isName).readsItem⟩

/-- A mark of repetition is typeset behind what it repeats. -/
theorem chars_repetition {mark : Char} {construct : Construct}
    (stands : repetition? mark = some construct) (leaf : Leaf) :
    (Term.group construct [.leaf leaf]).chars = (Term.leaf leaf).chars ++ [mark] ∧
      isBlank mark = false ∧ mark ≠ '<' := by
  unfold repetition? at stands
  split at stands
  case h_4 => cases stands
  all_goals
    cases stands
    refine ⟨?_, rfl, by decide⟩
    simp only [Term.chars, Term.tree, bodyTrees, tailTrees, Construct.opening, Construct.closing,
      List.nil_append, List.cons_append, Tree.text, Tree.textOfAll, String.append_empty,
      String.toList_append]
    rfl

/-- Typeset, a term that can be read from a line without an arrow is neat and is read again. -/
theorem Term.IsReadFrom.isWritten {term : Term} (isRead : term.IsReadFrom line)
    (oneLine : '\n' ∉ line) (noArrow : ¬['<', '-'] <:+: line) :
    Neat term.chars ∧ ReadsTerm term.chars term := by
  cases isRead with
  | leaf isRead =>
      obtain ⟨neat, reads⟩ := isRead.isWritten oneLine noArrow
      exact ⟨neat, reads.readsTerm⟩
  | @repetition leaf mark construct stands isRead =>
      obtain ⟨neat, reads⟩ := isRead.isWritten oneLine noArrow
      obtain ⟨shape, solid, differs⟩ := chars_repetition stands leaf
      rw [shape]
      exact ⟨neat.concat solid differs, reads.readsTerm_repetition stands⟩

/-- The terms behind the first are typeset one by one, each behind a separator. -/
theorem toList_tailTrees (separator : List Tree) (body : List Term) :
    (Tree.textOfAll (tailTrees separator body)).toList =
      (body.map Term.chars).flatMap ((Tree.textOfAll separator).toList ++ ·) := by
  induction body with
  | nil => rfl
  | cons term body ih =>
      rw [tailTrees, Tree.textOfAll_append, Tree.textOfAll, String.toList_append,
        String.toList_append, ih, List.map_cons, List.flatMap_cons, List.append_assoc]
      rfl

/-- A construct without marks of its own is typeset as its terms with separators between them. -/
theorem chars_group {construct : Construct} (opening : construct.opening = [])
    (closing : construct.closing = []) (term : Term) (body : List Term) :
    (Term.group construct (term :: body)).chars = term.chars ++
      (body.map Term.chars).flatMap ((Tree.textOfAll construct.separator).toList ++ ·) := by
  rw [Term.chars, Term.tree, opening, closing, List.nil_append, List.append_nil, bodyTrees, Tree.text,
    Tree.textOfAll, String.toList_append, toList_tailTrees]
  rfl

end Draft

/-! ## Typeset bodies -/

namespace LineNotation

open Draft (Term)

/-- What is read of a typeset alternative: one without terms is typeset as the empty term. -/
def filled : List Term → List Term
  | [] => [.leaf .empty]
  | terms => terms

theorem sequenceTerm_filled (terms : List Term) :
    sequenceTerm (filled terms) = sequenceTerm terms := by
  cases terms <;> rfl

/-- An alternative is typeset with blanks between its terms. -/
theorem exists_filled_eq (terms : List Term) :
    ∃ first others, filled terms = first :: others ∧ (sequenceTerm terms).chars =
      first.chars ++ (others.map Term.chars).flatMap ([' '] ++ ·) := by
  match terms with
  | [] => exact ⟨.leaf .empty, [], rfl, rfl⟩
  | [term] => exact ⟨term, [], rfl, (List.append_nil _).symm⟩
  | first :: second :: others =>
      exact ⟨first, second :: others, rfl, Draft.chars_group rfl rfl first (second :: others)⟩

/-- A body is typeset with slashes between its alternatives. -/
theorem chars_term (alternatives : Alternatives) :
    alternatives.term.chars = (sequenceTerm alternatives.first).chars ++
      (alternatives.others.map fun terms => (sequenceTerm terms).chars).flatMap
        ([' ', '/', ' '] ++ ·) := by
  obtain ⟨first, others⟩ := alternatives
  cases others with
  | nil => exact (List.append_nil _).symm
  | cons second others =>
      have typeset := @Draft.chars_group .choice rfl rfl (sequenceTerm first)
        ((second :: others).map sequenceTerm)
      rw [List.map_map] at typeset
      exact typeset

variable {line : List Char}

/-- Typeset, an alternative that can be read from a line without an arrow is neat and is read again. -/
theorem isWritten_sequence {terms : List Term} (isRead : ∀ term ∈ terms, term.IsReadFrom line)
    (oneLine : '\n' ∉ line) (noArrow : ¬['<', '-'] <:+: line) :
    Neat (sequenceTerm terms).chars ∧ ReadsSequence (sequenceTerm terms).chars (filled terms) := by
  obtain ⟨first, others, eq, typeset⟩ := exists_filled_eq terms
  have written : ∀ term ∈ first :: others, Neat term.chars ∧ ReadsTerm term.chars term := by
    rw [← eq]
    intro term member
    cases terms with
    | nil =>
        rw [List.mem_singleton.mp member]
        exact Draft.Term.IsReadFrom.isWritten (.leaf .empty) oneLine noArrow
    | cons => exact (isRead term member).isWritten oneLine noArrow
  obtain ⟨⟨neat, reads⟩, writtenOthers⟩ := List.forall_mem_cons.mp written
  rw [typeset, eq]
  refine ⟨neat.joinAll (by decide) (by decide) (List.forall_mem_map.mpr fun term member =>
    (writtenOthers term member).1), reads.readsSequence ?_⟩
  exact List.forall₂_map_left_iff.mpr (List.forall₂_same.mpr fun term member =>
    (writtenOthers term member).2)

/-- Typeset, a body that can be read from a line without an arrow is neat and is read again, as one that
stands for the same term. -/
theorem isWritten_alternatives {alternatives : Alternatives}
    (isRead : alternatives.All (·.IsReadFrom line)) (oneLine : '\n' ∉ line)
    (noArrow : ¬['<', '-'] <:+: line) :
    Neat alternatives.term.chars ∧
      ∃ again, alternatives? alternatives.term.chars = some again ∧
        again.term = alternatives.term := by
  obtain ⟨readsFirst, readsOthers⟩ := List.forall_mem_cons.mp isRead
  obtain ⟨neat, reads⟩ := isWritten_sequence readsFirst oneLine noArrow
  have others : ∀ terms ∈ alternatives.others, Neat (sequenceTerm terms).chars ∧
      ReadsSequence (sequenceTerm terms).chars (filled terms) :=
    fun terms member => isWritten_sequence (readsOthers terms member) oneLine noArrow
  rw [chars_term]
  refine ⟨neat.joinAll (by decide) (by decide) (List.forall_mem_map.mpr fun terms member =>
    (others terms member).1), ⟨filled alternatives.first, alternatives.others.map filled⟩,
    reads.alternatives?_eq ?_, ?_⟩
  · rw [List.forall₂_map_left_iff, List.forall₂_map_right_iff]
    exact List.forall₂_same.mpr fun terms member => (others terms member).2
  · rw [Alternatives.term, Alternatives.term, List.isEmpty_map, sequenceTerm_filled, List.map_cons,
      List.map_cons, sequenceTerm_filled, List.map_map]
    exact congrArg (ite _ _ <| Term.group .choice <| _ :: ·)
      (List.map_congr_left fun terms _ => sequenceTerm_filled terms)

end LineNotation

end Peg
