import Mathlib.Data.List.TakeWhile
import Peg.Expr.Printer
import Peg.Proofs.Notation.Leaf

/-!
# A reader of printed expressions

What was printed is read back level by level, from choice down to what needs no parentheses: each level
reads the next tighter one and then what its own constructs put before, between or behind it.

* `Expr.plain`: the expression up to what is not printed.
* `Reader.read?`, `Reader.list?`: the reader for one expression and for several with a separator between
  them.
* `Reader.Stops`: nothing of a level follows, so an expression of that level ends there.
* `Reader.read?_descend`, `Reader.read?_of_le`: what is read at a level is read at every looser one, if
  nothing of that level follows.
-/

namespace Peg

open Text (Span Ahead IsName isNameChar)

/-! ## What is not printed -/

/-- The atom as far as it is printed: references have no place, and the empty literal matches what the
empty expression matches. -/
def Atom.plain : Atom → Atom
  | .literal text => if text.isEmpty then .empty else .literal text
  | other => other.unplaced

/-- The expression as far as it is printed: without the places of references and actions, and with the
empty expression for the empty literal. -/
def Expr.plain (e : Expr) : Expr :=
  e.map Atom.plain fun _ => ⟨0, 0⟩

namespace Reader

/-! ## Pieces -/

/-- A name with a colon and a blank behind it, and what follows. -/
def label? (text : List Char) : Option (String × List Char) :=
  match text.dropWhile isNameChar with
  | ':' :: ' ' :: rest =>
    if text.takeWhile isNameChar = [] then none
    else some (String.ofList (text.takeWhile isNameChar), rest)
  | _ => none

/-- The operator that is printed before its operand, and what follows. -/
def leading? : List Char → Option (Operator × List Char)
  | '&' :: rest => some (.and, rest)
  | '!' :: rest => some (.not, rest)
  | text => (label? text).map fun (label, rest) => (.edge label, rest)

/-- The operator that is printed behind its operand. -/
def trailing? : Char → Option Operator
  | '*' => some .many
  | '+' => some .many1
  | '?' => some .optional
  | _ => none

/-- The expression with the operator behind it, if there is one. -/
def applyTrailing (e : Expr) : List Char → Expr × List Char
  | [] => (e, [])
  | c :: rest =>
    match trailing? c with
    | some operator => (.unary operator e, rest)
    | none => (e, c :: rest)

/-- What stands around an expression, or around the parameters of an action. -/
inductive Bracket where
  | paren
  | node
  | fold (label : String)
  | call (func : String)

/-- The bracket that is opened, and what follows. -/
def bracket? : List Char → Option (Bracket × List Char)
  | '(' :: rest => some (.paren, rest)
  | '{' :: ' ' :: rest => some (.node, rest)
  | '^' :: rest =>
    match (label? rest).getD ("", rest) with
    | (label, '{' :: ' ' :: rest) => some (.fold label, rest)
    | _ => none
  | '@' :: rest =>
    match rest.dropWhile isNameChar with
    | '(' :: after => some (.call (String.ofList (rest.takeWhile isNameChar)), after)
    | _ => none
  | _ => none

/-- The tag before a closing brace, and what follows. -/
def tag? : List Char → Option (String × List Char)
  | ' ' :: '}' :: rest => some ("", rest)
  | ' ' :: '#' :: rest =>
    match rest.dropWhile isNameChar with
    | ' ' :: '}' :: after => some (String.ofList (rest.takeWhile isNameChar), after)
    | _ => none
  | _ => none

/-- The expression that a bracket makes up with what stands in it, once the bracket is closed. -/
def Bracket.close? : Bracket → List Expr → List Char → Option (Expr × List Char)
  | .paren, [inner], ')' :: rest => some (inner, rest)
  | .node, [inner], text => (tag? text).map fun (tag, rest) => (.unary (.node tag 0) inner, rest)
  | .fold label, [inner], text =>
    (tag? text).map fun (tag, rest) => (.unary (.fold label tag 0) inner, rest)
  | .call func, params, ')' :: rest =>
    some (.action func ⟨0, 0⟩ (actionInner func params) params, rest)
  | _, _, _ => none

/-- A reference by a quoted name from what follows the first quote. -/
def quoted? (text : List Char) : Option (Expr × List Char) :=
  match text.dropWhile (· ≠ '"') with
  | [] => none
  | quote :: rest =>
    some (.ref (.named (String.ofList ('"' :: text.takeWhile (· ≠ '"') ++ [quote]))), rest)

/-- An expression without parts, and what follows. -/
def atom? : List Char → Option (Expr × List Char)
  | [] => none
  | c :: rest =>
    if c = '"' then quoted? rest
    else (LineNotation.readLeaf? c rest).map fun (leaf, rest) => (leaf.expr.plain, rest)

/-- An expression can begin with the character. -/
def begins (c : Char) : Bool :=
  isNameChar c || ['\'', '[', '.', '"', '(', '{', '^', '@', '&', '!'].contains c

/-- What follows the separator, if an expression can begin there. -/
def behind? (separator text : List Char) : Option (List Char) :=
  match separator.isPrefixOf? text with
  | some (c :: rest) => if begins c then some (c :: rest) else none
  | _ => none

/-- One expression stands for itself, several are wrapped. -/
def gather (wrap : List Expr → Expr) : List Expr → Expr
  | [e] => e
  | items => wrap items

theorem label?_length_lt {text rest : List Char} {label : String}
    (read : label? text = some (label, rest)) : rest.length < text.length := by
  unfold label? at read
  split at read
  · next after eq =>
    have bound := (List.dropWhile_sublist isNameChar (l := text)).length_le
    split at read
    · cases read
    · cases read
      rw [eq] at bound
      simp only [List.length_cons] at bound
      omega
  · cases read

theorem leading?_length_lt {text rest : List Char} {operator : Operator}
    (read : leading? text = some (operator, rest)) : rest.length < text.length := by
  unfold leading? at read
  split at read
  · cases read
    simp
  · cases read
    simp
  · obtain ⟨⟨label, after⟩, found, same⟩ := Option.map_eq_some_iff.mp read
    cases same
    exact label?_length_lt found

theorem bracket?_length_lt {text rest : List Char} {bracket : Bracket}
    (read : bracket? text = some (bracket, rest)) : rest.length < text.length := by
  unfold bracket? at read
  split at read
  · cases read
    exact Nat.lt_succ_self _
  · cases read
    simp only [List.length_cons]
    omega
  · next after =>
    split at read
    · next label more eq =>
      cases read
      cases found : label? after with
      | none =>
          rw [found] at eq
          cases eq
          simp only [List.length_cons]
          omega
      | some pair =>
          obtain ⟨label', more'⟩ := pair
          have bound := label?_length_lt found
          rw [found] at eq
          cases eq
          simp only [List.length_cons] at bound ⊢
          omega
    · cases read
  · next after =>
    split at read
    · next more eq =>
      cases read
      have bound := (List.dropWhile_sublist isNameChar (l := after)).length_le
      rw [eq] at bound
      simp only [List.length_cons] at bound ⊢
      omega
    · cases read
  · cases read

/-! ## The reader -/

mutual

/-- Reads an expression that holds together as `level` says, from choice at 0 to what needs no
parentheses at 4, and leaves what follows. -/
def read? : (level : Nat) → (text : List Char) → Option (Expr × List Char)
  | 0, text =>
    (list? [' ', '/', ' '] 1 text).map fun (items, rest) => (gather .choice items, rest)
  | 1, text => (list? [' '] 2 text).map fun (items, rest) => (gather .seq items, rest)
  | 2, text =>
    match _ : leading? text with
    | some (operator, rest) =>
      (read? 2 rest).map fun (operand, rest) => (.unary operator operand, rest)
    | none => read? 3 text
  | 3, text => (read? 4 text).map fun (e, rest) => applyTrailing e rest
  | _ + 4, text =>
    match _ : bracket? text with
    | some (bracket, rest) =>
      (if rest.head? = some ')' then some ([], rest) else list? [',', ' '] 0 rest).bind
        fun (items, rest) => bracket.close? items rest
    | none => atom? text
termination_by level text => (text.length, 2 * (4 - level))
decreasing_by
  · exact Prod.Lex.right _ (by decide)
  · exact Prod.Lex.right _ (by decide)
  · exact Prod.Lex.left _ _ (leading?_length_lt ‹_›)
  · exact Prod.Lex.right _ (by decide)
  · exact Prod.Lex.right _ (by decide)
  · exact Prod.Lex.left _ _ (bracket?_length_lt ‹_›)

/-- Reads expressions of a level with a separator between each two, and leaves what follows. -/
def list? (separator : List Char) (level : Nat) (text : List Char) :
    Option (List Expr × List Char) :=
  match read? level text with
  | none => none
  | some (e, rest) =>
    match behind? separator rest with
    | none => some ([e], rest)
    | some next =>
      -- Every separator is followed by less text than there was; the reader need not prove it.
      if next.length < text.length then
        (list? separator level next).map fun (items, rest) => (e :: items, rest)
      else none
termination_by (text.length, 2 * (4 - level) + 1)
decreasing_by
  · exact Prod.Lex.right _ (Nat.lt_succ_self _)
  · exact Prod.Lex.left _ _ ‹_›

end

variable {text rest : List Char} {e : Expr} {level : Nat}

theorem read?_leading {operator : Operator} (found : leading? text = some (operator, rest)) :
    read? 2 text = (read? 2 rest).map fun (operand, rest) => (.unary operator operand, rest) := by
  conv_lhs => rw [read?]
  split
  · next same =>
    rw [found] at same
    cases same
    rfl
  · next same =>
    rw [found] at same
    cases same

theorem read?_noLeading (none : leading? text = none) : read? 2 text = read? 3 text := by
  conv_lhs => rw [read?]
  split
  · next same =>
    rw [none] at same
    cases same
  · rfl

theorem read?_bracket {bracket : Bracket} (found : bracket? text = some (bracket, rest)) :
    read? 4 text =
      (if rest.head? = some ')' then some ([], rest) else list? [',', ' '] 0 rest).bind
        fun (items, rest) => bracket.close? items rest := by
  conv_lhs => rw [read?]
  split
  · next same =>
    rw [found] at same
    cases same
    rfl
  · next same =>
    rw [found] at same
    cases same

theorem read?_noBracket (none : bracket? text = none) : read? 4 text = atom? text := by
  conv_lhs => rw [read?]
  split
  · next same =>
    rw [none] at same
    cases same
  · rfl

theorem list?_end {separator : List Char} (read : read? level text = some (e, rest))
    (ends : behind? separator rest = none) : list? separator level text = some ([e], rest) := by
  rw [list?, read]
  simp only [ends]

theorem list?_next {separator next : List Char} (read : read? level text = some (e, rest))
    (follows : behind? separator rest = some next) (shorter : next.length < text.length) :
    list? separator level text =
      (list? separator level next).map fun (items, rest) => (e :: items, rest) := by
  conv_lhs => rw [list?, read]
  simp only [follows, if_pos shorter]

/-! ## Leaves -/

theorem bracket?_eq_none {c : Char} (noBracket : c ∉ ['(', '{', '^', '@']) (rest : List Char) :
    bracket? (c :: rest) = none := by
  simp only [List.mem_cons, List.not_mem_nil, or_false, not_or] at noBracket
  obtain ⟨paren, brace, caret, atSign⟩ := noBracket
  unfold bracket?
  split
  · next same => exact (paren (List.cons.inj same).1).elim
  · next same => exact (brace (List.cons.inj same).1).elim
  · next same => exact (caret (List.cons.inj same).1).elim
  · next same => exact (atSign (List.cons.inj same).1).elim
  · rfl

/-- What is read as a leaf of the line notation is read as what the leaf stands for. -/
theorem read?_readsLeaf {leaf : Draft.Leaf} (reads : LineNotation.ReadsLeaf text leaf)
    (ends : Ahead (isNameChar · = false) rest) :
    read? 4 (text ++ rest) = some (leaf.expr.plain, rest) := by
  obtain ⟨c, more, rfl, first, reads⟩ := reads
  have noBracket : c ∉ ['(', '{', '^', '@'] := by
    intro member
    simp only [List.mem_cons, List.not_mem_nil, or_false] at member
    rcases member with same | same | same | same
    all_goals exact first.ne (by decide) (by decide) (by decide) rfl same
  have noQuote : c ≠ '"' := first.ne (by decide) (by decide) (by decide) rfl
  rw [List.cons_append, read?_noBracket (bracket?_eq_none noBracket _), atom?,
    if_neg noQuote, reads rest ends]
  rfl

/-! ## Where an expression ends -/

/-- Nothing follows that would belong to an expression of the level: no rest of a name or colon, no
repetition, no further item and no further alternative, as far as the level has these. -/
structure Stops (level : Nat) (rest : List Char) : Prop where
  name : Ahead (fun c => isNameChar c = false ∧ c ≠ ':') rest
  trailing : level < 4 → Ahead (trailing? · = none) rest
  item : level < 2 → behind? [' '] rest = none
  alternative : level < 1 → behind? [' ', '/', ' '] rest = none

theorem Stops.mono {tighter : Nat} (le : level ≤ tighter) (stops : Stops level rest) :
    Stops tighter rest where
  name := stops.name
  trailing loose := stops.trailing (Nat.lt_of_le_of_lt le loose)
  item loose := stops.item (Nat.lt_of_le_of_lt le loose)
  alternative loose := stops.alternative (Nat.lt_of_le_of_lt le loose)

theorem label?_eq_some {label : String} (found : label? text = some (label, rest)) :
    ∃ name, IsName name ∧ text = name ++ ':' :: ' ' :: rest := by
  unfold label? at found
  split at found
  · next after same =>
    split at found
    · cases found
    · next nonempty =>
      cases found
      have whole := List.takeWhile_append_dropWhile (p := isNameChar) (l := text)
      rw [same] at whole
      exact ⟨_, ⟨nonempty, fun c member => List.mem_takeWhile_imp member⟩, whole.symm⟩
  · cases found

theorem applyTrailing_of_ahead (ends : Ahead (trailing? · = none) rest) (e : Expr) :
    applyTrailing e rest = (e, rest) := by
  cases rest with
  | nil => rfl
  | cons c rest => rw [applyTrailing, ends.head]

/-- No operator stands before what is read as an operand, unless a colon was left behind it. -/
theorem leading?_eq_none (read : read? 3 text = some (e, rest)) (ends : Ahead (· ≠ ':') rest) :
    leading? text = none := by
  rw [read?] at read
  unfold leading?
  split
  · rw [read?_noBracket rfl] at read
    cases read
  · rw [read?_noBracket rfl] at read
    cases read
  · cases found : label? text with
    | none => rfl
    | some pair =>
        -- The label would have been read as a name, and the colon behind it would have been left.
        obtain ⟨label, after⟩ := pair
        obtain ⟨name, isName, rfl⟩ := label?_eq_some found
        have colon : Ahead (isNameChar · = false) (':' :: ' ' :: after) := .cons rfl
        have leaf := read?_readsLeaf (LineNotation.readsLeaf_name isName) colon
        rw [leaf] at read
        cases read
        exact (ends.head rfl).elim

/-- What is read at a level is read at the next looser one, if nothing of that level follows. -/
theorem read?_descend (loose : level < 4) (read : read? (level + 1) text = some (e, rest))
    (stops : Stops level rest) : read? level text = some (e, rest) := by
  match level, loose with
  | 0, _ =>
      rw [read?, list?_end read (stops.alternative Nat.one_pos)]
      rfl
  | 1, _ =>
      rw [read?, list?_end read (stops.item (by decide))]
      rfl
  | 2, _ =>
      have none := leading?_eq_none read (stops.name.imp fun _ both => both.2)
      rw [read?_noLeading none, read]
  | 3, _ =>
      rw [read?, read, Option.map_some]
      exact congrArg some (applyTrailing_of_ahead (stops.trailing (by decide)) e)

/-- What is read at a level is read at every looser one at which it ends. -/
theorem read?_of_le {tighter : Nat} (le : level ≤ tighter) (four : tighter ≤ 4)
    (read : read? tighter text = some (e, rest)) (stops : Stops level rest) :
    read? level text = some (e, rest) := by
  induction tighter, le using Nat.le_induction with
  | base => exact read
  | succ tighter le ih =>
      exact ih (by omega) (read?_descend (by omega) read (stops.mono le))

end Reader

end Peg
