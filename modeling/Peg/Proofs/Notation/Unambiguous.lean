import Peg.Proofs.Notation.Body
import Peg.Proofs.Notation.Reader

/-!
# Printing is unambiguous

Two expressions that print alike are alike in everything that is printed. The reader gives each of them
back from the common text.

* `Expr.IsPrintable`: the expressions whose printed form says all about them, as far as it is printed.
* `Reader.Reads`: the printed expression is read back wherever nothing of its level follows.
* `Expr.IsPrintable.reads`: every printable expression is read back.
* `Expr.display_unambiguous`: printable expressions that print alike are the same up to what is not
  printed.
-/

namespace Peg

open Text (Span Ahead IsName isNameChar)

/-! ## Printable expressions -/

/-- The text is in double quotes and has none inside. -/
def IsQuoted (text : List Char) : Prop :=
  ∃ inner, '"' ∉ inner ∧ text = '"' :: inner ++ ['"']

/-- The text names something or is empty. -/
def IsOptionalName (text : String) : Prop :=
  text = "" ∨ IsName text.toList

/-- The printed atom says all about it: it can match, a set has whole ranges and is no single
character, and a reference is by a plain or a quoted name. -/
def Atom.IsPrintable : Atom → Prop
  | .empty | .any | .literal _ => True
  | .fail => False
  | .set chars ranges => CharClass.IsClass chars ranges
  | .ref target => IsName target.name.toList ∨ IsQuoted target.name.toList

/-- The printed operator says all about it: labels and tags are names, and nothing is shifted. -/
def Operator.IsPrintable : Operator → Prop
  | .many | .many1 | .optional | .and | .not => True
  | .node tag shift => IsOptionalName tag ∧ shift = 0
  | .edge label => IsName label.toList
  | .fold label tag shift => IsOptionalName label ∧ IsOptionalName tag ∧ shift = 0

/-- The printed expression says all about it: so do its parts, sequences and choices have two of them
or more, and what an action recognizes is what its function and parameters give. -/
inductive Expr.IsPrintable : Expr → Prop
  | atom {a : Atom} (printable : a.IsPrintable) : IsPrintable (.atom a)
  | unary {operator : Operator} {operand : Expr} (printable : operator.IsPrintable)
    (operandPrintable : IsPrintable operand) : IsPrintable (.unary operator operand)
  | seq {items : List Expr} (two : 2 ≤ items.length)
    (printable : ∀ item ∈ items, IsPrintable item) : IsPrintable (.seq items)
  | choice {alternatives : List Expr} (two : 2 ≤ alternatives.length)
    (printable : ∀ item ∈ alternatives, IsPrintable item) : IsPrintable (.choice alternatives)
  | action {func : String} {params : List Expr} (span : Span) (isName : IsName func.toList)
    (printable : ∀ param ∈ params, IsPrintable param) :
    IsPrintable (.action func span (actionInner func params) params)

namespace Reader

variable {text rest : List Char} {e : Expr} {level least : Nat}

/-! ## How printed expressions begin -/

/-- The text begins like an expression. -/
def Begins (text : List Char) : Prop :=
  ∃ c more, text = c :: more ∧ begins c = true

theorem Begins.cons {c : Char} (first : begins c = true) : Begins (c :: text) :=
  ⟨c, text, rfl, first⟩

theorem Begins.append (begins : Begins text) (rest : List Char) : Begins (text ++ rest) := by
  obtain ⟨c, more, rfl, first⟩ := begins
  exact .cons first

theorem Begins.of_isName (isName : IsName text) : Begins text := by
  obtain ⟨c, more, rfl, first, -⟩ := isName.exists_cons
  exact .cons (by rw [Reader.begins, first, Bool.true_or])

theorem Begins.head?_ne (begins : Begins text) : text.head? ≠ some ')' := by
  obtain ⟨c, more, rfl, first⟩ := begins
  intro same
  cases Option.some.inj same
  cases first

theorem Begins.parenthesizeIf (begins : Begins text) (needed : Bool) :
    Begins (Expr.parenthesizeIf needed text) := by
  cases needed with
  | false => exact begins
  | true => exact .cons rfl

theorem begins_displayAtom {a : Atom} (printable : a.IsPrintable) : Begins (Expr.displayAtom a) := by
  cases a with
  | fail => exact printable.elim
  | ref target =>
      rcases printable with isName | ⟨inner, -, quoted⟩
      · exact .of_isName isName
      · show Begins target.name.toList
        rw [quoted]
        exact .cons rfl
  | _ => exact .cons rfl

theorem begins_display (printable : e.IsPrintable) : Begins e.displayChars := by
  induction printable with
  | atom printable => exact begins_displayAtom printable
  | @unary operator operand printable _ ih =>
      have inside := fun least => ih.parenthesizeIf (operand.precedence < least)
      cases operator with
      | many | many1 | optional => exact (inside 4).append _
      | and | not | node | fold => exact .cons rfl
      | edge label => exact (Begins.of_isName printable).append _ |>.append _
  | @seq items two _ ih =>
      obtain ⟨first, second, others, rfl⟩ := Expr.exists_cons_cons two
      exact ((ih first List.mem_cons_self).parenthesizeIf _).append _
  | @choice items two _ ih =>
      obtain ⟨first, second, others, rfl⟩ := Expr.exists_cons_cons two
      exact ((ih first List.mem_cons_self).parenthesizeIf _).append _
  | action => exact .cons rfl

/-! ## Where printed expressions end -/

theorem Stops.cons {c : Char} (noName : isNameChar c = false) (noColon : c ≠ ':')
    (noTrailing : trailing? c = none) (noSpace : c ≠ ' ') (rest : List Char) :
    Stops level (c :: rest) := by
  have differs : (' ' == c) = false := beq_false_of_ne (Ne.symm noSpace)
  refine ⟨.cons ⟨noName, noColon⟩, fun _ => .cons noTrailing, fun _ => ?_, fun _ => ?_⟩
  · simp [behind?, List.isPrefixOf?, differs]
  · simp [behind?, List.isPrefixOf?, differs]

/-- A blank ends what is no sequence or choice. -/
theorem Stops.blank (two : 2 ≤ level) (rest : List Char) : Stops level (' ' :: rest) where
  name := .cons ⟨rfl, by decide⟩
  trailing _ := .cons rfl
  item loose := by omega
  alternative loose := by omega

/-- A blank ends a sequence if no expression begins behind it. -/
theorem Stops.blank_cons {c : Char} (noItem : begins c = false)
    (noAlternative : level < 1 → c ≠ '/') (rest : List Char) : Stops level (' ' :: c :: rest) where
  name := .cons ⟨rfl, by decide⟩
  trailing _ := .cons rfl
  item _ := by simp [behind?, List.isPrefixOf?, noItem]
  alternative loose := by
    have differs : ('/' == c) = false := beq_false_of_ne (Ne.symm (noAlternative loose))
    simp [behind?, List.isPrefixOf?, differs]

theorem behind?_append (separator : List Char) (begins : Begins text) :
    behind? separator (separator ++ text) = some text := by
  obtain ⟨c, more, rfl, first⟩ := begins
  have found : separator.isPrefixOf? (separator ++ c :: more) = some (c :: more) :=
    List.isPrefixOf?_eq_some_iff_append_eq.mpr rfl
  rw [behind?, found]
  exact if_pos first

/-! ## Pieces -/

theorem label?_append {label : String} (isName : IsName label.toList) (rest : List Char) :
    label? (label.toList ++ ':' :: ' ' :: rest) = some (label, rest) := by
  have ends : Ahead (isNameChar · = false) (':' :: ' ' :: rest) := .cons rfl
  rw [label?, Text.dropWhile_append isName.2 ends, Text.takeWhile_append isName.2 ends]
  simp only [if_neg isName.1, String.ofList_toList]

theorem label?_of_ahead (ahead : Ahead (isNameChar · = false) text) : label? text = none := by
  rw [label?, Text.takeWhile_of_ahead ahead]
  split <;> rfl

theorem tag?_displayTag {tag : String} (isName : IsOptionalName tag) (rest : List Char) :
    tag? (Expr.displayTag tag ++ ' ' :: '}' :: rest) = some (tag, rest) := by
  rcases isName with rfl | isName
  · rfl
  · have nonempty : ¬tag.isEmpty = true := by
      rw [String.isEmpty_iff]
      rintro rfl
      exact isName.1 rfl
    have ends : Ahead (isNameChar · = false) (' ' :: '}' :: rest) := .cons rfl
    rw [Expr.displayTag, if_neg nonempty]
    simp only [List.cons_append, tag?, Text.dropWhile_append isName.2 ends,
      Text.takeWhile_append isName.2 ends, String.ofList_toList]

/-- A tag and the brace behind it end every expression. -/
theorem stops_displayTag (tag : String) (rest : List Char) :
    Stops level (Expr.displayTag tag ++ ' ' :: '}' :: rest) := by
  unfold Expr.displayTag
  split
  · exact .blank_cons rfl (fun _ => by decide) rest
  · exact .blank_cons rfl (fun _ => by decide) _

theorem behind?_comma_displayTag (tag : String) (rest : List Char) :
    behind? [',', ' '] (Expr.displayTag tag ++ ' ' :: '}' :: rest) = none := by
  unfold Expr.displayTag
  split <;> rfl

/-! ## Reading back -/

/-- The printed expression begins like one and is read back wherever nothing of its level follows. -/
structure Reads (e : Expr) : Prop where
  begins : Begins e.displayChars
  reads : ∀ rest, Stops e.precedence rest →
    read? e.precedence (e.displayChars ++ rest) = some (e.plain, rest)

theorem precedence_le_four (e : Expr) : e.precedence ≤ 4 := by
  cases e with
  | unary operator => cases operator <;> simp [Expr.precedence]
  | _ => simp [Expr.precedence]

/-- A printed expression is read at every level that is not tighter than its own. -/
theorem Reads.at_level (reads : Reads e) (le : level ≤ e.precedence) (stops : Stops level rest) :
    read? level (e.displayChars ++ rest) = some (e.plain, rest) :=
  read?_of_le le (precedence_le_four e) (reads.reads rest (stops.mono le)) stops

/-- An expression alone in a bracket is read up to what closes the bracket. -/
theorem Reads.inside (reads : Reads e) {bracket : Bracket}
    (opened : bracket? text = some (bracket, e.displayChars ++ rest)) (stops : Stops 0 rest)
    (single : behind? [',', ' '] rest = none) : read? 4 text = bracket.close? [e.plain] rest := by
  have items : list? [',', ' '] 0 (e.displayChars ++ rest) = some ([e.plain], rest) :=
    list?_end (reads.at_level (Nat.zero_le _) stops) single
  rw [read?_bracket opened, if_neg (reads.begins.append rest).head?_ne, items]
  rfl

/-- A printed operand, in parentheses or not, is read at the level that its place requires. -/
theorem Reads.operand (reads : Reads e) (four : least ≤ 4) (stops : Stops least rest) :
    read? least (Expr.parenthesizeIf (e.precedence < least) e.displayChars ++ rest) =
      some (e.plain, rest) := by
  by_cases binds : least ≤ e.precedence
  · rw [Expr.parenthesizeIf_of_le binds]
    exact reads.at_level binds stops
  · have needed : decide (e.precedence < least) = true := decide_eq_true (Nat.lt_of_not_le binds)
    have closed : Stops 0 (')' :: rest) := .cons rfl (by decide) rfl (by decide) rest
    have opened : bracket? ('(' :: (e.displayChars ++ ')' :: rest)) =
        some (.paren, e.displayChars ++ ')' :: rest) := rfl
    have shape : Expr.parenthesizeIf true e.displayChars ++ rest =
        '(' :: (e.displayChars ++ ')' :: rest) := by
      simp [Expr.parenthesizeIf]
    rw [needed, shape]
    exact read?_of_le four (Nat.le_refl 4) (reads.inside opened closed rfl) stops

/-- Printed expressions with a separator between them are read one by one. -/
theorem list?_displayJoined {separator : List Char} {first : Expr} {others : List Expr}
    (reads : ∀ item ∈ first :: others, Reads item) (four : least ≤ 4) (cuts : separator ≠ [])
    (between : ∀ text, Stops least (separator ++ text)) (stops : Stops least rest)
    (ends : behind? separator rest = none) :
    list? separator least (Expr.displayJoined separator least (first :: others) ++ rest) =
      some ((first :: others).map Expr.plain, rest) := by
  induction others generalizing first with
  | nil =>
      have one := (reads first List.mem_cons_self).operand four stops
      rw [Expr.displayJoined, Expr.displayTail, List.append_nil]
      exact list?_end one ends
  | cons second others ih =>
      obtain ⟨readsFirst, readsOthers⟩ := List.forall_mem_cons.mp reads
      have later := ih readsOthers
      have begins : Begins (Expr.displayJoined separator least (second :: others) ++ rest) := by
        have operand := (readsOthers second List.mem_cons_self).begins.parenthesizeIf
          (second.precedence < least)
        exact (operand.append _).append _
      have shape : Expr.displayJoined separator least (first :: second :: others) ++ rest =
          Expr.parenthesizeIf (first.precedence < least) first.displayChars ++
            (separator ++ (Expr.displayJoined separator least (second :: others) ++ rest)) := by
        simp [Expr.displayJoined, Expr.displayTail]
      have shorter :
          (Expr.displayJoined separator least (second :: others) ++ rest).length <
            (Expr.parenthesizeIf (first.precedence < least) first.displayChars ++
              (separator ++ (Expr.displayJoined separator least (second :: others) ++ rest))).length := by
        have some := List.length_pos_iff.mpr cuts
        simp only [List.length_append]
        omega
      rw [shape, list?_next (readsFirst.operand four (between _)) (behind?_append separator begins)
        shorter, later]
      rfl

/-! ## One lemma for each construct -/

theorem plain_unplaced (a : Atom) : (Expr.atom a).unplaced.plain = (Expr.atom a).plain := by
  cases a <;> rfl

theorem read?_leaf {a : Atom} (isLeaf : a.IsLeaf) (stops : Stops 4 rest) :
    read? 4 (Expr.displayAtom a ++ rest) = some ((Expr.atom a).plain, rest) := by
  obtain ⟨leaf, -, value, readsLeaf⟩ := isLeaf.exists_readsLeaf
  have read := read?_readsLeaf readsLeaf (stops.name.imp fun _ both => both.1)
  rw [value, plain_unplaced] at read
  exact read

theorem quoted?_append {inner : List Char} (absent : '"' ∉ inner) (rest : List Char) :
    quoted? (inner ++ '"' :: rest) =
      some (.ref (.named (String.ofList ('"' :: inner ++ ['"']))), rest) := by
  have all : ∀ c ∈ inner, decide (c ≠ '"') = true := by
    intro c member
    refine decide_eq_true ?_
    rintro rfl
    exact absent member
  have ends : Ahead (fun c => decide (c ≠ '"') = false) ('"' :: rest) := .cons (by decide)
  rw [quoted?, Text.dropWhile_append all ends, Text.takeWhile_append all ends]

theorem read?_quoted {target : Reference} (isQuoted : IsQuoted target.name.toList)
    (rest : List Char) :
    read? 4 (target.name.toList ++ rest) = some ((Expr.ref target).plain, rest) := by
  obtain ⟨inner, absent, quoted⟩ := isQuoted
  have name : String.ofList ('"' :: inner ++ ['"']) = target.name := by
    rw [← quoted, String.ofList_toList]
  have shape : target.name.toList ++ rest = '"' :: (inner ++ '"' :: rest) := by
    rw [quoted]
    simp
  rw [shape, read?_noBracket rfl, atom?, if_pos rfl, quoted?_append absent, name]
  rfl

theorem read?_atom {a : Atom} (printable : a.IsPrintable) (stops : Stops 4 rest) :
    read? 4 (Expr.displayAtom a ++ rest) = some ((Expr.atom a).plain, rest) := by
  cases a with
  | empty =>
      -- The empty expression is printed as the empty literal.
      have literal : read? 4 (Expr.displayAtom (.literal "") ++ rest) =
          some ((Expr.literal "").plain, rest) := read?_leaf (.literal "") stops
      exact literal
  | any => exact read?_leaf .any stops
  | fail => exact printable.elim
  | literal text => exact read?_leaf (.literal text) stops
  | set chars ranges => exact read?_leaf (.set printable) stops
  | ref target =>
      rcases printable with isName | isQuoted
      · exact read?_leaf (.ref (Text.isName_iff.mpr isName)) stops
      · exact read?_quoted isQuoted rest

/-- A mark behind an operand applies its operator. -/
theorem Reads.trailing (reads : Reads e) (mark : Char) {operator : Operator}
    (found : trailing? mark = some operator) (noName : isNameChar mark = false ∧ mark ≠ ':')
    (rest : List Char) :
    read? 3 (Expr.parenthesizeIf (e.precedence < 4) e.displayChars ++ [mark] ++ rest) =
      some (.unary operator e.plain, rest) := by
  have stops : Stops 4 (mark :: rest) :=
    ⟨.cons noName, fun loose => by omega, fun loose => by omega, fun loose => by omega⟩
  have applied : applyTrailing e.plain (mark :: rest) = (.unary operator e.plain, rest) := by
    rw [applyTrailing.eq_def]
    simp only [found]
  rw [List.append_assoc, List.singleton_append, read?, reads.operand (Nat.le_refl 4) stops,
    Option.map_some]
  exact congrArg some applied

/-- An operator before an operand applies to it. -/
theorem Reads.leading (reads : Reads e) {operator : Operator}
    (found : leading? text = some (operator,
      Expr.parenthesizeIf (e.precedence < 2) e.displayChars ++ rest)) (stops : Stops 2 rest) :
    read? 2 text = some (.unary operator e.plain, rest) := by
  rw [read?_leading found, reads.operand (by decide) stops]
  rfl

theorem leading?_label {label : String} (isName : IsName label.toList) (rest : List Char) :
    leading? (label.toList ++ ':' :: ' ' :: rest) = some (.edge label, rest) := by
  have found := label?_append isName rest
  obtain ⟨c, more, eq, first, -⟩ := isName.exists_cons
  rw [eq] at found ⊢
  rw [List.cons_append] at found ⊢
  unfold leading?
  split
  · next same =>
    cases (List.cons.inj same).1
    cases first
  · next same =>
    cases (List.cons.inj same).1
    cases first
  · rw [found]
    rfl

theorem bracket?_fold {label : String} (isName : IsOptionalName label) (rest : List Char) :
    bracket? ('^' :: (if label.isEmpty then [] else Expr.displayLabel label) ++ '{' :: ' ' :: rest) =
      some (.fold label, rest) := by
  rcases isName with rfl | isName
  · have none : label? ('{' :: ' ' :: rest) = none := label?_of_ahead (.cons rfl)
    show bracket? ('^' :: '{' :: ' ' :: rest) = _
    simp only [bracket?, none, Option.getD_none]
  · have nonempty : ¬label.isEmpty = true := by
      rw [String.isEmpty_iff]
      rintro rfl
      exact isName.1 rfl
    have found := label?_append isName ('{' :: ' ' :: rest)
    have shape : Expr.displayLabel label ++ '{' :: ' ' :: rest =
        label.toList ++ ':' :: ' ' :: '{' :: ' ' :: rest := by
      simp [Expr.displayLabel]
    rw [if_neg nonempty, List.cons_append, shape]
    simp only [bracket?, found, Option.getD_some]

/-- An expression in braces is read together with the tag behind it. -/
theorem Reads.braced (reads : Reads e) {bracket : Bracket} {tag : String} (isName : IsOptionalName tag)
    (wrap : String → Expr → Expr)
    (opened : bracket? text =
      some (bracket, e.displayChars ++ (Expr.displayTag tag ++ ' ' :: '}' :: rest)))
    (closes : ∀ inner after, bracket.close? [inner] after =
      (tag? after).map fun (tag, rest) => (wrap tag inner, rest)) :
    read? 4 text = some (wrap tag e.plain, rest) := by
  rw [reads.inside opened (stops_displayTag tag rest) (behind?_comma_displayTag tag rest), closes,
    tag?_displayTag isName]
  rfl

theorem read?_unary {operator : Operator} (printable : operator.IsPrintable) (reads : Reads e)
    (stops : Stops (Expr.unary operator e).precedence rest) :
    read? (Expr.unary operator e).precedence ((Expr.unary operator e).displayChars ++ rest) =
      some (.unary operator e.plain, rest) := by
  cases operator with
  | many => exact reads.trailing '*' rfl ⟨rfl, by decide⟩ rest
  | many1 => exact reads.trailing '+' rfl ⟨rfl, by decide⟩ rest
  | optional => exact reads.trailing '?' rfl ⟨rfl, by decide⟩ rest
  | and => exact reads.leading rfl stops
  | not => exact reads.leading rfl stops
  | edge label =>
      have found := leading?_label printable
        (Expr.parenthesizeIf (e.precedence < 2) e.displayChars ++ rest)
      have shape : (Expr.unary (.edge label) e).displayChars ++ rest = label.toList ++
          ':' :: ' ' :: (Expr.parenthesizeIf (e.precedence < 2) e.displayChars ++ rest) := by
        simp [Expr.displayChars, Expr.displayUnary, Expr.displayLabel]
      rw [shape]
      exact reads.leading found stops
  | node tag shift =>
      obtain ⟨isName, rfl⟩ := printable
      have shape : (Expr.unary (.node tag 0) e).displayChars ++ rest =
          '{' :: ' ' :: (e.displayChars ++ (Expr.displayTag tag ++ ' ' :: '}' :: rest)) := by
        simp [Expr.displayChars, Expr.displayUnary, Expr.displayBraced]
      rw [shape]
      exact reads.braced isName (fun tag inner => .unary (.node tag 0) inner) rfl
        fun _ _ => rfl
  | fold label tag shift =>
      obtain ⟨isLabel, isName, rfl⟩ := printable
      have shape : (Expr.unary (.fold label tag 0) e).displayChars ++ rest =
          '^' :: (if label.isEmpty then [] else Expr.displayLabel label) ++ '{' :: ' ' ::
            (e.displayChars ++ (Expr.displayTag tag ++ ' ' :: '}' :: rest)) := by
        simp [Expr.displayChars, Expr.displayUnary, Expr.displayBraced]
      rw [shape]
      exact reads.braced isName (fun tag inner => .unary (.fold label tag 0) inner)
        (bracket?_fold isLabel _) fun _ _ => rfl

theorem read?_items {items : List Expr} (two : 2 ≤ items.length) (reads : ∀ item ∈ items, Reads item)
    {separator : List Char} (four : least ≤ 4) (cuts : separator ≠ [])
    (between : ∀ text, Stops least (separator ++ text)) (stops : Stops least rest)
    (ends : behind? separator rest = none) {wrap : List Expr → Expr} :
    (list? separator least (Expr.displayJoined separator least items ++ rest)).map
      (fun (items, rest) => (gather wrap items, rest)) = some (wrap (items.map Expr.plain), rest) := by
  obtain ⟨first, second, others, rfl⟩ := Expr.exists_cons_cons two
  rw [list?_displayJoined reads four cuts between stops ends]
  rfl

theorem read?_seq {items : List Expr} (two : 2 ≤ items.length) (reads : ∀ item ∈ items, Reads item)
    (stops : Stops 1 rest) :
    read? 1 ((Expr.seq items).displayChars ++ rest) =
      some (.seq (items.map Expr.plain), rest) := by
  have between : ∀ text, Stops 2 ([' '] ++ text) := fun text => .blank (by decide) text
  rw [read?]
  exact read?_items two reads (by decide) (by decide) between (stops.mono (by decide))
    (stops.item (by decide))

theorem read?_choice {items : List Expr} (two : 2 ≤ items.length)
    (reads : ∀ item ∈ items, Reads item) (stops : Stops 0 rest) :
    read? 0 ((Expr.choice items).displayChars ++ rest) =
      some (.choice (items.map Expr.plain), rest) := by
  have between : ∀ text, Stops 1 ([' ', '/', ' '] ++ text) := fun text =>
    .blank_cons rfl (fun loose => absurd loose (by decide)) _
  rw [read?]
  exact read?_items two reads (by decide) (by decide) between (stops.mono (by decide))
    (stops.alternative (by decide))

/-- The parameters of an action are read up to the closing parenthesis. -/
theorem read?_params {params : List Expr} (reads : ∀ param ∈ params, Reads param)
    (rest : List Char) :
    let text := Expr.displayJoined [',', ' '] 0 params ++ ')' :: rest
    (if text.head? = some ')' then some ([], text) else list? [',', ' '] 0 text) =
      some (params.map Expr.plain, ')' :: rest) := by
  intro text
  cases params with
  | nil => rfl
  | cons first others =>
      have begins := (reads first List.mem_cons_self).begins.parenthesizeIf (first.precedence < 0)
      have nonempty : text.head? ≠ some ')' := ((begins.append _).append _).head?_ne
      have stops : ∀ {c : Char} (text : List Char), c = ',' ∨ c = ')' → Stops 0 (c :: text) := by
        rintro c text (rfl | rfl)
        · exact .cons rfl (by decide) rfl (by decide) text
        · exact .cons rfl (by decide) rfl (by decide) text
      rw [if_neg nonempty]
      exact list?_displayJoined reads (by decide) (by decide) (fun _ => stops _ (.inl rfl))
        (stops rest (.inr rfl)) rfl

theorem read?_action {func : String} {params : List Expr} (span : Span) (isName : IsName func.toList)
    (reads : ∀ param ∈ params, Reads param) (rest : List Char) :
    read? 4 ((Expr.action func span (actionInner func params) params).displayChars ++ rest) =
      some ((Expr.action func span (actionInner func params) params).plain, rest) := by
  let body := Expr.displayJoined [',', ' '] 0 params ++ ')' :: rest
  have shape : (Expr.action func span (actionInner func params) params).displayChars ++ rest =
      '@' :: (func.toList ++ '(' :: body) := by
    simp [Expr.displayChars, body]
  have opened : bracket? ('@' :: (func.toList ++ '(' :: body)) = some (.call func, body) := by
    have ends : Ahead (isNameChar · = false) ('(' :: body) := .cons rfl
    simp only [bracket?, Text.dropWhile_append isName.2 ends, Text.takeWhile_append isName.2 ends,
      String.ofList_toList]
  have inner : (actionInner func params).plain = actionInner func (params.map Expr.plain) :=
    actionInner_map rfl func
  have plain : (Expr.action func span (actionInner func params) params).plain =
      .action func ⟨0, 0⟩ (actionInner func (params.map Expr.plain)) (params.map Expr.plain) := by
    rw [← inner]
    exact Expr.map_action func span _ params
  rw [shape, read?_bracket opened, read?_params reads rest, plain]
  rfl

end Reader

/-! ## Unambiguity -/

namespace Expr

open Reader

variable {e e' : Expr}

/-- Every printable expression is read back. -/
theorem IsPrintable.reads (printable : e.IsPrintable) : Reads e := by
  -- By induction on the construction of the expression. That its parts end where they do is known from
  -- what the printer puts behind them, so no case needs to look into a part.
  induction printable with
  | atom printable => exact ⟨begins_displayAtom printable, fun _ stops => read?_atom printable stops⟩
  | @unary operator operand printable operandPrintable ih =>
      exact ⟨begins_display (.unary printable operandPrintable), fun _ stops =>
        read?_unary printable ih stops⟩
  | @seq items two printable ih =>
      refine ⟨begins_display (.seq two printable), fun rest stops => ?_⟩
      have plain : (Expr.seq items).plain = .seq (items.map Expr.plain) := map_seq items
      rw [plain]
      exact read?_seq two ih stops
  | @choice items two printable ih =>
      refine ⟨begins_display (.choice two printable), fun rest stops => ?_⟩
      have plain : (Expr.choice items).plain = .choice (items.map Expr.plain) := map_choice items
      rw [plain]
      exact read?_choice two ih stops
  | @action func params span isName printable ih =>
      exact ⟨begins_display (.action span isName printable), fun rest _ =>
        read?_action span isName ih rest⟩

/-- **Printing is unambiguous.** Printable expressions that print alike are the same up to the places
of references and actions and up to the empty literal, which matches what the empty expression does. -/
theorem display_unambiguous (printable : e.IsPrintable) (printable' : e'.IsPrintable)
    (same : e.display = e'.display) : e.plain = e'.plain := by
  have stops : Stops 0 [] := ⟨.nil, fun _ => .nil, fun _ => rfl, fun _ => rfl⟩
  have chars : e.displayChars = e'.displayChars := String.ofList_injective same
  have left := printable.reads.at_level (Nat.zero_le _) stops
  have right := printable'.reads.at_level (Nat.zero_le _) stops
  rw [chars, right] at left
  exact (Prod.mk.inj (Option.some.inj left)).1.symm

/-- An expression with a construct of every level, its references and its action at given places. -/
def placedAt (grammar : GrammarId) (span : Span) (unit : Expr) : Expr :=
  let quoted : Expr := .ref ⟨grammar, "\"a b\"", span⟩
  .choice
    [.seq [.unary .many (.choice [.ref ⟨grammar, "A", span⟩, unit]),
        .unary (.edge "x") (.unary .not (.set "]-" "az"))],
      .unary (.fold "" "T" 0) (.action "symbol" span quoted [quoted, .literal "it's"])]

theorem isPrintable_placedAt (grammar : GrammarId) (span : Span) {unit : Expr}
    (printable : unit.IsPrintable) : (placedAt grammar span unit).IsPrintable := by
  have isName : IsName "A".toList := by decide
  have isQuoted : IsQuoted "\"a b\"".toList := ⟨['a', ' ', 'b'], by decide, by decide⟩
  have isClass : CharClass.IsClass "]-" "az" := by decide
  have isLabel : IsName "x".toList := by decide
  have isTag : IsOptionalName "T" := Or.inr (by decide)
  have isFunc : IsName "symbol".toList := by decide
  have name : (Expr.ref ⟨grammar, "A", span⟩).IsPrintable := .atom (Or.inl isName)
  have quoted : (Expr.ref ⟨grammar, "\"a b\"", span⟩).IsPrintable := .atom (Or.inr isQuoted)
  have set : (Expr.set "]-" "az").IsPrintable := .atom isClass
  have pair : ∀ {left right : Expr}, left.IsPrintable → right.IsPrintable →
      ∀ item ∈ [left, right], item.IsPrintable := fun left right =>
    List.forall_mem_cons.mpr ⟨left, List.forall_mem_singleton.mpr right⟩
  have seq : ∀ {left right : Expr}, left.IsPrintable → right.IsPrintable →
      (Expr.seq [left, right]).IsPrintable := fun left right => .seq (Nat.le_refl 2) (pair left right)
  have choice : ∀ {left right : Expr}, left.IsPrintable → right.IsPrintable →
      (Expr.choice [left, right]).IsPrintable := fun left right =>
    .choice (Nat.le_refl 2) (pair left right)
  have many : Operator.many.IsPrintable := trivial
  have not : Operator.not.IsPrintable := trivial
  have edge : (Operator.edge "x").IsPrintable := isLabel
  have fold : (Operator.fold "" "T" 0).IsPrintable := ⟨Or.inl rfl, isTag, rfl⟩
  have literal : (Expr.literal "it's").IsPrintable := .atom trivial
  have action := IsPrintable.action span isFunc (pair quoted literal)
  exact choice (seq (.unary many (choice name printable)) (.unary edge (.unary not set)))
    (.unary fold action)

/-- Two expressions that differ in places and in the empty literal print alike. -/
theorem display_unambiguous_placedAt :
    let e := placedAt ⟨1⟩ ⟨0, 1⟩ .empty
    let e' := placedAt ⟨2⟩ ⟨5, 9⟩ (.literal "")
    e.display = "(A / '')* x: ![\\]\\-a-z] / ^\x7b @symbol(\"a b\", 'it\\'s') #T \x7d" ∧ e ≠ e' ∧
      e.plain = e'.plain :=
  ⟨by decide, by decide, display_unambiguous (isPrintable_placedAt _ _ (.atom trivial))
    (isPrintable_placedAt _ _ (.atom trivial)) (by decide)⟩

end Expr

end Peg
