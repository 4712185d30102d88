import Peg.Proofs.Draft.Positions
import Peg.Proofs.Notation.Meaning

/-!
# Grouping operands

A sequence inside a sequence and a choice inside a choice are spliced in, so it does not matter which
neighbouring operands are written as a group.

* `Splice.of_group`: operands that are spliced beforehand are spliced as if they stood alone. There has
  to be one, and they must not hold anything that is left to splice.
* `Tree.Groups`: a tree and the same text with some operands put into a group.
* `Tree.Groups.compile_eq`: the group does not show in what is compiled.
* `Tree.grouping_immaterial`: both together.
-/

namespace Peg

open Text (Span)

/-! ## Groups among expressions -/

/-- Splicing some tidy operands beforehand changes nothing, whatever stands before and behind them. -/
theorem Splice.of_group {splice : Splice} {group : List Expr}
    (tidy : ∀ item ∈ group, splice.IsTidy item) (some : group ≠ []) (before after : List Expr) :
    splice.of (before ++ [splice.of group] ++ after) = splice.of (before ++ group ++ after) := by
  apply Splice.of_congr
  simp only [List.flatMap_append, List.flatMap_singleton, Splice.parts_of tidy some]

/-- The kinds of nodes whose operands are spliced and that can be nested without being reported. -/
def Kind.splice? : Kind → Option Splice
  | .seq => some .seq
  | .choice => some .choice
  | _ => none

theorem Kind.exists_splice {kind : Kind} (splices : kind = .seq ∨ kind = .choice) :
    ∃ splice, kind.splice? = some splice := by
  rcases splices with rfl | rfl
  · exact ⟨_, rfl⟩
  · exact ⟨_, rfl⟩

section Assemble

variable {kind : Kind} {splice : Splice}

theorem assemble_of_splice (splices : kind.splice? = some splice) (grammar : GrammarId) (mode : Mode)
    (span : Span) (children : List Placed) (operands : List Expr) :
    assemble grammar mode kind span children operands = splice.of operands := by
  cases kind
  case seq | choice =>
    cases splices
    rfl
  all_goals cases splices

theorem Expr.IsFlat.isTidy (splices : kind.splice? = some splice) {e : Expr} (flat : e.IsFlat) :
    splice.IsTidy e := by
  cases kind
  case seq =>
    cases splices
    exact flat.isTidy_seq
  case choice =>
    cases splices
    exact flat.isTidy_choice
  all_goals cases splices

theorem Kind.isDecoration_of_splice (splices : kind.splice? = some splice) :
    kind.isDecoration = false := by
  cases kind
  case seq | choice => rfl
  all_goals cases splices

end Assemble

/-! ## Groups among nodes -/

namespace Placed

variable {kind : Kind} {splice : Splice} {before group after : List Placed}

theorem operandsAmong_append (first second : List Placed) :
    operandsAmong (first ++ second) = operandsAmong first ++ operandsAmong second :=
  List.filter_append first second

/-- A node whose operands are spliced is compiled in the same way with some of them in a node of the
same kind. -/
theorem compile_group (splices : kind.splice? = some splice) (some : operandsAmong group ≠ [])
    (grammar : GrammarId) (mode : Mode) (span inner : Span) :
    (node kind span (before ++ [node kind inner group] ++ after)).compile grammar mode =
      (node kind span (before ++ group ++ after)).compile grammar mode := by
  have operand : (node kind inner group).isOperand = true := by
    rw [isOperand, isNodeOf, Kind.isDecoration_of_splice splices]
    rfl
  have alone : operandsAmong [node kind inner group] = [node kind inner group] :=
    List.filter_cons_of_pos operand
  have tidy : ∀ item ∈ (operandsAmong group).map (compile grammar mode), splice.IsTidy item :=
    List.forall_mem_map.mpr fun child _ => (child.isFlat_compile grammar mode).isTidy splices
  have spliced := Splice.of_group tidy (fun none => some (List.map_eq_nil_iff.mp none))
    ((operandsAmong before).map (compile grammar mode))
    ((operandsAmong after).map (compile grammar mode))
  rw [compile_node, compile_node, assemble_of_splice splices, assemble_of_splice splices]
  simp only [operandsAmong_append, alone, List.map_append, List.map_singleton]
  rw [compile_node, assemble_of_splice splices]
  exact spliced

end Placed

/-! ## Groups in a tree -/

namespace Tree

theorem byteSizeOfAll_append (first second : List Tree) :
    byteSizeOfAll (first ++ second) = byteSizeOfAll first + byteSizeOfAll second := by
  rw [← utf8ByteSize_textOfAll, textOfAll_append, String.utf8ByteSize_append, utf8ByteSize_textOfAll,
    utf8ByteSize_textOfAll]

theorem placeAll_append (offset : Nat) (first second : List Tree) :
    placeAll offset (first ++ second) =
      placeAll offset first ++ placeAll (offset + byteSizeOfAll first) second := by
  induction first generalizing offset with
  | nil => rfl
  | cons tree first ih =>
      rw [List.cons_append, placeAll, ih, placeAll, byteSizeOfAll, Nat.add_assoc, List.cons_append]

/-- The second tree is the first with a group in it: at one place, neighbouring children of a sequence,
an operand among them, stand in a sequence of their own, or children of a choice in a choice. -/
inductive Groups : Tree → Tree → Prop
  | here {kind : Kind} (splices : kind = .seq ∨ kind = .choice) (before after : List Tree)
    {group : List Tree} (operand : ∃ tree ∈ group, tree.isOperand = true) :
    Groups (.node kind (before ++ group ++ after))
      (.node kind (before ++ [.node kind group] ++ after))
  | inside (kind : Kind) (before after : List Tree) {child grouped : Tree}
    (groups : Groups child grouped) :
    Groups (.node kind (before ++ [child] ++ after)) (.node kind (before ++ [grouped] ++ after))

namespace Groups

variable {tree grouped : Tree}

/-- A group does not change the text. -/
theorem text_eq (groups : tree.Groups grouped) : grouped.text = tree.text := by
  induction groups with
  | here =>
      simp only [text, textOfAll_append, textOfAll, String.append_empty]
  | inside _ _ _ _ ih =>
      simp only [text, textOfAll_append, textOfAll, ih]

theorem byteSize_eq (groups : tree.Groups grouped) : grouped.byteSize = tree.byteSize := by
  rw [← utf8ByteSize_text, ← utf8ByteSize_text, groups.text_eq]

/-- Outside the group nothing is read off a node that was not read off it before. -/
theorem word?_eq (groups : tree.Groups grouped) (accepts : Kind → Bool) :
    grouped.word? accepts = tree.word? accepts := by
  cases groups <;> rfl

theorem decoration?_eq (groups : tree.Groups grouped) {kind : Kind}
    (decorates : kind.isDecoration = true) : grouped.decoration? kind = tree.decoration? kind := by
  cases groups with
  | @here own splices =>
      have other : (own == kind) = false := by
        rw [beq_eq_false_iff_ne]
        rintro rfl
        rcases splices with rfl | rfl
        · cases decorates
        · cases decorates
      rw [Tree.decoration?, Tree.decoration?, other]
      rfl
  | inside _ _ _ groups =>
      simp only [Tree.decoration?, words, List.filterMap_append, List.filterMap_cons,
        List.filterMap_nil, groups.word?_eq]

theorem isNodeOf_eq (groups : tree.Groups grouped) (accepts : Kind → Bool) (offset : Nat) :
    (grouped.place offset).isNodeOf accepts = (tree.place offset).isNodeOf accepts := by
  cases groups <;> rfl

section Assemble

variable {kind : Kind} {before after : List Tree} {child grouped : Tree}

theorem words_eq (groups : child.Groups grouped) (accepts : Kind → Bool) :
    words accepts (before ++ [grouped] ++ after) = words accepts (before ++ [child] ++ after) := by
  simp only [words, List.filterMap_append, List.filterMap_cons, List.filterMap_nil,
    groups.word?_eq]

theorem filterMap_decoration?_eq (groups : child.Groups grouped) {kind : Kind}
    (decorates : kind.isDecoration = true) :
    (before ++ [grouped] ++ after).filterMap (Tree.decoration? kind) =
      (before ++ [child] ++ after).filterMap (Tree.decoration? kind) := by
  simp only [List.filterMap_append, List.filterMap_cons, List.filterMap_nil,
    groups.decoration?_eq decorates]

/-- From the same operands, a node is assembled in the same way with a group inside a child. -/
theorem assemble_eq (groups : child.Groups grouped) (grammar : GrammarId) (mode : Mode)
    (span : Span) (offset : Nat) (operands : List Expr) :
    assemble grammar mode kind span (placeAll offset (before ++ [grouped] ++ after)) operands =
      assemble grammar mode kind span (placeAll offset (before ++ [child] ++ after)) operands := by
  have laid := forall₂_placeAll (before ++ [child] ++ after) offset
  have laidGrouped := forall₂_placeAll (before ++ [grouped] ++ after) offset
  have text : View.operandText (placeAll offset (before ++ [grouped] ++ after)) =
      View.operandText (placeAll offset (before ++ [child] ++ after)) := by
    rw [View.operandText, View.firstText_of_laid laidGrouped, groups.words_eq, View.operandText,
      View.firstText_of_laid laid]
  have func : View.funcName? (placeAll offset (before ++ [grouped] ++ after)) =
      View.funcName? (placeAll offset (before ++ [child] ++ after)) := by
    rw [View.funcName?_of_laid laidGrouped, groups.words_eq, View.funcName?_of_laid laid]
  have decoration : ∀ kind : Kind, kind.isDecoration = true →
      View.decoration? kind (placeAll offset (before ++ [grouped] ++ after)) =
        View.decoration? kind (placeAll offset (before ++ [child] ++ after)) := by
    intro kind decorates
    rw [View.decoration?_of_laid laidGrouped, groups.filterMap_decoration?_eq decorates,
      View.decoration?_of_laid laid]
  simp only [assemble, text, func, View.tag?, View.label?, decoration .tag rfl, decoration .label rfl]

end Assemble

/-- A group does not show in what is compiled, wherever the tree is laid out. -/
theorem compile_eq (groups : tree.Groups grouped) (offset : Nat) (grammar : GrammarId)
    (mode : Mode) :
    (grouped.place offset).compile grammar mode = (tree.place offset).compile grammar mode := by
  -- Induction on where the group is: the nodes around it keep their text and their other children.
  induction groups generalizing offset with
  | @here kind splices before after group operand =>
      obtain ⟨splice, splices⟩ := Kind.exists_splice splices
      have some : Placed.operandsAmong (placeAll (offset + byteSizeOfAll before) group) ≠ [] := by
        have laid := operandsAmong_placeAll group (offset + byteSizeOfAll before)
        obtain ⟨tree, member, isOperand⟩ := operand
        rintro none
        rw [none, List.forall₂_nil_right_iff, List.filter_eq_nil_iff] at laid
        exact laid tree member isOperand
      simp only [place, placeAll_append, placeAll, byteSizeOfAll_append, byteSizeOfAll, byteSize,
        Nat.add_zero]
      exact Placed.compile_group splices some grammar mode _ _
  | @inside kind before after child grouped groups ih =>
      have sizes := groups.byteSize_eq
      have alone (start : Nat) : compileOperands grammar mode [grouped.place start] =
          compileOperands grammar mode [child.place start] := by
        have operand : (grouped.place start).isOperand = (child.place start).isOperand :=
          groups.isNodeOf_eq _ start
        simp only [compileOperands, operand, ih]
      have operands : (Placed.operandsAmong (placeAll offset (before ++ [grouped] ++ after))).map
          (Placed.compile grammar mode) =
            (Placed.operandsAmong (placeAll offset (before ++ [child] ++ after))).map
              (Placed.compile grammar mode) := by
        simp only [Placed.compileOperands_eq] at alone
        simp only [placeAll_append, placeAll, byteSizeOfAll_append, byteSizeOfAll, sizes,
          Placed.operandsAmong_append, List.map_append, alone]
      simp only [place, Placed.compile_node, operands, groups.assemble_eq, byteSizeOfAll_append,
        byteSizeOfAll, sizes]

end Groups

/-! ## Grouping -/

/-- **Grouping does not matter.** Expressions of which some neighbouring ones are spliced beforehand are
spliced as if these stood alone, if there is one of them and all of them are flat. So a tree in which
neighbouring operands of a sequence are put into a sequence of their own, or operands of a choice into a
choice, has the same text and is compiled in the same way in either mode. -/
theorem grouping_immaterial :
    (∀ before group after : List Expr, (∀ item ∈ group, item.IsFlat) → group ≠ [] →
      Expr.seqOf (before ++ [Expr.seqOf group] ++ after) = Expr.seqOf (before ++ group ++ after) ∧
        Expr.choiceOf (before ++ [Expr.choiceOf group] ++ after) =
          Expr.choiceOf (before ++ group ++ after)) ∧
      ∀ tree grouped : Tree, tree.Groups grouped →
        grouped.text = tree.text ∧ ∀ offset grammar mode,
          (grouped.place offset).compile grammar mode = (tree.place offset).compile grammar mode := by
  refine ⟨fun before group after flat some => ⟨?_, ?_⟩, fun tree grouped groups => ?_⟩
  · exact Splice.seq.of_group (fun item member => (flat item member).isTidy_seq) some before after
  · exact Splice.choice.of_group (fun item member => (flat item member).isTidy_choice) some before
      after
  · exact ⟨groups.text_eq, groups.compile_eq⟩

/-- A group of one sequence disappears, and a group in the argument of a call leaves the places of the
references in it as they are. -/
theorem grouping_immaterial_in_call :
    let pair : Expr := .seq [.any, .literal "b"]
    let tree := (Draft.Term.group (.func "scope") [.group .seq
      [.leaf (.name "A"), .leaf .any, .leaf (.name "C")]]).tree
    let grouped := (Draft.Term.group (.func "scope") [.group .seq
      [.leaf (.name "A"), .group .seq [.leaf .any, .leaf (.name "C")]]]).tree
    pair.IsFlat ∧ Expr.seqOf ([pair] ++ [Expr.seqOf [pair]] ++ [.fail]) =
        .seq [.any, .literal "b", .any, .literal "b", .fail] ∧
      tree.Groups grouped ∧ (grouped.place 4).compile ⟨1⟩ .full = .action "scope" ⟨4, 17⟩
        (.seq [.ref ⟨⟨1⟩, "A", ⟨11, 12⟩⟩, .any, .ref ⟨⟨1⟩, "C", ⟨15, 16⟩⟩])
        [.seq [.ref ⟨⟨1⟩, "A", ⟨11, 12⟩⟩, .any, .ref ⟨⟨1⟩, "C", ⟨15, 16⟩⟩]] := by
  intro pair tree grouped
  have flat : pair.IsFlat := .seq (by decide) (by decide) fun item member => by
    rcases List.mem_cons.mp member with rfl | member
    · exact .atom _
    · exact List.mem_singleton.mp member ▸ .atom _
  have groups : tree.Groups grouped :=
    .inside .func (Draft.Construct.func "scope").opening (Draft.Construct.func "scope").closing
      (.here (.inl rfl) [Draft.Leaf.tree (.name "A"), Draft.space] []
        ⟨Draft.Leaf.tree .any, List.mem_cons_self, rfl⟩)
  have spliced := (grouping_immaterial.1 [pair] [pair] [.fail]
    (List.forall_mem_singleton.mpr flat) (List.cons_ne_nil _ _)).1
  have compiled := (grouping_immaterial.2 tree grouped groups).2 4 ⟨1⟩ .full
  exact ⟨flat, spliced.trans rfl, groups, compiled.trans rfl⟩

end Tree

end Peg
