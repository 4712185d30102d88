import Mathlib.Data.List.Basic
import Peg.Load.Path

/-!
# Segments of paths

What the operations on paths do to segments.

* `Text.splitAll_append`: cutting at a separator cuts what stands on its two sides.
* `Path.layoutOf_cases`: the four ways in which a path can begin.
* `Path.filterMap_components`: the names on a path are its segments without the idle ones.
* `Path.segments_join`: a name that is joined to a path from the root becomes its last segment.
-/

namespace Peg

/-! ## Cutting -/

namespace Text

variable {separator : Char} {text piece : List Char}

theorem splitAll_cons_of_ne {c : Char} (ne : c ≠ separator) {first : List Char}
    {pieces : List (List Char)} (rest : splitAll separator text = first :: pieces) :
    splitAll separator (c :: text) = (c :: first) :: pieces := by
  rw [splitAll, if_neg ne, rest]

theorem exists_splitAll_eq_cons (separator : Char) (text : List Char) :
    ∃ first pieces, splitAll separator text = first :: pieces := by
  induction text with
  | nil => exact ⟨[], [], rfl⟩
  | cons c text ih =>
      obtain ⟨first, pieces, eq⟩ := ih
      by_cases same : c = separator
      · exact ⟨[], first :: pieces, by rw [splitAll, if_pos same, eq]⟩
      · exact ⟨c :: first, pieces, splitAll_cons_of_ne same eq⟩

theorem splitAll_append (left right : List Char) :
    splitAll separator (left ++ separator :: right) =
      splitAll separator left ++ splitAll separator right := by
  induction left with
  | nil => exact if_pos rfl
  | cons c left ih =>
      by_cases same : c = separator
      · rw [List.cons_append, splitAll, if_pos same, ih, splitAll, if_pos same, List.cons_append]
      · obtain ⟨first, pieces, eq⟩ := exists_splitAll_eq_cons separator left
        rw [eq, List.cons_append] at ih
        rw [List.cons_append, splitAll_cons_of_ne same ih, splitAll_cons_of_ne same eq,
          List.cons_append]

theorem splitAll_of_not_mem (absent : separator ∉ text) : splitAll separator text = [text] := by
  induction text with
  | nil => rfl
  | cons c text ih =>
      rw [List.mem_cons, not_or] at absent
      exact splitAll_cons_of_ne (Ne.symm absent.1) (ih absent.2)

theorem not_mem_of_mem_splitAll (member : piece ∈ splitAll separator text) : separator ∉ piece := by
  induction text generalizing piece with
  | nil =>
      rw [List.mem_singleton.mp member]
      exact List.not_mem_nil
  | cons c text ih =>
      by_cases same : c = separator
      · rw [splitAll, if_pos same] at member
        rcases List.mem_cons.mp member with rfl | member
        · exact List.not_mem_nil
        · exact ih member
      · obtain ⟨first, pieces, eq⟩ := exists_splitAll_eq_cons separator text
        rw [splitAll_cons_of_ne same eq] at member
        rw [eq] at ih
        rcases List.mem_cons.mp member with rfl | member
        · rw [List.mem_cons, not_or]
          exact ⟨Ne.symm same, ih List.mem_cons_self⟩
        · exact ih (List.mem_cons_of_mem _ member)

/-- The first piece stands at the start of the text. -/
theorem isPrefix_of_splitAll {pieces : List (List Char)}
    (cut : splitAll separator text = piece :: pieces) : piece <+: text := by
  induction text generalizing piece pieces with
  | nil =>
      cases cut
      exact List.nil_prefix
  | cons c text ih =>
      by_cases same : c = separator
      · rw [splitAll, if_pos same] at cut
        cases cut
        exact List.nil_prefix
      · obtain ⟨first, others, eq⟩ := exists_splitAll_eq_cons separator text
        rw [splitAll_cons_of_ne same eq] at cut
        cases cut
        exact List.cons_prefix_cons.mpr ⟨rfl, ih eq⟩

theorem infix_of_mem_splitAll (member : piece ∈ splitAll separator text) : piece <:+: text := by
  induction text generalizing piece with
  | nil =>
      exact List.mem_singleton.mp member ▸ List.infix_rfl
  | cons c text ih =>
      have inside {part : List Char} (member : part ∈ splitAll separator text) : part <:+: c :: text :=
        (ih member).trans (List.suffix_cons c text).isInfix
      by_cases same : c = separator
      · rw [splitAll, if_pos same] at member
        rcases List.mem_cons.mp member with rfl | member
        · exact List.nil_infix
        · exact inside member
      · obtain ⟨first, pieces, eq⟩ := exists_splitAll_eq_cons separator text
        rw [splitAll_cons_of_ne same eq] at member
        rcases List.mem_cons.mp member with rfl | member
        · exact (List.cons_prefix_cons.mpr ⟨rfl, isPrefix_of_splitAll eq⟩).isInfix
        · exact inside (eq ▸ List.mem_cons_of_mem _ member)

end Text

namespace Path

open Text (splitAll)

/-! ## Layouts -/

/-- The four ways in which a path can begin. -/
theorem layoutOf_cases (text : List Char) :
    (∃ rest, text = '/' :: rest ∧ layoutOf text = ⟨.root, splitAll '/' rest⟩) ∨
      (text = ['.'] ∧ layoutOf text = ⟨.current, []⟩) ∨
      (∃ rest, text = '.' :: '/' :: rest ∧ layoutOf text = ⟨.current, splitAll '/' rest⟩) ∨
      (text.head? ≠ some '/' ∧ layoutOf text = ⟨.plain, splitAll '/' text⟩) := by
  unfold layoutOf
  split
  · next rest => exact Or.inl ⟨rest, rfl, rfl⟩
  · exact Or.inr (Or.inl ⟨rfl, rfl⟩)
  · next rest => exact Or.inr (Or.inr (Or.inl ⟨rest, rfl, rfl⟩))
  · next noRoot _ _ =>
      refine Or.inr (Or.inr (Or.inr ⟨fun head => ?_, rfl⟩))
      obtain ⟨rest, eq⟩ := List.head?_eq_some_iff.mp head
      exact noRoot rest eq

variable {path : Path} {segment : List Char}

theorem isAbsolute_iff : path.isAbsolute = true ↔ path.text.toList.head? = some '/' := by
  rw [isAbsolute, layout]
  rcases layoutOf_cases path.text.toList with
    ⟨rest, text, eq⟩ | ⟨text, eq⟩ | ⟨rest, text, eq⟩ | ⟨head, eq⟩
  · rw [eq, text]
    exact ⟨fun _ => rfl, fun _ => rfl⟩
  · rw [eq, text]
    decide
  · rw [eq, text]
    exact ⟨nofun, nofun⟩
  · rw [eq]
    exact ⟨nofun, fun root => absurd root head⟩

theorem layout_of_root {rest : List Char} (text : path.text.toList = '/' :: rest) :
    path.layout = ⟨.root, splitAll '/' rest⟩ := by
  rw [layout, text, layoutOf]

theorem not_mem_of_mem_segments (member : segment ∈ path.layout.segments) : '/' ∉ segment := by
  rw [layout] at member
  rcases layoutOf_cases path.text.toList with ⟨_, -, eq⟩ | ⟨-, eq⟩ | ⟨_, -, eq⟩ | ⟨-, eq⟩
  · exact Text.not_mem_of_mem_splitAll (eq ▸ member)
  · rw [eq] at member
    cases member
  · exact Text.not_mem_of_mem_splitAll (eq ▸ member)
  · exact Text.not_mem_of_mem_splitAll (eq ▸ member)

/-- The last segment of a path with a final slash is empty. -/
theorem segments_of_finalSlash (final : path.text.toList.getLast? = some '/') :
    ∃ before, path.layout.segments = before ++ [[]] := by
  have cut : ∀ rest : List Char, rest.getLast? = some '/' →
      ∃ before, splitAll '/' rest = before ++ [[]] := by
    intro rest last
    obtain ⟨before, rfl⟩ := List.getLast?_eq_some_iff.mp last
    exact ⟨splitAll '/' before, Text.splitAll_append before []⟩
  rw [layout]
  rcases layoutOf_cases path.text.toList with
    ⟨rest, text, eq⟩ | ⟨text, eq⟩ | ⟨rest, text, eq⟩ | ⟨-, eq⟩
  · rw [eq]
    cases rest with
    | nil => exact ⟨[], rfl⟩
    | cons c rest =>
        rw [text, List.getLast?_cons_cons] at final
        exact cut _ final
  · rw [text] at final
    exact absurd final (by decide)
  · rw [eq]
    cases rest with
    | nil => exact ⟨[], rfl⟩
    | cons c rest =>
        rw [text, List.getLast?_cons_cons, List.getLast?_cons_cons] at final
        exact cut _ final
  · rw [eq]
    exact cut _ final

/-! ## Names -/

/-- The name that a segment adds to a path. -/
def segmentName? (segment : List Char) : Option String :=
  (component? segment).bind Component.segment?

theorem segmentName?_of_idle (idle : isIdle segment = true) : segmentName? segment = none := by
  rw [segmentName?, component?, if_pos idle, Option.bind_none]

theorem segmentName?_of_not_idle (idle : ¬isIdle segment = true) :
    segmentName? segment = some (String.ofList segment) := by
  rw [segmentName?, component?, if_neg idle]
  split
  · next up =>
      rw [up]
      rfl
  · rfl

theorem filterMap_components (path : Path) :
    path.components.filterMap Component.segment? = path.layout.segments.filterMap segmentName? := by
  have lead : path.layout.lead.components.filterMap Component.segment? = [] := by
    cases path.layout.lead <;> rfl
  rw [components, Layout.components, List.filterMap_append, lead, List.nil_append,
    List.filterMap_filterMap]
  rfl

/-- Without a final slash, the absolute path of a path joins the names on it one by one. -/
theorem absolute?_of_name (written : path.text.isEmpty = false)
    (final : path.text.toList.getLast? ≠ some '/') (workDir : Path) :
    path.absolute? workDir =
      some ((path.layout.segments.filterMap segmentName?).foldl join (path.base workDir)) := by
  rw [absolute?, written, if_neg Bool.false_ne_true, filterMap_components]
  exact congrArg some (if_neg final)

/-! ## Joining -/

/-- A name joined to a path from the root becomes the last segment; an empty last segment makes room
for it. -/
theorem segments_join {rest name : List Char} (text : path.text.toList = '/' :: rest)
    (plain : '/' ∉ name) :
    (path.join (String.ofList name)).text.toList.head? = some '/' ∧
      ∃ before, (path.layout.segments = before ∨ path.layout.segments = before ++ [[]]) ∧
        (path.join (String.ofList name)).layout.segments = before ++ [name] := by
  have start : ¬(String.ofList name).toList.head? = some '/' := by
    rw [String.toList_ofList]
    exact fun head => plain (List.mem_of_mem_head? head)
  rw [layout_of_root text, join, if_neg start]
  have alone : splitAll '/' name = [name] := Text.splitAll_of_not_mem plain
  by_cases final : path.text.toList.getLast? = some '/'
  · rw [if_pos (Or.inr final)]
    have joined : (path.text ++ String.ofList name).toList = '/' :: (rest ++ name) := by
      rw [String.toList_append, String.toList_ofList, text, List.cons_append]
    refine ⟨by rw [joined]; rfl, ?_⟩
    rw [@layout_of_root ⟨_⟩ _ joined]
    cases rest with
    | nil => exact ⟨[], Or.inr rfl, alone⟩
    | cons c rest =>
        rw [text, List.getLast?_cons_cons] at final
        obtain ⟨before, eq⟩ := List.getLast?_eq_some_iff.mp final
        refine ⟨splitAll '/' before, Or.inr ?_, ?_⟩
        · rw [eq]
          exact Text.splitAll_append before []
        · rw [eq, List.append_assoc, List.singleton_append]
          show splitAll '/' (before ++ '/' :: name) = _
          rw [Text.splitAll_append, alone]
  · have written : ¬(path.text.isEmpty = true ∨ path.text.toList.getLast? = some '/') := by
      rintro (empty | last)
      · rw [String.isEmpty_iff.mp empty] at text
        cases text
      · exact final last
    rw [if_neg written]
    have joined : (path.text ++ "/" ++ String.ofList name).toList = '/' :: (rest ++ '/' :: name) := by
      rw [String.toList_append, String.toList_append, String.toList_ofList, text]
      simp
    refine ⟨by rw [joined]; rfl, splitAll '/' rest, Or.inl rfl, ?_⟩
    rw [@layout_of_root ⟨_⟩ _ joined]
    show splitAll '/' (rest ++ '/' :: name) = _
    rw [Text.splitAll_append, alone]

end Path

end Peg
