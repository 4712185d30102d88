import Peg.Proofs.Load.Trunk

/-!
# Absolute paths

The absolute form of a path has a beginning of its own, the working directory or the root, and behind it
the segments of the path that do not stay where they are. The root is written with two slashes if the
path begins with exactly two.

* `Path.isDoubled`, `Path.base_of_root`: how the root is written.
* `Path.exists_absolute?`: the absolute form of a path.
* `Path.eq_of_segments`: a path from the root is determined by its segments.
* `Path.Candidates`: a name in the parent of a path, and in the parent of its absolute form.
* `Path.Candidates.trunk_base_written`: the two have the same absolute form.
-/

namespace Peg

namespace Path

open Text (splitAll)

variable {path workDir : Path} {segments before : List (List Char)} {name : List Char}

/-! ## Beginnings -/

theorem base_of_relative (relative : path.isAbsolute = false) (workDir : Path) :
    path.base workDir = workDir := by
  have head : path.text.toList.head? ≠ some '/' := by
    rw [Ne, ← isAbsolute_iff, relative]
    exact Bool.false_ne_true
  unfold base
  split
  · next text => exact absurd (text ▸ rfl) head
  · next text => exact absurd (text ▸ rfl) head
  · next text => exact absurd (text ▸ rfl) head
  · rfl

/-- A path from the root with this trunk begins with exactly two slashes. -/
def isDoubled : List (List Char) → Bool
  | [[]] => true
  | [] :: (_ :: _) :: _ => true
  | _ => false

theorem isDoubled_cons_of_ne_nil (nonempty : name ≠ []) (segments : List (List Char)) :
    isDoubled (name :: segments) = false := by
  obtain ⟨c, rest, rfl⟩ := List.exists_cons_of_ne_nil nonempty
  rfl

theorem isDoubled_nil_cons_of_ne_nil (nonempty : name ≠ []) (segments : List (List Char)) :
    isDoubled ([] :: name :: segments) = true := by
  obtain ⟨c, rest, rfl⟩ := List.exists_cons_of_ne_nil nonempty
  rfl

theorem isDoubled_cons_cons (first second : List Char) (segments others : List (List Char)) :
    isDoubled (first :: second :: segments) = isDoubled (first :: second :: others) := by
  cases first with
  | nil =>
      cases second with
      | nil => rfl
      | cons c second => rfl
  | cons c first => rfl

theorem isDoubled_of_busy (busy : ∀ segment ∈ segments, isIdle segment = false) :
    isDoubled segments = false := by
  cases segments with
  | nil => rfl
  | cons first segments =>
      exact isDoubled_cons_of_ne_nil (ne_nil_of_busy (busy first List.mem_cons_self)) segments

theorem isDoubled_root (doubled : Bool) (busy : ∀ segment ∈ segments, isIdle segment = false)
    (nonempty : segments ≠ []) :
    isDoubled ((if doubled = true then [[]] else []) ++ segments) = doubled := by
  cases doubled with
  | false => exact isDoubled_of_busy busy
  | true =>
      obtain ⟨first, rest, rfl⟩ := List.exists_cons_of_ne_nil nonempty
      exact isDoubled_nil_cons_of_ne_nil (ne_nil_of_busy (busy first List.mem_cons_self)) rest

/-- What stands behind the first name of a path has no part in how the root is written. -/
theorem isDoubled_front (busy : isIdle name = false) (front after after' : List (List Char)) :
    isDoubled (front ++ name :: after) = isDoubled (front ++ name :: after') := by
  rcases front with _ | ⟨first, _ | ⟨second, front⟩⟩
  · rw [List.nil_append, List.nil_append, isDoubled_cons_of_ne_nil (ne_nil_of_busy busy),
      isDoubled_cons_of_ne_nil (ne_nil_of_busy busy)]
  · exact isDoubled_cons_cons first name after after'
  · exact isDoubled_cons_cons first second _ _

/-- The parent of the absolute form of a path is written with two slashes at its start if the parent
of the path is. -/
theorem isDoubled_candidate {after : List (List Char)} (busy : isIdle name = false)
    (same : segments = before ++ name :: after) :
    isDoubled (trimIdle ((if isDoubled segments = true then [[]] else []) ++ active before) ++ [name]) =
      isDoubled (trimIdle before ++ [name]) := by
  rcases trimIdle_cases before with ⟨trim, none⟩ | ⟨front, last, others, busyLast, trim, eq, eqActive⟩
  · rw [trim, none, List.append_nil]
    split
    · rfl
    · rfl
  · have busyAll : ∀ segment ∈ active front ++ [last] ++ [name], isIdle segment = false := by
      intro segment member
      simp only [List.mem_append, List.mem_singleton] at member
      rcases member with (member | rfl) | rfl
      · exact isIdle_of_mem_active member
      · exact busyLast
      · exact busy
    rw [trim, eqActive, ← List.append_assoc, trimIdle_concat busyLast, List.append_assoc _ _ [last],
      List.append_assoc _ _ [name], isDoubled_root _ busyAll (List.concat_ne_nil name _), same, eq,
      List.append_assoc, List.append_assoc, List.cons_append]
    exact isDoubled_front busyLast front _ _

/-- The absolute form of a path from the root begins with two slashes if the path begins with exactly
two. -/
theorem base_of_root (absolute : path.isAbsolute = true) (workDir : Path) :
    path.base workDir = if isDoubled path.trunk then ⟨"//"⟩ else ⟨"/"⟩ := by
  obtain ⟨rest, text⟩ := List.head?_eq_some_iff.mp (isAbsolute_iff.mp absolute)
  rw [trunk, layout_of_root text, base, text]
  rcases rest with _ | ⟨c, rest⟩
  · rfl
  by_cases slash : c = '/'
  · subst slash
    rcases rest with _ | ⟨d, rest⟩
    · rfl
    obtain ⟨first, pieces, cut⟩ := Text.exists_splitAll_eq_cons '/' rest
    by_cases slash : d = '/'
    · subst slash
      rw [splitAll, if_pos rfl, splitAll, if_pos rfl, cut, trunkOf_cons_cons, trunkOf_cons_cons]
      rfl
    · obtain ⟨others, eq⟩ := exists_trunkOf_cons (List.cons_ne_nil d first) pieces
      rw [splitAll, if_pos rfl, Text.splitAll_cons_of_ne slash cut, trunkOf_cons_cons, eq,
        isDoubled_nil_cons_of_ne_nil (List.cons_ne_nil d first), if_pos rfl]
      exact if_neg slash
  · obtain ⟨first, pieces, cut⟩ := Text.exists_splitAll_eq_cons '/' rest
    obtain ⟨others, eq⟩ := exists_trunkOf_cons (List.cons_ne_nil c first) pieces
    rw [Text.splitAll_cons_of_ne slash cut, eq, isDoubled_cons_of_ne_nil (List.cons_ne_nil c first),
      if_neg Bool.false_ne_true]
    split
    · next same =>
      cases same
      exact absurd rfl slash
    · next same =>
      cases same
      exact absurd rfl slash
    · rfl
    · next noRoot => exact absurd rfl (noRoot _)

theorem trunk_base (absolute : path.isAbsolute = true) (workDir : Path) :
    (path.base workDir).layout.lead = .root ∧
      (path.base workDir).trunk = if isDoubled path.trunk then [[]] else [] := by
  rw [base_of_root absolute]
  split
  · exact ⟨rfl, rfl⟩
  · exact ⟨rfl, rfl⟩

/-! ## Absolute forms -/

/-- The absolute form of a path: what the path begins with, and behind it the segments of the path that
do not stay where they are. -/
theorem exists_absolute? (written : path.text.isEmpty = false) (workDir : Path) :
    ∃ whole, path.absolute? workDir = some whole ∧
      whole.layout.lead = (path.base workDir).layout.lead ∧
      whole.trunk = (path.base workDir).trunk ++ active path.trunk := by
  have plain : ∀ segment ∈ path.layout.segments, '/' ∉ segment := fun _ => not_mem_of_mem_segments
  obtain ⟨lead, steps⟩ := trunk_foldl_join plain (path.base workDir)
  rw [← filterMap_components, ← active_trunkOf] at steps
  rw [← filterMap_components] at lead
  rw [absolute?, written, if_neg Bool.false_ne_true]
  refine ⟨_, rfl, ?_⟩
  split
  · obtain ⟨leadJoined, joined⟩ :=
      layout_join_empty ((path.components.filterMap Component.segment?).foldl join (path.base workDir))
    exact ⟨leadJoined.trans lead, joined.trans steps⟩
  · exact ⟨lead, steps⟩

/-- Two paths from the root with the same segments are the same. -/
theorem eq_of_segments {other : Path} (root : path.layout.lead = .root)
    (root' : other.layout.lead = .root) (same : path.layout.segments = other.layout.segments) :
    path = other := by
  have textOf : ∀ path : Path, path.layout.lead = .root →
      path.text.toList = '/' :: List.intercalate ['/'] path.layout.segments := by
    intro path root
    obtain ⟨rest, text⟩ := List.head?_eq_some_iff.mp
      (isAbsolute_iff.mp (by rw [isAbsolute, root]; rfl))
    rw [layout_of_root text, Text.intercalate_splitAll, text]
  have text : path.text.toList = other.text.toList := by
    rw [textOf path root, textOf other root', same]
  obtain ⟨text⟩ := path
  exact congrArg Path.mk (String.toList_inj.mp text)

/-! ## Candidates -/

/-- The path is written as an operating system reports a directory: from the root, with no segment that
stays where it is, apart from a final slash. -/
def IsCanonical (path : Path) : Prop :=
  path.isAbsolute = true ∧ ∀ segment ∈ path.trunk, isIdle segment = false

theorem isAbsolute_iff_lead : path.isAbsolute = true ↔ path.layout.lead = .root := by
  rw [isAbsolute, beq_iff_eq]

theorem active_base (absolute : path.isAbsolute = true) (workDir : Path) :
    active (path.base workDir).trunk = [] := by
  rw [(trunk_base absolute workDir).2]
  split
  · rfl
  · rfl

/-- Two paths to the name that a path ends in: `written` in the parent of the path as it is written, and
`rooted` in the parent of its absolute form. -/
structure Candidates (path workDir : Path) (before : List (List Char)) (name : List Char)
    (written rooted : Path) : Prop where
  ends : trimIdle path.trunk = before ++ [name]
  busy : isIdle name = false
  layout_written : written.layout = ⟨path.layout.lead, trimIdle before ++ [name]⟩
  layout_rooted : rooted.layout =
    ⟨(path.base workDir).layout.lead, trimIdle ((path.base workDir).trunk ++ active before) ++ [name]⟩

/-- A name in the parent of a path that ends in this name. -/
theorem layout_inParent (ends : trimIdle path.trunk = before ++ [name]) (busy : isIdle name = false) :
    ((path.parent?.getD ⟨""⟩).join (String.ofList name)).layout =
      ⟨path.layout.lead, trimIdle before ++ [name]⟩ := by
  obtain ⟨parent, eq, lead, trunk⟩ := exists_parent? ends
  have member : name ∈ path.trunk := by
    have front : trimIdle path.trunk <+: path.trunk := List.rdropWhile_prefix isIdle path.trunk
    rw [ends] at front
    exact front.subset (List.mem_append_right before List.mem_cons_self)
  rw [eq, Option.getD_some, layout_join (not_mem_of_mem_trunk member) (ne_dot_of_busy busy), lead, trunk]

theorem exists_candidates {name : String} (ends : path.fileName? = some name) (workDir : Path) :
    ∃ whole before, path.absolute? workDir = some whole ∧
      Candidates path workDir before name.toList ((path.parent?.getD ⟨""⟩).join name)
        ((whole.parent?.getD ⟨""⟩).join name) := by
  obtain ⟨before, trim, busy⟩ := exists_trimIdle_of_fileName? ends
  have written : path.text.isEmpty = false := by
    refine Bool.eq_false_iff.mpr fun empty => ?_
    rw [fileName?, components, layout, String.isEmpty_iff.mp empty] at ends
    cases ends
  obtain ⟨whole, absolute, lead, trunk⟩ := exists_absolute? written workDir
  have trimWhole : trimIdle whole.trunk = ((path.base workDir).trunk ++ active before) ++ [name.toList] := by
    rw [trunk, ← active_trimIdle path.trunk, trim, active_append, active_singleton busy,
      ← List.append_assoc, trimIdle_concat busy]
  have layout := layout_inParent trim busy
  have layoutWhole := layout_inParent trimWhole busy
  rw [String.ofList_toList] at layout layoutWhole
  exact ⟨whole, before, absolute, trim, busy, layout, lead ▸ layoutWhole⟩

namespace Candidates

variable {written rooted : Path}

theorem trunk_written (candidates : Candidates path workDir before name written rooted) :
    written.trunk = trimIdle before ++ [name] := by
  rw [trunk, candidates.layout_written, trunkOf_concat (ne_nil_of_busy candidates.busy)]

theorem trunk_rooted (candidates : Candidates path workDir before name written rooted) :
    rooted.trunk = trimIdle ((path.base workDir).trunk ++ active before) ++ [name] := by
  rw [trunk, candidates.layout_rooted, trunkOf_concat (ne_nil_of_busy candidates.busy)]

theorem isAbsolute_written (candidates : Candidates path workDir before name written rooted) :
    written.isAbsolute = path.isAbsolute := by
  rw [isAbsolute, isAbsolute, candidates.layout_written]

theorem active_written (candidates : Candidates path workDir before name written rooted) :
    active written.trunk = active before ++ [name] := by
  rw [candidates.trunk_written, active_append, active_trimIdle, active_singleton candidates.busy]

theorem active_rooted (candidates : Candidates path workDir before name written rooted) :
    active rooted.trunk = active (path.base workDir).trunk ++ active before ++ [name] := by
  rw [candidates.trunk_rooted, active_append, active_trimIdle, active_append, active_active,
    active_singleton candidates.busy]

/-- Both begin where the path begins, up to idle segments. -/
theorem active_base_written (candidates : Candidates path workDir before name written rooted) :
    active (written.base workDir).trunk = active (path.base workDir).trunk := by
  cases absolute : path.isAbsolute with
  | true => rw [active_base absolute, active_base (candidates.isAbsolute_written.trans absolute)]
  | false =>
      rw [base_of_relative absolute, base_of_relative (candidates.isAbsolute_written.trans absolute)]

theorem lead_base_written (candidates : Candidates path workDir before name written rooted) :
    (written.base workDir).layout.lead = (path.base workDir).layout.lead := by
  cases absolute : path.isAbsolute with
  | true =>
      rw [(trunk_base absolute workDir).1,
        (trunk_base (candidates.isAbsolute_written.trans absolute) workDir).1]
  | false =>
      rw [base_of_relative absolute, base_of_relative (candidates.isAbsolute_written.trans absolute)]

/-- Seen from a canonical directory, the two paths begin with the same segments. -/
theorem trunk_base_written (candidates : Candidates path workDir before name written rooted)
    (canonical : workDir.IsCanonical) :
    (written.base workDir).trunk = (rooted.base workDir).trunk ++ active (path.base workDir).trunk := by
  cases absolute : path.isAbsolute with
  | true =>
      obtain ⟨lead, base⟩ := trunk_base absolute workDir
      have absoluteRooted : rooted.isAbsolute = true := by
        rw [isAbsolute_iff_lead, candidates.layout_rooted, lead]
      obtain ⟨after, same⟩ : trimIdle path.trunk <+: path.trunk := List.rdropWhile_prefix isIdle path.trunk
      rw [candidates.ends, List.append_assoc] at same
      rw [(trunk_base (candidates.isAbsolute_written.trans absolute) workDir).2,
        (trunk_base absoluteRooted workDir).2, active_base absolute, List.append_nil,
        candidates.trunk_written, candidates.trunk_rooted, base,
        isDoubled_candidate candidates.busy same.symm]
  | false =>
      obtain ⟨root, busy⟩ := canonical
      have base := base_of_relative absolute workDir
      have absoluteRooted : rooted.isAbsolute = true := by
        rw [isAbsolute_iff_lead, candidates.layout_rooted, base, isAbsolute_iff_lead.mp root]
      have busyRooted : ∀ segment ∈ rooted.trunk, isIdle segment = false := by
        intro segment member
        rw [candidates.trunk_rooted, base, List.mem_append, List.mem_singleton] at member
        rcases member with member | rfl
        · have front := (List.rdropWhile_prefix isIdle _).subset member
          rcases List.mem_append.mp front with inDir | inPath
          · exact busy segment inDir
          · exact isIdle_of_mem_active inPath
        · exact candidates.busy
      rw [base_of_relative (candidates.isAbsolute_written.trans absolute), base,
        (trunk_base absoluteRooted workDir).2, isDoubled_of_busy busyRooted, active_eq_self _ busy]
      rfl

end Candidates

end Path

end Peg
