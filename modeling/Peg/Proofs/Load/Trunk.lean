import Mathlib.Data.List.DropRight
import Peg.Proofs.Load.Path

/-!
# Trunks of paths

Apart from its lead, a path is its trunk: the segments without the empty one behind a final slash. Joining
and taking the parent are described by what they do to the two.

* `Path.trunk`: the trunk of a path.
* `Path.active`: the segments that do not stay where they are.
* `Path.layout_join`, `Path.trunk_foldl_join`: names that are joined stand behind the trunk.
* `Path.exists_parent?`: the lead and the trunk of the parent.
* `Path.exists_trimIdle_of_fileName?`: the trunk of a path that ends in a name.
-/

namespace Peg

/-! ## Cutting and joining -/

namespace Text

/-- Pieces that are joined are cut where they were joined. -/
theorem splitAll_intercalate {separator : Char} {pieces : List (List Char)} (nonempty : pieces ≠ [])
    (absent : ∀ piece ∈ pieces, separator ∉ piece) :
    splitAll separator (List.intercalate [separator] pieces) = pieces := by
  induction pieces with
  | nil => exact absurd rfl nonempty
  | cons piece pieces ih =>
      have alone := splitAll_of_not_mem (absent piece List.mem_cons_self)
      cases pieces with
      | nil => rw [List.intercalate_singleton, alone]
      | cons next others =>
          have absentLater : ∀ piece ∈ next :: others, separator ∉ piece :=
            fun piece member => absent piece (List.mem_cons_of_mem _ member)
          rw [List.intercalate_cons_cons, List.append_assoc, List.singleton_append, splitAll_append,
            alone, ih (List.cons_ne_nil next others) absentLater, List.singleton_append]

theorem intercalate_splitAll (separator : Char) (text : List Char) :
    List.intercalate [separator] (splitAll separator text) = text := by
  induction text with
  | nil => rfl
  | cons c text ih =>
      obtain ⟨first, pieces, eq⟩ := exists_splitAll_eq_cons separator text
      by_cases same : c = separator
      · rw [splitAll, if_pos same, eq, List.intercalate_cons_cons, ← eq, ih, same]
        rfl
      · rw [eq] at ih
        rw [splitAll_cons_of_ne same eq, ← ih]
        cases pieces with
        | nil => rw [List.intercalate_singleton, List.intercalate_singleton]
        | cons next others =>
            rw [List.intercalate_cons_cons, List.intercalate_cons_cons]
            rfl

end Text

namespace Path

open Text (splitAll)

/-! ## Trunks -/

/-- Segments without the empty one behind a final slash. -/
def trunkOf (segments : List (List Char)) : List (List Char) :=
  if segments.getLast? = some [] then segments.dropLast else segments

/-- The segments of a path without the empty one behind a final slash. -/
def trunk (path : Path) : List (List Char) :=
  trunkOf path.layout.segments

variable {path directory workDir : Path} {segments before : List (List Char)} {name text : List Char}

theorem trunkOf_concat_nil (segments : List (List Char)) : trunkOf (segments ++ [[]]) = segments := by
  rw [trunkOf, if_pos List.getLast?_concat, List.dropLast_concat]

theorem trunkOf_concat (nonempty : name ≠ []) (segments : List (List Char)) :
    trunkOf (segments ++ [name]) = segments ++ [name] := by
  rw [trunkOf, List.getLast?_concat, if_neg]
  simpa using nonempty

theorem trunkOf_cons_cons (first second : List Char) (segments : List (List Char)) :
    trunkOf (first :: second :: segments) = first :: trunkOf (second :: segments) := by
  rw [trunkOf, trunkOf, List.getLast?_cons_cons]
  split
  · rfl
  · rfl

theorem exists_trunkOf_cons (nonempty : name ≠ []) (segments : List (List Char)) :
    ∃ rest, trunkOf (name :: segments) = name :: rest := by
  cases segments with
  | nil => exact ⟨[], trunkOf_concat nonempty []⟩
  | cons second segments => exact ⟨_, trunkOf_cons_cons name second segments⟩

/-- The segments are the trunk, or the trunk with an empty segment behind it. -/
theorem trunkOf_cases (segments : List (List Char)) :
    segments = trunkOf segments ∨ segments = trunkOf segments ++ [[]] := by
  by_cases final : segments.getLast? = some []
  · obtain ⟨before, rfl⟩ := List.getLast?_eq_some_iff.mp final
    rw [trunkOf_concat_nil]
    exact Or.inr rfl
  · rw [trunkOf, if_neg final]
    exact Or.inl rfl

theorem not_mem_of_mem_trunk (member : name ∈ path.trunk) : '/' ∉ name := by
  apply @not_mem_of_mem_segments path
  rcases trunkOf_cases path.layout.segments with eq | eq
  · rw [eq]
    exact member
  · rw [eq]
    exact List.mem_append_left _ member

/-! ### Idle segments -/

theorem ne_nil_of_busy (busy : isIdle name = false) : name ≠ [] := by
  rintro rfl
  cases busy

theorem ne_dot_of_busy (busy : isIdle name = false) : name ≠ ['.'] := by
  rintro rfl
  cases busy

/-- The segments that do not stay where they are. -/
def active (segments : List (List Char)) : List (List Char) :=
  segments.filter (!isIdle ·)

theorem active_append (segments others : List (List Char)) :
    active (segments ++ others) = active segments ++ active others :=
  List.filter_append segments others

theorem active_eq_self (segments : List (List Char)) (none : ∀ segment ∈ segments, isIdle segment = false) :
    active segments = segments :=
  List.filter_eq_self.mpr fun segment member => by rw [none segment member]; rfl

theorem active_singleton (busy : isIdle name = false) : active [name] = [name] :=
  active_eq_self [name] (List.forall_mem_singleton.mpr busy)

theorem isIdle_of_mem_active (member : name ∈ active segments) : isIdle name = false := by
  simpa using (List.mem_filter.mp member).2

theorem active_active (segments : List (List Char)) : active (active segments) = active segments :=
  active_eq_self _ fun _ => isIdle_of_mem_active

theorem active_trunkOf (segments : List (List Char)) : active (trunkOf segments) = active segments := by
  rcases trunkOf_cases segments with eq | eq
  · rw [← eq]
  · rw [eq, trunkOf_concat_nil, active_append]
    exact (List.append_nil _).symm

theorem filterMap_component?_active (segments : List (List Char)) :
    (active segments).filterMap component? = segments.filterMap component? := by
  rw [active, List.filterMap_filter]
  refine List.filterMap_congr fun segment _ => ?_
  rw [component?]
  cases isIdle segment <;> rfl

theorem filterMap_segmentName? (segments : List (List Char)) :
    segments.filterMap segmentName? = (active segments).map String.ofList := by
  rw [active, ← List.filterMap_eq_map, List.filterMap_filter]
  refine List.filterMap_congr fun segment _ => ?_
  by_cases idle : isIdle segment = true
  · rw [segmentName?_of_idle idle, idle]
    rfl
  · rw [segmentName?_of_not_idle idle, Bool.eq_false_iff.mpr idle]
    rfl

theorem trimIdle_concat_of_idle (idle : isIdle name = true) (segments : List (List Char)) :
    trimIdle (segments ++ [name]) = trimIdle segments :=
  List.rdropWhile_concat_pos isIdle segments name idle

theorem trimIdle_concat (busy : isIdle name = false) (segments : List (List Char)) :
    trimIdle (segments ++ [name]) = segments ++ [name] :=
  List.rdropWhile_concat_neg isIdle segments name (by simp [busy])

theorem trimIdle_trunkOf (segments : List (List Char)) : trimIdle (trunkOf segments) = trimIdle segments := by
  rcases trunkOf_cases segments with eq | eq
  · rw [← eq]
  · rw [eq, trunkOf_concat_nil, trimIdle_concat_of_idle rfl]

/-- The segments that are left end in one that does not stay where it is, or none is left. -/
theorem trimIdle_cases (segments : List (List Char)) :
    (trimIdle segments = [] ∧ active segments = []) ∨
      ∃ before name after, isIdle name = false ∧ trimIdle segments = before ++ [name] ∧
        segments = before ++ name :: after ∧ active segments = active before ++ [name] := by
  induction segments using List.reverseRecOn with
  | nil => exact Or.inl ⟨rfl, rfl⟩
  | append_singleton segments name ih =>
      cases idle : isIdle name with
      | false =>
          refine Or.inr ⟨segments, name, [], idle, trimIdle_concat idle segments, rfl, ?_⟩
          rw [active_append, active_singleton idle]
      | true =>
          have none : active [name] = [] := by simp [active, idle]
          rw [trimIdle_concat_of_idle idle, active_append, none, List.append_nil]
          rcases ih with whole | ⟨before, last, after, busy, trim, eq, eqActive⟩
          · exact Or.inl whole
          · refine Or.inr ⟨before, last, after ++ [name], busy, trim, ?_, eqActive⟩
            rw [eq, List.append_assoc, List.cons_append]

theorem active_trimIdle (segments : List (List Char)) : active (trimIdle segments) = active segments := by
  rcases trimIdle_cases segments with ⟨trim, none⟩ | ⟨before, name, _, busy, trim, -, eq⟩
  · rw [trim, none]
    rfl
  · rw [trim, eq, active_append, active_singleton busy]

/-! ## Joining -/

/-- A text with a name behind it, and a slash between them unless the text is empty or ends in one. -/
def joinChars (text name : List Char) : List Char :=
  if text = [] ∨ text.getLast? = some '/' then text ++ name else text ++ '/' :: name

theorem toList_join (plain : '/' ∉ name) (directory : Path) :
    (directory.join (String.ofList name)).text.toList = joinChars directory.text.toList name := by
  have relative : ¬(String.ofList name).toList.head? = some '/' := by
    rw [String.toList_ofList]
    exact fun head => plain (List.mem_of_mem_head? head)
  have written : directory.text.isEmpty = true ↔ directory.text.toList = [] := by
    rw [String.isEmpty_iff, ← String.toList_eq_nil_iff]
  rw [join, if_neg relative, joinChars]
  simp only [written]
  split
  · rw [String.toList_append, String.toList_ofList]
  · have slash : "/".toList = ['/'] := rfl
    rw [String.toList_append, String.toList_append, slash, String.toList_ofList, List.append_assoc,
      List.singleton_append]

theorem joinChars_cons {c d : Char} (text name : List Char) :
    joinChars (c :: d :: text) name = c :: joinChars (d :: text) name := by
  unfold joinChars
  simp only [List.getLast?_cons_cons, List.cons_ne_nil, false_or]
  split
  · rfl
  · rfl

theorem joinChars_slash (text name : List Char) :
    joinChars ('/' :: text) name = '/' :: joinChars text name := by
  cases text with
  | nil => rfl
  | cons c text => exact joinChars_cons text name

/-- The last piece is empty behind a final slash only. -/
theorem getLast?_splitAll (text : List Char) :
    (splitAll '/' text).getLast? = some [] ↔ text = [] ∨ text.getLast? = some '/' := by
  induction text with
  | nil => exact iff_of_true rfl (Or.inl rfl)
  | cons c text ih =>
      obtain ⟨first, pieces, eq⟩ := Text.exists_splitAll_eq_cons '/' text
      cases text with
      | nil =>
          by_cases same : c = '/'
          · rw [same]
            decide
          · rw [Text.splitAll_cons_of_ne same rfl]
            simp [same]
      | cons d text =>
          have later : (c :: d :: text = [] ∨ (c :: d :: text).getLast? = some '/') ↔
              (d :: text = [] ∨ (d :: text).getLast? = some '/') := by
            simp [List.getLast?_cons_cons]
          rw [later, ← ih, eq]
          by_cases same : c = '/'
          · rw [splitAll, if_pos same, eq, List.getLast?_cons_cons]
          · rw [Text.splitAll_cons_of_ne same eq]
            cases pieces with
            | nil =>
                have long : d :: text = first := by
                  have whole := Text.intercalate_splitAll '/' (d :: text)
                  rw [eq, List.intercalate_singleton] at whole
                  exact whole.symm
                simp [← long]
            | cons next others => rw [List.getLast?_cons_cons, List.getLast?_cons_cons]

theorem splitAll_joinChars (plain : '/' ∉ name) (text : List Char) :
    splitAll '/' (joinChars text name) = trunkOf (splitAll '/' text) ++ [name] := by
  have alone := Text.splitAll_of_not_mem plain
  unfold joinChars
  split
  · next final =>
    obtain rfl | last := final
    · exact alone
    · obtain ⟨front, rfl⟩ := List.getLast?_eq_some_iff.mp last
      have empty : splitAll '/' (front ++ ['/']) = splitAll '/' front ++ [[]] :=
        Text.splitAll_append front []
      rw [empty, trunkOf_concat_nil, List.append_assoc, List.singleton_append, Text.splitAll_append,
        alone]
  · next open_ =>
    rw [Text.splitAll_append, alone, trunkOf, if_neg (mt (getLast?_splitAll text).mp open_)]

theorem layoutOf_eq_plain_iff : layoutOf text = ⟨.plain, splitAll '/' text⟩ ↔
    text.head? ≠ some '/' ∧ text ≠ ['.'] ∧ ¬['.', '/'] <+: text := by
  rcases layoutOf_cases text with ⟨rest, rfl, eq⟩ | ⟨rfl, eq⟩ | ⟨rest, rfl, eq⟩ | ⟨noRoot, eq⟩
  · rw [eq]
    exact ⟨nofun, fun plain => absurd rfl plain.1⟩
  · rw [eq]
    exact ⟨nofun, fun plain => absurd rfl plain.2.1⟩
  · rw [eq]
    exact ⟨nofun, fun plain => absurd (List.prefix_append ['.', '/'] rest) plain.2.2⟩
  · refine iff_of_true eq ⟨noRoot, ?_, ?_⟩
    · rintro rfl
      cases eq
    · rintro ⟨rest, rfl⟩
      cases eq

/-- Of two texts, one at the start of the other, both begin a plain path if one does. -/
theorem layoutOf_plain_of_prefix {other : List Char} (isPlain : layoutOf text = ⟨.plain, splitAll '/' text⟩)
    (written : text ≠ []) (written' : other ≠ []) (noDot : other ≠ ['.'])
    (begins : text <+: other ∨ other <+: text) : layoutOf other = ⟨.plain, splitAll '/' other⟩ := by
  obtain ⟨noRoot, noDotText, noCurrent⟩ := layoutOf_eq_plain_iff.mp isPlain
  have head : other.head? = text.head? := by
    rcases begins with begins | begins
    · obtain ⟨rest, rfl⟩ := begins
      rw [List.head?_append_of_ne_nil _ written]
    · obtain ⟨rest, rfl⟩ := begins
      rw [List.head?_append_of_ne_nil _ written']
  refine layoutOf_eq_plain_iff.mpr ⟨head ▸ noRoot, noDot, fun current => ?_⟩
  rcases begins with begins | begins
  · rcases List.prefix_or_prefix_of_prefix current begins with longer | shorter
    · exact noCurrent longer
    · match text, shorter with
      | [], _ => exact written rfl
      | [c], shorter =>
          rw [List.cons_prefix_cons] at shorter
          exact noDotText (by rw [shorter.1])
      | c :: d :: rest, shorter =>
          rw [List.cons_prefix_cons, List.cons_prefix_cons, List.prefix_nil] at shorter
          obtain ⟨rfl, rfl, rfl⟩ := shorter
          exact noCurrent List.prefix_rfl
  · exact noCurrent (current.trans begins)

theorem prefix_joinChars (text name : List Char) : text <+: joinChars text name := by
  unfold joinChars
  split
  · exact List.prefix_append text name
  · exact List.prefix_append text ('/' :: name)

theorem layoutOf_joinChars (plain : '/' ∉ name) (named : name ≠ ['.']) (text : List Char) :
    layoutOf (joinChars text name) =
      ⟨(layoutOf text).lead, trunkOf (layoutOf text).segments ++ [name]⟩ := by
  rcases layoutOf_cases text with ⟨rest, rfl, eq⟩ | ⟨rfl, eq⟩ | ⟨rest, rfl, eq⟩ | ⟨-, eq⟩
  · rw [eq, joinChars_slash, layoutOf, splitAll_joinChars plain]
  · show layoutOf ('.' :: '/' :: name) = _
    rw [eq, layoutOf, Text.splitAll_of_not_mem plain]
    rfl
  · rw [eq, joinChars_cons, joinChars_slash, layoutOf, splitAll_joinChars plain]
  · rw [eq, ← splitAll_joinChars plain]
    cases text with
    | nil =>
        refine layoutOf_eq_plain_iff.mpr ⟨?_, named, ?_⟩
        · exact fun head => plain (List.mem_of_mem_head? head)
        · exact fun current => plain (current.subset (by decide))
    | cons c text =>
        have written : joinChars (c :: text) name ≠ [] := by
          intro none
          have begins := prefix_joinChars (c :: text) name
          rw [none, List.prefix_nil] at begins
          cases begins
        refine layoutOf_plain_of_prefix eq (List.cons_ne_nil c text) written ?_
          (Or.inl (prefix_joinChars _ _))
        intro dot
        have begins := prefix_joinChars (c :: text) name
        rw [dot, List.cons_prefix_cons, List.prefix_nil] at begins
        obtain ⟨rfl, rfl⟩ := begins
        cases eq

/-- A name joined to a path stands behind its trunk. -/
theorem layout_join (plain : '/' ∉ name) (named : name ≠ ['.']) (directory : Path) :
    (directory.join (String.ofList name)).layout = ⟨directory.layout.lead, directory.trunk ++ [name]⟩ := by
  rw [layout, toList_join plain, layoutOf_joinChars plain named]
  rfl

theorem trunk_join (plain : '/' ∉ name) (busy : isIdle name = false) (directory : Path) :
    (directory.join (String.ofList name)).trunk = directory.trunk ++ [name] := by
  rw [trunk, layout_join plain (ne_dot_of_busy busy), trunkOf_concat (ne_nil_of_busy busy)]

/-- An empty name joined to a path adds a final slash at most. -/
theorem layout_join_empty (directory : Path) :
    (directory.join "").layout.lead = directory.layout.lead ∧
      (directory.join "").trunk = directory.trunk := by
  have layout := layout_join (List.not_mem_nil (a := '/')) (by decide) directory
  rw [String.ofList_nil] at layout
  rw [trunk, layout, trunkOf_concat_nil]
  exact ⟨rfl, rfl⟩

/-- Names that are joined one by one stand behind the trunk. -/
theorem trunk_foldl_join (plain : ∀ segment ∈ segments, '/' ∉ segment) (directory : Path) :
    ((segments.filterMap segmentName?).foldl join directory).layout.lead = directory.layout.lead ∧
      ((segments.filterMap segmentName?).foldl join directory).trunk =
        directory.trunk ++ active segments := by
  rw [filterMap_segmentName?]
  have plainActive : ∀ segment ∈ active segments, '/' ∉ segment :=
    fun segment member => plain segment (List.mem_of_mem_filter member)
  have busy : ∀ segment ∈ active segments, isIdle segment = false := fun _ => isIdle_of_mem_active
  generalize active segments = names at plainActive busy ⊢
  induction names generalizing directory with
  | nil => exact ⟨rfl, (List.append_nil _).symm⟩
  | cons name names ih =>
      rw [List.forall_mem_cons] at plainActive busy
      obtain ⟨lead, trunk⟩ := ih (directory.join (String.ofList name)) plainActive.2 busy.2
      rw [List.map_cons, List.foldl_cons, lead, trunk, trunk_join plainActive.1 busy.1,
        layout_join plainActive.1 (ne_dot_of_busy busy.1), List.append_assoc]
      exact ⟨rfl, rfl⟩

/-! ## Parents -/

theorem intercalate_isPrefix (separator : List Char) (front rest : List (List Char)) :
    List.intercalate separator front <+: List.intercalate separator (front ++ rest) := by
  induction front with
  | nil => exact List.nil_prefix
  | cons piece front ih =>
      cases front with
      | nil =>
          rw [List.intercalate_singleton, List.singleton_append]
          cases rest with
          | nil => exact List.intercalate_singleton.symm ▸ List.prefix_rfl
          | cons next others =>
              rw [List.intercalate_cons_cons, List.append_assoc]
              exact List.prefix_append piece _
      | cons next others =>
          rw [List.cons_append, List.cons_append, List.intercalate_cons_cons, List.intercalate_cons_cons]
          exact (List.prefix_append_right_inj _).mpr ih

theorem trunkOf_trimIdle (segments : List (List Char)) : trunkOf (trimIdle segments) = trimIdle segments := by
  rcases trimIdle_cases segments with ⟨none, -⟩ | ⟨before, name, -, busy, eq, -, -⟩
  · rw [none]
    rfl
  · rw [eq, trunkOf_concat (ne_nil_of_busy busy)]

theorem layoutOf_plain_of_lead (lead : (layoutOf text).lead = .plain) :
    layoutOf text = ⟨.plain, splitAll '/' text⟩ := by
  rcases layoutOf_cases text with ⟨_, -, eq⟩ | ⟨-, eq⟩ | ⟨_, -, eq⟩ | ⟨-, eq⟩
  · rw [eq] at lead
    cases lead
  · rw [eq] at lead
    cases lead
  · rw [eq] at lead
    cases lead
  · exact eq

/-- Segments from the start of a path, written behind its lead, make a path of these segments. -/
theorem layoutOf_chars_trimIdle (front : trimIdle segments <+: (layoutOf text).segments)
    (plain : ∀ segment ∈ trimIdle segments, '/' ∉ segment) :
    (layoutOf (Layout.mk (layoutOf text).lead (trimIdle segments)).chars).lead = (layoutOf text).lead ∧
      trunkOf (layoutOf (Layout.mk (layoutOf text).lead (trimIdle segments)).chars).segments =
        trimIdle segments := by
  have whole := trunkOf_trimIdle segments
  rcases trimIdle_cases segments with ⟨none, -⟩ | ⟨before, name, -, busy, eq, -, -⟩
  · rw [none]
    cases (layoutOf text).lead with
    | root => exact ⟨rfl, rfl⟩
    | current => exact ⟨rfl, rfl⟩
    | plain => exact ⟨rfl, rfl⟩
  · have written : trimIdle segments ≠ [] := eq ▸ List.concat_ne_nil name before
    have cut := Text.splitAll_intercalate written plain
    cases start : (layoutOf text).lead with
    | root =>
        rw [Layout.chars, layoutOf, cut]
        exact ⟨rfl, whole⟩
    | current =>
        rw [Layout.chars, layoutOf, cut]
        · exact ⟨rfl, whole⟩
        · exact written
    | plain =>
        have isPlain := layoutOf_plain_of_lead start
        rw [isPlain] at front
        obtain ⟨rest, split⟩ : trimIdle segments <+: splitAll '/' text := front
        have begins : List.intercalate ['/'] (trimIdle segments) <+: text := by
          rw [← Text.intercalate_splitAll '/' text, ← split]
          exact intercalate_isPrefix ['/'] _ rest
        -- The last segment is neither empty nor a dot, so the text is neither.
        have solid : ∀ chars, splitAll '/' chars = [chars] → isIdle chars = true →
            List.intercalate ['/'] (trimIdle segments) ≠ chars := by
          intro chars alone idle same
          have last : (trimIdle segments).getLast? = some name := eq ▸ List.getLast?_concat
          rw [← cut, same, alone, List.getLast?_singleton, Option.some.injEq] at last
          rw [← last, idle] at busy
          cases busy
        have kept : List.intercalate ['/'] (trimIdle segments) ≠ [] := solid [] rfl rfl
        have text : text ≠ [] := by
          rintro rfl
          exact kept (List.prefix_nil.mp begins)
        rw [Layout.chars, layoutOf_plain_of_prefix isPlain text kept (solid ['.'] rfl rfl) (Or.inr begins),
          cut]
        exact ⟨rfl, whole⟩

/-- The parent of a path that ends in a step keeps what stands before it, without idle segments at the
end. -/
theorem exists_parent? (last : trimIdle path.trunk = before ++ [name]) :
    ∃ parent, path.parent? = some parent ∧ parent.layout.lead = path.layout.lead ∧
      parent.trunk = trimIdle before := by
  rw [trunk, trimIdle_trunkOf] at last
  have parts : path.layout.parent? = some ⟨path.layout.lead, trimIdle before⟩ := by
    rw [Layout.parent?, last]
    split
    · next none => exact absurd none (List.concat_ne_nil name before)
    · rw [List.dropLast_concat]
  have front : trimIdle before <+: path.layout.segments :=
    (List.rdropWhile_prefix isIdle before).trans
      ((List.prefix_append before [name]).trans (last ▸ List.rdropWhile_prefix isIdle _))
  have plain : ∀ segment ∈ trimIdle before, '/' ∉ segment :=
    fun segment member => not_mem_of_mem_segments (front.subset member)
  refine ⟨⟨String.ofList (Layout.mk path.layout.lead (trimIdle before)).chars⟩, ?_, ?_⟩
  · rw [parent?, parts]
    rfl
  · rw [trunk, layout, String.toList_ofList]
    exact layoutOf_chars_trimIdle front plain

/-! ## Names -/

/-- The segment of a path that ends in a name, behind which all segments stay where they are. -/
theorem exists_trimIdle_of_fileName? {last : String} (ends : path.fileName? = some last) :
    ∃ before, trimIdle path.trunk = before ++ [last.toList] ∧ isIdle last.toList = false := by
  have step : path.components.getLast? = some (.name last) := by
    unfold fileName? at ends
    split at ends
    · next eq =>
      cases ends
      exact eq
    · cases ends
  rw [components, Layout.components, ← filterMap_component?_active] at step
  rw [trunk, trimIdle_trunkOf]
  rcases trimIdle_cases path.layout.segments with ⟨-, none⟩ | ⟨before, name, -, busy, eq, -, eqActive⟩
  · rw [none, List.filterMap_nil, List.append_nil] at step
    cases lead : path.layout.lead with
    | root =>
        rw [lead] at step
        cases step
    | current =>
        rw [lead] at step
        cases step
    | plain =>
        rw [lead] at step
        cases step
  · rw [eqActive, List.filterMap_append, ← List.append_assoc] at step
    by_cases up : name = ['.', '.']
    · have last : [name].filterMap component? = [.up] := by rw [up]; rfl
      rw [last, List.getLast?_concat] at step
      cases step
    · have last : [name].filterMap component? = [.name (String.ofList name)] := by
        rw [List.filterMap_cons, component?, busy, if_neg Bool.false_ne_true, if_neg up]
        rfl
      rw [last, List.getLast?_concat] at step
      cases step
      rw [String.toList_ofList]
      exact ⟨before, eq, busy⟩

end Path

end Peg
