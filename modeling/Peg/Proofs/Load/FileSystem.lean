import Peg.Load.FileSystem
import Peg.Proofs.Load.Path

/-!
# Where paths lead

Walking is done segment by segment, and a path that is made absolute leads where it led before.

* `FileSystem.Leads`: an absolute path leads to a location.
* `FileSystem.Leads.join`, `FileSystem.Leads.foldl_join`: joining names to a path walks on from where it
  leads.
* `Host.Grounded`: the path of the working directory leads to it.
* `Host.Grounded.file?_absolute`: a file that a path leads to is the file that its absolute path leads
  to.
-/

namespace Peg

namespace FileSystem

variable {files : FileSystem} {location next : Location} {path : Path}
  {segment : List Char} {segments : List (List Char)}

/-! ## Walking -/

theorem walk?_append (segments segments' : List (List Char)) :
    files.walk? location (segments ++ segments') =
      (files.walk? location segments).bind fun next => files.walk? next segments' := by
  induction segments generalizing location with
  | nil => rfl
  | cons segment segments ih =>
      rw [List.cons_append, walk?, walk?]
      split
      · exact ih
      · rfl

theorem walk?_singleton :
    files.walk? location [segment] =
      if files.isDirectoryAt location = true then some (step location segment) else none :=
  rfl

theorem step_of_idle (idle : Path.isIdle segment = true) : step location segment = location := by
  rw [step, Path.component?, if_pos idle]

/-- A walk that takes a segment starts from a directory. -/
theorem isDirectoryAt_of_walk?_cons
    (walk : files.walk? location (segment :: segments) = some next) :
    files.isDirectoryAt location = true ∧
      files.walk? (step location segment) segments = some next := by
  rw [walk?] at walk
  split at walk
  · next directory => exact ⟨directory, walk⟩
  · cases walk

/-- A path with a final slash leads to directories only. -/
theorem isDirectoryAt_of_finalSlash (final : path.text.toList.getLast? = some '/')
    (walk : files.walk? location path.layout.segments = some next) :
    files.isDirectoryAt next = true := by
  obtain ⟨before, eq⟩ := Path.segments_of_finalSlash final
  rw [eq, walk?_append, Option.bind_eq_some_iff] at walk
  obtain ⟨last, -, walk⟩ := walk
  obtain ⟨directory, walk⟩ := isDirectoryAt_of_walk?_cons walk
  rw [step_of_idle rfl] at walk
  cases walk
  exact directory

/-! ## Absolute paths -/

/-- The path begins at the root and leads to the location. -/
def Leads (files : FileSystem) (path : Path) (location : Location) : Prop :=
  path.isAbsolute = true ∧ files.walk? [] path.layout.segments = some location

/-- A name joined to the path of a directory takes one step from there. -/
theorem Leads.join {name : List Char} (leads : files.Leads path location)
    (directory : files.isDirectoryAt location = true) (plain : '/' ∉ name) :
    files.Leads (path.join (String.ofList name)) (step location name) := by
  obtain ⟨absolute, walk⟩ := leads
  obtain ⟨rest, text⟩ := List.head?_eq_some_iff.mp (Path.isAbsolute_iff.mp absolute)
  obtain ⟨root, before, written, joined⟩ := Path.segments_join text plain
  -- Without a final slash the path leads to the same place.
  have reached : files.walk? [] before = some location := by
    rcases written with eq | eq
    · rw [← eq]
      exact walk
    · rw [eq, walk?_append, Option.bind_eq_some_iff] at walk
      obtain ⟨last, reached, walk⟩ := walk
      have stay := (isDirectoryAt_of_walk?_cons walk).2
      rw [step_of_idle rfl] at stay
      cases stay
      exact reached
  refine ⟨Path.isAbsolute_iff.mpr root, ?_⟩
  rw [joined, walk?_append, reached, Option.bind_some, walk?_singleton, if_pos directory]

/-- Joining the names on a path one by one walks along the path. Idle segments add no name and take no
step. -/
theorem Leads.foldl_join (leads : files.Leads path location)
    (plain : ∀ segment ∈ segments, '/' ∉ segment)
    (walk : files.walk? location segments = some next) :
    files.Leads ((segments.filterMap Path.segmentName?).foldl Path.join path) next := by
  induction segments generalizing path location with
  | nil =>
      cases walk
      exact leads
  | cons segment segments ih =>
      obtain ⟨directory, walk⟩ := isDirectoryAt_of_walk?_cons walk
      have plainRest : ∀ segment ∈ segments, '/' ∉ segment :=
        fun segment member => plain segment (List.mem_cons_of_mem _ member)
      by_cases idle : Path.isIdle segment = true
      · rw [step_of_idle idle] at walk
        rw [List.filterMap_cons, Path.segmentName?_of_idle idle]
        exact ih leads plainRest walk
      · rw [List.filterMap_cons, Path.segmentName?_of_not_idle idle, List.foldl_cons]
        exact ih (leads.join directory (plain segment List.mem_cons_self)) plainRest walk

/-- The two ways of writing the root lead there. -/
theorem leads_base (absolute : path.isAbsolute = true) (workDir : Path) :
    files.Leads (path.base workDir) [] := by
  obtain ⟨rest, text⟩ := List.head?_eq_some_iff.mp (Path.isAbsolute_iff.mp absolute)
  have slash : files.Leads ⟨"/"⟩ [] := ⟨by decide, rfl⟩
  have slashes : files.Leads ⟨"//"⟩ [] := ⟨by decide, rfl⟩
  unfold Path.base
  split
  · exact slashes
  · split
    · exact slash
    · exact slashes
  · exact slash
  · next noRoot => exact absurd text (noRoot rest)

end FileSystem

/-! ## Hosts -/

namespace Host

variable {host : Host} {path whole : Path} {file : File}

/-- The path of the working directory leads from the root to the working directory, if that is still
there: what an operating system promises of the path that it reports. -/
def Grounded (host : Host) : Prop :=
  (host.files.at? host.workLocation).isSome = true →
    host.files.Leads host.workDir host.workLocation

theorem file?_eq_some_iff :
    host.file? path = some file ↔ path.text.isEmpty = false ∧ ∃ location,
      host.files.walk? (FileSystem.start host.workLocation path) path.layout.segments =
          some location ∧
        host.files.at? location = some (.file file) := by
  have entry : host.file? path = some file ↔ host.entry? path = some (.file file) := by
    unfold file?
    split
    · next found eq => rw [eq, Option.some.injEq, Option.some.injEq, Entry.file.injEq]
    · next other => exact ⟨nofun, fun found => absurd found (other file)⟩
  rw [entry, entry?, FileSystem.entry?, Option.bind_eq_some_iff, FileSystem.locate?]
  cases empty : path.text.isEmpty with
  | true => simp
  | false => simp

theorem mem_entries_of_file? (found : host.file? path = some file) :
    ∃ location, (location, Entry.file file) ∈ host.files.entries := by
  obtain ⟨-, location, -, entry⟩ := file?_eq_some_iff.mp found
  unfold FileSystem.at? at entry
  split at entry
  · cases entry
  · obtain ⟨before, after, eq, -⟩ := List.lookup_eq_some_iff.mp entry
    exact ⟨location, eq ▸ List.mem_append_right _ List.mem_cons_self⟩

/-- The working directory is there when a file is found from it. -/
theorem isSome_at?_of_walk? {location next : Location} {segments : List (List Char)}
    (walk : host.files.walk? location segments = some next)
    (found : host.files.at? next = some (.file file)) :
    (host.files.at? location).isSome = true := by
  cases segments with
  | nil =>
      cases walk
      rw [found]
      rfl
  | cons segment segments =>
      have directory := (FileSystem.isDirectoryAt_of_walk?_cons walk).1
      unfold FileSystem.isDirectoryAt at directory
      split at directory
      · next eq =>
          rw [eq]
          rfl
      · cases directory

/-- A path begins where its absolute path begins. -/
theorem Grounded.leads_base (grounded : host.Grounded) (found : host.file? path = some file) :
    host.files.Leads (path.base host.workDir) (FileSystem.start host.workLocation path) := by
  obtain ⟨-, location, walk, found⟩ := file?_eq_some_iff.mp found
  unfold FileSystem.start at walk ⊢
  split
  · next absolute => exact FileSystem.leads_base absolute host.workDir
  · next relative =>
      rw [if_neg relative] at walk
      have base : path.base host.workDir = host.workDir := by
        have head := mt Path.isAbsolute_iff.mpr relative
        unfold Path.base
        split
        · next text => exact absurd (text ▸ rfl) head
        · next text => exact absurd (text ▸ rfl) head
        · next text => exact absurd (text ▸ rfl) head
        · rfl
      rw [base]
      exact grounded (isSome_at?_of_walk? walk found)

/-- A file that a path leads to is the file that its absolute path leads to. -/
theorem Grounded.file?_absolute (grounded : host.Grounded) (found : host.file? path = some file)
    (absolute : path.absolute? host.workDir = some whole) :
    whole.isAbsolute = true ∧ host.file? whole = some file := by
  obtain ⟨written, location, walk, entry⟩ := file?_eq_some_iff.mp found
  -- A path with a final slash leads to directories only, so the absolute path is given none.
  have final : path.text.toList.getLast? ≠ some '/' := by
    intro final
    have directory := FileSystem.isDirectoryAt_of_finalSlash final walk
    rw [FileSystem.isDirectoryAt, entry] at directory
    cases directory
  have leads : host.files.Leads whole location := by
    rw [Path.absolute?_of_name written final, Option.some.injEq] at absolute
    rw [← absolute]
    exact (grounded.leads_base found).foldl_join (fun _ => Path.not_mem_of_mem_segments) walk
  obtain ⟨root, walk⟩ := leads
  refine ⟨root, file?_eq_some_iff.mpr ⟨?_, location, ?_, entry⟩⟩
  · obtain ⟨rest, text⟩ := List.head?_eq_some_iff.mp (Path.isAbsolute_iff.mp root)
    rw [Bool.eq_false_iff]
    intro empty
    rw [String.isEmpty_iff.mp empty] at text
    cases text
  · rw [FileSystem.start, if_pos root]
    exact walk

end Host

end Peg
