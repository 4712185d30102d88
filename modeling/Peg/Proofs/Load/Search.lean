import Peg.Load.SearchPath
import Peg.Proofs.Load.AbsolutePath
import Peg.Proofs.Load.FileSystem

/-!
# What a search finds

A name is looked up in a list of directories, and the first that holds a file of this name decides.
Directories at the end of the list never take part in a search that ends before them. A new file changes
a search only if the name leads to it from one of the directories that were searched in vain.

* `Options.directories`: the directories, in the order of the search.
* `Host.create`: a host with one more file; `Host.file?_create` says what paths lead to then.
* `SearchPath.IsFirstMatch`: the directory that decides.
* `SearchPath.find_of`: what a search finds, and what does not change it.
* `SearchPath.not_forall_find_create`: a new file in a later directory can change a search.
-/

namespace Peg

/-! ## New files -/

namespace FileSystem

variable {files : FileSystem} {location start : Location} {file : File} {segments : List (List Char)}

theorem lookup_filter_of_ne {entries : List (Location × Entry)} {other : Location}
    (differs : other ≠ location) :
    (entries.filter (·.1 ≠ location)).lookup other = entries.lookup other := by
  induction entries with
  | nil => rfl
  | cons entry entries ih =>
      by_cases same : entry.1 = location
      · have absent : (other == entry.1) = false := beq_eq_false_iff_ne.mpr (same ▸ differs)
        rw [List.filter_cons_of_neg (by simpa using same), ih, List.lookup_cons, absent]
      · rw [List.filter_cons_of_pos (by simpa using same), List.lookup_cons, List.lookup_cons, ih]

/-- What stands at a location after something was put somewhere below the root. -/
theorem at?_put (below : location ≠ []) (entry : Entry) (other : Location) :
    (files.put location entry).at? other = if other = location then some entry else files.at? other := by
  rw [at?, at?, put]
  by_cases same : other = location
  · rw [same, if_neg below, if_pos rfl, List.lookup_cons, beq_self_eq_true]
  · have absent : (other == location) = false := beq_eq_false_iff_ne.mpr same
    rw [if_neg same, List.lookup_cons, absent]
    dsimp only
    rw [lookup_filter_of_ne same]

theorem ne_nil_of_at? (free : files.at? location = none) : location ≠ [] := by
  rintro rfl
  cases free

/-- A new file is no directory, and where it stands there was none before. -/
theorem isDirectoryAt_put (free : files.at? location = none) (other : Location) :
    (files.put location (.file file)).isDirectoryAt other = files.isDirectoryAt other := by
  rw [isDirectoryAt, isDirectoryAt, at?_put (ne_nil_of_at? free)]
  by_cases same : other = location
  · rw [if_pos same, same, free]
  · rw [if_neg same]

theorem walk?_put (free : files.at? location = none) :
    (files.put location (.file file)).walk? start segments = files.walk? start segments := by
  induction segments generalizing start with
  | nil => rfl
  | cons segment segments ih => rw [walk?, walk?, isDirectoryAt_put free, ih]

end FileSystem

namespace Host

variable {host : Host} {location : Location} {file : File}

/-- Where a path leads. -/
def locate? (host : Host) (path : Path) : Option Location :=
  host.files.locate? host.workLocation path

/-- The host with a file at a location. -/
def create (host : Host) (location : Location) (file : File) : Host :=
  { host with files := host.files.put location (.file file) }

theorem entryAt_eq (host : Host) (path : Path) :
    host.entry? path = (host.locate? path).bind host.files.at? :=
  rfl

theorem locate?_create (free : host.files.at? location = none) (path : Path) :
    (host.create location file).locate? path = host.locate? path := by
  show FileSystem.locate? _ host.workLocation path = _
  rw [locate?, FileSystem.locate?, FileSystem.locate?, create]
  by_cases empty : path.text.isEmpty = true
  · rw [if_pos empty, if_pos empty]
  · rw [if_neg empty, if_neg empty]
    exact FileSystem.walk?_put free

/-- The paths that lead to the place of a new file lead to the file, and the others where they led. -/
theorem entryAt_create (free : host.files.at? location = none) (path : Path) :
    Host.entry? (host.create location file) path =
      if host.locate? path = some location then some (.file file) else host.entry? path := by
  rw [entryAt_eq, entryAt_eq, locate?_create free]
  cases host.locate? path with
  | none => rw [if_neg nofun, Option.bind_none, Option.bind_none]
  | some other =>
      rw [Option.bind_some, Option.bind_some, create, FileSystem.at?_put (FileSystem.ne_nil_of_at? free)]
      by_cases same : other = location
      · rw [if_pos same, if_pos (congrArg some same)]
      · rw [if_neg same, if_neg (mt Option.some.inj same)]

theorem file?_create_of_ne (free : host.files.at? location = none) {path : Path}
    (elsewhere : host.locate? path ≠ some location) :
    (host.create location file).file? path = host.file? path := by
  rw [file?, file?, entryAt_create free, if_neg elsewhere]

theorem isDirectory_create (free : host.files.at? location = none) (path : Path) :
    (host.create location file).isDirectory path = host.isDirectory path := by
  rw [isDirectory, isDirectory, entryAt_create free]
  by_cases here : host.locate? path = some location
  · rw [if_pos here, entryAt_eq, here, Option.bind_some, free]
  · rw [if_neg here]

theorem bundledDir_create (free : host.files.at? location = none) :
    (host.create location file).bundledDir = host.bundledDir := by
  rw [bundledDir, bundledDir, create]
  cases host.programDir with
  | none => rfl
  | some directory =>
      show (if (host.create location file).isDirectory _ = true then _ else _) = _
      rw [isDirectory_create free]

end Host

/-! ## Searches -/

/-- The parent of a path once it is absolute; the empty path if it has none. -/
def Host.absoluteParent (host : Host) (path : Path) : Path :=
  ((path.absolute? host.workDir).bind Path.parent?).getD ⟨""⟩

/-- The directories in which a load looks up a name, in the order of the search. -/
def Options.directories (options : Options) (host : Host) (caller : Option Path) : List Path :=
  let base :=
    match options.basepath with
    | some path => host.absoluteParent path
    | none => ⟨""⟩
  let listed := options.searchPath.filter (·.text ≠ "")
  match caller with
  | some path => base :: host.absoluteParent path :: host.bundledDir :: listed
  | none => base :: host.bundledDir :: listed

namespace SearchPath

variable {host : Host} {options : Options} {caller : Option Path} {name : String} {file : File}
  {dirs before after : List Path} {directory : Path} {found : Found}

/-- A directory holds a file of the name, none of the directories before it does, and the file is found
at its absolute path. -/
structure IsFirstMatch (host : Host) (name : String) (dirs before : List Path) (directory : Path)
    (after : List Path) (found : Found) : Prop where
  listed : dirs = before ++ directory :: after
  absent : ∀ earlier ∈ before, host.file? (earlier.join name) = none
  present : ∃ file, host.file? (directory.join name) = some file ∧ found.modified = file.modified
  absolute : (directory.join name).absolute? host.workDir = some found.path

/-- Only the empty path has no absolute form, and the empty path has no parent. -/
theorem parentDir_eq (host : Host) (path : Path) : parentDir host path = host.absoluteParent path := by
  rw [parentDir, Host.absoluteParent]
  cases empty : path.text.isEmpty with
  | true =>
      have absolute : path.absolute? host.workDir = none := by rw [Path.absolute?, empty, if_pos rfl]
      have parent : path.parent? = none := by
        obtain ⟨text⟩ := path
        cases String.isEmpty_iff.mp empty
        rfl
      rw [absolute, Option.getD_none, parent, Option.bind_none]
  | false =>
      obtain ⟨whole, absolute, -⟩ := Path.exists_absolute? empty host.workDir
      rw [absolute, Option.getD_some, Option.bind_some]

theorem dirs_of (host : Host) (options : Options) (caller : Option Path) :
    (of host options caller).dirs = options.directories host caller := by
  have listed : options.searchPath.filter (!·.text.isEmpty) = options.searchPath.filter (·.text ≠ "") := by
    refine List.filter_congr fun path _ => ?_
    rw [Bool.eq_iff_iff, Bool.not_eq_true', decide_eq_true_iff, ← Bool.not_eq_true, String.isEmpty_iff]
  have parents : parentDir host = host.absoluteParent := funext (parentDir_eq host)
  unfold Options.directories
  rw [of, listed, parents]
  cases options.basepath with
  | none => cases caller with
    | none => rfl
    | some path => rfl
  | some base => cases caller with
    | none => rfl
    | some path => rfl

/-! ## What is found -/

theorem foundIn?_eq_some_iff :
    foundIn? host name directory = some found ↔
      (∃ file, host.file? (directory.join name) = some file ∧ found.modified = file.modified) ∧
        (directory.join name).absolute? host.workDir = some found.path := by
  rw [foundIn?, Option.bind_eq_some_iff]
  constructor
  · rintro ⟨file, there, held⟩
    obtain ⟨path, absolute, eq⟩ := Option.map_eq_some_iff.mp held
    cases eq
    exact ⟨⟨file, there, rfl⟩, absolute⟩
  · rintro ⟨⟨file, there, times⟩, absolute⟩
    refine ⟨file, there, ?_⟩
    rw [absolute, Option.map_some, ← times]

/-- The absolute path of a file that is there can always be told. -/
theorem foundIn?_eq_none_iff :
    foundIn? host name directory = none ↔ host.file? (directory.join name) = none := by
  constructor
  · intro missed
    rw [Option.eq_none_iff_forall_ne_some]
    intro file there
    obtain ⟨written, -⟩ := Host.file?_eq_some_iff.mp there
    obtain ⟨whole, absolute, -⟩ := Path.exists_absolute? written host.workDir
    have held : foundIn? host name directory = some ⟨whole, file.modified⟩ :=
      foundIn?_eq_some_iff.mpr ⟨⟨file, there, rfl⟩, absolute⟩
    cases missed.symm.trans held
  · intro absent
    rw [foundIn?, absent, Option.bind_none]

theorem find_eq_ok_iff (dirs : List Path) :
    find ⟨dirs⟩ host name = .ok found ↔
      ∃ before directory after, IsFirstMatch host name dirs before directory after found := by
  have first : find ⟨dirs⟩ host name = .ok found ↔ dirs.findSome? (foundIn? host name) = some found := by
    rw [find]
    cases dirs.findSome? (foundIn? host name) with
    | none => exact ⟨nofun, nofun⟩
    | some other => rw [Except.ok.injEq, Option.some.injEq]
  rw [first, List.findSome?_eq_some_iff]
  constructor
  · rintro ⟨before, directory, after, listed, held, missed⟩
    obtain ⟨present, absolute⟩ := foundIn?_eq_some_iff.mp held
    have absent : ∀ earlier ∈ before, host.file? (earlier.join name) = none :=
      fun earlier member => foundIn?_eq_none_iff.mp (missed earlier member)
    exact ⟨before, directory, after, listed, absent, present, absolute⟩
  · rintro ⟨before, directory, after, first⟩
    have held : foundIn? host name directory = some found :=
      foundIn?_eq_some_iff.mpr ⟨first.present, first.absolute⟩
    exact ⟨before, directory, after, first.listed, held,
      fun earlier member => foundIn?_eq_none_iff.mpr (first.absent earlier member)⟩

theorem find_eq_error_iff (dirs : List Path) {error : LoadError} :
    find ⟨dirs⟩ host name = .error error ↔
      error = .notFound name dirs ∧ ∀ directory ∈ dirs, host.file? (directory.join name) = none := by
  have missed : dirs.findSome? (foundIn? host name) = none ↔
      ∀ directory ∈ dirs, host.file? (directory.join name) = none := by
    rw [List.findSome?_eq_none_iff]
    exact forall₂_congr fun _ _ => foundIn?_eq_none_iff
  rw [find, ← missed]
  cases dirs.findSome? (foundIn? host name) with
  | none => exact ⟨fun failed => ⟨(Except.error.inj failed).symm, rfl⟩, fun ⟨eq, _⟩ => eq ▸ rfl⟩
  | some other => exact ⟨nofun, fun ⟨_, impossible⟩ => nomatch impossible⟩

/-! ## What does not change a search -/

theorem IsFirstMatch.append (first : IsFirstMatch host name dirs before directory after found)
    (more : List Path) :
    IsFirstMatch host name (dirs ++ more) before directory (after ++ more) found where
  listed := by rw [first.listed, List.append_assoc, List.cons_append]
  absent := first.absent
  present := first.present
  absolute := first.absolute

theorem IsFirstMatch.create {location : Location}
    (first : IsFirstMatch host name dirs before directory after found)
    (free : host.files.at? location = none)
    (elsewhere : ∀ earlier ∈ before, host.locate? (earlier.join name) ≠ some location) (file : File) :
    IsFirstMatch (host.create location file) name dirs before directory after found where
  listed := first.listed
  absent := by
    intro earlier member
    rw [Host.file?_create_of_ne free (elsewhere earlier member)]
    exact first.absent earlier member
  present := by
    obtain ⟨held, there, times⟩ := first.present
    have elsewhere : host.locate? (directory.join name) ≠ some location := by
      intro here
      rw [Host.file?, Host.entryAt_eq, here, Option.bind_some, free] at there
      cases there
    exact ⟨held, (Host.file?_create_of_ne free elsewhere).trans there, times⟩
  absolute := first.absolute

theorem directories_create {location : Location} (free : host.files.at? location = none) :
    options.directories (host.create location file) caller = options.directories host caller := by
  unfold Options.directories
  rw [Host.bundledDir_create free]
  rfl

theorem directories_append (more : List Path) :
    ∃ rest, ({ options with searchPath := options.searchPath ++ more } : Options).directories host caller =
      options.directories host caller ++ rest := by
  refine ⟨more.filter (·.text ≠ ""), ?_⟩
  unfold Options.directories
  rw [List.filter_append]
  cases caller with
  | none => rfl
  | some path => rfl

/-- **What a search finds.** A name is found exactly if one of the directories holds a file of this name,
and then it is the file in the first such directory, with its absolute path; else the error names what was
looked for and all the directories. More directories at the end of the search path leave what is found
as it is, and so does a new file, unless the name leads to it from a directory that was searched before. -/
theorem find_of (host : Host) (options : Options) (caller : Option Path) (name : String) :
    let search := of host options caller
    let dirs := options.directories host caller
    ((∃ found, search.find host name = .ok found) ↔
        ∃ directory ∈ dirs, ∃ file, host.file? (directory.join name) = some file) ∧
      (∀ found, search.find host name = .ok found ↔
        ∃ before directory after, IsFirstMatch host name dirs before directory after found) ∧
      (∀ error, search.find host name = .error error ↔
        error = .notFound name dirs ∧ ∀ directory ∈ dirs, host.file? (directory.join name) = none) ∧
      (∀ found more, search.find host name = .ok found →
        (of host { options with searchPath := options.searchPath ++ more } caller).find host name =
          .ok found) ∧
      ∀ before directory after found, IsFirstMatch host name dirs before directory after found →
        ∀ location file, host.files.at? location = none →
          (∀ earlier ∈ before, host.locate? (earlier.join name) ≠ some location) →
          (of (host.create location file) options caller).find (host.create location file) name =
            .ok found := by
  intro search dirs
  have searched : ∀ host options caller, of host options caller = ⟨options.directories host caller⟩ := by
    intro host options caller
    rw [← dirs_of]
  have ok := @find_eq_ok_iff host name
  have error := @find_eq_error_iff host name dirs
  simp only [search, searched]
  refine ⟨?_, fun found => ok dirs, fun _ => error, ?_, ?_⟩
  · constructor
    · rintro ⟨found, held⟩
      obtain ⟨before, directory, after, first⟩ := (ok dirs).mp held
      obtain ⟨file, there, -⟩ := first.present
      exact ⟨directory, first.listed ▸ List.mem_append_right _ List.mem_cons_self, file, there⟩
    · rintro ⟨directory, member, file, there⟩
      cases result : find ⟨dirs⟩ host name with
      | ok found => exact ⟨found, rfl⟩
      | error failure => cases there.symm.trans ((error.mp result).2 directory member)
  · intro found more held
    obtain ⟨before, directory, after, first⟩ := (ok dirs).mp held
    obtain ⟨rest, eq⟩ := @directories_append host options caller more
    rw [eq]
    exact (ok _).mpr ⟨before, directory, after ++ rest, first.append rest⟩
  · intro before directory after found first location file free elsewhere
    rw [directories_create free]
    exact (find_eq_ok_iff dirs).mpr ⟨before, directory, after, first.create free elsewhere file⟩

/-- A file of the search path is found after the directory of the base path and the bundled directory
were searched in vain, also once the last directory holds a file of the same name. -/
theorem find_of_shadowing :
    let host : Host :=
      { files := ⟨[(["a"], .directory), (["m"], .directory), (["b"], .directory),
          (["m", "n.tpeg"], .file ⟨.bytes "A = 'm'".toUTF8, 1⟩)]⟩
        workDir := ⟨"/"⟩
        programDir := none
        packageDir := ⟨"/p"⟩ }
    let options : Options := ⟨.full, some ⟨"a/main.tpeg"⟩, .utf8, none, [⟨"m"⟩, ⟨""⟩, ⟨"b"⟩]⟩
    let first := IsFirstMatch host "n.tpeg" (options.directories host none) [⟨"/a"⟩, ⟨"/p/grammar"⟩] ⟨"m"⟩
      [⟨"b"⟩] ⟨⟨"/m/n.tpeg"⟩, 1⟩
    let later := host.create ["b", "n.tpeg"] ⟨.bytes "A = 'b'".toUTF8, 2⟩
    first ∧ (of host options none).find host "n.tpeg" = .ok ⟨⟨"/m/n.tpeg"⟩, 1⟩ ∧
      (of later options none).find later "n.tpeg" = .ok ⟨⟨"/m/n.tpeg"⟩, 1⟩ := by
  intro host options first later
  have matched : first := by
    dsimp only [first, host, options]
    exact ⟨by decide, by decide, ⟨_, rfl, rfl⟩, by decide⟩
  obtain ⟨-, ok, -, -, create⟩ := find_of host options none "n.tpeg"
  refine ⟨matched, (ok _).mpr ⟨_, _, _, matched⟩, create _ _ _ _ matched _ _ ?_ ?_⟩
  · dsimp only [host]
    rfl
  · dsimp only [host]
    decide

/-- A new file in a directory after the first match can change a search: here the name leads from the
directory of the base path to its sibling, which is the last directory of the search path. -/
theorem not_forall_find_create :
    ¬∀ (host : Host) (options : Options) (caller : Option Path) (name : String)
      (before after : List Path) (directory later : Path) (found : Found) (location : Location)
      (file : File),
      IsFirstMatch host name (options.directories host caller) before directory after found →
      later ∈ after →
      host.locate? later = some location.dropLast →
      host.locate? (later.join name) = some location →
      host.files.at? location = none →
        (of (host.create location file) options caller).find (host.create location file) name =
          .ok found := by
  intro unchanged
  let host : Host :=
    { files := ⟨[(["a"], .directory), (["a", "a"], .directory), (["a", "b"], .directory),
        (["m"], .directory), (["m", "m"], .directory), (["m", "b"], .directory),
        (["m", "b", "n.tpeg"], .file ⟨.bytes "A = 'm'".toUTF8, 1⟩)]⟩
      workDir := ⟨"/"⟩
      programDir := none
      packageDir := ⟨"/p"⟩ }
  let options : Options := ⟨.full, some ⟨"a/a/main.tpeg"⟩, .utf8, none, [⟨"m/m"⟩, ⟨"a/b"⟩]⟩
  let new : Location := ["a", "b", "n.tpeg"]
  let later := host.create new ⟨.bytes "A = 'b'".toUTF8, 2⟩
  have first : IsFirstMatch host "../b/n.tpeg" (options.directories host none) [⟨"/a/a"⟩, ⟨"/p/grammar"⟩]
      ⟨"m/m"⟩ [⟨"a/b"⟩] ⟨⟨"/m/m/../b/n.tpeg"⟩, 1⟩ := by
    dsimp only [host, options]
    exact ⟨by decide, by decide, ⟨_, rfl, rfl⟩, by decide⟩
  have stays : (of later options none).find later "../b/n.tpeg" = .ok ⟨⟨"/m/m/../b/n.tpeg"⟩, 1⟩ :=
    unchanged host options none _ _ _ _ _ _ new _ first List.mem_cons_self (by decide) (by decide) (by rfl)
  have changed : (of later options none).find later "../b/n.tpeg" = .ok ⟨⟨"/a/a/../b/n.tpeg"⟩, 2⟩ := by
    dsimp only [later, host, options, new]
    rfl
  rw [changed] at stays
  injection stays with stays
  injection stays with path times
  cases times

end SearchPath

end Peg
