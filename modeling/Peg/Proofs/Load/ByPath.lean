import Peg.LineNotation
import Peg.Proofs.Load.AbsolutePath
import Peg.Proofs.Load.Runs

/-!
# Two ways to one file

A file is loaded by its path, or by its name with the path as the base path. The first looks into the
parent of the path as it is written, the second into the parent of the absolute path; both find the same
file.

* `FileSystem.walk?_active`: idle segments on the way to a name make no difference.
* `Host.file?_congr`: paths from the root that differ in idle segments only lead to the same file.
* `SearchPath.exists_foundIn?`: the two parents hold the same file, found at the same path.
* `Loader.loadFound_again`: a file that was loaded is found in the cache.
* `Loader.loadPath_eq_loadFrom`: the two loads have the same outcome.
-/

namespace Peg

open Peg.Path (active isIdle)

/-! ## Walking -/

namespace FileSystem

variable {files : FileSystem} {location : Location} {segments : List (List Char)} {name : List Char}

/-- Idle segments on the way to a name make no difference: the step to the name needs a directory all
the same. -/
theorem walk?_active (segments : List (List Char)) (name : List Char) :
    files.walk? location (segments ++ [name]) = files.walk? location (active segments ++ [name]) := by
  induction segments generalizing location with
  | nil => rfl
  | cons segment segments ih =>
      cases idle : isIdle segment with
      | false =>
          have kept : active (segment :: segments) = segment :: active segments := by
            rw [active, List.filter_cons_of_pos (by rw [idle]; rfl)]
            rfl
          rw [kept, List.cons_append, List.cons_append, walk?, walk?, ih]
      | true =>
          have dropped : active (segment :: segments) = active segments := by
            rw [active, List.filter_cons_of_neg (by simp [idle])]
            rfl
          rw [dropped, List.cons_append, walk?, step_of_idle idle, ih]
          obtain ⟨first, rest, eq⟩ := List.exists_cons_of_ne_nil
            (List.concat_ne_nil name (active segments))
          rw [eq, walk?]
          split
          · rfl
          · rfl

end FileSystem

namespace Host

variable {host : Host} {path other : Path} {file : File} {before before' : List (List Char)}
  {name : List Char}

/-- A path that leads to a file has no final slash. -/
theorem segments_of_file? (found : host.file? path = some file) : path.layout.segments = path.trunk := by
  obtain ⟨-, location, walk, entry⟩ := file?_eq_some_iff.mp found
  rcases Path.trunkOf_cases path.layout.segments with eq | eq
  · exact eq
  · rw [eq, FileSystem.walk?_append, Option.bind_eq_some_iff] at walk
    obtain ⟨last, -, walk⟩ := walk
    obtain ⟨directory, stay⟩ := FileSystem.isDirectoryAt_of_walk?_cons walk
    rw [FileSystem.step_of_idle rfl] at stay
    cases stay
    rw [FileSystem.isDirectoryAt, entry] at directory
    cases directory

/-- Paths from the root to one name that differ in idle segments only lead to the same file. -/
theorem file?_congr (layout : path.layout = ⟨.root, before ++ [name]⟩)
    (layout' : other.layout = ⟨.root, before' ++ [name]⟩) (same : active before = active before') :
    host.file? path = host.file? other := by
  have absolute : ∀ {path : Path} {segments : List (List Char)}, path.layout = ⟨.root, segments⟩ →
      path.isAbsolute = true ∧ path.text.isEmpty = false := by
    intro path segments layout
    have root : path.isAbsolute = true := by
      rw [Path.isAbsolute, layout]
      rfl
    refine ⟨root, Bool.eq_false_iff.mpr fun empty => ?_⟩
    rw [Path.isAbsolute_iff, String.isEmpty_iff.mp empty] at root
    cases root
  ext file
  rw [file?_eq_some_iff, file?_eq_some_iff, FileSystem.start, FileSystem.start,
    if_pos (absolute layout).1, if_pos (absolute layout').1, (absolute layout).2, (absolute layout').2,
    layout, layout', FileSystem.walk?_active before, FileSystem.walk?_active before', same]

end Host

/-! ## Searches -/

/-- The absolute form of a path to a file, segment by segment. -/
theorem Host.Grounded.exists_absolute? {host : Host} {path : Path} {file : File} (grounded : host.Grounded)
    (there : host.file? path = some file) :
    ∃ whole, path.absolute? host.workDir = some whole ∧ host.file? whole = some file ∧
      whole.layout = ⟨.root, (path.base host.workDir).trunk ++ active path.trunk⟩ ∧
      (path.base host.workDir).layout.lead = .root := by
  obtain ⟨written, -⟩ := file?_eq_some_iff.mp there
  obtain ⟨whole, absolute, lead, trunk⟩ := Path.exists_absolute? written host.workDir
  obtain ⟨root, found⟩ := grounded.file?_absolute there absolute
  rw [Path.isAbsolute_iff_lead] at root
  refine ⟨whole, absolute, found, ?_, lead ▸ root⟩
  rw [← trunk, ← segments_of_file? found, ← root]

section Search

variable {host : Host} {path : Path} {name : String} {file : File}

/-- The file that the written parent of a path holds is found in the absolute parent too, at a path with
the same steps. -/
theorem SearchPath.exists_foundIn? (grounded : host.Grounded) (ends : path.fileName? = some name)
    (there : host.file? ((path.parent?.getD ⟨""⟩).join name) = some file) :
    ∃ found found' : Found,
      foundIn? host name (path.parent?.getD ⟨""⟩) = some found ∧
      foundIn? host name (parentDir host path) = some found' ∧
      found.path.components = found'.path.components ∧ found.modified = found'.modified ∧
      (host.workDir.IsCanonical → found = found') := by
  obtain ⟨whole, before, absolute, candidates⟩ := Path.exists_candidates ends host.workDir
  have parentDir : parentDir host path = whole.parent?.getD ⟨""⟩ := by
    rw [parentDir, absolute, Option.getD_some]
  rw [foundIn?, foundIn?, parentDir]
  generalize (path.parent?.getD ⟨""⟩).join name = written at candidates there ⊢
  generalize (whole.parent?.getD ⟨""⟩).join name = rooted at candidates ⊢
  -- The absolute form of the first path and the second path lead to one place.
  obtain ⟨first, absoluteFirst, thereFirst, layoutFirst, rootFirst⟩ := grounded.exists_absolute? there
  have layoutRooted := candidates.layout_rooted
  rw [← candidates.lead_base_written, rootFirst] at layoutRooted
  have thereRooted : host.file? rooted = some file := by
    rw [candidates.active_written, ← List.append_assoc] at layoutFirst
    rw [← thereFirst]
    refine Host.file?_congr layoutRooted layoutFirst ?_
    rw [Path.active_trimIdle, Path.active_append, Path.active_append, candidates.active_base_written]
  obtain ⟨second, absoluteSecond, thereSecond, layoutSecond, rootSecond⟩ :=
    grounded.exists_absolute? thereRooted
  refine ⟨⟨first, file.modified⟩, ⟨second, file.modified⟩, ?_, ?_, ?_, rfl, ?_⟩
  · rw [there, Option.bind_some, absoluteFirst, Option.map_some]
  · rw [thereRooted, Option.bind_some, absoluteSecond, Option.map_some]
  · have absoluteRooted : rooted.isAbsolute = true := by
      rw [Path.isAbsolute_iff_lead, layoutRooted]
    rw [Path.components, Path.components, layoutFirst, layoutSecond, Path.Layout.components,
      Path.Layout.components, ← Path.filterMap_component?_active,
      ← Path.filterMap_component?_active (_ ++ active rooted.trunk), Path.active_append,
      Path.active_append, Path.active_active, Path.active_active, candidates.active_rooted,
      candidates.active_written, candidates.active_base_written, Path.active_base absoluteRooted,
      List.nil_append, List.append_assoc]
  · intro canonical
    have same : first = second := by
      refine Path.eq_of_segments (by rw [layoutFirst]) (by rw [layoutSecond]) ?_
      rw [layoutFirst, layoutSecond, candidates.active_written, candidates.active_rooted,
        candidates.trunk_base_written canonical, List.append_assoc, List.append_assoc]
    rw [same]

theorem SearchPath.find_cons {directory : Path} {found : Found}
    (holds : foundIn? host name directory = some found) (dirs : List Path) :
    find ⟨directory :: dirs⟩ host name = .ok found := by
  rw [find, List.findSome?_cons, holds]

end Search

/-! ## Loads -/

theorem Store.fetch_of_get? {store : Store} {key : Key} {grammar : Grammar}
    (kept : store.cache.get? key = some grammar) (build : GrammarId → Except LoadError Grammar) :
    store.fetch key build = (.ok grammar, store) := by
  rcases store.fetch_cases key build with ⟨value, found, eq⟩ | ⟨_, absent, -⟩ | ⟨_, absent, -⟩
  · cases kept.symm.trans found
    exact eq
  · cases kept.symm.trans absent
  · cases kept.symm.trans absent

/-- What a request returns is kept when it is over. -/
theorem Store.get?_of_fetch {store after : Store} {key : Key} {grammar : Grammar}
    {build : GrammarId → Except LoadError Grammar} (answer : store.fetch key build = (.ok grammar, after)) :
    after.cache.get? key = some grammar := by
  rcases store.fetch_cases key build with ⟨value, found, eq⟩ | ⟨value, absent, -, eq⟩ | ⟨error, -, -, eq⟩
  · cases eq.symm.trans answer
    exact found
  · cases eq.symm.trans answer
    exact Cache.get?_of_built absent
  · cases eq.symm.trans answer

namespace Loader

variable {host : Host} {path : Path} {name : String} {file : File} {options : Options} {found found' : Found}

/-- The file that the first directory holds is loaded. -/
theorem loadNamed_of_foundIn? (loader : Loader) {directory : Path}
    (holds : SearchPath.foundIn? loader.host name directory = some found) (dirs : List Path)
    (options : Options) (store : Store) :
    loader.loadNamed ⟨directory :: dirs⟩ name options store = loader.loadFound found options store := by
  rw [loadNamed, SearchPath.find_cons holds]

/-- A file that was loaded is in the cache for whoever finds it at a path with the same steps. -/
theorem loadFound_again {loader : Loader} {store after : Store} {grammar : Grammar}
    (steps : found.path.components = found'.path.components) (times : found.modified = found'.modified)
    (loaded : loader.loadFound found options store = (.ok grammar, after)) (other : Loader)
    (id : GrammarId) :
    other.loadFound found' options ⟨after.cache, id⟩ = (.ok grammar, ⟨after.cache, id⟩) := by
  have same : (Key.ofFound found options.mode).identity = (Key.ofFound found' options.mode).identity := by
    rw [Key.ofFound, Key.ofFound, Key.identity, Key.identity, steps, Found.stamp, Found.stamp, times]
  have kept : after.cache.get? (.ofFound found options.mode) = some grammar :=
    Store.get?_of_fetch loaded
  rw [Cache.get?_congr same] at kept
  exact @Store.fetch_of_get? ⟨after.cache, id⟩ _ _ kept _

/-- **Loading a file by its path or by its name.** Let a path end in a name that is no grammar text, and
let its parent hold a file of this name. Loading the path, and loading the name with the path as the base
path, give the same result and leave the same behind, whatever was loaded before; the paths that the
results mention are written alike if the working directory is written as an operating system reports it.
After either load has succeeded, the other returns the same grammar and changes nothing. -/
theorem loadPath_eq_loadFrom (read : String → Parse) (options : Options) (caller : Option Path)
    (grounded : host.Grounded) (ends : path.fileName? = some name) (noText : isInlineSource name = false)
    (there : host.file? ((path.parent?.getD ⟨""⟩).join name) = some file) :
    let byPath := (Loader.mk read host).loadPath path options
    let byName := (Loader.mk read host).loadFrom name { options with basepath := some path } caller
    (host.workDir.IsCanonical → ∀ store, byPath store = byName store) ∧
      (∀ store grammar after, byPath store = (.ok grammar, after) →
        ∀ id, byName ⟨after.cache, id⟩ = (.ok grammar, ⟨after.cache, id⟩)) ∧
      ∀ store grammar after, byName store = (.ok grammar, after) →
        ∀ id, byPath ⟨after.cache, id⟩ = (.ok grammar, ⟨after.cache, id⟩) := by
  intro byPath byName
  obtain ⟨found, found', holds, holds', steps, times, alike⟩ :=
    SearchPath.exists_foundIn? grounded ends there
  have pathLoad : ∀ store, byPath store = (Loader.mk read host).loadFound found options store := by
    intro store
    show loadNamed _ ⟨[path.parent?.getD ⟨""⟩]⟩ (path.fileName?.getD "") options store = _
    rw [ends, Option.getD_some]
    exact loadNamed_of_foundIn? (.mk read host) holds [] options store
  have nameLoad : ∀ store, byName store = (Loader.mk read host).loadFound found' options store := by
    intro store
    show loadFrom _ name _ caller store = _
    rw [loadFrom, noText, if_neg Bool.false_ne_true]
    exact loadNamed_of_foundIn? (.mk read host) holds' _ { options with basepath := some path } store
  refine ⟨fun canonical store => ?_, fun store grammar after loaded id => ?_,
    fun store grammar after loaded id => ?_⟩
  · rw [pathLoad, nameLoad, alike canonical]
  · rw [pathLoad] at loaded
    rw [nameLoad]
    exact loadFound_again steps times loaded _ id
  · rw [nameLoad] at loaded
    rw [pathLoad]
    exact loadFound_again steps.symm times.symm loaded _ id

/-- A path with dots and too many slashes names a file of the working directory. It is loaded first by
the path, and then, without compiling it again, by its name. -/
theorem loadPath_eq_loadFrom_dotted :
    let host : Host :=
      { files := ⟨[(["g"], .directory), (["g", "sub"], .directory),
          (["g", "b"], .file ⟨.bytes "A = 'a'".toUTF8, 7⟩)]⟩
        workDir := ⟨"/g"⟩
        programDir := none
        packageDir := ⟨"/p"⟩ }
    let options : Options := ⟨.full, none, .utf8, none, []⟩
    let grammar : Grammar := (LineNotation.parse "A = 'a'").compile .first "/g/sub/../b" .full
    let byPath := (Loader.mk LineNotation.parse host).loadPath ⟨"./sub/..//b/."⟩ options
    let byName := (Loader.mk LineNotation.parse host).loadFrom "b"
      { options with basepath := some ⟨"./sub/..//b/."⟩ } (some ⟨"src/x"⟩)
    host.workDir.IsCanonical ∧ ∃ after, byPath .new = (.ok grammar, after) ∧
      byName .new = (.ok grammar, after) ∧
      byName ⟨after.cache, ⟨9⟩⟩ = (.ok grammar, ⟨after.cache, ⟨9⟩⟩) := by
  intro host options grammar byPath byName
  have canonical : host.workDir.IsCanonical := by
    dsimp only [host]
    exact ⟨by decide, by decide⟩
  have grounded : host.Grounded := by
    dsimp only [host]
    exact fun _ => ⟨by decide, by rfl⟩
  have there : host.file? (((Path.mk "./sub/..//b/.").parent?.getD ⟨""⟩).join "b") =
      some ⟨.bytes "A = 'a'".toUTF8, 7⟩ := by
    dsimp only [host]
    rfl
  have loaded : byPath .new = (.ok grammar, ⟨⟨[(.file ⟨"/g/sub/../b"⟩ 7 .full, grammar)]⟩, ⟨2⟩⟩) := by
    dsimp only [byPath, host, options, grammar]
    rfl
  obtain ⟨same, again, -⟩ := loadPath_eq_loadFrom LineNotation.parse options (some ⟨"src/x"⟩) grounded
    (by decide) (by decide) there
  exact ⟨canonical, _, loaded, (same canonical .new).symm.trans loaded, again _ _ _ loaded ⟨9⟩⟩

end Loader

end Peg
