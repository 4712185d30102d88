import Peg.Load.Loader
import Peg.Proofs.Load.Cache
import Peg.Proofs.Load.FileSystem

/-!
# Runs of loads

Any number of loaders share one cache. Files may change from one load to the next, and other
compilations may take identities in between.

* `Request`, `Loader.load`: the two kinds of load as one.
* `Request.text`: the text that a request asks for, on a given host.
* `Loads`: the sequences of loads that leave a given cache behind.
* `Loader.load_cases`, `SearchPath.find_ok`, `Store.fetch_cases`: what a load does, what a search finds,
  and what a request to the cache does.
* `Store.fetch_holds`: what a request to the cache preserves.
-/

namespace Peg

/-! ## Requests -/

/-- A request for a grammar. -/
inductive Request where
  /-- Grammar text, or the name of a file that is searched for. -/
  | source (source : String) (options : Options) (caller : Option Path)
  /-- The file at a path. -/
  | path (path : Path) (options : Options)

namespace Request

def options : Request → Options
  | .source _ options _ => options
  | .path _ options => options

/-- The text of the file that a search finds. -/
def foundText (host : Host) (search : SearchPath) (name : String) (encoding : Encoding) :
    Except LoadError String :=
  match search.find host name with
  | .error error => .error error
  | .ok found => Loader.readText host found.path encoding

/-- The text that a request asks for: grammar text itself, or the decoded content of the file that the
request resolves to. -/
def text (host : Host) : Request → Except LoadError String
  | .source written options caller =>
    if isInlineSource written then .ok written
    else foundText host (.of host options caller) written options.encoding
  | .path target options =>
    foundText host ⟨[target.parent?.getD ⟨""⟩]⟩ (target.fileName?.getD "") options.encoding

end Request

/-- Loads what is requested. -/
def Loader.load (loader : Loader) : Request → Store → Except LoadError Grammar × Store
  | .source source options caller, store => loader.loadFrom source options caller store
  | .path path options, store => loader.loadPath path options store

/-- A load compiles grammar text, or searches for a file. -/
theorem Loader.load_cases (loader : Loader) (request : Request) (store : Store) :
    (∃ text urn, request.text loader.host = .ok text ∧
        loader.load request store = loader.loadInline text urn request.options.mode store) ∨
      (∃ search name,
        request.text loader.host =
            Request.foundText loader.host search name request.options.encoding ∧
          loader.load request store = loader.loadNamed search name request.options store) := by
  cases request with
  | source source options caller =>
      rw [Request.text, load, loadFrom]
      split
      · exact Or.inl ⟨source, _, rfl, rfl⟩
      · exact Or.inr ⟨_, _, rfl, rfl⟩
  | path path options => exact Or.inr ⟨_, _, rfl, rfl⟩

/-! ## Runs -/

/-- A load that took place: what was requested, where, and with which result. -/
structure Load where
  host : Host
  request : Request
  result : Except LoadError Grammar

/-- The loads that leave a cache behind, one after the other, by loaders that read text in the same way.
The first of them finds the cache empty. -/
inductive Loads (read : String → Parse) : List Load → Cache Grammar → Prop
  | start : Loads read [] .empty
  | load {loads : List Load} {cache : Cache Grammar} {host : Host} {id : GrammarId}
    {request : Request} {result : Except LoadError Grammar} {store : Store} :
    Loads read loads cache →
    (Loader.mk read host).load request ⟨cache, id⟩ = (result, store) →
    Loads read (loads ++ [⟨host, request, result⟩]) store.cache

/-! ## Searching and reading -/

variable {host host' : Host} {path path' : Path} {encoding : Encoding}

/-- A search finds the absolute path of a file that one of the searched directories holds. -/
theorem SearchPath.find_ok {search : SearchPath} {name : String} {found : Found}
    (ok : search.find host name = .ok found) :
    ∃ directory ∈ search.dirs, ∃ file, host.file? (directory.join name) = some file ∧
      (directory.join name).absolute? host.workDir = some found.path ∧
      found.modified = file.modified := by
  unfold find at ok
  split at ok
  · next first eq =>
      cases ok
      obtain ⟨directory, member, eq⟩ := List.exists_of_findSome?_eq_some eq
      obtain ⟨file, entry, eq⟩ := Option.bind_eq_some_iff.mp eq
      obtain ⟨whole, absolute, eq⟩ := Option.map_eq_some_iff.mp eq
      cases eq
      exact ⟨directory, member, file, entry, absolute, rfl⟩
  · cases ok

/-- The path that a search finds leads to a file with the time that it finds. -/
theorem Host.Grounded.file?_of_find (grounded : host.Grounded) {search : SearchPath} {name : String}
    {found : Found} (ok : search.find host name = .ok found) :
    found.path.isAbsolute = true ∧
      ∃ file, host.file? found.path = some file ∧ file.modified.toNat = found.stamp := by
  obtain ⟨directory, -, file, entry, absolute, modified⟩ := SearchPath.find_ok ok
  obtain ⟨root, whole⟩ := grounded.file?_absolute entry absolute
  exact ⟨root, file, whole, by rw [Found.stamp, modified]⟩

/-- Files with the same content have the same text. -/
theorem Loader.readText_congr {file file' : File} {text : String}
    (entry : host.file? path = some file) (entry' : host'.file? path' = some file')
    (same : file.content = file'.content) (ok : readText host path encoding = .ok text) :
    readText host' path' encoding = .ok text := by
  unfold readText at ok ⊢
  rw [entry] at ok
  rw [entry']
  dsimp only at ok ⊢
  rw [← same]
  cases content : file.content with
  | unreadable cause =>
      rw [content] at ok
      cases ok
  | bytes bytes =>
      rw [content] at ok
      dsimp only at ok ⊢
      cases decoded : encoding.decode? bytes with
      | none =>
          rw [decoded] at ok
          cases ok
      | some text' =>
          rw [decoded] at ok
          exact ok

/-! ## Requests to the cache of a store -/

/-- Everything that a request to the cache of a store can do: find the grammar, build and keep it under the
next identity, or fail to build it. -/
theorem Store.fetch_cases (store : Store) (key : Key) (build : GrammarId → Except LoadError Grammar) :
    (∃ grammar, store.cache.get? key = some grammar ∧ store.fetch key build = (.ok grammar, store)) ∨
      (∃ grammar, store.cache.get? key = none ∧ build store.supply = .ok grammar ∧
        store.fetch key build =
          (.ok grammar, ⟨⟨store.cache.entries ++ [(key, grammar)]⟩, store.supply.next⟩)) ∨
      (∃ error, store.cache.get? key = none ∧ build store.supply = .error error ∧
        store.fetch key build = (.error error, store)) := by
  unfold fetch
  rcases store.cache.fetch_cases key fun _ => build store.supply with
    ⟨grammar, kept, eq⟩ | ⟨grammar, absent, built, eq⟩ | ⟨error, absent, failed, eq⟩
  · rw [eq]
    exact Or.inl ⟨grammar, kept, rfl⟩
  · rw [eq]
    exact Or.inr (Or.inl ⟨grammar, absent, built, rfl⟩)
  · rw [eq]
    exact Or.inr (Or.inr ⟨error, absent, failed, rfl⟩)

/-- A request to the cache keeps whatever holds of all that is kept and of what is built, and its result
is kept under a key for the same source. -/
theorem Store.fetch_holds {P : Key → Grammar → Prop} {store : Store} {key : Key}
    {build : GrammarId → Except LoadError Grammar}
    (kept : ∀ entry ∈ store.cache.entries, P entry.1 entry.2)
    (builds : ∀ id grammar, build id = .ok grammar → P key grammar) :
    (∀ entry ∈ (store.fetch key build).2.cache.entries, P entry.1 entry.2) ∧
      ∀ grammar, (store.fetch key build).1 = .ok grammar →
        ∃ key', key'.identity = key.identity ∧ P key' grammar := by
  rcases store.fetch_cases key build with
    ⟨value, found, eq⟩ | ⟨value, -, built, eq⟩ | ⟨error, -, -, eq⟩
  · rw [eq]
    refine ⟨kept, fun grammar ok => ?_⟩
    cases ok
    obtain ⟨key', member, same⟩ := Cache.exists_mem_of_get? found
    exact ⟨key', same, kept _ member⟩
  · rw [eq]
    refine ⟨fun entry member => ?_, fun grammar ok => ?_⟩
    · rcases List.mem_append.mp member with old | new
      · exact kept entry old
      · rw [List.mem_singleton.mp new]
        exact builds store.supply value built
    · cases ok
      exact ⟨key, rfl, builds store.supply value built⟩
  · rw [eq]
    exact ⟨kept, nofun⟩

end Peg
