import Peg.LineNotation
import Peg.Proofs.Grammar.Alike
import Peg.Proofs.Load.Runs

/-!
# Transparency of the cache

A load may return what another load compiled long before, for another spelling of the path and while
the file system looked different. As long as a file never changes without its time changing, nobody can
tell.

* `Stable`: the assumption on files over a whole run.
* `Compiled`: the invariant, which ties the key of every entry to what its grammar was compiled from.
* `Loads.transparent`: what a load returns is what compiling the requested text gives.
-/

namespace Peg

/-- Over the given hosts, the file at an absolute path has the same content whenever it has the same
time; times before the epoch are all the same. -/
def Stable (hosts : List Host) : Prop :=
  ∀ host ∈ hosts, ∀ host' ∈ hosts, ∀ (path path' : Path) (file file' : File),
    path.isAbsolute = true → path'.isAbsolute = true → path.components = path'.components →
    host.file? path = some file → host'.file? path' = some file' →
    file.modified.toNat = file'.modified.toNat → file.content = file'.content

/-- The grammar was compiled from what the key stands for: from the text itself, or from the text that a
file with the path and time of the key had on one of the hosts. -/
inductive Compiled (read : String → Parse) (encoding : Encoding) (hosts : List Host) :
    Key → Grammar → Prop
  | inline (text urn : String) (mode : Mode) (id : GrammarId) :
    Compiled read encoding hosts (.inline text mode) ((read text).compile id urn mode)
  | file {host : Host} {path : Path} {file : File} {text : String} (urn : String) (mode : Mode)
    (id : GrammarId) (member : host ∈ hosts) (absolute : path.isAbsolute = true)
    (entry : host.file? path = some file) (content : Loader.readText host path encoding = .ok text) :
    Compiled read encoding hosts (.file path file.modified.toNat mode)
      ((read text).compile id urn mode)

variable {read : String → Parse} {encoding : Encoding} {hosts : List Host} {grammar : Grammar}
  {key : Key} {mode : Mode}

theorem Compiled.of_inline {text : String} (compiled : Compiled read encoding hosts key grammar)
    (same : key.identity = (Key.inline text mode).identity) :
    ∃ id urn, grammar = (read text).compile id urn mode := by
  cases compiled with
  | inline text' urn mode' id =>
      cases same
      exact ⟨id, urn, rfl⟩
  | file urn mode' id member absolute entry content => cases same

/-- What was compiled from a file with a given path and time was compiled from the text that any file
with the same path and time has. -/
theorem Compiled.of_file {host : Host} {path : Path} {file : File} {stamp : Nat}
    (compiled : Compiled read encoding hosts key grammar) (stable : Stable hosts)
    (same : key.identity = (Key.file path stamp mode).identity) (member : host ∈ hosts)
    (absolute : path.isAbsolute = true) (entry : host.file? path = some file)
    (time : file.modified.toNat = stamp) :
    ∃ text id urn, Loader.readText host path encoding = .ok text ∧
      grammar = (read text).compile id urn mode := by
  cases compiled with
  | inline text urn mode' id => cases same
  | @file host' path' file' text urn mode' id member' absolute' entry' content =>
      rw [Key.identity, Key.identity, Key.Identity.file.injEq] at same
      obtain ⟨steps, times, rfl⟩ := same
      -- The hosts may be far apart in time; only here does it matter that files are stable.
      have contents : file'.content = file.content :=
        stable host' member' host member path' path file' file absolute' absolute steps entry' entry
          (times.trans time.symm)
      exact ⟨text, id, urn, Loader.readText_congr entry' entry contents content, rfl⟩

/-- Every grammar in the cache was compiled from what its key stands for. -/
def Cache.AllCompiled (read : String → Parse) (encoding : Encoding) (hosts : List Host)
    (cache : Cache Grammar) : Prop :=
  ∀ entry ∈ cache.entries, Compiled read encoding hosts entry.1 entry.2

/-! ## One load -/

section Load

variable {host : Host} {store : Store}

theorem Loader.loadInline_compiled {text urn : String}
    (kept : store.cache.AllCompiled read encoding hosts) :
    ((Loader.mk read host).loadInline text urn mode store).2.cache.AllCompiled read encoding hosts ∧
      ∀ grammar, ((Loader.mk read host).loadInline text urn mode store).1 = .ok grammar →
        ∃ id urn, grammar = (read text).compile id urn mode := by
  have builds : ∀ id grammar, .ok ((Loader.mk read host).grammarOf text urn mode id) =
        (.ok grammar : Except LoadError Grammar) →
      Compiled read encoding hosts (.inline text mode) grammar := by
    intro id grammar built
    cases built
    exact .inline text urn mode id
  obtain ⟨keeps, returns⟩ := Store.fetch_holds kept builds
  refine ⟨keeps, fun grammar ok => ?_⟩
  obtain ⟨key, same, compiled⟩ := returns grammar ok
  exact compiled.of_inline same

theorem Loader.loadFound_compiled {found : Found} {options : Options} {file : File}
    (kept : store.cache.AllCompiled read options.encoding hosts) (stable : Stable hosts)
    (member : host ∈ hosts) (absolute : found.path.isAbsolute = true)
    (entry : host.file? found.path = some file) (time : file.modified.toNat = found.stamp) :
    ((Loader.mk read host).loadFound found options store).2.cache.AllCompiled read options.encoding
        hosts ∧
      ∀ grammar, ((Loader.mk read host).loadFound found options store).1 = .ok grammar →
        ∃ text id urn, readText host found.path options.encoding = .ok text ∧
          grammar = (read text).compile id urn options.mode := by
  have builds : ∀ id grammar, ((readText host found.path options.encoding).map fun text =>
          (Loader.mk read host).grammarOf text found.path.text options.mode id) = .ok grammar →
      Compiled read options.encoding hosts (.ofFound found options.mode) grammar := by
    intro id grammar built
    cases content : readText host found.path options.encoding with
    | error error =>
        rw [content] at built
        cases built
    | ok text =>
        rw [content] at built
        cases built
        rw [Key.ofFound, ← time]
        exact .file found.path.text options.mode id member absolute entry content
  obtain ⟨keeps, returns⟩ := Store.fetch_holds kept builds
  refine ⟨keeps, fun grammar ok => ?_⟩
  obtain ⟨key, same, compiled⟩ := returns grammar ok
  exact compiled.of_file stable same member absolute entry time

/-- A load keeps the invariant, and returns a grammar that was compiled from the requested text. -/
theorem Loader.load_compiled {request : Request}
    (kept : store.cache.AllCompiled read request.options.encoding hosts) (stable : Stable hosts)
    (member : host ∈ hosts) (grounded : host.Grounded) :
    ((Loader.mk read host).load request store).2.cache.AllCompiled read request.options.encoding
        hosts ∧
      ∀ grammar, ((Loader.mk read host).load request store).1 = .ok grammar →
        ∃ text id urn, request.text host = .ok text ∧
          grammar = (read text).compile id urn request.options.mode := by
  rcases (Loader.mk read host).load_cases request store with
    ⟨text, urn, asked, eq⟩ | ⟨search, name, asked, eq⟩
  · rw [eq, asked]
    obtain ⟨keeps, returns⟩ := @loadInline_compiled _ _ _ request.options.mode host _ text urn kept
    refine ⟨keeps, fun grammar ok => ?_⟩
    obtain ⟨id, urn, eq⟩ := returns grammar ok
    exact ⟨text, id, urn, rfl, eq⟩
  · rw [eq, asked, loadNamed, Request.foundText]
    cases search : search.find host name with
    | error error => exact ⟨kept, nofun⟩
    | ok found =>
        obtain ⟨absolute, file, entry, time⟩ := grounded.file?_of_find search
        exact loadFound_compiled kept stable member absolute entry time

end Load

/-! ## Runs -/

/-- Along a run every entry of the cache stays compiled from what its key stands for, and every load
returns a grammar that was compiled from the text that it asked for. -/
theorem Loads.compiled {loads : List Load} {cache : Cache Grammar} (run : Loads read loads cache)
    (alike : ∀ load ∈ loads, load.request.options.encoding = encoding)
    (grounded : ∀ load ∈ loads, load.host.Grounded) (members : ∀ load ∈ loads, load.host ∈ hosts)
    (stable : Stable hosts) :
    cache.AllCompiled read encoding hosts ∧
      ∀ load ∈ loads, ∀ grammar, load.result = .ok grammar →
        ∃ text id urn, load.request.text load.host = .ok text ∧
          grammar = (read text).compile id urn load.request.options.mode := by
  induction run with
  | start => exact ⟨List.forall_mem_nil _, List.forall_mem_nil _⟩
  | @load loads cache host id request result store _ answer ih =>
      rw [List.forall_mem_append, List.forall_mem_singleton] at alike grounded members
      obtain ⟨kept, earlier⟩ := ih alike.1 grounded.1 members.1
      obtain ⟨alike, rfl⟩ := alike
      obtain ⟨keeps, returns⟩ :=
        @Loader.load_compiled read hosts host ⟨cache, id⟩ request kept stable members.2 grounded.2
      rw [answer] at keeps returns
      refine ⟨keeps, ?_⟩
      rw [List.forall_mem_append, List.forall_mem_singleton]
      exact ⟨earlier, returns⟩

/-- **The cache is transparent.** Let loads share one initially empty cache and one way of reading text,
use one encoding, and find files that never change without their time changing. Then every load that
succeeds returns, up to identity and name, what compiling gives without a cache, in the mode of the
request: compiling the grammar text, or what the file that the request resolves to holds at that time. -/
theorem Loads.transparent {loads : List Load} {cache : Cache Grammar} (run : Loads read loads cache)
    (alike : ∀ load ∈ loads, load.request.options.encoding = encoding)
    (grounded : ∀ load ∈ loads, load.host.Grounded) (stable : Stable (loads.map Load.host)) :
    ∀ load ∈ loads, ∀ grammar, load.result = .ok grammar →
      ∃ text, load.request.text load.host = .ok text ∧
        ∀ (host : Host) (urn : String) (store : Store), grammar.Alike
          ((Loader.mk read host).compileText text urn load.request.options.mode store).1 := by
  intro load member grammar ok
  have members : ∀ load ∈ loads, load.host ∈ loads.map Load.host :=
    fun load member => List.mem_map_of_mem member
  obtain ⟨-, returns⟩ := run.compiled alike grounded members stable
  obtain ⟨text, id, urn, asked, rfl⟩ := returns load member grammar ok
  exact ⟨text, asked, fun _ urn' store => (read text).compile_alike id store.supply urn urn' _⟩

/-- A file from before the epoch is loaded by its path and then, from the working directory, by its name,
which finds the grammar in the cache. After the file has changed, the name finds the new grammar. -/
theorem Loads.transparent_edit :
    let host (text : String) (modified : Int) : Host :=
      { files := ⟨[(["g"], .directory), (["g", "a"], .file ⟨.bytes text.toUTF8, modified⟩)]⟩
        workDir := ⟨"/g"⟩
        programDir := none
        packageDir := ⟨"/p"⟩ }
    let options : Options := ⟨.full, none, .utf8, none, []⟩
    let grammar (text : String) (id : GrammarId) : Grammar :=
      (LineNotation.parse text).compile id "/g/a" .full
    let loads : List Load :=
      [⟨host "A = 'a'" (-5), .path ⟨"/g/./a"⟩ options, .ok (grammar "A = 'a'" .first)⟩,
        ⟨host "A = 'a'" (-5), .source "a" options none, .ok (grammar "A = 'a'" .first)⟩,
        ⟨host "A = 'b'" 3, .source "a" options none, .ok (grammar "A = 'b'" ⟨2⟩)⟩]
    (∃ cache, Loads LineNotation.parse loads cache) ∧
      ∀ load ∈ loads, ∀ grammar, load.result = .ok grammar →
        ∃ text, load.request.text load.host = .ok text ∧
          grammar.Alike ((Loader.mk LineNotation.parse load.host).compileText text "" .full .new).1 := by
  intro host options grammar loads
  have first : (Loader.mk LineNotation.parse (host "A = 'a'" (-5))).load
        (.path ⟨"/g/./a"⟩ options) .new =
      (.ok (grammar "A = 'a'" .first),
        ⟨⟨[(.file ⟨"/g/a"⟩ 0 .full, grammar "A = 'a'" .first)]⟩, ⟨2⟩⟩) := by
    dsimp only [host, options, grammar]
    rfl
  have second : (Loader.mk LineNotation.parse (host "A = 'a'" (-5))).load
        (.source "a" options none)
        ⟨⟨[(.file ⟨"/g/a"⟩ 0 .full, grammar "A = 'a'" .first)]⟩, ⟨2⟩⟩ =
      (.ok (grammar "A = 'a'" .first),
        ⟨⟨[(.file ⟨"/g/a"⟩ 0 .full, grammar "A = 'a'" .first)]⟩, ⟨2⟩⟩) := by
    dsimp only [host, options, grammar]
    rfl
  have third : (Loader.mk LineNotation.parse (host "A = 'b'" 3)).load
        (.source "a" options none)
        ⟨⟨[(.file ⟨"/g/a"⟩ 0 .full, grammar "A = 'a'" .first)]⟩, ⟨2⟩⟩ =
      (.ok (grammar "A = 'b'" ⟨2⟩),
        ⟨⟨[(.file ⟨"/g/a"⟩ 0 .full, grammar "A = 'a'" .first),
          (.file ⟨"/g/a"⟩ 3 .full, grammar "A = 'b'" ⟨2⟩)]⟩, ⟨3⟩⟩) := by
    dsimp only [host, options, grammar]
    rfl
  have run := ((Loads.start.load first).load second).load third
  have only : ∀ text modified path file, (host text modified).file? path = some file →
      file = ⟨.bytes text.toUTF8, modified⟩ := by
    intro text modified path file found
    obtain ⟨location, member⟩ := Host.mem_entries_of_file? found
    exact (show location = ["g", "a"] ∧ file = _ by simpa [host] using member).2
  have encodings : ∀ load ∈ loads, load.request.options.encoding = .utf8 := by
    simp [loads, options, Request.options]
  have either : ∀ host' ∈ loads.map Load.host,
      host' = host "A = 'a'" (-5) ∨ host' = host "A = 'b'" 3 := by
    simp [loads]
  have grounded : ∀ load ∈ loads, load.host.Grounded := by
    have old : (host "A = 'a'" (-5)).Grounded := by
      dsimp only [host]
      exact fun _ => ⟨by decide, by rfl⟩
    have new : (host "A = 'b'" 3).Grounded := by
      dsimp only [host]
      exact fun _ => ⟨by decide, by rfl⟩
    intro load member
    rcases either load.host (List.mem_map_of_mem member) with eq | eq
    · exact eq ▸ old
    · exact eq ▸ new
  have stable : Stable (loads.map Load.host) := by
    intro host' member host'' member' path path' file file' _ _ _ entry entry' times
    rcases either host' member with rfl | rfl
    · rcases either host'' member' with rfl | rfl
      · rw [only _ _ _ _ entry, only _ _ _ _ entry']
      · rw [only _ _ _ _ entry, only _ _ _ _ entry'] at times
        cases times
    · rcases either host'' member' with rfl | rfl
      · rw [only _ _ _ _ entry, only _ _ _ _ entry'] at times
        cases times
      · rw [only _ _ _ _ entry, only _ _ _ _ entry']
  refine ⟨⟨_, run⟩, fun load member grammar ok => ?_⟩
  obtain ⟨text, asked, alike⟩ := run.transparent encodings grounded stable load member grammar ok
  have full : ∀ load ∈ loads, load.request.options.mode = .full := by
    simp [loads, options, Request.options]
  exact ⟨text, asked, full load member ▸ alike load.host "" .new⟩

end Peg
