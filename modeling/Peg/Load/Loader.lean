import Peg.Load.Cache
import Peg.Registry

/-!
# Loading grammars

A load takes grammar text or the name of a file and yields a compiled grammar. What was compiled once
is shared through a cache; every compilation gets an identity of its own.

* `Loader.loadFrom`, `Loader.loadPath`: load by text or name, and by path without a search.
* `Loader.compileText`: compile a text without the cache.
-/

namespace Peg

/-- What a load consults: how a text is read, and where files are. -/
structure Loader where
  read : String → Parse
  host : Host

/-- What loads share and change: the grammars compiled so far and the identity of the next one. -/
structure Store where
  cache : Cache Grammar
  supply : GrammarId

/-- The identity that the first grammar gets. -/
def GrammarId.first : GrammarId := ⟨1⟩

/-- The store before any load. -/
def Store.new : Store := ⟨.empty, .first⟩

/-- A request to the cache of a store; a grammar that is built takes the next identity. -/
def Store.fetch (store : Store) (key : Key) (build : GrammarId → Except LoadError Grammar) :
    Except LoadError Grammar × Store :=
  let (outcome, cache) := store.cache.fetch key fun _ => build store.supply
  let supply :=
    match outcome with
    | .built _ => store.supply.next
    | .hit _ | .failed _ => store.supply
  (outcome.result, ⟨cache, supply⟩)

/-- The name of grammar text for which nothing better is known. -/
def inlineUrn : String := "<inline>"

/-- The name under which grammar text is known: the one that the options give, the base path, the
calling file, in this order. -/
def urnOf (options : Options) (caller : Option Path) : String :=
  options.urn.getD (((options.basepath.or caller).map Path.text).getD inlineUrn)

namespace Loader

/-- The grammar for a text. -/
def grammarOf (loader : Loader) (text urn : String) (mode : Mode) (id : GrammarId) : Grammar :=
  (loader.read text).compile id urn mode

/-- Compiles a text without the cache. -/
def compileText (loader : Loader) (text urn : String) (mode : Mode) (store : Store) :
    Grammar × Store :=
  (loader.grammarOf text urn mode store.supply, { store with supply := store.supply.next })

/-- The text of the file at a path. -/
def readText (host : Host) (path : Path) (encoding : Encoding) : Except LoadError String :=
  match host.file? path with
  | none => .error (.unreadable path "No such file or directory (os error 2)")
  | some file =>
    match file.content with
    | .unreadable cause => .error (.unreadable path cause)
    | .bytes bytes =>
      match encoding.decode? bytes with
      | some text => .ok text
      | none => .error (.undecodable path encoding)

/-- Loads a file that was found. -/
def loadFound (loader : Loader) (found : Found) (options : Options) (store : Store) :
    Except LoadError Grammar × Store :=
  store.fetch (.ofFound found options.mode) fun id =>
    (readText loader.host found.path options.encoding).map fun text =>
      loader.grammarOf text found.path.text options.mode id

/-- Loads grammar text. -/
def loadInline (loader : Loader) (text urn : String) (mode : Mode) (store : Store) :
    Except LoadError Grammar × Store :=
  store.fetch (.inline text mode) fun id => .ok (loader.grammarOf text urn mode id)

/-- Loads the file of a given name from a search path. -/
def loadNamed (loader : Loader) (search : SearchPath) (name : String) (options : Options)
    (store : Store) : Except LoadError Grammar × Store :=
  match search.find loader.host name with
  | .error error => (.error error, store)
  | .ok found => loader.loadFound found options store

/-- Loads grammar text, or a file that is looked up on the search path. -/
def loadFrom (loader : Loader) (source : String) (options : Options) (caller : Option Path)
    (store : Store) : Except LoadError Grammar × Store :=
  if isInlineSource source then
    loader.loadInline source (urnOf options caller) options.mode store
  else loader.loadNamed (.of loader.host options caller) source options store

/-- Loads the file at a path without a search. -/
def loadPath (loader : Loader) (path : Path) (options : Options) (store : Store) :
    Except LoadError Grammar × Store :=
  loader.loadNamed ⟨[path.parent?.getD ⟨""⟩]⟩ (path.fileName?.getD "") options store

end Loader

end Peg
