import Peg.Load.SearchPath
import Peg.Text.Fingerprint

/-!
# Keeping what was loaded

A cache keeps what was built under a key and never drops it. A key is built for at most once.

* `Key`: what identifies a source: a file at a time, or a text, in one mode.
* `Cache.request`, `Cache.settle`: what a request yields, and what it leaves behind.
* `Cache.fetch`: both together.
-/

namespace Peg

/-- The identity of a source in a cache. -/
inductive Key where
  /-- A file as of its last change. -/
  | file (path : Path) (stamp : Nat) (mode : Mode)
  | inline (text : String) (mode : Mode)
deriving Repr

namespace Key

def ofFound (found : Found) (mode : Mode) : Key :=
  .file found.path found.stamp mode

/-- The mode in which the source is compiled. -/
def mode : Key → Mode
  | .file _ _ mode => mode
  | .inline _ mode => mode

/-- Two keys identify the same source: paths are compared step by step, texts in full. -/
def same : Key → Key → Bool
  | .file path stamp mode, .file path' stamp' mode' =>
    path.components == path'.components && stamp == stamp' && mode == mode'
  | .inline text mode, .inline text' mode' => text == text' && mode == mode'
  | _, _ => false

instance : BEq Key := ⟨same⟩

def displaySource : Key → String
  | .file path stamp _ => path.text ++ ":" ++ Nat.repr stamp
  | .inline text _ => Text.Fingerprint.hex16 (Text.Fingerprint.fingerprint text) ++ ":0"

def display (key : Key) : String :=
  match key.mode with
  | .full => key.displaySource
  | .pure => key.displaySource ++ ":pure"

end Key

/-- What was built, under its keys. -/
structure Cache (α : Type) where
  entries : List (Key × α)

/-- What a request to a cache yields. -/
inductive Outcome (ε α : Type) where
  | hit (value : α)
  /-- The value was built for this request. -/
  | built (value : α)
  | failed (error : ε)
deriving Repr

/-- The value of an outcome, or why there is none. -/
def Outcome.result {ε α : Type} : Outcome ε α → Except ε α
  | .hit value => .ok value
  | .built value => .ok value
  | .failed error => .error error

namespace Cache

variable {α ε : Type}

def empty : Cache α := ⟨[]⟩

def get? (cache : Cache α) (key : Key) : Option α :=
  cache.entries.lookup key

def contains (cache : Cache α) (key : Key) : Bool :=
  (cache.get? key).isSome

/-- How many keys something is kept under. -/
def size (cache : Cache α) : Nat :=
  cache.entries.length

/-- What a request yields: what is kept under the key, or else what is built for it. -/
def request (cache : Cache α) (key : Key) (build : Unit → Except ε α) : Outcome ε α :=
  match cache.get? key with
  | some value => .hit value
  | none =>
    match build () with
    | .ok value => .built value
    | .error error => .failed error

/-- The cache after a request with a given outcome: only what was built is added. -/
def settle (cache : Cache α) (key : Key) : Outcome ε α → Cache α
  | .built value => ⟨cache.entries ++ [(key, value)]⟩
  | .hit _ | .failed _ => cache

/-- A request, with the cache that it leaves behind. -/
def fetch (cache : Cache α) (key : Key) (build : Unit → Except ε α) : Outcome ε α × Cache α :=
  let outcome := cache.request key build
  (outcome, cache.settle key outcome)

end Cache

end Peg
