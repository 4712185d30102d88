import Peg.Text.Span
import Peg.Tree.Kind

/-!
# Source trees

A grammar's source is a tree that keeps every character: tokens carry the text, nodes group them.

* `Tree`: the tree as it is built, without positions.
* `Placed`: the same tree with the span of every token and node.
* `Tree.place`: lays a tree out from a given offset.
* `Parse`: a tree with the faults found while it was read.
-/

namespace Peg

open Text (Span)

/-- A source tree without positions. -/
inductive Tree where
  | node (kind : Kind) (children : List Tree)
  | token (kind : Kind) (text : String)
deriving Repr

/-- A token with its position. -/
structure Token where
  kind : Kind
  span : Span
  text : String
deriving DecidableEq, Repr

/-- A source tree with positions. -/
inductive Placed where
  | node (kind : Kind) (span : Span) (children : List Placed)
  | token (token : Token)
deriving Repr

namespace Tree

mutual

/-- The text of a tree: that of its tokens, in order. -/
def text : Tree → String
  | .node _ children => textOfAll children
  | .token _ text => text

/-- The text of a list of trees. -/
def textOfAll : List Tree → String
  | [] => ""
  | tree :: trees => text tree ++ textOfAll trees

end

mutual

/-- The length of a tree's text in bytes. -/
def byteSize : Tree → Nat
  | .node _ children => byteSizeOfAll children
  | .token _ text => text.utf8ByteSize

/-- The length of the text of a list of trees in bytes. -/
def byteSizeOfAll : List Tree → Nat
  | [] => 0
  | tree :: trees => byteSize tree + byteSizeOfAll trees

end

mutual

/-- The length of a tree's text, put together from its tokens. -/
theorem utf8ByteSize_text : (tree : Tree) → tree.text.utf8ByteSize = tree.byteSize
  | .node _ children => by
    rw [text, byteSize]
    exact utf8ByteSize_textOfAll children
  | .token _ text => rfl

/-- The length of the text of a list of trees, put together from their tokens. -/
theorem utf8ByteSize_textOfAll :
    (trees : List Tree) → (textOfAll trees).utf8ByteSize = byteSizeOfAll trees
  | [] => rfl
  | tree :: trees => by
    rw [textOfAll, byteSizeOfAll, String.utf8ByteSize_append, utf8ByteSize_text,
      utf8ByteSize_textOfAll]

end

mutual

/-- The tree with positions, its text beginning at `offset`. -/
def place (offset : Nat) : Tree → Placed
  | .node kind children =>
    .node kind ⟨offset, offset + byteSizeOfAll children⟩ (placeAll offset children)
  | .token kind text => .token ⟨kind, Span.ofText offset text, text⟩

/-- A list of trees with positions, one after the other from `offset`. -/
def placeAll (offset : Nat) : List Tree → List Placed
  | [] => []
  | tree :: trees => place offset tree :: placeAll (offset + byteSize tree) trees

end

end Tree

/-- A fault found while a source was read. -/
structure Fault where
  message : String
  span : Span
deriving DecidableEq, Repr

/-- A source that has been read: the root node of its tree and the faults, in the order in which they
were found. -/
structure Parse where
  kind : Kind
  children : List Tree
  faults : List Fault
deriving Repr

namespace Parse

/-- The tree of the source. -/
def tree (parse : Parse) : Tree :=
  .node parse.kind parse.children

/-- The tree of the source with positions. -/
def root (parse : Parse) : Placed :=
  parse.tree.place 0

/-- No fault was found. -/
def isOk (parse : Parse) : Bool :=
  parse.faults.isEmpty

/-- The tree with positions, if its root stands for a whole source. -/
def source? (parse : Parse) : Option Placed :=
  if parse.kind = .source then some parse.root else none

end Parse

end Peg
