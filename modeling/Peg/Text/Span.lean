/-!
# Spans of text

A `Span` is a half-open interval of byte offsets into a UTF-8 text.
-/

namespace Peg.Text

/-- The bytes from `start` up to, and not including, `stop`. -/
structure Span where
  start : Nat
  stop : Nat
deriving DecidableEq, Repr

/-- The span that `text` covers when it begins at `offset`. -/
def Span.ofText (offset : Nat) (text : String) : Span :=
  ⟨offset, offset + text.utf8ByteSize⟩

end Peg.Text
