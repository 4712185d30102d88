/-!
# Encodings of grammar files

* `Encoding.ofLabel?`: the encoding that a label names.
* `Encoding.decode?`: the text of a file's bytes.
-/

namespace Peg

/-- How a grammar file is encoded. -/
inductive Encoding where
  /-- UTF-8, without the byte-order mark that may begin the file. -/
  | utf8Sig
  /-- UTF-8, with a byte-order mark kept as text. -/
  | utf8
deriving DecidableEq, Repr

namespace Encoding

instance : Inhabited Encoding := ⟨.utf8Sig⟩

def labels : Encoding → List String
  | .utf8Sig => ["utf-8-sig", "utf_8_sig", "utf-8_sig"]
  | .utf8 => ["utf-8", "utf8", "utf_8"]

def ofLabel? (label : String) : Option Encoding :=
  [.utf8Sig, .utf8].find? fun encoding => encoding.labels.contains label.toLower

def display : Encoding → String
  | .utf8Sig => "utf-8-sig"
  | .utf8 => "utf-8"

/-- A text without the byte-order mark at its start. -/
def dropMark (text : String) : String :=
  match text.toList with
  | '\ufeff' :: rest => String.ofList rest
  | _ => text

/-- The text that the bytes of a file encode. -/
def decode? (encoding : Encoding) (bytes : ByteArray) : Option String :=
  match encoding with
  | .utf8Sig => (String.fromUTF8? bytes).map dropMark
  | .utf8 => String.fromUTF8? bytes

end Encoding

end Peg
