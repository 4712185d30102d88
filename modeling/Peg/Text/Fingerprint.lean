/-!
# Fingerprints of texts

A 64-bit multiplicative hash of the UTF-8 bytes of a text. Its only use is to show a short name for
a text; nothing identifies two texts because their fingerprints agree.

* `fingerprint`: the hash of a text.
* `hex16`: a word in sixteen lower-case hexadecimal digits.
-/

namespace Peg.Text.Fingerprint

/-- The two lanes that a run of bytes is mixed into. -/
structure Lanes where
  first : UInt64
  second : UInt64

/-- The lanes before any byte: digits of the fraction of pi. -/
def Lanes.seed : Lanes := ⟨0x243f6a8885a308d3, 0x13198a2e03707344⟩

/-- The word that is combined with every block, against runs of zeros. -/
def blockSalt : UInt64 := 0xa4093822299f31d0

/-- The odd multiplier between two inputs of the hash. -/
def multiplier : UInt64 := 0xf1357aea2e62a9c5

/-- The two halves of the 128-bit product, combined. -/
def mix (x y : UInt64) : UInt64 :=
  let product := x.toNat * y.toNat
  product.toUInt64 ^^^ (product >>> 64).toUInt64

/-- The little-endian word of a run of at most eight bytes. -/
def littleEndian (bytes : List UInt8) : UInt64 :=
  bytes.foldr (fun byte word => word * 256 + byte.toUInt64) 0

def firstWord (count : Nat) (bytes : List UInt8) : UInt64 :=
  littleEndian (bytes.take count)

def lastWord (count : Nat) (bytes : List UInt8) : UInt64 :=
  littleEndian (bytes.drop (bytes.length - count))

/-- Mixes blocks of sixteen bytes into the lanes while more than sixteen bytes remain. -/
def mixBlocks (lanes : Lanes) (bytes : List UInt8) : Lanes :=
  if 16 < bytes.length then
    let mixed := mix (lanes.first ^^^ firstWord 8 bytes)
      (blockSalt ^^^ firstWord 8 (bytes.drop 8))
    mixBlocks ⟨lanes.second, mixed⟩ (bytes.drop 16)
  else lanes
termination_by bytes.length
decreasing_by simp; omega

/-- The lanes after all bytes: long runs go by blocks and their last sixteen bytes, short ones by
their overlapping ends. -/
def absorb (bytes : List UInt8) : Lanes :=
  let count := bytes.length
  let tail (lanes : Lanes) (first second : UInt64) : Lanes :=
    ⟨lanes.first ^^^ first, lanes.second ^^^ second⟩
  if 16 < count then
    tail (mixBlocks .seed bytes) (firstWord 8 (bytes.drop (count - 16))) (lastWord 8 bytes)
  else if 8 ≤ count then tail .seed (firstWord 8 bytes) (lastWord 8 bytes)
  else if 4 ≤ count then tail .seed (firstWord 4 bytes) (lastWord 4 bytes)
  else if 0 < count then
    tail .seed (firstWord 1 bytes)
      (lastWord 1 bytes * 256 + firstWord 1 (bytes.drop (count / 2)))
  else .seed

def digest (bytes : List UInt8) : UInt64 :=
  let lanes := absorb bytes
  mix lanes.first lanes.second ^^^ bytes.length.toUInt64

/-- The word turned left by `count` bits. -/
def rotateLeft (word : UInt64) (count : UInt64) : UInt64 :=
  (word <<< count) ||| (word >>> (64 - count))

/-- The fingerprint of a text: its digest, then the byte `0xff` that ends every text. -/
def fingerprint (text : String) : UInt64 :=
  let body := digest text.toUTF8.toList * multiplier
  rotateLeft ((body + 0xff) * multiplier) 26

def hex16 (word : UInt64) : String :=
  let digits := Nat.toDigits 16 word.toNat
  String.ofList (List.replicate (16 - digits.length) '0' ++ digits)

end Peg.Text.Fingerprint
