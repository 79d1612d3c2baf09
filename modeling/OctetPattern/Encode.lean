import OctetPattern.Charset

/-!
# Encoding a text

Each charset encodes character by character, so a text is encodable
exactly when all its characters are, and the bytes of two texts written
one after the other are the bytes of each in turn.

* `Charset.encodeChar?` gives the bytes of one character.
* `Charset.encode?` gives the bytes of a text.
-/

namespace OctetPattern

/-! ## Single-byte charsets -/

/-- The characters that windows-1252 puts between 0x80 and 0x9f. The
bytes 81, 8d, 8f, 90 and 9d are assigned to none. -/
def windows1252High : List (Char × UInt8) :=
  [('\u20ac', 0x80), ('\u201a', 0x82), ('\u0192', 0x83),
   ('\u201e', 0x84), ('\u2026', 0x85), ('\u2020', 0x86),
   ('\u2021', 0x87), ('\u02c6', 0x88), ('\u2030', 0x89),
   ('\u0160', 0x8a), ('\u2039', 0x8b), ('\u0152', 0x8c),
   ('\u017d', 0x8e), ('\u2018', 0x91), ('\u2019', 0x92),
   ('\u201c', 0x93), ('\u201d', 0x94), ('\u2022', 0x95),
   ('\u2013', 0x96), ('\u2014', 0x97), ('\u02dc', 0x98),
   ('\u2122', 0x99), ('\u0161', 0x9a), ('\u203a', 0x9b),
   ('\u0153', 0x9c), ('\u017e', 0x9e), ('\u0178', 0x9f)]

/-- The one byte of a character whose code point is below `limit`. -/
def byteBelow (limit : Nat) (c : Char) : Option UInt8 :=
  if c.toNat < limit then some c.toNat.toUInt8 else none

/-- The byte of a character in windows-1252, which agrees with latin-1
outside 0x80 to 0x9f. -/
def windows1252Byte (c : Char) : Option UInt8 :=
  if c.toNat < 0x80 ∨ (0xa0 ≤ c.toNat ∧ c.toNat < 0x100) then some c.toNat.toUInt8
  else windows1252High.lookup c

/-! ## Sixteen-bit units -/

/-- A character as sixteen-bit units: one, or the two surrogates of a
character beyond the basic plane. -/
def utf16Units (c : Char) : List UInt16 :=
  if c.toNat < 0x10000 then [c.toNat.toUInt16]
  else
    let offset := c.toNat - 0x10000
    [(0xd800 + offset / 0x400).toUInt16, (0xdc00 + offset % 0x400).toUInt16]

/-- The two bytes of a unit, the more significant one first. -/
def highFirst (unit : UInt16) : List UInt8 :=
  [(unit >>> 8).toUInt8, unit.toUInt8]

/-- The two bytes of a unit, the less significant one first. -/
def lowFirst (unit : UInt16) : List UInt8 :=
  [unit.toUInt8, (unit >>> 8).toUInt8]

/-! ## Texts -/

namespace Charset

/-- The bytes of one character, if the charset has it. -/
def encodeChar? : Charset → Char → Option (List UInt8)
  | latin1, c => (byteBelow 0x100 c).map fun b => [b]
  | ascii, c => (byteBelow 0x80 c).map fun b => [b]
  | windows1252, c => (windows1252Byte c).map fun b => [b]
  | utf8, c => some (String.utf8EncodeChar c)
  | utf16be, c => some ((utf16Units c).flatMap highFirst)
  | utf16le, c => some ((utf16Units c).flatMap lowFirst)

/-- The bytes of a text, if the charset has all its characters. -/
def encode? (charset : Charset) : List Char → Option (List UInt8)
  | [] => some []
  | c :: text => do
    let first ← charset.encodeChar? c
    let others ← charset.encode? text
    return first ++ others

end Charset
end OctetPattern
