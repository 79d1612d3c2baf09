import OctetPattern.Blank

/-!
# Charsets

The encodings that a directive can select, and their names. A name is
looked up without regard to the case of ASCII letters or to blanks
around it; `Charset.name` gives the one spelling used in messages.
-/

namespace OctetPattern

/-- An encoding that turns a text into the bytes a pattern matches. -/
inductive Charset where
  /-- One byte per character, code points 0 to 255. -/
  | latin1
  /-- One byte per character, code points 0 to 127. -/
  | ascii
  /-- Like `latin1`, with printable characters in most of 0x80 to 0x9f. -/
  | windows1252
  | utf8
  /-- Sixteen-bit units, the high byte first. -/
  | utf16be
  /-- Sixteen-bit units, the low byte first. -/
  | utf16le
  deriving DecidableEq, Repr

namespace Charset

def name : Charset → String
  | latin1 => "ISO-8859-1"
  | ascii => "US-ASCII"
  | windows1252 => "windows-1252"
  | utf8 => "UTF-8"
  | utf16be => "UTF-16BE"
  | utf16le => "UTF-16LE"

/-- Every accepted name, in lower case. -/
def aliases : List (String × Charset) :=
  [("iso-8859-1", latin1), ("iso8859-1", latin1), ("latin1", latin1),
   ("latin-1", latin1),
   ("us-ascii", ascii), ("ascii", ascii),
   ("windows-1252", windows1252), ("cp1252", windows1252),
   ("utf-8", utf8), ("utf8", utf8),
   ("utf-16be", utf16be), ("utf16be", utf16be),
   ("utf-16le", utf16le), ("utf16le", utf16le)]

/-- The charset of a name, with blanks around it and the case of its
ASCII letters ignored. -/
def ofName? (text : List Char) : Option Charset :=
  aliases.lookup (String.ofList ((trimmed text).map Char.toLower))

/-- The shown name is an accepted one. -/
theorem ofName?_name (charset : Charset) :
    ofName? charset.name.toList = some charset := by
  cases charset <;> decide +kernel

end Charset
end OctetPattern
