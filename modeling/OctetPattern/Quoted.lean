import OctetPattern.Hidden

/-!
# Quoted text

Messages and listings show characters and texts in quotes. A quoted
form names every hidden character by its code point, so that a reader
of a message can tell a no-break space from a zero-width joiner.

* `quotedChar` puts one character between single quotes.
* `quotedText` puts a text between double quotes.

The two differ in one point only: each escapes its own quote and
leaves the other alone.
-/

namespace OctetPattern

/-! ## Escapes -/

/-- A code point in lower-case hexadecimal, without leading zeros. -/
def codePointEscape (c : Char) : List Char :=
  ['\\', 'u', '{'] ++ Nat.toDigits 16 c.toNat ++ ['}']

/-- How one character stands between two copies of `quote`. -/
def escapedChar (quote c : Char) : List Char :=
  if c = '\x00' then ['\\', '0']
  else if c = '\t' then ['\\', 't']
  else if c = '\n' then ['\\', 'n']
  else if c = '\r' then ['\\', 'r']
  else if c = '\\' ∨ c = quote then ['\\', c]
  else if isHidden c then codePointEscape c
  else [c]

def quotedChar (c : Char) : String :=
  String.ofList ('\x27' :: escapedChar '\x27' c ++ ['\x27'])

def quotedText (text : List Char) : String :=
  String.ofList ('\x22' :: text.flatMap (escapedChar '\x22') ++ ['\x22'])

end OctetPattern
