/-!
# Masked bytes

A byte of which only some bits are fixed: the bits of `mask` must agree
with those of `value`. Two spellings exist. Two hexadecimal digits, of
which `_` leaves its four bits open, and eight binary digits, of which
`_` leaves its one bit open. This file holds the digits of both and how
they add up; `ByteReading` reads them and `Render` writes them.
-/

namespace OctetPattern

/-- A value and the bits of it that count. -/
structure MaskedByte where
  value : UInt8
  mask : UInt8
  deriving DecidableEq, Repr

/-- The digit that leaves its bits open. -/
def wildcard : Char := '_'

/-! ## Hexadecimal digits -/

/-- The value of a hexadecimal digit in either case. -/
def hexValue? (c : Char) : Option UInt8 :=
  if '0' ≤ c ∧ c ≤ '9' then some (c.toNat - '0'.toNat).toUInt8
  else if 'a' ≤ c ∧ c ≤ 'f' then some (c.toNat - 'a'.toNat + 10).toUInt8
  else if 'A' ≤ c ∧ c ≤ 'F' then some (c.toNat - 'A'.toNat + 10).toUInt8
  else none

/-- A character that may stand in the hexadecimal spelling of a byte. -/
def startsByte (c : Char) : Bool :=
  (hexValue? c).isSome || c = wildcard

/-- The lower-case digit of a nibble. -/
def hexDigit (nibble : UInt8) : Char :=
  Nat.digitChar (nibble.toNat % 16)

def hexPair (b : UInt8) : List Char :=
  [hexDigit (b >>> 4), hexDigit b]

/-! ## Binary digits -/

/-- A character that may stand in the binary spelling of a byte. -/
def isBinaryDigit (c : Char) : Bool :=
  c = '0' || c = '1' || c = wildcard

namespace MaskedByte

/-- No bit is left open, and all are zero. -/
def zero : MaskedByte := ⟨0, 0xff⟩

def free : MaskedByte := ⟨0, 0⟩

def isWild (b : MaskedByte) : Bool :=
  b.mask != 0xff

/-! ## From digits -/

/-- Four bits, fixed by a hexadecimal digit and free under a wildcard. -/
def ofNibble (c : Char) : MaskedByte :=
  match hexValue? c with
  | some v => ⟨v, 0x0f⟩
  | none => free

/-- Eight bits from two digits, the more significant one first. -/
def ofHexPair (high low : Char) : MaskedByte :=
  let h := ofNibble high
  let l := ofNibble low
  ⟨h.value <<< 4 ||| l.value, h.mask <<< 4 ||| l.mask⟩

/-- The byte with one more bit fixed by a binary digit, the bit of weight
`2 ^ index`; a wildcard leaves it open. -/
def withBit (b : MaskedByte) (index : Nat) (digit : Char) : MaskedByte :=
  let bit : UInt8 := 1 <<< index.toUInt8
  if digit = '1' then ⟨b.value ||| bit, b.mask ||| bit⟩
  else if digit = '0' then ⟨b.value, b.mask ||| bit⟩
  else b

/-! ## To digits -/

/-- Each nibble is fixed as a whole or free as a whole. -/
def isNibbleAligned (b : MaskedByte) : Bool :=
  [b.mask >>> 4, b.mask &&& 0x0f].all fun nibble => nibble == 0 || nibble == 0x0f

/-- The hexadecimal digit of the nibble that starts at bit `shift`. -/
def nibbleDigit (b : MaskedByte) (shift : UInt8) : Char :=
  if (b.mask >>> shift) &&& 0x0f = 0 then wildcard else hexDigit (b.value >>> shift)

/-- The binary digit of the bit of weight `2 ^ index`. -/
def bitDigit (b : MaskedByte) (index : Nat) : Char :=
  let bit : UInt8 := 1 <<< index.toUInt8
  if b.mask &&& bit = 0 then wildcard
  else if b.value &&& bit = 0 then '0'
  else '1'

/-- The shorter spelling that keeps the mask: two hexadecimal digits if
no nibble is split, else `0i` and eight binary digits. -/
def digits (b : MaskedByte) : List Char :=
  if b.isNibbleAligned then [b.nibbleDigit 4, b.nibbleDigit 0]
  else '0' :: 'i' :: [7, 6, 5, 4, 3, 2, 1, 0].map b.bitDigit

end MaskedByte
end OctetPattern
