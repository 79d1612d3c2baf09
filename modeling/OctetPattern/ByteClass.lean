import OctetPattern.Pattern

/-!
# Escapes

What a letter after a backslash stands for: a byte of its own, or a
class of bytes. The capital letter of a class stands for the bytes
outside it, so the letters of a class and of its complement differ in
case alone.
-/

namespace OctetPattern

/-! ## Byte classes -/

/-- The bytes that a class is named after. -/
inductive ByteRange where
  | digit
  | word
  | whitespace
  | lower
  | upper
  | ascii
  deriving DecidableEq, Repr

/-- A class of bytes, or its complement. -/
structure ByteClass where
  base : ByteRange
  negated : Bool
  deriving DecidableEq, Repr

namespace ByteClass

def negate (c : ByteClass) : ByteClass :=
  ⟨c.base, !c.negated⟩

/-- A class as a pattern. A complement is the same pattern inverted. -/
def pattern : ByteClass → Pattern
  | ⟨.digit, negated⟩ => .range 0x30 0x39 negated
  | ⟨.word, negated⟩ =>
    .set [.range 0x30 0x39 false, .range 0x41 0x5a false, .ofByte 0x5f,
      .range 0x61 0x7a false] negated
  | ⟨.whitespace, negated⟩ => .set [.range 0x09 0x0d false, .ofByte 0x20] negated
  | ⟨.lower, negated⟩ => .range 0x61 0x7a negated
  | ⟨.upper, negated⟩ => .range 0x41 0x5a negated
  | ⟨.ascii, negated⟩ => .range 0x00 0x7f negated

theorem negate_negate (c : ByteClass) : c.negate.negate = c := by
  simp [negate]

theorem isInverted_pattern (c : ByteClass) : c.pattern.isInverted = c.negated := by
  rcases c with ⟨base, negated⟩
  cases base <;> rfl

end ByteClass

/-! ## Letters -/

/-- What a letter after a backslash stands for. -/
inductive Escape where
  | byte (value : UInt8)
  | byteClass (c : ByteClass)
  deriving DecidableEq, Repr

namespace Escape

def letters : List (Char × Escape) :=
  [('0', byte 0x00), ('t', byte 0x09), ('n', byte 0x0a), ('v', byte 0x0b),
   ('f', byte 0x0c), ('r', byte 0x0d), ('e', byte 0x1b),
   ('d', byteClass ⟨.digit, false⟩), ('D', byteClass ⟨.digit, true⟩),
   ('w', byteClass ⟨.word, false⟩), ('W', byteClass ⟨.word, true⟩),
   ('s', byteClass ⟨.whitespace, false⟩), ('S', byteClass ⟨.whitespace, true⟩),
   ('l', byteClass ⟨.lower, false⟩), ('L', byteClass ⟨.lower, true⟩),
   ('u', byteClass ⟨.upper, false⟩), ('U', byteClass ⟨.upper, true⟩),
   ('i', byteClass ⟨.ascii, false⟩), ('I', byteClass ⟨.ascii, true⟩)]

def ofLetter? (letter : Char) : Option Escape :=
  letters.lookup letter

/-- An escape as a pattern, inverted if asked for. -/
def pattern : Escape → Bool → Pattern
  | byte value, inverted => .byte value inverted
  | byteClass c, inverted => (if inverted then c.negate else c).pattern

end Escape
end OctetPattern
