import OctetPattern.Cursor

/-!
# Reading a masked byte

A byte is spelled in one of three ways: two hexadecimal digits, the
mark `0x` and two hexadecimal digits, or the mark `0i` and eight binary
digits. A wildcard may stand for any digit but those of a mark. The
first character has been read already, since it told that a byte begins.

A reader of bytes keeps them in a register. Only the binary spelling
changes it before it is complete: the register is cleared at the mark
and filled digit by digit, so it shows how far a failed reading came.
-/

namespace OctetPattern

/-- A digit in the given base, or the wildcard. -/
def Radix.allows : Radix → Char → Bool
  | .hexadecimal => startsByte
  | .binary => isBinaryDigit

/-- What reading a byte gives: whether it succeeded, what the register
holds, and the cursor after it. -/
structure ByteReading where
  outcome : Except SyntaxError Unit
  register : MaskedByte
  cursor : Cursor

namespace Cursor

def readDigit (radix : Radix) (c : Cursor) : Reading Char :=
  match c.peek?.filter radix.allows with
  | some digit => (.ok digit, c.skip)
  | none => c.skip.fail (.badDigit radix c.peek?)

/-- The second digit of a byte without a mark. -/
def readSecondDigit (register : MaskedByte) (first : Char) (c : Cursor) : ByteReading :=
  match c.peek?.filter startsByte with
  | some second => ⟨.ok (), .ofHexPair first second, c.skip⟩
  | none => ⟨(c.skip.fail (.splitByte first c.peek?)).1, register, c.skip⟩

def readHexPair (register : MaskedByte) (c : Cursor) : ByteReading :=
  match c.readDigit .hexadecimal with
  | (.error e, after) => ⟨.error e, register, after⟩
  | (.ok high, after) =>
    match after.readDigit .hexadecimal with
    | (.error e, after) => ⟨.error e, register, after⟩
    | (.ok low, after) => ⟨.ok (), .ofHexPair high low, after⟩

/-- The last `n` of the binary digits after `0i`. -/
def readBits : Nat → MaskedByte → Cursor → ByteReading
  | 0, register, c => ⟨.ok (), register, c⟩
  | n + 1, register, c =>
    match c.readDigit .binary with
    | (.error e, after) => ⟨.error e, register, after⟩
    | (.ok digit, after) => readBits n (register.withBit n digit) after

/-- The rest of a byte whose first character has been read. -/
def readByte (register : MaskedByte) (first : Char) (c : Cursor) : ByteReading :=
  if first = '0' ∧ c.peek? = some 'x' then readHexPair register c.skip
  else if first = '0' ∧ c.peek? = some 'i' then readBits 8 .free c.skip
  else readSecondDigit register first c

/-! ## Order of cursors in a text -/

theorem reaches_readDigit (radix : Radix) (c : Cursor) :
    c.Reaches (c.readDigit radix).2 := by
  unfold readDigit
  split <;> exact c.reaches_skip

theorem reaches_readSecondDigit (register : MaskedByte) (first : Char) (c : Cursor) :
    c.Reaches (c.readSecondDigit register first).cursor := by
  unfold readSecondDigit
  split <;> exact c.reaches_skip

theorem reaches_readHexPair (register : MaskedByte) (c : Cursor) :
    c.Reaches (c.readHexPair register).cursor := by
  have hhigh := c.reaches_readDigit .hexadecimal
  unfold readHexPair
  split
  · rename_i heq
    rwa [heq] at hhigh
  · rename_i high after heq
    rw [heq] at hhigh
    have hlow := after.reaches_readDigit .hexadecimal
    split
    · rename_i heq'
      rw [heq'] at hlow
      exact hhigh.trans hlow
    · rename_i heq'
      rw [heq'] at hlow
      exact hhigh.trans hlow

theorem reaches_readBits (n : Nat) (register : MaskedByte) (c : Cursor) :
    c.Reaches (readBits n register c).cursor := by
  induction n generalizing register c with
  | zero => exact Reaches.refl c
  | succ n ih =>
    have hdigit := c.reaches_readDigit .binary
    unfold readBits
    split
    · rename_i heq
      rwa [heq] at hdigit
    · rename_i digit after heq
      rw [heq] at hdigit
      exact hdigit.trans (ih _ after)

theorem reaches_readByte (register : MaskedByte) (first : Char) (c : Cursor) :
    c.Reaches (c.readByte register first).cursor := by
  unfold readByte
  split
  · exact c.reaches_skip.trans (reaches_readHexPair ..)
  · split
    · exact c.reaches_skip.trans (reaches_readBits ..)
    · exact reaches_readSecondDigit ..

end Cursor
end OctetPattern
