/-!
# Blanks

The white space of Unicode, and texts without it at either end. Names
of charsets are read through `trimmed`, so a directive may be laid out
freely.
-/

namespace OctetPattern

/-- The character stands in one of the blocks, which are closed intervals
of code points. -/
def isAmong (blocks : List (Nat × Nat)) (c : Char) : Bool :=
  blocks.any fun block => block.1 ≤ c.toNat && c.toNat ≤ block.2

/-- Code points with the property `White_Space`. -/
def blankBlocks : List (Nat × Nat) :=
  [(0x0009, 0x000d), (0x0020, 0x0020), (0x0085, 0x0085), (0x00a0, 0x00a0),
   (0x1680, 0x1680), (0x2000, 0x200a), (0x2028, 0x2029), (0x202f, 0x202f),
   (0x205f, 0x205f), (0x3000, 0x3000)]

/-- White space in the sense of Unicode; the ASCII notion is narrower. -/
def isBlank (c : Char) : Bool :=
  isAmong blankBlocks c

/-- The text without the blanks at its two ends. -/
def trimmed (text : List Char) : List Char :=
  ((text.dropWhile isBlank).reverse.dropWhile isBlank).reverse

/-- Every blank of ASCII is a blank of Unicode. -/
theorem isBlank_of_isWhitespace {c : Char} (h : c.isWhitespace = true) :
    isBlank c = true := by
  simp only [Char.isWhitespace, Bool.or_eq_true, decide_eq_true_eq] at h
  rcases h with ((rfl | rfl) | rfl) | rfl <;> decide

end OctetPattern
