import OctetPattern.ByteClass
import OctetPattern.ByteReading

/-!
# Tokens

The smallest parts of a pattern text that mean something. The first
character of a token, sometimes with a look at the one after it, tells
what kind of token it leads (`Lead.of`); `Token.read` reads the rest.
Which tokens are allowed where, and what they do, is not decided here:
a token is read in the same way inside a set, inside a group and
outside both.
-/

namespace OctetPattern

/-- The smallest part of a text that means something. -/
inductive Token where
  | gap
  | bar
  | openGroup
  | closeGroup
  | openSet
  | closeSet
  | caret
  | dash
  | tilde
  | any
  /-- The charsets of the strings to come. -/
  | directive (charsets : List Charset)
  | quantifier (quantifier : Quantifier)
  | quoted (casing : Casing) (text : List Char)
  | escape (escape : Escape)
  | byte (bits : MaskedByte)
  /-- A character that leads no token. -/
  | other (c : Char)
  deriving DecidableEq, Repr

/-- What the first character of a token tells. -/
inductive Lead where
  /-- The character is the whole token. -/
  | whole (token : Token)
  | comment
  | directive
  | repetition
  | quote (casing : Casing)
  | backslash
  | digit
  deriving DecidableEq, Repr

/-- What a character leads, given the one after it. -/
def Lead.of (c : Char) (next : Option Char) : Lead :=
  match c with
  | ' ' | '\t' | '\r' | '\n' => .whole .gap
  | '#' => .comment
  | '|' => .whole .bar
  | '(' => if next = some '*' then .directive else .whole .openGroup
  | ')' => .whole .closeGroup
  | '[' => .whole .openSet
  | ']' => .whole .closeSet
  | '^' => .whole .caret
  | '-' => .whole .dash
  | '~' => .whole .tilde
  | '.' => .whole .any
  | '?' => .whole (.quantifier .optional)
  | '*' => .whole (.quantifier .zeroToMany)
  | '+' => .whole (.quantifier .oneToMany)
  | '{' => .repetition
  | '\x27' => .quote .exact
  | '\x60' => .quote .folded
  | '\\' => .backslash
  | c => if startsByte c then .digit else .whole (.other c)

def Reading.map (f : α → β) (r : Reading α) : Reading β :=
  (r.1.map f, r.2)

/-! ## Directives -/

def charsetNamed (name : List Char) : Except Cause Charset :=
  match Charset.ofName? name with
  | some charset => .ok charset
  | none => .error (.unknownCharset (trimmed name))

/-- The charsets of a list of names between commas. One that is named
again is dropped. -/
def charsetsNamed (names : List Char) : Except Cause (List Charset) :=
  ((names.splitOn ',').mapM charsetNamed).map List.eraseDups

namespace Cursor

/-- The rest of a directive, from its asterisk on. -/
def readDirective (c : Cursor) : Reading (List Charset) :=
  match c.skip.readUntil ')' with
  | (none, after) => after.fail .unclosedDirective
  | (some names, after) => (placed after.position (charsetsNamed names), after)

/-! ## Repetitions -/

/-- The brace that closes a repetition. -/
def readRepetitionEnd (quantifier : Quantifier) (c : Cursor) : Reading Quantifier :=
  if c.peek? = some '}' then (.ok quantifier, c.skip) else c.skip.fail .malformedRepeat

/-- The rest of a repetition from its comma on. -/
def readUpperBound (min : UInt32) (c : Cursor) : Reading Quantifier :=
  if c.peek? = some '*' then c.skip.readRepetitionEnd (.atLeast min)
  else if c.peek?.any Char.isDigit then
    match c.readNumber with
    | (.error e, after) => (.error e, after)
    | (.ok max, after) => after.readRepetitionEnd (.between min max)
  else c.fail .malformedRepeat

/-- The rest of a repetition after its first number. -/
def readBounds (min : UInt32) (c : Cursor) : Reading Quantifier :=
  if c.peek? = some '}' then
    if min = 0 then c.skip.fail .zeroRepeat else (.ok (.exactly min), c.skip)
  else if c.peek? = some ',' then c.skip.readUpperBound min
  else c.skip.fail .malformedRepeat

/-- The rest of a repetition after its opening brace. -/
def readRepetition (c : Cursor) : Reading Quantifier :=
  match c.readNumber with
  | (.error e, after) => (.error e, after)
  | (.ok min, after) => after.readBounds min

/-! ## Strings and escapes -/

/-- The rest of a string after its opening quote. -/
def readQuoted (casing : Casing) (c : Cursor) : Reading (List Char) :=
  match c.readUntil casing.quote with
  | (none, after) => after.fail (.unclosedString casing)
  | (some [], after) => after.fail .emptyString
  | (some text, after) => (.ok text, after)

def readEscape (c : Cursor) : Reading Escape :=
  match c.peek? with
  | none => c.fail .unfinishedEscape
  | some letter =>
    match Escape.ofLetter? letter with
    | none => c.skip.fail (.unknownEscape letter)
    | some escape => (.ok escape, c.skip)

/-- The rest of a byte. -/
def readMasked (first : Char) (c : Cursor) : Reading MaskedByte :=
  let reading := c.readByte .zero first
  (reading.outcome.map fun _ => reading.register, reading.cursor)

end Cursor

/-- The rest of the token that `first` leads, from the cursor after it. -/
def Token.read (first : Char) : Lead → Cursor → Reading Token
  | .whole token, c => (.ok token, c)
  | .comment, c => (.ok .gap, c.skipLine)
  | .directive, c => c.readDirective.map .directive
  | .repetition, c => c.readRepetition.map .quantifier
  | .quote casing, c => (c.readQuoted casing).map (.quoted casing)
  | .backslash, c => c.readEscape.map .escape
  | .digit, c => (c.readMasked first).map .byte

/-! ## Order of cursors in a text -/

namespace Cursor

theorem reaches_readDirective (c : Cursor) : c.Reaches c.readDirective.2 := by
  have hnames := c.reaches_skip.trans (reaches_readUntil ')' c.skip)
  unfold readDirective
  split
  · rename_i heq
    rwa [heq] at hnames
  · rename_i heq
    rwa [heq] at hnames

theorem reaches_readRepetitionEnd (quantifier : Quantifier) (c : Cursor) :
    c.Reaches (c.readRepetitionEnd quantifier).2 := by
  unfold readRepetitionEnd
  split <;> exact c.reaches_skip

theorem reaches_readUpperBound (min : UInt32) (c : Cursor) :
    c.Reaches (c.readUpperBound min).2 := by
  have hmax := c.reaches_readNumber
  unfold readUpperBound
  split
  · exact c.reaches_skip.trans (reaches_readRepetitionEnd ..)
  · split
    · split
      · rename_i heq
        rwa [heq] at hmax
      · rename_i heq
        rw [heq] at hmax
        exact hmax.trans (reaches_readRepetitionEnd ..)
    · exact Reaches.refl c

theorem reaches_readBounds (min : UInt32) (c : Cursor) :
    c.Reaches (c.readBounds min).2 := by
  unfold readBounds
  split
  · split <;> exact c.reaches_skip
  · split
    · exact c.reaches_skip.trans (reaches_readUpperBound ..)
    · exact c.reaches_skip

theorem reaches_readRepetition (c : Cursor) : c.Reaches c.readRepetition.2 := by
  have hmin := c.reaches_readNumber
  unfold readRepetition
  split
  · rename_i heq
    rwa [heq] at hmin
  · rename_i heq
    rw [heq] at hmin
    exact hmin.trans (reaches_readBounds ..)

theorem reaches_readQuoted (casing : Casing) (c : Cursor) :
    c.Reaches (c.readQuoted casing).2 := by
  have htext := reaches_readUntil casing.quote c
  unfold readQuoted
  split <;> (rename_i heq; rwa [heq] at htext)

theorem reaches_readEscape (c : Cursor) : c.Reaches c.readEscape.2 := by
  unfold readEscape
  split
  · exact Reaches.refl c
  · split <;> exact c.reaches_skip

end Cursor

/-- A token is read forwards, whatever it is and whether it is complete. -/
theorem Token.reaches_read (first : Char) (lead : Lead) (c : Cursor) :
    c.Reaches (Token.read first lead c).2 := by
  cases lead with
  | whole => exact Cursor.Reaches.refl c
  | comment => exact c.reaches_skipLine
  | directive => exact c.reaches_readDirective
  | repetition => exact c.reaches_readRepetition
  | quote casing => exact c.reaches_readQuoted casing
  | backslash => exact c.reaches_readEscape
  | digit => exact c.reaches_readByte .zero first

end OctetPattern
