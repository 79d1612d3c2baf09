import OctetPattern.Fault
import OctetPattern.Pattern
import OctetPattern.Pending
import OctetPattern.Quoted

/-!
# Causes of failure

Why a text is not a pattern. A `Cause` holds the data that its message
speaks of, so that two failures can be compared without comparing
texts; `Cause.fault` and `Cause.message` read off what is reported. A
`SyntaxError` is a cause with the number of characters that had been
read when it was noticed.
-/

namespace OctetPattern

/-! ## Parts of messages -/

/-- What stands where a value was due. -/
inductive Follower where
  | endOfInput
  | bar
  | closeGroup
  | closeSet
  | directive
  | quantifier
  | repetition
  deriving DecidableEq, Repr

def Follower.text : Follower → String
  | .endOfInput => "the end of input"
  | .bar => "'|'"
  | .closeGroup => "')'"
  | .closeSet => "']'"
  | .directive => "an encoding directive"
  | .quantifier => "a quantifier"
  | .repetition => "a repeat"

/-- The digits that a byte with a base mark is spelled in. -/
inductive Radix where
  | hexadecimal
  | binary
  deriving DecidableEq, Repr

def Radix.digitText : Radix → String
  | .hexadecimal => "hex digit or wildcard"
  | .binary => "binary digit or wildcard"

/-- The next character, or that there was none. -/
def foundText : Option Char → String
  | some c => quotedChar c
  | none => "end of input"

/-! ## Causes -/

inductive Cause where
  | emptyPattern
  /-- A sequence without items. -/
  | missingValue (follower : Follower)
  /-- A group without branches. -/
  | noAlternatives
  | emptySet
  | emptyString
  | unclosedSet
  | unclosedGroup
  | unclosedDirective
  | unclosedString (casing : Casing)
  /-- A repetition count that is not followed by what may follow it. -/
  | malformedRepeat
  | unexpected (c : Char)
  /-- A `)` outside all groups. -/
  | unopenedGroup
  | groupInSet
  | unknownEscape (letter : Char)
  | unfinishedEscape
  /-- A modifier without a value. -/
  | dangling (pending : Pending) (follower : Follower)
  | invertedTwice
  | caretAfterTilde
  | dashAfter (pending : Pending)
  | tildeAfter (pending : Pending)
  | invertedAny
  /-- In a set, where it would match nothing. -/
  | invertedAnyInSet
  | invertedString (casing : Casing)
  | invertedGroup
  | missingRangeStart
  | badRangeStart (kind : Kind)
  | badRangeEnd (kind : Kind)
  | groupAsRangeEnd
  /-- A `^` between `-` and the second bound. -/
  | caretInRange
  | invertedRangeEnd
  | badAnyBits (kind : Kind)
  | groupUnderAnyBits
  | nothingToQuantify (symbol : Char)
  | notQuantifiable (symbol : Char) (kind : Kind)
  /-- A byte of two digits of which only the first is there. -/
  | splitByte (first : Char) (found : Option Char)
  | badDigit (radix : Radix) (found : Option Char)
  | zeroRepeat
  | missingNumber (found : Option Char)
  | hugeNumber (digits : List Char)
  | unknownCharset (name : List Char)
  | unencodable (text : List Char) (charset : Charset)
  deriving DecidableEq, Repr

namespace Cause

/-- The class a cause belongs to. -/
def fault : Cause → Fault
  | emptyPattern | missingValue _ => .emptyPattern
  | noAlternatives => .noAlternatives
  | emptySet => .emptySet
  | emptyString => .emptyString
  | unclosedSet => .unclosedSet
  | unclosedGroup | unclosedDirective => .unclosedGroup
  | unclosedString _ => .unclosedString
  | malformedRepeat => .unclosedRepeat
  | unexpected _ | unopenedGroup | groupInSet | unknownEscape _ | unfinishedEscape =>
    .unexpectedCharacter
  | dangling _ _ => .danglingModifier
  | invertedTwice | caretAfterTilde | dashAfter _ | tildeAfter _ => .conflictingModifiers
  | invertedAny | invertedString _ | invertedGroup => .notInvertible
  | invertedAnyInSet => .uselessInversion
  | missingRangeStart | badRangeStart _ | badRangeEnd _ | groupAsRangeEnd => .rangeOperand
  | caretInRange | invertedRangeEnd => .invertedRangeBound
  | badAnyBits _ | groupUnderAnyBits => .anyBitsOperand
  | nothingToQuantify _ | notQuantifiable _ _ => .notQuantifiable
  | splitByte first _ => if first = wildcard then .splitWildcard else .splitHexDigit
  | badDigit _ _ => .illegalDigit
  | zeroRepeat => .zeroRepeat
  | missingNumber _ | hugeNumber _ => .expectedNumber
  | unknownCharset _ => .unknownCharset
  | unencodable _ _ => .unencodableString

/-- A character as it was written, between quotes. -/
def mark (c : Char) : String :=
  "'" ++ c.toString ++ "'"

/-- What the author of the pattern is told. -/
def message : Cause → String
  | emptyPattern => "the expression is empty"
  | missingValue follower => "expected a value before " ++ follower.text
  | noAlternatives => "no alternatives to match"
  | emptySet => "a set needs at least one member"
  | emptyString => "strings cannot be empty"
  | unclosedSet => "the set has no closing ']'"
  | unclosedGroup => "the group has no closing ')'"
  | unclosedDirective => "the encoding directive has no closing ')'"
  | unclosedString casing => "the string has no closing " ++ casing.quote.toString
  | malformedRepeat => "expected '\x7d', ',n\x7d' or ',*\x7d'"
  | unexpected c => "unexpected character " ++ quotedChar c
  | unopenedGroup => "')' does not close a group"
  | groupInSet => "groups are not allowed inside a set"
  | unknownEscape letter => "unknown shorthand \\" ++ letter.toString
  | unfinishedEscape => "'\\' at the end of input"
  | dangling pending follower =>
    "'" ++ pending.text ++ "' must be followed by a value, not " ++ follower.text
  | invertedTwice => "a value cannot be inverted twice"
  | caretAfterTilde => "'^' must come before '~'"
  | dashAfter pending => "'-' cannot follow '" ++ pending.text ++ "'"
  | tildeAfter pending => "'~' cannot follow '" ++ pending.text ++ "'"
  | invertedAny => "'.' cannot be inverted"
  | invertedAnyInSet => "an inverted '.' in a set matches nothing"
  | invertedString .exact => "a string cannot be inverted"
  | invertedString .folded => "a case-insensitive string cannot be inverted"
  | invertedGroup => "a group cannot be inverted"
  | missingRangeStart => "'-' has no byte before it"
  | badRangeStart kind => "a range cannot start with " ++ kind.name
  | badRangeEnd kind => "a range cannot end with " ++ kind.name
  | groupAsRangeEnd => "a range bound cannot be a group"
  | caretInRange => "invert the whole range with '^' before its first byte"
  | invertedRangeEnd => "the second bound of a range cannot be inverted"
  | badAnyBits kind => "'~' needs a byte or wild byte, not " ++ kind.name
  | groupUnderAnyBits => "'~' needs a byte or wild byte, not a group"
  | nothingToQuantify symbol => mark symbol ++ " has nothing to quantify"
  | notQuantifiable symbol kind => mark symbol ++ " cannot quantify " ++ kind.name
  | splitByte first found =>
    (if first = wildcard then "wildcard " else "hex digit ") ++ quotedChar first
      ++ " needs a second hex digit or wildcard, found " ++ foundText found
  | badDigit radix found => "expected " ++ radix.digitText ++ ", found " ++ foundText found
  | zeroRepeat => "a value cannot be repeated zero times"
  | missingNumber found => "expected a number, found " ++ foundText found
  | hugeNumber digits => "number " ++ String.ofList digits ++ " is too large"
  | unknownCharset name => "unknown charset " ++ quotedText name
  | unencodable text charset => quotedText text ++ " cannot be encoded in " ++ charset.name

end Cause

/-! ## Placed causes -/

/-- A cause, and how many characters had been read when it was noticed. -/
structure SyntaxError where
  cause : Cause
  position : Nat
  deriving DecidableEq, Repr

def SyntaxError.report (e : SyntaxError) : Report :=
  ⟨e.cause.fault, e.position, e.cause.message⟩

def placed (position : Nat) : Except Cause α → Except SyntaxError α
  | .ok a => .ok a
  | .error cause => .error ⟨cause, position⟩

end OctetPattern
