/-!
# Faults and reports

A `Fault` is a class of mistakes in a pattern. A `Report` is what the
author of the pattern is told: the class, the place, and a message.
What exactly went wrong is a `Cause`, from which fault and message are
both read off.
-/

namespace OctetPattern

/-- A class of mistakes. -/
inductive Fault where
  -- structure
  | emptyPattern | noAlternatives | emptySet | emptyString
  | unclosedSet | unclosedGroup | unclosedRepeat | unclosedString
  | unexpectedCharacter
  -- modifiers
  | danglingModifier | conflictingModifiers
  -- inversion
  | notInvertible | uselessInversion
  -- operands
  | rangeOperand | invertedRangeBound | anyBitsOperand | notQuantifiable
  -- numbers, digits and names
  | splitHexDigit | splitWildcard | illegalDigit | zeroRepeat | expectedNumber
  | unknownCharset | unencodableString
  deriving DecidableEq, Repr

def Fault.text : Fault → String
  | .emptyPattern => "empty expression"
  | .noAlternatives => "no alternatives"
  | .emptySet => "empty set"
  | .emptyString => "empty string"
  | .unclosedSet => "unterminated set"
  | .unclosedGroup => "unterminated group"
  | .unclosedRepeat => "unterminated repeat"
  | .unclosedString => "unterminated string"
  | .unexpectedCharacter => "unexpected character"
  | .danglingModifier => "modifier without a value"
  | .conflictingModifiers => "conflicting modifiers"
  | .notInvertible => "value cannot be inverted"
  | .uselessInversion => "inversion matches nothing"
  | .rangeOperand => "invalid range operand"
  | .invertedRangeBound => "inverted range bound"
  | .anyBitsOperand => "invalid any-bits operand"
  | .notQuantifiable => "value cannot be quantified"
  | .splitHexDigit => "incomplete hex byte"
  | .splitWildcard => "incomplete wildcard byte"
  | .illegalDigit => "illegal character in byte"
  | .zeroRepeat => "zero repeat"
  | .expectedNumber => "expected a number"
  | .unknownCharset => "unknown charset"
  | .unencodableString => "string cannot be encoded"

/-- A mistake as reported: `position` counts the characters that had been
read when it was noticed. -/
structure Report where
  fault : Fault
  position : Nat
  message : String
  deriving DecidableEq, Repr

def Report.text (r : Report) : String :=
  r.fault.text ++ " at position " ++ String.ofList (Nat.toDigits 10 r.position)
    ++ ": " ++ r.message

end OctetPattern
