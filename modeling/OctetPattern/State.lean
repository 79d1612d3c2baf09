import OctetPattern.Branches
import OctetPattern.Encode
import OctetPattern.Modify
import OctetPattern.Token

/-!
# States of reading a pattern

A pattern is read token by token. Between two tokens the reader is in a
`State`: the level it works on, and the levels around it that wait to be
continued. `State.permit` and `State.accept` say what a token may do and
what it does; neither knows where in the text the token stands.

A group and a set each open a level of their own with a copy of the
active charsets, and closing one goes back to the level outside. So a
directive reaches to the end of its group or set, and no further.
-/

namespace OctetPattern

/-! ## One level -/

/-- A sequence or a set that is being read. -/
structure Level where
  /-- The values so far, the newest first. -/
  items : List Pattern
  pending : Pending
  /-- The charsets of strings outside sets. -/
  charsets : List Charset
  deriving Repr, DecidableEq

namespace Level

def fresh (charsets : List Charset) : Level :=
  ⟨[], .none, charsets⟩

/-- The level with a value stored as its pending modifier demands. -/
def store (level : Level) (value : Pattern) : Except Cause Level :=
  (level.pending.store value level.items).map fun items =>
    ⟨items, .none, level.charsets⟩

/-- The level with its newest item wrapped. -/
def quantify (level : Level) (quantifier : Quantifier) : Except Cause Level := do
  level.pending.mustBeNone .quantifier
  let items ← OctetPattern.quantify quantifier level.items
  return { level with items }

/-- The sequence that has been read, which must not be empty. -/
def value (level : Level) (follower : Follower) : Except Cause Pattern := do
  level.pending.mustBeNone follower
  match level.items with
  | [] => .error (.missingValue follower)
  | [item] => .ok item
  | items => .ok (.sequence items.reverse)

/-- The set that has been read, which must not be empty. -/
def set (level : Level) (inverted : Bool) : Except Cause Pattern := do
  level.pending.mustBeNone .closeSet
  match Pattern.ofMembers? level.items.reverse inverted with
  | none => .error .emptySet
  | some set => .ok set

end Level

/-! ## Strings -/

/-- The bytes of a text in a charset that must have all its characters. -/
def encoded (text : List Char) (charset : Charset) :
    Except Cause (Charset × List UInt8) :=
  match charset.encode? text with
  | none => .error (.unencodable text charset)
  | some bytes => .ok (charset, bytes)

/-- One string for each charset. -/
def stringsIn (casing : Casing) (text : List Char) : List Charset → Pattern
  | [charset] => .string casing text charset
  | charsets => .alternatives (charsets.map (.string casing text))

/-- The value of a string under the given charsets. A single character
that is a single byte in the only charset is that byte, and only then
can it be inverted. -/
def stringValue (casing : Casing) (text : List Char) (charsets : List Charset)
    (inverted : Bool) : Except Cause Pattern := do
  match casing, text, ← charsets.mapM (encoded text) with
  | .exact, [_], [(_, [byte])] => .ok (.byte byte inverted)
  | _, _, _ =>
    if inverted then .error (.invertedString casing)
    else .ok (stringsIn casing text charsets)

/-! ## All levels -/

/-- What a level is part of. -/
inductive Context where
  /-- The pattern itself, with the branches before this one. -/
  | whole (branches : List Pattern)
  /-- A group, with the branches before this one. -/
  | group (branches : List Pattern) (outer : Level) (outside : Context)
  | set (outer : Level) (outside : Context)
  deriving Repr

/-- Where the reader is between two tokens. Branches stand newest first. -/
structure State where
  context : Context
  level : Level
  deriving Repr

/-- How branches are combined; `none` means there are none. -/
abbrev Combine := List Pattern → Option Pattern

namespace State

def start : State :=
  ⟨.whole [], .fresh [.latin1]⟩

/-- The reader is directly inside a set. -/
def inSet (s : State) : Bool :=
  match s.context with
  | .set _ _ => true
  | .whole _ | .group _ _ _ => false

/-- The charsets of a string at this place. A set is about bytes, so its
strings are always one byte per character. -/
def stringCharsets (s : State) : List Charset :=
  if s.inSet then [.latin1] else s.level.charsets

/-- The state with its level changed. -/
def onLevel (s : State) (f : Level → Except Cause Level) : Except Cause State :=
  (f s.level).map fun level => { s with level }

def onPending (s : State) (f : Pending → Except Cause Pending) : Except Cause State :=
  s.onLevel fun level => (f level.pending).map fun pending => { level with pending }

def store (s : State) (value : Pattern) : Except Cause State :=
  s.onLevel (·.store value)

/-- All branches combined, the current one included. -/
def combineWith (combine : Combine) (branches : List Pattern) (level : Level)
    (follower : Follower) : Except Cause Pattern := do
  let branch ← level.value follower
  match combine (branch :: branches).reverse with
  | none => .error .noAlternatives
  | some p => .ok p

/-! ## Tokens that open, divide or close -/

def nextBranch (s : State) : Except Cause State :=
  match s.context with
  | .whole branches => do
    let branch ← s.level.value .bar
    return ⟨.whole (branch :: branches), .fresh s.level.charsets⟩
  | .group branches outer outside => do
    let branch ← s.level.value .bar
    return ⟨.group (branch :: branches) outer outside, .fresh s.level.charsets⟩
  | .set _ _ => .error (.unexpected '|')

def openGroup (s : State) : Except Cause State :=
  if s.inSet then .error .groupInSet
  else do
    s.level.pending.allowsGroup
    return ⟨.group [] s.level s.context, .fresh s.level.charsets⟩

def closeGroup (combine : Combine) (s : State) : Except Cause State :=
  match s.context with
  | .whole branches => do
    let _ ← combineWith combine branches s.level .closeGroup
    .error .unopenedGroup
  | .group branches outer outside => do
    let value ← combineWith combine branches s.level .closeGroup
    State.store ⟨outside, outer⟩ value
  | .set _ _ => .error (.unexpected ')')

def openSet (s : State) : State :=
  ⟨.set s.level s.context, .fresh s.level.charsets⟩

/-- After a closing bracket. The set itself carries a pending inversion. -/
def closeSet (s : State) : Except Cause State :=
  match s.context with
  | .set outer outside => do
    let value ← s.level.set outer.pending.invertsValue
    State.store ⟨outside, outer⟩ value
  | .whole _ | .group _ _ _ => .error (.unexpected ']')

/-! ## Values -/

def anyByte (s : State) : Except Cause State :=
  if s.level.pending.invertsValue then
    .error (if s.inSet then .invertedAnyInSet else .invertedAny)
  else s.store .any

def quantify (s : State) (quantifier : Quantifier) : Except Cause State :=
  if s.inSet then .error (.unexpected quantifier.symbol)
  else s.onLevel (·.quantify quantifier)

def quoted (s : State) (casing : Casing) (text : List Char) : Except Cause State := do
  s.store (← stringValue casing text s.stringCharsets s.level.pending.invertsValue)

def direct (s : State) (charsets : List Charset) : State :=
  { s with level := { s.level with charsets } }

/-! ## Any token -/

/-- What is settled by the first character of a token, before the rest
is read: a repetition needs an operand, and neither a repetition nor a
directive may follow a modifier. -/
def permit (s : State) : Lead → Except Cause Unit
  | .directive => s.level.pending.mustBeNone .directive
  | .repetition => do
    if s.inSet then .error (.unexpected '{') else
    s.level.pending.mustBeNone .repetition
    let _ ← operand? '{' s.level.items
  | .whole _ | .comment | .quote _ | .backslash | .digit => .ok ()

/-- The state after a token. -/
def accept (combine : Combine) (s : State) : Token → Except Cause State
  | .gap => .ok s
  | .bar => s.nextBranch
  | .openGroup => s.openGroup
  | .closeGroup => s.closeGroup combine
  | .openSet => .ok s.openSet
  | .closeSet => s.closeSet
  | .caret => s.onPending Pending.invert
  | .dash => s.onPending (·.openRange s.level.items)
  | .tilde => s.onPending Pending.openAnyBits
  | .any => s.anyByte
  | .directive charsets => .ok (s.direct charsets)
  | .quantifier quantifier => s.quantify quantifier
  | .quoted casing text => s.quoted casing text
  | .escape escape => s.store (escape.pattern s.level.pending.invertsValue)
  | .byte bits => s.store (.ofMasked bits s.level.pending.invertsValue)
  | .other c => .error (.unexpected c)

/-- The pattern, when there are no more tokens. -/
def finish (combine : Combine) (s : State) : Except Cause Pattern :=
  match s.context with
  | .whole branches => combineWith combine branches s.level .endOfInput
  | .group branches _ _ => do
    let _ ← combineWith combine branches s.level .endOfInput
    .error .unclosedGroup
  | .set _ _ => .error .unclosedSet

end State
end OctetPattern
