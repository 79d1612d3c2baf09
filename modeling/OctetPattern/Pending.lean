/-!
# Pending modifiers

The modifiers `^`, `-` and `~` do nothing when they are read. They wait
for the next value and change how it is stored. A `Pending` is what
waits; `Modify` says how modifiers follow each other and what they do
to a value.
-/

namespace OctetPattern

/-- The modifier that waits for the next value. -/
inductive Pending where
  | none
  /-- After `^`: the value is inverted. -/
  | inversion
  /-- After `-`: the value closes a range. -/
  | rangeEnd
  /-- After `~`, which takes over the inversion of a caret before it. -/
  | anyBits (inverted : Bool)
  deriving DecidableEq, Repr

namespace Pending

def text : Pending → String
  | none => ""
  | inversion => "^"
  | rangeEnd => "-"
  | anyBits false => "~"
  | anyBits true => "^~"

/-- The value itself is to carry the inversion. -/
def invertsValue : Pending → Bool
  | inversion => true
  | _ => false

end Pending
end OctetPattern
