import OctetPattern.Cause

/-!
# Modifying values

How the modifiers follow each other, and what the pending one does to
the next value. The items that were read so far are a list with the
newest first, so the item a range starts with is its head.

* `Pending.invert`, `Pending.openRange` and `Pending.openAnyBits` read
  one more modifier.
* `Pending.store` puts the next value where the pending modifier wants it.
* `quantify` wraps the newest item.
-/

namespace OctetPattern

/-! ## Reading a modifier -/

namespace Pending

/-- After `^`. -/
def invert : Pending → Except Cause Pending
  | none => .ok inversion
  | inversion => .error .invertedTwice
  | rangeEnd => .error .caretInRange
  | anyBits _ => .error .caretAfterTilde

/-- After `~`. -/
def openAnyBits : Pending → Except Cause Pending
  | none => .ok (anyBits false)
  | inversion => .ok (anyBits true)
  | pending => .error (.tildeAfter pending)

/-- After `-`. A range starts with the newest item, which must be a byte. -/
def openRange : Pending → List Pattern → Except Cause Pending
  | none, .byte _ _ :: _ => .ok rangeEnd
  | none, first :: _ => .error (.badRangeStart first.kind)
  | none, [] => .error .missingRangeStart
  | pending, _ => .error (.dashAfter pending)

/-- A modifier must not be pending where no value follows. -/
def mustBeNone (pending : Pending) (follower : Follower) : Except Cause Unit :=
  match pending with
  | none => .ok ()
  | pending => .error (.dangling pending follower)

def allowsGroup : Pending → Except Cause Unit
  | none => .ok ()
  | inversion => .error .invertedGroup
  | rangeEnd => .error .groupAsRangeEnd
  | anyBits _ => .error .groupUnderAnyBits

end Pending

/-! ## Storing a value -/

/-- The range between two bytes. It takes the inversion of the first. -/
def rangeBetween : Pattern → Pattern → Except Cause Pattern
  | .byte _ _, .byte _ true => .error .invertedRangeEnd
  | .byte first inverted, .byte second false => .ok (.range first second inverted)
  | .byte _ _, second => .error (.badRangeEnd second.kind)
  | first, _ => .error (.badRangeStart first.kind)

/-- The bytes that share a bit with a byte or a masked byte. -/
def anyBitsOf (inverted : Bool) : Pattern → Except Cause Pattern
  | .byte value _ => .ok (.anyBits ⟨value, 0xff⟩ inverted)
  | .wild bits _ => .ok (.anyBits bits inverted)
  | operand => .error (.badAnyBits operand.kind)

/-- The items after a value has been stored under a pending modifier. -/
def Pending.store (value : Pattern) : Pending → List Pattern → Except Cause (List Pattern)
  | .none, items | .inversion, items => .ok (value :: items)
  | .rangeEnd, first :: items => (rangeBetween first value).map (· :: items)
  | .rangeEnd, [] => .error .missingRangeStart
  | .anyBits inverted, items => (anyBitsOf inverted value).map (· :: items)

/-! ## Quantifying -/

/-- The newest item as an operand, apart from the others. -/
def operand? (symbol : Char) : List Pattern → Except Cause (Pattern × List Pattern)
  | [] => .error (.nothingToQuantify symbol)
  | operand :: items =>
    if operand.isQuantifiable then .ok (operand, items)
    else .error (.notQuantifiable symbol operand.kind)

/-- The items after the newest has been wrapped. -/
def quantify (quantifier : Quantifier) (items : List Pattern) :
    Except Cause (List Pattern) :=
  (operand? quantifier.symbol items).map fun (operand, items) =>
    .quantified quantifier operand :: items

end OctetPattern
