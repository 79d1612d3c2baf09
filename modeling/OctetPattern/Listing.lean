import OctetPattern.Pattern
import OctetPattern.Quoted

/-!
# Structure listings

A listing shows every field of a tree by name. It is written on one
line (`Listing.flat`) or with one field to a line, four blanks deeper
for each level (`Listing.pretty`). `Pattern.listing` says what the
fields of a pattern are called.
-/

namespace OctetPattern

/-! ## Listings in general -/

/-- How the parts of a value are enclosed. -/
inductive Enclosure where
  | record
  | tuple
  | list
  deriving DecidableEq, Repr

/-- The brackets around parts that stand on lines of their own. -/
def Enclosure.brackets : Enclosure → String × String
  | .record => (" \x7b", "\x7d")
  | .tuple => ("(", ")")
  | .list => ("[", "]")

/-- The brackets around parts on the same line. -/
def Enclosure.flatBrackets : Enclosure → String × String
  | .record => (" \x7b ", " \x7d")
  | .tuple => ("(", ")")
  | .list => ("[", "]")

/-- A value to be shown. -/
inductive Listing where
  | leaf (shown : String)
  | labelled (label : String) (value : Listing)
  /-- A name and the parts that follow it. -/
  | node (name : String) (enclosure : Enclosure) (parts : List Listing)
  deriving Repr, Inhabited

namespace Listing

mutual

/-- A value on one line. -/
def flat : Listing → String
  | leaf shown => shown
  | labelled label value => label ++ ": " ++ flat value
  | node name enclosure parts =>
    name ++ enclosure.flatBrackets.1 ++ ", ".intercalate (flatEach parts)
      ++ enclosure.flatBrackets.2

def flatEach : List Listing → List String
  | [] => []
  | part :: parts => flat part :: flatEach parts

end

/-- The lines with a text put before the first. -/
def headed (before : String) : List (Nat × String) → List (Nat × String)
  | [] => []
  | (depth, line) :: lines => (depth, before ++ line) :: lines

/-- The lines with a comma after the last. -/
def ended : List (Nat × String) → List (Nat × String)
  | [] => []
  | [(depth, line)] => [(depth, line ++ ",")]
  | line :: lines => line :: ended lines

mutual

/-- A value with every part on lines of its own. Each line comes with its
depth, which starts at the given one. -/
def lines (depth : Nat) : Listing → List (Nat × String)
  | leaf shown => [(depth, shown)]
  | labelled label value => headed (label ++ ": ") (lines depth value)
  | node name enclosure [] => [(depth, name ++ enclosure.brackets.1 ++ enclosure.brackets.2)]
  | node name enclosure parts =>
    (depth, name ++ enclosure.brackets.1) :: partLines (depth + 1) parts
      ++ [(depth, enclosure.brackets.2)]

def partLines (depth : Nat) : List Listing → List (Nat × String)
  | [] => []
  | part :: parts => ended (lines depth part) ++ partLines depth parts

end

/-- A line behind its four blanks for each level. -/
def indented (line : Nat × String) : String :=
  "".pushn ' ' (4 * line.1) ++ line.2

/-- A value with every part on lines of its own, as one string. -/
def pretty (listing : Listing) : String :=
  "\n".intercalate ((listing.lines 0).map indented)

end Listing

/-! ## The listing of a pattern -/

def Charset.label : Charset → String
  | .latin1 => "Iso8859_1"
  | .ascii => "UsAscii"
  | .windows1252 => "Windows1252"
  | .utf8 => "Utf8"
  | .utf16be => "Utf16Be"
  | .utf16le => "Utf16Le"

def Kind.label : Kind → String
  | .byte => "Byte"
  | .range => "Range"
  | .set => "Set"
  | .any => "Any"
  | .wild => "WildBit"
  | .anyBits => "AnyBits"
  | .exactString => "String"
  | .foldedString => "CaseInsensitiveString"
  | .sequence => "Sequence"
  | .alternatives => "Alternatives"
  | .optional => "Optional"
  | .zeroToMany => "ZeroToMany"
  | .oneToMany => "OneToMany"
  | .exactly => "Repeat"
  | .between => "RepeatMinToMax"
  | .atLeast => "RepeatMinToMany"

namespace Listing

def number (label : String) (n : Nat) : Listing :=
  labelled label (leaf (String.ofList (Nat.toDigits 10 n)))

/-- The field that every invertible pattern ends in. -/
def inversion (inverted : Bool) : Listing :=
  labelled "inverted" (leaf (if inverted then "true" else "false"))

def bits (b : MaskedByte) : List Listing :=
  [number "mask" b.mask.toNat, number "value" b.value.toNat]

end Listing

def Quantifier.listing : Quantifier → List Listing
  | .optional | .zeroToMany | .oneToMany => []
  | .exactly count => [.number "count" count.toNat]
  | .between min max => [.number "min" min.toNat, .number "max" max.toNat]
  | .atLeast min => [.number "min" min.toNat]

/-- A quantifier around the listing of its operand: the operand needs a
label only beside other fields. -/
def Quantifier.around (quantifier : Quantifier) (operand : Listing) : Listing :=
  let fields := quantifier.listing
  if fields.isEmpty then .node quantifier.kind.label .tuple [operand]
  else .node quantifier.kind.label .record (fields ++ [.labelled "node" operand])

namespace Pattern

mutual

/-- The fields of a pattern and of all patterns in it. -/
def listing : Pattern → Listing
  | byte value inverted =>
    .node Kind.byte.label .record [.number "value" value.toNat, .inversion inverted]
  | range first second inverted =>
    .node Kind.range.label .record
      [.number "first" first.toNat, .number "second" second.toNat, .inversion inverted]
  | set members inverted =>
    .node Kind.set.label .record
      [.labelled "members" (.node "" .list (listingEach members)), .inversion inverted]
  | any => .leaf Kind.any.label
  | wild bits inverted =>
    .node Kind.wild.label .record (Listing.bits bits ++ [.inversion inverted])
  | anyBits bits inverted =>
    .node Kind.anyBits.label .record (Listing.bits bits ++ [.inversion inverted])
  | string casing text charset =>
    .node casing.kind.label .record
      [.labelled "text" (.leaf (quotedText text)), .labelled "charset" (.leaf charset.label)]
  | sequence items =>
    .node Kind.sequence.label .tuple [.node "" .list (listingEach items)]
  | alternatives branches =>
    .node Kind.alternatives.label .tuple [.node "" .list (listingEach branches)]
  | quantified quantifier operand => quantifier.around (listing operand)

def listingEach : List Pattern → List Listing
  | [] => []
  | p :: ps => listing p :: listingEach ps

end

end Pattern
end OctetPattern
