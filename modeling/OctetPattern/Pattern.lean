import OctetPattern.Charset
import OctetPattern.MaskedByte

/-!
# Patterns

The tree of a pattern over bytes. A `Pattern` is plain data: it may be
one that no text denotes, such as an empty set or a quantified
quantifier, and the functions of this library are defined on those too.

* `Pattern.kind` names the form of a tree, as messages do.
* `Pattern.isQuantifiable` and `Pattern.matchesSinglePosition` are the
  two questions about a tree that reading a pattern depends on.
* `Pattern.children` and `Pattern.preorder` walk a tree.
-/

namespace OctetPattern

/-! ## Parts of a pattern -/

/-- How a string treats the case of its letters. -/
inductive Casing where
  | exact
  | folded
  deriving DecidableEq, Repr

/-- The character on both sides of a string. -/
def Casing.quote : Casing → Char
  | .exact => '\x27'
  | .folded => '\x60'

/-- How often a quantified pattern is matched. -/
inductive Quantifier where
  | optional
  | zeroToMany
  | oneToMany
  | exactly (count : UInt32)
  /-- The two bounds may stand in either order. -/
  | between (min max : UInt32)
  | atLeast (min : UInt32)
  deriving DecidableEq, Repr

/-- The first character of the text of a quantifier. -/
def Quantifier.symbol : Quantifier → Char
  | .optional => '?'
  | .zeroToMany => '*'
  | .oneToMany => '+'
  | .exactly _ | .between _ _ | .atLeast _ => '{'

/-- A pattern over byte strings. -/
inductive Pattern where
  /-- One byte value, or all others. -/
  | byte (value : UInt8) (inverted : Bool)
  /-- The bytes between two bounds, which may stand in either order. -/
  | range (first second : UInt8) (inverted : Bool)
  /-- What one of the members matches. -/
  | set (members : List Pattern) (inverted : Bool)
  /-- Every byte. -/
  | any
  /-- The bytes that agree with `bits` in its mask. -/
  | wild (bits : MaskedByte) (inverted : Bool)
  /-- The bytes that agree with `bits` in at least one bit of its mask. -/
  | anyBits (bits : MaskedByte) (inverted : Bool)
  /-- A text in a charset. -/
  | string (casing : Casing) (text : List Char) (charset : Charset)
  /-- The items, one after another. -/
  | sequence (items : List Pattern)
  /-- Any one of the branches. -/
  | alternatives (branches : List Pattern)
  /-- The operand, as often as the quantifier allows. -/
  | quantified (quantifier : Quantifier) (operand : Pattern)
  deriving Repr, Inhabited

/-! ## Kinds -/

/-- The form of a pattern, without its data. -/
inductive Kind where
  | byte | range | set | any | wild | anyBits
  | exactString | foldedString
  | sequence | alternatives
  | optional | zeroToMany | oneToMany
  | exactly | between | atLeast
  deriving DecidableEq, Repr

/-- The name of a kind in messages. -/
def Kind.name : Kind → String
  | .byte => "BYTE"
  | .range => "RANGE"
  | .set => "SET"
  | .any => "ANY"
  | .wild => "WILDBIT"
  | .anyBits => "ANYBITS"
  | .exactString => "STRING"
  | .foldedString => "CASE_INSENSITIVE_STRING"
  | .sequence => "SEQUENCE"
  | .alternatives => "ALTERNATIVES"
  | .optional => "OPTIONAL"
  | .zeroToMany => "ZERO_TO_MANY"
  | .oneToMany => "ONE_TO_MANY"
  | .exactly => "REPEAT"
  | .between => "REPEAT_MIN_TO_MAX"
  | .atLeast => "REPEAT_MIN_TO_MANY"

def Casing.kind : Casing → Kind
  | .exact => .exactString
  | .folded => .foldedString

def Quantifier.kind : Quantifier → Kind
  | .optional => .optional
  | .zeroToMany => .zeroToMany
  | .oneToMany => .oneToMany
  | .exactly _ => .exactly
  | .between _ _ => .between
  | .atLeast _ => .atLeast

namespace Pattern

def kind : Pattern → Kind
  | byte _ _ => .byte
  | range _ _ _ => .range
  | set _ _ => .set
  | any => .any
  | wild _ _ => .wild
  | anyBits _ _ => .anyBits
  | string casing _ _ => casing.kind
  | sequence _ => .sequence
  | alternatives _ => .alternatives
  | quantified quantifier _ => quantifier.kind

/-! ## Questions about the root -/

def isInverted : Pattern → Bool
  | byte _ inverted | range _ _ inverted | set _ inverted | wild _ inverted
  | anyBits _ inverted => inverted
  | any | string _ _ _ | sequence _ | alternatives _ | quantified _ _ => false

/-- A quantifier may follow: the pattern does not end in one itself. -/
def isQuantifiable : Pattern → Bool
  | quantified _ _ => false
  | _ => true

/-- The pattern always matches one position, so a set may hold it. -/
def matchesSinglePosition : Pattern → Bool
  | byte _ _ | range _ _ _ | set _ _ | any | wild _ _ => true
  | anyBits _ _ | string _ _ _ | sequence _ | alternatives _ | quantified _ _ => false

/-- The patterns one level below the root, in order. -/
def children : Pattern → List Pattern
  | set nodes _ | sequence nodes | alternatives nodes => nodes
  | quantified _ operand => [operand]
  | byte _ _ | range _ _ _ | any | wild _ _ | anyBits _ _ | string _ _ _ => []

/-! ## Builders -/

def ofByte (value : UInt8) : Pattern :=
  byte value false

/-- The pattern of a masked byte: a plain byte if no bit is open. -/
def ofMasked (bits : MaskedByte) (inverted : Bool) : Pattern :=
  if bits.isWild then wild bits inverted else byte bits.value inverted

/-- A set, unless there is nothing to put into it. -/
def ofMembers? (members : List Pattern) (inverted : Bool) : Option Pattern :=
  if members.isEmpty then none else some (set members inverted)

/-! ## Induction and equality -/

/-- Induction with the hypothesis for every member of a list of children. -/
@[elab_as_elim, induction_eliminator]
theorem induct {motive : Pattern → Prop}
    (byte : ∀ value inverted, motive (byte value inverted))
    (range : ∀ first second inverted, motive (range first second inverted))
    (set : ∀ members inverted, (∀ p ∈ members, motive p) → motive (set members inverted))
    (any : motive any)
    (wild : ∀ bits inverted, motive (wild bits inverted))
    (anyBits : ∀ bits inverted, motive (anyBits bits inverted))
    (string : ∀ casing text charset, motive (string casing text charset))
    (sequence : ∀ items, (∀ p ∈ items, motive p) → motive (sequence items))
    (alternatives : ∀ branches, (∀ p ∈ branches, motive p) → motive (alternatives branches))
    (quantified : ∀ quantifier operand, motive operand → motive (quantified quantifier operand))
    (p : Pattern) : motive p :=
  @Pattern.rec motive (fun ps => ∀ p ∈ ps, motive p)
    byte range set any wild anyBits string sequence alternatives quantified
    (fun _ hp => nomatch hp)
    (fun _ _ hhead htail _ hp => by
      rcases List.mem_cons.mp hp with rfl | hp
      · exact hhead
      · exact htail _ hp)
    p

mutual

def same : Pattern → Pattern → Bool
  | byte v i, byte w j => v == w && i == j
  | range a b i, range c d j => a == c && b == d && i == j
  | set ps i, set qs j => sameEach ps qs && i == j
  | any, any => true
  | wild b i, wild c j => b == c && i == j
  | anyBits b i, anyBits c j => b == c && i == j
  | string k t c, string l u d => k == l && t == u && c == d
  | sequence ps, sequence qs => sameEach ps qs
  | alternatives ps, alternatives qs => sameEach ps qs
  | quantified m p, quantified n q => m == n && same p q
  | _, _ => false

def sameEach : List Pattern → List Pattern → Bool
  | [], [] => true
  | p :: ps, q :: qs => same p q && sameEach ps qs
  | _, _ => false

end

theorem sameEach_iff {ps : List Pattern} (h : ∀ p ∈ ps, ∀ q, same p q = true ↔ p = q)
    (qs : List Pattern) : sameEach ps qs = true ↔ ps = qs := by
  induction ps generalizing qs with
  | nil => cases qs <;> simp [sameEach]
  | cons p ps ih =>
    cases qs with
    | nil => simp [sameEach]
    | cons q qs =>
      simp [sameEach, h p (List.mem_cons_self ..),
        ih fun r hr => h r (List.mem_cons_of_mem _ hr)]

theorem same_iff (p q : Pattern) : same p q = true ↔ p = q := by
  induction p generalizing q with
  | byte => cases q <;> simp [same]
  | range => cases q <;> simp [same, and_assoc]
  | set members inverted ih => cases q <;> simp [same, sameEach_iff ih]
  | any => cases q <;> simp [same]
  | wild => cases q <;> simp [same]
  | anyBits => cases q <;> simp [same]
  | string => cases q <;> simp [same, and_assoc]
  | sequence items ih => cases q <;> simp [same, sameEach_iff ih]
  | alternatives branches ih => cases q <;> simp [same, sameEach_iff ih]
  | quantified quantifier operand ih => cases q <;> simp [same, ih]

instance : DecidableEq Pattern := fun p q =>
  decidable_of_iff (same p q = true) (same_iff p q)

/-! ## Walking a tree -/

mutual

/-- Every node with its depth, a node before its children. -/
def preorderFrom (depth : Nat) : Pattern → List (Nat × Pattern)
  | set members inverted =>
    (depth, set members inverted) :: preorderEach (depth + 1) members
  | sequence items => (depth, sequence items) :: preorderEach (depth + 1) items
  | alternatives branches =>
    (depth, alternatives branches) :: preorderEach (depth + 1) branches
  | quantified quantifier operand =>
    (depth, quantified quantifier operand) :: preorderFrom (depth + 1) operand
  | p => [(depth, p)]

def preorderEach (depth : Nat) : List Pattern → List (Nat × Pattern)
  | [] => []
  | p :: ps => preorderFrom depth p ++ preorderEach depth ps

end

/-- Every node with its depth, the root first and at depth zero. -/
def preorder (p : Pattern) : List (Nat × Pattern) :=
  preorderFrom 0 p

end Pattern
end OctetPattern
