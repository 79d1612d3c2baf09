import OctetPattern.Pattern

/-!
# Patterns as text

`Pattern.render` writes a tree in the pattern language, in its normal
form: lower-case digits, one blank between neighbours, ` | ` between
branches, and brackets only where the structure of a child would
otherwise be absorbed by its parent (`Slot.brackets`). A charset is not
written; a string stands for itself under whatever charset is active.
-/

namespace OctetPattern

/-! ## Parts -/

def decimal (n : UInt32) : List Char :=
  Nat.toDigits 10 n.toNat

/-- What a quantifier writes after its operand. -/
def Quantifier.suffix : Quantifier → List Char
  | .optional => ['?']
  | .zeroToMany => ['*']
  | .oneToMany => ['+']
  | .exactly count => '{' :: decimal count ++ ['}']
  | .between min max => '{' :: decimal min ++ ',' :: decimal max ++ ['}']
  | .atLeast min => '{' :: decimal min ++ [',', '*', '}']

/-- The caret of an inverted pattern. -/
def caret (inverted : Bool) : List Char :=
  if inverted then ['^'] else []

/-- What `~` applies to: a byte if every bit counts. -/
def MaskedByte.operandDigits (b : MaskedByte) : List Char :=
  if b.mask = 0xff then hexPair b.value else b.digits

/-! ## Brackets -/

/-- Where a pattern stands in its parent. -/
inductive Slot where
  /-- Between the brackets of a set. -/
  | member
  /-- Between bars. -/
  | branch
  /-- In a sequence, or under a quantifier. -/
  | item
  deriving DecidableEq, Repr

namespace Pattern

/-- Alternatives are bracketed among branches and items, sequences among
items only. -/
def needsBrackets : Slot → Pattern → Bool
  | .branch, alternatives _ => true
  | .item, alternatives _ => true
  | .item, sequence _ => true
  | _, _ => false

/-- The text of a pattern, with brackets around it if its place asks for them. -/
def bracketed (slot : Slot) (p : Pattern) (text : List Char) : List Char :=
  if needsBrackets slot p then '(' :: text ++ [')'] else text

/-! ## Rendering -/

mutual

/-- The normal form of a pattern. -/
def render : Pattern → List Char
  | byte value inverted => caret inverted ++ hexPair value
  | range first second inverted =>
    caret inverted ++ hexPair first ++ '-' :: hexPair second
  | set members inverted =>
    caret inverted ++ '[' :: [' '].intercalate (renderEach .member members) ++ [']']
  | any => ['.']
  | wild bits inverted => caret inverted ++ bits.digits
  | anyBits bits inverted => caret inverted ++ '~' :: bits.operandDigits
  | string casing text _ => casing.quote :: text ++ [casing.quote]
  | sequence items => [' '].intercalate (renderEach .item items)
  | alternatives branches => [' ', '|', ' '].intercalate (renderEach .branch branches)
  | quantified quantifier operand =>
    bracketed .item operand (render operand) ++ quantifier.suffix

def renderEach (slot : Slot) : List Pattern → List (List Char)
  | [] => []
  | p :: ps => bracketed slot p (render p) :: renderEach slot ps

end

theorem renderEach_eq_map (slot : Slot) (ps : List Pattern) :
    renderEach slot ps = ps.map fun p => bracketed slot p (render p) := by
  induction ps with
  | nil => rfl
  | cons p ps ih => rw [renderEach, ih, List.map_cons]

def text (p : Pattern) : String :=
  String.ofList p.render

end Pattern
end OctetPattern
