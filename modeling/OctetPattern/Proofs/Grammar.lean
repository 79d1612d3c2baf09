import OctetPattern.Branches
import OctetPattern.Encode
import OctetPattern.Proofs.Spelling

/-!
# The grammar of patterns

What a text denotes, said without a reader, a state or a pending
modifier. `Denotes text p` holds if the whole text derives the pattern
`p` by the rules of `Derives`, of which there are three groups:

- a *phrase* is a value on its own: a byte, an escape, a set or a string;
- *steps* take a sequence or a set from one draft to the next, with
  blanks and comments before, between and after them. A modifier and the
  phrase it applies to are one step, and so are a quantifier, a
  directive and a whole group;
- *branches* are sequences with bars between them.

A draft holds its items newest first: a range and a quantifier apply to
the newest. All rules stand between a text and the rest of it, so they
can be followed from the left.
-/

namespace OctetPattern

/-! ## Values of phrases -/

/-- The pattern with the inversion of its root toggled, if it has one
that a caret can toggle. -/
def Pattern.toggled? : Pattern → Option Pattern
  | byte value inverted => some (byte value !inverted)
  | range first second inverted => some (range first second !inverted)
  | set members inverted => some (set members !inverted)
  | wild bits inverted => some (wild bits !inverted)
  | any | anyBits _ _ | string _ _ _ | sequence _ | alternatives _ | quantified _ _ => none

/-- What a tilde applies to: a byte, of which every bit counts, or a
masked byte. -/
def Pattern.masked? : Pattern → Option MaskedByte
  | byte value _ => some ⟨value, 0xff⟩
  | wild bits _ => some bits
  | range _ _ _ | set _ _ | any | anyBits _ _ | string _ _ _ | sequence _ | alternatives _
  | quantified _ _ => none

/-- What a quoted text stands for: a byte if it is an exact string of one
character that is one byte in the only charset, else one string for each
charset. -/
def quotedValue (casing : Casing) (text : List Char) : List Charset → Pattern
  | [charset] =>
    match casing, text, charset.encode? text with
    | .exact, [_], some [byte] => .byte byte false
    | _, _, _ => .string casing text charset
  | charsets => .alternatives (charsets.map (.string casing text))

/-! ## Drafts -/

/-- What steps belong to. -/
inductive Place where
  | sequence
  | set
  deriving DecidableEq, Repr

/-- The charsets of strings: a set is about bytes and ignores directives. -/
def Place.charsets : Place → List Charset → List Charset
  | sequence, charsets => charsets
  | set, _ => [.latin1]

/-- A sequence or a set so far. -/
structure Draft where
  /-- As the last directive left them. -/
  charsets : List Charset
  /-- The newest first. -/
  items : List Pattern

namespace Draft

def empty (charsets : List Charset) : Draft :=
  ⟨charsets, []⟩

def push (d : Draft) (item : Pattern) : Draft :=
  { d with items := item :: d.items }

end Draft

/-- The items make up one branch: a single item stands for itself. -/
inductive Joined : List Pattern → Pattern → Prop
  | one {item : Pattern} : Joined [item] item
  | more {items : List Pattern} (h : 2 ≤ items.length) : Joined items (.sequence items.reverse)

/-- What branches amount to. One branch stands for itself; two or more
that each match a single position are collected in a set, which stands
after the others. -/
inductive Alternation : List Pattern → Pattern → Prop
  | one {branch : Pattern} : Alternation [branch] branch
  | plain {branches : List Pattern} (h : 2 ≤ branches.length)
      (hfew : (branches.filter Pattern.matchesSinglePosition).length < 2) :
      Alternation branches (.alternatives branches)
  | set {branches : List Pattern} (h : 2 ≤ branches.length)
      (hall : ∀ p ∈ branches, p.matchesSinglePosition = true) :
      Alternation branches (.set branches false)
  | mixed {branches : List Pattern}
      (hmany : 2 ≤ (branches.filter Pattern.matchesSinglePosition).length)
      (hother : ∃ p ∈ branches, p.matchesSinglePosition = false) :
      Alternation branches (.alternatives
        (branches.filter (fun p => !p.matchesSinglePosition) ++
          [.set (branches.filter Pattern.matchesSinglePosition) false]))

/-! ## Rules -/

/-- What a part of a text may be derived as. -/
inductive Form where
  /-- A value on its own, at a place where the given charsets are active. -/
  | phrase (place : Place) (charsets : List Charset) (value : Pattern)
  /-- Steps from one draft to another. -/
  | steps (place : Place) (before after : Draft)
  /-- Branches, the first of which starts under the given charsets. -/
  | branches (charsets : List Charset) (values : List Pattern)

/-- A text derives a form up to the given rest of it. -/
inductive Derives : Form → List Char → List Char → Prop
  | byte {place : Place} {charsets : List Charset} {text digits rest : List Char}
      {bits : MaskedByte} (h : ByteSpelling text digits bits rest) (hfixed : wildcard ∉ digits) :
      Derives (.phrase place charsets (.byte bits.value false)) text rest
  | wild {place : Place} {charsets : List Charset} {text digits rest : List Char}
      {bits : MaskedByte} (h : ByteSpelling text digits bits rest) (hwild : wildcard ∈ digits) :
      Derives (.phrase place charsets (.wild bits false)) text rest
  | escape {place : Place} {charsets : List Charset} {letter : Char} {escape : Escape}
      {rest : List Char}
      (h : Escape.ofLetter? letter = some escape) :
      Derives (.phrase place charsets (escape.pattern false)) ('\\' :: letter :: rest) rest
  | set {place : Place} {charsets : List Charset} {text rest : List Char} {after : Draft}
      (members : Derives (.steps .set (.empty charsets) after) text (']' :: rest))
      (hmembers : after.items ≠ []) :
      Derives (.phrase place charsets (.set after.items.reverse false)) ('[' :: text) rest
  | quoted {place : Place} {charsets : List Charset} {casing : Casing} {body rest : List Char}
      (hbody : body ≠ []) (hquote : casing.quote ∉ body)
      (hencodable : ∀ charset ∈ place.charsets charsets, (charset.encode? body).isSome = true) :
      Derives (.phrase place charsets (quotedValue casing body (place.charsets charsets)))
        (casing.quote :: (body ++ casing.quote :: rest)) rest
  /-- No more steps. -/
  | done {place : Place} {draft : Draft} {rest : List Char} :
      Derives (.steps place draft draft) rest rest
  | gap {place : Place} {before after : Draft} {text middle rest : List Char}
      (h : Spacing text middle) (next : Derives (.steps place before after) middle rest) :
      Derives (.steps place before after) text rest
  | value {place : Place} {before after : Draft} {text middle rest : List Char} {p : Pattern}
      (h : Derives (.phrase place before.charsets p) text middle)
      (next : Derives (.steps place (before.push p) after) middle rest) :
      Derives (.steps place before after) text rest
  | any {place : Place} {before after : Draft} {text rest : List Char}
      (next : Derives (.steps place (before.push .any) after) text rest) :
      Derives (.steps place before after) ('.' :: text) rest
  | inverted {place : Place} {before after : Draft} {text operand middle rest : List Char}
      {p q : Pattern} (hgap : Gap text operand)
      (h : Derives (.phrase place before.charsets p) operand middle)
      (htoggled : p.toggled? = some q)
      (next : Derives (.steps place (before.push q) after) middle rest) :
      Derives (.steps place before after) ('^' :: text) rest
  | range {place : Place} {charsets : List Charset} {items : List Pattern} {after : Draft}
      {text operand middle rest : List Char} {first second : UInt8} {inverted : Bool}
      (hgap : Gap text operand)
      (h : Derives (.phrase place charsets (.byte second false)) operand middle)
      (next : Derives (.steps place ⟨charsets, .range first second inverted :: items⟩ after)
        middle rest) :
      Derives (.steps place ⟨charsets, .byte first inverted :: items⟩ after) ('-' :: text) rest
  | anyBits {place : Place} {before after : Draft} {text operand middle rest : List Char}
      {p : Pattern} {bits : MaskedByte} (hgap : Gap text operand)
      (h : Derives (.phrase place before.charsets p) operand middle)
      (hmasked : p.masked? = some bits)
      (next : Derives (.steps place (before.push (.anyBits bits false)) after) middle rest) :
      Derives (.steps place before after) ('~' :: text) rest
  | invertedAnyBits {place : Place} {before after : Draft}
      {text tilde operand middle rest : List Char} {p : Pattern} {bits : MaskedByte}
      (hcaret : Gap text ('~' :: tilde)) (hgap : Gap tilde operand)
      (h : Derives (.phrase place before.charsets p) operand middle)
      (hmasked : p.masked? = some bits)
      (next : Derives (.steps place (before.push (.anyBits bits true)) after) middle rest) :
      Derives (.steps place before after) ('^' :: text) rest
  | directive {place : Place} {before after : Draft} {names text rest : List Char}
      {charsets : List Charset} (hclose : ')' ∉ names) (h : Named names charsets)
      (next : Derives (.steps place ⟨charsets, before.items⟩ after) text rest) :
      Derives (.steps place before after) ('(' :: '*' :: (names ++ ')' :: text)) rest
  /-- A set has no quantifiers and no groups. -/
  | quantifier {charsets : List Charset} {operand : Pattern} {items : List Pattern}
      {after : Draft} {text middle rest : List Char} {quantifier : Quantifier}
      (h : QuantifierSpelling text quantifier middle) (hoperand : operand.isQuantifiable = true)
      (next : Derives (.steps .sequence ⟨charsets, .quantified quantifier operand :: items⟩ after)
        middle rest) :
      Derives (.steps .sequence ⟨charsets, operand :: items⟩ after) text rest
  /-- Directives inside a group do not reach beyond it. -/
  | group {before after : Draft} {text middle rest : List Char} {values : List Pattern}
      {p : Pattern} (h : Derives (.branches before.charsets values) text (')' :: middle))
      (hvalue : Alternation values p)
      (next : Derives (.steps .sequence (before.push p) after) middle rest) :
      Derives (.steps .sequence before after) ('(' :: text) rest
  | lastBranch {charsets : List Charset} {after : Draft} {text rest : List Char} {p : Pattern}
      (h : Derives (.steps .sequence (.empty charsets) after) text rest)
      (hvalue : Joined after.items p) : Derives (.branches charsets [p]) text rest
  /-- Directives of one branch reach into the next. -/
  | branch {charsets : List Charset} {after : Draft} {text middle rest : List Char} {p : Pattern}
      {values : List Pattern}
      (h : Derives (.steps .sequence (.empty charsets) after) text ('|' :: middle))
      (hvalue : Joined after.items p)
      (others : Derives (.branches after.charsets values) middle rest) :
      Derives (.branches charsets (p :: values)) text rest

/-- The pattern that a whole text denotes. -/
def Denotes (text : List Char) (p : Pattern) : Prop :=
  ∃ values, Derives (.branches [.latin1] values) text [] ∧ Alternation values p

end OctetPattern
