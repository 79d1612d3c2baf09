import OctetPattern.Token

/-!
# Spellings

Which texts spell what, independently of how they are read. Every
relation here stands between a text and what is left of it after the
part that is spelled, so that "up to the end of the pattern" is said by
an empty rest.

- `Spacing` is one blank or one comment, `Gap` any number of them.
- `ByteSpelling` gives the digits of a masked byte besides the byte, so
  that a rule may ask whether a wildcard is among them.
- `Numeral`, `QuantifierSpelling` and `Named` are the numbers, the
  quantifiers and the names in a directive.
- `Spelled` gathers them: one constructor for each form of `Token`.

Some characters of the text spell the part, and they would before any
other rest (`Spelled.exists_lexeme`).

`Lexing` shows that `Token.read` recognises exactly `Spelled`.
-/

namespace OctetPattern

/-! ## Blanks and comments -/

/-- One blank, or a comment up to the end of its line. Only the last line
of a pattern may lack its line feed. -/
inductive Spacing : List Char → List Char → Prop
  | blank {c : Char} {rest : List Char} (hc : c ∈ [' ', '\t', '\r', '\n']) :
      Spacing (c :: rest) rest
  | comment {body rest : List Char} (hbody : '\n' ∉ body) :
      Spacing ('#' :: (body ++ '\n' :: rest)) rest
  | lastComment {body : List Char} (hbody : '\n' ∉ body) : Spacing ('#' :: body) []

/-- Any number of blanks and comments. -/
inductive Gap : List Char → List Char → Prop
  | nil {rest : List Char} : Gap rest rest
  | cons {text middle rest : List Char} (first : Spacing text middle)
      (others : Gap middle rest) : Gap text rest

/-! ## Bytes -/

/-- The byte after some more binary digits, the most significant first. -/
def MaskedByte.withBits (b : MaskedByte) : List Char → MaskedByte
  | [] => b
  | digit :: digits => (b.withBit digits.length digit).withBits digits

/-- A text begins with the given digits, behind their mark if they need
one, and they make up the given byte. -/
inductive ByteSpelling : List Char → List Char → MaskedByte → List Char → Prop
  | pair {high low : Char} {rest : List Char} (hhigh : startsByte high = true)
      (hlow : startsByte low = true) :
      ByteSpelling (high :: low :: rest) [high, low] (.ofHexPair high low) rest
  | hexadecimal {high low : Char} {rest : List Char} (hhigh : startsByte high = true)
      (hlow : startsByte low = true) :
      ByteSpelling ('0' :: 'x' :: high :: low :: rest) [high, low] (.ofHexPair high low) rest
  | binary {digits rest : List Char} (hlength : digits.length = 8)
      (hdigits : ∀ c ∈ digits, isBinaryDigit c = true) :
      ByteSpelling ('0' :: 'i' :: (digits ++ rest)) digits (MaskedByte.free.withBits digits) rest

/-! ## Counts and names -/

/-- Decimal digits that spell a count, leading zeros included. -/
structure Numeral (digits : List Char) (n : UInt32) : Prop where
  ne_nil : digits ≠ []
  isDigit : ∀ c ∈ digits, c.isDigit = true
  value : Nat.ofDigitChars 10 digits 0 = n.toNat

/-- The six spellings of a quantifier. Nothing may stand between the
characters of one. -/
inductive QuantifierSpelling : List Char → Quantifier → List Char → Prop
  | optional {rest : List Char} : QuantifierSpelling ('?' :: rest) .optional rest
  | zeroToMany {rest : List Char} : QuantifierSpelling ('*' :: rest) .zeroToMany rest
  | oneToMany {rest : List Char} : QuantifierSpelling ('+' :: rest) .oneToMany rest
  | exactly {digits rest : List Char} {n : UInt32} (hn : Numeral digits n) (hpos : n ≠ 0) :
      QuantifierSpelling ('{' :: (digits ++ '}' :: rest)) (.exactly n) rest
  | between {low high rest : List Char} {m n : UInt32} (hm : Numeral low m)
      (hn : Numeral high n) :
      QuantifierSpelling ('{' :: (low ++ ',' :: (high ++ '}' :: rest))) (.between m n) rest
  | atLeast {digits rest : List Char} {n : UInt32} (hn : Numeral digits n) :
      QuantifierSpelling ('{' :: (digits ++ ',' :: '*' :: '}' :: rest)) (.atLeast n) rest

/-- The charsets named between commas, of which one that is named again
counts where it stands first. -/
def Named (names : List Char) (charsets : List Charset) : Prop :=
  ∃ all : List Charset,
    (names.splitOn ',').map Charset.ofName? = all.map some ∧ charsets = all.eraseDups

/-! ## Tokens -/

/-- A text begins with the given token. -/
inductive Spelled : Token → List Char → List Char → Prop
  | gap {text rest : List Char} (h : Spacing text rest) : Spelled .gap text rest
  | bar {rest : List Char} : Spelled .bar ('|' :: rest) rest
  /-- An asterisk would make it a directive. -/
  | openGroup {rest : List Char} (h : rest.head? ≠ some '*') : Spelled .openGroup ('(' :: rest) rest
  | closeGroup {rest : List Char} : Spelled .closeGroup (')' :: rest) rest
  | openSet {rest : List Char} : Spelled .openSet ('[' :: rest) rest
  | closeSet {rest : List Char} : Spelled .closeSet (']' :: rest) rest
  | caret {rest : List Char} : Spelled .caret ('^' :: rest) rest
  | dash {rest : List Char} : Spelled .dash ('-' :: rest) rest
  | tilde {rest : List Char} : Spelled .tilde ('~' :: rest) rest
  | any {rest : List Char} : Spelled .any ('.' :: rest) rest
  | directive {names rest : List Char} {charsets : List Charset} (hclose : ')' ∉ names)
      (h : Named names charsets) :
      Spelled (.directive charsets) ('(' :: '*' :: (names ++ ')' :: rest)) rest
  | quantifier {text rest : List Char} {quantifier : Quantifier}
      (h : QuantifierSpelling text quantifier rest) : Spelled (.quantifier quantifier) text rest
  | quoted {casing : Casing} {body rest : List Char} (hbody : body ≠ [])
      (hquote : casing.quote ∉ body) :
      Spelled (.quoted casing body) (casing.quote :: (body ++ casing.quote :: rest)) rest
  | escape {letter : Char} {escape : Escape} {rest : List Char}
      (h : Escape.ofLetter? letter = some escape) :
      Spelled (.escape escape) ('\\' :: letter :: rest) rest
  | byte {text digits rest : List Char} {bits : MaskedByte}
      (h : ByteSpelling text digits bits rest) : Spelled (.byte bits) text rest

/-! ## The characters of a spelling -/

theorem ByteSpelling.exists_lexeme {text digits rest : List Char} {bits : MaskedByte}
    (h : ByteSpelling text digits bits rest) :
    ∃ lexeme, lexeme ≠ [] ∧ text = lexeme ++ rest ∧
      ∀ other, ByteSpelling (lexeme ++ other) digits bits other := by
  cases h with
  | @pair high low _ hhigh hlow =>
    exact ⟨[high, low], List.cons_ne_nil _ _, rfl, fun _ => .pair hhigh hlow⟩
  | @hexadecimal high low _ hhigh hlow =>
    exact ⟨['0', 'x', high, low], List.cons_ne_nil _ _, rfl, fun _ => .hexadecimal hhigh hlow⟩
  | binary hlength hdigits =>
    exact ⟨'0' :: 'i' :: digits, List.cons_ne_nil _ _, rfl, fun _ => .binary hlength hdigits⟩

theorem QuantifierSpelling.exists_lexeme {text rest : List Char} {quantifier : Quantifier}
    (h : QuantifierSpelling text quantifier rest) :
    ∃ lexeme, lexeme ≠ [] ∧ text = lexeme ++ rest ∧
      ∀ other, QuantifierSpelling (lexeme ++ other) quantifier other := by
  cases h with
  | optional => exact ⟨['?'], List.cons_ne_nil _ _, rfl, fun _ => .optional⟩
  | zeroToMany => exact ⟨['*'], List.cons_ne_nil _ _, rfl, fun _ => .zeroToMany⟩
  | oneToMany => exact ⟨['+'], List.cons_ne_nil _ _, rfl, fun _ => .oneToMany⟩
  | @exactly digits _ n hn hpos =>
    refine ⟨'{' :: (digits ++ ['}']), List.cons_ne_nil _ _, by simp, fun other => ?_⟩
    rw [List.cons_append, List.append_assoc]
    exact .exactly hn hpos
  | @between low high _ m n hm hn =>
    refine ⟨'{' :: (low ++ ',' :: (high ++ ['}'])), List.cons_ne_nil _ _, by simp,
      fun other => ?_⟩
    rw [List.cons_append, List.append_assoc, List.cons_append, List.append_assoc]
    exact .between hm hn
  | @atLeast digits _ n hn =>
    refine ⟨'{' :: (digits ++ [',', '*', '}']), List.cons_ne_nil _ _, by simp, fun other => ?_⟩
    rw [List.cons_append, List.append_assoc]
    exact .atLeast hn

/-- Only a comment at the end of a text takes in what follows. -/
theorem Spacing.exists_lexeme {text rest : List Char} (h : Spacing text rest) (hrest : rest ≠ []) :
    ∃ lexeme, lexeme ≠ [] ∧ text = lexeme ++ rest ∧ ∀ other, Spacing (lexeme ++ other) other := by
  cases h with
  | @blank c _ hc => exact ⟨[c], List.cons_ne_nil _ _, rfl, fun _ => .blank hc⟩
  | @comment body _ hbody =>
    refine ⟨'#' :: (body ++ ['\n']), List.cons_ne_nil _ _, by simp, fun other => ?_⟩
    rw [List.cons_append, List.append_assoc]
    exact .comment hbody
  | lastComment hbody => exact absurd rfl hrest

/-- A token is spelled by some characters, and would be by the same before
other text. Only a comment that nothing ends takes in what follows, and a
bracket must not be followed by an asterisk. -/
theorem Spelled.exists_lexeme {token : Token} {text rest : List Char}
    (h : Spelled token text rest) (hrest : rest ≠ []) :
    ∃ lexeme, lexeme ≠ [] ∧ text = lexeme ++ rest ∧
      ∀ other, (token = .openGroup → other.head? ≠ some '*') →
        Spelled token (lexeme ++ other) other := by
  cases h with
  | gap h =>
    obtain ⟨lexeme, hne, htext, hother⟩ := h.exists_lexeme hrest
    exact ⟨lexeme, hne, htext, fun other _ => .gap (hother other)⟩
  | bar => exact ⟨['|'], List.cons_ne_nil _ _, rfl, fun _ _ => .bar⟩
  | openGroup h => exact ⟨['('], List.cons_ne_nil _ _, rfl, fun _ hother => .openGroup (hother rfl)⟩
  | closeGroup => exact ⟨[')'], List.cons_ne_nil _ _, rfl, fun _ _ => .closeGroup⟩
  | openSet => exact ⟨['['], List.cons_ne_nil _ _, rfl, fun _ _ => .openSet⟩
  | closeSet => exact ⟨[']'], List.cons_ne_nil _ _, rfl, fun _ _ => .closeSet⟩
  | caret => exact ⟨['^'], List.cons_ne_nil _ _, rfl, fun _ _ => .caret⟩
  | dash => exact ⟨['-'], List.cons_ne_nil _ _, rfl, fun _ _ => .dash⟩
  | tilde => exact ⟨['~'], List.cons_ne_nil _ _, rfl, fun _ _ => .tilde⟩
  | any => exact ⟨['.'], List.cons_ne_nil _ _, rfl, fun _ _ => .any⟩
  | @directive names _ charsets hclose h =>
    refine ⟨'(' :: '*' :: (names ++ [')']), List.cons_ne_nil _ _, by simp, fun other _ => ?_⟩
    rw [List.cons_append, List.cons_append, List.append_assoc]
    exact .directive hclose h
  | quantifier h =>
    obtain ⟨lexeme, hne, htext, hother⟩ := h.exists_lexeme
    exact ⟨lexeme, hne, htext, fun other _ => .quantifier (hother other)⟩
  | @quoted casing body _ hbody hquote =>
    refine ⟨casing.quote :: (body ++ [casing.quote]), List.cons_ne_nil _ _, by simp,
      fun other _ => ?_⟩
    rw [List.cons_append, List.append_assoc]
    exact .quoted hbody hquote
  | @escape letter _ _ h =>
    exact ⟨['\\', letter], List.cons_ne_nil _ _, rfl, fun _ _ => .escape h⟩
  | byte h =>
    obtain ⟨lexeme, hne, htext, hother⟩ := h.exists_lexeme
    exact ⟨lexeme, hne, htext, fun other _ => .byte (hother other)⟩

end OctetPattern
