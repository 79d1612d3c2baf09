import OctetPattern.MaskedByte
import OctetPattern.Quoted

/-!
# Reading back what was quoted

What stands between quotes in a message is one text only, and it ends
where it ends, whatever the message says after it
(`readQuote?_quotedText`, `readQuote?_quotedChar`). None of it is hidden
from whoever looks at the message (`isHidden_of_mem_quotedText`).

Both kinds of quotes go through one induction over the text. What it needs
of a character is that its escape is seen to end where it does
(`unescaped?_append`) and does not look like the closing quote
(`escapedChar_eq_cons`).
-/

namespace OctetPattern

/-! ## The way back -/

/-- The number with the given hexadecimal digits. -/
def hexNumber (digits : List Char) : Nat :=
  digits.foldl (fun n digit => 16 * n + (hexValue? digit).elim 0 UInt8.toNat) 0

/-- The character at the front of what stands between quotes, and the
number of characters that it is written with. -/
def unescaped? : List Char → Option (Char × Nat)
  | '\\' :: '0' :: _ => some ('\x00', 2)
  | '\\' :: 't' :: _ => some ('\t', 2)
  | '\\' :: 'n' :: _ => some ('\n', 2)
  | '\\' :: 'r' :: _ => some ('\r', 2)
  | '\\' :: 'u' :: '\x7b' :: rest =>
    let digits := rest.takeWhile (· ≠ '\x7d')
    some (Char.ofNat (hexNumber digits), digits.length + 4)
  | '\\' :: c :: _ => some (c, 2)
  | c :: _ => some (c, 1)
  | [] => none

/-- The text up to a quote that closes it, and what follows that. -/
def unquoted? (quote : Char) : List Char → Option (List Char × List Char)
  | [] => none
  | c :: rest =>
    if c = quote then some ([], rest)
    else do
      let (first, size) ← unescaped? (c :: rest)
      let (others, after) ← unquoted? quote (rest.drop (size - 1))
      return (first :: others, after)
termination_by text => text.length

/-- What stands between the quote at the front and the one that closes it,
and what follows. -/
def readQuote? : List Char → Option (List Char × List Char)
  | [] => none
  | quote :: rest => unquoted? quote rest

/-! ## Code points -/

theorem hexNumber_append (digits : List Char) (digit : Char) :
    hexNumber (digits ++ [digit]) =
      16 * hexNumber digits + (hexValue? digit).elim 0 UInt8.toNat := by
  simp [hexNumber]

theorem hexValue?_digitChar : ∀ d < 16, (hexValue? (Nat.digitChar d)).elim 0 UInt8.toNat = d := by
  decide

theorem hexNumber_toDigits (n : Nat) : hexNumber (Nat.toDigits 16 n) = n := by
  induction n using Nat.strongRecOn with
  | ind n ih =>
    rw [Nat.toDigits_eq_if (by decide)]
    split
    · rename_i hlt
      rw [← List.nil_append [_], hexNumber_append, hexValue?_digitChar n hlt]
      exact Nat.zero_add n
    · rename_i hle
      rw [hexNumber_append, ih (n / 16) (by omega),
        hexValue?_digitChar _ (Nat.mod_lt n (by decide)), Nat.div_add_mod]

theorem mem_toDigits {n : Nat} {c : Char} (h : c ∈ Nat.toDigits 16 n) :
    ∃ d < 16, c = Nat.digitChar d := by
  induction n using Nat.strongRecOn with
  | ind n ih =>
    rw [Nat.toDigits_eq_if (by decide)] at h
    split at h
    · rename_i hlt
      exact ⟨n, hlt, List.mem_singleton.mp h⟩
    · rename_i hle
      rcases List.mem_append.mp h with h | h
      · exact ih (n / 16) (by omega) h
      · exact ⟨n % 16, Nat.mod_lt n (by decide), List.mem_singleton.mp h⟩

/-! ## One character -/

/-- The letters that stand for characters, and which these are. -/
def letterEscapes : List (Char × Char) :=
  [('0', '\x00'), ('t', '\t'), ('n', '\n'), ('r', '\r')]

/-- The four ways to write a character: a letter for it, the character
itself with a mark before it, its code point, or the character itself. -/
theorem escapedChar_cases (quote c : Char) :
    (∃ letter, (letter, c) ∈ letterEscapes ∧ escapedChar quote c = ['\\', letter]) ∨
      ((c = '\\' ∨ c = quote) ∧ escapedChar quote c = ['\\', c]) ∨
      escapedChar quote c = codePointEscape c ∨
      ((c ≠ '\\' ∧ c ≠ quote ∧ isHidden c = false) ∧ escapedChar quote c = [c]) := by
  rw [escapedChar]
  split
  · exact .inl ⟨'0', by simp [*, letterEscapes], rfl⟩
  split
  · exact .inl ⟨'t', by simp [*, letterEscapes], rfl⟩
  split
  · exact .inl ⟨'n', by simp [*, letterEscapes], rfl⟩
  split
  · exact .inl ⟨'r', by simp [*, letterEscapes], rfl⟩
  split
  · rename_i hmark
    exact .inr (.inl ⟨hmark, rfl⟩)
  split
  · exact .inr (.inr (.inl rfl))
  · rename_i hmark hshown
    obtain ⟨hbackslash, hquote⟩ := not_or.mp hmark
    exact .inr (.inr (.inr ⟨⟨hbackslash, hquote, Bool.eq_false_iff.mpr hshown⟩, rfl⟩))

theorem unescaped?_shown {c : Char} (hc : c ≠ '\\') (rest : List Char) :
    unescaped? (c :: rest) = some (c, 1) := by
  unfold unescaped?
  split <;> simp_all

theorem unescaped?_codePoint (c : Char) (rest : List Char) :
    unescaped? (codePointEscape c ++ rest) = some (c, (codePointEscape c).length) := by
  have hbrace : ∀ d < 16, Nat.digitChar d ≠ '\x7d' := by decide
  have hdigit : ∀ digit ∈ Nat.toDigits 16 c.toNat, decide (digit ≠ '\x7d') = true := by
    intro digit hmem
    obtain ⟨d, hd, rfl⟩ := mem_toDigits hmem
    exact decide_eq_true (hbrace d hd)
  have hdigits : (Nat.toDigits 16 c.toNat ++ '\x7d' :: rest).takeWhile (· ≠ '\x7d') =
      Nat.toDigits 16 c.toNat := by
    rw [List.takeWhile_append_of_pos hdigit, List.takeWhile_cons_of_neg (by simp),
      List.append_nil]
  have htext : codePointEscape c ++ rest =
      '\\' :: 'u' :: '\x7b' :: (Nat.toDigits 16 c.toNat ++ '\x7d' :: rest) := by
    simp [codePointEscape]
  rw [htext, unescaped?]
  simp only [hdigits, hexNumber_toDigits, Char.ofNat_toNat]
  simp [codePointEscape]

theorem isHidden_of_mem_codePointEscape {c shown : Char} (h : shown ∈ codePointEscape c) :
    isHidden shown = false := by
  have hdigit : ∀ d < 16, 0x20 ≤ (Nat.digitChar d).toNat ∧ (Nat.digitChar d).toNat < 0x7f := by
    decide
  simp only [codePointEscape, List.mem_append, List.mem_cons, List.not_mem_nil, or_false] at h
  rcases h with ((rfl | rfl | rfl) | h) | rfl
  · exact isHidden_of_ascii (by decide) (by decide)
  · exact isHidden_of_ascii (by decide) (by decide)
  · exact isHidden_of_ascii (by decide) (by decide)
  · obtain ⟨d, hd, rfl⟩ := mem_toDigits h
    exact isHidden_of_ascii (hdigit d hd).1 (hdigit d hd).2
  · exact isHidden_of_ascii (by decide) (by decide)

section
variable {quote : Char} (hquote : quote ∈ ['\x27', '\x22'])
include hquote

/-- The escape of a character is seen to end where it does, whatever
follows it. -/
theorem unescaped?_append (c : Char) (rest : List Char) :
    unescaped? (escapedChar quote c ++ rest) = some (c, (escapedChar quote c).length) := by
  rcases escapedChar_cases quote c with ⟨letter, hletter, h⟩ | ⟨hmark, h⟩ | h | ⟨⟨hc, -, -⟩, h⟩
  · rw [h]
    simp only [letterEscapes, List.mem_cons, Prod.mk.injEq, List.not_mem_nil, or_false] at hletter
    rcases hletter with ⟨rfl, rfl⟩ | ⟨rfl, rfl⟩ | ⟨rfl, rfl⟩ | ⟨rfl, rfl⟩ <;> rfl
  · rw [h]
    simp only [List.mem_cons, List.not_mem_nil, or_false] at hquote
    rcases hmark with rfl | rfl
    · rfl
    · rcases hquote with rfl | rfl <;> rfl
  · rw [h, unescaped?_codePoint]
  · rw [h, List.singleton_append, unescaped?_shown hc]
    rfl

/-- No escape looks like the quote that closes the text. -/
theorem escapedChar_eq_cons (c : Char) :
    ∃ first others, escapedChar quote c = first :: others ∧ first ≠ quote := by
  have hbackslash : '\\' ≠ quote := by
    rintro rfl
    exact absurd hquote (by decide)
  rcases escapedChar_cases quote c with ⟨letter, -, h⟩ | ⟨-, h⟩ | h | ⟨⟨-, hc, -⟩, h⟩
  · exact ⟨_, _, h, hbackslash⟩
  · exact ⟨_, _, h, hbackslash⟩
  · exact ⟨_, _, h, hbackslash⟩
  · exact ⟨_, _, h, hc⟩

/-- An escape is written in characters that are shown as themselves. -/
theorem isHidden_of_mem_escapedChar {c shown : Char} (h : shown ∈ escapedChar quote c) :
    isHidden shown = false := by
  have hbackslash : isHidden '\\' = false := isHidden_of_ascii (by decide) (by decide)
  rcases escapedChar_cases quote c with ⟨letter, hletter, hescape⟩ | ⟨hmark, hescape⟩ |
    hescape | ⟨⟨-, -, hc⟩, hescape⟩
  all_goals rw [hescape] at h
  · simp only [List.mem_cons, List.not_mem_nil, or_false] at h
    rcases h with rfl | rfl
    · exact hbackslash
    · simp only [letterEscapes, List.mem_cons, Prod.mk.injEq, List.not_mem_nil, or_false] at hletter
      rcases hletter with ⟨rfl, -⟩ | ⟨rfl, -⟩ | ⟨rfl, -⟩ | ⟨rfl, -⟩ <;>
        exact isHidden_of_ascii (by decide) (by decide)
  · simp only [List.mem_cons, List.not_mem_nil, or_false] at h hquote
    rcases h with rfl | rfl
    · exact hbackslash
    · rcases hmark with rfl | rfl
      · exact hbackslash
      · rcases hquote with rfl | rfl <;> exact isHidden_of_ascii (by decide) (by decide)
  · exact isHidden_of_mem_codePointEscape h
  · obtain rfl := List.mem_singleton.mp h
    exact hc

/-! ## Texts -/

theorem unquoted?_append (text rest : List Char) :
    unquoted? quote (text.flatMap (escapedChar quote) ++ quote :: rest) = some (text, rest) := by
  induction text with
  | nil => simp [unquoted?]
  | cons c text ih =>
    obtain ⟨first, others, hescape, hfirst⟩ := escapedChar_eq_cons hquote c
    have hfront := unescaped?_append hquote c (text.flatMap (escapedChar quote) ++ quote :: rest)
    rw [List.flatMap_cons, List.append_assoc]
    rw [hescape, List.cons_append] at hfront ⊢
    rw [unquoted?, if_neg hfirst, hfront]
    simp only [Option.bind_eq_bind, Option.bind_some, List.length_cons, Nat.add_sub_cancel,
      List.drop_left, ih]
    rfl

end

/-- What a message quotes is read off it, whatever it says after that. -/
theorem readQuote?_quotedText (text rest : List Char) :
    readQuote? ((quotedText text).toList ++ rest) = some (text, rest) := by
  have htext : (quotedText text).toList ++ rest =
      '\x22' :: (text.flatMap (escapedChar '\x22') ++ '\x22' :: rest) := by
    simp [quotedText]
  rw [htext]
  exact unquoted?_append (by decide) text rest

theorem readQuote?_quotedChar (c : Char) (rest : List Char) :
    readQuote? ((quotedChar c).toList ++ rest) = some ([c], rest) := by
  have htext : (quotedChar c).toList ++ rest =
      '\x27' :: ([c].flatMap (escapedChar '\x27') ++ '\x27' :: rest) := by
    simp [quotedChar]
  rw [htext]
  exact unquoted?_append (by decide) [c] rest

/-- Nothing that a message quotes is hidden in it. -/
theorem isHidden_of_mem_quotedText {text : List Char} {shown : Char}
    (h : shown ∈ (quotedText text).toList) : isHidden shown = false := by
  have hquote : isHidden '\x22' = false := isHidden_of_ascii (by decide) (by decide)
  rw [quotedText, String.toList_ofList, List.cons_append] at h
  rcases List.mem_cons.mp h with rfl | h
  · exact hquote
  rcases List.mem_append.mp h with h | h
  · obtain ⟨c, -, hmem⟩ := List.mem_flatMap.mp h
    exact isHidden_of_mem_escapedChar (by decide) hmem
  · obtain rfl := List.mem_singleton.mp h
    exact hquote

end OctetPattern
