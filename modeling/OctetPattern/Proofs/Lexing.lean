import Mathlib.Data.List.TakeWhile
import OctetPattern.Proofs.Outcome
import OctetPattern.Proofs.Spelling

/-!
# Reading recognises spellings

Each reader of a cursor succeeds on the spellings of its values and on
nothing else. The facts come in pairs: `…_sound` says what a successful
reading has passed over, and `…_complete` says that a spelling is read
in full, whatever follows it. The pairs meet in `Token.read_sound` and
`Token.read_complete`.
-/

namespace OctetPattern

/-- A run of characters of one class that the text after it cannot extend. -/
theorem span_append {p : Char → Bool} {body : List Char} (rest : List Char)
    (hbody : ∀ c ∈ body, p c = true) (hrest : ∀ c ∈ rest.head?, p c = false) :
    (body ++ rest).takeWhile p = body ∧ (body ++ rest).dropWhile p = rest := by
  rw [List.takeWhile_append_of_pos hbody, List.dropWhile_append_of_pos hbody]
  cases rest with
  | nil => simp
  | cons c rest => simp [hrest c rfl]

namespace Cursor

/-! ## Up to a delimiter -/

theorem readUntil_append {delimiter : Char} {text : List Char} (h : delimiter ∉ text)
    (rest : List Char) (position : Nat) :
    readUntil delimiter ⟨text ++ delimiter :: rest, position⟩ =
      (some text, ⟨rest, position + text.length + 1⟩) := by
  have hall : ∀ c ∈ text, (c != delimiter) = true := by
    rintro c hc
    simpa using ne_of_mem_of_not_mem hc h
  obtain ⟨htake, hdrop⟩ := span_append (delimiter :: rest) hall (by simp)
  simp only [readUntil, htake, hdrop]

theorem readUntil_of_not_mem {delimiter : Char} {text : List Char} (h : delimiter ∉ text)
    (position : Nat) :
    readUntil delimiter ⟨text, position⟩ = (none, ⟨[], position + text.length⟩) := by
  have hall : ∀ c ∈ text, (c != delimiter) = true := by
    rintro c hc
    simpa using ne_of_mem_of_not_mem hc h
  obtain ⟨htake, hdrop⟩ := span_append [] hall (by simp)
  rw [List.append_nil] at htake hdrop
  simp only [readUntil, htake, hdrop]

theorem readUntil_sound {delimiter : Char} {c after : Cursor} {text : List Char}
    (h : c.readUntil delimiter = (some text, after)) :
    delimiter ∉ text ∧ c.rest = text ++ delimiter :: after.rest := by
  obtain ⟨all, position⟩ := c
  by_cases hmem : delimiter ∈ all
  · obtain ⟨before, rest, rfl, hbefore⟩ := List.eq_append_cons_of_mem hmem
    rw [readUntil_append hbefore] at h
    obtain ⟨hsome, rfl⟩ := Prod.mk.inj h
    obtain rfl := Option.some.inj hsome
    exact ⟨hbefore, rfl⟩
  · rw [readUntil_of_not_mem hmem] at h
    cases h

/-- A comment is passed over together with its line feed, if it has one. -/
theorem skipLine_sound (c : Cursor) : Spacing ('#' :: c.rest) c.skipLine.rest := by
  obtain ⟨all, position⟩ := c
  by_cases hmem : '\n' ∈ all
  · obtain ⟨before, rest, rfl, hbefore⟩ := List.eq_append_cons_of_mem hmem
    rw [skipLine, readUntil_append hbefore]
    exact .comment hbefore
  · rw [skipLine, readUntil_of_not_mem hmem]
    exact .lastComment hmem

theorem skipLine_complete {text rest : List Char} (h : Spacing ('#' :: text) rest)
    (position : Nat) : (skipLine ⟨text, position⟩).rest = rest := by
  cases h with
  | blank hc => simp at hc
  | comment hbody => rw [skipLine, readUntil_append hbody]
  | lastComment hbody => rw [skipLine, readUntil_of_not_mem hbody]

/-! ## Counts -/

theorem countOf_eq_ok {digits : List Char} {found : Option Char} {n : UInt32} :
    countOf digits found = .ok n ↔ digits ≠ [] ∧ Nat.ofDigitChars 10 digits 0 = n.toNat := by
  have hn := n.toNat_lt_size
  rw [countOf]
  split
  · rename_i hempty
    simp [List.isEmpty_iff.mp hempty]
  · rename_i hempty
    have hne : digits ≠ [] := by simpa using hempty
    rw [and_iff_right hne]
    dsimp only
    split
    · rename_i hlt
      rw [Except.ok.injEq, ← UInt32.toNat_inj, Nat.toUInt32, UInt32.toNat_ofNat_of_lt' hlt]
    · rename_i hlarge
      constructor
      · intro h
        cases h
      · intro h
        omega

theorem readNumber_sound {c after : Cursor} {n : UInt32}
    (h : c.readNumber = (.ok n, after)) :
    ∃ digits, Numeral digits n ∧ c.rest = digits ++ after.rest := by
  obtain ⟨hcount, rfl⟩ := Prod.mk.inj h
  obtain ⟨hne, hvalue⟩ := countOf_eq_ok.mp (placed_eq_ok.mp hcount)
  exact ⟨c.rest.takeWhile Char.isDigit, ⟨hne, fun d hd => List.mem_takeWhile_imp hd, hvalue⟩,
    List.takeWhile_append_dropWhile.symm⟩

/-- All digits are read, up to a character that is none. -/
theorem readNumber_append {digits rest : List Char} (hdigits : ∀ c ∈ digits, c.isDigit = true)
    (hrest : ∀ c ∈ rest.head?, c.isDigit = false) (position : Nat) :
    readNumber ⟨digits ++ rest, position⟩ =
      (placed (position + digits.length) (countOf digits rest.head?),
        ⟨rest, position + digits.length⟩) := by
  obtain ⟨htake, hdrop⟩ := span_append rest hdigits hrest
  simp only [readNumber, readDigits, htake, hdrop, peek?]

theorem readNumber_complete {digits rest : List Char} {n : UInt32} (h : Numeral digits n)
    (hrest : ∀ c ∈ rest.head?, c.isDigit = false) (position : Nat) :
    readNumber ⟨digits ++ rest, position⟩ = (.ok n, ⟨rest, position + digits.length⟩) := by
  rw [readNumber_append h.isDigit hrest, countOf_eq_ok.mpr ⟨h.ne_nil, h.value⟩]
  rfl

/-! ## Quantifiers -/

theorem readRepetitionEnd_sound {quantifier q : Quantifier} {c after : Cursor}
    (h : c.readRepetitionEnd quantifier = (.ok q, after)) :
    q = quantifier ∧ c.rest = '}' :: after.rest := by
  obtain ⟨_ | ⟨ch, rest⟩, position⟩ := c
  · simp [readRepetitionEnd, peek?, fail] at h
  · by_cases hch : ch = '}'
    · subst hch
      simp only [readRepetitionEnd, peek?, List.head?_cons, skip, if_pos] at h
      obtain ⟨hq, rfl⟩ := Prod.mk.inj h
      exact ⟨(Except.ok.inj hq).symm, rfl⟩
    · simp [readRepetitionEnd, peek?, hch, fail] at h

theorem readUpperBound_sound {min : UInt32} {q : Quantifier} {c after : Cursor}
    (h : c.readUpperBound min = (.ok q, after)) :
    (q = .atLeast min ∧ c.rest = '*' :: '}' :: after.rest) ∨
      ∃ digits max, Numeral digits max ∧ q = .between min max ∧
        c.rest = digits ++ '}' :: after.rest := by
  rw [readUpperBound] at h
  split at h
  · rename_i hstar
    obtain ⟨_ | ⟨ch, rest⟩, position⟩ := c
    · cases hstar
    · obtain rfl := Option.some.inj hstar
      obtain ⟨hq, hrest⟩ := readRepetitionEnd_sound h
      exact .inl ⟨hq, congrArg _ hrest⟩
  · split at h
    · split at h
      · cases h
      · rename_i max middle hmax
        obtain ⟨digits, hdigits, hc⟩ := readNumber_sound hmax
        obtain ⟨hq, hrest⟩ := readRepetitionEnd_sound h
        exact .inr ⟨digits, max, hdigits, hq, by rw [hc, hrest]⟩
    · cases h

theorem readRepetition_sound {q : Quantifier} {c after : Cursor}
    (h : c.readRepetition = (.ok q, after)) :
    QuantifierSpelling ('{' :: c.rest) q after.rest := by
  rw [readRepetition] at h
  split at h
  · cases h
  · rename_i min middle hmin
    obtain ⟨digits, hdigits, hc⟩ := readNumber_sound hmin
    rw [hc]
    obtain ⟨_ | ⟨ch, rest⟩, position⟩ := middle
    · simp [readBounds, peek?, fail] at h
    · rw [readBounds] at h
      split at h
      · rename_i hbrace
        obtain rfl := Option.some.inj hbrace
        split at h
        · cases h
        · rename_i hzero
          obtain ⟨hq, rfl⟩ := Prod.mk.inj h
          obtain rfl := Except.ok.inj hq
          exact .exactly hdigits hzero
      · split at h
        · rename_i hcomma
          obtain rfl := Option.some.inj hcomma
          rcases readUpperBound_sound h with ⟨rfl, hrest⟩ | ⟨high, max, hhigh, rfl, hrest⟩
          · rw [show rest = '*' :: '}' :: after.rest from hrest]
            exact .atLeast hdigits
          · rw [show rest = high ++ '}' :: after.rest from hrest]
            exact .between hdigits hhigh
        · cases h

theorem readRepetition_complete {text rest : List Char} {q : Quantifier}
    (h : QuantifierSpelling ('{' :: text) q rest) (position : Nat) :
    ∃ position', readRepetition ⟨text, position⟩ = (.ok q, ⟨rest, position'⟩) := by
  cases h with
  | exactly hn hpos =>
    rw [readRepetition, readNumber_complete hn (by simp)]
    simp only [readBounds, peek?, List.head?_cons, if_true, if_neg hpos, skip]
    exact ⟨_, rfl⟩
  | between hm hn =>
    rename_i low high m n
    obtain ⟨digit, digits, rfl⟩ := List.exists_cons_of_ne_nil hn.ne_nil
    have hdigit : digit.isDigit = true := hn.isDigit digit (List.mem_cons_self ..)
    have hstar : digit ≠ '*' := by
      rintro rfl
      simp at hdigit
    rw [readRepetition, readNumber_complete hm (by simp)]
    simp only [readBounds, peek?, List.head?_cons, Option.some.injEq, Char.reduceEq, if_false,
      if_true, skip, readUpperBound, List.cons_append, hstar, Option.any_some, hdigit]
    rw [← List.cons_append, readNumber_complete hn (by simp)]
    simp only [readRepetitionEnd, peek?, List.head?_cons, if_true, skip]
    exact ⟨_, rfl⟩
  | atLeast hn =>
    rw [readRepetition, readNumber_complete hn (by simp)]
    simp only [readBounds, peek?, List.head?_cons, Option.some.injEq, Char.reduceEq, if_false,
      if_true, skip, readUpperBound, readRepetitionEnd]
    exact ⟨_, rfl⟩

/-! ## Strings, escapes and directives -/

theorem readQuoted_sound {casing : Casing} {c after : Cursor} {text : List Char}
    (h : c.readQuoted casing = (.ok text, after)) :
    text ≠ [] ∧ casing.quote ∉ text ∧ c.rest = text ++ casing.quote :: after.rest := by
  rw [readQuoted] at h
  split at h
  · cases h
  · cases h
  · rename_i text' after' hne huntil
    obtain ⟨htext, rfl⟩ := Prod.mk.inj h
    obtain rfl := Except.ok.inj htext
    refine ⟨?_, readUntil_sound huntil⟩
    rintro rfl
    exact hne rfl

theorem readQuoted_complete {casing : Casing} {text : List Char} (hne : text ≠ [])
    (hquote : casing.quote ∉ text) (rest : List Char) (position : Nat) :
    ∃ position', readQuoted casing ⟨text ++ casing.quote :: rest, position⟩ =
      (.ok text, ⟨rest, position'⟩) := by
  obtain ⟨c, text, rfl⟩ := List.exists_cons_of_ne_nil hne
  rw [readQuoted, readUntil_append hquote]
  exact ⟨_, rfl⟩

theorem readEscape_sound {c after : Cursor} {escape : Escape}
    (h : c.readEscape = (.ok escape, after)) :
    ∃ letter, Escape.ofLetter? letter = some escape ∧ c.rest = letter :: after.rest := by
  obtain ⟨_ | ⟨letter, rest⟩, position⟩ := c
  · cases h
  · simp only [readEscape, peek?, List.head?_cons] at h
    split at h
    · cases h
    · rename_i escape' hletter
      obtain ⟨hescape, rfl⟩ := Prod.mk.inj h
      obtain rfl := Except.ok.inj hescape
      exact ⟨letter, hletter, rfl⟩

theorem readEscape_complete {letter : Char} {escape : Escape}
    (h : Escape.ofLetter? letter = some escape) (rest : List Char) (position : Nat) :
    readEscape ⟨letter :: rest, position⟩ = (.ok escape, ⟨rest, position + 1⟩) := by
  simp only [readEscape, peek?, List.head?_cons, h, skip]

end Cursor

theorem charsetNamed_eq_ok {name : List Char} {charset : Charset} :
    charsetNamed name = .ok charset ↔ Charset.ofName? name = some charset := by
  rw [charsetNamed]
  split <;> simp_all

theorem mapM_charsetNamed_eq_ok {names : List (List Char)} {all : List Charset} :
    names.mapM charsetNamed = .ok all ↔ names.map Charset.ofName? = all.map some := by
  induction names generalizing all with
  | nil => cases all <;> simp [pure, Except.pure]
  | cons name names ih =>
    simp only [List.mapM_cons, bind_eq_ok, charsetNamed_eq_ok, ih, pure, Except.pure]
    constructor
    · rintro ⟨charset, hname, charsets, hnames, ⟨⟩⟩
      rw [List.map_cons, List.map_cons, hname, hnames]
    · intro h
      rcases all with _ | ⟨charset, charsets⟩
      · cases h
      · obtain ⟨hname, hnames⟩ := List.cons.inj h
        exact ⟨charset, hname, charsets, hnames, rfl⟩

/-- The names in a directive are read as they are meant. -/
theorem charsetsNamed_eq_ok {names : List Char} {charsets : List Charset} :
    charsetsNamed names = .ok charsets ↔ Named names charsets := by
  simp only [charsetsNamed, Named, map_eq_ok, mapM_charsetNamed_eq_ok, @eq_comm _ charsets]

namespace Cursor

theorem readDirective_sound {c after : Cursor} {charsets : List Charset}
    (h : c.readDirective = (.ok charsets, after)) :
    ∃ names, ')' ∉ names ∧ Named names charsets ∧ c.skip.rest = names ++ ')' :: after.rest := by
  rw [readDirective] at h
  split at h
  · cases h
  · rename_i names after' huntil
    obtain ⟨hclose, hrest⟩ := readUntil_sound huntil
    obtain ⟨hplaced, rfl⟩ := Prod.mk.inj h
    have hnames := charsetsNamed_eq_ok.mp (placed_eq_ok.mp hplaced)
    exact ⟨names, hclose, hnames, hrest⟩

theorem readDirective_complete {names : List Char} {charsets : List Charset}
    (hclose : ')' ∉ names) (h : Named names charsets) (rest : List Char) (position : Nat) :
    ∃ position', readDirective ⟨'*' :: (names ++ ')' :: rest), position⟩ =
      (.ok charsets, ⟨rest, position'⟩) := by
  simp only [readDirective, skip]
  rw [readUntil_append hclose]
  simp only [charsetsNamed_eq_ok.mpr h, placed]
  exact ⟨_, rfl⟩

/-! ## Bytes -/

theorem readDigit_sound {radix : Radix} {c after : Cursor} {digit : Char}
    (h : c.readDigit radix = (.ok digit, after)) :
    radix.allows digit = true ∧ c.next? = some (digit, after) := by
  obtain ⟨_ | ⟨ch, rest⟩, position⟩ := c
  · cases h
  · by_cases hch : radix.allows ch = true
    · simp only [readDigit, peek?, List.head?_cons, Option.filter_some, hch, if_true, skip] at h
      obtain ⟨hdigit, rfl⟩ := Prod.mk.inj h
      obtain rfl := Except.ok.inj hdigit
      exact ⟨hch, rfl⟩
    · simp [readDigit, peek?, Option.filter_some, hch, fail] at h

theorem readDigit_complete (radix : Radix) {digit : Char} (h : radix.allows digit = true)
    (rest : List Char) (position : Nat) :
    readDigit radix ⟨digit :: rest, position⟩ = (.ok digit, ⟨rest, position + 1⟩) := by
  simp [readDigit, peek?, Option.filter_some, h, skip]

theorem readHexPair_sound {register bits : MaskedByte} {c after : Cursor}
    (h : c.readHexPair register = ⟨.ok (), bits, after⟩) :
    ∃ high low, startsByte high = true ∧ startsByte low = true ∧
      bits = .ofHexPair high low ∧ c.rest = high :: low :: after.rest := by
  rw [readHexPair] at h
  split at h
  · cases h
  · rename_i high middle hhigh
    split at h
    · cases h
    · rename_i low after' hlow
      obtain ⟨hh, hc⟩ := readDigit_sound hhigh
      obtain ⟨hl, hmiddle⟩ := readDigit_sound hlow
      obtain ⟨-, rfl, rfl⟩ := ByteReading.mk.inj h
      exact ⟨high, low, hh, hl, rfl,
        by rw [(next?_eq_some.mp hc).1, (next?_eq_some.mp hmiddle).1]⟩

theorem readBits_sound {n : Nat} {register bits : MaskedByte} {c after : Cursor}
    (h : readBits n register c = ⟨.ok (), bits, after⟩) :
    ∃ digits, digits.length = n ∧ (∀ d ∈ digits, isBinaryDigit d = true) ∧
      bits = register.withBits digits ∧ c.rest = digits ++ after.rest := by
  induction n generalizing register c with
  | zero =>
    obtain ⟨-, rfl, rfl⟩ := ByteReading.mk.inj h
    exact ⟨[], rfl, by simp, rfl, rfl⟩
  | succ n ih =>
    rw [readBits] at h
    split at h
    · cases h
    · rename_i digit middle hdigit
      obtain ⟨hd, hc⟩ := readDigit_sound hdigit
      obtain ⟨digits, hlength, hdigits, hbits, hrest⟩ := ih h
      refine ⟨digit :: digits, by rw [List.length_cons, hlength], ?_, ?_, ?_⟩
      · simpa using ⟨hd, hdigits⟩
      · rw [hbits, MaskedByte.withBits, hlength]
      · rw [(next?_eq_some.mp hc).1, hrest, List.cons_append]

theorem readBits_complete {digits : List Char} (h : ∀ d ∈ digits, isBinaryDigit d = true)
    (register : MaskedByte) (rest : List Char) (position : Nat) :
    readBits digits.length register ⟨digits ++ rest, position⟩ =
      ⟨.ok (), register.withBits digits, ⟨rest, position + digits.length⟩⟩ := by
  induction digits generalizing register position with
  | nil => rfl
  | cons digit digits ih =>
    have hdigit : Radix.allows .binary digit = true := h digit (List.mem_cons_self ..)
    simp only [List.length_cons, readBits, List.cons_append, readDigit_complete .binary hdigit]
    rw [ih fun d hd => h d (List.mem_cons_of_mem _ hd)]
    simp only [MaskedByte.withBits, Nat.add_assoc, Nat.add_comm 1]

theorem readSecondDigit_sound {register bits : MaskedByte} {first : Char} {c after : Cursor}
    (h : c.readSecondDigit register first = ⟨.ok (), bits, after⟩) :
    ∃ second, startsByte second = true ∧ bits = .ofHexPair first second ∧
      c.rest = second :: after.rest := by
  obtain ⟨_ | ⟨ch, rest⟩, position⟩ := c
  · simp [readSecondDigit, peek?, fail] at h
  · by_cases hch : startsByte ch = true
    · simp only [readSecondDigit, peek?, List.head?_cons, Option.filter_some, hch, if_true,
        skip] at h
      obtain ⟨-, rfl, rfl⟩ := ByteReading.mk.inj h
      exact ⟨ch, hch, rfl, rfl⟩
    · simp [readSecondDigit, peek?, Option.filter_some, hch, fail] at h

theorem readByte_sound {register bits : MaskedByte} {first : Char} {c after : Cursor}
    (hfirst : startsByte first = true) (h : c.readByte register first = ⟨.ok (), bits, after⟩) :
    ∃ digits, ByteSpelling (first :: c.rest) digits bits after.rest := by
  have hmark : ∀ {mark : Char}, c.peek? = some mark → c.rest = mark :: c.skip.rest := by
    intro mark hpeek
    obtain ⟨_ | ⟨ch, rest⟩, position⟩ := c
    · cases hpeek
    · obtain rfl := Option.some.inj hpeek
      rfl
  rw [readByte] at h
  split at h
  · rename_i hx
    obtain ⟨high, low, hhigh, hlow, rfl, hrest⟩ := readHexPair_sound h
    rw [hx.1, hmark hx.2, hrest]
    exact ⟨_, .hexadecimal hhigh hlow⟩
  · split at h
    · rename_i hi
      obtain ⟨digits, hlength, hdigits, rfl, hrest⟩ := readBits_sound h
      rw [hi.1, hmark hi.2, hrest]
      exact ⟨digits, .binary hlength hdigits⟩
    · obtain ⟨second, hsecond, rfl, hrest⟩ := readSecondDigit_sound h
      rw [hrest]
      exact ⟨_, .pair hfirst hsecond⟩

theorem readMasked_sound {first : Char} {c after : Cursor} {bits : MaskedByte}
    (hfirst : startsByte first = true) (h : c.readMasked first = (.ok bits, after)) :
    ∃ digits, ByteSpelling (first :: c.rest) digits bits after.rest := by
  rw [readMasked] at h
  generalize hreading : c.readByte .zero first = reading at h
  obtain ⟨outcome, register, cursor⟩ := reading
  obtain ⟨hmap, rfl⟩ := Prod.mk.inj h
  obtain ⟨u, rfl, rfl⟩ := map_eq_ok.mp hmap
  exact readByte_sound hfirst hreading

/-- A spelling is read in full, and alike into every register. -/
theorem readByte_complete {first : Char} {text digits rest : List Char} {bits : MaskedByte}
    (h : ByteSpelling (first :: text) digits bits rest) (position : Nat) :
    ∃ position', ∀ register, readByte register first ⟨text, position⟩ =
      ⟨.ok (), bits, ⟨rest, position'⟩⟩ := by
  cases h with
  | pair hhigh hlow =>
    rename_i low
    have hx : low ≠ 'x' := by
      rintro rfl
      simp [startsByte, hexValue?, wildcard] at hlow
    have hi : low ≠ 'i' := by
      rintro rfl
      simp [startsByte, hexValue?, wildcard] at hlow
    simp only [readByte, peek?, List.head?_cons, Option.some.injEq, hx, hi, and_false,
      if_false, readSecondDigit, Option.filter_some, hlow, if_true, skip]
    exact ⟨_, fun _ => rfl⟩
  | hexadecimal hhigh hlow =>
    simp only [readByte, peek?, List.head?_cons, true_and, if_true, skip, readHexPair,
      readDigit_complete .hexadecimal hhigh,
      readDigit_complete .hexadecimal hlow]
    exact ⟨_, fun _ => rfl⟩
  | binary hlength hdigits =>
    have hbits := readBits_complete hdigits .free rest (position + 1)
    rw [hlength] at hbits
    simp only [readByte, peek?, List.head?_cons, Option.some.injEq, Char.reduceEq,
      and_false, if_false, true_and, if_true, skip, hbits]
    exact ⟨_, fun _ => rfl⟩

theorem readMasked_complete {first : Char} {text digits rest : List Char} {bits : MaskedByte}
    (h : ByteSpelling (first :: text) digits bits rest) (position : Nat) :
    ∃ position', readMasked first ⟨text, position⟩ = (.ok bits, ⟨rest, position'⟩) := by
  obtain ⟨position', hread⟩ := readByte_complete h position
  rw [readMasked, hread]
  exact ⟨position', rfl⟩

end Cursor

/-! ## Tokens -/

theorem Reading.map_eq_ok {r : Reading α} {f : α → β} {b : β} {after : Cursor} :
    r.map f = (.ok b, after) ↔ ∃ a, r = (.ok a, after) ∧ b = f a := by
  obtain ⟨outcome, cursor⟩ := r
  constructor
  · intro h
    obtain ⟨hmap, rfl⟩ := Prod.mk.inj h
    obtain ⟨a, rfl, rfl⟩ := OctetPattern.map_eq_ok.mp hmap
    exact ⟨a, rfl, rfl⟩
  · rintro ⟨a, ha, rfl⟩
    obtain ⟨rfl, rfl⟩ := Prod.mk.inj ha
    rfl

theorem Lead.of_startsByte {c : Char} (h : startsByte c = true) (next : Option Char) :
    Lead.of c next = .digit := by
  unfold Lead.of
  split <;> exact if_pos h

/-- A token that has been read is spelled by what was passed over, unless
the character leads no token at all. -/
theorem Token.read_sound {first : Char} {c after : Cursor} {token : Token}
    (h : Token.read first (Lead.of first c.peek?) c = (.ok token, after)) :
    Spelled token (first :: c.rest) after.rest ∨ ∃ ch, token = .other ch := by
  -- The characters that are whole tokens leave the cursor where it is.
  have hwhole : ∀ {token' : Token}, ((.ok token', c) : Reading Token) = (.ok token, after) →
      token = token' ∧ after = c := by
    intro token' hread
    obtain ⟨htoken, rfl⟩ := Prod.mk.inj hread
    exact ⟨(Except.ok.inj htoken).symm, rfl⟩
  unfold Lead.of at h
  split at h
  case h_1 | h_2 | h_3 | h_4 =>
    obtain ⟨rfl, rfl⟩ := hwhole h
    exact .inl (.gap (.blank (by simp)))
  case h_5 =>
    obtain ⟨htoken, rfl⟩ := Prod.mk.inj h
    obtain rfl := Except.ok.inj htoken
    exact .inl (.gap c.skipLine_sound)
  case h_7 =>
    split at h
    · rename_i hstar
      obtain ⟨charsets, hread, rfl⟩ := Reading.map_eq_ok.mp h
      obtain ⟨names, hclose, hnames, hrest⟩ := Cursor.readDirective_sound hread
      obtain ⟨_ | ⟨ch, rest⟩, position⟩ := c
      · cases hstar
      · obtain rfl := Option.some.inj hstar
        exact .inl (by rw [show rest = _ from hrest]; exact .directive hclose hnames)
    · rename_i hstar
      obtain ⟨rfl, rfl⟩ := hwhole h
      exact .inl (.openGroup hstar)
  case h_6 | h_8 | h_9 | h_10 | h_11 | h_12 | h_13 | h_14 =>
    obtain ⟨rfl, rfl⟩ := hwhole h
    exact .inl (by constructor)
  case h_15 | h_16 | h_17 =>
    obtain ⟨rfl, rfl⟩ := hwhole h
    exact .inl (.quantifier (by constructor))
  case h_18 =>
    obtain ⟨quantifier, hread, rfl⟩ := Reading.map_eq_ok.mp h
    exact .inl (.quantifier (Cursor.readRepetition_sound hread))
  case h_19 | h_20 =>
    obtain ⟨body, hread, rfl⟩ := Reading.map_eq_ok.mp h
    obtain ⟨hbody, hquote, hrest⟩ := Cursor.readQuoted_sound hread
    rw [hrest]
    exact .inl (.quoted hbody hquote)
  case h_21 =>
    obtain ⟨escape, hread, rfl⟩ := Reading.map_eq_ok.mp h
    obtain ⟨letter, hletter, hrest⟩ := Cursor.readEscape_sound hread
    rw [hrest]
    exact .inl (.escape hletter)
  case h_22 =>
    split at h
    · rename_i hfirst
      obtain ⟨bits, hread, rfl⟩ := Reading.map_eq_ok.mp h
      obtain ⟨digits, hbits⟩ := Cursor.readMasked_sound hfirst hread
      exact .inl (.byte hbits)
    · obtain ⟨rfl, rfl⟩ := hwhole h
      exact .inr ⟨_, rfl⟩

theorem ByteSpelling.startsByte {first : Char} {text digits rest : List Char} {bits : MaskedByte}
    (h : ByteSpelling (first :: text) digits bits rest) : startsByte first = true := by
  cases h with
  | pair hhigh hlow => exact hhigh
  | hexadecimal hhigh hlow => decide
  | binary hlength hdigits => decide

/-- A spelling of a token is read as that token, whatever follows it. -/
theorem Token.read_complete {token : Token} {first : Char} {text rest : List Char}
    (h : Spelled token (first :: text) rest) (position : Nat) :
    ∃ position', Token.read first (Lead.of first text.head?) ⟨text, position⟩ =
      (.ok token, ⟨rest, position'⟩) := by
  cases h with
  | gap hspacing =>
    by_cases hfirst : first = '#'
    · subst hfirst
      have hline := Cursor.skipLine_complete hspacing position
      refine ⟨(Cursor.skipLine ⟨text, position⟩).position, ?_⟩
      simp only [Lead.of, Token.read, ← hline]
    · cases hspacing with
      | blank hblank =>
        simp only [List.mem_cons, List.not_mem_nil, or_false] at hblank
        rcases hblank with rfl | rfl | rfl | rfl <;> exact ⟨_, rfl⟩
      | comment hbody => exact absurd rfl hfirst
      | lastComment hbody => exact absurd rfl hfirst
  | bar => exact ⟨_, rfl⟩
  | openGroup hstar => simp only [Lead.of, hstar, if_false]; exact ⟨_, rfl⟩
  | closeGroup => exact ⟨_, rfl⟩
  | openSet => exact ⟨_, rfl⟩
  | closeSet => exact ⟨_, rfl⟩
  | caret => exact ⟨_, rfl⟩
  | dash => exact ⟨_, rfl⟩
  | tilde => exact ⟨_, rfl⟩
  | any => exact ⟨_, rfl⟩
  | directive hclose hnames =>
    obtain ⟨position', hread⟩ := Cursor.readDirective_complete hclose hnames rest position
    exact ⟨position', Reading.map_eq_ok.mpr ⟨_, hread, rfl⟩⟩
  | quantifier hspelling =>
    rename_i q
    by_cases hfirst : first = '{'
    · subst hfirst
      obtain ⟨position', hread⟩ := Cursor.readRepetition_complete hspelling position
      exact ⟨position', Reading.map_eq_ok.mpr ⟨_, hread, rfl⟩⟩
    · cases hspelling with
      | optional => exact ⟨_, rfl⟩
      | zeroToMany => exact ⟨_, rfl⟩
      | oneToMany => exact ⟨_, rfl⟩
      | exactly hn hpos => exact absurd rfl hfirst
      | between hm hn => exact absurd rfl hfirst
      | atLeast hn => exact absurd rfl hfirst
  | quoted hbody hquote =>
    rename_i casing body
    obtain ⟨position', hread⟩ := Cursor.readQuoted_complete hbody hquote rest position
    cases casing <;> exact ⟨position', Reading.map_eq_ok.mpr ⟨_, hread, rfl⟩⟩
  | escape hletter =>
    exact ⟨_, Reading.map_eq_ok.mpr ⟨_, Cursor.readEscape_complete hletter rest position, rfl⟩⟩
  | byte hspelling =>
    obtain ⟨position', hread⟩ := Cursor.readMasked_complete hspelling position
    rw [Lead.of_startsByte hspelling.startsByte]
    exact ⟨position', Reading.map_eq_ok.mpr ⟨_, hread, rfl⟩⟩

end OctetPattern
