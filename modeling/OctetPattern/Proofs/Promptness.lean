import OctetPattern.Proofs.Lexing

/-!
# Prompt readers

A reader is prompt (`Prompt`) if a mistake is noticed where it is made.
Three things are meant by that: it reads forwards; an error stands at the
cursor the reader has reached, and says that something was left open only
if that is the end of the text; and what it gives, error or not, depends
on no more than the characters it has read and the one after them. For the
last, `Cursor.AlikeThrough` compares two texts that go on differently.

Prompt readers are put together from prompt readers, and so every reader
is, up to `Token.read` (`Token.prompt_read`).
-/

namespace OctetPattern

/-! ## Errors at a cursor -/

/-- The failure is that something was opened and not closed. -/
def Cause.leavesOpen : Cause → Bool
  | unclosedSet | unclosedGroup | unclosedDirective | unclosedString _ => true
  | _ => false

/-- The error is placed where the reader is, and leaves something open
only at the end of the text. -/
structure SyntaxError.StandsAt (e : SyntaxError) (after : Cursor) : Prop where
  position : e.position = after.position
  atEnd : e.cause.leavesOpen = true → after.rest = []

/-- A failure leaves nothing open. -/
abbrev Closes {α : Type} (x : Except Cause α) : Prop :=
  Blames (·.leavesOpen = false) x

theorem closes_error {α : Type} {cause : Cause} (h : cause.leavesOpen = false) :
    Closes (.error cause : Except Cause α) :=
  blames_error.mpr h

/-! ## Texts that go on differently -/

namespace Cursor

/-- Two cursors at the same place, with the same characters after them up
to the one that follows the bound. -/
inductive AlikeThrough (bound : Nat) : Cursor → Cursor → Prop
  | intro {position : Nat} {known rest rest' : List Char} (h : bound < position + known.length) :
      AlikeThrough bound ⟨known ++ rest, position⟩ ⟨known ++ rest', position⟩

namespace AlikeThrough

variable {bound : Nat} {c d : Cursor}

theorem of_take {text other : List Char} (hbound : bound < text.length)
    (h : other.take (bound + 1) = text.take (bound + 1)) :
    AlikeThrough bound (start text) (start other) := by
  have hlength : bound < 0 + (text.take (bound + 1)).length := by
    rw [List.length_take]
    omega
  have halike : AlikeThrough bound ⟨text.take (bound + 1) ++ text.drop (bound + 1), 0⟩
      ⟨text.take (bound + 1) ++ other.drop (bound + 1), 0⟩ := .intro hlength
  rwa [List.take_append_drop, ← h, List.take_append_drop] at halike

theorem position_eq (h : AlikeThrough bound c d) : d.position = c.position := by
  cases h
  rfl

/-- Up to the bound there is a next character, and it is the same. -/
theorem next (h : AlikeThrough bound c d) (hle : c.position ≤ bound) :
    ∃ first c' d', c.next? = some (first, c') ∧ d.next? = some (first, d') ∧
      AlikeThrough bound c' d' := by
  obtain @⟨position, known, rest, rest', hbound⟩ := h
  cases known with
  | nil => exact absurd hle (Nat.not_le.mpr hbound)
  | cons first known =>
    have hlength : bound < position + 1 + known.length := by
      rw [List.length_cons] at hbound
      omega
    exact ⟨first, ⟨known ++ rest, position + 1⟩, ⟨known ++ rest', position + 1⟩, rfl, rfl,
      .intro hlength⟩

theorem peek? (h : AlikeThrough bound c d) (hle : c.position ≤ bound) :
    d.peek? = c.peek? := by
  obtain ⟨first, c', d', hc, hd, -⟩ := h.next hle
  rw [Cursor.peek?, Cursor.peek?, (next?_eq_some.mp hc).1, (next?_eq_some.mp hd).1]
  rfl

end AlikeThrough

theorem AlikeThrough.skip {bound : Nat} {c d : Cursor} (h : AlikeThrough bound c d)
    (hle : c.position ≤ bound) : AlikeThrough bound c.skip d.skip := by
  obtain ⟨first, c', d', hc, hd, halike⟩ := h.next hle
  rwa [skip_eq hc, skip_eq hd]

/-- If the delimiter is found within the bound, so it is in the other text. -/
theorem AlikeThrough.readUntil {bound : Nat} {c d : Cursor} (h : AlikeThrough bound c d)
    (delimiter : Char) (hle : (c.readUntil delimiter).2.position ≤ bound) :
    (d.readUntil delimiter).1 = (c.readUntil delimiter).1 ∧
      AlikeThrough bound (c.readUntil delimiter).2 (d.readUntil delimiter).2 := by
  obtain @⟨position, known, rest, rest', hbound⟩ := h
  by_cases hmem : delimiter ∈ known
  · obtain ⟨before, more, rfl, hbefore⟩ := List.eq_append_cons_of_mem hmem
    rw [List.append_assoc, List.append_assoc, List.cons_append, List.cons_append,
      readUntil_append hbefore, readUntil_append hbefore]
    rw [List.length_append, List.length_cons] at hbound
    exact ⟨rfl, .intro (by omega)⟩
  · -- the search goes on beyond what is known to be the same
    exfalso
    by_cases hrest : delimiter ∈ rest
    · obtain ⟨before, more, rfl, hbefore⟩ := List.eq_append_cons_of_mem hrest
      have hnone : delimiter ∉ known ++ before := by simp [hmem, hbefore]
      rw [← List.append_assoc, readUntil_append hnone, List.length_append] at hle
      simp only at hle
      omega
    · have hnone : delimiter ∉ known ++ rest := by simp [hmem, hrest]
      rw [readUntil_of_not_mem hnone, List.length_append] at hle
      simp only at hle
      omega

theorem readUntil_eq_none {c after : Cursor} {delimiter : Char}
    (h : c.readUntil delimiter = (none, after)) : after.rest = [] := by
  simp only [readUntil] at h
  split at h
  · obtain ⟨-, rfl⟩ := Prod.mk.inj h
    rfl
  · cases h

/-- The digits end within the bound, so they do in the other text. -/
theorem AlikeThrough.readNumber {bound : Nat} {c d : Cursor} (h : AlikeThrough bound c d)
    (hle : c.readNumber.2.position ≤ bound) :
    d.readNumber.1 = c.readNumber.1 ∧ AlikeThrough bound c.readNumber.2 d.readNumber.2 := by
  obtain @⟨position, known, rest, rest', hbound⟩ := h
  have hsplit := List.takeWhile_append_dropWhile (p := Char.isDigit) (l := known)
  have hdigits : ∀ c ∈ known.takeWhile Char.isDigit, c.isDigit = true :=
    fun _ hc => List.mem_takeWhile_imp hc
  generalize known.takeWhile Char.isDigit = digits at hsplit hdigits
  cases hmore : known.dropWhile Char.isDigit with
  | nil =>
    -- there are digits up to the end of what is known to be the same
    rw [hmore, List.append_nil] at hsplit
    subst hsplit
    have hlength : digits.length ≤ ((digits ++ rest).takeWhile Char.isDigit).length := by
      rw [List.takeWhile_append_of_pos hdigits, List.length_append]
      exact Nat.le_add_right _ _
    simp only [Cursor.readNumber, readDigits] at hle
    omega
  | cons x more =>
    have hx : x.isDigit = false := by
      have hhead := List.head?_dropWhile_not Char.isDigit known
      rw [hmore] at hhead
      simpa using hhead
    rw [hmore] at hsplit
    subst hsplit
    rw [List.append_assoc, List.append_assoc, readNumber_append hdigits (by simpa using hx),
      readNumber_append hdigits (by simpa using hx)]
    rw [List.length_append] at hbound
    exact ⟨rfl, .intro (by omega)⟩

end Cursor

/-! ## Prompt readers -/

/-- A reader that notices a mistake where it is made. -/
structure Prompt {α : Type} (read : Cursor → Reading α) : Prop where
  reaches (c : Cursor) : c.Reaches (read c).2
  stands {c : Cursor} {e : SyntaxError} (h : (read c).1 = .error e) : e.StandsAt (read c).2
  /-- What the reader has not come to does not matter, but for one character. -/
  alike {bound : Nat} {c d : Cursor} (h : c.AlikeThrough bound d)
    (hle : (read c).2.position ≤ bound) :
    (read d).1 = (read c).1 ∧ (read c).2.AlikeThrough bound (read d).2

/-- Reading on after a success. -/
def Reading.andThen {α β : Type} (r : Reading α) (next : α → Cursor → Reading β) : Reading β :=
  match r with
  | (.error e, after) => (.error e, after)
  | (.ok a, after) => next a after

theorem Reading.map_eq_andThen {α β : Type} (r : Reading α) (f : α → β) :
    r.map f = r.andThen fun a c => (.ok (f a), c) := by
  obtain ⟨_ | _, after⟩ := r <;> rfl

namespace Prompt

variable {α β : Type}

theorem congr {read other : Cursor → Reading α} (h : Prompt read)
    (heq : ∀ c, other c = read c) : Prompt other :=
  (funext heq : other = read) ▸ h

/-- A judgement on the spot. -/
theorem placed {x : Except Cause α} (h : Closes x) :
    Prompt fun c => (OctetPattern.placed c.position x, c) where
  reaches c := .refl c
  stands {c e} he := by
    cases x with
    | ok a => cases he
    | error cause =>
      cases he
      exact ⟨rfl, fun hopen => absurd hopen (by simp [h cause rfl])⟩
  alike halike _ := ⟨by rw [halike.position_eq], halike⟩

theorem ok (a : α) : Prompt fun c => (.ok a, c) :=
  placed (blames_ok a)

theorem fail (cause : Cause) (h : cause.leavesOpen = false) :
    Prompt fun c => (c.fail cause : Reading α) :=
  placed (closes_error h)

theorem skip {read : Cursor → Reading α} (h : Prompt read) : Prompt fun c => read c.skip where
  reaches c := c.reaches_skip.trans (h.reaches c.skip)
  stands he := h.stands he
  alike {bound c d} halike hle := by
    have hposition := (c.reaches_skip.trans (h.reaches c.skip)).position_le
    exact h.alike (halike.skip (hposition.trans hle)) hle

/-- What is read may depend on the next character. -/
theorem look {read : Option Char → Cursor → Reading α} (h : ∀ found, Prompt (read found)) :
    Prompt fun c => read c.peek? c where
  reaches c := (h c.peek?).reaches c
  stands he := (h _).stands he
  alike {bound c d} halike hle := by
    have hposition := ((h c.peek?).reaches c).position_le
    rw [halike.peek? (hposition.trans hle)]
    exact (h c.peek?).alike halike hle

theorem ite {p : Prop} [Decidable p] {read other : Cursor → Reading α} (h : Prompt read)
    (h' : Prompt other) : Prompt fun c => if p then read c else other c := by
  split
  · exact h
  · exact h'

theorem andThen {read : Cursor → Reading α} {next : α → Cursor → Reading β} (h : Prompt read)
    (hnext : ∀ a, Prompt (next a)) : Prompt fun c => (read c).andThen next where
  reaches c := by
    have hreaches := h.reaches c
    generalize read c = reading at hreaches ⊢
    obtain ⟨e | a, after⟩ := reading
    · exact hreaches
    · exact hreaches.trans ((hnext a).reaches after)
  stands {c e} he := by
    have hstands : ∀ e, (read c).1 = .error e → e.StandsAt (read c).2 := fun _ => h.stands
    generalize read c = reading at hstands he ⊢
    obtain ⟨e' | a, after⟩ := reading
    · obtain rfl := Except.error.inj he
      exact hstands e' rfl
    · exact (hnext a).stands he
  alike {bound c d} halike hle := by
    have hread := h.alike halike
    generalize read c = reading at hread hle ⊢
    generalize read d = reading' at hread ⊢
    obtain ⟨outcome, after'⟩ := reading'
    obtain ⟨e | a, after⟩ := reading
    · obtain ⟨rfl, hafter⟩ := hread hle
      exact ⟨rfl, hafter⟩
    · have hposition : after.position ≤ bound :=
        ((hnext a).reaches after).position_le.trans hle
      obtain ⟨rfl, hafter⟩ := hread hposition
      exact (hnext a).alike hafter hle

theorem map {read : Cursor → Reading α} (h : Prompt read) (f : α → β) :
    Prompt fun c => (read c).map f := by
  simp only [Reading.map_eq_andThen]
  exact h.andThen fun a => ok (f a)

end Prompt

/-! ## Every reader -/

namespace Cursor

theorem closes_countOf (digits : List Char) (found : Option Char) :
    Closes (countOf digits found) := by
  simp only [countOf]
  split
  · exact closes_error rfl
  · split
    · exact blames_ok _
    · exact closes_error rfl

theorem prompt_readNumber : Prompt readNumber where
  reaches := reaches_readNumber
  stands {c _} he :=
    (Prompt.placed (closes_countOf c.readDigits.1 c.readDigits.2.peek?)).stands
      (c := c.readDigits.2) he
  alike := AlikeThrough.readNumber

/-- The text before the next delimiter, where there must be one. -/
def readThrough (delimiter : Char) (missing : Cause) (c : Cursor) : Reading (List Char) :=
  match c.readUntil delimiter with
  | (none, after) => after.fail missing
  | (some text, after) => (.ok text, after)

/-- If there is no delimiter, the search has come to the end. -/
theorem prompt_readThrough (delimiter : Char) (missing : Cause) :
    Prompt (readThrough delimiter missing) where
  reaches c := by
    have hreaches := c.reaches_readUntil delimiter
    unfold readThrough
    split <;> (rename_i heq; rwa [heq] at hreaches)
  stands {c e} he := by
    unfold readThrough at he ⊢
    split at he
    · rename_i after hnone
      obtain rfl := Except.error.inj he
      exact ⟨rfl, fun _ => readUntil_eq_none hnone⟩
    · cases he
  alike {bound c d} halike hle := by
    have huntil := halike.readUntil delimiter
    unfold readThrough at hle ⊢
    generalize c.readUntil delimiter = found at huntil hle ⊢
    generalize d.readUntil delimiter = found' at huntil ⊢
    obtain ⟨text', after'⟩ := found'
    obtain ⟨_ | text, after⟩ := found
    · obtain ⟨htext, hafter⟩ := huntil hle
      obtain rfl : text' = none := htext
      have hposition : after'.position = after.position := hafter.position_eq
      exact ⟨by simp only [fail, hposition], hafter⟩
    · obtain ⟨htext, hafter⟩ := huntil hle
      obtain rfl : text' = some text := htext
      exact ⟨rfl, hafter⟩

theorem prompt_skipLine : Prompt fun c => (.ok Token.gap, c.skipLine) where
  reaches := reaches_skipLine
  stands := nofun
  alike halike hle := ⟨rfl, (halike.readUntil '\n' hle).2⟩

theorem readQuoted_eq (casing : Casing) (c : Cursor) :
    c.readQuoted casing =
      (c.readThrough casing.quote (.unclosedString casing)).andThen fun text after =>
        if text = [] then after.fail .emptyString else (.ok text, after) := by
  unfold readQuoted readThrough
  generalize c.readUntil casing.quote = found
  obtain ⟨_ | _ | ⟨first, text⟩, after⟩ := found <;> rfl

theorem prompt_readQuoted (casing : Casing) : Prompt (readQuoted casing) :=
  ((prompt_readThrough _ _).andThen fun text =>
    .ite (.fail .emptyString rfl) (.ok text)).congr (readQuoted_eq casing)

theorem closes_charsetsNamed (names : List Char) : Closes (charsetsNamed names) := by
  refine (Blames.mapM (fun name => ?_) _).map _
  unfold charsetNamed
  split
  · exact blames_ok _
  · exact closes_error rfl

theorem readDirective_eq (c : Cursor) :
    c.readDirective = (c.skip.readThrough ')' .unclosedDirective).andThen fun names after =>
      (placed after.position (charsetsNamed names), after) := by
  unfold readDirective readThrough
  generalize c.skip.readUntil ')' = found
  obtain ⟨_ | names, after⟩ := found <;> rfl

theorem prompt_readDirective : Prompt readDirective :=
  ((prompt_readThrough _ _).skip.andThen fun names =>
    .placed (closes_charsetsNamed names)).congr readDirective_eq

/-! ### Repetitions -/

theorem prompt_readRepetitionEnd (quantifier : Quantifier) :
    Prompt (readRepetitionEnd quantifier) :=
  .look fun found => .ite (p := found = some '}') (Prompt.ok quantifier).skip
    (Prompt.fail .malformedRepeat rfl).skip

theorem readUpperBound_eq (min : UInt32) (c : Cursor) :
    c.readUpperBound min =
      if c.peek? = some '*' then c.skip.readRepetitionEnd (.atLeast min)
      else if c.peek?.any Char.isDigit then
        c.readNumber.andThen fun max => readRepetitionEnd (.between min max)
      else c.fail .malformedRepeat := by
  unfold readUpperBound
  generalize c.readNumber = reading
  obtain ⟨_ | max, after⟩ := reading <;> rfl

theorem prompt_readUpperBound (min : UInt32) : Prompt (readUpperBound min) := by
  have hmax := prompt_readNumber.andThen fun max => prompt_readRepetitionEnd (.between min max)
  have hread := Prompt.look fun found =>
    .ite (p := found = some '*') (prompt_readRepetitionEnd (.atLeast min)).skip
      (.ite (p := found.any Char.isDigit) hmax (.fail .malformedRepeat rfl))
  exact hread.congr (readUpperBound_eq min)

theorem prompt_readBounds (min : UInt32) : Prompt (readBounds min) := by
  have hexactly : Prompt fun c => if min = 0 then c.skip.fail .zeroRepeat
      else (.ok (Quantifier.exactly min), c.skip) :=
    .ite (Prompt.fail .zeroRepeat rfl).skip (Prompt.ok (Quantifier.exactly min)).skip
  exact .look fun found => .ite (p := found = some '}') hexactly
    (.ite (p := found = some ',') (prompt_readUpperBound min).skip
      (Prompt.fail .malformedRepeat rfl).skip)

theorem readRepetition_eq (c : Cursor) : c.readRepetition = c.readNumber.andThen readBounds := by
  unfold readRepetition
  generalize c.readNumber = reading
  obtain ⟨_ | min, after⟩ := reading <;> rfl

theorem prompt_readRepetition : Prompt readRepetition :=
  (prompt_readNumber.andThen prompt_readBounds).congr readRepetition_eq

/-! ### Escapes and bytes -/

/-- The letter of an escape, given what stands in its place. -/
def readLetter (found : Option Char) (c : Cursor) : Reading Escape :=
  match found with
  | none => c.fail .unfinishedEscape
  | some letter =>
    match Escape.ofLetter? letter with
    | none => c.skip.fail (.unknownEscape letter)
    | some escape => (.ok escape, c.skip)

theorem prompt_readLetter (found : Option Char) : Prompt (readLetter found) := by
  cases found with
  | none => exact .fail .unfinishedEscape rfl
  | some letter =>
    unfold readLetter
    dsimp only
    cases Escape.ofLetter? letter with
    | none => exact (Prompt.fail (.unknownEscape letter) rfl).skip
    | some escape => exact (Prompt.ok escape).skip

theorem prompt_readEscape : Prompt readEscape :=
  .look prompt_readLetter

/-- A character of a class, given what stands in its place. It is passed
over in any case. -/
def readAllowed (allows : Char → Bool) (cause : Option Char → Cause) (found : Option Char)
    (c : Cursor) : Reading Char :=
  match found.filter allows with
  | some ch => (.ok ch, c.skip)
  | none => c.skip.fail (cause found)

theorem prompt_readAllowed (allows : Char → Bool) (cause : Option Char → Cause)
    (h : ∀ found, (cause found).leavesOpen = false) (found : Option Char) :
    Prompt (readAllowed allows cause found) := by
  unfold readAllowed
  cases found.filter allows with
  | some ch => exact (Prompt.ok ch).skip
  | none => exact (Prompt.fail (cause found) (h found)).skip

theorem prompt_readDigit (radix : Radix) : Prompt (readDigit radix) :=
  .look (prompt_readAllowed radix.allows (.badDigit radix) fun _ => rfl)

end Cursor

/-- What has been read of a byte: nothing, if the reading has failed. -/
def ByteReading.masked (r : ByteReading) : Reading MaskedByte :=
  (r.outcome.map fun _ => r.register, r.cursor)

namespace Cursor

theorem readSecondDigit_masked (register : MaskedByte) (first : Char) (c : Cursor) :
    (c.readSecondDigit register first).masked =
      (readAllowed startsByte (.splitByte first) c.peek? c).map (.ofHexPair first) := by
  unfold readSecondDigit readAllowed
  cases c.peek?.filter startsByte <;> rfl

theorem prompt_readSecondDigit (register : MaskedByte) (first : Char) :
    Prompt fun c => (readSecondDigit register first c).masked :=
  ((Prompt.look (prompt_readAllowed startsByte (.splitByte first) fun _ => rfl)).map _).congr
    (readSecondDigit_masked register first)

theorem readHexPair_masked (register : MaskedByte) (c : Cursor) :
    (c.readHexPair register).masked =
      (c.readDigit .hexadecimal).andThen fun high after =>
        (after.readDigit .hexadecimal).map fun low => .ofHexPair high low := by
  unfold readHexPair
  obtain ⟨_ | high, after⟩ := c.readDigit .hexadecimal
  · rfl
  · dsimp only [Reading.andThen]
    obtain ⟨_ | low, after⟩ := after.readDigit .hexadecimal <;> rfl

theorem prompt_readHexPair (register : MaskedByte) :
    Prompt fun c => (readHexPair register c).masked :=
  ((prompt_readDigit .hexadecimal).andThen fun _ =>
    (prompt_readDigit .hexadecimal).map _).congr (readHexPair_masked register)

theorem readBits_masked (n : Nat) (register : MaskedByte) (c : Cursor) :
    (readBits (n + 1) register c).masked =
      (c.readDigit .binary).andThen fun digit after =>
        (readBits n (register.withBit n digit) after).masked := by
  rw [readBits]
  obtain ⟨_ | digit, after⟩ := c.readDigit .binary <;> rfl

theorem prompt_readBits (n : Nat) (register : MaskedByte) :
    Prompt fun c => (readBits n register c).masked := by
  induction n generalizing register with
  | zero => exact .ok register
  | succ n ih =>
    have hread := (prompt_readDigit .binary).andThen fun digit => ih (register.withBit n digit)
    exact hread.congr (readBits_masked n register)

theorem readMasked_eq (first : Char) (c : Cursor) :
    c.readMasked first =
      if first = '0' ∧ c.peek? = some 'x' then (readHexPair .zero c.skip).masked
      else if first = '0' ∧ c.peek? = some 'i' then (readBits 8 .free c.skip).masked
      else (readSecondDigit .zero first c).masked := by
  unfold readMasked readByte
  split
  · rfl
  · split <;> rfl

theorem prompt_readMasked (first : Char) : Prompt (readMasked first) := by
  have hread := Prompt.look fun found =>
    .ite (p := first = '0' ∧ found = some 'x') (prompt_readHexPair .zero).skip
      (.ite (p := first = '0' ∧ found = some 'i') (prompt_readBits 8 .free).skip
        (prompt_readSecondDigit .zero first))
  exact hread.congr (readMasked_eq first)

end Cursor

/-- Whatever a token is, a mistake in it is noticed where it is made. -/
theorem Token.prompt_read (first : Char) (lead : Lead) : Prompt (Token.read first lead) := by
  cases lead with
  | whole token => exact .ok token
  | comment => exact Cursor.prompt_skipLine
  | directive => exact Cursor.prompt_readDirective.map Token.directive
  | repetition => exact Cursor.prompt_readRepetition.map Token.quantifier
  | quote casing => exact (Cursor.prompt_readQuoted casing).map (Token.quoted casing)
  | backslash => exact Cursor.prompt_readEscape.map Token.escape
  | digit => exact (Cursor.prompt_readMasked first).map Token.byte

end OctetPattern
