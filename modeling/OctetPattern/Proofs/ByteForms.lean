import Mathlib.Data.Fintype.Option
import OctetPattern.Proofs.Lexing
import OctetPattern.Proofs.Masks

/-!
# The forms of a byte

A byte has three forms, each with its mark, the base of its digits and
their number (`ByteForm`). A digit shows some bits, and a byte shows
those of its digits from the most significant one on
(`MaskedByte.Shows`).

`Cursor.readByte` recognises the forms whatever its register holds. If
it fails, it has passed over what some byte begins with and the one
character after that with which none does (`Cursor.StopsAt`). Two of the
forms leave the register alone until they are complete. The binary one
adds to it digit by digit, and `Shows.withBit` is that step.
-/

namespace OctetPattern

/-! ## The bits a byte shows -/

/-- The bits a digit stands for, the most significant one first. A
wildcard leaves them open. -/
def Radix.bits : Radix → Char → List (Option Bool)
  | .hexadecimal, digit => [3, 2, 1, 0].map fun i => (hexValue? digit).map (·.toNat.testBit i)
  | .binary, digit => [if digit = wildcard then none else some (digit = '1')]

namespace MaskedByte

/-- The bits of a byte, the most significant one first. Those that are
open have no part in the value, and so have those beyond the list. -/
def Shows (b : MaskedByte) (bits : List (Option Bool)) : Prop :=
  ∀ i < 8, b.value.toNat.testBit (7 - i) = (bits[i]?.join == some true) ∧
    b.mask.toNat.testBit (7 - i) = bits[i]?.join.isSome

instance (b : MaskedByte) (bits : List (Option Bool)) : Decidable (b.Shows bits) :=
  inferInstanceAs (Decidable (∀ i < 8, _))

theorem shows_free : free.Shows [] := by
  decide

/-! ### Two hexadecimal digits -/

/-- Four bits that are fixed together, or open together. -/
def nibble (n : Option (Fin 16)) : MaskedByte :=
  n.elim free fun v => ⟨UInt8.ofNat v, 0x0f⟩

def nibbleBits (n : Option (Fin 16)) : List (Option Bool) :=
  [3, 2, 1, 0].map fun i => n.map (·.val.testBit i)

theorem exists_nibble (digit : Char) :
    ∃ n, ofNibble digit = nibble n ∧ Radix.bits .hexadecimal digit = nibbleBits n := by
  cases h : hexValue? digit with
  | none => exact ⟨none, by rw [ofNibble, h]; rfl, by rw [Radix.bits, h]; rfl⟩
  | some v =>
    refine ⟨some ⟨v.toNat, hexValue?_lt h⟩, ?_, by rw [Radix.bits, h]; rfl⟩
    rw [ofNibble, h, nibble, Option.elim_some, UInt8.ofNat_toNat]

theorem shows_nibbles : ∀ high low : Option (Fin 16),
    Shows ⟨(nibble high).value <<< 4 ||| (nibble low).value,
      (nibble high).mask <<< 4 ||| (nibble low).mask⟩ (nibbleBits high ++ nibbleBits low) := by
  decide +kernel

theorem shows_ofHexPair (high low : Char) :
    (ofHexPair high low).Shows ([high, low].flatMap (Radix.bits .hexadecimal)) := by
  obtain ⟨h, hhigh, hbits⟩ := exists_nibble high
  obtain ⟨l, hlow, hbits'⟩ := exists_nibble low
  rw [ofHexPair, hhigh, hlow, List.flatMap_cons, List.flatMap_singleton, hbits, hbits']
  exact shows_nibbles h l

/-! ### Binary digits one by one -/

theorem length_concat_bits (bits : List (Option Bool)) (digit : Char) :
    (bits ++ Radix.bits .binary digit).length = bits.length + 1 :=
  List.length_append

theorem testBit_shiftLeft_one : ∀ index < 8, ∀ j < 8,
    ((1 : UInt8) <<< index.toUInt8).toNat.testBit j = decide (j = index) := by
  decide

theorem testBit_withBit (b : MaskedByte) {digit : Char} (h : isBinaryDigit digit = true)
    {index j : Nat} (hindex : index < 8) (hj : j < 8) :
    (b.withBit index digit).value.toNat.testBit j =
        (b.value.toNat.testBit j || decide (j = index) && digit = '1') ∧
      (b.withBit index digit).mask.toNat.testBit j =
        (b.mask.toNat.testBit j || decide (j = index) && digit ≠ wildcard) := by
  have hbit := testBit_shiftLeft_one index hindex j hj
  simp only [isBinaryDigit, Bool.or_eq_true, decide_eq_true_eq] at h
  rcases h with (rfl | rfl) | rfl <;>
    simp only [withBit, wildcard, Char.reduceEq, if_true, if_false, UInt8.toNat_or, Nat.testBit_or,
      hbit, ne_eq, not_true, not_false_eq_true, decide_true, decide_false, Bool.and_true,
      Bool.and_false, Bool.or_false, and_self]

/-- A digit adds the bit next to those that are shown. -/
theorem Shows.withBit {b : MaskedByte} {bits : List (Option Bool)} (h : b.Shows bits)
    {digit : Char} (hdigit : isBinaryDigit digit = true) {index : Nat}
    (hindex : bits.length + index = 7) :
    (b.withBit index digit).Shows (bits ++ Radix.bits .binary digit) := by
  rw [Radix.bits]
  intro i hi
  obtain ⟨hvalue, hmask⟩ := h i hi
  obtain ⟨hvalue', hmask'⟩ :=
    testBit_withBit b hdigit (by omega : index < 8) (by omega : 7 - i < 8)
  rw [hvalue', hmask', hvalue, hmask]
  -- Only the place where the list ended is new: before it nothing changes,
  -- and behind it there is still nothing.
  rcases Nat.lt_trichotomy i bits.length with hlt | rfl | hgt
  · have hother : 7 - i ≠ index := by omega
    rw [List.getElem?_append_left hlt, decide_eq_false hother]
    simp
  · have hsame : 7 - bits.length = index := by omega
    rw [List.getElem?_concat_length, List.getElem?_eq_none (Nat.le_refl _), decide_eq_true hsame]
    by_cases hwild : digit = wildcard
    · rw [if_pos hwild, hwild]
      decide
    · rw [if_neg hwild]
      simp [hwild]
  · have hother : 7 - i ≠ index := by omega
    rw [List.getElem?_eq_none hgt.le, List.getElem?_eq_none (by simpa using Nat.succ_le_of_lt hgt),
      decide_eq_false hother]
    simp

theorem Shows.withBits {digits : List Char} (hdigits : ∀ d ∈ digits, isBinaryDigit d = true)
    {b : MaskedByte} {bits : List (Option Bool)} (h : b.Shows bits)
    (hlength : bits.length + digits.length = 8) :
    (b.withBits digits).Shows (bits ++ digits.flatMap (Radix.bits .binary)) := by
  induction digits generalizing b bits with
  | nil => rwa [List.flatMap_nil, List.append_nil]
  | cons digit digits ih =>
    rw [List.forall_mem_cons] at hdigits
    rw [List.length_cons] at hlength
    rw [List.flatMap_cons, ← List.append_assoc]
    refine ih hdigits.2 (h.withBit hdigits.1 (by omega)) ?_
    rw [length_concat_bits]
    omega

end MaskedByte

/-! ## Forms -/

/-- The three ways to spell a byte. -/
inductive ByteForm where
  | plain
  | hexadecimal
  | binary
  deriving DecidableEq, Repr

namespace ByteForm

/-- What stands before the digits. -/
def mark : ByteForm → List Char
  | .plain => []
  | .hexadecimal => ['0', 'x']
  | .binary => ['0', 'i']

def radix : ByteForm → Radix
  | .plain | .hexadecimal => .hexadecimal
  | .binary => .binary

/-- The number of digits. -/
def width : ByteForm → Nat
  | .plain | .hexadecimal => 2
  | .binary => 8

/-- All the digits of a byte in this form. -/
structure Complete (form : ByteForm) (digits : List Char) : Prop where
  length : digits.length = form.width
  allows : ∀ d ∈ digits, form.radix.allows d = true

end ByteForm

/-- A spelling has one of the forms, and its byte shows its digits. -/
theorem ByteSpelling.exists_form {text digits rest : List Char} {bits : MaskedByte}
    (h : ByteSpelling text digits bits rest) :
    ∃ form : ByteForm, form.Complete digits ∧ text = form.mark ++ (digits ++ rest) ∧
      bits.Shows (digits.flatMap form.radix.bits) := by
  cases h with
  | pair hhigh hlow =>
    exact ⟨.plain, ⟨rfl, by simpa using ⟨hhigh, hlow⟩⟩, rfl, MaskedByte.shows_ofHexPair _ _⟩
  | hexadecimal hhigh hlow =>
    exact ⟨.hexadecimal, ⟨rfl, by simpa using ⟨hhigh, hlow⟩⟩, rfl,
      MaskedByte.shows_ofHexPair _ _⟩
  | binary hlength hdigits =>
    have hshows := MaskedByte.shows_free.withBits hdigits (by rw [hlength]; rfl)
    exact ⟨.binary, ⟨hlength, hdigits⟩, rfl, hshows⟩

theorem ByteForm.Complete.exists_spelling {form : ByteForm} {digits : List Char}
    (h : form.Complete digits) (rest : List Char) :
    ∃ bits, ByteSpelling (form.mark ++ (digits ++ rest)) digits bits rest := by
  obtain ⟨hlength, hallows⟩ := h
  cases form with
  | plain =>
    obtain ⟨high, low, rfl⟩ := List.length_eq_two.mp hlength
    exact ⟨_, .pair (hallows high (by simp)) (hallows low (by simp))⟩
  | hexadecimal =>
    obtain ⟨high, low, rfl⟩ := List.length_eq_two.mp hlength
    exact ⟨_, .hexadecimal (hallows high (by simp)) (hallows low (by simp))⟩
  | binary => exact ⟨_, .binary hlength hallows⟩

/-! ## Beginnings -/

/-- Some byte begins like this. -/
def BeginsByte (text : List Char) : Prop :=
  ∃ form : ByteForm, ∃ digits, form.Complete digits ∧ text <+: form.mark ++ digits

/-- Wildcards complete the digits that are there. -/
theorem beginsByte_of_allows {form : ByteForm} {accepted : List Char}
    (hlength : accepted.length ≤ form.width)
    (h : ∀ d ∈ accepted, form.radix.allows d = true) : BeginsByte (form.mark ++ accepted) := by
  have hwild : form.radix.allows wildcard = true := by
    cases form <;> rfl
  refine ⟨form, accepted ++ List.replicate (form.width - accepted.length) wildcard, ⟨?_, ?_⟩,
    (List.prefix_append_right_inj _).mpr (List.prefix_append ..)⟩
  · rw [List.length_append, List.length_replicate]
    omega
  · intro d hd
    rcases List.mem_append.mp hd with hd | hd
    · exact h d hd
    · rwa [List.eq_of_mem_replicate hd]

/-- The second character tells which form it is. -/
theorem BeginsByte.second {first second : Char} {others : List Char}
    (h : BeginsByte (first :: second :: others)) :
    startsByte second = true ∨
      (first = '0' ∧ second = 'x' ∧ ∀ d ∈ others, startsByte d = true) ∨
      (first = '0' ∧ second = 'i' ∧ ∀ d ∈ others, isBinaryDigit d = true) := by
  obtain ⟨form, digits, ⟨-, hallows⟩, tail, htail⟩ := h
  cases form with
  | plain =>
    obtain rfl : first :: second :: (others ++ tail) = digits := htail
    exact .inl (hallows second (by simp))
  | hexadecimal =>
    obtain ⟨rfl, rfl, rfl⟩ : first = '0' ∧ second = 'x' ∧ others ++ tail = digits := by
      simpa [ByteForm.mark] using htail
    exact .inr (.inl ⟨rfl, rfl, fun d hd => hallows d (List.mem_append_left _ hd)⟩)
  | binary =>
    obtain ⟨rfl, rfl, rfl⟩ : first = '0' ∧ second = 'i' ∧ others ++ tail = digits := by
      simpa [ByteForm.mark] using htail
    exact .inr (.inr ⟨rfl, rfl, fun d hd => hallows d (List.mem_append_left _ hd)⟩)

/-- Behind a mark, only digits of its base go on. -/
theorem not_beginsByte_of_mark {form : ByteForm} {first mark x : Char}
    (hform : form.mark = [first, mark]) (hx : form.radix.allows x = false)
    (accepted : List Char) : ¬ BeginsByte (first :: mark :: (accepted ++ [x])) := by
  have hmem : x ∈ accepted ++ [x] := by simp
  intro h
  cases form with
  | plain => cases hform
  | hexadecimal =>
    cases hform
    rcases h.second with hmark | ⟨-, -, hdigits⟩ | ⟨-, hmark, -⟩
    · exact absurd hmark (by decide)
    · exact Bool.eq_false_iff.mp hx (hdigits x hmem)
    · exact absurd hmark (by decide)
  | binary =>
    cases hform
    rcases h.second with hmark | ⟨-, hmark, -⟩ | ⟨-, -, hdigits⟩
    · exact absurd hmark (by decide)
    · exact absurd hmark (by decide)
    · exact Bool.eq_false_iff.mp hx (hdigits x hmem)

namespace Cursor

/-! ## Where a reading stops -/

/-- From the first cursor to the second some text has been seen, and the
bad character behind it, unless the text ended there. -/
inductive StopsAt (bad : Char → Prop) : Cursor → List Char → Cursor → Prop
  | ended {seen : List Char} {position : Nat} :
      StopsAt bad ⟨seen, position⟩ seen ⟨[], position + seen.length⟩
  | broken {seen rest : List Char} {x : Char} {position : Nat} (h : bad x) :
      StopsAt bad ⟨seen ++ x :: rest, position⟩ seen ⟨rest, position + seen.length + 1⟩

variable {bad : Char → Prop} {radix : Radix} {n : Nat} {c middle after : Cursor}
  {accepted seen : List Char} {register : MaskedByte}

theorem StopsAt.imp {bad' : Char → Prop} (h : StopsAt bad c seen after)
    (himp : ∀ x, bad x → bad' x) : StopsAt bad' c seen after := by
  cases h with
  | ended => exact .ended
  | broken hx => exact .broken (himp _ hx)

/-- One more character has been seen before. -/
theorem StopsAt.cons {ch : Char} (hnext : c.next? = some (ch, middle))
    (h : StopsAt bad middle seen after) : StopsAt bad c (ch :: seen) after := by
  obtain ⟨text, position⟩ := c
  obtain ⟨hrest, hposition⟩ := next?_eq_some.mp hnext
  cases h with
  | @ended seen position' =>
    obtain rfl : text = ch :: seen := hrest
    obtain rfl : position' = position + 1 := hposition
    rw [Nat.add_assoc, Nat.add_comm 1]
    exact .ended
  | @broken seen rest x position' hx =>
    obtain rfl : text = ch :: (seen ++ x :: rest) := hrest
    obtain rfl : position' = position + 1 := hposition
    rw [Nat.add_assoc position, Nat.add_comm 1]
    show StopsAt bad ⟨(ch :: seen) ++ x :: rest, position⟩ _ _
    exact .broken hx

/-- Of `n` digits in a base only some were there. -/
structure Lacks (radix : Radix) (n : Nat) (c : Cursor) (accepted : List Char)
    (after : Cursor) : Prop where
  length_lt : accepted.length < n
  allows : ∀ d ∈ accepted, radix.allows d = true
  stops : StopsAt (radix.allows · = false) c accepted after

theorem lacks_of_readDigit {e : SyntaxError} (h : c.readDigit radix = (.error e, after)) :
    Lacks radix (n + 1) c [] after := by
  refine ⟨Nat.succ_pos n, nofun, ?_⟩
  obtain ⟨_ | ⟨ch, rest⟩, position⟩ := c
  · cases h
    exact .ended
  · by_cases hch : radix.allows ch = true
    · rw [readDigit_complete radix hch] at h
      cases h
    · simp only [readDigit, peek?, List.head?_cons, Option.filter_some, hch] at h
      cases h
      show StopsAt _ ⟨[] ++ ch :: rest, position⟩ _ _
      exact .broken (Bool.eq_false_iff.mpr hch)

theorem Lacks.cons {digit : Char} (hdigit : c.readDigit radix = (.ok digit, middle))
    (h : Lacks radix n middle accepted after) :
    Lacks radix (n + 1) c (digit :: accepted) after := by
  obtain ⟨hlength, hallows, hstops⟩ := h
  obtain ⟨hd, hnext⟩ := readDigit_sound hdigit
  exact ⟨Nat.succ_lt_succ hlength, List.forall_mem_cons.mpr ⟨hd, hallows⟩, hstops.cons hnext⟩

/-- The bits of the digits before the mistake are in the register, next to
those that it has shown. -/
theorem lacks_of_readBits {bits : MaskedByte} {shown : List (Option Bool)} {e : SyntaxError}
    (h : readBits n register c = ⟨.error e, bits, after⟩) (hshows : register.Shows shown)
    (hlength : shown.length + n = 8) :
    ∃ accepted, Lacks .binary n c accepted after ∧
      bits.Shows (shown ++ accepted.flatMap (Radix.bits .binary)) := by
  induction n generalizing register c shown with
  | zero => cases h
  | succ n ih =>
    rw [readBits] at h
    split at h
    · rename_i hdigit
      cases h
      refine ⟨[], lacks_of_readDigit hdigit, ?_⟩
      rwa [List.flatMap_nil, List.append_nil]
    · rename_i digit middle hdigit
      have hshown : (register.withBit n digit).Shows (shown ++ Radix.bits .binary digit) :=
        hshows.withBit (readDigit_sound hdigit).1 (by omega)
      have hlength' : (shown ++ Radix.bits .binary digit).length + n = 8 := by
        rw [MaskedByte.length_concat_bits]
        omega
      obtain ⟨accepted, hlacks, hbits⟩ := ih h hshown hlength'
      refine ⟨digit :: accepted, hlacks.cons hdigit, ?_⟩
      rwa [List.flatMap_cons, ← List.append_assoc]

theorem lacks_of_readHexPair {bits : MaskedByte} {e : SyntaxError}
    (h : c.readHexPair register = ⟨.error e, bits, after⟩) :
    bits = register ∧ ∃ accepted, Lacks .hexadecimal 2 c accepted after := by
  rw [readHexPair] at h
  split at h
  · rename_i hhigh
    cases h
    exact ⟨rfl, [], lacks_of_readDigit hhigh⟩
  · rename_i high middle hhigh
    split at h
    · rename_i hlow
      cases h
      exact ⟨rfl, [high], (lacks_of_readDigit hlow).cons hhigh⟩
    · cases h

theorem stopsAt_of_readSecondDigit {first : Char} {bits : MaskedByte} {e : SyntaxError}
    (h : c.readSecondDigit register first = ⟨.error e, bits, after⟩) :
    bits = register ∧
      StopsAt (fun x => c.peek? = some x ∧ startsByte x = false) c [] after := by
  obtain ⟨_ | ⟨ch, rest⟩, position⟩ := c
  · cases h
    exact ⟨rfl, .ended⟩
  · by_cases hch : startsByte ch = true
    · simp [readSecondDigit, peek?, Option.filter_some, hch] at h
    · simp only [readSecondDigit, peek?, List.head?_cons, Option.filter_some, hch] at h
      cases h
      refine ⟨rfl, ?_⟩
      show StopsAt _ ⟨[] ++ ch :: rest, position⟩ _ _
      exact .broken ⟨rfl, Bool.eq_false_iff.mpr hch⟩

end Cursor

/-! ## Reading a byte -/

namespace ByteReading

/-- A byte has been read in one of the forms: what has been passed over
since its first character ends with its digits, and the register shows
these and nothing else. -/
structure Decodes (reading : ByteReading) (first : Char) (c : Cursor) (form : ByteForm)
    (digits passed : List Char) : Prop where
  complete : form.Complete digits
  spelled : first :: passed = form.mark ++ digits
  rest : c.rest = passed ++ reading.cursor.rest
  position : reading.cursor.position = c.position + passed.length
  shows : reading.register.Shows (digits.flatMap form.radix.bits)
  tight : reading.register.Tight

/-- No byte could be read, because the text ended where one had begun or
because of the first character with which none begins any more. Only
digits behind the binary mark have come into the register. -/
structure Fails (reading : ByteReading) (register : MaskedByte) (first : Char) (c : Cursor)
    (seen : List Char) : Prop where
  begins : BeginsByte (first :: seen)
  stops : c.StopsAt (fun x => ¬ BeginsByte (first :: (seen ++ [x]))) seen reading.cursor
  unchanged : ¬ ByteForm.binary.mark <+: first :: seen → reading.register = register
  filled : ∀ digits, first :: seen = ByteForm.binary.mark ++ digits →
    reading.register.Shows (digits.flatMap (Radix.bits .binary))

theorem Decodes.length_mem {reading : ByteReading} {first : Char} {c : Cursor} {form : ByteForm}
    {digits passed : List Char} (h : reading.Decodes first c form digits passed) :
    passed.length ∈ [1, 3, 9] := by
  have hlength := congrArg List.length h.spelled
  rw [List.length_cons, List.length_append, h.complete.length] at hlength
  have hcases : passed.length = 1 ∨ passed.length = 3 ∨ passed.length = 9 := by
    cases form <;>
      simp only [ByteForm.mark, ByteForm.width, List.length_cons, List.length_nil] at hlength <;>
      omega
  simpa using hcases

end ByteReading

namespace Cursor

variable {first : Char} {register : MaskedByte} {c : Cursor}

theorem outcome_readByte (hfirst : startsByte first = true) :
    (c.readByte register first).outcome = .ok () ↔
      ∃ form : ByteForm, ∃ digits rest, form.Complete digits ∧
        first :: c.rest = form.mark ++ (digits ++ rest) := by
  constructor
  · intro h
    generalize hreading : c.readByte register first = reading at h
    obtain ⟨outcome, bits, after⟩ := reading
    obtain rfl : outcome = .ok () := h
    obtain ⟨digits, hspelling⟩ := readByte_sound hfirst hreading
    obtain ⟨form, hcomplete, htext, -⟩ := hspelling.exists_form
    exact ⟨form, digits, after.rest, hcomplete, htext⟩
  · rintro ⟨form, digits, rest, hcomplete, htext⟩
    obtain ⟨bits, hspelling⟩ := hcomplete.exists_spelling rest
    rw [← htext] at hspelling
    obtain ⟨position', hread⟩ := readByte_complete hspelling c.position
    rw [hread register]

theorem decodes_readByte (hfirst : startsByte first = true)
    (h : (c.readByte register first).outcome = .ok ()) :
    (∃ form digits passed, (c.readByte register first).Decodes first c form digits passed) ∧
      ∀ other, c.readByte other first = c.readByte register first := by
  obtain ⟨passed, hrest, hposition⟩ := c.reaches_readByte register first
  generalize hreading : c.readByte register first = reading at *
  obtain ⟨outcome, bits, after⟩ := reading
  obtain rfl : outcome = .ok () := h
  obtain ⟨digits, hspelling⟩ := readByte_sound hfirst hreading
  obtain ⟨form, hcomplete, htext, hshows⟩ := hspelling.exists_form
  constructor
  · refine ⟨form, digits, passed, hcomplete, ?_, hrest, hposition, hshows, hspelling.tight⟩
    rw [hrest, ← List.append_assoc, ← List.cons_append] at htext
    exact List.append_cancel_right htext
  · intro other
    obtain ⟨position', hread⟩ := readByte_complete hspelling c.position
    rw [hread other, ← hread register]
    exact hreading

/-- Digits that are lacking behind a mark break the form at the mistake. -/
theorem Lacks.breaks {form : ByteForm} {mark : Char} {accepted : List Char} {after : Cursor}
    (hform : form.mark = [first, mark]) (hmark : c.peek? = some mark)
    (h : Lacks form.radix form.width c.skip accepted after) :
    BeginsByte (first :: mark :: accepted) ∧
      c.StopsAt (fun x => ¬ BeginsByte (first :: (mark :: accepted ++ [x]))) (mark :: accepted)
        after := by
  obtain ⟨hlength, hallows, hstops⟩ := h
  have hnext := peek?_eq_some.mp hmark
  have hbegins := beginsByte_of_allows hlength.le hallows
  rw [hform] at hbegins
  exact ⟨hbegins,
    (hstops.imp fun x hx => not_beginsByte_of_mark hform hx accepted).cons hnext⟩

theorem fails_readByte (hfirst : startsByte first = true) {e : SyntaxError}
    (h : (c.readByte register first).outcome = .error e) :
    ∃ seen, (c.readByte register first).Fails register first c seen := by
  generalize hreading : c.readByte register first = reading at *
  obtain ⟨outcome, bits, after⟩ := reading
  obtain rfl : outcome = .error e := h
  rw [readByte] at hreading
  split at hreading
  · rename_i hx
    obtain ⟨rfl, hpeek⟩ := hx
    obtain ⟨rfl, accepted, hlacks⟩ := lacks_of_readHexPair hreading
    have hmark : ByteForm.hexadecimal.mark = ['0', 'x'] := rfl
    obtain ⟨hbegins, hstops⟩ := hlacks.breaks hmark hpeek
    exact ⟨'x' :: accepted, hbegins, hstops, fun _ => rfl, by simp [ByteForm.mark]⟩
  · split at hreading
    · rename_i hi
      obtain ⟨rfl, hpeek⟩ := hi
      obtain ⟨accepted, hlacks, hshows⟩ :=
        lacks_of_readBits hreading MaskedByte.shows_free rfl
      have hmark : ByteForm.binary.mark = ['0', 'i'] := rfl
      obtain ⟨hbegins, hstops⟩ := hlacks.breaks hmark hpeek
      refine ⟨'i' :: accepted, hbegins, hstops, fun hno => absurd ⟨accepted, rfl⟩ hno, ?_⟩
      intro digits hdigits
      obtain rfl : accepted = digits := by simpa [ByteForm.mark] using hdigits
      exact hshows
    · rename_i hx hi
      obtain ⟨rfl, hstops⟩ := stopsAt_of_readSecondDigit hreading
      have hbegins : BeginsByte (ByteForm.plain.mark ++ [first]) :=
        beginsByte_of_allows (Nat.le_succ 1) (List.forall_mem_singleton.mpr hfirst)
      refine ⟨[], hbegins, hstops.imp ?_, fun _ => rfl, by simp [ByteForm.mark]⟩
      -- A second character that is no digit might still have completed a mark.
      rintro x ⟨hpeek, hsecond⟩ hbyte
      rcases hbyte.second with hdigit | ⟨rfl, rfl, -⟩ | ⟨rfl, rfl, -⟩
      · exact Bool.eq_false_iff.mp hsecond hdigit
      · exact hx ⟨rfl, hpeek⟩
      · exact hi ⟨rfl, hpeek⟩

/-- A byte is read exactly where one of its forms is spelled, and the
register then shows its digits whatever it held before. Where none is, it
tells at which character, and how much of the binary form there was. -/
theorem readByte_exact (hfirst : startsByte first = true) (register : MaskedByte) (c : Cursor) :
    ((c.readByte register first).outcome = .ok () ↔
        ∃ form : ByteForm, ∃ digits rest, form.Complete digits ∧
          first :: c.rest = form.mark ++ (digits ++ rest)) ∧
      ((c.readByte register first).outcome = .ok () →
        (∃ form digits passed, passed.length ∈ [1, 3, 9] ∧
          (c.readByte register first).Decodes first c form digits passed) ∧
        ∀ other, c.readByte other first = c.readByte register first) ∧
      ∀ e, (c.readByte register first).outcome = .error e →
        ∃ seen, (c.readByte register first).Fails register first c seen := by
  refine ⟨outcome_readByte hfirst, fun h => ?_, fun e h => fails_readByte hfirst h⟩
  obtain ⟨⟨form, digits, passed, hdecodes⟩, hother⟩ := decodes_readByte hfirst h
  exact ⟨⟨form, digits, passed, hdecodes.length_mem, hdecodes⟩, hother⟩

/-- The fourth binary digit is none. -/
theorem readByte_exact_binary :
    startsByte '0' = true ∧
      (readByte .zero '0' ⟨['i', '1', '_', '0', 'x', '1'], 5⟩).register = ⟨0x80, 0xa0⟩ ∧
      (readByte .zero '0' ⟨['i', '1', '_', '0', 'x', '1'], 5⟩).cursor = ⟨['1'], 10⟩ ∧
      ∃ seen, (readByte .zero '0' ⟨['i', '1', '_', '0', 'x', '1'], 5⟩).Fails .zero '0'
        ⟨['i', '1', '_', '0', 'x', '1'], 5⟩ seen := by
  have hfirst : startsByte '0' = true := by
    decide
  have herror : (readByte .zero '0' ⟨['i', '1', '_', '0', 'x', '1'], 5⟩).outcome =
      .error ⟨.badDigit .binary (some 'x'), 10⟩ := rfl
  exact ⟨hfirst, rfl, rfl, (readByte_exact hfirst _ _).2.2 _ herror⟩

end Cursor
end OctetPattern
