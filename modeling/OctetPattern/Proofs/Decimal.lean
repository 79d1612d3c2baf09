import Mathlib.Data.Nat.Digits.Defs
import OctetPattern.Proofs.Lexing

/-!
# Counts in decimal

A count is spelled by any number of digits, leading zeros included, and
has 32 bits. `decimalValue` is what the digits are worth by their places,
and `accumulate?` adds them up from the left in 32 bits and gives up when
they do not fit any more. Both agree on every run of digits, since a
number that has become too large stays so (`accumulate?_eq_some`), and
`Cursor.readNumber` reads a run of digits to its end and answers what
they agree on.
-/

namespace OctetPattern

/-! ## What digits are worth -/

/-- A digit counts by itself at the last place and ten times as much at
each place before. -/
def decimalValue (digits : List Char) : Nat :=
  Nat.ofDigits 10 (digits.reverse.map fun c => c.toNat - '0'.toNat)

theorem ofDigitChars_eq_decimalValue (digits : List Char) :
    Nat.ofDigitChars 10 digits 0 = decimalValue digits := by
  induction digits with
  | nil => rfl
  | cons c digits ih =>
    rw [Nat.ofDigitChars_cons, Nat.ofDigitChars_eq_ofDigitChars_zero, ih, decimalValue,
      decimalValue, List.reverse_cons, List.map_append, Nat.ofDigits_append, List.map_singleton,
      Nat.ofDigits_singleton, List.length_map, List.length_reverse, Nat.mul_zero, Nat.zero_add,
      Nat.add_comm]

/-! ## Adding up in 32 bits -/

/-- The number of digits behind a number that has been read, if it fits. -/
def accumulate? (n : UInt32) : List Char → Option UInt32
  | [] => some n
  | c :: digits =>
    let next := 10 * n.toNat + (c.toNat - '0'.toNat)
    if next < UInt32.size then accumulate? next.toUInt32 digits else none

/-- More digits never make a number smaller. -/
theorem le_ofDigitChars (digits : List Char) (n : Nat) : n ≤ Nat.ofDigitChars 10 digits n := by
  rw [Nat.ofDigitChars_eq_ofDigitChars_zero]
  exact (Nat.le_mul_of_pos_left n (Nat.pow_pos (by decide))).trans (Nat.le_add_right _ _)

theorem accumulate?_eq_some {n m : UInt32} {digits : List Char} :
    accumulate? n digits = some m ↔ Nat.ofDigitChars 10 digits n.toNat = m.toNat := by
  induction digits generalizing n with
  | nil => rw [accumulate?, Nat.ofDigitChars_nil, Option.some.injEq, UInt32.toNat_inj]
  | cons c digits ih =>
    rw [accumulate?, Nat.ofDigitChars_cons]
    split
    · rename_i hlt
      rw [ih, Nat.toUInt32, UInt32.toNat_ofNat_of_lt' hlt]
    · rename_i hlarge
      have hle := le_ofDigitChars digits (10 * n.toNat + (c.toNat - '0'.toNat))
      have hm := m.toNat_lt_size
      constructor
      · intro h
        cases h
      · intro h
        omega

/-! ## Reading a count -/

namespace Cursor

variable {digits : List Char} {found : Option Char}

theorem countOf_of_size_le (hne : digits ≠ []) (h : UInt32.size ≤ decimalValue digits) :
    countOf digits found = .error (.hugeNumber digits) := by
  have hempty : ¬ digits.isEmpty = true := by simpa using hne
  rw [← ofDigitChars_eq_decimalValue] at h
  rw [countOf, if_neg hempty]
  exact if_neg (Nat.not_lt.mpr h)

/-- The digits at the front of a text, up to a character that is none. -/
theorem exists_digits (text : List Char) :
    ∃ digits rest, text = digits ++ rest ∧ (∀ d ∈ digits, d.isDigit = true) ∧
      ∀ d ∈ rest.head?, d.isDigit = false := by
  refine ⟨text.takeWhile Char.isDigit, text.dropWhile Char.isDigit,
    List.takeWhile_append_dropWhile.symm, fun d hd => List.mem_takeWhile_imp hd, fun d hd => ?_⟩
  have hhead := List.head?_dropWhile_not Char.isDigit text
  rwa [Option.mem_def.mp hd] at hhead

/-- Wherever a cursor stands, it reads the digits from there on and no
more. Without a digit nothing is read. Otherwise the count is what the
digits are worth, which is also what they add up to in 32 bits, or there
is none because they are worth more. -/
theorem readNumber_exact (c : Cursor) :
    ∃ digits rest, c.rest = digits ++ rest ∧ (∀ d ∈ digits, d.isDigit = true) ∧
      (∀ d ∈ rest.head?, d.isDigit = false) ∧
      (digits = [] → ∃ cause, c.readNumber = c.fail cause ∧ cause.fault = .expectedNumber) ∧
      (digits ≠ [] →
        c.readNumber.2 = ⟨rest, c.position + digits.length⟩ ∧
        (∀ n, c.readNumber.1 = .ok n ↔ decimalValue digits = n.toNat) ∧
        (∀ n, c.readNumber.1 = .ok n ↔ accumulate? 0 digits = some n) ∧
        (decimalValue digits ≤ 2 ^ 32 - 1 → ∃ n, c.readNumber.1 = .ok n) ∧
        (2 ^ 32 - 1 < decimalValue digits → ∃ cause, cause.fault = .expectedNumber ∧
          c.readNumber.1 = .error ⟨cause, c.position + digits.length⟩)) := by
  obtain ⟨text, position⟩ := c
  obtain ⟨digits, rest, rfl, hdigits, hrest⟩ := exists_digits text
  refine ⟨digits, rest, rfl, hdigits, hrest, ?_, fun hne => ?_⟩
  · rintro rfl
    rw [readNumber_append hdigits hrest]
    exact ⟨.missingNumber rest.head?, rfl, rfl⟩
  · rw [readNumber_append hdigits hrest]
    have hok : ∀ n, countOf digits rest.head? = .ok n ↔ decimalValue digits = n.toNat := by
      intro n
      rw [countOf_eq_ok, ofDigitChars_eq_decimalValue, and_iff_right hne]
    refine ⟨rfl, fun n => placed_eq_ok.trans (hok n), fun n => placed_eq_ok.trans ?_, fun h => ?_,
      fun h => ?_⟩
    · rw [hok, ← ofDigitChars_eq_decimalValue, accumulate?_eq_some]
      rfl
    · have hlt : decimalValue digits < UInt32.size := Nat.lt_of_le_sub_one (by decide) h
      refine ⟨(decimalValue digits).toUInt32, placed_eq_ok.mpr ((hok _).mpr ?_)⟩
      exact (UInt32.toNat_ofNat_of_lt' hlt).symm
    · have hle : UInt32.size ≤ decimalValue digits := Nat.le_of_pred_lt h
      rw [countOf_of_size_le hne hle]
      exact ⟨.hugeNumber digits, rfl, rfl⟩

example :
    readNumber ⟨['0', '4', '2', '9', '4', '9', '6', '7', '2', '9', '5', ','], 0⟩ =
        (.ok 4294967295, ⟨[','], 11⟩) ∧
      readNumber ⟨['4', '2', '9', '4', '9', '6', '7', '2', '9', '6', ','], 0⟩ =
        (.error ⟨.hugeNumber ['4', '2', '9', '4', '9', '6', '7', '2', '9', '6'], 10⟩,
          ⟨[','], 10⟩) := by
  decide

end Cursor
end OctetPattern
