import Mathlib.Tactic.SplitIfs
import OctetPattern.Render
import OctetPattern.Proofs.Spelling

/-!
# Masked bytes and their digits

A byte that was spelled has no bits outside its mask (`Tight`), and its
mask is full exactly if no digit is a wildcard. In the other direction
`MaskedByte.digits` spells every tight byte: in hexadecimal if the mask
is made of whole nibbles, in binary otherwise.

What depends on one byte alone is decided for all 256 of them and then
used by name.
-/

namespace OctetPattern

/-! ## Facts about single bytes -/

/-- A fact about bytes can be decided by counting through them. -/
theorem forall_byte {P : UInt8 → Prop} (h : ∀ n < 256, P (UInt8.ofNat n)) (b : UInt8) : P b := by
  have := h b.toNat b.toNat_lt
  rwa [UInt8.ofNat_toNat] at this

/-- A byte is made up of its bits. -/
theorem or_bits : ∀ b : UInt8,
    0 ||| (b &&& 128) ||| (b &&& 64) ||| (b &&& 32) ||| (b &&& 16) ||| (b &&& 8) ||| (b &&& 4) |||
      (b &&& 2) ||| (b &&& 1) = b :=
  forall_byte (by decide +kernel)

theorem and_bit : ∀ b : UInt8, ∀ i < 8,
    b &&& ((1 : UInt8) <<< i.toUInt8) = 0 ∨
      b &&& ((1 : UInt8) <<< i.toUInt8) = (1 : UInt8) <<< i.toUInt8 :=
  forall_byte (by decide +kernel)

/-- Two digits written for a byte are read as that byte. -/
theorem ofHexPair_hexDigit : ∀ b : UInt8,
    MaskedByte.ofHexPair (hexDigit (b >>> 4)) (hexDigit b) = ⟨b, 0xff⟩ :=
  forall_byte (by decide +kernel)

theorem startsByte_hexDigit : ∀ b : UInt8, startsByte (hexDigit b) = true :=
  forall_byte (by decide +kernel)

theorem hexDigit_ne_wildcard : ∀ b : UInt8, hexDigit b ≠ wildcard :=
  forall_byte (by decide +kernel)

/-- The mask of whole nibbles is one of four. -/
theorem mask_of_aligned : ∀ mask : UInt8, MaskedByte.isNibbleAligned ⟨0, mask⟩ = true →
    mask ∈ [0, 0x0f, 0xf0, 0xff] :=
  forall_byte (by decide +kernel)

/-! ## Values inside their masks -/

namespace MaskedByte

/-- No bit of the value stands outside the mask. -/
def Tight (b : MaskedByte) : Prop :=
  b.value &&& ~~~b.mask = 0

instance (b : MaskedByte) : Decidable b.Tight :=
  inferInstanceAs (Decidable (_ = _))

theorem tight_iff {value mask : UInt8} :
    Tight ⟨value, mask⟩ ↔
      ∀ i, value.toBitVec.getLsbD i = true → mask.toBitVec.getLsbD i = true := by
  rw [Tight, ← UInt8.toBitVec_inj]
  constructor
  · intro h i hv
    have hi := congrArg (BitVec.getLsbD · i) h
    have hlt := BitVec.lt_of_getLsbD hv
    simpa [hv, hlt] using hi
  · intro h
    refine BitVec.eq_of_getLsbD_eq fun i hi => ?_
    cases hv : value.toBitVec.getLsbD i with
    | false => simp [hv]
    | true => simp [hv, h i hv]

theorem Tight.and_mask {b : MaskedByte} (h : b.Tight) : b.value &&& b.mask = b.value := by
  obtain ⟨value, mask⟩ := b
  rw [tight_iff] at h
  rw [← UInt8.toBitVec_inj]
  refine BitVec.eq_of_getLsbD_eq fun i hi => ?_
  cases hv : value.toBitVec.getLsbD i with
  | false => simp [hv]
  | true => simp [hv, h i hv]

theorem tight_full (value : UInt8) : Tight ⟨value, 0xff⟩ := by
  show value &&& ~~~0xff = 0
  exact UInt8.and_zero

theorem Tight.withBit {b : MaskedByte} (h : b.Tight) (index : Nat) (digit : Char) :
    (b.withBit index digit).Tight := by
  obtain ⟨value, mask⟩ := b
  rw [tight_iff] at h
  rw [MaskedByte.withBit]
  split
  · rw [tight_iff]
    intro i hi
    rw [UInt8.toBitVec_or, BitVec.getLsbD_or, Bool.or_eq_true] at hi ⊢
    exact hi.imp_left (h i)
  · split
    · rw [tight_iff]
      intro i hi
      rw [UInt8.toBitVec_or, BitVec.getLsbD_or, Bool.or_eq_true]
      exact .inl (h i hi)
    · exact tight_iff.mpr h

theorem Tight.withBits {b : MaskedByte} (h : b.Tight) (digits : List Char) :
    (b.withBits digits).Tight := by
  induction digits generalizing b with
  | nil => exact h
  | cons digit digits ih => exact ih (h.withBit digits.length digit)

/-! ## Nibbles -/

theorem hexValue?_lt {c : Char} {v : UInt8} (h : hexValue? c = some v) : v.toNat < 16 := by
  have hle : ∀ {a b : Char}, a ≤ b → a.toNat ≤ b.toNat := fun hab => hab
  simp only [hexValue?] at h
  split_ifs at h with hc hc hc
  all_goals
    have hlow := hle hc.1
    have hhigh := hle hc.2
    cases h
    simp at hlow hhigh ⊢
    omega

/-- A nibble is a digit with all its bits or a wildcard with none. -/
theorem ofNibble_cases {c : Char} (h : startsByte c = true) :
    (c ≠ wildcard ∧ ∃ n < 16, ofNibble c = ⟨UInt8.ofNat n, 0x0f⟩) ∨
      (c = wildcard ∧ ofNibble c = free) := by
  rw [startsByte, Bool.or_eq_true, decide_eq_true_eq] at h
  by_cases hc : c = wildcard
  · subst hc
    exact .inr ⟨rfl, rfl⟩
  · obtain ⟨v, hv⟩ := Option.isSome_iff_exists.mp (h.resolve_right hc)
    refine .inl ⟨hc, v.toNat, hexValue?_lt hv, ?_⟩
    rw [ofNibble, hv, UInt8.ofNat_toNat]

theorem isWild_ofHexPair {high low : Char} (hhigh : startsByte high = true)
    (hlow : startsByte low = true) :
    (ofHexPair high low).isWild = true ↔ wildcard ∈ [high, low] := by
  have hmem : wildcard ∈ [high, low] ↔ high = wildcard ∨ low = wildcard := by
    simp [eq_comm]
  rw [hmem, isWild, ofHexPair]
  rcases ofNibble_cases hhigh with ⟨hne, m, -, hm⟩ | ⟨hwild, hm⟩ <;>
    rcases ofNibble_cases hlow with ⟨hne', n, -, hn⟩ | ⟨hwild', hn⟩ <;>
      simp only [*] <;> decide

theorem tight_ofHexPair {high low : Char} (hhigh : startsByte high = true)
    (hlow : startsByte low = true) : (ofHexPair high low).Tight := by
  rw [ofHexPair]
  rcases ofNibble_cases hhigh with ⟨-, m, hlt, hm⟩ | ⟨-, hm⟩ <;>
    rcases ofNibble_cases hlow with ⟨-, n, hlt', hn⟩ | ⟨-, hn⟩ <;>
      simp only [hm, hn]
  · rw [show (0x0f : UInt8) <<< 4 ||| 0x0f = 0xff by decide]
    exact tight_full _
  · clear hm
    revert m
    decide
  · clear hn
    revert n
    decide
  · decide

/-! ## Bits -/

theorem mask_withBit {digit : Char} (h : isBinaryDigit digit = true) (b : MaskedByte)
    (index : Nat) :
    (b.withBit index digit).mask =
      b.mask ||| bif digit = wildcard then 0 else (1 : UInt8) <<< index.toUInt8 := by
  simp only [isBinaryDigit, Bool.or_eq_true, decide_eq_true_eq] at h
  rcases h with (rfl | rfl) | rfl <;> simp [MaskedByte.withBit, wildcard]

/-- A mask is full if and only if no bit is missing. -/
theorem or_masks : ∀ a b c d e f g h : Bool,
    (((0 : UInt8) ||| (bif a then 0 else 128) ||| (bif b then 0 else 64) |||
      (bif c then 0 else 32) ||| (bif d then 0 else 16) ||| (bif e then 0 else 8) |||
      (bif f then 0 else 4) ||| (bif g then 0 else 2) ||| (bif h then 0 else 1)) != 0xff) =
      (a || b || c || d || e || f || g || h) := by
  decide +kernel

theorem isWild_withBits {digits : List Char} (hlength : digits.length = 8)
    (hdigits : ∀ c ∈ digits, isBinaryDigit c = true) :
    (free.withBits digits).isWild = true ↔ wildcard ∈ digits := by
  match digits, hlength with
  | [a, b, c, d, e, f, g, h], _ =>
    simp only [List.mem_cons, List.not_mem_nil, or_false, forall_eq_or_imp, forall_eq] at hdigits
    obtain ⟨ha, hb, hc, hd, he, hf, hg, hh⟩ := hdigits
    have hmasks := or_masks (a = wildcard) (b = wildcard) (c = wildcard) (d = wildcard)
      (e = wildcard) (f = wildcard) (g = wildcard) (h = wildcard)
    simp only [withBits, isWild, mask_withBit ha, mask_withBit hb, mask_withBit hc,
      mask_withBit hd, mask_withBit he, mask_withBit hf, mask_withBit hg, mask_withBit hh]
    refine (congrArg (· = true) hmasks).to_iff.trans ?_
    simp only [Bool.or_eq_true, decide_eq_true_eq, List.mem_cons, List.not_mem_nil, or_false,
      or_assoc, @eq_comm _ wildcard]

/-! ## Spellings -/

end MaskedByte

open MaskedByte

namespace ByteSpelling

variable {text digits rest : List Char} {bits : MaskedByte}

theorem isWild_iff (h : ByteSpelling text digits bits rest) :
    bits.isWild = true ↔ wildcard ∈ digits := by
  cases h with
  | pair hhigh hlow => exact isWild_ofHexPair hhigh hlow
  | hexadecimal hhigh hlow => exact isWild_ofHexPair hhigh hlow
  | binary hlength hdigits => exact isWild_withBits hlength hdigits

theorem ofMasked_eq_byte (h : ByteSpelling text digits bits rest) (hfixed : wildcard ∉ digits)
    (inverted : Bool) : Pattern.ofMasked bits inverted = .byte bits.value inverted :=
  if_neg (mt h.isWild_iff.mp hfixed)

theorem ofMasked_eq_wild (h : ByteSpelling text digits bits rest) (hwild : wildcard ∈ digits)
    (inverted : Bool) : Pattern.ofMasked bits inverted = .wild bits inverted :=
  if_pos (h.isWild_iff.mpr hwild)

theorem tight (h : ByteSpelling text digits bits rest) : bits.Tight := by
  cases h with
  | pair hhigh hlow => exact tight_ofHexPair hhigh hlow
  | hexadecimal hhigh hlow => exact tight_ofHexPair hhigh hlow
  | binary hlength hdigits => exact Tight.withBits (by decide) digits

end ByteSpelling

/-! ## Written digits are spellings -/

theorem spelling_hexPair (value : UInt8) (rest : List Char) :
    ByteSpelling (hexPair value ++ rest) (hexPair value) ⟨value, 0xff⟩ rest := by
  rw [← ofHexPair_hexDigit]
  exact .pair (startsByte_hexDigit (value >>> 4)) (startsByte_hexDigit value)

namespace MaskedByte

/-- Writing a bit and reading it gives the bit back. -/
theorem withBit_bitDigit {b : MaskedByte} (h : b.Tight) (read : MaskedByte) {index : Nat}
    (hindex : index < 8) :
    read.withBit index (b.bitDigit index) =
      ⟨read.value ||| b.value &&& (1 : UInt8) <<< index.toUInt8,
        read.mask ||| b.mask &&& (1 : UInt8) <<< index.toUInt8⟩ := by
  by_cases hm : b.mask &&& (1 : UInt8) <<< index.toUInt8 = 0
  · have hv : b.value &&& (1 : UInt8) <<< index.toUInt8 = 0 := by
      rw [← h.and_mask, UInt8.and_assoc, hm, UInt8.and_zero]
    have hdigit : b.bitDigit index = wildcard := if_pos hm
    rw [hdigit, withBit, if_neg (by decide), if_neg (by decide), hm, hv, UInt8.or_zero,
      UInt8.or_zero]
  · have hm' := (and_bit b.mask index hindex).resolve_left hm
    by_cases hv : b.value &&& (1 : UInt8) <<< index.toUInt8 = 0
    · have hdigit : b.bitDigit index = '0' := (if_neg hm).trans (if_pos hv)
      rw [hdigit, withBit, if_neg (by decide), if_pos rfl, hm', hv, UInt8.or_zero]
    · have hv' := (and_bit b.value index hindex).resolve_left hv
      have hdigit : b.bitDigit index = '1' := (if_neg hm).trans (if_neg hv)
      rw [hdigit, withBit, if_pos rfl, hm', hv']

theorem isBinaryDigit_bitDigit (b : MaskedByte) (index : Nat) :
    isBinaryDigit (b.bitDigit index) = true := by
  simp only [bitDigit]
  split
  · decide
  · split <;> decide

theorem withBits_bitDigit {b : MaskedByte} (h : b.Tight) :
    free.withBits ([7, 6, 5, 4, 3, 2, 1, 0].map b.bitDigit) = b := by
  simp only [List.map_cons, List.map_nil, withBits, List.length_cons, List.length_nil]
  rw [withBit_bitDigit h _ (by decide), withBit_bitDigit h _ (by decide),
    withBit_bitDigit h _ (by decide), withBit_bitDigit h _ (by decide),
    withBit_bitDigit h _ (by decide), withBit_bitDigit h _ (by decide),
    withBit_bitDigit h _ (by decide), withBit_bitDigit h _ (by decide)]
  exact congr (congrArg MaskedByte.mk (or_bits b.value)) (or_bits b.mask)

theorem nibbleDigit_spell : ∀ value : UInt8, ∀ mask ∈ [0, 0x0f, 0xf0, 0xff],
    Tight ⟨value, mask⟩ → startsByte (nibbleDigit ⟨value, mask⟩ 4) = true ∧
      startsByte (nibbleDigit ⟨value, mask⟩ 0) = true ∧
      ofHexPair (nibbleDigit ⟨value, mask⟩ 4) (nibbleDigit ⟨value, mask⟩ 0) = ⟨value, mask⟩ :=
  forall_byte (by decide +kernel)

/-- A tight byte is spelled by its digits. -/
theorem digits_spell {b : MaskedByte} (h : b.Tight) (rest : List Char) :
    ∃ digits, ByteSpelling (b.digits ++ rest) digits b rest := by
  rw [digits]
  split
  · rename_i haligned
    obtain ⟨hhigh, hlow, hpair⟩ := nibbleDigit_spell b.value b.mask (mask_of_aligned _ haligned) h
    have hspelling : ByteSpelling _ _ _ rest := .pair hhigh hlow
    rw [hpair] at hspelling
    exact ⟨_, hspelling⟩
  · have hdigits : ∀ c ∈ [7, 6, 5, 4, 3, 2, 1, 0].map b.bitDigit, isBinaryDigit c = true := by
      intro c hc
      obtain ⟨index, -, rfl⟩ := List.mem_map.mp hc
      exact isBinaryDigit_bitDigit b index
    have hspelling : ByteSpelling _ _ _ rest := .binary rfl hdigits
    rw [withBits_bitDigit h] at hspelling
    exact ⟨_, hspelling⟩

end MaskedByte
end OctetPattern
