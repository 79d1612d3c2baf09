import OctetPattern.Encode

/-!
# Decoding what was encoded

`Charset.decode?` is the way back from bytes to a text: it takes one
character after another from the front of the bytes, as the standard of
each charset has it. A text has bytes exactly if the charset has all its
characters (`Charset.Has`), and no more than that is needed for decoding
to give the text back.

All charsets go through one induction over the text. What it needs of a
charset is that the bytes of one character are seen to end where they
do, whatever follows them (`Charset.decodeChar?_append`).
-/

namespace OctetPattern

/-! ## The character at the front -/

/-- The characters of windows-1252 at the bytes from 0x80 to 0x9f, in
their order. -/
def windows1252Table : List (Option Char) :=
  [some '\u20ac', none, some '\u201a', some '\u0192', some '\u201e', some '\u2026',
    some '\u2020', some '\u2021', some '\u02c6', some '\u2030', some '\u0160', some '\u2039',
    some '\u0152', none, some '\u017d', none, none, some '\u2018', some '\u2019',
    some '\u201c', some '\u201d', some '\u2022', some '\u2013', some '\u2014', some '\u02dc',
    some '\u2122', some '\u0161', some '\u203a', some '\u0153', none, some '\u017e',
    some '\u0178']

/-- The character that windows-1252 puts at a byte, if it puts one there. -/
def windows1252Char? (b : UInt8) : Option Char :=
  if b < 0x80 ∨ 0xa0 ≤ b then some (Char.ofNat b.toNat)
  else windows1252Table[b.toNat - 0x80]?.join

/-- The number of the sixteen-bit unit with the given bytes. -/
def unitOf (high low : UInt8) : Nat :=
  high.toNat * 0x100 + low.toNat

/-- A unit that is the first half of a character. -/
def isHighSurrogate (unit : Nat) : Bool :=
  0xd800 ≤ unit && unit < 0xdc00

/-- A unit that is the second half of a character. -/
def isLowSurrogate (unit : Nat) : Bool :=
  0xdc00 ≤ unit && unit < 0xe000

/-- The character beyond the basic plane that two surrogates stand for. -/
def surrogatePair (high low : Nat) : Char :=
  Char.ofNat (0x10000 + (high - 0xd800) * 0x400 + (low - 0xdc00))

/-- The character at the front of sixteen-bit units and the number of its
bytes, where `unit` joins two bytes as the byte order has it. Half of a
character is none. -/
def utf16Char? (unit : UInt8 → UInt8 → Nat) : List UInt8 → Option (Char × Nat)
  | a :: b :: rest =>
    if isHighSurrogate (unit a b) then
      match rest with
      | c :: d :: _ =>
        if isLowSurrogate (unit c d) then some (surrogatePair (unit a b) (unit c d), 4)
        else none
      | _ => none
    else if isLowSurrogate (unit a b) then none
    else some (Char.ofNat (unit a b), 2)
  | _ => none

namespace Charset

/-- The character at the front of some bytes and the number of its bytes. -/
def decodeChar? : Charset → List UInt8 → Option (Char × Nat)
  | utf8, bytes => (bytes.toByteArray.utf8DecodeChar? 0).map fun c => (c, c.utf8Size)
  | utf16be, bytes => utf16Char? unitOf bytes
  | utf16le, bytes => utf16Char? (fun low high => unitOf high low) bytes
  | latin1, b :: _ => some (Char.ofNat b.toNat, 1)
  | ascii, b :: _ => if b < 0x80 then some (Char.ofNat b.toNat, 1) else none
  | windows1252, b :: _ => (windows1252Char? b).map (·, 1)
  | _, [] => none

/-- The text of some bytes, if they are the bytes of a text. -/
def decode? (charset : Charset) : List UInt8 → Option (List Char)
  | [] => some []
  | b :: bytes => do
    let (c, size) ← charset.decodeChar? (b :: bytes)
    let text ← charset.decode? (bytes.drop (size - 1))
    return c :: text
termination_by bytes => bytes.length

/-- The charset has the character. -/
def Has : Charset → Char → Prop
  | latin1, c => c.toNat ≤ 0xff
  | ascii, c => c.toNat ≤ 0x7f
  | windows1252, c =>
    c.toNat ≤ 0x7f ∨ (0xa0 ≤ c.toNat ∧ c.toNat ≤ 0xff) ∨ some c ∈ windows1252Table
  | utf8, _ | utf16be, _ | utf16le, _ => True

end Charset

/-! ## Single bytes -/

theorem toNat_toUInt8_of_lt {n : Nat} (h : n < 0x100) : n.toUInt8.toNat = n := by
  rw [Nat.toUInt8, UInt8.toNat_ofNat', Nat.mod_eq_of_lt h]

theorem isSome_byteBelow {limit : Nat} {c : Char} :
    (byteBelow limit c).isSome = true ↔ c.toNat < limit := by
  rw [byteBelow]
  split <;> simp_all

theorem byteBelow_eq_some {limit : Nat} {c : Char} {b : UInt8} (hlimit : limit ≤ 0x100)
    (h : byteBelow limit c = some b) : b.toNat < limit ∧ Char.ofNat b.toNat = c := by
  rw [byteBelow] at h
  split at h
  · rename_i hlt
    obtain rfl := Option.some.inj h
    rw [toNat_toUInt8_of_lt (Nat.lt_of_lt_of_le hlt hlimit)]
    exact ⟨hlt, c.ofNat_toNat⟩
  · cases h

/-- Both tables give the same byte to a character. -/
theorem windows1252Char?_high : ∀ p ∈ windows1252High, windows1252Char? p.2 = some p.1 := by
  decide

/-- Both tables hold the same characters. -/
theorem mem_windows1252High {c : Char} :
    c ∈ windows1252High.map Prod.fst ↔ some c ∈ windows1252Table := by
  have hsame : windows1252High.map Prod.fst = windows1252Table.filterMap id := rfl
  simp [hsame]

theorem isSome_windows1252Byte {c : Char} :
    (windows1252Byte c).isSome = true ↔ Charset.windows1252.Has c := by
  rw [windows1252Byte, Charset.Has]
  split
  · rename_i hsame
    simp
    omega
  · rename_i hhigh
    have hlow : ¬ c.toNat ≤ 0x7f := fun h => hhigh (.inl (Nat.lt_succ_of_le h))
    have hmiddle : ¬ (0xa0 ≤ c.toNat ∧ c.toNat ≤ 0xff) :=
      fun h => hhigh (.inr ⟨h.1, Nat.lt_succ_of_le h.2⟩)
    rw [← mem_windows1252High]
    simp only [hlow, hmiddle, false_or, List.lookup_isSome_iff, List.mem_map, beq_iff_eq,
      @eq_comm _ c]

theorem windows1252Char?_of_byte {c : Char} {b : UInt8} (h : windows1252Byte c = some b) :
    windows1252Char? b = some c := by
  rw [windows1252Byte] at h
  split at h
  · rename_i hsame
    have htoNat : c.toNat.toUInt8.toNat = c.toNat := toNat_toUInt8_of_lt (by omega)
    obtain rfl := Option.some.inj h
    have hlatin1 : c.toNat.toUInt8 < 0x80 ∨ 0xa0 ≤ c.toNat.toUInt8 := by
      rw [UInt8.lt_iff_toNat_lt, UInt8.le_iff_toNat_le, htoNat]
      exact hsame.imp_right And.left
    rw [windows1252Char?, if_pos hlatin1, htoNat, Char.ofNat_toNat]
  · obtain ⟨before, after, hmem, -⟩ := List.lookup_eq_some_iff.mp h
    exact windows1252Char?_high (c, b) (hmem ▸ List.mem_append_right _ (List.mem_cons_self ..))

/-! ## Sixteen-bit units -/

theorem toNat_toUInt16_of_lt {n : Nat} (h : n < 0x10000) : n.toUInt16.toNat = n := by
  rw [Nat.toUInt16, UInt16.toNat_ofNat', Nat.mod_eq_of_lt h]

/-- A character is one unit that is no surrogate, or a surrogate of each
kind. -/
theorem utf16Units_cases (c : Char) :
    (∃ unit : UInt16, utf16Units c = [unit] ∧ isHighSurrogate unit.toNat = false ∧
        isLowSurrogate unit.toNat = false ∧ Char.ofNat unit.toNat = c) ∨
      ∃ high low : UInt16, utf16Units c = [high, low] ∧ isHighSurrogate high.toNat = true ∧
        isLowSurrogate low.toNat = true ∧ surrogatePair high.toNat low.toNat = c := by
  have hvalid : c.toNat < 0xd800 ∨ 0xdfff < c.toNat ∧ c.toNat < 0x110000 := c.valid
  rw [utf16Units]
  split
  · rename_i hbasic
    have htoNat := toNat_toUInt16_of_lt hbasic
    refine .inl ⟨_, rfl, ?_, ?_, ?_⟩
    · rw [htoNat]
      simp [isHighSurrogate]
      omega
    · rw [htoNat]
      simp [isLowSurrogate]
      omega
    · rw [htoNat, Char.ofNat_toNat]
  · rename_i hbeyond
    have hhigh := toNat_toUInt16_of_lt (n := 0xd800 + (c.toNat - 0x10000) / 0x400) (by omega)
    have hlow := toNat_toUInt16_of_lt (n := 0xdc00 + (c.toNat - 0x10000) % 0x400) (by omega)
    refine .inr ⟨_, _, rfl, ?_, ?_, ?_⟩
    · rw [hhigh]
      simp [isHighSurrogate]
      omega
    · rw [hlow]
      simp [isLowSurrogate]
      omega
    · have hoffset := Nat.div_add_mod' (c.toNat - 0x10000) 0x400
      rw [hhigh, hlow, surrogatePair, Nat.add_sub_cancel_left, Nat.add_sub_cancel_left,
        Nat.add_assoc, hoffset, Nat.add_sub_cancel' (by omega), Char.ofNat_toNat]

section
variable {unit : UInt8 → UInt8 → Nat} {bytes : UInt16 → List UInt8}

/-- The units of a character are taken from the front as that character,
whatever the byte order. -/
theorem utf16Char?_append (h : ∀ u, ∃ a b, bytes u = [a, b] ∧ unit a b = u.toNat) (c : Char)
    (rest : List UInt8) :
    utf16Char? unit ((utf16Units c).flatMap bytes ++ rest) =
      some (c, ((utf16Units c).flatMap bytes).length) := by
  rcases utf16Units_cases c with ⟨u, hunits, hhigh, hlow, hc⟩ | ⟨u, v, hunits, hhigh, hlow, hc⟩
  · obtain ⟨a, b, hbytes, hunit⟩ := h u
    rw [hunits, List.flatMap_singleton, hbytes]
    simp only [List.cons_append, List.nil_append, utf16Char?, hunit, hhigh, hlow, hc]
    rfl
  · obtain ⟨a, b, hfirst, hunit⟩ := h u
    obtain ⟨a', b', hsecond, hunit'⟩ := h v
    rw [hunits, List.flatMap_cons, List.flatMap_singleton, hfirst, hsecond]
    simp only [List.cons_append, List.nil_append, utf16Char?, hunit, hunit', hhigh, hlow, hc]
    rfl

end

theorem unitOf_bytes (u : UInt16) : unitOf (u >>> 8).toUInt8 u.toUInt8 = u.toNat := by
  have hlt := u.toNat_lt
  simp [unitOf]
  omega

/-! ## Any charset -/

namespace Charset

theorem isSome_encodeChar? {charset : Charset} {c : Char} :
    (charset.encodeChar? c).isSome = true ↔ charset.Has c := by
  cases charset with
  | latin1 =>
    rw [encodeChar?, Option.isSome_map, isSome_byteBelow]
    exact Nat.lt_succ_iff
  | ascii =>
    rw [encodeChar?, Option.isSome_map, isSome_byteBelow]
    exact Nat.lt_succ_iff
  | windows1252 => rw [encodeChar?, Option.isSome_map, isSome_windows1252Byte]
  | utf8 | utf16be | utf16le => exact iff_of_true rfl trivial

/-- The bytes of a character are seen to end where they do, whatever
follows them. -/
theorem decodeChar?_append {charset : Charset} {c : Char} {bytes : List UInt8}
    (h : charset.encodeChar? c = some bytes) (rest : List UInt8) :
    charset.decodeChar? (bytes ++ rest) = some (c, bytes.length) := by
  cases charset with
  | latin1 =>
    obtain ⟨b, hb, rfl⟩ := Option.map_eq_some_iff.mp h
    obtain ⟨-, rfl⟩ := byteBelow_eq_some (Nat.le_refl _) hb
    rfl
  | ascii =>
    obtain ⟨b, hb, rfl⟩ := Option.map_eq_some_iff.mp h
    obtain ⟨hlt, rfl⟩ := byteBelow_eq_some (by decide) hb
    exact if_pos (UInt8.lt_iff_toNat_lt.mpr hlt)
  | windows1252 =>
    obtain ⟨b, hb, rfl⟩ := Option.map_eq_some_iff.mp h
    exact congrArg (Option.map (·, 1)) (windows1252Char?_of_byte hb)
  | utf8 =>
    obtain rfl := Option.some.inj h
    have hfront : (String.utf8EncodeChar c ++ rest).toByteArray.utf8DecodeChar? 0 = some c := by
      rw [List.toByteArray_append]
      exact ByteArray.utf8DecodeChar?_utf8EncodeChar_append
    rw [decodeChar?, hfront, String.length_utf8EncodeChar]
    rfl
  | utf16be =>
    obtain rfl := Option.some.inj h
    exact utf16Char?_append (fun u => ⟨(u >>> 8).toUInt8, u.toUInt8, rfl, unitOf_bytes u⟩) c rest
  | utf16le =>
    obtain rfl := Option.some.inj h
    exact utf16Char?_append (fun u => ⟨u.toUInt8, (u >>> 8).toUInt8, rfl, unitOf_bytes u⟩) c rest

/-! ## Texts -/

theorem isSome_encode? {charset : Charset} {text : List Char} :
    (charset.encode? text).isSome = true ↔ ∀ c ∈ text, charset.Has c := by
  induction text with
  | nil => simp [encode?]
  | cons c text ih =>
    rw [List.forall_mem_cons, ← isSome_encodeChar?, ← ih, encode?]
    cases charset.encodeChar? c <;> cases charset.encode? text <;> simp

theorem encode?_append (charset : Charset) (text other : List Char) :
    charset.encode? (text ++ other) =
      (charset.encode? text).bind fun bytes => (charset.encode? other).map (bytes ++ ·) := by
  induction text with
  | nil => simp [encode?]
  | cons c text ih =>
    rw [List.cons_append, encode?, encode?, ih]
    cases charset.encodeChar? c <;> cases charset.encode? text <;>
      cases charset.encode? other <;> simp

theorem decodeChar?_nil (charset : Charset) : charset.decodeChar? [] = none := by
  cases charset <;> rfl

/-- Decoding goes on behind the bytes of a character. -/
theorem decode?_append {charset : Charset} {c : Char} {first : List UInt8}
    (h : charset.encodeChar? c = some first) (bytes : List UInt8) :
    charset.decode? (first ++ bytes) = (charset.decode? bytes).map (c :: ·) := by
  have hfront := decodeChar?_append h bytes
  cases first with
  | nil =>
    have hnone := decodeChar?_append h []
    rw [List.append_nil, decodeChar?_nil] at hnone
    cases hnone
  | cons b first =>
    rw [List.cons_append] at hfront ⊢
    rw [decode?, hfront, Option.map_eq_bind]
    simp only [Option.bind_eq_bind, Option.bind_some, List.length_cons, Nat.add_sub_cancel,
      List.drop_left]
    rfl

theorem decode?_encode? {charset : Charset} {text : List Char} {bytes : List UInt8}
    (h : charset.encode? text = some bytes) : charset.decode? bytes = some text := by
  induction text generalizing bytes with
  | nil =>
    obtain rfl := Option.some.inj h
    rw [decode?]
  | cons c text ih =>
    simp only [encode?, Option.bind_eq_bind, Option.bind_eq_some_iff] at h
    obtain ⟨first, hfirst, others, hothers, hbytes⟩ := h
    obtain rfl := Option.some.inj hbytes
    rw [decode?_append hfirst, ih hothers]
    rfl

end Charset

/-- A text has bytes in a charset if and only if the charset has all its
characters. Decoding the bytes gives the text back, and the bytes of two
texts one after the other are those of each in turn, if both have some. -/
theorem encoding_exact (charset : Charset) (text : List Char) :
    ((charset.encode? text).isSome = true ↔ ∀ c ∈ text, charset.Has c) ∧
      (∀ bytes, charset.encode? text = some bytes → charset.decode? bytes = some text) ∧
      ∀ other, charset.encode? (text ++ other) =
        (charset.encode? text).bind fun bytes => (charset.encode? other).map (bytes ++ ·) :=
  ⟨Charset.isSome_encode?, fun _ => Charset.decode?_encode?, charset.encode?_append text⟩

/-- A character beyond the basic plane between two others. -/
theorem encoding_exact_surrogates :
    Charset.utf16le.encode? ['a', '😀', '\u20ac'] =
        some [0x61, 0x00, 0x3d, 0xd8, 0x00, 0xde, 0xac, 0x20] ∧
      Charset.utf16le.decode? [0x61, 0x00, 0x3d, 0xd8, 0x00, 0xde, 0xac, 0x20] =
        some ['a', '😀', '\u20ac'] := by
  have h : Charset.utf16le.encode? ['a', '😀', '\u20ac'] =
      some [0x61, 0x00, 0x3d, 0xd8, 0x00, 0xde, 0xac, 0x20] := by
    decide
  exact ⟨h, (encoding_exact _ _).2.1 _ h⟩

end OctetPattern
