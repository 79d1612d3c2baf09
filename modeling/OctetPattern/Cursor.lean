import OctetPattern.Cause

/-!
# Cursors

A place in a text: what has not been read, and how many characters have
been. Reading returns the cursor after it, whether it succeeds or not,
and an error carries the position of that cursor.

`Cursor.Reaches` says that one cursor comes after another in the same
text: what was passed between them is what is missing from the rest,
and the position has grown by its length. Every reader has one lemma
that its cursor is reached, so no text is lost, repeated or rewound, and
`Cursor.reaches_start_iff` says what that is for a whole text.
-/

namespace OctetPattern

/-- A place in a text. -/
structure Cursor where
  rest : List Char
  position : Nat
  deriving DecidableEq, Repr

/-- What a reader gives: a value or an error, and the cursor after it. -/
abbrev Reading (α : Type) := Except SyntaxError α × Cursor

namespace Cursor

def start (text : List Char) : Cursor :=
  ⟨text, 0⟩

def peek? (c : Cursor) : Option Char :=
  c.rest.head?

/-- The next character, and the cursor after it. -/
def next? (c : Cursor) : Option (Char × Cursor) :=
  match c.rest with
  | [] => none
  | ch :: rest => some (ch, ⟨rest, c.position + 1⟩)

/-- The cursor after the next character, if there is one. -/
def skip (c : Cursor) : Cursor :=
  match c.rest with
  | [] => c
  | _ :: rest => ⟨rest, c.position + 1⟩

def fail (c : Cursor) (cause : Cause) : Reading α :=
  (.error ⟨cause, c.position⟩, c)

/-! ## Runs of characters -/

/-- The text before the next `delimiter`, and the cursor after that. If
there is none, everything is read and the result is empty. -/
def readUntil (delimiter : Char) (c : Cursor) : Option (List Char) × Cursor :=
  let before := c.rest.takeWhile (· != delimiter)
  match c.rest.dropWhile (· != delimiter) with
  | [] => (none, ⟨[], c.position + before.length⟩)
  | _ :: rest => (some before, ⟨rest, c.position + before.length + 1⟩)

def skipLine (c : Cursor) : Cursor :=
  (c.readUntil '\n').2

/-- The digits from here on, and the cursor after them. -/
def readDigits (c : Cursor) : List Char × Cursor :=
  let digits := c.rest.takeWhile Char.isDigit
  (digits, ⟨c.rest.dropWhile Char.isDigit, c.position + digits.length⟩)

/-- The count that digits spell, where `found` is what follows them. -/
def countOf (digits : List Char) (found : Option Char) : Except Cause UInt32 :=
  if digits.isEmpty then .error (.missingNumber found)
  else
    let value := Nat.ofDigitChars 10 digits 0
    if value < UInt32.size then .ok value.toUInt32 else .error (.hugeNumber digits)

/-- A count in decimal. All its digits are read, also when it is too large. -/
def readNumber (c : Cursor) : Reading UInt32 :=
  let (digits, after) := c.readDigits
  (placed after.position (countOf digits after.peek?), after)

/-! ## The next character -/

theorem next?_eq_some {c after : Cursor} {ch : Char} :
    c.next? = some (ch, after) ↔ c.rest = ch :: after.rest ∧ after.position = c.position + 1 := by
  rcases c with ⟨_ | ⟨x, rest⟩, position⟩
  · simp [next?]
  · obtain ⟨rest', position'⟩ := after
    simp only [next?, Option.some.injEq, Prod.mk.injEq, mk.injEq, List.cons.injEq]
    constructor
    · rintro ⟨rfl, rfl, rfl⟩
      exact ⟨⟨rfl, rfl⟩, rfl⟩
    · rintro ⟨⟨rfl, rfl⟩, rfl⟩
      exact ⟨rfl, rfl, rfl⟩

theorem next?_eq_none {c : Cursor} : c.next? = none ↔ c.rest = [] := by
  obtain ⟨_ | ⟨ch, rest⟩, position⟩ := c <;> simp [next?]

theorem peek?_eq_some {c : Cursor} {ch : Char} :
    c.peek? = some ch ↔ c.next? = some (ch, c.skip) := by
  obtain ⟨_ | ⟨x, rest⟩, position⟩ := c <;> simp [peek?, next?, skip]

theorem peek?_eq_none {c : Cursor} : c.peek? = none ↔ c.rest = [] := by
  obtain ⟨_ | ⟨ch, rest⟩, position⟩ := c <;> simp [peek?]

theorem skip_eq {c after : Cursor} {ch : Char} (h : c.next? = some (ch, after)) :
    c.skip = after := by
  obtain ⟨_ | ⟨x, rest⟩, position⟩ := c
  · cases h
  · exact (Prod.mk.inj (Option.some.inj h)).2

theorem skip_of_end {c : Cursor} (h : c.rest = []) : c.skip = c := by
  obtain ⟨_ | ⟨ch, rest⟩, position⟩ := c
  · rfl
  · cases h

/-! ## Order of cursors in a text -/

/-- `after` is `c` or comes after it in the same text. -/
def Reaches (c after : Cursor) : Prop :=
  ∃ passed, c.rest = passed ++ after.rest ∧ after.position = c.position + passed.length

theorem Reaches.refl (c : Cursor) : c.Reaches c :=
  ⟨[], rfl, rfl⟩

theorem Reaches.trans {c d e : Cursor} (h₁ : c.Reaches d) (h₂ : d.Reaches e) :
    c.Reaches e := by
  obtain ⟨passed₁, hrest₁, hpos₁⟩ := h₁
  obtain ⟨passed₂, hrest₂, hpos₂⟩ := h₂
  refine ⟨passed₁ ++ passed₂, ?_, ?_⟩
  · rw [hrest₁, hrest₂, List.append_assoc]
  · rw [hpos₂, hpos₁, List.length_append, Nat.add_assoc]

theorem Reaches.length_le {c after : Cursor} (h : c.Reaches after) :
    after.rest.length ≤ c.rest.length := by
  obtain ⟨passed, hrest, -⟩ := h
  rw [hrest, List.length_append]
  omega

theorem Reaches.position_le {c after : Cursor} (h : c.Reaches after) :
    c.position ≤ after.position := by
  obtain ⟨passed, -, hpos⟩ := h
  omega

/-- The cursors that come after the start of a text are its positions,
each with the text from there on. -/
theorem reaches_start_iff {text : List Char} {c : Cursor} :
    (start text).Reaches c ↔ c.position ≤ text.length ∧ c.rest = text.drop c.position := by
  constructor
  · rintro ⟨passed, hrest, hposition⟩
    have htext : text = passed ++ c.rest := hrest
    have hlength : c.position = passed.length := hposition.trans (Nat.zero_add _)
    rw [hlength, htext]
    exact ⟨by rw [List.length_append]; exact Nat.le_add_right _ _, by rw [List.drop_left]⟩
  · rintro ⟨hle, hrest⟩
    refine ⟨text.take c.position, ?_, ?_⟩
    · rw [hrest]
      exact (List.take_append_drop _ _).symm
    · rw [List.length_take, Nat.min_eq_left hle]
      exact (Nat.zero_add _).symm

theorem Reaches.peek?_start {text : List Char} {c : Cursor} (h : (start text).Reaches c) :
    c.peek? = text[c.position]? := by
  rw [peek?, (reaches_start_iff.mp h).2, List.head?_drop]

theorem reaches_next {c after : Cursor} {ch : Char} (h : c.next? = some (ch, after)) :
    c.Reaches after :=
  ⟨[ch], (next?_eq_some.mp h).1, (next?_eq_some.mp h).2⟩

theorem length_next_lt {c after : Cursor} {ch : Char} (h : c.next? = some (ch, after)) :
    after.rest.length < c.rest.length := by
  rw [(next?_eq_some.mp h).1]
  exact Nat.lt_succ_self _

theorem reaches_skip (c : Cursor) : c.Reaches c.skip := by
  rcases c with ⟨_ | ⟨ch, rest⟩, position⟩
  · exact Reaches.refl _
  · exact ⟨[ch], rfl, rfl⟩

theorem reaches_readUntil (delimiter : Char) (c : Cursor) :
    c.Reaches (c.readUntil delimiter).2 := by
  have hsplit := (List.takeWhile_append_dropWhile (p := (· != delimiter)) (l := c.rest)).symm
  simp only [readUntil]
  split
  · rename_i hnone
    rw [hnone] at hsplit
    exact ⟨_, hsplit, rfl⟩
  · rename_i ch rest hsome
    rw [hsome] at hsplit
    refine ⟨c.rest.takeWhile (· != delimiter) ++ [ch], ?_, ?_⟩
    · rw [List.append_assoc]
      exact hsplit
    · rw [List.length_append]
      rfl

theorem reaches_skipLine (c : Cursor) : c.Reaches c.skipLine :=
  reaches_readUntil '\n' c

theorem reaches_readNumber (c : Cursor) : c.Reaches c.readNumber.2 :=
  ⟨_, List.takeWhile_append_dropWhile.symm, rfl⟩

end Cursor
end OctetPattern
