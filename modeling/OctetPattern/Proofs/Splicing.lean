import OctetPattern.Proofs.Scoping

/-!
# Tokens before other text

The tokens of a text can be cut between any two of them, and what comes
after the cut can be exchanged for another text (`LexedUpTo.exchange`):
a token ends where it does whatever follows, but for a comment that
nothing ends and a bracket before an asterisk. A text that is put together
in this way is read if its tokens are accepted (`parse_of_tokens`).
-/

namespace OctetPattern

/-! ## Tokens before other text -/

/-- The tokens stand one after another from the text to a rest of it. -/
inductive LexedUpTo (rest : List Char) : List Char → List Token → Prop
  | nil : LexedUpTo rest rest []
  | cons {token : Token} {tokens : List Token} {text middle : List Char}
      (h : Spelled token text middle) (others : LexedUpTo rest middle tokens) :
      LexedUpTo rest text (token :: tokens)

namespace LexedUpTo

variable {text rest : List Char} {tokens : List Token}

/-- They are the first tokens of the whole text. -/
theorem splits (h : LexedUpTo rest text tokens) {all : List Token} (hall : Lexed text all) :
    ∃ others, all = tokens ++ others ∧ Lexed rest others := by
  induction h generalizing all with
  | nil => exact ⟨all, rfl, hall⟩
  | cons hfirst others ih =>
    cases hall with
    | nil => exact absurd rfl hfirst.ne_nil
    | cons hfirst' others' =>
      obtain ⟨rfl, rfl⟩ := hfirst.unique hfirst'
      obtain ⟨last, rfl, hlast⟩ := ih others'
      exact ⟨last, rfl, hlast⟩

/-- The rest can be exchanged for another text. -/
theorem exchange (h : LexedUpTo rest text tokens) (hrest : rest ≠ []) {other : List Char}
    (hother : other.head? ≠ some '*') {others : List Token} (hothers : Lexed other others) :
    ∃ before, text = before ++ rest ∧ Lexed (before ++ other) (tokens ++ others) := by
  induction h with
  | nil => exact ⟨[], rfl, hothers⟩
  | @cons token tokens text middle hfirst _ ih =>
    obtain ⟨before, rfl, hlexed⟩ := ih
    have hhead : token = .openGroup → (before ++ rest).head? ≠ some '*' := by
      rintro rfl
      cases hfirst with
      | openGroup h => exact h
    obtain ⟨lexeme, hne, rfl, hlexeme⟩ := hfirst.exists_lexeme (by simp [hrest])
    refine ⟨lexeme ++ before, (List.append_assoc ..).symm, ?_⟩
    rw [List.append_assoc]
    refine .cons (hlexeme (before ++ other) fun htoken => ?_) hlexed
    cases before with
    | nil => exact hother
    | cons c before => exact hhead htoken

end LexedUpTo

/-! ## Texts from tokens -/

theorem reads_of_tokens {combine : Combine} {s last : State} {text : List Char}
    {tokens : List Token} (hlexed : Lexed text tokens)
    (haccepts : s.AcceptsAll combine tokens last) : Reads combine s text last [] := by
  induction hlexed generalizing s with
  | nil =>
    cases haccepts
    exact .refl
  | cons hfirst others ih =>
    cases haccepts with
    | cons haccept hothers => exact .trans (.of_spelled hfirst haccept) (ih hothers)

/-- Tokens that add up to a pattern are read as that pattern. -/
theorem parse_of_tokens {text : List Char} {tokens : List Token} {last : State} {p : Pattern}
    (hlexed : Lexed text tokens) (haccepts : State.start.AcceptsAll Branches.merged tokens last)
    (hfinish : last.finish Branches.merged = .ok p) : parse text = .ok p := by
  have hrun := (reads_of_tokens hlexed haccepts).run_eq_ok hfinish 0
  have hne : text ≠ [] := by
    rintro rfl
    rw [run_of_end rfl] at hrun
    cases hrun
  rw [parse_eq_run hne]
  exact hrun

end OctetPattern
