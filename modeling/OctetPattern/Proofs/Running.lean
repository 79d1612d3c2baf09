import Mathlib.Logic.Relation
import OctetPattern.Parse
import OctetPattern.Proofs.Accepting
import OctetPattern.Proofs.Lexing

/-!
# Runs of the reader

`Move` is one token read and accepted, `Moves` any number of them. A run
has the outcome of any run it can be moved to (`run_eq_of_moves`), and
what holds at the end of a successful run and is kept by moving
backwards holds at its start (`run_induction`).

A move is a spelled token that is accepted (`spelled_of_move`,
`Reads.of_spelled`). Only a directive asks for more, since it is refused
under a modifier before its names are read.
-/

namespace OctetPattern

/-- A state and the cursor from which it reads on. -/
abbrev Config := State × Cursor

/-- One token is read and accepted. -/
def Move (combine : Combine) (before after : Config) : Prop :=
  ∃ first c, before.2.next? = some (first, c) ∧ step combine before.1 first c = .ok after

/-- Tokens are read and accepted one after another. -/
def Moves (combine : Combine) : Config → Config → Prop :=
  Relation.ReflTransGen (Move combine)

variable {combine : Combine}

/-! ## Runs -/

theorem run_eq_of_move {before after : Config} (h : Move combine before after) :
    run combine before.1 before.2 = run combine after.1 after.2 := by
  obtain ⟨first, c, hnext, hstep⟩ := h
  rw [run_of_next hnext, hstep]
  rfl

theorem run_eq_of_moves {before after : Config} (h : Moves combine before after) :
    run combine before.1 before.2 = run combine after.1 after.2 := by
  induction h with
  | refl => rfl
  | tail _ hmove ih => rw [ih, run_eq_of_move hmove]

theorem run_of_step_error {s : State} {c after : Cursor} {first : Char} {e : SyntaxError}
    (hnext : c.next? = some (first, after)) (hstep : step combine s first after = .error e) :
    run combine s c = .error e := by
  rw [run_of_next hnext, hstep]
  rfl

/-- A text that is not empty is read from the start. -/
theorem parse_eq_run {text : List Char} (h : text ≠ []) :
    parse text = run Branches.merged .start (.start text) := by
  rw [parse, parseWith, if_neg (by simpa using h)]

theorem run_of_parse {text : List Char} {p : Pattern} (h : parse text = .ok p) :
    run Branches.merged .start (.start text) = .ok p := by
  have hne : text ≠ [] := by
    rintro rfl
    cases h
  rwa [parse_eq_run hne] at h

/-- Moving only reads on. -/
theorem reaches_of_moves {before after : Config} (h : Moves combine before after) :
    before.2.Reaches after.2 := by
  induction h with
  | refl => exact .refl _
  | tail _ hmove ih =>
    obtain ⟨first, c, hnext, hstep⟩ := hmove
    exact ih.trans ((Cursor.reaches_next hnext).trans (reaches_step hstep))

/-- What is true where a run succeeds and is kept by moving backwards is
true where the run began. -/
theorem run_induction {motive : State → Cursor → Prop} {p : Pattern}
    (finish : ∀ s c, c.rest = [] → s.finish combine = .ok p → motive s c)
    (move : ∀ s c s' c', Move combine (s, c) (s', c') → motive s' c' → motive s c)
    {s : State} {c : Cursor} (h : run combine s c = .ok p) : motive s c := by
  fun_induction run combine s c with
  | case1 s c hnext => exact finish s c (Cursor.next?_eq_none.mp hnext) (placed_eq_ok.mp h)
  | case2 s c first c₁ hnext e hstep => cases h
  | case3 s c first c₁ hnext s' c' hstep ih =>
    exact move s c s' c' ⟨first, c₁, hnext, hstep⟩ (ih h)

/-! ## Moves as spelled tokens -/

/-- The state accepts the token, which it may be given. -/
def State.Accepts (combine : Combine) (s : State) (token : Token) (next : State) : Prop :=
  s.accept combine token = .ok next ∧
    ∀ charsets, token = .directive charsets → s.level.pending = .none

theorem step_eq_ok {s next : State} {first : Char} {c after : Cursor} :
    step combine s first c = .ok (next, after) ↔
      s.permit (Lead.of first c.peek?) = .ok () ∧
        ∃ token, Token.read first (Lead.of first c.peek?) c = (.ok token, after) ∧
          s.accept combine token = .ok next := by
  generalize hread : Token.read first (Lead.of first c.peek?) c = reading
  obtain ⟨outcome, cursor⟩ := reading
  simp only [step, hread, bind_eq_ok, placed_eq_ok]
  constructor
  · rintro ⟨⟨⟩, hpermit, token, rfl, _, haccept, ⟨⟩⟩
    exact ⟨hpermit, token, rfl, haccept⟩
  · rintro ⟨hpermit, token, ⟨⟩, haccept⟩
    exact ⟨(), hpermit, token, rfl, next, haccept, rfl⟩

/-- What is checked before a token is read is checked again by what the
token does, except that a directive does nothing that could fail. -/
theorem permit_of_accepts {s next : State} {token : Token} {lead : Lead} {first : Char}
    {c after : Cursor} (hread : Token.read first lead c = (.ok token, after))
    (h : s.Accepts combine token next) : s.permit lead = .ok () := by
  obtain ⟨haccept, hdirective⟩ := h
  cases lead with
  | directive =>
    obtain ⟨charsets, -, rfl⟩ := Reading.map_eq_ok.mp hread
    exact Pending.mustBeNone_eq_ok.mpr (hdirective charsets rfl)
  | repetition =>
    obtain ⟨quantifier, -, rfl⟩ := Reading.map_eq_ok.mp hread
    obtain ⟨context, items, pending, charsets⟩ := s
    obtain ⟨hplace, rfl, operand, others, rfl, hoperand, rfl⟩ :=
      State.accept_quantifier.mp haccept
    have hset : ¬ State.inSet ⟨context, ⟨operand :: others, .none, charsets⟩⟩ = true := by
      simp [State.inSet_iff, hplace]
    simp [State.permit, hset, Pending.mustBeNone, operand?, hoperand, bind, Except.bind, pure,
      Except.pure]
  | whole | comment | quote | backslash | digit => rfl

theorem Spelled.exists_cons {token : Token} {text rest : List Char}
    (h : Spelled token text rest) : ∃ first text', text = first :: text' := by
  cases h with
  | gap h => cases h <;> exact ⟨_, _, rfl⟩
  | quantifier h => cases h <;> exact ⟨_, _, rfl⟩
  | byte h => cases h <;> exact ⟨_, _, rfl⟩
  | _ => exact ⟨_, _, rfl⟩

theorem Spelled.ne_nil {token : Token} {text rest : List Char} (h : Spelled token text rest) :
    text ≠ [] := by
  obtain ⟨first, text, rfl⟩ := h.exists_cons
  exact List.cons_ne_nil first text

theorem Spelled.lead_directive {charsets : List Charset} {first : Char} {text rest : List Char}
    (h : Spelled (.directive charsets) (first :: text) rest) :
    Lead.of first text.head? = .directive := by
  cases h
  rfl

theorem spelled_of_move {s next : State} {c after : Cursor}
    (h : Move combine (s, c) (next, after)) :
    ∃ token, Spelled token c.rest after.rest ∧ s.Accepts combine token next := by
  obtain ⟨first, c₁, hnext, hstep⟩ := h
  obtain ⟨hpermit, token, hread, haccept⟩ := step_eq_ok.mp hstep
  rcases Token.read_sound hread with hspelled | ⟨ch, rfl⟩
  · rw [(Cursor.next?_eq_some.mp hnext).1]
    refine ⟨token, hspelled, haccept, ?_⟩
    rintro charsets rfl
    rw [Cursor.peek?, hspelled.lead_directive] at hpermit
    exact Pending.mustBeNone_eq_ok.mp hpermit
  · cases haccept

/-! ## Reading a part of a text -/

/-- Wherever the text begins, reading it leads from one state to the next
with the given rest to come. -/
def Reads (combine : Combine) (s : State) (text : List Char) (next : State)
    (rest : List Char) : Prop :=
  ∀ position, ∃ position', Moves combine (s, ⟨text, position⟩) (next, ⟨rest, position'⟩)

namespace Reads

variable {s s₁ s₂ : State} {text middle rest : List Char}

theorem refl : Reads combine s text s text :=
  fun position => ⟨position, Relation.ReflTransGen.refl⟩

theorem trans (h₁ : Reads combine s text s₁ middle) (h₂ : Reads combine s₁ middle s₂ rest) :
    Reads combine s text s₂ rest := by
  intro position
  obtain ⟨position₁, hmoves₁⟩ := h₁ position
  obtain ⟨position₂, hmoves₂⟩ := h₂ position₁
  exact ⟨position₂, Relation.ReflTransGen.trans hmoves₁ hmoves₂⟩

theorem of_spelled {token : Token} (hspelled : Spelled token text rest)
    (haccepts : s.Accepts combine token s₁) : Reads combine s text s₁ rest := by
  intro position
  obtain ⟨first, text, rfl⟩ := hspelled.exists_cons
  obtain ⟨position', hread⟩ := Token.read_complete hspelled (position + 1)
  have hpermit := permit_of_accepts hread haccepts
  have hmove : Move combine (s, ⟨first :: text, position⟩) (s₁, ⟨rest, position'⟩) :=
    ⟨first, ⟨text, position + 1⟩, rfl, step_eq_ok.mpr ⟨hpermit, token, hread, haccepts.1⟩⟩
  exact ⟨position', Relation.ReflTransGen.single hmove⟩

/-- A token that is no directive is accepted if its change of the state
succeeds. -/
theorem of_accept {token : Token} (hspelled : Spelled token text rest)
    (haccept : s.accept combine token = .ok s₁)
    (hdirective : ∀ charsets, token ≠ .directive charsets) : Reads combine s text s₁ rest :=
  of_spelled hspelled ⟨haccept, fun charsets h => absurd h (hdirective charsets)⟩

/-- Blanks and comments change nothing. -/
theorem of_gap (h : Gap text rest) : Reads combine s text s rest := by
  induction h with
  | nil => exact refl
  | cons hfirst _ ih => exact (of_accept (.gap hfirst) rfl nofun).trans ih

/-- A run goes on after what has been read, as far along as that is long. -/
theorem run_eq {passed : List Char} (h : Reads combine s (passed ++ rest) s₁ rest)
    (position : Nat) :
    run combine s ⟨passed ++ rest, position⟩ =
      run combine s₁ ⟨rest, position + passed.length⟩ := by
  obtain ⟨position', hmoves⟩ := h position
  obtain ⟨passed', hpassed, hposition⟩ := reaches_of_moves hmoves
  obtain rfl : passed = passed' := List.append_cancel_right hpassed
  obtain rfl : position' = position + passed.length := hposition
  exact run_eq_of_moves hmoves

/-- A run may start after what has been read. -/
theorem run_eq_ok {p : Pattern} (h : Reads combine s text s₁ [])
    (hfinish : s₁.finish combine = .ok p) (position : Nat) :
    run combine s ⟨text, position⟩ = .ok p := by
  obtain ⟨position', hmoves⟩ := h position
  rw [run_eq_of_moves hmoves, run_of_end rfl, hfinish]
  rfl

end Reads
end OctetPattern
