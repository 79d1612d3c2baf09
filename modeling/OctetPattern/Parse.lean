import OctetPattern.State

/-!
# Reading a pattern

`parse` turns a text into a pattern or gives the first mistake in it.
It is one loop over tokens (`run`), which ends because every token is at
least one character long. How the branches of an alternation are put
together is a parameter of the loop (`parseWith`); `parse` collects the
branches that match one position.
-/

namespace OctetPattern

/-- Reads the token that `first` leads and lets the state accept it. -/
def step (combine : Combine) (s : State) (first : Char) (c : Cursor) :
    Except SyntaxError (State × Cursor) := do
  let lead := Lead.of first c.peek?
  placed c.position (s.permit lead)
  let (outcome, after) := Token.read first lead c
  let token ← outcome
  let next ← placed after.position (s.accept combine token)
  return (next, after)

theorem reaches_step {combine : Combine} {s next : State} {first : Char}
    {c after : Cursor} (h : step combine s first c = .ok (next, after)) :
    c.Reaches after := by
  have hread := Token.reaches_read first (Lead.of first c.peek?) c
  simp only [step, bind, Except.bind] at h
  split at h
  · cases h
  · split at h
    · cases h
    · split at h
      · cases h
      · cases h
        exact hread

def run (combine : Combine) (s : State) (c : Cursor) : Except SyntaxError Pattern :=
  match _next : c.next? with
  | none => placed c.position (s.finish combine)
  | some (first, c₁) =>
    match _stepped : step combine s first c₁ with
    | .error e => .error e
    | .ok (next, c₂) => run combine next c₂
termination_by c.rest.length
decreasing_by
  exact Nat.lt_of_le_of_lt (reaches_step _stepped).length_le (Cursor.length_next_lt _next)

theorem run_of_end {combine : Combine} {s : State} {c : Cursor} (h : c.next? = none) :
    run combine s c = placed c.position (s.finish combine) := by
  rw [run]
  split
  · rfl
  · rename_i hnext
    rw [h] at hnext
    cases hnext

theorem run_of_next {combine : Combine} {s : State} {c after : Cursor} {first : Char}
    (h : c.next? = some (first, after)) :
    run combine s c =
      (step combine s first after).bind fun (next, c) => run combine next c := by
  rw [run]
  split
  · rename_i hnext
    rw [h] at hnext
    cases hnext
  · rename_i hnext
    obtain ⟨rfl, rfl⟩ := Prod.mk.inj (Option.some.inj (h.symm.trans hnext))
    split <;> (rename_i hstep; rw [hstep]; rfl)

/-- The pattern of a text, with the branches of alternations put together
by `combine`. -/
def parseWith (combine : Combine) (text : List Char) : Except SyntaxError Pattern :=
  if text.isEmpty then .error ⟨.emptyPattern, 0⟩ else run combine .start (.start text)

def parse (text : List Char) : Except SyntaxError Pattern :=
  parseWith Branches.merged text

end OctetPattern
