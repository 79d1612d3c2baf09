import OctetPattern.Proofs.Refusing

/-!
# Errors are local

An error tells of the text up to its place and one character more. A text
that is refused before its end is refused in the same way however it goes
on after that character, and only at its end can it be said that something
was left open (`parse_error_local`).

A token is read promptly, and so is what comes of it: `attempt` is one
step that also tells where it has failed. A state has its own causes to
refuse a token, but none is that something is open, which is said only
when there are no more tokens (`State.Refuses`). A run is a chain of such
steps.
-/

namespace OctetPattern

/-! ## Steps -/

/-- A step that also gives the cursor where it has failed. -/
def attempt (combine : Combine) (s : State) (first : Char) (c : Cursor) : Reading State :=
  let lead := Lead.of first c.peek?
  Reading.andThen (placed c.position (s.permit lead), c) fun _ c =>
    (Token.read first lead c).andThen fun token after =>
      (placed after.position (s.accept combine token), after)

theorem step_eq_attempt (combine : Combine) (s : State) (first : Char) (c : Cursor) :
    step combine s first c =
      (attempt combine s first c).1.map fun next => (next, (attempt combine s first c).2) := by
  simp only [step, attempt]
  cases s.permit (Lead.of first c.peek?) with
  | error cause => rfl
  | ok u =>
    dsimp only [Reading.andThen, placed, bind, Except.bind]
    obtain ⟨e | token, after⟩ := Token.read first (Lead.of first c.peek?) c
    · rfl
    · dsimp only
      cases s.accept combine token <;> rfl

theorem prompt_attempt (combine : Combine) (s : State) (first : Char) :
    Prompt (attempt combine s first) :=
  .look fun found => (Prompt.placed (s.closes_permit (Lead.of first found))).andThen fun _ =>
    (Token.prompt_read first (Lead.of first found)).andThen fun token =>
      .placed ((s.refuses_accept combine token).imp fun _ h => h.closed)

theorem attempt_of_step {combine : Combine} {s next : State} {first : Char} {c after : Cursor}
    (h : step combine s first c = .ok (next, after)) :
    attempt combine s first c = (.ok next, after) := by
  rw [step_eq_attempt] at h
  obtain ⟨next', hnext, hpair⟩ := map_eq_ok.mp h
  obtain ⟨rfl, rfl⟩ := Prod.mk.inj hpair
  exact Prod.ext hnext rfl

/-- A step that fails has an error that stands where it has come to. -/
theorem step_eq_error {combine : Combine} {s : State} {first : Char} {c : Cursor}
    {e : SyntaxError} :
    step combine s first c = .error e ↔ (attempt combine s first c).1 = .error e := by
  rw [step_eq_attempt]
  cases (attempt combine s first c).1 <;> simp [Except.map]

/-! ## Runs -/

section
variable {combine : Combine} {s : State} {c d : Cursor} {e : SyntaxError}

/-- At the end of the text any cause may stand. -/
theorem placed_stands {α : Type} {x : Except Cause α} (hend : c.rest = [])
    (h : placed c.position x = .error e) : e.StandsAt c := by
  cases x with
  | ok a => cases h
  | error cause =>
    obtain rfl := Except.error.inj h
    exact ⟨rfl, fun _ => hend⟩

/-- The error of a run stands at a cursor after its first character. -/
theorem run_stands (h : run combine s c = .error e) :
    ∃ after, c.skip.Reaches after ∧ e.StandsAt after := by
  fun_induction run combine s c with
  | case1 s c hnext =>
    have hend := Cursor.next?_eq_none.mp hnext
    rw [Cursor.skip_of_end hend]
    exact ⟨c, .refl c, placed_stands hend h⟩
  | case2 s c first c₁ hnext e' hstep =>
    obtain rfl := Except.error.inj h
    have hattempt := prompt_attempt combine s first
    rw [Cursor.skip_eq hnext]
    exact ⟨_, hattempt.reaches c₁, hattempt.stands (step_eq_error.mp hstep)⟩
  | case3 s c first c₁ hnext next c₂ hstep ih =>
    obtain ⟨after, hreaches, hstands⟩ := ih h
    rw [Cursor.skip_eq hnext]
    exact ⟨after, (reaches_step hstep).trans (c₂.reaches_skip.trans hreaches), hstands⟩

theorem position_le_of_run (h : run combine s c = .error e) : c.position ≤ e.position := by
  obtain ⟨after, hreaches, hstands⟩ := run_stands h
  rw [hstands.position]
  exact (c.reaches_skip.trans hreaches).position_le

/-- Two texts that are alike up to the character after the error of one
have the same error. -/
theorem run_alike (halike : c.AlikeThrough e.position d) (h : run combine s c = .error e) :
    run combine s d = .error e := by
  have hle := position_le_of_run h
  fun_induction run combine s c generalizing d with
  | case1 s c hnext =>
    obtain ⟨first, c', d', hc, -, -⟩ := halike.next hle
    cases hnext.symm.trans hc
  | case2 s c first c₁ hnext e' hstep =>
    obtain rfl := Except.error.inj h
    obtain ⟨_, _, d₁, hc, hd, halike₁⟩ := halike.next hle
    obtain ⟨rfl, rfl⟩ := Prod.mk.inj (Option.some.inj (hnext.symm.trans hc))
    have hattempt := prompt_attempt combine s first
    have herror := step_eq_error.mp hstep
    have hreached := (hattempt.stands herror).position.ge
    have herror' := (hattempt.alike halike₁ hreached).1.trans herror
    exact run_of_step_error hd (step_eq_error.mpr herror')
  | case3 s c first c₁ hnext next c₂ hstep ih =>
    obtain ⟨_, _, d₁, hc, hd, halike₁⟩ := halike.next hle
    obtain ⟨rfl, rfl⟩ := Prod.mk.inj (Option.some.inj (hnext.symm.trans hc))
    have hattempt := attempt_of_step hstep
    have hle₂ : c₂.position ≤ e.position := position_le_of_run h
    have hreached : (attempt combine s first c₁).2.position ≤ e.position := by rwa [hattempt]
    obtain ⟨houtcome, halike₂⟩ := (prompt_attempt combine s first).alike halike₁ hreached
    rw [hattempt] at houtcome halike₂
    rw [run_of_next hd, step_eq_attempt, houtcome]
    exact ih halike₂ h hle₂

end

/-! ## Whole texts -/

theorem Cause.leavesOpen_of_fault {cause : Cause}
    (h : cause.fault ∈ [Fault.unclosedSet, .unclosedGroup, .unclosedString]) :
    cause.leavesOpen = true := by
  cases cause with
  | unclosedSet | unclosedGroup | unclosedDirective | unclosedString => rfl
  | splitByte first found =>
    rw [fault] at h
    split at h <;> simp at h
  | _ => simp [fault] at h

/-- An error stands in the text, and at its end if it says that a set, a
group or a string is open. If it stands before the end, it depends on the
text up to the character after it and on nothing else. -/
theorem parse_error_local {text : List Char} {e : SyntaxError} (hne : text ≠ [])
    (h : parse text = .error e) :
    (1 ≤ e.position ∧ e.position ≤ text.length) ∧
      (e.cause.fault ∈ [Fault.unclosedSet, .unclosedGroup, .unclosedString] →
        e.position = text.length) ∧
      (e.position < text.length → ∀ other : List Char,
        other.take (e.position + 1) = text.take (e.position + 1) → parse other = .error e) := by
  rw [parse_eq_run hne] at h
  obtain ⟨after, ⟨passed, hpassed, hafter⟩, hstands⟩ := run_stands h
  obtain ⟨first, text, rfl⟩ := List.exists_cons_of_ne_nil hne
  have hposition : e.position = 1 + passed.length := hstands.position.trans hafter
  have hlength : text.length = passed.length + after.rest.length := by
    rw [show text = passed ++ after.rest from hpassed, List.length_append]
  refine ⟨⟨by omega, by rw [List.length_cons]; omega⟩, fun hopen => ?_, fun hlt other hother => ?_⟩
  · rw [hstands.atEnd (Cause.leavesOpen_of_fault hopen), List.length_nil] at hlength
    rw [List.length_cons]
    omega
  · have hnil : other ≠ [] := by
      rintro rfl
      simp at hother
    rw [parse_eq_run hnil]
    exact run_alike (.of_take hlt hother) h

/-- A count that is missing is noticed before the character that stands in
its place, whatever comes after that. -/
theorem parse_error_local_count :
    parse "00\x7bx\x7d".toList = .error ⟨.missingNumber (some 'x'), 3⟩ ∧
      parse "00\x7bx'[".toList = .error ⟨.missingNumber (some 'x'), 3⟩ := by
  have herror : parse "00\x7bx\x7d".toList = .error ⟨.missingNumber (some 'x'), 3⟩ := by
    with_unfolding_all rfl
  obtain ⟨-, -, hlocal⟩ := parse_error_local (by decide) herror
  exact ⟨herror, hlocal (by decide) "00\x7bx'[".toList (by decide)⟩

end OctetPattern
