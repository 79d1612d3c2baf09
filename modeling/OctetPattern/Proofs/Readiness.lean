import OctetPattern.Proofs.Pointing

/-!
# Guards that are never needed

Some branches of the reader guard against what cannot come about: a range
that has no byte to start with when it is closed, a second bound that is
inverted, an alternation of no branches. That they are never taken follows
from an invariant: on every level, while a dash waits, the newest item is
a byte (`State.Ready`). A dash is accepted only after a byte
(`State.accept_dash`), and until the value after it is stored, no token
takes the byte away: all others are refused, or leave the level as it is,
or open a level of their own.

`State.Ready.accept` is the step, `ready_of_moves` the run. With what each
state may refuse a token for (`State.Refuses`) the rest is a matter of
where a run can fail (`guards_unreachable`).
-/

namespace OctetPattern

/-! ## The invariant -/

theorem Context.Ready.push {context frame : Context} {branch : Pattern} (h : context.Ready)
    (hpush : context.push? branch = some frame) : frame.Ready := by
  cases h with
  | whole =>
    obtain rfl := Option.some.inj hpush
    exact .whole
  | group hpending houtside =>
    obtain rfl := Option.some.inj hpush
    exact .group hpending houtside
  | set => cases hpush

namespace State

variable {combine : Combine} {context : Context} {items : List Pattern} {charsets : List Charset}
  {s next : State} {token : Token}

theorem ready_start : State.start.Ready :=
  ⟨nofun, .whole⟩

/-- Where nothing waits, nothing need be there. -/
theorem ready_of_none (h : context.Ready) : State.Ready ⟨context, ⟨items, .none, charsets⟩⟩ :=
  ⟨nofun, h⟩

theorem Ready.store {value : Pattern} (h : s.context.Ready) (hstore : s.store value = .ok next) :
    next.Ready := by
  obtain ⟨context, items, pending, charsets⟩ := s
  obtain ⟨items', -, rfl⟩ := State.store_eq_ok.mp hstore
  exact ready_of_none h

/-- No token takes away the byte that a dash waits with. -/
theorem Ready.accept (h : s.Ready) (haccept : s.accept combine token = .ok next) :
    next.Ready := by
  obtain ⟨context, items, pending, charsets⟩ := s
  obtain ⟨hlevel, hcontext⟩ := h
  cases token with
  | gap =>
    obtain rfl := Except.ok.inj haccept
    exact ⟨hlevel, hcontext⟩
  | bar =>
    obtain ⟨branch, frame, rfl, -, hpush, rfl⟩ := accept_bar.mp haccept
    exact ready_of_none (hcontext.push hpush)
  | openGroup =>
    obtain ⟨-, rfl, rfl⟩ := accept_openGroup.mp haccept
    exact ready_of_none (.group rfl hcontext)
  | closeGroup =>
    obtain ⟨branches, outer, outside, branch, p, rfl, -, -, -, hstore⟩ :=
      accept_closeGroup.mp haccept
    cases hcontext with
    | group _ houtside => exact Ready.store houtside hstore
  | openSet =>
    obtain rfl := accept_openSet.mp haccept
    exact ready_of_none (.set hlevel hcontext)
  | closeSet =>
    obtain ⟨outer, outside, items', rfl, -, -, -, rfl⟩ := accept_closeSet.mp haccept
    cases hcontext with
    | set _ houtside => exact ready_of_none houtside
  | caret =>
    obtain ⟨-, rfl⟩ := accept_caret.mp haccept
    exact ⟨nofun, hcontext⟩
  | dash =>
    obtain ⟨-, rfl, hitems⟩ := accept_dash.mp haccept
    exact ⟨fun _ => hitems, hcontext⟩
  | tilde =>
    obtain ⟨-, rfl⟩ | ⟨-, rfl⟩ := accept_tilde.mp haccept <;> exact ⟨nofun, hcontext⟩
  | any =>
    obtain ⟨-, rfl⟩ := accept_any.mp haccept
    exact ready_of_none hcontext
  | directive charsets' =>
    obtain rfl := Except.ok.inj haccept
    exact ⟨hlevel, hcontext⟩
  | quantifier quantifier =>
    obtain ⟨-, -, operand, others, -, -, rfl⟩ := accept_quantifier.mp haccept
    exact ready_of_none hcontext
  | quoted casing text =>
    obtain ⟨-, items', -, rfl⟩ := accept_quoted.mp haccept
    exact ready_of_none hcontext
  | escape escape =>
    obtain ⟨items', -, rfl⟩ := accept_escape.mp haccept
    exact ready_of_none hcontext
  | byte bits =>
    obtain ⟨items', -, rfl⟩ := accept_byte.mp haccept
    exact ready_of_none hcontext
  | other c => cases haccept

end State

theorem ready_of_moves {combine : Combine} {before after : Config}
    (h : Moves combine before after) (hready : before.1.Ready) : after.1.Ready := by
  induction h with
  | refl => exact hready
  | tail _ hmove ih =>
    obtain ⟨first, c, -, hstep⟩ := hmove
    obtain ⟨-, token, -, haccept⟩ := step_eq_ok.mp hstep
    exact ih.accept haccept

/-! ## What is left to blame -/

theorem Branches.merged_total : Combine.Total Branches.merged := by
  intro branches hne
  obtain ⟨p, hp⟩ := Branches.exists_alternation hne
  rw [Branches.merged_of_alternation hp]
  exact nofun

/-- The message of an inverted second bound is that of no other cause. -/
theorem Cause.eq_invertedRangeEnd {cause : Cause}
    (h : cause.message = "the second bound of a range cannot be inverted") :
    cause = .invertedRangeEnd := by
  have hbegins : cause.message.toList <+: invertedRangeEnd.message.toList := by
    rw [h]
    exact List.prefix_rfl
  have hleft {a b : String} (h : (a ++ b).toList <+: invertedRangeEnd.message.toList) :
      a.toList <+: invertedRangeEnd.message.toList := by
    rw [String.toList_append] at h
    exact (List.prefix_append _ _).trans h
  cases cause with
  | invertedRangeEnd => rfl
  | missingValue | unexpected | unknownEscape | badRangeStart | badRangeEnd | badAnyBits |
    unclosedString | missingNumber | unknownCharset =>
    exact absurd (hleft hbegins) (by decide)
  | hugeNumber | dashAfter | tildeAfter => exact absurd (hleft (hleft hbegins)) (by decide)
  | dangling | badDigit | nothingToQuantify =>
    exact absurd (hleft (hleft (hleft hbegins))) (by decide)
  | notQuantifiable => exact absurd (hleft (hleft (hleft (hleft hbegins)))) (by decide)
  | splitByte first found =>
    have hfirst := hleft (hleft (hleft hbegins))
    split at hfirst
    · exact absurd hfirst (by decide)
    · exact absurd hfirst (by decide)
  | unencodable text charset =>
    obtain ⟨rest, hrest⟩ := hleft (hleft hbegins)
    have hhead := congrArg List.head? hrest
    rw [quotedText, String.toList_ofList, List.cons_append, List.cons_append,
      List.head?_cons] at hhead
    exact absurd hhead (by decide)
  | invertedString casing => cases casing <;> exact absurd h (by decide)
  | _ => exact absurd h (by decide)

/-- The cause of a guard is one of the dash. -/
theorem Pending.openRange_guard {pending : Pending} {items : List Pattern} {cause : Cause}
    (h : pending.openRange items = .error cause) (hguard : cause.isGuard = true) :
    cause.fault = .rangeOperand := by
  unfold openRange at h
  split at h
  · cases h
  · obtain rfl := Except.error.inj h
    rfl
  · obtain rfl := Except.error.inj h
    rfl
  · obtain rfl := Except.error.inj h
    cases hguard

/-- If a run fails at a guard, it is at a dash that is refused. -/
theorem run_guard {combine : Combine} {s : State} {c : Cursor} {e : SyntaxError}
    (htotal : combine.Total) (hready : s.Ready) (h : run combine s c = .error e)
    (hguard : e.cause.isGuard = true) :
    ∃ s' c' after, Moves combine (s, c) (s', c') ∧ c'.next? = some ('-', after) ∧
      s'.level.pending.openRange s'.level.items = .error e.cause ∧ e.position = after.position := by
  obtain ⟨s', c', hmoves, ⟨-, cause, hfinish, rfl⟩ | ⟨first, after, hnext, hfails⟩⟩ :=
    exists_failure h
  · cases s'.blames_finish combine cause hfinish with
    | noAlternatives hpartial => exact absurd htotal hpartial
    | dangling | missingValue | unclosedGroup | unclosedSet => cases hguard
  · have hready' : s'.Ready := ready_of_moves hmoves hready
    cases hfails with
    | lead hpermit =>
      obtain hverdict | ⟨rfl, -⟩ := s'.blames_permit _ _ hpermit
      · exact absurd hguard hverdict.guarded
      · cases hguard
    | reading hpermit hread =>
      cases hguard.symm.trans ((Token.telling_read first _).tells hread).unguarded
    | @token token last cause hpermit hread haccept =>
      obtain rfl | hnot := (s'.refuses_accept combine token cause haccept).guarded hguard
      · obtain ⟨rfl, rfl⟩ :=
          Token.read_sign hread rfl (Token.lead_ne_repetition hread nofun)
        exact ⟨s', c', _, hmoves, hnext, map_eq_error.mp (map_eq_error.mp haccept), rfl⟩
      · exact absurd ⟨htotal, hready'⟩ hnot

theorem Cause.isGuard_of_fault {cause : Cause} (h : cause.fault = .noAlternatives) :
    cause.isGuard = true := by
  cases cause with
  | noAlternatives => rfl
  | splitByte first found =>
    rw [fault] at h
    split at h <;> cases h
  | _ => cases h

/-- While a dash waits, the newest item is a byte. So no text is refused
for an alternation of no branches or for the inversion of a second bound,
and one that is refused for the start of a range is so at the dash. -/
theorem guards_unreachable (text : List Char) :
    (∀ s c, Moves Branches.merged (.start, .start text) (s, c) → s.level.pending = .rangeEnd →
        ∃ value inverted others, s.level.items = .byte value inverted :: others) ∧
      ∀ e, parse text = .error e →
        e.cause.fault ≠ .noAlternatives ∧
          e.cause.message ≠ "the second bound of a range cannot be inverted" ∧
          ((e.cause = .missingRangeStart ∨ ∃ kind, e.cause = .badRangeStart kind) →
            ∃ s c after, Moves Branches.merged (.start, .start text) (s, c) ∧
              c.next? = some ('-', after) ∧
              s.level.pending.openRange s.level.items = .error e.cause ∧
              e.position = after.position) := by
  refine ⟨fun s c hmoves => (ready_of_moves hmoves State.ready_start).level, fun e h => ?_⟩
  by_cases hne : text = []
  · subst hne
    obtain rfl := Except.error.inj h
    refine ⟨nofun, by decide, ?_⟩
    rintro (hcause | ⟨kind, hcause⟩) <;> cases hcause
  · rw [parse_eq_run hne] at h
    have hguard := run_guard Branches.merged_total State.ready_start h
    refine ⟨fun hfault => ?_, fun hmessage => ?_, fun hcause => hguard ?_⟩
    · obtain ⟨s, c, after, -, -, hrange, -⟩ := hguard (Cause.isGuard_of_fault hfault)
      cases hfault.symm.trans (Pending.openRange_guard hrange (Cause.isGuard_of_fault hfault))
    · have hcause := Cause.eq_invertedRangeEnd hmessage
      rw [hcause] at hguard
      obtain ⟨s, c, after, -, -, hrange, -⟩ := hguard rfl
      cases Pending.openRange_guard hrange rfl
    · obtain hcause | ⟨kind, hcause⟩ := hcause <;> rw [hcause] <;> rfl

/-- A range that starts with nothing is refused at its dash, although the
byte that would close it follows. -/
theorem guards_unreachable_dash :
    parse "-01".toList = .error ⟨.missingRangeStart, 1⟩ ∧
      ∃ s c after, Moves Branches.merged (.start, .start "-01".toList) (s, c) ∧
        c.next? = some ('-', after) ∧
        s.level.pending.openRange s.level.items = .error .missingRangeStart ∧
        1 = after.position := by
  have herror : parse "-01".toList = .error ⟨.missingRangeStart, 1⟩ := by
    with_unfolding_all rfl
  exact ⟨herror, ((guards_unreachable "-01".toList).2 _ herror).2.2 (.inl rfl)⟩

end OctetPattern
