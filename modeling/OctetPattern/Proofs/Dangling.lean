import OctetPattern.Proofs.Grouping
import OctetPattern.Proofs.Layout

/-!
# Modifiers without a value

A modifier waits for its value through any blanks and comments. Where
something comes that is no value, it is missed there and then, before
that something is looked into (`parse_dangling`).

Whatever text is read leaves a level on which nothing waits
(`reads_line`), so what happens after it is decided by the modifier
alone. Only a dash asks for more: the newest item must be a byte, and
`EndsIn` says which item that is.
-/

namespace OctetPattern

/-! ## The end of a text that is read -/

/-- The item is the last of the last branch of the text, which starts
under the given charsets. -/
inductive EndsIn (item : Pattern) : List Charset → List Char → Prop
  | last {charsets charsets' : List Charset} {items : List Pattern} {text : List Char}
      (h : Derives (.steps .sequence (.empty charsets) ⟨charsets', item :: items⟩) text []) :
      EndsIn item charsets text
  | later {charsets : List Charset} {after : Draft} {text middle : List Char} {branch : Pattern}
      (h : Derives (.steps .sequence (.empty charsets) after) text ('|' :: middle))
      (hvalue : Joined after.items branch) (others : EndsIn item after.charsets middle) :
      EndsIn item charsets text

/-- A text that is read leaves its items on the level of the last branch,
and no modifier. -/
theorem reads_line {text : List Char} {p : Pattern} (h : parse text = .ok p)
    (rest : List Char) :
    ∃ branches items charsets, Reads Branches.merged .start (text ++ '\n' :: rest)
      ⟨.whole branches, ⟨items, .none, charsets⟩⟩ rest := by
  obtain ⟨branches, ⟨items, pending, charsets⟩, hreads, hvalue⟩ :=
    (delimited_line h).reads .whole (fun _ _ => rfl) rest
  obtain ⟨branch, hpending, -⟩ := State.combineWith_eq_ok.mp (hvalue .endOfInput)
  obtain rfl : pending = .none := hpending
  rw [List.append_assoc, List.singleton_append] at hreads
  exact ⟨branches, items, charsets, hreads⟩

theorem EndsIn.reads_line {item : Pattern} {charsets : List Charset} {text : List Char}
    (h : EndsIn item charsets text) (earlier : List Pattern) (rest : List Char) :
    ∃ branches items charsets', Reads Branches.merged ⟨.whole earlier, .fresh charsets⟩
      (text ++ '\n' :: rest) ⟨.whole branches, ⟨item :: items, .none, charsets'⟩⟩ rest := by
  induction h generalizing earlier with
  | last h => exact ⟨earlier, _, _, (h.goesOn rest).isRead (.whole earlier) rfl⟩
  | @later charsets after text middle branch h hvalue others ih =>
    obtain ⟨branches, items, charsets', hothers⟩ := ih (branch :: earlier)
    have hfirst := (h.goesOn rest).isRead (.whole earlier) rfl
    have hbar : Reads Branches.merged
        ⟨.whole earlier, ⟨after.items, .none, after.charsets⟩⟩ ('|' :: (middle ++ '\n' :: rest))
        ⟨.whole (branch :: earlier), .fresh after.charsets⟩ (middle ++ '\n' :: rest) :=
      .of_accept .bar (State.accept_bar.mpr ⟨branch, _, rfl, hvalue, rfl, rfl⟩) nofun
    exact ⟨branches, items, charsets', hfirst.trans (hbar.trans hothers)⟩

/-! ## Modifiers -/

/-- The modifiers that may stand after the text, and what waits then. -/
inductive Modifies (text : List Char) : List Char → Pending → Prop
  | caret : Modifies text ['^'] .inversion
  | tilde : Modifies text ['~'] (.anyBits false)
  | both {gap : List Char} (hgap : Separator gap) :
      Modifies text ('^' :: (gap ++ ['~'])) (.anyBits true)
  /-- A range starts with a byte, inverted or not. -/
  | dash {value : UInt8} {inverted : Bool} (h : EndsIn (.byte value inverted) [.latin1] text) :
      Modifies text ['-'] .rangeEnd

theorem Modifies.pending_ne_none {text modifier : List Char} {pending : Pending}
    (h : Modifies text modifier pending) : pending ≠ .none := by
  cases h <;> exact nofun

theorem Modifies.reads {text modifier : List Char} {p : Pattern} {pending : Pending}
    (h : Modifies text modifier pending) (hread : parse text = .ok p) (rest : List Char) :
    ∃ branches items charsets, Reads Branches.merged .start (text ++ '\n' :: (modifier ++ rest))
      ⟨.whole branches, ⟨items, pending, charsets⟩⟩ rest := by
  obtain ⟨branches, items, charsets, hline⟩ := reads_line hread (modifier ++ rest)
  cases h with
  | caret =>
    exact ⟨branches, items, charsets,
      hline.trans (.of_accept .caret (State.accept_caret.mpr ⟨rfl, rfl⟩) nofun)⟩
  | tilde =>
    exact ⟨branches, items, charsets,
      hline.trans (.of_accept .tilde (State.accept_tilde.mpr (.inl ⟨rfl, rfl⟩)) nofun)⟩
  | @both gap hgap =>
    have htext : '^' :: (gap ++ ['~']) ++ rest = '^' :: (gap ++ '~' :: rest) := by simp
    refine ⟨branches, items, charsets, hline.trans ?_⟩
    rw [htext]
    refine .trans (.of_accept .caret (State.accept_caret.mpr ⟨rfl, rfl⟩) nofun) ?_
    refine .trans (.of_gap (hgap.gap ('~' :: rest))) ?_
    exact .of_accept .tilde (State.accept_tilde.mpr (.inr ⟨rfl, rfl⟩)) nofun
  | @dash value inverted h =>
    -- here the newest item has to be known, not only that there is a level
    obtain ⟨branches, items, charsets, hline⟩ := h.reads_line [] ('-' :: rest)
    refine ⟨branches, .byte value inverted :: items, charsets, ?_⟩
    refine .trans hline (.of_accept .dash ?_ nofun)
    exact State.accept_dash.mpr ⟨rfl, rfl, value, inverted, items, rfl⟩

/-- What waits after the modifier waits through a gap as well. -/
theorem Modifies.parse_append {text modifier gap : List Char} {p : Pattern} {pending : Pending}
    (h : Modifies text modifier pending) (hread : parse text = .ok p) (hgap : Separator gap)
    (rest : List Char) :
    let before := text ++ '\n' :: (modifier ++ gap)
    ∃ branches items charsets, parse (before ++ rest) =
      run Branches.merged ⟨.whole branches, ⟨items, pending, charsets⟩⟩ ⟨rest, before.length⟩ := by
  intro before
  have hne : before ++ rest ≠ [] := by simp [before]
  have htext : before ++ rest = text ++ '\n' :: (modifier ++ (gap ++ rest)) := by simp [before]
  obtain ⟨branches, items, charsets, hreads⟩ := h.reads hread (gap ++ rest)
  have hall := hreads.trans (.of_gap (hgap.gap rest))
  rw [← htext] at hall
  refine ⟨branches, items, charsets, ?_⟩
  rw [parse_eq_run hne, Cursor.start, hall.run_eq 0, Nat.zero_add]

/-! ## What is no value -/

/-- The text begins with something that no modifier can wait for. -/
inductive Stops : Follower → List Char → Prop
  | bar {rest : List Char} : Stops .bar ('|' :: rest)
  | closeGroup {rest : List Char} : Stops .closeGroup (')' :: rest)
  | quantifier {c : Char} {rest : List Char} (hc : c ∈ ['?', '*', '+']) :
      Stops .quantifier (c :: rest)
  | repetition {rest : List Char} : Stops .repetition ('{' :: rest)
  | directive {rest : List Char} : Stops .directive ('(' :: '*' :: rest)

section
variable {pending : Pending} (hpending : pending ≠ .none)
include hpending

theorem Pending.mustBeNone_eq_error (follower : Follower) :
    pending.mustBeNone follower = .error (.dangling pending follower) := by
  cases pending with
  | none => exact absurd rfl hpending
  | inversion | rangeEnd | anyBits => rfl

theorem Level.value_eq_error (items : List Pattern) (charsets : List Charset)
    (follower : Follower) :
    Level.value ⟨items, pending, charsets⟩ follower = .error (.dangling pending follower) := by
  rw [Level.value, Pending.mustBeNone_eq_error hpending]
  rfl

theorem State.combineWith_eq_error {combine : Combine} (branches items : List Pattern)
    (charsets : List Charset) (follower : Follower) :
    combineWith combine branches ⟨items, pending, charsets⟩ follower =
      .error (.dangling pending follower) := by
  rw [combineWith, Level.value_eq_error hpending]
  rfl

/-- What waits is missed at the first character that is no value. -/
theorem step_of_stops {combine : Combine} {branches items : List Pattern}
    {charsets : List Charset} {follower : Follower} {first : Char} {rest : List Char}
    (h : Stops follower (first :: rest)) (position : Nat) :
    step combine ⟨.whole branches, ⟨items, pending, charsets⟩⟩ first ⟨rest, position⟩ =
      .error ⟨.dangling pending follower, position⟩ := by
  have hmissed := Pending.mustBeNone_eq_error hpending follower
  cases h with
  | bar =>
    have haccept : State.accept combine ⟨.whole branches, ⟨items, pending, charsets⟩⟩ .bar =
        .error (.dangling pending .bar) := by
      simp only [State.accept, State.nextBranch, Level.value_eq_error hpending, bind, Except.bind]
    simp only [step, Lead.of, State.permit, Token.read, haccept, placed, bind, Except.bind]
  | closeGroup =>
    have haccept : State.accept combine ⟨.whole branches, ⟨items, pending, charsets⟩⟩ .closeGroup =
        .error (.dangling pending .closeGroup) := by
      simp only [State.accept, State.closeGroup, State.combineWith_eq_error hpending, bind,
        Except.bind]
    simp only [step, Lead.of, State.permit, Token.read, haccept, placed, bind, Except.bind]
  | quantifier hc =>
    have haccept : ∀ quantifier, State.accept combine
        ⟨.whole branches, ⟨items, pending, charsets⟩⟩ (.quantifier quantifier) =
        .error (.dangling pending .quantifier) := by
      intro quantifier
      simp [State.accept, State.quantify, State.inSet, State.onLevel, Level.quantify, hmissed,
        bind, Except.bind, Except.map]
    simp only [List.mem_cons, List.not_mem_nil, or_false] at hc
    rcases hc with rfl | rfl | rfl <;>
      simp only [step, Lead.of, State.permit, Token.read, haccept, placed, bind, Except.bind]
  | repetition =>
    simp [step, Lead.of, State.permit, State.inSet, hmissed, placed, bind, Except.bind]
  | directive =>
    simp [step, Lead.of, Cursor.peek?, State.permit, hmissed, placed, bind, Except.bind]

end

/-! ## Dangling modifiers -/

theorem refused_dangling {text : List Char} {pending : Pending} {follower : Follower}
    {position : Nat} (h : parse text = .error ⟨.dangling pending follower, position⟩) :
    Refused text .danglingModifier position :=
  ⟨_, h, rfl, rfl⟩

/-- After any text that is read, a modifier that is not followed by a value
is refused as dangling: at the end of the text, or at the first character
of what is no value, whatever comes after that. -/
theorem parse_dangling {text modifier gap : List Char} {p : Pattern} {pending : Pending}
    (h : parse text = .ok p) (hmodifies : Modifies text modifier pending)
    (hgap : Separator gap) :
    let before := text ++ '\n' :: (modifier ++ gap)
    (parse before = .error ⟨.dangling pending .endOfInput, before.length⟩ ∧
        Refused before .danglingModifier before.length) ∧
      ∀ follower rest, Stops follower rest →
        parse (before ++ rest) = .error ⟨.dangling pending follower, before.length + 1⟩ ∧
          Refused (before ++ rest) .danglingModifier (before.length + 1) := by
  intro before
  have hpending := hmodifies.pending_ne_none
  have hrun := hmodifies.parse_append h hgap
  have hend : parse before = .error ⟨.dangling pending .endOfInput, before.length⟩ := by
    obtain ⟨branches, items, charsets, hend⟩ := hrun []
    have hfinish : State.finish Branches.merged ⟨.whole branches, ⟨items, pending, charsets⟩⟩ =
        .error (.dangling pending .endOfInput) :=
      State.combineWith_eq_error hpending branches items charsets .endOfInput
    rw [List.append_nil] at hend
    rw [hend, run_of_end rfl, hfinish]
    rfl
  have hstop : ∀ follower rest, Stops follower rest →
      parse (before ++ rest) = .error ⟨.dangling pending follower, before.length + 1⟩ := by
    intro follower rest hstops
    obtain ⟨branches, items, charsets, hrest⟩ := hrun rest
    rw [hrest]
    cases rest with
    | nil => cases hstops
    | cons first rest => exact run_of_step_error rfl (step_of_stops hpending hstops _)
  refine ⟨⟨hend, refused_dangling hend⟩, fun follower rest hstops => ?_⟩
  exact ⟨hstop follower rest hstops, refused_dangling (hstop follower rest hstops)⟩

/-- The caret stays with the tilde through a comment, and the dash finds an
inverted byte in the second branch. -/
theorem parse_dangling_spaced :
    (parse "00|^01\n^#x\n~ \x7b".toList = .error ⟨.dangling (.anyBits true) .repetition, 14⟩ ∧
        Refused "00|^01\n^#x\n~ \x7b".toList .danglingModifier 14) ∧
      parse "00|^01\n-\t(*)".toList = .error ⟨.dangling .rangeEnd .directive, 10⟩ ∧
        Refused "00|^01\n-\t(*)".toList .danglingModifier 10 := by
  have h : parse "00|^01".toList = .ok (.set [.byte 0x00 false, .byte 0x01 true] false) := by
    with_unfolding_all rfl
  have hblank : ∀ c ∈ [' ', '\t', '\r', '\n'], Separator [c] := fun c hc => .blank hc .nil
  have hbody : '\n' ∉ ['x'] := by decide
  have hcomment : Separator ['#', 'x', '\n'] := .comment hbody .nil
  have hfirst : ByteSpelling "00|^01".toList ['0', '0'] ⟨0x00, 0xff⟩ "|^01".toList := .pair rfl rfl
  have hsecond : ByteSpelling "01".toList ['0', '1'] ⟨0x01, 0xff⟩ [] := .pair rfl rfl
  have hends : EndsIn (.byte 0x01 true) [.latin1] "00|^01".toList :=
    .later (.value (.byte hfirst (by decide)) .done) .one
      (.last (.inverted .nil (.byte hsecond (by decide)) rfl .done))
  obtain ⟨-, hspaced⟩ := parse_dangling h (.both hcomment) (hblank ' ' (by decide))
  obtain ⟨-, hdashed⟩ := parse_dangling h (.dash hends) (hblank '\t' (by decide))
  exact ⟨hspaced .repetition ['{'] .repetition, hdashed .directive ['(', '*', ')'] .directive⟩

end OctetPattern
