import OctetPattern.Proofs.Refusing

/-!
# Errors point at what they name

Many messages name the character that was found where another was due, or
say that the text had ended. The position of such an error is the column
of that character, or the length of the text. A count is the exception:
its reader looks at the character that is no digit and leaves it where it
is, so the position is one less than its column (`parse_error_points`).

`SyntaxError.Tells` says of an error what it shows of the text between two
cursors. Readers that tell are put together from readers that do, as
prompt readers are, up to `Token.telling_read`; a state names a character
only for a token that is nothing else (`State.Misplaces`).
-/

namespace OctetPattern

/-! ## What a message shows -/

/-- A message that names what was found ends with it. Only an unknown
escape shows the character without quotes. -/
theorem Cause.message_of_found? {cause : Cause} {found : Option Char}
    (h : cause.found? = some found) :
    ∃ before, cause.message = before ++ foundText found ∨
      ∃ letter, found = some letter ∧ cause.message = before ++ letter.toString := by
  cases cause with
  | unexpected c =>
    cases h
    exact ⟨"unexpected character ", .inl rfl⟩
  | unknownEscape letter =>
    cases h
    exact ⟨"unknown shorthand \\", .inr ⟨letter, rfl, rfl⟩⟩
  | splitByte first found =>
    cases h
    exact ⟨_, .inl rfl⟩
  | badDigit radix found =>
    cases h
    exact ⟨_, .inl rfl⟩
  | missingNumber found =>
    cases h
    exact ⟨"expected a number, found ", .inl rfl⟩
  | unfinishedEscape =>
    cases h
    exact ⟨"'\\' at the ", .inl rfl⟩
  | missingValue follower =>
    cases follower <;> cases h
    exact ⟨"expected a value before the ", .inl rfl⟩
  | dangling pending follower =>
    cases follower <;> cases h
    refine ⟨"'" ++ pending.text ++ "' must be followed by a value, not " ++ "the ", .inl ?_⟩
    rw [String.append_assoc]
    rfl
  | _ => cases h

/-- What the error shows of the text between the cursors: nothing, the
character before the later one or the character after it, or its end. -/
inductive SyntaxError.Tells (e : SyntaxError) (c after : Cursor) : Prop
  | nothing (h : e.cause.found? = none) (hguard : e.cause.isGuard = false)
  | passed {ch : Char} {before : Cursor} (h : e.cause.found? = some (some ch))
      (hfault : e.cause.fault ≠ .expectedNumber) (hreaches : c.Reaches before)
      (hnext : before.next? = some (ch, after))
  | ahead {ch : Char} (h : e.cause = .missingNumber (some ch)) (hnext : after.peek? = some ch)
  | atEnd (h : e.cause.found? = some none) (hrest : after.rest = [])

theorem Cause.isGuard_of_found? {cause : Cause} {found : Option Char}
    (h : cause.found? = some found) : cause.isGuard = false := by
  cases cause with
  | missingRangeStart | badRangeStart | invertedRangeEnd | noAlternatives => cases h
  | _ => rfl

namespace SyntaxError.Tells

variable {e : SyntaxError} {c middle after : Cursor}

theorem of_reaches (h : e.Tells middle after) (hreaches : c.Reaches middle) :
    e.Tells c after := by
  cases h with
  | nothing h hguard => exact .nothing h hguard
  | passed h hfault hbefore hnext => exact .passed h hfault (hreaches.trans hbefore) hnext
  | ahead h hnext => exact .ahead h hnext
  | atEnd h hrest => exact .atEnd h hrest

theorem unguarded (h : e.Tells c after) : e.cause.isGuard = false := by
  cases h with
  | nothing _ hguard => exact hguard
  | passed h | atEnd h => exact Cause.isGuard_of_found? h
  | ahead h =>
    rw [h]
    rfl

end SyntaxError.Tells

/-! ## Readers that tell -/

/-- A reader whose errors show nothing but what it has come to. -/
structure Telling {α : Type} (read : Cursor → Reading α) : Prop where
  tells {c : Cursor} {e : SyntaxError} (h : (read c).1 = .error e) : e.Tells c (read c).2

namespace Telling

variable {α β : Type}

theorem congr {read other : Cursor → Reading α} (h : Telling read)
    (heq : ∀ c, other c = read c) : Telling other :=
  (funext heq : other = read) ▸ h

theorem placed {x : Except Cause α}
    (h : Blames (fun cause => cause.found? = none ∧ cause.isGuard = false) x) :
    Telling fun c => (OctetPattern.placed c.position x, c) where
  tells he := by
    obtain ⟨cause, hcause, rfl⟩ := placed_eq_error.mp he
    obtain ⟨hfound, hguard⟩ := h cause hcause
    exact .nothing hfound hguard

theorem ok (a : α) : Telling fun c => (.ok a, c) where
  tells := nofun

theorem fail (cause : Cause) (h : cause.found? = none) (hguard : cause.isGuard = false) :
    Telling fun c => (c.fail cause : Reading α) :=
  placed (blames_error.mpr ⟨h, hguard⟩)

theorem skip {read : Cursor → Reading α} (h : Telling read) : Telling fun c => read c.skip where
  tells {c _} he := (h.tells he).of_reaches c.reaches_skip

theorem look {read : Option Char → Cursor → Reading α} (h : ∀ found, Telling (read found)) :
    Telling fun c => read c.peek? c where
  tells he := (h _).tells he

theorem ite {p : Prop} [Decidable p] {read other : Cursor → Reading α} (h : Telling read)
    (h' : Telling other) : Telling fun c => if p then read c else other c := by
  split
  · exact h
  · exact h'

theorem andThen {read : Cursor → Reading α} {next : α → Cursor → Reading β} (h : Telling read)
    (hreaches : ∀ c : Cursor, c.Reaches (read c).2) (hnext : ∀ a, Telling (next a)) :
    Telling fun c => (read c).andThen next where
  tells {c e} he := by
    have htells : ∀ e, (read c).1 = .error e → e.Tells c (read c).2 := fun _ => h.tells
    have hreached := hreaches c
    generalize read c = reading at htells hreached he ⊢
    obtain ⟨e' | a, after⟩ := reading
    · obtain rfl := Except.error.inj he
      exact htells e' rfl
    · exact ((hnext a).tells he).of_reaches hreached

theorem map {read : Cursor → Reading α} (h : Telling read) (f : α → β) :
    Telling fun c => (read c).map f where
  tells {c e} he := by
    have htells : ∀ e, (read c).1 = .error e → e.Tells c (read c).2 := fun _ => h.tells
    generalize read c = reading at htells he ⊢
    obtain ⟨e' | a, after⟩ := reading
    · obtain rfl := Except.error.inj he
      exact htells e' rfl
    · cases he

end Telling

/-! ## Every reader -/

namespace Cursor

/-- The digits are followed by what is found in their place. -/
theorem telling_readNumber : Telling readNumber where
  tells {c e} he := by
    obtain ⟨cause, hcount, rfl⟩ := placed_eq_error.mp he
    change SyntaxError.Tells _ c c.readDigits.2
    change countOf c.readDigits.1 c.readDigits.2.peek? = _ at hcount
    generalize c.readDigits.2 = after at hcount ⊢
    unfold countOf at hcount
    split at hcount
    · obtain rfl := Except.error.inj hcount
      cases hpeek : after.peek? with
      | none => exact .atEnd rfl (peek?_eq_none.mp hpeek)
      | some ch => exact .ahead rfl hpeek
    · dsimp only at hcount
      split at hcount
      · cases hcount
      · obtain rfl := Except.error.inj hcount
        exact .nothing rfl rfl

theorem telling_readThrough (delimiter : Char) (missing : Cause) (h : missing.found? = none)
    (hguard : missing.isGuard = false) : Telling (readThrough delimiter missing) where
  tells he := by
    unfold readThrough at he
    split at he
    · obtain rfl := Except.error.inj he
      exact .nothing h hguard
    · cases he

theorem telling_skipLine : Telling fun c => (.ok Token.gap, c.skipLine) where
  tells := nofun

theorem telling_readQuoted (casing : Casing) : Telling (readQuoted casing) :=
  ((telling_readThrough _ _ rfl rfl).andThen (prompt_readThrough _ _).reaches fun text =>
    .ite (.fail .emptyString rfl rfl) (.ok text)).congr (readQuoted_eq casing)

theorem telling_readDirective : Telling readDirective := by
  have hnamed (names : List Char) :
      Blames (fun cause => cause.found? = none ∧ cause.isGuard = false) (charsetsNamed names) := by
    refine (Blames.mapM (fun name => ?_) _).map _
    unfold charsetNamed
    split
    · exact blames_ok _
    · exact blames_error.mpr ⟨rfl, rfl⟩
  exact ((telling_readThrough _ _ rfl rfl).skip.andThen (prompt_readThrough _ _).skip.reaches
    fun names => .placed (hnamed names)).congr readDirective_eq

theorem telling_readRepetitionEnd (quantifier : Quantifier) :
    Telling (readRepetitionEnd quantifier) :=
  .look fun found => .ite (p := found = some '}') (Telling.ok quantifier).skip
    (Telling.fail .malformedRepeat rfl rfl).skip

theorem telling_readUpperBound (min : UInt32) : Telling (readUpperBound min) := by
  have hmax := telling_readNumber.andThen reaches_readNumber
    fun max => telling_readRepetitionEnd (.between min max)
  have hread := Telling.look fun found =>
    .ite (p := found = some '*') (telling_readRepetitionEnd (.atLeast min)).skip
      (.ite (p := found.any Char.isDigit) hmax (.fail .malformedRepeat rfl rfl))
  exact hread.congr (readUpperBound_eq min)

theorem telling_readBounds (min : UInt32) : Telling (readBounds min) := by
  have hexactly : Telling fun c => if min = 0 then c.skip.fail .zeroRepeat
      else (.ok (Quantifier.exactly min), c.skip) :=
    .ite (Telling.fail .zeroRepeat rfl rfl).skip (Telling.ok (Quantifier.exactly min)).skip
  exact .look fun found => .ite (p := found = some '}') hexactly
    (.ite (p := found = some ',') (telling_readUpperBound min).skip
      (Telling.fail .malformedRepeat rfl rfl).skip)

theorem telling_readRepetition : Telling readRepetition :=
  (telling_readNumber.andThen reaches_readNumber telling_readBounds).congr readRepetition_eq

theorem telling_readEscape : Telling readEscape where
  tells {c e} he := by
    unfold readEscape at he ⊢
    cases hpeek : c.peek? with
    | none =>
      rw [hpeek] at he
      obtain rfl := Except.error.inj he
      exact .atEnd rfl (peek?_eq_none.mp hpeek)
    | some letter =>
      rw [hpeek] at he
      dsimp only at he ⊢
      split at he
      · obtain rfl := Except.error.inj he
        exact .passed rfl nofun (.refl c) (peek?_eq_some.mp hpeek)
      · cases he

/-- What is found in place of a character of the class is passed over. -/
theorem telling_readAllowed (allows : Char → Bool) (cause : Option Char → Cause)
    (h : ∀ found, (cause found).found? = some found ∧ (cause found).fault ≠ .expectedNumber) :
    Telling fun c => readAllowed allows cause c.peek? c where
  tells {c e} he := by
    obtain ⟨hfound, hfault⟩ := h c.peek?
    unfold readAllowed at he ⊢
    cases hallowed : c.peek?.filter allows with
    | some ch =>
      rw [hallowed] at he
      cases he
    | none =>
      rw [hallowed] at he
      obtain rfl := Except.error.inj he
      cases hpeek : c.peek? with
      | none =>
        rw [hpeek] at hfound
        have hend := peek?_eq_none.mp hpeek
        rw [skip_of_end hend]
        exact .atEnd hfound hend
      | some ch =>
        rw [hpeek] at hfound hfault
        exact .passed hfound hfault (.refl c) (peek?_eq_some.mp hpeek)

theorem telling_readDigit (radix : Radix) : Telling (readDigit radix) :=
  telling_readAllowed radix.allows (.badDigit radix) fun _ => ⟨rfl, by simp [Cause.fault]⟩

theorem telling_readSecondDigit (register : MaskedByte) (first : Char) :
    Telling fun c => (readSecondDigit register first c).masked := by
  refine ((telling_readAllowed startsByte (.splitByte first) fun found =>
    ⟨rfl, ?_⟩).map _).congr (readSecondDigit_masked register first)
  simp only [Cause.fault]
  split <;> nofun

theorem telling_readHexPair (register : MaskedByte) :
    Telling fun c => (readHexPair register c).masked :=
  ((telling_readDigit .hexadecimal).andThen (reaches_readDigit _) fun _ =>
    (telling_readDigit .hexadecimal).map _).congr (readHexPair_masked register)

theorem telling_readBits (n : Nat) (register : MaskedByte) :
    Telling fun c => (readBits n register c).masked := by
  induction n generalizing register with
  | zero => exact .ok register
  | succ n ih =>
    have hread := (telling_readDigit .binary).andThen (reaches_readDigit _)
      fun digit => ih (register.withBit n digit)
    exact hread.congr (readBits_masked n register)

theorem telling_readMasked (first : Char) : Telling (readMasked first) := by
  have hread := Telling.look fun found =>
    .ite (p := first = '0' ∧ found = some 'x') (telling_readHexPair .zero).skip
      (.ite (p := first = '0' ∧ found = some 'i') (telling_readBits 8 .free).skip
        (telling_readSecondDigit .zero first))
  exact hread.congr (readMasked_eq first)

end Cursor

theorem Token.telling_read (first : Char) (lead : Lead) : Telling (Token.read first lead) := by
  cases lead with
  | whole token => exact .ok token
  | comment => exact Cursor.telling_skipLine
  | directive => exact Cursor.telling_readDirective.map Token.directive
  | repetition => exact Cursor.telling_readRepetition.map Token.quantifier
  | quote casing => exact (Cursor.telling_readQuoted casing).map (Token.quoted casing)
  | backslash => exact Cursor.telling_readEscape.map Token.escape
  | digit => exact (Cursor.telling_readMasked first).map Token.byte

/-! ## States that tell -/

/-- The character that is the whole of a token. -/
def Token.sign? : Token → Option Char
  | .bar => some '|'
  | .openGroup => some '('
  | .closeGroup => some ')'
  | .openSet => some '['
  | .closeSet => some ']'
  | .caret => some '^'
  | .dash => some '-'
  | .tilde => some '~'
  | .any => some '.'
  | .quantifier q => some q.symbol
  | .other c => some c
  | .gap | .directive _ | .quoted _ _ | .escape _ | .byte _ => none

theorem Lead.of_eq_whole {first : Char} {next : Option Char} {token : Token}
    (h : Lead.of first next = .whole token) {sign : Char} (hsign : token.sign? = some sign) :
    first = sign := by
  unfold Lead.of at h
  split at h
  all_goals try split at h
  all_goals cases h
  all_goals cases hsign
  all_goals rfl

/-- Nothing is read of a sign after its character. A repetition is a sign
and more. -/
theorem Token.read_sign {token : Token} {first sign : Char} {c after : Cursor}
    (hread : Token.read first (Lead.of first c.peek?) c = (.ok token, after))
    (hsign : token.sign? = some sign) (hlead : Lead.of first c.peek? ≠ .repetition) :
    first = sign ∧ after = c := by
  generalize hof : Lead.of first c.peek? = lead at hread hlead
  cases lead with
  | whole token' =>
    obtain ⟨⟨⟩, rfl⟩ := Prod.mk.inj hread
    exact ⟨Lead.of_eq_whole hof hsign, rfl⟩
  | repetition => exact absurd rfl hlead
  | comment =>
    obtain ⟨⟨⟩, -⟩ := Prod.mk.inj hread
    cases hsign
  | directive | quote | backslash | digit =>
    obtain ⟨_, -, rfl⟩ := Reading.map_eq_ok.mp hread
    cases hsign

theorem Token.lead_ne_repetition {token : Token} {first : Char} {c after : Cursor}
    (hread : Token.read first (Lead.of first c.peek?) c = (.ok token, after))
    (h : ∀ quantifier, token ≠ .quantifier quantifier) :
    Lead.of first c.peek? ≠ .repetition := by
  intro hlead
  rw [hlead] at hread
  obtain ⟨quantifier, -, rfl⟩ := Reading.map_eq_ok.mp hread
  exact h quantifier rfl

/-- A sign that has no meaning where the reader is has been read as it is. -/
theorem State.Misplaces.passed {s : State} {token : Token} {ch first : Char} {c after : Cursor}
    (h : s.Misplaces token ch) (hpermit : s.permit (Lead.of first c.peek?) = .ok ())
    (hread : Token.read first (Lead.of first c.peek?) c = (.ok token, after)) :
    first = ch ∧ after = c := by
  cases h with
  | quantifier hset =>
    refine Token.read_sign hread rfl fun hlead => ?_
    -- a repetition in a set is refused before it is read
    rw [hlead] at hpermit
    simp [State.permit, hset] at hpermit
  | _ =>
    refine Token.read_sign hread rfl (Token.lead_ne_repetition hread ?_)
    intro quantifier hquantifier
    cases hquantifier

theorem Lead.eq_brace {first : Char} {next : Option Char} (h : Lead.of first next = .repetition) :
    first = '{' := by
  unfold Lead.of at h
  split at h
  all_goals try split at h
  all_goals cases h
  rfl

/-! ## Runs and whole texts -/

section
variable {combine : Combine} {s : State} {c : Cursor} {e : SyntaxError}

/-- What an error of a run names is what the run has come to. -/
theorem run_tells (h : run combine s c = .error e) :
    ∃ after, c.Reaches after ∧ e.position = after.position ∧
      ∀ found, e.cause.found? = some found → e.Tells c after := by
  obtain ⟨s', c', hmoves, ⟨hend, cause, hfinish, rfl⟩ | ⟨first, after, hnext, hfails⟩⟩ :=
    exists_failure h
  · refine ⟨c', reaches_of_moves hmoves, rfl, fun found hfound => ?_⟩
    cases found with
    | none => exact .atEnd hfound hend
    | some ch =>
      cases s'.blames_finish combine cause hfinish <;> cases hfound
  · have hreaches : c.Reaches c' := reaches_of_moves hmoves
    have hafter : c.Reaches after := hreaches.trans (Cursor.reaches_next hnext)
    cases hfails with
    | lead hpermit =>
      refine ⟨after, hafter, rfl, fun found hfound => ?_⟩
      obtain hverdict | ⟨rfl, hlead⟩ := s'.blames_permit _ _ hpermit
      · cases hfound.symm.trans hverdict.unseen
      · obtain rfl := Lead.eq_brace hlead
        exact .passed rfl nofun hreaches hnext
    | reading hpermit hread =>
      have hprompt := Token.prompt_read first (Lead.of first after.peek?)
      exact ⟨_, hafter.trans (hprompt.reaches after), (hprompt.stands hread).position,
        fun _ _ => ((Token.telling_read first _).tells hread).of_reaches hafter⟩
    | @token token last cause hpermit hread haccept =>
      have hlast := Token.reaches_read first (Lead.of first after.peek?) after
      rw [hread] at hlast
      refine ⟨last, hafter.trans hlast, rfl, fun found hfound => ?_⟩
      obtain hunseen | ⟨ch, rfl, hmisplaced⟩ := (s'.refuses_accept combine token cause haccept).seen
      · cases hfound.symm.trans hunseen
      · obtain ⟨rfl, rfl⟩ := hmisplaced.passed hpermit hread
        exact .passed rfl nofun hreaches hnext

end

theorem Cursor.Reaches.getElem?_start {text : List Char} {before after : Cursor} {ch : Char}
    (h : (Cursor.start text).Reaches before) (hnext : before.next? = some (ch, after)) :
    text[before.position]? = some ch := by
  rw [← h.peek?_start, Cursor.peek?, (Cursor.next?_eq_some.mp hnext).1]
  rfl

/-- An error whose message ends with the character it has found stands at
its column, or one before it if a count was due there. An error whose
message ends with the end of the text stands at that end. -/
theorem parse_error_points {text : List Char} {e : SyntaxError} (h : parse text = .error e) :
    (∀ found, e.cause.found? = some found → ∃ before,
        e.cause.message = before ++ foundText found ∨
          ∃ letter, found = some letter ∧ e.cause.message = before ++ letter.toString) ∧
      (∀ ch, e.cause.found? = some (some ch) → e.cause.fault ≠ .expectedNumber →
        1 ≤ e.position ∧ text[e.position - 1]? = some ch) ∧
      (∀ ch, e.cause.found? = some (some ch) → e.cause.fault = .expectedNumber →
        text[e.position]? = some ch) ∧
      (e.cause.found? = some none → e.position = text.length) := by
  refine ⟨fun found hfound => Cause.message_of_found? hfound, ?_⟩
  by_cases hne : text = []
  · subst hne
    obtain rfl := Except.error.inj h
    exact ⟨nofun, nofun, nofun⟩
  · rw [parse_eq_run hne] at h
    obtain ⟨after, hreaches, hposition, htells⟩ := run_tells h
    refine ⟨fun ch hfound hfault => ?_, fun ch hfound hfault => ?_, fun hfound => ?_⟩
    · cases htells _ hfound with
      | nothing hnone => cases hnone.symm.trans hfound
      | atEnd hend => cases hend.symm.trans hfound
      | ahead hcause =>
        rw [hcause] at hfault
        exact absurd rfl hfault
      | passed hch _ hbefore hnext =>
        obtain rfl := Option.some.inj (Option.some.inj (hch.symm.trans hfound))
        have hcolumn := (Cursor.next?_eq_some.mp hnext).2
        have hcharacter := hbefore.getElem?_start hnext
        rw [hposition, hcolumn]
        exact ⟨by omega, hcharacter⟩
    · cases htells _ hfound with
      | nothing hnone => cases hnone.symm.trans hfound
      | atEnd hend => cases hend.symm.trans hfound
      | passed _ hother => exact absurd hfault hother
      | ahead hcause hnext =>
        rw [hcause] at hfound
        obtain rfl := Option.some.inj (Option.some.inj hfound)
        rw [hposition]
        exact hreaches.getElem?_start (Cursor.peek?_eq_some.mp hnext)
    · cases htells _ hfound with
      | nothing hnone => cases hnone.symm.trans hfound
      | passed hch => cases hch.symm.trans hfound
      | ahead hcause =>
        rw [hcause] at hfound
        cases hfound
      | atEnd _ hend =>
        obtain ⟨passed, hrest, hlast⟩ := hreaches
        have htext : text = passed ++ after.rest := hrest
        rw [hposition, hlast, htext, hend, List.append_nil]
        exact Nat.zero_add _

/-- The letter in place of the second digit is the second character. -/
theorem parse_error_points_digit :
    parse "0g".toList = .error ⟨.splitByte '0' (some 'g'), 2⟩ ∧ "0g".toList[1]? = some 'g' := by
  have herror : parse "0g".toList = .error ⟨.splitByte '0' (some 'g'), 2⟩ := by
    with_unfolding_all rfl
  exact ⟨herror, ((parse_error_points herror).2.1 'g' rfl (by decide)).2⟩

/-- A letter in place of a count is not at the position of the error: the
opening brace is. -/
theorem not_parse_error_at_column :
    ¬ ∀ (text : List Char) (e : SyntaxError) (ch : Char), parse text = .error e →
      e.cause.found? = some (some ch) → text[e.position - 1]? = some ch := by
  intro hcolumn
  have herror : parse "00\x7bx".toList = .error ⟨.missingNumber (some 'x'), 3⟩ := by
    with_unfolding_all rfl
  exact absurd (hcolumn _ _ 'x' herror rfl) (by decide)

end OctetPattern
