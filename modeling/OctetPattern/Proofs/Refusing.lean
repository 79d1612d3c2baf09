import OctetPattern.Proofs.Promptness
import OctetPattern.Proofs.Running

/-!
# What tokens are refused for

The counterpart of `Accepting`: what each function of `State` blames when it
fails. Three things are asked of a cause. Does it leave something open
(`Cause.leavesOpen`)? Does its message show what was found instead
(`Cause.found?`)? Is it a guard against something that should never come
about (`Cause.isGuard`)? A `Verdict` is a cause that does none of these,
except that it may be a guard under a condition.

For a state the condition is that it is not `Ready`: on one of its levels a
dash waits, and no byte is there to start the range with. What a token is
refused for is gathered in `State.refuses_accept` and `State.blames_permit`,
what the end is refused for in `State.blames_finish`, and a run fails at one
token or at the end of the text (`exists_failure`).
-/

namespace OctetPattern

/-! ## Causes -/

namespace Cause

/-- What the message says was found: a character, or nothing because the
text is at its end. -/
def found? : Cause → Option (Option Char)
  | unexpected c | unknownEscape c => some (some c)
  | splitByte _ found | badDigit _ found | missingNumber found => some found
  | unfinishedEscape | missingValue .endOfInput | dangling _ .endOfInput => some none
  | _ => none

/-- The cause is a range that does not start with a byte or ends with an
inverted one, or an alternation of no branches. -/
def isGuard : Cause → Bool
  | missingRangeStart | badRangeStart _ | invertedRangeEnd | noAlternatives => true
  | _ => false

/-- The cause speaks of nothing but what has been read, and is a guard only
under the condition. -/
structure Verdict (condition : Prop) (cause : Cause) : Prop where
  closed : cause.leavesOpen = false
  unseen : cause.found? = none
  guarded : cause.isGuard = true → condition

/-- What the end of a text may be refused for. -/
inductive AtEnd (total : Prop) : Cause → Prop
  | dangling {pending : Pending} : AtEnd total (.dangling pending .endOfInput)
  | missingValue : AtEnd total (.missingValue .endOfInput)
  | noAlternatives (hpartial : ¬ total) : AtEnd total .noAlternatives
  | unclosedGroup : AtEnd total .unclosedGroup
  | unclosedSet : AtEnd total .unclosedSet

theorem found?_dangling (pending : Pending) {follower : Follower} (h : follower ≠ .endOfInput) :
    (dangling pending follower).found? = none := by
  cases follower with
  | endOfInput => exact absurd rfl h
  | _ => rfl

theorem found?_missingValue {follower : Follower} (h : follower ≠ .endOfInput) :
    (missingValue follower).found? = none := by
  cases follower with
  | endOfInput => exact absurd rfl h
  | _ => rfl

end Cause

section
variable {α : Type} {P Q : Prop} {cause : Cause}

theorem verdict_error (hclosed : cause.leavesOpen = false) (hunseen : cause.found? = none)
    (hguard : cause.isGuard = false) : Blames (Cause.Verdict P) (.error cause : Except Cause α) :=
  blames_error.mpr ⟨hclosed, hunseen, fun h => absurd (hguard.symm.trans h) Bool.false_ne_true⟩

theorem Blames.weaken {x : Except Cause α} (h : Blames (Cause.Verdict P) x) (hPQ : P → Q) :
    Blames (Cause.Verdict Q) x :=
  h.imp fun _ hcause => ⟨hcause.closed, hcause.unseen, fun hguard => hPQ (hcause.guarded hguard)⟩

end

/-! ## Pending modifiers -/

section
variable {P : Prop}

namespace Pending

theorem verdict_mustBeNone (pending : Pending) (follower : Follower)
    (h : follower ≠ .endOfInput) :
    Blames (Cause.Verdict P) (pending.mustBeNone follower) := by
  cases pending with
  | none => exact blames_ok ()
  | inversion | rangeEnd | anyBits => exact verdict_error rfl (Cause.found?_dangling _ h) rfl

theorem verdict_allowsGroup (pending : Pending) :
    Blames (Cause.Verdict P) pending.allowsGroup := by
  cases pending with
  | none => exact blames_ok ()
  | inversion | rangeEnd | anyBits => exact verdict_error rfl rfl rfl

theorem verdict_invert (pending : Pending) : Blames (Cause.Verdict P) pending.invert := by
  cases pending with
  | none => exact blames_ok _
  | inversion | rangeEnd | anyBits => exact verdict_error rfl rfl rfl

theorem verdict_openAnyBits (pending : Pending) :
    Blames (Cause.Verdict P) pending.openAnyBits := by
  cases pending with
  | none | inversion => exact blames_ok _
  | rangeEnd | anyBits => exact verdict_error rfl rfl rfl

/-- Here a range without a first byte is refused, and nowhere else. -/
theorem verdict_openRange (pending : Pending) (items : List Pattern) :
    Blames (Cause.Verdict True) (pending.openRange items) := by
  unfold openRange
  split
  · exact blames_ok _
  · exact blames_error.mpr ⟨rfl, rfl, fun _ => trivial⟩
  · exact blames_error.mpr ⟨rfl, rfl, fun _ => trivial⟩
  · exact verdict_error rfl rfl rfl

end Pending

theorem verdict_operand? (symbol : Char) (items : List Pattern) :
    Blames (Cause.Verdict P) (operand? symbol items) := by
  unfold operand?
  split
  · exact verdict_error rfl rfl rfl
  · split
    · exact blames_ok _
    · exact verdict_error rfl rfl rfl

theorem verdict_anyBitsOf (inverted : Bool) (operand : Pattern) :
    Blames (Cause.Verdict P) (anyBitsOf inverted operand) := by
  unfold anyBitsOf
  split
  · exact blames_ok _
  · exact blames_ok _
  · exact verdict_error rfl rfl rfl

end

/-- The bounds of a range are what they should be. -/
def BoundsOf (first second : Pattern) : Prop :=
  (∃ value inverted, first = .byte value inverted) ∧ ∀ value, second ≠ .byte value true

theorem verdict_rangeBetween (first second : Pattern) :
    Blames (Cause.Verdict (¬ BoundsOf first second)) (rangeBetween first second) := by
  unfold rangeBetween
  split
  · refine blames_error.mpr ⟨rfl, rfl, fun _ hbounds => ?_⟩
    exact hbounds.2 _ rfl
  · exact blames_ok _
  · exact verdict_error rfl rfl rfl
  · rename_i hfirst _ _
    refine blames_error.mpr ⟨rfl, rfl, fun _ hbounds => ?_⟩
    obtain ⟨value, inverted, rfl⟩ := hbounds.1
    exact hfirst value inverted rfl

/-! ## Levels -/

namespace Level

/-- If a dash waits, the newest item is a byte. -/
def Ready (level : Level) : Prop :=
  level.pending = .rangeEnd →
    ∃ value inverted others, level.items = .byte value inverted :: others

/-- The value is no inverted byte where a dash waits. -/
def Suits (level : Level) (value : Pattern) : Prop :=
  level.pending = .rangeEnd → ∀ byte, value ≠ .byte byte true

theorem ready_of_ne {level : Level} (h : level.pending ≠ .rangeEnd) : level.Ready :=
  fun hpending => absurd hpending h

theorem verdict_store (level : Level) (value : Pattern) :
    Blames (Cause.Verdict (¬ (level.Ready ∧ level.Suits value))) (level.store value) := by
  obtain ⟨items, pending, charsets⟩ := level
  refine Blames.map ?_ _
  cases pending with
  | none | inversion => exact blames_ok _
  | rangeEnd =>
    cases items with
    | nil =>
      refine blames_error.mpr ⟨rfl, rfl, fun _ h => ?_⟩
      obtain ⟨value, inverted, others, hitems⟩ := h.1 rfl
      cases hitems
    | cons first items =>
      refine ((verdict_rangeBetween first value).map _).weaken fun hbounds h => hbounds ?_
      obtain ⟨byte, inverted, others, hitems⟩ := h.1 rfl
      exact ⟨⟨byte, inverted, (List.cons.inj hitems).1⟩, h.2 rfl⟩
  | anyBits inverted => exact (verdict_anyBitsOf inverted value).map _

theorem blames_value (level : Level) (follower : Follower) :
    Blames (fun cause => (∃ pending, cause = .dangling pending follower) ∨
      cause = .missingValue follower) (level.value follower) := by
  refine Blames.bind ?_ fun _ => ?_
  · cases level.pending with
    | none => exact blames_ok ()
    | inversion | rangeEnd | anyBits => exact blames_error.mpr (.inl ⟨_, rfl⟩)
  · split
    · exact blames_error.mpr (.inr rfl)
    · exact blames_ok _
    · exact blames_ok _

theorem verdict_value {P : Prop} (level : Level) (follower : Follower)
    (h : follower ≠ .endOfInput) : Blames (Cause.Verdict P) (level.value follower) := by
  intro cause hcause
  obtain ⟨pending, rfl⟩ | rfl := level.blames_value follower cause hcause
  · exact ⟨rfl, Cause.found?_dangling pending h, nofun⟩
  · exact ⟨rfl, Cause.found?_missingValue h, nofun⟩

theorem verdict_set {P : Prop} (level : Level) (inverted : Bool) :
    Blames (Cause.Verdict P) (level.set inverted) := by
  refine (level.pending.verdict_mustBeNone .closeSet nofun).bind fun _ => ?_
  split
  · exact verdict_error rfl rfl rfl
  · exact blames_ok _

theorem verdict_quantify {P : Prop} (level : Level) (quantifier : Quantifier) :
    Blames (Cause.Verdict P) (level.quantify quantifier) := by
  refine (level.pending.verdict_mustBeNone .quantifier nofun).bind fun _ => ?_
  exact ((verdict_operand? _ level.items).map _).bind fun _ => blames_ok _

end Level

theorem verdict_stringValue {P : Prop} (casing : Casing) (text : List Char)
    (charsets : List Charset) (inverted : Bool) :
    Blames (Cause.Verdict P) (stringValue casing text charsets inverted) := by
  have hencoded (charset : Charset) : Blames (Cause.Verdict P) (encoded text charset) := by
    unfold encoded
    split
    · exact verdict_error rfl rfl rfl
    · exact blames_ok _
  refine (Blames.mapM hencoded charsets).bind fun _ => ?_
  split
  · exact blames_ok _
  · split
    · exact verdict_error rfl rfl rfl
    · exact blames_ok _

/-! ## Values of tokens -/

namespace Level

variable {level : Level}

/-- A dash inverts nothing. -/
theorem invertsValue_of_rangeEnd (h : level.pending = .rangeEnd) :
    level.pending.invertsValue = false := by
  rw [h]
  rfl

theorem suits_ofMasked (bits : MaskedByte) :
    level.Suits (.ofMasked bits level.pending.invertsValue) := by
  intro hpending byte
  rw [invertsValue_of_rangeEnd hpending, Pattern.ofMasked]
  split <;> (intro h; cases h)

theorem suits_escape (escape : Escape) :
    level.Suits (escape.pattern level.pending.invertsValue) := by
  intro hpending byte
  rw [invertsValue_of_rangeEnd hpending]
  cases escape with
  | byte value => nofun
  | byteClass c =>
    obtain ⟨base, negated⟩ := c
    cases base <;> nofun

theorem suits_stringValue {casing : Casing} {text : List Char} {charsets : List Charset}
    {value : Pattern}
    (h : stringValue casing text charsets level.pending.invertsValue = .ok value) :
    level.Suits value := by
  intro hpending byte
  rw [invertsValue_of_rangeEnd hpending] at h
  obtain ⟨encodings, -, h⟩ := bind_eq_ok.mp h
  split at h
  · obtain rfl := Except.ok.inj h
    nofun
  · obtain rfl := Except.ok.inj h
    unfold stringsIn
    split <;> nofun

theorem suits_set {inverted : Bool} {value : Pattern} {closed : Level}
    (h : closed.set inverted = .ok value) : level.Suits value := by
  obtain ⟨-, -, rfl⟩ := Level.set_eq_ok.mp h
  nofun

end Level

/-! ## States -/

/-- The levels outside are ready for the values they wait for. Nothing waits
for a group. -/
inductive Context.Ready : Context → Prop
  | whole {branches : List Pattern} : Ready (.whole branches)
  | group {branches : List Pattern} {outer : Level} {outside : Context}
      (hpending : outer.pending = .none) (h : Ready outside) :
      Ready (.group branches outer outside)
  | set {outer : Level} {outside : Context} (hlevel : outer.Ready) (h : Ready outside) :
      Ready (.set outer outside)

/-- All levels are ready for the values they wait for. -/
structure State.Ready (s : State) : Prop where
  level : s.level.Ready
  context : s.context.Ready

/-- Branches are put together unless there are none. -/
def Combine.Total (combine : Combine) : Prop :=
  ∀ branches, branches ≠ [] → combine branches ≠ none

namespace State

/-- The token is a sign that has no meaning where the reader is. -/
inductive Misplaces (s : State) : Token → Char → Prop
  | bar (h : s.inSet = true) : Misplaces s .bar '|'
  | closeGroup (h : s.inSet = true) : Misplaces s .closeGroup ')'
  | closeSet (h : s.inSet = false) : Misplaces s .closeSet ']'
  | quantifier {quantifier : Quantifier} (h : s.inSet = true) :
      Misplaces s (.quantifier quantifier) quantifier.symbol
  | other {c : Char} : Misplaces s (.other c) c

/-- What a token may be refused for. -/
structure Refuses (combine : Combine) (s : State) (token : Token) (cause : Cause) : Prop where
  closed : cause.leavesOpen = false
  seen : cause.found? = none ∨ ∃ c, cause = .unexpected c ∧ s.Misplaces token c
  guarded : cause.isGuard = true → token = .dash ∨ ¬ (combine.Total ∧ s.Ready)

variable {combine : Combine} {s : State} {token : Token}

theorem refuses_of_verdict {α : Type} {P : Prop} {x : Except Cause α}
    (h : Blames (Cause.Verdict P) x) (hP : P → token = .dash ∨ ¬ (combine.Total ∧ s.Ready)) :
    Blames (s.Refuses combine token) x :=
  h.imp fun _ hcause => ⟨hcause.closed, .inl hcause.unseen, fun hguard => hP (hcause.guarded hguard)⟩

theorem refuses_of_misplaces {α : Type} {c : Char} (h : s.Misplaces token c) :
    Blames (s.Refuses combine token) (.error (.unexpected c) : Except Cause α) :=
  blames_error.mpr ⟨rfl, .inr ⟨c, rfl, h⟩, nofun⟩

theorem verdict_store (s : State) (value : Pattern) :
    Blames (Cause.Verdict (¬ (s.level.Ready ∧ s.level.Suits value))) (s.store value) :=
  (s.level.verdict_store value).map _

theorem verdict_onPending {P : Prop} {f : Pending → Except Cause Pending}
    (h : ∀ pending, Blames (Cause.Verdict P) (f pending)) (s : State) :
    Blames (Cause.Verdict P) (s.onPending f) :=
  ((h s.level.pending).map _).map _

theorem refuses_store {value : Pattern} (h : s.level.Suits value) :
    Blames (s.Refuses combine token) (s.store value) :=
  refuses_of_verdict (s.verdict_store value) fun hready =>
    .inr fun hs => hready ⟨hs.2.level, h⟩

theorem blames_combineWith (combine : Combine) (branches : List Pattern) (level : Level)
    (follower : Follower) :
    Blames (fun cause => (∃ pending, cause = .dangling pending follower) ∨
      cause = .missingValue follower ∨ cause = .noAlternatives ∧ ¬ combine.Total)
      (combineWith combine branches level follower) := by
  refine Blames.bind ?_ fun branch => ?_
  · exact (level.blames_value follower).imp fun _ hcause => hcause.imp_right .inl
  · split
    · rename_i hnone
      refine blames_error.mpr (.inr (.inr ⟨rfl, fun htotal => ?_⟩))
      exact htotal _ (by simp) hnone
    · exact blames_ok _

theorem refuses_combineWith (branches : List Pattern) (level : Level) (follower : Follower)
    (h : follower ≠ .endOfInput) :
    Blames (s.Refuses combine token) (combineWith combine branches level follower) := by
  intro cause hcause
  obtain ⟨pending, rfl⟩ | rfl | ⟨rfl, htotal⟩ :=
    blames_combineWith combine branches level follower cause hcause
  · exact ⟨rfl, .inl (Cause.found?_dangling pending h), nofun⟩
  · exact ⟨rfl, .inl (Cause.found?_missingValue h), nofun⟩
  · exact ⟨rfl, .inl rfl, fun _ => .inr fun hs => htotal hs.1⟩

theorem refuses_nextBranch (s : State) : Blames (s.Refuses combine .bar) s.nextBranch := by
  obtain ⟨context, level⟩ := s
  cases context with
  | whole | group =>
    exact refuses_of_verdict ((level.verdict_value .bar nofun).bind fun _ => blames_ok _) False.elim
  | set => exact refuses_of_misplaces (.bar rfl)

theorem refuses_openGroup (s : State) : Blames (s.Refuses combine .openGroup) s.openGroup := by
  unfold openGroup
  split
  · exact refuses_of_verdict (P := False) (verdict_error rfl rfl rfl) False.elim
  · exact refuses_of_verdict (s.level.pending.verdict_allowsGroup.bind fun _ => blames_ok _)
      False.elim

theorem refuses_closeGroup (s : State) :
    Blames (s.Refuses combine .closeGroup) (s.closeGroup combine) := by
  obtain ⟨context, level⟩ := s
  cases context with
  | whole branches =>
    refine (refuses_combineWith branches level .closeGroup nofun).bind fun _ => ?_
    exact refuses_of_verdict (P := False) (verdict_error rfl rfl rfl) False.elim
  | group branches outer outside =>
    refine (refuses_combineWith branches level .closeGroup nofun).bind fun value => ?_
    refine refuses_of_verdict (verdict_store ⟨outside, outer⟩ value) fun hready =>
      .inr fun hs => hready ?_
    -- nothing waits on the level outside of a group
    cases hs.2.context with
    | group hpending h =>
      have hne : outer.pending ≠ .rangeEnd := by simp [hpending]
      exact ⟨Level.ready_of_ne hne, fun hrange => absurd hrange hne⟩
  | set => exact refuses_of_misplaces (.closeGroup rfl)

theorem refuses_closeSet (s : State) : Blames (s.Refuses combine .closeSet) s.closeSet := by
  obtain ⟨context, level⟩ := s
  cases context with
  | whole | group => exact refuses_of_misplaces (.closeSet rfl)
  | set outer outside =>
    refine (refuses_of_verdict (P := False) (level.verdict_set _) False.elim).bind_of_ok
      fun value hvalue => ?_
    refine refuses_of_verdict (verdict_store ⟨outside, outer⟩ value) fun hready =>
      .inr fun hs => hready ?_
    cases hs.2.context with
    | set hlevel h => exact ⟨hlevel, Level.suits_set hvalue⟩

theorem refuses_anyByte (s : State) : Blames (s.Refuses combine .any) s.anyByte := by
  unfold anyByte
  split
  · split
    · exact refuses_of_verdict (P := False) (verdict_error rfl rfl rfl) False.elim
    · exact refuses_of_verdict (P := False) (verdict_error rfl rfl rfl) False.elim
  · exact refuses_store nofun

theorem refuses_quantify (s : State) (quantifier : Quantifier) :
    Blames (s.Refuses combine (.quantifier quantifier)) (s.quantify quantifier) := by
  unfold quantify
  split
  · rename_i hset
    exact refuses_of_misplaces (.quantifier hset)
  · exact refuses_of_verdict ((s.level.verdict_quantify quantifier).map _) False.elim

/-- What any token is refused for. -/
theorem refuses_accept (combine : Combine) (s : State) (token : Token) :
    Blames (s.Refuses combine token) (s.accept combine token) := by
  cases token with
  | gap | openSet | directive => exact blames_ok _
  | bar => exact s.refuses_nextBranch
  | openGroup => exact s.refuses_openGroup
  | closeGroup => exact s.refuses_closeGroup
  | closeSet => exact s.refuses_closeSet
  | caret => exact refuses_of_verdict (s.verdict_onPending Pending.verdict_invert) False.elim
  | dash =>
    exact refuses_of_verdict (s.verdict_onPending (Pending.verdict_openRange · s.level.items))
      fun _ => .inl rfl
  | tilde => exact refuses_of_verdict (s.verdict_onPending Pending.verdict_openAnyBits) False.elim
  | any => exact s.refuses_anyByte
  | quantifier quantifier => exact s.refuses_quantify quantifier
  | quoted casing text =>
    have hvalue : Blames (Cause.Verdict False)
        (stringValue casing text s.stringCharsets s.level.pending.invertsValue) :=
      verdict_stringValue casing text _ _
    exact (refuses_of_verdict hvalue False.elim).bind_of_ok fun value hvalue =>
      refuses_store (Level.suits_stringValue hvalue)
  | escape escape => exact refuses_store (Level.suits_escape escape)
  | byte bits => exact refuses_store (Level.suits_ofMasked bits)
  | other c => exact refuses_of_misplaces .other

theorem blames_finish (combine : Combine) (s : State) :
    Blames (Cause.AtEnd combine.Total) (s.finish combine) := by
  have hcombine (branches : List Pattern) : Blames (Cause.AtEnd combine.Total)
      (combineWith combine branches s.level .endOfInput) := by
    intro cause hcause
    obtain ⟨pending, rfl⟩ | rfl | ⟨rfl, hpartial⟩ := blames_combineWith _ _ _ _ cause hcause
    · exact .dangling
    · exact .missingValue
    · exact .noAlternatives hpartial
  unfold finish
  split
  · exact hcombine _
  · exact (hcombine _).bind fun _ => blames_error.mpr .unclosedGroup
  · exact blames_error.mpr .unclosedSet

/-- A brace in a set is refused before the number after it is read. -/
theorem blames_permit (s : State) (lead : Lead) :
    Blames (fun cause => cause.Verdict False ∨ cause = .unexpected '{' ∧ lead = .repetition)
      (s.permit lead) := by
  cases lead with
  | directive => exact (s.level.pending.verdict_mustBeNone .directive (by decide)).imp fun _ => .inl
  | repetition =>
    simp only [permit]
    split
    · exact blames_error.mpr (.inr ⟨rfl, trivial⟩)
    · refine Blames.imp (P := Cause.Verdict False) ?_ fun _ => .inl
      refine (s.level.pending.verdict_mustBeNone .repetition (by decide)).bind fun _ => ?_
      exact (verdict_operand? _ s.level.items).bind fun _ => blames_ok _
  | whole | comment | quote | backslash | digit => exact blames_ok ()

/-- Of most tokens it is not settled before they are read whether they are
accepted. -/
theorem permit_of_read (s : State) {lead : Lead} {first : Char} {token : Token}
    {c after : Cursor} (hread : Token.read first lead c = (.ok token, after))
    (hdirective : ∀ charsets, token ≠ .directive charsets)
    (hquantifier : ∀ quantifier, token ≠ .quantifier quantifier) : s.permit lead = .ok () := by
  cases lead with
  | directive =>
    obtain ⟨charsets, -, rfl⟩ := Reading.map_eq_ok.mp hread
    exact absurd rfl (hdirective charsets)
  | repetition =>
    obtain ⟨quantifier, -, rfl⟩ := Reading.map_eq_ok.mp hread
    exact absurd rfl (hquantifier quantifier)
  | whole | comment | quote | backslash | digit => rfl

theorem closes_permit (s : State) (lead : Lead) : Closes (s.permit lead) := by
  refine (s.blames_permit lead).imp fun cause hcause => ?_
  obtain h | ⟨rfl, -⟩ := hcause
  · exact h.closed
  · rfl

end State

/-! ## Runs that fail -/

/-- Where a step fails: before the rest of the token is read, while it is
read, or when the token is given to the state. -/
inductive State.Fails (combine : Combine) (s : State) (first : Char) (c : Cursor) :
    SyntaxError → Prop
  | lead {cause : Cause} (h : s.permit (Lead.of first c.peek?) = .error cause) :
      Fails combine s first c ⟨cause, c.position⟩
  | reading {e : SyntaxError} (hpermit : s.permit (Lead.of first c.peek?) = .ok ())
      (h : (Token.read first (Lead.of first c.peek?) c).1 = .error e) :
      Fails combine s first c e
  | token {token : Token} {after : Cursor} {cause : Cause}
      (hpermit : s.permit (Lead.of first c.peek?) = .ok ())
      (hread : Token.read first (Lead.of first c.peek?) c = (.ok token, after))
      (h : s.accept combine token = .error cause) :
      Fails combine s first c ⟨cause, after.position⟩

variable {combine : Combine} {s : State} {c : Cursor} {e : SyntaxError}

theorem State.fails_iff {first : Char} :
    s.Fails combine first c e ↔ step combine s first c = .error e := by
  simp only [step, bind_eq_error, placed_eq_error]
  constructor
  · intro h
    cases h with
    | lead h => exact .inl ⟨_, h, rfl⟩
    | reading hpermit h => exact .inr ⟨(), placed_eq_ok.mpr hpermit, .inl h⟩
    | token hpermit hread h =>
      refine .inr ⟨(), placed_eq_ok.mpr hpermit, .inr ⟨_, ?_, .inl ⟨_, h, ?_⟩⟩⟩ <;> rw [hread]
  · rintro (⟨cause, hpermit, rfl⟩ | ⟨_, hpermit, hread | ⟨token, hread, h⟩⟩)
    · exact .lead hpermit
    · exact .reading (placed_eq_ok.mp hpermit) hread
    · obtain ⟨cause, haccept, rfl⟩ | ⟨_, _, ⟨⟩⟩ := h
      exact .token (placed_eq_ok.mp hpermit) (Prod.ext hread rfl) haccept

/-- A run that fails comes to a state that cannot end or cannot read on. -/
theorem exists_failure (h : run combine s c = .error e) :
    ∃ s' c', Moves combine (s, c) (s', c') ∧
      ((c'.rest = [] ∧ ∃ cause, s'.finish combine = .error cause ∧ e = ⟨cause, c'.position⟩) ∨
        ∃ first after, c'.next? = some (first, after) ∧ s'.Fails combine first after e) := by
  fun_induction run combine s c with
  | case1 s c hnext =>
    exact ⟨s, c, .refl, .inl ⟨Cursor.next?_eq_none.mp hnext, placed_eq_error.mp h⟩⟩
  | case2 s c first after hnext e' hstep =>
    obtain rfl := Except.error.inj h
    exact ⟨s, c, .refl, .inr ⟨first, after, hnext, State.fails_iff.mpr hstep⟩⟩
  | case3 s c first after hnext next c₂ hstep ih =>
    obtain ⟨s', c', hmoves, hfails⟩ := ih h
    exact ⟨s', c', .head ⟨first, after, hnext, hstep⟩ hmoves, hfails⟩

/-- A token that is refused makes the run fail after it. -/
theorem run_of_refused {token : Token} {passed rest : List Char} {cause : Cause}
    (hspelled : Spelled token (passed ++ rest) rest)
    (hdirective : ∀ charsets, token ≠ .directive charsets)
    (hquantifier : ∀ quantifier, token ≠ .quantifier quantifier)
    (h : s.accept combine token = .error cause) (position : Nat) :
    run combine s ⟨passed ++ rest, position⟩ = .error ⟨cause, position + passed.length⟩ := by
  obtain ⟨first, text, htext⟩ := hspelled.exists_cons
  rw [htext] at hspelled ⊢
  obtain ⟨position', hread⟩ := Token.read_complete hspelled (position + 1)
  have hreaches := Token.reaches_read first (Lead.of first text.head?) ⟨text, position + 1⟩
  rw [hread] at hreaches
  obtain ⟨others, hothers, hposition⟩ := hreaches
  obtain rfl : text = others ++ rest := hothers
  have hlength : position' = position + passed.length := by
    have hcount := congrArg List.length htext
    simp only [List.length_append, List.length_cons] at hcount
    change position' = position + 1 + others.length at hposition
    omega
  have hpermit := s.permit_of_read hread hdirective hquantifier
  have hfails : s.Fails combine first ⟨others ++ rest, position + 1⟩
      ⟨cause, (Cursor.mk rest position').position⟩ := .token hpermit hread h
  rw [← hlength]
  exact run_of_step_error rfl (State.fails_iff.mp hfails)

end OctetPattern
