import OctetPattern.Proofs.Continuing

/-!
# Layout

Blanks and comments between tokens are a matter of taste. A `Lexeme` is a
text that is one token, or would be one if its number, its letter or its
names made sense, and a `Layout` puts lexemes one after another with
separators around them. All layouts of the same lexemes are read as the
same tree or are refused for the same cause (`parse_layouts`).

No lexeme takes in what comes after it, so what the reader makes of one
depends on the state alone (`State.Takes`, `Lexeme.takes`), and separators
change no state. The one exception is a bracket before an asterisk, which
would begin a directive.
-/

namespace OctetPattern

/-! ## Separators -/

/-- Blanks and comments, the comments with their line feeds. -/
inductive Separator : List Char → Prop
  | nil : Separator []
  | blank {c : Char} {rest : List Char} (hc : c ∈ [' ', '\t', '\r', '\n'])
      (others : Separator rest) : Separator (c :: rest)
  | comment {body rest : List Char} (hbody : '\n' ∉ body) (others : Separator rest) :
      Separator ('#' :: (body ++ '\n' :: rest))

namespace Separator

variable {text : List Char}

theorem gap (h : Separator text) (rest : List Char) : Gap (text ++ rest) rest := by
  induction h with
  | nil => exact .nil
  | blank hc others ih => exact .cons (.blank hc) ih
  | comment hbody others ih =>
    rw [List.cons_append, List.append_assoc]
    exact .cons (.comment hbody) ih

theorem head?_ne_asterisk (h : Separator text) : text.head? ≠ some '*' := by
  rintro hhead
  cases h with
  | nil => cases hhead
  | blank hc others =>
    obtain rfl := Option.some.inj hhead
    simp at hc
  | comment hbody others => cases hhead

end Separator

/-! ## Lexemes -/

/-- A text that is complete as a token. Whether it is one may still depend
on the letter, the number or the names in it. -/
inductive Lexeme : List Char → Prop
  | sign {c : Char} (hc : c ∈ ['.', '^', '-', '~', '[', ']', '(', ')', '|', '?', '*', '+']) :
      Lexeme [c]
  | byte {text digits : List Char} {bits : MaskedByte} (h : ByteSpelling text digits bits []) :
      Lexeme text
  | escape (letter : Char) : Lexeme ['\\', letter]
  | quoted {casing : Casing} {body : List Char} (hquote : casing.quote ∉ body) :
      Lexeme (casing.quote :: (body ++ [casing.quote]))
  | directive {names : List Char} (hclose : ')' ∉ names) : Lexeme ('(' :: '*' :: (names ++ [')']))
  | exactly {digits : List Char} (hdigits : ∀ c ∈ digits, c.isDigit = true) :
      Lexeme ('{' :: (digits ++ ['}']))
  | between {low high : List Char} (hlow : ∀ c ∈ low, c.isDigit = true)
      (hhigh : ∀ c ∈ high, c.isDigit = true) : Lexeme ('{' :: (low ++ ',' :: (high ++ ['}'])))
  | atLeast {digits : List Char} (hdigits : ∀ c ∈ digits, c.isDigit = true) :
      Lexeme ('{' :: (digits ++ [',', '*', '}']))

/-- A lexeme stays one before the given text. -/
def Apart (lexeme rest : List Char) : Prop :=
  lexeme = ['('] → rest.head? ≠ some '*'

/-! ## What is read for a lexeme -/

/-- The reading succeeds or fails as given, noticed where it ends; if it
succeeds, the rest is left. -/
def Reading.Yields (r : Reading α) (outcome : Except Cause α) (rest : List Char) : Prop :=
  r.1 = placed r.2.position outcome ∧ ∀ a, outcome = .ok a → r.2.rest = rest

/-- Wherever the text stands and whatever comes after it, reading it has
the same outcome. -/
def Settled (read : Cursor → Reading α) (text : List Char) : Prop :=
  ∃ outcome, ∀ rest position, (read ⟨text ++ rest, position⟩).Yields outcome rest

theorem yields_ok {a : α} {rest : List Char} {position : Nat} :
    Reading.Yields (.ok a, ⟨rest, position⟩) (.ok a) rest :=
  ⟨rfl, fun _ _ => rfl⟩

theorem yields_error {cause : Cause} {left rest : List Char} {position : Nat} :
    Reading.Yields ((.error ⟨cause, position⟩, ⟨left, position⟩) : Reading α) (.error cause) rest :=
  ⟨rfl, nofun⟩

theorem Reading.Yields.map {r : Reading α} {outcome : Except Cause α} {rest : List Char}
    (h : r.Yields outcome rest) (f : α → β) : (r.map f).Yields (outcome.map f) rest := by
  obtain ⟨result, after⟩ := r
  obtain ⟨hresult, hrest⟩ := h
  obtain rfl : result = placed after.position outcome := hresult
  cases outcome with
  | error cause => exact yields_error
  | ok a => exact ⟨rfl, fun _ _ => hrest a rfl⟩

theorem Settled.map {read : Cursor → Reading α} {text : List Char} (h : Settled read text)
    (f : α → β) : Settled (fun c => (read c).map f) text := by
  obtain ⟨outcome, hread⟩ := h
  exact ⟨outcome.map f, fun rest position => (hread rest position).map f⟩

namespace Cursor

theorem settled_readEscape (letter : Char) : Settled readEscape [letter] := by
  cases hletter : Escape.ofLetter? letter with
  | none =>
    refine ⟨.error (.unknownEscape letter), fun rest position => ?_⟩
    simp only [readEscape, List.cons_append, peek?, List.head?_cons, hletter]
    exact yields_error
  | some escape =>
    refine ⟨.ok escape, fun rest position => ?_⟩
    rw [List.cons_append, readEscape_complete hletter]
    exact yields_ok

theorem settled_readQuoted {casing : Casing} {body : List Char} (hquote : casing.quote ∉ body) :
    Settled (readQuoted casing) (body ++ [casing.quote]) := by
  by_cases hbody : body = []
  · subst hbody
    refine ⟨.error .emptyString, fun rest position => ?_⟩
    rw [List.append_assoc, List.singleton_append, readQuoted, readUntil_append hquote]
    exact yields_error
  · refine ⟨.ok body, fun rest position => ?_⟩
    obtain ⟨position', hread⟩ := readQuoted_complete hbody hquote rest position
    rw [List.append_assoc, List.singleton_append, hread]
    exact yields_ok

theorem settled_readDirective {names : List Char} (hclose : ')' ∉ names) :
    Settled readDirective ('*' :: (names ++ [')'])) := by
  refine ⟨charsetsNamed names, fun rest position => ?_⟩
  rw [List.cons_append, List.append_assoc, List.singleton_append]
  simp only [readDirective, skip]
  rw [readUntil_append hclose]
  exact ⟨rfl, fun _ _ => rfl⟩

theorem settled_readMasked {first : Char} {text digits : List Char} {bits : MaskedByte}
    (h : ByteSpelling (first :: text) digits bits []) : Settled (readMasked first) text := by
  refine ⟨.ok bits, fun rest position => ?_⟩
  have hbyte : ByteSpelling (first :: (text ++ rest)) digits bits rest := h.append rest
  obtain ⟨position', hread⟩ := readMasked_complete hbyte position
  rw [hread]
  exact yields_ok

/-- What follows the first number of a repetition matters only if that is
a count. -/
theorem settled_readRepetition {digits text : List Char} {follower : Char}
    (hdigits : ∀ c ∈ digits, c.isDigit = true) (hfollower : follower.isDigit = false)
    (h : ∀ min, Settled (readBounds min) (follower :: text)) :
    Settled readRepetition (digits ++ follower :: text) := by
  have hnumber : ∀ rest position, readNumber ⟨digits ++ follower :: text ++ rest, position⟩ =
      (placed (position + digits.length) (countOf digits (some follower)),
        ⟨follower :: text ++ rest, position + digits.length⟩) := by
    intro rest position
    rw [List.append_assoc]
    exact readNumber_append hdigits (by simpa using hfollower) position
  cases hcount : countOf digits (some follower) with
  | error cause =>
    refine ⟨.error cause, fun rest position => ?_⟩
    rw [readRepetition, hnumber, hcount]
    exact yields_error
  | ok min =>
    obtain ⟨outcome, hbounds⟩ := h min
    refine ⟨outcome, fun rest position => ?_⟩
    rw [readRepetition, hnumber, hcount]
    exact hbounds rest _

theorem settled_readBounds_exactly (min : UInt32) : Settled (readBounds min) ['}'] := by
  by_cases hzero : min = 0
  · refine ⟨.error .zeroRepeat, fun rest position => ?_⟩
    simp only [readBounds, List.cons_append, peek?, List.head?_cons, hzero, if_true]
    exact yields_error
  · refine ⟨.ok (.exactly min), fun rest position => ?_⟩
    simp only [readBounds, List.cons_append, peek?, List.head?_cons, hzero, if_true, if_false]
    exact yields_ok

theorem settled_readBounds_between {high : List Char} (hhigh : ∀ c ∈ high, c.isDigit = true)
    (min : UInt32) : Settled (readBounds min) (',' :: (high ++ ['}'])) := by
  cases high with
  | nil => exact ⟨.error .malformedRepeat, fun _ _ => yields_error⟩
  | cons digit digits =>
    have hdigit : digit.isDigit = true := hhigh digit (List.mem_cons_self ..)
    have hstar : digit ≠ '*' := by
      rintro rfl
      simp at hdigit
    refine ⟨(countOf (digit :: digits) (some '}')).map (.between min), fun rest position => ?_⟩
    have hbrace : ∀ c ∈ ('}' :: rest).head?, c.isDigit = false := by simp
    have hnumber := readNumber_append hhigh hbrace (position + 1)
    rw [List.cons_append, List.head?_cons] at hnumber
    simp only [readBounds, readUpperBound, skip, peek?, List.head?_cons, List.cons_append,
      List.append_assoc, List.nil_append, Option.some.injEq, Char.reduceEq, if_true, if_false,
      hstar, Option.any_some, hdigit, hnumber]
    cases countOf (digit :: digits) (some '}') with
    | error cause => exact yields_error
    | ok max => exact yields_ok

theorem settled_readBounds_atLeast (min : UInt32) :
    Settled (readBounds min) [',', '*', '}'] :=
  ⟨.ok (.atLeast min), fun _ _ => yields_ok⟩

end Cursor

theorem Lead.of_sign {c : Char}
    (hc : c ∈ ['.', '^', '-', '~', '[', ']', '(', ')', '|', '?', '*', '+']) :
    ∃ token, ∀ next, (c = '(' → next ≠ some '*') → Lead.of c next = .whole token := by
  simp only [List.mem_cons, List.not_mem_nil, or_false] at hc
  rcases hc with rfl | rfl | rfl | rfl | rfl | rfl | rfl | rfl | rfl | rfl | rfl | rfl
  case inr.inr.inr.inr.inr.inr.inl => exact ⟨.openGroup, fun _ hnext => if_neg (hnext rfl)⟩
  all_goals exact ⟨_, fun _ _ => rfl⟩

/-- The lead and the outcome of a lexeme do not depend on what comes
after it. -/
theorem Lexeme.settled {first : Char} {text : List Char} (h : Lexeme (first :: text)) :
    ∃ lead, (∀ rest, Apart (first :: text) rest → Lead.of first (text ++ rest).head? = lead) ∧
      Settled (Token.read first lead) text := by
  cases h with
  | sign hc =>
    obtain ⟨token, hlead⟩ := Lead.of_sign hc
    refine ⟨.whole token, fun rest hapart => hlead _ ?_, .ok token, fun _ _ => yields_ok⟩
    rintro rfl
    exact hapart rfl
  | byte h =>
    exact ⟨.digit, fun _ _ => Lead.of_startsByte h.startsByte _,
      (Cursor.settled_readMasked h).map Token.byte⟩
  | escape letter =>
    exact ⟨.backslash, fun _ _ => rfl, (Cursor.settled_readEscape letter).map Token.escape⟩
  | @quoted casing body hquote =>
    refine ⟨.quote casing, fun _ _ => ?_,
      (Cursor.settled_readQuoted hquote).map (Token.quoted casing)⟩
    cases casing <;> rfl
  | directive hclose =>
    exact ⟨.directive, fun _ _ => rfl, (Cursor.settled_readDirective hclose).map Token.directive⟩
  | exactly hdigits =>
    have hread := Cursor.settled_readRepetition hdigits rfl Cursor.settled_readBounds_exactly
    exact ⟨.repetition, fun _ _ => rfl, hread.map Token.quantifier⟩
  | between hlow hhigh =>
    have hread :=
      Cursor.settled_readRepetition hlow rfl (Cursor.settled_readBounds_between hhigh)
    exact ⟨.repetition, fun _ _ => rfl, hread.map Token.quantifier⟩
  | atLeast hdigits =>
    have hread := Cursor.settled_readRepetition hdigits rfl Cursor.settled_readBounds_atLeast
    exact ⟨.repetition, fun _ _ => rfl, hread.map Token.quantifier⟩

/-! ## What a state makes of a lexeme -/

/-- Wherever the lexeme stands, the state fails for the given cause, or
the run goes on after the lexeme in the given state. -/
def State.Takes (combine : Combine) (s : State) (lexeme : List Char)
    (outcome : Except Cause State) : Prop :=
  ∀ rest position, Apart lexeme rest → ∃ position',
    run combine s ⟨lexeme ++ rest, position⟩ =
      (placed position' outcome).bind fun next => run combine next ⟨rest, position'⟩

theorem Lexeme.exists_cons {lexeme : List Char} (h : Lexeme lexeme) :
    ∃ first text, lexeme = first :: text := by
  cases h with
  | byte h => cases h <;> exact ⟨_, _, rfl⟩
  | _ => exact ⟨_, _, rfl⟩

/-- What a state makes of a lexeme does not depend on what comes after it. -/
theorem Lexeme.takes {lexeme : List Char} (h : Lexeme lexeme) (combine : Combine) (s : State) :
    ∃ outcome, s.Takes combine lexeme outcome := by
  obtain ⟨first, text, rfl⟩ := h.exists_cons
  obtain ⟨lead, hlead, outcome, hyields⟩ := h.settled
  refine ⟨do
    s.permit lead
    s.accept combine (← outcome), fun rest position hapart => ?_⟩
  -- only the cursor after the lexeme is not known yet, and where an error
  -- is noticed does not matter
  obtain ⟨hresult, hrest⟩ := hyields rest (position + 1)
  generalize hread : Token.read first lead ⟨text ++ rest, position + 1⟩ = reading at hresult hrest
  obtain ⟨result, after⟩ := reading
  obtain rfl : result = placed after.position outcome := hresult
  have hstep : step combine s first ⟨text ++ rest, position + 1⟩ = do
      placed (position + 1) (s.permit lead)
      let token ← placed after.position outcome
      let next ← placed after.position (s.accept combine token)
      return (next, after) := by
    simp only [step, Cursor.peek?, hlead rest hapart, hread]
  rw [List.cons_append, run_of_next rfl, hstep]
  cases s.permit lead with
  | error cause => exact ⟨position + 1, rfl⟩
  | ok =>
    refine ⟨after.position, ?_⟩
    cases outcome with
    | error cause => rfl
    | ok token =>
      obtain ⟨rest', position'⟩ := after
      obtain rfl : rest' = rest := hrest token rfl
      cases haccept : s.accept combine token with
      | error cause => simp only [placed, bind, Except.bind, haccept]
      | ok next => simp only [placed, bind, Except.bind, haccept, pure, Except.pure]

/-! ## Layouts -/

/-- The lexemes stand one after another, with separators before, between
and after them. -/
inductive Layout : List (List Char) → List Char → Prop
  | last {separator : List Char} (h : Separator separator) : Layout [] separator
  | cons {lexeme : List Char} {lexemes : List (List Char)} {separator text : List Char}
      (h : Separator separator) (others : Layout lexemes text) :
      Layout (lexeme :: lexemes) (separator ++ (lexeme ++ text))

theorem Lexeme.eq_asterisk {lexeme text : List Char} (h : Lexeme lexeme)
    (hlexeme : lexeme = '*' :: text) : text = [] := by
  cases h with
  | sign hc => exact (List.cons.inj hlexeme).2.symm
  | byte h =>
    subst hlexeme
    exact absurd h.startsByte (by decide)
  | @quoted casing body hquote => cases casing <;> cases hlexeme
  | escape | directive | exactly | between | atLeast => cases hlexeme

namespace Layout

variable {lexeme text : List Char} {lexemes : List (List Char)}

theorem apart (h : Layout lexemes text) (hlexemes : ∀ w ∈ lexemes, Lexeme w)
    (hchain : (lexeme :: lexemes).IsChain fun v w => ¬(v = ['('] ∧ w = ['*'])) :
    Apart lexeme text := by
  rintro rfl hhead
  cases h with
  | last hseparator => exact hseparator.head?_ne_asterisk hhead
  | @cons next others separator text hseparator hothers =>
    cases separator with
    | cons c separator => exact hseparator.head?_ne_asterisk hhead
    | nil =>
      obtain ⟨hnext, -⟩ := List.isChain_cons_cons.mp hchain
      have hlexeme := hlexemes next (List.mem_cons_self ..)
      obtain ⟨first, tail, rfl⟩ := hlexeme.exists_cons
      obtain rfl := Option.some.inj hhead
      exact hnext ⟨rfl, by rw [hlexeme.eq_asterisk rfl]⟩

theorem ne_nil (h : Layout lexemes text) (hlexemes : ∀ w ∈ lexemes, Lexeme w)
    (hne : lexemes ≠ []) : text ≠ [] := by
  cases h with
  | last => exact absurd rfl hne
  | cons hseparator hothers =>
    obtain ⟨first, tail, rfl⟩ := (hlexemes _ (List.mem_cons_self ..)).exists_cons
    simp

end Layout

/-- The same cause, wherever it was noticed. -/
def SameCause (d e : SyntaxError) : Prop :=
  d.cause = e.cause

theorem placed_agree_cause {x : Except Cause α} (i j : Nat) :
    Agree SameCause Eq (placed i x) (placed j x) :=
  (agree_refl (fun _ => rfl) x).placed fun _ _ hcause => hcause

theorem Separator.run_eq {text : List Char} (h : Separator text) (combine : Combine) (s : State)
    (rest : List Char) (position : Nat) :
    ∃ position', run combine s ⟨text ++ rest, position⟩ = run combine s ⟨rest, position'⟩ := by
  have hreads : Reads combine s (text ++ rest) s rest := .of_gap (h.gap rest)
  obtain ⟨position', hmoves⟩ := hreads position
  exact ⟨position', run_eq_of_moves hmoves⟩

/-- From any state on, two layouts of the same lexemes have the same
outcome. -/
theorem run_layouts (combine : Combine) {lexemes : List (List Char)} {a b : List Char}
    (hlexemes : ∀ w ∈ lexemes, Lexeme w)
    (hchain : lexemes.IsChain fun v w => ¬(v = ['('] ∧ w = ['*']))
    (ha : Layout lexemes a) (hb : Layout lexemes b) (s : State) (i j : Nat) :
    Agree SameCause Eq (run combine s ⟨a, i⟩) (run combine s ⟨b, j⟩) := by
  induction lexemes generalizing a b s i j with
  | nil =>
    cases ha with
    | last ha =>
      cases hb with
      | last hb =>
        obtain ⟨i', hruna⟩ := ha.run_eq combine s [] i
        obtain ⟨j', hrunb⟩ := hb.run_eq combine s [] j
        rw [List.append_nil] at hruna hrunb
        rw [hruna, hrunb, run_of_end rfl, run_of_end rfl]
        exact placed_agree_cause i' j'
  | cons lexeme lexemes ih =>
    have hothers : ∀ w ∈ lexemes, Lexeme w := fun w hw => hlexemes w (List.mem_cons_of_mem _ hw)
    cases ha with
    | @cons _ _ separator text ha htext =>
      cases hb with
      | @cons _ _ separator' text' hb htext' =>
        obtain ⟨i₁, hruna⟩ := ha.run_eq combine s (lexeme ++ text) i
        obtain ⟨j₁, hrunb⟩ := hb.run_eq combine s (lexeme ++ text') j
        obtain ⟨outcome, htakes⟩ := (hlexemes lexeme (List.mem_cons_self ..)).takes combine s
        obtain ⟨i₂, htakea⟩ := htakes text i₁ (htext.apart hothers hchain)
        obtain ⟨j₂, htakeb⟩ := htakes text' j₁ (htext'.apart hothers hchain)
        -- both runs take the lexeme in the same state, so with one outcome
        rw [hruna, hrunb, htakea, htakeb]
        refine (placed_agree_cause i₂ j₂).bind ?_
        rintro next _ rfl
        exact ih hothers hchain.of_cons htext htext' next i₂ j₂

/-- The same kind of error with the same message. -/
def SameWording (d e : SyntaxError) : Prop :=
  d.cause.fault = e.cause.fault ∧ d.cause.message = e.cause.message

/-- How tokens are laid out does not matter: two layouts of the same
lexemes are read as the same tree, or refused in the same words. -/
theorem parse_layouts {lexemes : List (List Char)} {a b : List Char} (hne : lexemes ≠ [])
    (hlexemes : ∀ w ∈ lexemes, Lexeme w)
    (hchain : lexemes.IsChain fun v w => ¬(v = ['('] ∧ w = ['*']))
    (ha : Layout lexemes a) (hb : Layout lexemes b) :
    Agree SameWording Eq (parse a) (parse b) := by
  have hagree := run_layouts Branches.merged hlexemes hchain ha hb .start 0 0
  rw [parse_eq_run (ha.ne_nil hlexemes hne), parse_eq_run (hb.ne_nil hlexemes hne)]
  exact hagree.imp_error fun _ _ hcause => ⟨congrArg _ hcause, congrArg _ hcause⟩

/-- Digits of a byte stay together, and so does a repetition, but not the
two. -/
theorem parse_layouts_spread :
    Agree SameWording Eq (parse "00{0}".toList) (parse " 00#x\n{0}\t".toList) := by
  have hlexemes : ∀ w ∈ [['0', '0'], ['{', '0', '}']], Lexeme w :=
    List.forall_mem_cons.mpr ⟨.byte (.pair rfl rfl),
      List.forall_mem_singleton.mpr (.exactly (List.forall_mem_singleton.mpr rfl))⟩
  have hclose : Layout [['0', '0'], ['{', '0', '}']] "00{0}".toList :=
    .cons .nil (.cons .nil (.last .nil))
  have hbody : '\n' ∉ ['x'] := by decide
  have hcomment : Separator ['#', 'x', '\n'] := .comment hbody .nil
  have hblank : Separator [' '] := .blank (by decide) .nil
  have htab : Separator ['\t'] := .blank (by decide) .nil
  have hspread : Layout [['0', '0'], ['{', '0', '}']] " 00#x\n{0}\t".toList :=
    .cons hblank (.cons hcomment (.last htab))
  exact parse_layouts (List.cons_ne_nil _ _) hlexemes (by simp) hclose hspread

end OctetPattern
