import OctetPattern.Proofs.Derivable
import OctetPattern.Proofs.Refusing
import OctetPattern.Proofs.Splicing

/-!
# A caret before a pattern

A caret before a text inverts what the text amounts to, if that is a
single value: the inversion of the root is toggled and nothing else
changes (`parse_caret`). The caret takes a way of its own for each kind of
value. It stays with a byte until a dash makes it the first bound of a
range, it is carried through a tilde, and a set, an escape or a masked
byte is toggled as a whole.

What follows the first value cannot tell: a sequence of one item stays
one item only by gaps, directives and the end of a range, and these do not
look at the inversion (`Derives.turns`). So it comes down to the first
step of a derivation (`Derives.turnsAtFirst`). A value that has no
inversion is refused where it stands.
-/

namespace OctetPattern

/-! ## Toggling a root -/

/-- The pattern with the inversion of its root toggled, if it has one. -/
def Pattern.turned? : Pattern → Option Pattern
  | anyBits bits inverted => some (anyBits bits !inverted)
  | p => p.toggled?

theorem Pattern.turned?_of_toggled? {p q : Pattern} (h : p.toggled? = some q) :
    p.turned? = some q := by
  cases p with
  | anyBits => cases h
  | _ => exact h

theorem turned?_quotedValue {casing : Casing} {body : List Char} {charsets : List Charset}
    (h : (quotedValue casing body charsets).toggled? = none) :
    (quotedValue casing body charsets).turned? = none := by
  unfold quotedValue at h ⊢
  split at h
  · split at h
    · cases h
    · exact h
  · exact h

/-! ## Single items -/

/-- Steps never make items fewer. -/
def Form.Grows : Form → Prop
  | .steps _ before after => before.items.length ≤ after.items.length
  | .phrase _ _ _ | .branches _ _ => True

theorem Derives.grows {form : Form} {text rest : List Char} (h : Derives form text rest) :
    form.Grows := by
  induction h with
  | byte | wild | escape | set | quoted | lastBranch | branch => trivial
  | done => exact Nat.le_refl _
  | gap _ _ ih | directive _ _ _ ih | range _ _ _ _ ih | quantifier _ _ _ ih => exact ih
  | value _ _ _ ih | any _ ih | inverted _ _ _ _ _ ih | anyBits _ _ _ _ _ ih
  | invertedAnyBits _ _ _ _ _ _ ih | group _ _ _ _ ih => exact Nat.le_of_succ_le ih

/-- A step that adds an item to one cannot lead to a single item. -/
theorem Derives.not_single {place : Place} {before after : Draft} {item v t : Pattern}
    {text rest : List Char} (h : Derives (.steps place (before.push item) after) text rest)
    (hbefore : before.items = [v]) (hafter : after.items = [t]) : False := by
  have hlength : (before.push item).items.length ≤ after.items.length := h.grows
  simp [Draft.push, hbefore, hafter] at hlength

/-- Steps from one item to one item lead from the turned one to the turned
one, or leave it as it is if it cannot be turned. -/
def Form.Turns : Form → List Char → List Char → Prop
  | .steps place before after, text, rest =>
    ∀ v t, before.items = [v] → after.items = [t] → (∀ quantifier p, t ≠ .quantified quantifier p) →
      (v.turned? = none → t = v) ∧
        ∀ v', v.turned? = some v' → ∃ t', t.turned? = some t' ∧
          Derives (.steps place ⟨before.charsets, [v']⟩ ⟨after.charsets, [t']⟩) text rest
  | .phrase _ _ _, _, _ | .branches _ _, _, _ => True

theorem Derives.turns {form : Form} {text rest : List Char} (h : Derives form text rest) :
    form.Turns text rest := by
  induction h with
  | byte | wild | escape | set | quoted | lastBranch | branch => trivial
  | done =>
    intro v t hbefore hafter hplain
    obtain ⟨rfl, -⟩ := List.cons.inj (hbefore.symm.trans hafter)
    exact ⟨fun _ => rfl, fun v' hv' => ⟨v', hv', .done⟩⟩
  | gap hspacing _ ih =>
    intro v t hbefore hafter hplain
    obtain ⟨hsame, hturned⟩ := ih v t hbefore hafter hplain
    refine ⟨hsame, fun v' hv' => ?_⟩
    obtain ⟨t', ht', hsteps⟩ := hturned v' hv'
    exact ⟨t', ht', .gap hspacing hsteps⟩
  | directive hclose hnamed _ ih =>
    intro v t hbefore hafter hplain
    obtain ⟨hsame, hturned⟩ := ih v t hbefore hafter hplain
    refine ⟨hsame, fun v' hv' => ?_⟩
    obtain ⟨t', ht', hsteps⟩ := hturned v' hv'
    exact ⟨t', ht', .directive hclose hnamed hsteps⟩
  | value _ next | any next | inverted _ _ _ next | anyBits _ _ _ next
  | invertedAnyBits _ _ _ _ next | group _ _ next =>
    intro v t hbefore hafter hplain
    exact (next.not_single hbefore hafter).elim
  | range hgap h _ _ ih =>
    -- the range takes over the inversion of its first bound
    intro v t hbefore hafter hplain
    obtain ⟨rfl, rfl⟩ := List.cons.inj hbefore
    refine ⟨nofun, fun v' hv' => ?_⟩
    obtain rfl := Option.some.inj hv'
    obtain ⟨-, hturned⟩ := ih _ t rfl hafter hplain
    obtain ⟨t', ht', hsteps⟩ := hturned _ rfl
    exact ⟨t', ht', .range hgap h hsteps⟩
  | quantifier _ _ _ ih =>
    intro v t hbefore hafter hplain
    obtain ⟨rfl, rfl⟩ := List.cons.inj hbefore
    obtain ⟨hsame, -⟩ := ih _ t rfl hafter hplain
    exact absurd (hsame rfl) (hplain _ _)

/-! ## First items -/

theorem Gap.trans {text middle rest : List Char} (h : Gap text middle) (h' : Gap middle rest) :
    Gap text rest := by
  induction h with
  | nil => exact h'
  | cons hfirst _ ih => exact .cons hfirst (ih h')

/-- The text begins with a value that has no inversion. -/
inductive Fixed (charsets : List Charset) : List Char → Prop
  | any {rest : List Char} : Fixed charsets ('.' :: rest)
  | quoted {casing : Casing} {body rest : List Char} (hbody : body ≠ [])
      (hquote : casing.quote ∉ body)
      (hencodable : ∀ charset ∈ charsets, (charset.encode? body).isSome = true)
      (h : (quotedValue casing body charsets).toggled? = none) :
      Fixed charsets (casing.quote :: (body ++ casing.quote :: rest))

/-- A phrase is a string, or has an inversion that a caret toggles. -/
theorem Derives.fixed_of_phrase {charsets : List Charset} {value : Pattern}
    {text rest : List Char} (h : Derives (.phrase .sequence charsets value) text rest)
    (hvalue : value.toggled? = none) : Fixed charsets text ∧ value.turned? = none := by
  cases h with
  | byte | wild | set => cases hvalue
  | escape =>
    rw [escape_pattern_true] at hvalue
    cases hvalue
  | quoted hbody hquote hencodable =>
    exact ⟨.quoted hbody hquote hencodable hvalue, turned?_quotedValue hvalue⟩

/-- Neither a caret nor an opening bracket comes first. -/
def Plain (text : List Char) : Prop :=
  ∀ operand, Gap text operand → operand.head? ≠ some '^' ∧ operand.head? ≠ some '('

theorem plain_cons {c : Char} {rest : List Char}
    (hc : c ∉ [' ', '\t', '\r', '\n', '#', '^', '(']) : Plain (c :: rest) := by
  intro operand hgap
  cases hgap with
  | nil => constructor <;> (rintro ⟨⟩; simp at hc)
  | cons hfirst _ =>
    cases hfirst with
    | blank hblank =>
      simp only [List.mem_cons, List.not_mem_nil, or_false] at hblank hc
      tauto
    | comment | lastComment => simp at hc

/-- With a caret before it, the text leads to the turned item, unless it
begins with a value that has no inversion. -/
def Form.TurnsAtFirst : Form → List Char → List Char → Prop
  | .steps place before after, text, rest =>
    ∀ t, place = .sequence → before.items = [] → after.items = [t] →
      (∀ quantifier p, t ≠ .quantified quantifier p) →
        ∀ front, Gap front text → Plain front →
          (∀ t', t.turned? = some t' →
            Derives (.steps place before ⟨after.charsets, [t']⟩) ('^' :: front) rest) ∧
            (t.turned? = none → ∃ operand, Gap front operand ∧ Fixed before.charsets operand)
  | .phrase _ _ _, _, _ | .branches _ _, _, _ => True

theorem Derives.turnsAtFirst {form : Form} {text rest : List Char} (h : Derives form text rest) :
    form.TurnsAtFirst text rest := by
  induction h with
  | byte | wild | escape | set | quoted | lastBranch | branch => trivial
  | done =>
    intro t _ hbefore hafter
    cases hbefore.symm.trans hafter
  | range | quantifier =>
    intro t _ hbefore
    cases hbefore
  | gap hspacing _ ih =>
    intro t hplace hbefore hafter hplain front hfront
    exact ih t hplace hbefore hafter hplain front (hfront.trans (.cons hspacing .nil))
  | inverted | invertedAnyBits =>
    intro t _ _ _ _ front hfront hfirst
    exact absurd rfl (hfirst _ hfront).1
  | directive | group =>
    intro t _ _ _ _ front hfront hfirst
    exact absurd rfl (hfirst _ hfront).2
  | @value place before after text middle rest p h next =>
    rintro t rfl hbefore hafter hplain front hfront -
    obtain ⟨hsame, hturned⟩ := next.turns p t (by simp [Draft.push, hbefore]) hafter hplain
    cases htoggled : p.toggled? with
    | some v' =>
      obtain ⟨t', ht', hsteps⟩ := hturned v' (Pattern.turned?_of_toggled? htoggled)
      refine ⟨fun t'' ht'' => ?_, fun hnone => ?_⟩
      · obtain rfl := Option.some.inj (ht'.symm.trans ht'')
        refine .inverted hfront h htoggled ?_
        rwa [Draft.push, hbefore]
      · cases hnone.symm.trans ht'
    | none =>
      obtain ⟨hfixed, hnone⟩ := h.fixed_of_phrase htoggled
      obtain rfl := hsame hnone
      exact ⟨fun t' ht' => (nomatch hnone.symm.trans ht'), fun _ => ⟨text, hfront, hfixed⟩⟩
  | any next =>
    rintro t rfl hbefore hafter hplain front hfront -
    obtain ⟨hsame, -⟩ := next.turns .any t (by simp [Draft.push, hbefore]) hafter hplain
    obtain rfl := hsame rfl
    exact ⟨nofun, fun _ => ⟨_, hfront, .any⟩⟩
  | @anyBits place before after text operand middle rest p bits hgap h hmasked next =>
    rintro t rfl hbefore hafter hplain front hfront -
    obtain ⟨-, hturned⟩ := next.turns (.anyBits bits false) t (by simp [Draft.push, hbefore])
      hafter hplain
    obtain ⟨t', ht', hsteps⟩ := hturned (.anyBits bits true) rfl
    refine ⟨fun t'' ht'' => ?_, fun hnone => ?_⟩
    · obtain rfl := Option.some.inj (ht'.symm.trans ht'')
      refine .invertedAnyBits hfront hgap h hmasked ?_
      rwa [Draft.push, hbefore]
    · cases hnone.symm.trans ht'

/-! ## Bars -/

theorem exists_lexedUpTo {combine : Combine} {before after : Config}
    (h : Moves combine before after) :
    ∃ tokens, LexedUpTo after.2.rest before.2.rest tokens ∧
      before.1.AcceptsAll combine tokens after.1 := by
  induction h using Relation.ReflTransGen.head_induction_on with
  | refl => exact ⟨[], .nil, .nil⟩
  | head hmove _ ih =>
    obtain ⟨tokens, hlexed, haccepts⟩ := ih
    obtain ⟨token, hspelled, haccept⟩ := spelled_of_move hmove
    exact ⟨token :: tokens, .cons hspelled hlexed, .cons haccept haccepts⟩

theorem Follows.sets_of_whole {branches : List Pattern} {charsets : List Charset} {scopes : Scopes}
    (h : Follows (.whole branches) charsets scopes) : scopes.sets = 0 := by
  cases h
  rfl

/-- A bar that ends a branch is a token outside sets. -/
theorem Derives.exists_bar {after : Draft} {text middle : List Char} {tokens : List Token}
    (h : Derives (.steps .sequence (.empty [.latin1]) after) text ('|' :: middle))
    (hlexed : Lexed text tokens) :
    ∃ before others, tokens = before ++ .bar :: others ∧
      (Scopes.start.through before).sets = 0 := by
  obtain ⟨position, hmoves⟩ := h.isRead (.whole []) rfl 0
  obtain ⟨before, hbefore, haccepts⟩ := exists_lexedUpTo hmoves
  obtain ⟨others, rfl, hothers⟩ := hbefore.splits hlexed
  have hfollows := Follows.whole.acceptsAll haccepts
  refine ⟨before, ?_⟩
  cases hothers with
  | @cons token others _ _ hspelled _ =>
    obtain ⟨rfl, -⟩ := hspelled.unique .bar
    exact ⟨others, rfl, hfollows.sets_of_whole⟩

/-- Without bars outside sets a text is one branch. -/
theorem steps_of_denotes {text : List Char} {tokens : List Token} {t : Pattern}
    (h : Denotes text t) (hlexed : Lexed text tokens)
    (hbars : ∀ before after, tokens = before ++ .bar :: after →
      (Scopes.start.through before).sets ≠ 0) :
    ∃ after, Derives (.steps .sequence (.empty [.latin1]) after) text [] ∧ Joined after.items t := by
  obtain ⟨values, hbranches, hvalue⟩ := h
  cases hbranches with
  | @lastBranch _ after _ _ p h hjoined =>
    cases hvalue with
    | one => exact ⟨after, h, hjoined⟩
    | plain hmany | set hmany => simp at hmany
    | mixed hmany =>
      have hle := List.length_filter_le Pattern.matchesSinglePosition [p]
      rw [List.length_singleton] at hle
      omega
  | branch h =>
    obtain ⟨before, others, rfl, hsets⟩ := h.exists_bar hlexed
    exact absurd hsets (hbars before others rfl)

/-! ## Values that are refused -/

/-- A string that is no byte is refused under a caret. -/
theorem stringValue_inverted {casing : Casing} {body : List Char} {charsets : List Charset}
    (hencodable : ∀ charset ∈ charsets, (charset.encode? body).isSome = true)
    (h : (quotedValue casing body charsets).toggled? = none) :
    stringValue casing body charsets true = .error (.invertedString casing) := by
  obtain ⟨encodings, hmap⟩ := exists_encodings hencodable
  rw [stringValue, hmap]
  simp only [bind, Except.bind]
  split
  · obtain ⟨rfl, hbytes⟩ := mapM_encoded_eq_ok.mp hmap
    have hencode := hbytes _ (List.mem_cons_self ..)
    simp [quotedValue, hencode, Pattern.toggled?] at h
  · rfl

theorem run_of_fixed {charsets : List Charset} {text : List Char}
    (h : Fixed charsets text) (position : Nat) :
    ∃ e, run Branches.merged ⟨.whole [], ⟨[], .inversion, charsets⟩⟩ ⟨text, position⟩ = .error e ∧
      e.cause.fault = .notInvertible := by
  cases h with
  | @any rest =>
    have hspelled : Spelled .any (['.'] ++ rest) rest := .any
    exact ⟨_, run_of_refused hspelled nofun nofun rfl position, rfl⟩
  | @quoted casing body rest hbody hquote hencodable htoggled =>
    have hspelled : Spelled (.quoted casing body)
        ((casing.quote :: (body ++ [casing.quote])) ++ rest) rest := by
      rw [List.cons_append, List.append_assoc]
      exact .quoted hbody hquote
    have haccept : State.accept Branches.merged ⟨.whole [], ⟨[], .inversion, charsets⟩⟩
        (.quoted casing body) = .error (.invertedString casing) := by
      change (stringValue casing body charsets true >>= _) = _
      rw [stringValue_inverted hencodable htoggled]
      rfl
    have hrun := run_of_refused hspelled nofun nofun haccept position
    rw [List.cons_append, List.append_assoc] at hrun
    exact ⟨_, hrun, rfl⟩

/-! ## Whole texts -/

/-- A text that amounts to a single value, with no bar outside sets and
neither a caret nor an opening bracket first. A caret before it toggles
the inversion of the root and changes nothing else, and if the root has
none, the caret is refused. -/
theorem parse_caret {text : List Char} {tokens : List Token} {t : Pattern}
    (h : parse text = .ok t) (hlexed : Lexed text tokens) (hfirst : Plain text)
    (hbars : ∀ before after, tokens = before ++ .bar :: after →
      (Scopes.start.through before).sets ≠ 0)
    (hsequence : ∀ items, t ≠ .sequence items)
    (hquantified : ∀ quantifier p, t ≠ .quantified quantifier p) :
    (∀ t', t.turned? = some t' → parse ('^' :: text) = .ok t') ∧
      (t.turned? = none →
        ∃ e, parse ('^' :: text) = .error e ∧ e.cause.fault = .notInvertible) := by
  obtain ⟨after, hsteps, hjoined⟩ := steps_of_denotes (denotes_of_parse h) hlexed hbars
  have hitems : after.items = [t] := by
    generalize after.items = items at hjoined
    cases hjoined with
    | one => rfl
    | more => exact absurd rfl (hsequence _)
  obtain ⟨hturned, hfixed⟩ := hsteps.turnsAtFirst t rfl rfl hitems hquantified text .nil hfirst
  refine ⟨fun t' ht' => ?_, fun hnone => ?_⟩
  · have hdenotes : Denotes ('^' :: text) t' := ⟨[t'], .lastBranch (hturned t' ht') .one, .one⟩
    exact hdenotes.parse_eq_ok
  · obtain ⟨operand, hgap, hoperand⟩ := hfixed hnone
    have hcaret : Reads Branches.merged .start ('^' :: text)
        ⟨.whole [], ⟨[], .inversion, [.latin1]⟩⟩ text :=
      .of_accept .caret (State.accept_caret.mpr ⟨rfl, rfl⟩) nofun
    obtain ⟨position, hmoves⟩ := hcaret.trans (.of_gap hgap) 0
    obtain ⟨e, hrun, hfault⟩ := run_of_fixed hoperand position
    refine ⟨e, ?_, hfault⟩
    rw [parse_eq_run (List.cons_ne_nil _ _)]
    exact (run_eq_of_moves hmoves).trans hrun

/-- The first bound of a range hands the inversion on. -/
theorem parse_caret_range :
    parse "01 -02".toList = .ok (.range 0x01 0x02 false) ∧
      parse "^01 -02".toList = .ok (.range 0x01 0x02 true) := by
  have hread : parse "01 -02".toList = .ok (.range 0x01 0x02 false) := by
    with_unfolding_all rfl
  have hlow : ByteSpelling "01 -02".toList ['0', '1'] ⟨0x01, 0xff⟩ " -02".toList := .pair rfl rfl
  have hhigh : ByteSpelling "02".toList ['0', '2'] ⟨0x02, 0xff⟩ [] := .pair rfl rfl
  have hlexed : Lexed "01 -02".toList
      [.byte ⟨0x01, 0xff⟩, .gap, .dash, .byte ⟨0x02, 0xff⟩] :=
    .cons (.byte hlow) (.cons (.gap (.blank (by decide))) (.cons .dash (.cons (.byte hhigh) .nil)))
  have hbars : ∀ before after, [.byte ⟨0x01, 0xff⟩, .gap, .dash, .byte ⟨0x02, 0xff⟩] =
      before ++ Token.bar :: after → (Scopes.start.through before).sets ≠ 0 := by
    intro before after htokens
    have hmem : Token.bar ∈ before ++ Token.bar :: after := by simp
    rw [← htokens] at hmem
    exact absurd hmem (by decide)
  obtain ⟨hturned, -⟩ := parse_caret hread hlexed (plain_cons (by decide)) hbars nofun nofun
  exact ⟨hread, hturned _ rfl⟩

end OctetPattern
