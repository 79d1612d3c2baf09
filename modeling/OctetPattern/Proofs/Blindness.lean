import OctetPattern.Proofs.Splicing

/-!
# Sets ignore charsets

A set is about bytes: its strings are one byte per character whatever
charsets are active, and the directives in it come to nothing. So the
charsets before a set cannot be told from it (`readSet_agree`), they are
the same after it, and a directive in a set might as well be left out
(`parse_without_directive`).

All three come from one relation between two readers in a set. `Abreast`
lets them differ in the charsets of the levels in that set, and `Onward`
says where they are after a token: still abreast, or outside with the same
set stored, each with the charsets it had before. Every token takes both
readers onward or refuses both for the same cause (`Abreast.accept`).
-/

namespace OctetPattern

/-! ## Two readers in a set -/

/-- The levels differ in nothing but charsets. -/
structure Level.Resembles (l m : Level) : Prop where
  items : l.items = m.items
  pending : l.pending = m.pending

/-- Sets are open in the same way, the outermost of them on one level or
the other, and differ in nothing but charsets. -/
inductive Context.InSets (outer outer' : Level) (outside : Context) : Context → Context → Prop
  | outermost : InSets outer outer' outside (.set outer outside) (.set outer' outside)
  | inner {level level' : Level} {c d : Context} (hlevel : level.Resembles level')
      (h : InSets outer outer' outside c d) :
      InSets outer outer' outside (.set level c) (.set level' d)

/-- The readers are in the same sets and differ in nothing but charsets. -/
structure State.Abreast (outer outer' : Level) (outside : Context) (s t : State) : Prop where
  context : Context.InSets outer outer' outside s.context t.context
  level : s.level.Resembles t.level

/-- The readers are in the same sets, or they have left the outermost of
them and stored it in the same way. -/
inductive State.Onward (outer outer' : Level) (outside : Context) : State → State → Prop
  | inside {s t : State} (h : State.Abreast outer outer' outside s t) :
      Onward outer outer' outside s t
  | left {members items : List Pattern}
      (hstores : outer.pending.Stores (.set members false) outer.items items) :
      Onward outer outer' outside ⟨outside, ⟨items, .none, outer.charsets⟩⟩
        ⟨outside, ⟨items, .none, outer'.charsets⟩⟩

theorem Level.Resembles.refl (l : Level) : l.Resembles l :=
  ⟨rfl, rfl⟩

theorem Level.Resembles.store {l m : Level} (h : l.Resembles m) (value : Pattern) :
    Agree Eq Level.Resembles (l.store value) (m.store value) := by
  rw [Level.store, Level.store, h.items, h.pending]
  refine (agree_refl (fun _ => rfl) _).map ?_
  rintro items _ rfl
  exact ⟨rfl, rfl⟩

namespace State.Abreast

variable {combine : Combine} {outer outer' : Level} {outside : Context} {s t : State}

theorem inSet (h : Abreast outer outer' outside s t) : s.inSet = true ∧ t.inSet = true := by
  obtain ⟨context, level⟩ := s
  obtain ⟨context', level'⟩ := t
  obtain ⟨hcontext, hlevel⟩ := h
  cases hcontext with
  | outermost => exact ⟨rfl, rfl⟩
  | inner hlevel h => exact ⟨rfl, rfl⟩

theorem store (h : Abreast outer outer' outside s t) (value : Pattern) :
    Agree Eq (Onward outer outer' outside) (s.store value) (t.store value) :=
  (h.level.store value).map fun _ _ hlevel => .inside ⟨h.context, hlevel⟩

theorem onPending (h : Abreast outer outer' outside s t) {f g : Pending → Except Cause Pending}
    (hfg : f s.level.pending = g t.level.pending) :
    Agree Eq (Onward outer outer' outside) (s.onPending f) (t.onPending g) := by
  simp only [State.onPending, State.onLevel, hfg]
  cases g t.level.pending with
  | error cause => exact rfl
  | ok pending => exact .inside ⟨h.context, h.level.items, rfl⟩

/-! ### Any token -/

theorem openSet (h : Abreast outer outer' outside s t) :
    Onward outer outer' outside s.openSet t.openSet :=
  .inside ⟨.inner h.level h.context, rfl, rfl⟩

theorem store_outside (houter : outer.Resembles outer') {members : List Pattern}
    {value : Pattern} (hvalue : outer.pending.operand? (.set members false) = some value) :
    Agree Eq (Onward outer outer' outside) (State.store ⟨outside, outer⟩ value)
      (State.store ⟨outside, outer'⟩ value) := by
  simp only [State.store, State.onLevel, Level.store, ← houter.items, ← houter.pending]
  cases hstore : outer.pending.store value outer.items with
  | error cause => exact rfl
  | ok items => exact .left ⟨value, hvalue, hstore⟩

/-- The set that is closed is stored on the level outside of it. Outside
of the outermost set the readers may differ for good. -/
theorem closeSet (houter : outer.Resembles outer') (h : Abreast outer outer' outside s t) :
    Agree Eq (Onward outer outer' outside) s.closeSet t.closeSet := by
  obtain ⟨context, items, pending, charsets⟩ := s
  obtain ⟨context', items', pending', charsets'⟩ := t
  obtain ⟨hcontext, rfl, rfl⟩ := h
  cases hcontext with
  | outermost =>
    have hset : Level.set ⟨items, pending, charsets'⟩ = Level.set ⟨items, pending, charsets⟩ := rfl
    simp only [State.closeSet, hset, ← houter.pending]
    cases hvalue : Level.set ⟨items, pending, charsets⟩ outer.pending.invertsValue with
    | error cause => exact rfl
    | ok value =>
      obtain ⟨-, -, rfl⟩ := Level.set_eq_ok.mp hvalue
      exact store_outside houter (Pending.operand?_set outer.pending items.reverse)
  | @inner level level' c d hlevel h =>
    simp only [State.closeSet, hlevel.pending]
    refine agree_bind_self (fun _ => rfl) _ fun value => ?_
    exact State.Abreast.store ⟨h, hlevel⟩ value

/-- A sign of sequences is refused in a set, whatever the set. -/
theorem accept_sign (h : Abreast outer outer' outside s t) {token : Token}
    (htoken : token = .bar ∨ token = .closeGroup) :
    Agree Eq (Onward outer outer' outside) (s.accept combine token) (t.accept combine token) := by
  obtain ⟨context, level⟩ := s
  obtain ⟨context', level'⟩ := t
  obtain ⟨hcontext, hlevel⟩ := h
  cases hcontext with
  | outermost => rcases htoken with rfl | rfl <;> exact rfl
  | inner hlevel h => rcases htoken with rfl | rfl <;> exact rfl

variable (combine) in
theorem accept (houter : outer.Resembles outer') (h : Abreast outer outer' outside s t)
    (token : Token) :
    Agree Eq (Onward outer outer' outside) (s.accept combine token) (t.accept combine token) := by
  obtain ⟨hs, ht⟩ := h.inSet
  cases token with
  | gap => exact .inside h
  | bar => exact h.accept_sign (.inl rfl)
  | openGroup => simp only [State.accept, State.openGroup, hs, ht, if_true, Agree]
  | closeGroup => exact h.accept_sign (.inr rfl)
  | openSet => exact h.openSet
  | closeSet => exact h.closeSet houter
  | caret => exact h.onPending (h.level.pending ▸ rfl)
  | dash =>
    exact h.onPending (f := (·.openRange s.level.items)) (g := (·.openRange t.level.items))
      (by rw [h.level.items, h.level.pending])
  | tilde => exact h.onPending (h.level.pending ▸ rfl)
  | any =>
    simp only [State.accept, State.anyByte, hs, ht, h.level.pending]
    split
    · exact rfl
    · exact h.store .any
  | directive charsets => exact .inside ⟨h.context, h.level.items, h.level.pending⟩
  | quantifier quantifier => simp only [State.accept, State.quantify, hs, ht, if_true, Agree]
  | quoted casing text =>
    simp only [State.accept, State.quoted, State.stringCharsets, hs, ht, if_true, h.level.pending]
    exact agree_bind_self (fun _ => rfl) _ h.store
  | escape escape =>
    rw [State.accept, State.accept, h.level.pending]
    exact h.store _
  | byte bits =>
    rw [State.accept, State.accept, h.level.pending]
    exact h.store _
  | other c => exact rfl

theorem permit (h : Abreast outer outer' outside s t) (lead : Lead) :
    s.permit lead = t.permit lead := by
  obtain ⟨hs, ht⟩ := h.inSet
  cases lead with
  | directive => rw [State.permit, State.permit, h.level.pending]
  | repetition => simp only [State.permit, hs, ht, if_true]
  | whole | comment | quote | backslash | digit => rfl

end State.Abreast

/-! ## Reading a set -/

/-- How many groups and sets are open. -/
def Context.depth : Context → Nat
  | .whole _ => 0
  | .group _ _ outside | .set _ outside => outside.depth + 1

/-- Reads on until no more than so many groups and sets are open. It is
meant for a set: another must not be closed by the end of the text. -/
def readOut (combine : Combine) (depth : Nat) (s : State) (c : Cursor) :
    Except SyntaxError (State × Cursor) :=
  match _next : c.next? with
  | none => .error ⟨.unclosedSet, c.position⟩
  | some (first, c₁) =>
    match _stepped : step combine s first c₁ with
    | .error e => .error e
    | .ok (next, c₂) =>
      if next.context.depth ≤ depth then .ok (next, c₂) else readOut combine depth next c₂
termination_by c.rest.length
decreasing_by
  exact Nat.lt_of_le_of_lt (reaches_step _stepped).length_le (Cursor.length_next_lt _next)

/-- Reads a set after its opening bracket, up to the closing one. The
outcome is the state with the set among its items. -/
def readSet (combine : Combine) (s : State) (c : Cursor) : Except SyntaxError (State × Cursor) :=
  readOut combine s.context.depth s.openSet c

theorem State.Abreast.step (combine : Combine) {outer outer' : Level} {outside : Context}
    {s t : State} (houter : outer.Resembles outer') (h : Abreast outer outer' outside s t)
    (first : Char) (c : Cursor) :
    Agree Eq (fun x y => Onward outer outer' outside x.1 y.1 ∧ x.2 = y.2)
      (OctetPattern.step combine s first c) (OctetPattern.step combine t first c) := by
  simp only [OctetPattern.step, h.permit]
  refine agree_bind_self (fun _ => rfl) _ fun _ => ?_
  refine agree_bind_self (fun _ => rfl) _ fun token => ?_
  refine ((h.accept combine houter token).placed ?_).bind fun _ _ hnext => ⟨hnext, rfl⟩
  rintro cause _ rfl
  rfl

theorem readOut_of_end {combine : Combine} {depth : Nat} {s : State} {c : Cursor}
    (h : c.next? = none) : readOut combine depth s c = .error ⟨.unclosedSet, c.position⟩ := by
  rw [readOut]
  split
  · rfl
  · rename_i hnext
    rw [h] at hnext
    cases hnext

theorem readOut_of_next {combine : Combine} {depth : Nat} {s : State} {c after : Cursor}
    {first : Char} (h : c.next? = some (first, after)) :
    readOut combine depth s c = (step combine s first after).bind fun (next, c) =>
      if next.context.depth ≤ depth then .ok (next, c) else readOut combine depth next c := by
  rw [readOut]
  split
  · rename_i hnext
    rw [h] at hnext
    cases hnext
  · rename_i hnext
    obtain ⟨rfl, rfl⟩ := Prod.mk.inj (Option.some.inj (h.symm.trans hnext))
    split <;> (rename_i hstep; rw [hstep]; rfl)

section
variable {combine : Combine} {outer outer' : Level} {outside : Context} {s t : State}

theorem Context.InSets.depth {c d : Context} (h : InSets outer outer' outside c d) :
    c.depth = d.depth ∧ outside.depth < c.depth := by
  induction h with
  | outermost => exact ⟨rfl, Nat.lt_succ_self _⟩
  | inner hlevel h ih =>
    obtain ⟨heq, hlt⟩ := ih
    exact ⟨congrArg Nat.succ heq, Nat.lt_succ_of_lt hlt⟩

theorem State.Onward.depth_eq (h : Onward outer outer' outside s t) :
    s.context.depth = t.context.depth := by
  cases h with
  | inside h => exact h.context.depth.1
  | left hstores => rfl

theorem State.Onward.abreast (h : Onward outer outer' outside s t)
    (hdepth : ¬ s.context.depth ≤ outside.depth) : Abreast outer outer' outside s t := by
  cases h with
  | inside h => exact h
  | left hstores => exact absurd (Nat.le_refl _) hdepth

theorem State.Onward.stored (h : Onward outer outer' outside s t)
    (hdepth : s.context.depth ≤ outside.depth) :
    ∃ members items, outer.pending.Stores (.set members false) outer.items items ∧
      s = ⟨outside, ⟨items, .none, outer.charsets⟩⟩ ∧
      t = ⟨outside, ⟨items, .none, outer'.charsets⟩⟩ := by
  cases h with
  | inside h => exact absurd h.context.depth.2 (Nat.not_lt.mpr hdepth)
  | left hstores => exact ⟨_, _, hstores, rfl, rfl⟩

/-- The same set, read to the same place, with the charsets before it on
either side. -/
def SameSet (outer outer' : Level) (outside : Context) (x y : State × Cursor) : Prop :=
  ∃ members items after, outer.pending.Stores (.set members false) outer.items items ∧
    x = (⟨outside, ⟨items, .none, outer.charsets⟩⟩, after) ∧
    y = (⟨outside, ⟨items, .none, outer'.charsets⟩⟩, after)

theorem readOut_agree (houter : outer.Resembles outer')
    (h : State.Abreast outer outer' outside s t) (c : Cursor) :
    Agree Eq (SameSet outer outer' outside) (readOut combine outside.depth s c)
      (readOut combine outside.depth t c) := by
  fun_induction readOut combine outside.depth s c generalizing t with
  | case1 s c hnext =>
    rw [readOut_of_end hnext]
    exact rfl
  | case2 s c first c₁ hnext e hstep =>
    have hagree := h.step combine houter first c₁
    rw [readOut_of_next hnext]
    rw [hstep] at hagree
    obtain ⟨_, ht, rfl⟩ := agree_error.mp hagree
    rw [ht]
    exact rfl
  | case3 s c first c₁ hnext next c₂ hstep hdepth =>
    have hagree := h.step combine houter first c₁
    rw [readOut_of_next hnext]
    rw [hstep] at hagree
    obtain ⟨⟨next', _⟩, ht, honward, rfl⟩ := agree_ok.mp hagree
    obtain ⟨members, items, hstores, rfl, rfl⟩ := honward.stored hdepth
    rw [ht]
    simp only [Except.bind, if_pos hdepth]
    exact ⟨members, items, c₂, hstores, rfl, rfl⟩
  | case4 s c first c₁ hnext next c₂ hstep hdepth ih =>
    have hagree := h.step combine houter first c₁
    rw [readOut_of_next hnext]
    rw [hstep] at hagree
    obtain ⟨⟨next', _⟩, ht, honward, rfl⟩ := agree_ok.mp hagree
    have hdepth' : ¬ next'.context.depth ≤ outside.depth := honward.depth_eq ▸ hdepth
    rw [ht]
    simp only [Except.bind, if_neg hdepth']
    exact ih (honward.abreast hdepth)

/-- From a set on, a run reads that set and goes on after it. -/
theorem run_eq_readOut (h : State.Abreast outer outer outside s s) (c : Cursor) :
    run combine s c = (readOut combine outside.depth s c).bind fun (next, after) =>
      run combine next after := by
  fun_induction readOut combine outside.depth s c with
  | case1 s c hnext =>
    obtain ⟨context, level⟩ := s
    obtain ⟨hcontext, -⟩ := h
    rw [run_of_end hnext]
    cases hcontext with
    | outermost => rfl
    | inner hlevel h => rfl
  | case2 s c first c₁ hnext e hstep =>
    rw [run_of_next hnext, hstep]
  | case3 s c first c₁ hnext next c₂ hstep hdepth =>
    rw [run_of_next hnext, hstep]
  | case4 s c first c₁ hnext next c₂ hstep hdepth ih =>
    have hagree := h.step combine (.refl outer) first c₁
    rw [hstep] at hagree
    obtain ⟨honward, -⟩ : State.Onward outer outer outside next next ∧ c₂ = c₂ := hagree
    rw [run_of_next hnext, hstep]
    exact ih (honward.abreast hdepth)

end

/-- At an opening bracket a run reads a set and goes on after it. -/
theorem run_openSet (combine : Combine) (s : State) (text : List Char) (position : Nat) :
    run combine s ⟨'[' :: text, position⟩ =
      (readSet combine s ⟨text, position + 1⟩).bind fun (next, after) =>
        run combine next after := by
  have hstep : step combine s '[' ⟨text, position + 1⟩ =
      .ok (s.openSet, ⟨text, position + 1⟩) := rfl
  rw [run_of_next rfl, hstep]
  exact run_eq_readOut ⟨.outermost, .refl _⟩ _

/-- Two readers that differ in the active charsets read the same set, or
refuse it for the same cause at the same place. -/
theorem readSet_agree (combine : Combine) (context : Context) (items : List Pattern)
    (pending : Pending) (charsets charsets' : List Charset) (c : Cursor) :
    Agree Eq (SameSet ⟨items, pending, charsets⟩ ⟨items, pending, charsets'⟩ context)
      (readSet combine ⟨context, ⟨items, pending, charsets⟩⟩ c)
      (readSet combine ⟨context, ⟨items, pending, charsets'⟩⟩ c) := by
  have habreast : State.Abreast ⟨items, pending, charsets⟩ ⟨items, pending, charsets'⟩ context
      (State.openSet ⟨context, ⟨items, pending, charsets⟩⟩)
      (State.openSet ⟨context, ⟨items, pending, charsets'⟩⟩) :=
    ⟨.outermost, rfl, rfl⟩
  have houter : Level.Resembles ⟨items, pending, charsets⟩ ⟨items, pending, charsets'⟩ :=
    ⟨rfl, rfl⟩
  exact readOut_agree houter habreast c

/-! ## Directives in sets -/

/-- Up to its closing bracket a directive is one token. -/
theorem Spelled.of_directive {names after rest : List Char} {token : Token}
    (hclose : ')' ∉ names) (h : Spelled token ('(' :: '*' :: (names ++ ')' :: after)) rest) :
    (∃ charsets, token = .directive charsets) ∧ rest = after := by
  obtain ⟨position, hread⟩ := Token.read_complete h 0
  obtain ⟨charsets, hdirective, rfl⟩ := Reading.map_eq_ok.mp hread
  simp only [Cursor.readDirective, Cursor.skip, Cursor.readUntil_append hclose] at hdirective
  obtain ⟨-, hafter⟩ := Prod.mk.inj hdirective
  exact ⟨⟨charsets, rfl⟩, (congrArg Cursor.rest hafter).symm⟩

/-- A set takes no quantifiers. -/
theorem head?_ne_asterisk_of_inSet {combine : Combine} {s last : State} {text : List Char}
    {tokens : List Token} (hset : s.inSet = true) (hlexed : Lexed text tokens)
    (haccepts : s.AcceptsAll combine tokens last) : text.head? ≠ some '*' := by
  intro hhead
  cases hlexed with
  | nil => cases hhead
  | cons hfirst others =>
    obtain ⟨first, text, rfl⟩ := hfirst.exists_cons
    obtain rfl := Option.some.inj hhead
    obtain ⟨rfl, -⟩ := hfirst.unique (.quantifier .zeroToMany)
    cases haccepts with
    | cons haccept hothers =>
      have hrefused := haccept.1
      simp only [State.accept, State.quantify, hset, if_true] at hrefused
      cases hrefused

theorem Follows.inSet_of_sets {context : Context} {level : Level} {charsets : List Charset}
    {scopes : Scopes} (h : Follows context charsets scopes) (hset : scopes.sets ≠ 0) :
    State.inSet ⟨context, level⟩ = true := by
  cases h with
  | whole => exact absurd rfl hset
  | group h => exact absurd rfl hset
  | set h => rfl

section
variable {combine : Combine} {outer : Level} {outside : Context} {s t last : State}

/-- Readers that are abreast accept the same tokens. Once out of the set,
they do not differ any more. -/
theorem State.Abreast.acceptsAll (h : Abreast outer outer outside s t) {tokens : List Token}
    (haccepts : s.AcceptsAll combine tokens last) :
    ∃ last', t.AcceptsAll combine tokens last' ∧
      (Abreast outer outer outside last last' ∨ last = last') := by
  induction haccepts generalizing t with
  | @nil s => exact ⟨t, .nil, .inl h⟩
  | @cons s next last token tokens haccept others ih =>
    have hagree := h.accept combine (.refl outer) token
    rw [haccept.1] at hagree
    obtain ⟨next', hnext', honward⟩ := agree_ok.mp hagree
    have haccept' : t.Accepts combine token next' :=
      ⟨hnext', fun charsets htoken => h.level.pending ▸ haccept.2 charsets htoken⟩
    cases honward with
    | inside hinside =>
      obtain ⟨last', hothers, hlast⟩ := ih hinside
      exact ⟨last', .cons haccept' hothers, hlast⟩
    | left hstores => exact ⟨last, .cons haccept' others, .inr rfl⟩

theorem State.finish_of_inSet (h : s.inSet = true) :
    s.finish combine = .error .unclosedSet := by
  obtain ⟨context, level⟩ := s
  cases context with
  | set => rfl
  | whole | group => cases h

end

/-- A directive in a set can be left out. -/
theorem parse_without_directive {before names after : List Char} {tokens : List Token}
    {p : Pattern} (hclose : ')' ∉ names)
    (htokens : LexedUpTo ('(' :: '*' :: (names ++ ')' :: after))
      (before ++ '(' :: '*' :: (names ++ ')' :: after)) tokens)
    (hset : (Scopes.start.through tokens).sets ≠ 0)
    (h : parse (before ++ '(' :: '*' :: (names ++ ')' :: after)) = .ok p) :
    parse (before ++ after) = .ok p := by
  obtain ⟨all, last, hlexed, haccepts, hfinish⟩ := exists_tokens (run_of_parse h)
  obtain ⟨directed, rfl, hdirected⟩ := htokens.splits hlexed
  obtain ⟨s, hbefore, hafter⟩ := haccepts.split
  have hinSet : s.inSet = true := (Follows.whole.acceptsAll hbefore).inSet_of_sets hset
  cases hdirected with
  | @cons token others text rest hdirective hothers =>
    obtain ⟨⟨charsets, rfl⟩, rfl⟩ := hdirective.of_directive hclose
    cases hafter with
    | @cons _ next _ _ _ haccept hrest =>
      obtain rfl : s.direct charsets = next := Except.ok.inj haccept.1
      -- without the directive the reader has other charsets for the set
      obtain ⟨context, level⟩ := s
      cases context with
      | whole | group => cases hinSet
      | set outer outside =>
        have habreast : State.Abreast outer outer outside
            (State.direct ⟨.set outer outside, level⟩ charsets) ⟨.set outer outside, level⟩ :=
          ⟨.outermost, rfl, rfl⟩
        obtain ⟨last', hrest', hlast⟩ := habreast.acceptsAll hrest
        have hhead := head?_ne_asterisk_of_inSet hinSet hothers hrest'
        obtain ⟨before', hbefore', hshorter⟩ :=
          htokens.exchange (List.cons_ne_nil _ _) hhead hothers
        obtain rfl : before = before' := List.append_cancel_right hbefore'
        rcases hlast with hlast | rfl
        · rw [State.finish_of_inSet hlast.inSet.1] at hfinish
          cases hfinish
        · exact parse_of_tokens hshorter (hbefore.append hrest') hfinish

/-- A run reads a set at every opening bracket. What it reads does not
depend on the charsets before the set: the same set up to the same place,
and the charsets are again those before it, or the same failure. A
directive among the tokens of a set can be left out of a text. -/
theorem sets_ignore_charsets (combine : Combine) :
    (∀ s text position, run combine s ⟨'[' :: text, position⟩ =
      (readSet combine s ⟨text, position + 1⟩).bind fun (next, after) =>
        run combine next after) ∧
    (∀ context items pending charsets charsets' c,
      Agree Eq (SameSet ⟨items, pending, charsets⟩ ⟨items, pending, charsets'⟩ context)
        (readSet combine ⟨context, ⟨items, pending, charsets⟩⟩ c)
        (readSet combine ⟨context, ⟨items, pending, charsets'⟩⟩ c)) ∧
    (∀ before names after tokens p, ')' ∉ names →
      LexedUpTo ('(' :: '*' :: (names ++ ')' :: after))
        (before ++ '(' :: '*' :: (names ++ ')' :: after)) tokens →
      (Scopes.start.through tokens).sets ≠ 0 →
      parse (before ++ '(' :: '*' :: (names ++ ')' :: after)) = .ok p →
      parse (before ++ after) = .ok p) :=
  ⟨run_openSet combine, readSet_agree combine,
    fun _ _ _ _ _ hclose htokens hset h => parse_without_directive hclose htokens hset h⟩

/-- In two sets a directive makes no difference to a letter that it would
spell with two bytes. -/
theorem sets_ignore_charsets_nested :
    parse "[[00(*utf8)'é']]".toList =
        .ok (.set [.set [.byte 0 false, .byte 0xE9 false] false] false) ∧
      parse "[[00'é']]".toList =
        .ok (.set [.set [.byte 0 false, .byte 0xE9 false] false] false) := by
  have hread : parse "[[00(*utf8)'é']]".toList =
      .ok (.set [.set [.byte 0 false, .byte 0xE9 false] false] false) := by
    with_unfolding_all rfl
  have htokens : LexedUpTo "(*utf8)'é']]".toList "[[00(*utf8)'é']]".toList
      [.openSet, .openSet, .byte (.ofHexPair '0' '0')] :=
    .cons .openSet (.cons .openSet (.cons (.byte (.pair (by decide) (by decide))) .nil))
  obtain ⟨-, -, hdelete⟩ := sets_ignore_charsets Branches.merged
  have hshorter := hdelete "[[00".toList "utf8".toList "'é']]".toList _ _ (by decide) htokens
    (by decide) hread
  exact ⟨hread, hshorter⟩

end OctetPattern
