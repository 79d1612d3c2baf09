import OctetPattern.Proofs.Running
import OctetPattern.Proofs.Strings

/-!
# Scopes of charsets

A directive is in force up to the end of its group or set. Which charsets
a quoted text is read under can therefore be told from the tokens before
it: `Scopes` is what a walk over them keeps, a stack with one entry for
each open group and the number of open sets. A walk through a group or a
set ends where it began (`Scopes.through_group`, `Scopes.through_set`).

The reader has no such stack, but its levels grow and shrink with it
(`Follows`, kept by every token: `Follows.accepts`), so its charsets are
the top of the stack. With the ledger of strings this says of every text
that is read which charsets the strings of its pattern have
(`charsets_scoped`).
-/

namespace OctetPattern

/-! ## The tokens of a text -/

/-- The text is these tokens, one after another. -/
inductive Lexed : List Char → List Token → Prop
  | nil : Lexed [] []
  | cons {token : Token} {tokens : List Token} {text rest : List Char}
      (h : Spelled token text rest) (others : Lexed rest tokens) : Lexed text (token :: tokens)

theorem Spelled.unique {token token' : Token} {text rest rest' : List Char}
    (h : Spelled token text rest) (h' : Spelled token' text rest') :
    token = token' ∧ rest = rest' := by
  obtain ⟨first, text, rfl⟩ := h.exists_cons
  obtain ⟨position, hread⟩ := Token.read_complete h 0
  obtain ⟨position', hread'⟩ := Token.read_complete h' 0
  cases hread.symm.trans hread'
  exact ⟨rfl, rfl⟩

theorem Lexed.unique {text : List Char} {tokens tokens' : List Token} (h : Lexed text tokens)
    (h' : Lexed text tokens') : tokens = tokens' := by
  induction h generalizing tokens' with
  | nil =>
    cases h' with
    | nil => rfl
    | cons hfirst others => exact absurd rfl hfirst.ne_nil
  | cons hfirst others ih =>
    cases h' with
    | nil => exact absurd rfl hfirst.ne_nil
    | cons hfirst' others' =>
      obtain ⟨rfl, rfl⟩ := hfirst.unique hfirst'
      rw [ih others']

/-- The state accepts the tokens, one after another. -/
inductive State.AcceptsAll (combine : Combine) : State → List Token → State → Prop
  | nil {s : State} : AcceptsAll combine s [] s
  | cons {s next last : State} {token : Token} {tokens : List Token}
      (h : s.Accepts combine token next) (others : AcceptsAll combine next tokens last) :
      AcceptsAll combine s (token :: tokens) last

theorem State.AcceptsAll.split {combine : Combine} {s last : State} {before after : List Token}
    (h : s.AcceptsAll combine (before ++ after) last) :
    ∃ middle, s.AcceptsAll combine before middle ∧ middle.AcceptsAll combine after last := by
  induction before generalizing s with
  | nil => exact ⟨s, .nil, h⟩
  | cons token before ih =>
    cases h with
    | cons hfirst others =>
      obtain ⟨middle, hbefore, hafter⟩ := ih others
      exact ⟨middle, .cons hfirst hbefore, hafter⟩

theorem State.AcceptsAll.append {combine : Combine} {s middle last : State}
    {before after : List Token} (h : s.AcceptsAll combine before middle)
    (h' : middle.AcceptsAll combine after last) : s.AcceptsAll combine (before ++ after) last := by
  induction h with
  | nil => exact h'
  | cons hfirst _ ih => exact .cons hfirst (ih h')

/-- A run that succeeds reads tokens up to the end and accepts them all. -/
theorem exists_tokens {combine : Combine} {s : State} {c : Cursor} {p : Pattern}
    (h : run combine s c = .ok p) :
    ∃ tokens last, Lexed c.rest tokens ∧ s.AcceptsAll combine tokens last ∧
      last.finish combine = .ok p := by
  refine run_induction (motive := fun s c => ∃ tokens last, Lexed c.rest tokens ∧
    s.AcceptsAll combine tokens last ∧ last.finish combine = .ok p) ?_ ?_ h
  · intro s c hend hfinish
    exact ⟨[], s, hend ▸ .nil, .nil, hfinish⟩
  · rintro s c s' c' hmove ⟨tokens, last, hlexed, haccepts, hfinish⟩
    obtain ⟨token, hspelled, haccept⟩ := spelled_of_move hmove
    exact ⟨token :: tokens, last, .cons hspelled hlexed, .cons haccept haccepts, hfinish⟩

/-! ## A walk over the tokens -/

/-- What a walk keeps: a stack of charsets with one entry for each open
group below the first, and how many sets are open. -/
structure Scopes where
  /-- The top of the stack. -/
  active : List Charset
  outer : List (List Charset)
  sets : Nat

namespace Scopes

def start : Scopes :=
  ⟨[.latin1], [], 0⟩

/-- A group starts with a copy of the top, and a directive replaces the
top, unless it is in a set. -/
def after (scopes : Scopes) : Token → Scopes
  | .openGroup => { scopes with outer := scopes.active :: scopes.outer }
  | .closeGroup =>
    match scopes.outer with
    | [] => scopes
    | active :: outer => { scopes with active, outer }
  | .openSet => { scopes with sets := scopes.sets + 1 }
  | .closeSet => { scopes with sets := scopes.sets - 1 }
  | .directive charsets => if scopes.sets = 0 then { scopes with active := charsets } else scopes
  | .gap | .bar | .caret | .dash | .tilde | .any | .quantifier _ | .quoted _ _ | .escape _
  | .byte _ | .other _ => scopes

def through (scopes : Scopes) (tokens : List Token) : Scopes :=
  tokens.foldl after scopes

/-- The charsets of a quoted text at this place. -/
def charsets (scopes : Scopes) : List Charset :=
  if scopes.sets = 0 then scopes.active else [.latin1]

/-- What a token stands for, if it is a quoted text. -/
def value? (scopes : Scopes) : Token → Option Pattern
  | .quoted casing body => some (quotedValue casing body scopes.charsets)
  | _ => none

/-- What the quoted texts among the tokens stand for. -/
def values : Scopes → List Token → List Pattern
  | _, [] => []
  | scopes, token :: tokens => (scopes.value? token).toList ++ values (scopes.after token) tokens

end Scopes

def Token.isBracket : Token → Bool
  | .openGroup | .closeGroup | .openSet | .closeSet => true
  | .gap | .bar | .caret | .dash | .tilde | .any | .directive _ | .quantifier _ | .quoted _ _
  | .escape _ | .byte _ | .other _ => false

/-- Every group and every set that is opened among the tokens is closed
among them, and no other. -/
inductive Balanced : List Token → Prop
  | nil : Balanced []
  | plain {token : Token} {tokens : List Token} (h : token.isBracket = false)
      (others : Balanced tokens) : Balanced (token :: tokens)
  | group {inner tokens : List Token} (h : Balanced inner) (others : Balanced tokens) :
      Balanced (.openGroup :: (inner ++ .closeGroup :: tokens))
  | set {inner tokens : List Token} (h : Balanced inner) (others : Balanced tokens) :
      Balanced (.openSet :: (inner ++ .closeSet :: tokens))

namespace Scopes

theorem through_cons (scopes : Scopes) (token : Token) (tokens : List Token) :
    scopes.through (token :: tokens) = (scopes.after token).through tokens := rfl

theorem through_append (scopes : Scopes) (tokens others : List Token) :
    scopes.through (tokens ++ others) = (scopes.through tokens).through others :=
  List.foldl_append

/-- Only the top of the stack may change, and only outside sets. -/
def Keeps (scopes next : Scopes) : Prop :=
  next.outer = scopes.outer ∧ next.sets = scopes.sets ∧
    (scopes.sets ≠ 0 → next.active = scopes.active)

theorem Keeps.trans {scopes next last : Scopes} (h : scopes.Keeps next) (h' : next.Keeps last) :
    scopes.Keeps last := by
  obtain ⟨houter, hsets, hactive⟩ := h
  obtain ⟨houter', hsets', hactive'⟩ := h'
  refine ⟨houter'.trans houter, hsets'.trans hsets, fun hset => ?_⟩
  exact (hactive' (hsets ▸ hset)).trans (hactive hset)

theorem keeps_after (scopes : Scopes) {token : Token} (h : token.isBracket = false) :
    scopes.Keeps (scopes.after token) := by
  cases token with
  | openGroup | closeGroup | openSet | closeSet => cases h
  | directive charsets =>
    by_cases hset : scopes.sets = 0
    · simp [after, Keeps, hset]
    · simp [after, Keeps, hset]
  | _ => exact ⟨rfl, rfl, fun _ => rfl⟩

theorem after_closeGroup {scopes next : Scopes} (h : (scopes.after .openGroup).Keeps next) :
    next.after .closeGroup = scopes := by
  obtain ⟨houter, hsets, -⟩ := h
  obtain ⟨active, outer, sets⟩ := next
  obtain rfl : outer = scopes.active :: scopes.outer := houter
  obtain rfl : sets = scopes.sets := hsets
  rfl

theorem after_closeSet {scopes next : Scopes} (h : (scopes.after .openSet).Keeps next) :
    next.after .closeSet = scopes := by
  obtain ⟨houter, hsets, hactive⟩ := h
  obtain ⟨active, outer, sets⟩ := next
  obtain rfl : outer = scopes.outer := houter
  obtain rfl : sets = scopes.sets + 1 := hsets
  obtain rfl : active = scopes.active := hactive (Nat.succ_ne_zero _)
  rfl

theorem keeps_through {tokens : List Token} (h : Balanced tokens) (scopes : Scopes) :
    scopes.Keeps (scopes.through tokens) := by
  induction h generalizing scopes with
  | nil => exact ⟨rfl, rfl, fun _ => rfl⟩
  | plain h others ih => exact (keeps_after scopes h).trans (ih _)
  | group h others ih ihothers =>
    -- the closing bracket leads back to the scopes before the group
    rw [through_cons, through_append, through_cons, after_closeGroup (ih _)]
    exact ihothers scopes
  | set h others ih ihothers =>
    rw [through_cons, through_append, through_cons, after_closeSet (ih _)]
    exact ihothers scopes

/-- What directives say in a group is forgotten at its end. -/
theorem through_group {inner : List Token} (h : Balanced inner) (scopes : Scopes) :
    scopes.through (.openGroup :: (inner ++ [.closeGroup])) = scopes := by
  rw [through_cons, through_append]
  exact after_closeGroup (keeps_through h _)

/-- A directive in a set has no effect at all. -/
theorem through_set {inner : List Token} (h : Balanced inner) (scopes : Scopes) :
    scopes.through (.openSet :: (inner ++ [.closeSet])) = scopes := by
  rw [through_cons, through_append]
  exact after_closeSet (keeps_through h _)

end Scopes

/-! ## The walk and the reader -/

/-- The levels of the reader are those of the walk. -/
inductive Follows : Context → List Charset → Scopes → Prop
  | whole {branches : List Pattern} {charsets : List Charset} :
      Follows (.whole branches) charsets ⟨charsets, [], 0⟩
  | group {branches : List Pattern} {outer : Level} {outside : Context}
      {charsets : List Charset} {stack : List (List Charset)}
      (h : Follows outside outer.charsets ⟨outer.charsets, stack, 0⟩) :
      Follows (.group branches outer outside) charsets ⟨charsets, outer.charsets :: stack, 0⟩
  /-- A set has charsets of its own, but no strings that could tell. -/
  | set {outer : Level} {outside : Context} {charsets active : List Charset}
      {stack : List (List Charset)} {sets : Nat}
      (h : Follows outside outer.charsets ⟨active, stack, sets⟩) :
      Follows (.set outer outside) charsets ⟨active, stack, sets + 1⟩

namespace Follows

variable {context : Context} {active : List Charset} {scopes : Scopes}

theorem place_charsets (h : Follows context active scopes) :
    context.place.charsets active = scopes.charsets := by
  cases h with
  | whole | group => rfl
  | set h => simp [Context.place, Place.charsets, Scopes.charsets]

theorem stringCharsets_eq {s : State} (h : Follows s.context s.level.charsets scopes) :
    s.stringCharsets = scopes.charsets := by
  rw [State.stringCharsets_eq, h.place_charsets]

theorem push (h : Follows context active scopes) {branch : Pattern} {frame : Context}
    (hframe : context.push? branch = some frame) : Follows frame active scopes := by
  cases h with
  | whole =>
    cases hframe
    exact .whole
  | group h =>
    cases hframe
    exact .group h
  | set h => cases hframe

theorem openGroup (h : Follows context active scopes) (hplace : context.place = .sequence)
    (items : List Pattern) (pending : Pending) :
    Follows (.group [] ⟨items, pending, active⟩ context) active (scopes.after .openGroup) := by
  cases h with
  | whole => exact .group .whole
  | group h => exact .group (.group h)
  | set h => cases hplace

theorem direct (h : Follows context active scopes) (charsets : List Charset) :
    Follows context charsets (scopes.after (.directive charsets)) := by
  cases h with
  | whole => exact .whole
  | group h => exact .group h
  | set h => exact .set h

/-- Every token keeps the levels together. -/
theorem accepts {combine : Combine} {s next : State} {token : Token}
    (h : Follows s.context s.level.charsets scopes) (haccept : s.accept combine token = .ok next) :
    Follows next.context next.level.charsets (scopes.after token) := by
  obtain ⟨context, items, pending, charsets⟩ := s
  cases token with
  | gap =>
    cases haccept
    exact h
  | bar =>
    obtain ⟨branch, frame, -, -, hframe, rfl⟩ := State.accept_bar.mp haccept
    exact h.push hframe
  | openGroup =>
    obtain ⟨hplace, rfl, rfl⟩ := State.accept_openGroup.mp haccept
    exact h.openGroup hplace items .none
  | closeGroup =>
    obtain ⟨branches, ⟨items', pending', charsets'⟩, outside, branch, p, rfl, -, -, -, hstore⟩ :=
      State.accept_closeGroup.mp haccept
    obtain ⟨stored, -, rfl⟩ := State.store_eq_ok.mp hstore
    cases h with
    | group h => exact h
  | openSet =>
    obtain rfl := State.accept_openSet.mp haccept
    exact .set h
  | closeSet =>
    obtain ⟨outer, outside, stored, rfl, -, -, -, rfl⟩ := State.accept_closeSet.mp haccept
    cases h with
    | set h => exact h
  | caret | dash | tilde =>
    obtain ⟨waiting, rfl⟩ := State.pending_of_accept (by simp) haccept
    exact h
  | any =>
    obtain ⟨-, rfl⟩ := State.accept_any.mp haccept
    exact h
  | directive charsets' =>
    cases haccept
    exact h.direct charsets'
  | quantifier quantifier =>
    obtain ⟨-, -, operand, others, -, -, rfl⟩ := State.accept_quantifier.mp haccept
    exact h
  | quoted casing body =>
    obtain ⟨-, stored, -, rfl⟩ := State.accept_quoted.mp haccept
    exact h
  | escape escape =>
    obtain ⟨stored, -, rfl⟩ := State.accept_escape.mp haccept
    exact h
  | byte bits =>
    obtain ⟨stored, -, rfl⟩ := State.accept_byte.mp haccept
    exact h
  | other c => cases haccept

theorem acceptsAll {combine : Combine} {s last : State} {tokens : List Token}
    (haccepts : s.AcceptsAll combine tokens last)
    (h : Follows s.context s.level.charsets scopes) :
    Follows last.context last.level.charsets (scopes.through tokens) := by
  induction haccepts generalizing scopes with
  | nil => exact h
  | cons haccept others ih => exact ih (h.accepts haccept.1)

end Follows

/-- What quoted texts stand for is added in the order of the tokens. -/
theorem Holds.acceptsAll {s last : State} {tokens : List Token} {scopes : Scopes}
    {values : Multiset Pattern} (haccepts : s.AcceptsAll Branches.merged tokens last)
    (hfollows : Follows s.context s.level.charsets scopes) (h : Holds s.held values) :
    Holds last.held (values + (scopes.values tokens : Multiset Pattern)) := by
  induction haccepts generalizing scopes values with
  | nil => simpa [Scopes.values] using h
  | @cons s next last token tokens haccept others ih =>
    have hfirst : Holds next.held (values + (scopes.value? token).toList) := by
      cases token with
      | quoted casing body =>
        have hquoted := h.accepts_quoted haccept.1
        rwa [hfollows.stringCharsets_eq] at hquoted
      | _ => simpa [Scopes.value?] using h.accepts haccept.1 nofun
    have hrest := ih (hfollows.accepts haccept.1) hfirst
    rwa [add_assoc] at hrest

/-! ## Quoted texts in a text -/

/-- The tokens amount to the pattern, and the quoted text between them is
read under the charsets: the reader stores what it stands for in these. -/
def ReadUnder (charsets : List Charset) (before : List Token) (casing : Casing)
    (body : List Char) (after : List Token) (p : Pattern) : Prop :=
  ∃ s next last, State.start.AcceptsAll Branches.merged before s ∧ s.stringCharsets = charsets ∧
    s.Accepts Branches.merged (.quoted casing body) next ∧
    s.level.pending.Stores (quotedValue casing body charsets) s.level.items next.level.items ∧
    next.AcceptsAll Branches.merged after last ∧ last.finish Branches.merged = .ok p

theorem readUnder_of_acceptsAll {before after : List Token} {casing : Casing} {body : List Char}
    {last : State} {p : Pattern}
    (h : State.start.AcceptsAll Branches.merged (before ++ .quoted casing body :: after) last)
    (hfinish : last.finish Branches.merged = .ok p) :
    ReadUnder (Scopes.start.through before).charsets before casing body after p := by
  obtain ⟨s, hbefore, hquoted⟩ := h.split
  have hfollows : Follows s.context s.level.charsets (Scopes.start.through before) :=
    Follows.whole.acceptsAll hbefore
  cases hquoted with
  | @cons _ next _ _ _ haccepts hafter =>
    refine ⟨s, next, last, hbefore, ?_, haccepts, ?_, hafter, hfinish⟩
    · exact hfollows.stringCharsets_eq
    · obtain ⟨context, items, pending, charsets⟩ := s
      obtain ⟨-, stored, hstores, rfl⟩ := State.accept_quoted.mp haccepts.1
      rwa [hfollows.place_charsets] at hstores

/-- In a text that is read, every quoted text outside sets is read under
the charsets that a walk over the tokens before it leaves on top of the
stack, and stands for one string for each of them or for a byte. What
directives say in a group or a set does not outlast it. The strings of the
pattern are those that all quoted texts stand for. -/
theorem charsets_scoped {text : List Char} {p : Pattern} (h : parse text = .ok p) :
    ∃ tokens, (∀ others, Lexed text others ↔ others = tokens) ∧
      (∀ before casing body after, tokens = before ++ .quoted casing body :: after →
        (Scopes.start.through before).sets = 0 →
        let charsets := (Scopes.start.through before).active
        ReadUnder charsets before casing body after p ∧
          ((quotedValue casing body charsets).strings = charsets.map (.string casing body) ∨
            ∃ value, quotedValue casing body charsets = .byte value false)) ∧
      (∀ inner, Balanced inner → ∀ scopes : Scopes,
        scopes.through (.openGroup :: (inner ++ [.closeGroup])) = scopes ∧
          scopes.through (.openSet :: (inner ++ [.closeSet])) = scopes) ∧
      ∃ order : List Pattern, order.Perm (Scopes.start.values tokens) ∧
        order.flatMap Pattern.strings = p.strings := by
  obtain ⟨tokens, last, hlexed, haccepts, hfinish⟩ := exists_tokens (run_of_parse h)
  have hlexed : Lexed text tokens := hlexed
  refine ⟨tokens, fun others => ⟨fun hothers => hothers.unique hlexed, ?_⟩, ?_, ?_, ?_⟩
  · rintro rfl
    exact hlexed
  · rintro before casing body after rfl hset charsets
    have hread := readUnder_of_acceptsAll haccepts hfinish
    rw [Scopes.charsets, if_pos hset] at hread
    exact ⟨hread, strings_quotedValue casing body charsets⟩
  · exact fun inner hinner scopes =>
      ⟨Scopes.through_group hinner scopes, Scopes.through_set hinner scopes⟩
  · have hheld := Holds.acceptsAll haccepts .whole .nil
    obtain ⟨order, hperm, hstrings⟩ := hheld.finish hfinish
    rw [zero_add] at hperm
    exact ⟨order, Multiset.coe_eq_coe.mp hperm, hstrings⟩

/-- A directive in a group does not reach the string after it. -/
theorem charsets_scoped_group :
    parse "((*utf8)'ab')'ab'".toList = .ok (.sequence
        [.string .exact ['a', 'b'] .utf8, .string .exact ['a', 'b'] .latin1]) ∧
      ReadUnder [.latin1] [.openGroup, .directive [.utf8], .quoted .exact ['a', 'b'], .closeGroup]
        .exact ['a', 'b'] [] (.sequence
          [.string .exact ['a', 'b'] .utf8, .string .exact ['a', 'b'] .latin1]) := by
  have hread : parse "((*utf8)'ab')'ab'".toList = .ok (.sequence
      [.string .exact ['a', 'b'] .utf8, .string .exact ['a', 'b'] .latin1]) := by
    with_unfolding_all rfl
  have hnamed : Named ['u', 't', 'f', '8'] [.utf8] :=
    ⟨[.utf8], by with_unfolding_all rfl, rfl⟩
  have hquoted : ∀ rest, Spelled (.quoted .exact ['a', 'b'])
      ('\x27' :: 'a' :: 'b' :: '\x27' :: rest) rest :=
    fun rest => .quoted (by simp) (by decide)
  have hlexed : Lexed "((*utf8)'ab')'ab'".toList [.openGroup, .directive [.utf8],
      .quoted .exact ['a', 'b'], .closeGroup, .quoted .exact ['a', 'b']] :=
    .cons (.openGroup (by decide)) (.cons (.directive (by simp) hnamed)
      (.cons (hquoted _) (.cons .closeGroup (.cons (hquoted []) .nil))))
  obtain ⟨tokens, hunique, hscoped, -⟩ := charsets_scoped hread
  obtain rfl := (hunique _).mp hlexed
  exact ⟨hread, (hscoped [_, _, _, _] _ _ _ rfl rfl).1⟩

end OctetPattern
