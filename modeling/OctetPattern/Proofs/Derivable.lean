import OctetPattern.Proofs.Derived

/-!
# A text that is read can be derived

The converse of `Derived`, from the end of a run backwards. What is left
of a text need not begin with a whole step: a modifier may be waiting for
its operand. `Awaits` says how a level and what is left complete a
derivation nevertheless, and `Context.Completes` extends this outwards
over the groups and sets that are still open. Each token keeps it
(`completes_of_move`), and the start of a text has nothing to complete
but the text itself.

Both directions together are `parse_eq_ok_iff`.
-/

namespace OctetPattern

theorem Derives.of_gap {place : Place} {before after : Draft} {text middle rest : List Char}
    (hgap : Gap text middle) (h : Derives (.steps place before after) middle rest) :
    Derives (.steps place before after) text rest := by
  induction hgap with
  | nil => exact h
  | cons hfirst _ ih => exact .gap hfirst (ih h)

theorem ByteSpelling.derives {place : Place} {charsets : List Charset}
    {text digits rest : List Char} {bits : MaskedByte} (h : ByteSpelling text digits bits rest) :
    Derives (.phrase place charsets (.ofMasked bits false)) text rest := by
  by_cases hwild : wildcard ∈ digits
  · rw [h.ofMasked_eq_wild hwild]
    exact .wild h hwild
  · rw [h.ofMasked_eq_byte hwild]
    exact .byte h hwild

/-! ## One level -/

/-- What is left of the text leads the level to a draft: by steps, by the
operand of its modifier and steps, or by a tilde that takes over its
caret, an operand and steps. -/
inductive Awaits (place : Place) (after : Draft) (rest : List Char) : Level → List Char → Prop
  | steps {items : List Pattern} {charsets : List Charset} {text : List Char}
      (h : Derives (.steps place ⟨charsets, items⟩ after) text rest) :
      Awaits place after rest ⟨items, .none, charsets⟩ text
  | operand {items items' : List Pattern} {pending : Pending} {charsets : List Charset}
      {text operand middle : List Char} {value : Pattern} (hgap : Gap text operand)
      (h : Derives (.phrase place charsets value) operand middle)
      (hstores : pending.Stores value items items')
      (next : Derives (.steps place ⟨charsets, items'⟩ after) middle rest) :
      Awaits place after rest ⟨items, pending, charsets⟩ text
  | tilde {items items' : List Pattern} {charsets : List Charset}
      {text tilde operand middle : List Char} {value : Pattern} (hcaret : Gap text ('~' :: tilde))
      (hgap : Gap tilde operand) (h : Derives (.phrase place charsets value) operand middle)
      (hstores : (Pending.anyBits true).Stores value items items')
      (next : Derives (.steps place ⟨charsets, items'⟩ after) middle rest) :
      Awaits place after rest ⟨items, .inversion, charsets⟩ text

namespace Awaits

variable {place : Place} {after : Draft} {rest text middle : List Char}
  {items items' : List Pattern} {pending : Pending} {charsets : List Charset}

theorem derives (h : Awaits place after rest ⟨items, .none, charsets⟩ text) :
    Derives (.steps place ⟨charsets, items⟩ after) text rest := by
  cases h with
  | steps h => exact h
  | operand hgap h hstores next =>
    obtain rfl := stores_none.mp hstores
    exact .of_gap hgap (.value h next)

/-! ### Tokens that stay on the level -/

theorem of_spacing {level : Level} (hgap : Spacing text middle)
    (h : Awaits place after rest level middle) : Awaits place after rest level text := by
  cases h with
  | steps h => exact .steps (.gap hgap h)
  | operand hothers h hstores next => exact .operand (.cons hgap hothers) h hstores next
  | tilde hcaret hothers h hstores next => exact .tilde (.cons hgap hcaret) hothers h hstores next

theorem of_phrase {value : Pattern} (h : Derives (.phrase place charsets value) text middle)
    (hstores : pending.Stores value items items')
    (next : Awaits place after rest ⟨items', .none, charsets⟩ middle) :
    Awaits place after rest ⟨items, pending, charsets⟩ text :=
  .operand .nil h hstores next.derives

theorem of_caret (h : Awaits place after rest ⟨items, .inversion, charsets⟩ text) :
    Awaits place after rest ⟨items, .none, charsets⟩ ('^' :: text) := by
  cases h with
  | operand hgap h hstores next =>
    obtain ⟨v, htoggled, rfl⟩ := stores_inversion.mp hstores
    exact .steps (.inverted hgap h htoggled next)
  | tilde hcaret hgap h hstores next =>
    obtain ⟨bits, hmasked, rfl⟩ := stores_anyBits.mp hstores
    exact .steps (.invertedAnyBits hcaret hgap h hmasked next)

theorem of_dash (h : Awaits place after rest ⟨items, .rangeEnd, charsets⟩ text) :
    Awaits place after rest ⟨items, .none, charsets⟩ ('-' :: text) := by
  cases h with
  | operand hgap h hstores next =>
    obtain ⟨first, second, inverted, others, rfl, rfl, rfl⟩ := stores_rangeEnd.mp hstores
    exact .steps (.range hgap h next)

theorem of_tilde (h : Awaits place after rest ⟨items, .anyBits false, charsets⟩ text) :
    Awaits place after rest ⟨items, .none, charsets⟩ ('~' :: text) := by
  cases h with
  | operand hgap h hstores next =>
    obtain ⟨bits, hmasked, rfl⟩ := stores_anyBits.mp hstores
    exact .steps (.anyBits hgap h hmasked next)

theorem of_tilde_after_caret (h : Awaits place after rest ⟨items, .anyBits true, charsets⟩ text) :
    Awaits place after rest ⟨items, .inversion, charsets⟩ ('~' :: text) := by
  cases h with
  | operand hgap h hstores next => exact .tilde .nil hgap h hstores next

end Awaits

/-- A token that neither opens nor closes anything and is no bar leaves
the levels outside alone, and what completes its level after it does so
before it, too. -/
theorem awaits_of_accepts {s next : State} {token : Token} {text middle : List Char}
    (hspelled : Spelled token text middle) (haccepts : s.Accepts Branches.merged token next)
    (hlevel : token ∉ [.bar, .openGroup, .closeGroup, .openSet, .closeSet]) :
    next.context = s.context ∧
      ∀ after rest, Awaits s.context.place after rest next.level middle →
        Awaits s.context.place after rest s.level text := by
  obtain ⟨context, items, pending, charsets⟩ := s
  obtain ⟨haccept, hdirective⟩ := haccepts
  cases hspelled with
  | bar | openGroup | closeGroup | openSet | closeSet => simp at hlevel
  | gap h =>
    cases haccept
    exact ⟨rfl, fun after rest hnext => hnext.of_spacing h⟩
  | caret =>
    obtain ⟨rfl, rfl⟩ := State.accept_caret.mp haccept
    exact ⟨rfl, fun after rest hnext => hnext.of_caret⟩
  | dash =>
    obtain ⟨rfl, rfl, -⟩ := State.accept_dash.mp haccept
    exact ⟨rfl, fun after rest hnext => hnext.of_dash⟩
  | tilde =>
    rcases State.accept_tilde.mp haccept with ⟨rfl, rfl⟩ | ⟨rfl, rfl⟩
    · exact ⟨rfl, fun after rest hnext => hnext.of_tilde⟩
    · exact ⟨rfl, fun after rest hnext => hnext.of_tilde_after_caret⟩
  | any =>
    obtain ⟨rfl, rfl⟩ := State.accept_any.mp haccept
    exact ⟨rfl, fun after rest hnext => .steps (.any hnext.derives)⟩
  | directive hclose h =>
    cases haccept
    obtain rfl := hdirective _ rfl
    exact ⟨rfl, fun after rest hnext => .steps (.directive hclose h hnext.derives)⟩
  | quantifier h =>
    obtain ⟨hplace, rfl, operand, others, rfl, hoperand, rfl⟩ :=
      State.accept_quantifier.mp haccept
    refine ⟨rfl, fun after rest hnext => ?_⟩
    rw [hplace] at hnext ⊢
    exact .steps (.quantifier h hoperand hnext.derives)
  | quoted hbody hquote =>
    obtain ⟨hencodable, items', hstores, rfl⟩ := State.accept_quoted.mp haccept
    exact ⟨rfl, fun after rest hnext => hnext.of_phrase (.quoted hbody hquote hencodable) hstores⟩
  | escape h =>
    obtain ⟨items', hstores, rfl⟩ := State.accept_escape.mp haccept
    exact ⟨rfl, fun after rest hnext => hnext.of_phrase (.escape h) hstores⟩
  | byte h =>
    obtain ⟨items', hstores, rfl⟩ := State.accept_byte.mp haccept
    exact ⟨rfl, fun after rest hnext => hnext.of_phrase h.derives hstores⟩

/-! ## All levels -/

/-- The level and what is left of the text make up a branch, and others
follow it. -/
inductive Branching (rest : List Char) : Level → List Char → List Pattern → Prop
  | last {level : Level} {after : Draft} {text : List Char} {p : Pattern}
      (h : Awaits .sequence after rest level text) (hvalue : Joined after.items p) :
      Branching rest level text [p]
  | more {level : Level} {after : Draft} {text middle : List Char} {p : Pattern}
      {values : List Pattern} (h : Awaits .sequence after ('|' :: middle) level text)
      (hvalue : Joined after.items p)
      (others : Derives (.branches after.charsets values) middle rest) :
      Branching rest level text (p :: values)

theorem Branching.derives {charsets : List Charset} {text rest : List Char}
    {values : List Pattern} (h : Branching rest (.fresh charsets) text values) :
    Derives (.branches charsets values) text rest := by
  cases h with
  | last h hvalue => exact .lastBranch h.derives hvalue
  | more h hvalue others => exact .branch h.derives hvalue others

/-- What is left of the text completes the level, and then the levels
outside it, to a pattern. -/
def Context.Completes (p : Pattern) : Context → Level → List Char → Prop
  | .whole branches, level, text =>
    ∃ values, Branching [] level text values ∧ Alternation (branches.reverse ++ values) p
  | .group branches outer outside, level, text =>
    ∃ values rest value items, Branching (')' :: rest) level text values ∧
      Alternation (branches.reverse ++ values) value ∧
      outer.pending.store value outer.items = .ok items ∧
      outside.Completes p ⟨items, .none, outer.charsets⟩ rest
  | .set outer outside, level, text =>
    ∃ after rest items, Awaits .set after (']' :: rest) level text ∧ after.items ≠ [] ∧
      outer.pending.Stores (.set after.items.reverse false) outer.items items ∧
      outside.Completes p ⟨items, .none, outer.charsets⟩ rest

theorem Context.Completes.of_awaits {p : Pattern} {context : Context} {level next : Level}
    {text middle : List Char}
    (hlevel : ∀ after rest, Awaits context.place after rest next middle →
      Awaits context.place after rest level text)
    (h : context.Completes p next middle) : context.Completes p level text := by
  have hbranching : context.place = .sequence → ∀ {rest values},
      Branching rest next middle values → Branching rest level text values := by
    intro hplace rest values hnext
    rw [hplace] at hlevel
    cases hnext with
    | last h hvalue => exact .last (hlevel _ _ h) hvalue
    | more h hvalue others => exact .more (hlevel _ _ h) hvalue others
  cases context with
  | whole branches =>
    obtain ⟨values, hvalues, hp⟩ := h
    exact ⟨values, hbranching rfl hvalues, hp⟩
  | group branches outer outside =>
    obtain ⟨values, rest, value, items, hvalues, hothers⟩ := h
    exact ⟨values, rest, value, items, hbranching rfl hvalues, hothers⟩
  | set outer outside =>
    obtain ⟨after, rest, items, hmembers, hothers⟩ := h
    exact ⟨after, rest, items, hlevel _ _ hmembers, hothers⟩

/-! ### Tokens between levels -/

section
variable {p : Pattern} {context : Context} {items : List Pattern} {charsets : List Charset}
  {text : List Char}

theorem completes_of_bar {frame : Context} {branch : Pattern} (hbranch : Joined items branch)
    (hframe : context.push? branch = some frame)
    (h : frame.Completes p (.fresh charsets) text) :
    context.Completes p ⟨items, .none, charsets⟩ ('|' :: text) := by
  have hmore : ∀ {rest values}, Branching rest (.fresh charsets) text values →
      Branching rest ⟨items, .none, charsets⟩ ('|' :: text) (branch :: values) :=
    fun hvalues => .more (.steps .done) hbranch hvalues.derives
  cases context with
  | whole branches =>
    cases hframe
    obtain ⟨values, hvalues, hp⟩ := h
    exact ⟨branch :: values, hmore hvalues, by simpa using hp⟩
  | group branches outer outside =>
    cases hframe
    obtain ⟨values, rest, value, items', hvalues, hvalue, hothers⟩ := h
    exact ⟨branch :: values, rest, value, items', hmore hvalues, by simpa using hvalue, hothers⟩
  | set => cases hframe

theorem completes_of_openGroup (hplace : context.place = .sequence)
    (h : (Context.group [] ⟨items, .none, charsets⟩ context).Completes p (.fresh charsets) text) :
    context.Completes p ⟨items, .none, charsets⟩ ('(' :: text) := by
  obtain ⟨values, rest, value, items', hvalues, hvalue, hstore, hothers⟩ := h
  cases hstore
  refine hothers.of_awaits fun after rest' hnext => ?_
  rw [hplace] at hnext ⊢
  exact .steps (.group hvalues.derives hvalue hnext.derives)

theorem completes_of_closeGroup {branches : List Pattern} {outer : Level} {outside : Context}
    {branch value : Pattern} {next : State} (hbranch : Joined items branch)
    (hvalue : Alternation (branch :: branches).reverse value)
    (hstore : State.store ⟨outside, outer⟩ value = .ok next)
    (h : next.context.Completes p next.level text) :
    (Context.group branches outer outside).Completes p ⟨items, .none, charsets⟩ (')' :: text) := by
  obtain ⟨items', hitems', rfl⟩ := State.store_eq_ok.mp hstore
  exact ⟨[branch], text, value, items', .last (.steps .done) hbranch, by simpa using hvalue,
    hitems', h⟩

theorem completes_of_openSet {pending : Pending}
    (h : (Context.set ⟨items, pending, charsets⟩ context).Completes p (.fresh charsets) text) :
    context.Completes p ⟨items, pending, charsets⟩ ('[' :: text) := by
  obtain ⟨after, rest, items', hmembers, hne, hstores, hothers⟩ := h
  exact hothers.of_awaits fun _ _ hnext => hnext.of_phrase (.set hmembers.derives hne) hstores

theorem completes_of_closeSet {outer : Level} {outside : Context} {items' : List Pattern}
    (hne : items ≠ [])
    (hstores : outer.pending.Stores (.set items.reverse false) outer.items items')
    (h : outside.Completes p ⟨items', .none, outer.charsets⟩ text) :
    (Context.set outer outside).Completes p ⟨items, .none, charsets⟩ (']' :: text) :=
  ⟨⟨charsets, items⟩, text, items', .steps .done, hne, hstores, h⟩

end

/-! ## Whole runs -/

theorem completes_of_move {s next : State} {c after : Cursor} {p : Pattern}
    (hmove : Move Branches.merged (s, c) (next, after))
    (h : next.context.Completes p next.level after.rest) :
    s.context.Completes p s.level c.rest := by
  obtain ⟨token, hspelled, haccepts⟩ := spelled_of_move hmove
  by_cases hlevel : token ∉ [.bar, .openGroup, .closeGroup, .openSet, .closeSet]
  · obtain ⟨hcontext, hawaits⟩ := awaits_of_accepts hspelled haccepts hlevel
    rw [hcontext] at h
    exact h.of_awaits hawaits
  · obtain ⟨context, items, pending, charsets⟩ := s
    generalize c.rest = text at hspelled
    cases hspelled with
    | bar =>
      obtain ⟨branch, frame, rfl, hbranch, hframe, rfl⟩ := State.accept_bar.mp haccepts.1
      exact completes_of_bar hbranch hframe h
    | openGroup =>
      obtain ⟨hplace, rfl, rfl⟩ := State.accept_openGroup.mp haccepts.1
      exact completes_of_openGroup hplace h
    | closeGroup =>
      obtain ⟨branches, outer, outside, branch, value, rfl, rfl, hbranch, hcombine, hstore⟩ :=
        State.accept_closeGroup.mp haccepts.1
      exact completes_of_closeGroup hbranch (Branches.merged_eq_some.mp hcombine) hstore h
    | openSet =>
      obtain rfl := State.accept_openSet.mp haccepts.1
      exact completes_of_openSet h
    | closeSet =>
      obtain ⟨outer, outside, items', rfl, rfl, hne, hstores, rfl⟩ :=
        State.accept_closeSet.mp haccepts.1
      exact completes_of_closeSet hne hstores h
    | _ => simp at hlevel

theorem completes_of_finish {s : State} {p : Pattern}
    (h : s.finish Branches.merged = .ok p) : s.context.Completes p s.level [] := by
  obtain ⟨context, items, pending, charsets⟩ := s
  obtain ⟨branches, branch, rfl, rfl, hbranch, hcombine⟩ := State.finish_eq_ok.mp h
  exact ⟨[branch], .last (.steps .done) hbranch,
    by simpa using Branches.merged_eq_some.mp hcombine⟩

/-- A text that is read denotes what it is read as. -/
theorem denotes_of_parse {text : List Char} {p : Pattern} (h : parse text = .ok p) :
    Denotes text p := by
  have hcompletes : State.start.context.Completes p State.start.level text :=
    run_induction (motive := fun s c => s.context.Completes p s.level c.rest)
      (fun s c hend hfinish => hend ▸ completes_of_finish hfinish)
      (fun s c s' c' hmove ih => completes_of_move hmove ih) (run_of_parse h)
  obtain ⟨values, hvalues, hp⟩ := hcompletes
  exact ⟨values, hvalues.derives, hp⟩

/-- A text is read as a pattern if and only if it denotes the pattern. -/
theorem parse_eq_ok_iff {text : List Char} {p : Pattern} :
    parse text = .ok p ↔ Denotes text p :=
  ⟨denotes_of_parse, Denotes.parse_eq_ok⟩

end OctetPattern
