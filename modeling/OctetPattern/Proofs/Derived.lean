import OctetPattern.Proofs.Running

/-!
# A derived text is read as it derives

What a derivation says about a part of a text, the reader does with it:
`Form.IsRead` gives the moves for each form, and `Derives.isRead` finds
them by induction on the derivation. A phrase is read under any modifier
that can take its value, so modifiers need no induction of their own.

A group and a directive begin alike. The rule for groups need not tell
them apart, because nothing that branches derive begins with an asterisk
(`Derives.head?_ne_asterisk`).
-/

namespace OctetPattern

/-! ## Branches begin with no asterisk -/

theorem Spacing.head?_ne_asterisk {text rest : List Char} (h : Spacing text rest) :
    text.head? ≠ some '*' := by
  rintro hhead
  cases h with
  | blank hc =>
    obtain rfl := Option.some.inj hhead
    simp at hc
  | comment hbody => cases hhead
  | lastComment hbody => cases hhead

theorem ByteSpelling.head?_ne_asterisk {text digits rest : List Char} {bits : MaskedByte}
    (h : ByteSpelling text digits bits rest) : text.head? ≠ some '*' := by
  rintro hhead
  cases h with
  | pair hhigh hlow =>
    obtain rfl := Option.some.inj hhead
    exact absurd hhigh (by decide)
  | hexadecimal hhigh hlow => cases hhead
  | binary hlength hdigits => cases hhead

theorem Joined.ne_nil {items : List Pattern} {p : Pattern} (h : Joined items p) : items ≠ [] := by
  rintro rfl
  cases h with
  | more h => simp at h

namespace Derives

theorem phrase_head?_ne_asterisk {place : Place} {charsets : List Charset} {value : Pattern}
    {text rest : List Char} (h : Derives (.phrase place charsets value) text rest) :
    text.head? ≠ some '*' := by
  cases h with
  | byte h hfixed => exact h.head?_ne_asterisk
  | wild h hwild => exact h.head?_ne_asterisk
  | escape h => simp
  | set members hmembers => simp
  | quoted hbody hquote hencodable =>
    rename_i casing body
    cases casing <;> simp [Casing.quote]

theorem eq_empty_of_asterisk {charsets : List Charset} {after : Draft} {text rest : List Char}
    (h : Derives (.steps .sequence (.empty charsets) after) text rest)
    (hhead : text.head? = some '*') : after = .empty charsets := by
  unfold Draft.empty at h
  cases h with
  | done => rfl
  | gap hgap next => exact absurd hhead hgap.head?_ne_asterisk
  | value h next => exact absurd hhead h.phrase_head?_ne_asterisk
  | any | inverted | anyBits | invertedAnyBits | directive | group => cases hhead

theorem head?_ne_asterisk {charsets : List Charset} {values : List Pattern}
    {text rest : List Char} (h : Derives (.branches charsets values) text rest) :
    text.head? ≠ some '*' := by
  intro hhead
  cases h with
  | lastBranch h hvalue =>
    obtain rfl := h.eq_empty_of_asterisk hhead
    exact hvalue.ne_nil rfl
  | branch h hvalue others =>
    obtain rfl := h.eq_empty_of_asterisk hhead
    exact hvalue.ne_nil rfl

end Derives

/-- The reader has the branches in reverse when it puts them together. -/
theorem Alternation.merged_eq_some {branches values : List Pattern} {p : Pattern}
    (h : Alternation values p) (hbranches : branches = values.reverse ++ []) :
    Branches.merged branches.reverse = some p := by
  rw [hbranches, List.append_nil, List.reverse_reverse]
  exact Branches.merged_eq_some.mpr h

/-! ## Forms and what is read -/

/-- What the reader does with a part of a text that derives a form. -/
def Form.IsRead : Form → List Char → List Char → Prop
  | .phrase place charsets value, text, rest =>
    ∀ context items pending items', context.place = place →
      pending.Stores value items items' →
        Reads Branches.merged ⟨context, ⟨items, pending, charsets⟩⟩ text
          ⟨context, ⟨items', .none, charsets⟩⟩ rest
  | .steps place before after, text, rest =>
    ∀ context, context.place = place →
      Reads Branches.merged ⟨context, ⟨before.items, .none, before.charsets⟩⟩ text
        ⟨context, ⟨after.items, .none, after.charsets⟩⟩ rest
  | .branches charsets values, text, rest =>
    ∀ frame : List Pattern → Context,
      (∀ branches branch, (frame branches).push? branch = some (frame (branch :: branches))) →
      ∀ earlier, ∃ last others items charsets',
        Reads Branches.merged ⟨frame earlier, .fresh charsets⟩ text
          ⟨frame others, ⟨items, .none, charsets'⟩⟩ rest ∧
        Joined items last ∧ last :: others = values.reverse ++ earlier

theorem Derives.isRead {form : Form} {text rest : List Char} (h : Derives form text rest) :
    form.IsRead text rest := by
  induction h with
  | byte h hfixed =>
    intro context items pending items' hplace hstores
    rw [← h.ofMasked_eq_byte hfixed] at hstores
    exact .of_accept (.byte h) (State.accept_byte.mpr ⟨items', hstores, rfl⟩) nofun
  | wild h hwild =>
    intro context items pending items' hplace hstores
    rw [← h.ofMasked_eq_wild hwild] at hstores
    exact .of_accept (.byte h) (State.accept_byte.mpr ⟨items', hstores, rfl⟩) nofun
  | escape h =>
    intro context items pending items' hplace hstores
    exact .of_accept (.escape h) (State.accept_escape.mpr ⟨items', hstores, rfl⟩) nofun
  | set members hmembers ih =>
    intro context items pending items' hplace hstores
    refine .trans (.of_accept .openSet (State.accept_openSet.mpr rfl) nofun) ?_
    refine .trans (ih (.set _ _) rfl) ?_
    refine .of_accept .closeSet ?_ nofun
    exact State.accept_closeSet.mpr ⟨_, _, items', rfl, rfl, hmembers, hstores, rfl⟩
  | quoted hbody hquote hencodable =>
    intro context items pending items' hplace hstores
    subst hplace
    refine .of_accept (.quoted hbody hquote) ?_ nofun
    exact State.accept_quoted.mpr ⟨hencodable, items', hstores, rfl⟩
  | done => exact fun context hplace => .refl
  | gap h next ih =>
    intro context hplace
    exact .trans (.of_gap (.cons h .nil)) (ih context hplace)
  | value h next ih ihnext =>
    intro context hplace
    exact (ih context _ .none _ hplace (stores_none.mpr rfl)).trans (ihnext context hplace)
  | any next ih =>
    intro context hplace
    refine .trans (.of_accept .any (State.accept_any.mpr ⟨rfl, rfl⟩) nofun) ?_
    exact ih context hplace
  | inverted hgap h htoggled next ih ihnext =>
    intro context hplace
    refine .trans (.of_accept .caret (State.accept_caret.mpr ⟨rfl, rfl⟩) nofun) ?_
    refine .trans (.of_gap hgap) ?_
    refine .trans (ih context _ _ _ hplace (stores_inversion.mpr ⟨_, htoggled, rfl⟩)) ?_
    exact ihnext context hplace
  | range hgap h next ih ihnext =>
    intro context hplace
    refine .trans (.of_accept .dash (State.accept_dash.mpr ⟨rfl, rfl, _, _, _, rfl⟩) nofun) ?_
    refine .trans (.of_gap hgap) ?_
    refine .trans (ih context _ _ _ hplace (stores_rangeEnd.mpr ⟨_, _, _, _, rfl, rfl, rfl⟩)) ?_
    exact ihnext context hplace
  | anyBits hgap h hmasked next ih ihnext =>
    intro context hplace
    refine .trans (.of_accept .tilde (State.accept_tilde.mpr (.inl ⟨rfl, rfl⟩)) nofun) ?_
    refine .trans (.of_gap hgap) ?_
    refine .trans (ih context _ _ _ hplace (stores_anyBits.mpr ⟨_, hmasked, rfl⟩)) ?_
    exact ihnext context hplace
  | invertedAnyBits hcaret hgap h hmasked next ih ihnext =>
    intro context hplace
    refine .trans (.of_accept .caret (State.accept_caret.mpr ⟨rfl, rfl⟩) nofun) ?_
    refine .trans (.of_gap hcaret) ?_
    refine .trans (.of_accept .tilde (State.accept_tilde.mpr (.inr ⟨rfl, rfl⟩)) nofun) ?_
    refine .trans (.of_gap hgap) ?_
    refine .trans (ih context _ _ _ hplace (stores_anyBits.mpr ⟨_, hmasked, rfl⟩)) ?_
    exact ihnext context hplace
  | directive hclose h next ih =>
    intro context hplace
    refine .trans (.of_spelled (.directive hclose h) ⟨rfl, fun _ _ => rfl⟩) ?_
    exact ih context hplace
  | quantifier h hoperand next ih =>
    intro context hplace
    refine .trans (.of_accept (.quantifier h) ?_ nofun) (ih context hplace)
    exact State.accept_quantifier.mpr ⟨hplace, rfl, _, _, rfl, hoperand, rfl⟩
  | @group before after text middle rest values p h hvalue next ih ihnext =>
    intro context hplace
    refine .trans (.of_accept (.openGroup h.head?_ne_asterisk)
      (State.accept_openGroup.mpr ⟨hplace, rfl, rfl⟩) nofun) ?_
    obtain ⟨last, others, items, charsets', hbranches, hlast, hvalues⟩ :=
      ih (.group · ⟨before.items, .none, before.charsets⟩ context) (fun _ _ => rfl) []
    have hcombine := hvalue.merged_eq_some hvalues
    refine hbranches.trans ?_
    refine .trans (.of_accept .closeGroup ?_ nofun) (ihnext context hplace)
    exact State.accept_closeGroup.mpr
      ⟨_, _, _, _, _, rfl, rfl, hlast, hcombine, State.store_eq_ok.mpr ⟨_, rfl, rfl⟩⟩
  | lastBranch h hvalue ih =>
    intro frame hframe earlier
    have hplace := Context.place_of_push? (hframe earlier .any)
    exact ⟨_, earlier, _, _, ih (frame earlier) hplace, hvalue, rfl⟩
  | @branch charsets after text middle rest p values h hvalue others ih ihothers =>
    intro frame hframe earlier
    have hplace := Context.place_of_push? (hframe earlier .any)
    obtain ⟨last, others, items, charsets', hbranches, hlast, hvalues⟩ :=
      ihothers frame hframe (p :: earlier)
    refine ⟨last, others, items, charsets', ?_, hlast, by simp [hvalues]⟩
    refine (ih (frame earlier) hplace).trans (.trans (.of_accept .bar ?_ nofun) hbranches)
    exact State.accept_bar.mpr ⟨p, _, rfl, hvalue, hframe earlier p, rfl⟩

/-- A text is read as what it denotes. -/
theorem Denotes.parse_eq_ok {text : List Char} {p : Pattern} (h : Denotes text p) :
    parse text = .ok p := by
  obtain ⟨values, hbranches, hvalue⟩ := h
  obtain ⟨last, others, items, charsets', hreads, hlast, hvalues⟩ :=
    hbranches.isRead .whole (fun _ _ => rfl) []
  have hcombine := hvalue.merged_eq_some hvalues
  have hrun : run Branches.merged .start ⟨text, 0⟩ = .ok p :=
    hreads.run_eq_ok (State.finish_eq_ok.mpr ⟨_, _, rfl, rfl, hlast, hcombine⟩) 0
  have hne : text ≠ [] := by
    rintro rfl
    rw [run_of_end rfl] at hrun
    cases hrun
  rw [parse_eq_run hne]
  exact hrun

end OctetPattern
