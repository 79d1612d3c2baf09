import OctetPattern.Proofs.Continuing
import OctetPattern.Proofs.Invariants

/-!
# What sequences and sets share

Bytes, escapes, strings, sets and modifiers mean the same between
brackets as they do outside of them. A text of nothing else (`Shared`) can
therefore be enclosed: what was a sequence of items becomes a set of the
same members (`parse_enclosed`).

The rules of the grammar have a place, so a derivation of a sequence
becomes one of a set by changing the place everywhere (`Derives.enclosed`).
Only groups, directives and quantifiers have no counterpart, and these
cannot be written without a character that `Shared` excludes.
-/

namespace OctetPattern

/-! ## Outside quoted texts and comments -/

/-- What ends the stretch that begins with the character: a comment ends
with its line, and a quoted text with its quote. -/
def closing? : Char → Option Char
  | '#' => some '\n'
  | '\x27' => some '\x27'
  | '\x60' => some '\x60'
  | _ => none

/-- The characters outside quoted texts and comments, from inside the one
that ends with the given character, if there is one. -/
def bareFrom : Option Char → List Char → List Char
  | _, [] => []
  | some last, c :: rest => if c = last then bareFrom none rest else bareFrom (some last) rest
  | none, c :: rest =>
    match closing? c with
    | some last => bareFrom (some last) rest
    | none => c :: bareFrom none rest

/-- The characters outside quoted texts and comments. -/
def bare (text : List Char) : List Char :=
  bareFrom none text

/-- The characters of groups, branches, quantifiers and directives. -/
def sequenceSigns : List Char :=
  ['(', ')', '|', '?', '*', '+', '{']

/-- Nothing in the text belongs to sequences only. -/
def Shared (text : List Char) : Prop :=
  ∀ c ∈ bare text, c ∉ sequenceSigns

instance (text : List Char) : Decidable (Shared text) :=
  List.decidableBAll _ _

theorem bareFrom_append {last : Char} {body : List Char} (h : last ∉ body) (rest : List Char) :
    bareFrom (some last) (body ++ last :: rest) = bare rest := by
  induction body with
  | nil => exact if_pos rfl
  | cons c body ih =>
    obtain ⟨hc, hbody⟩ := not_or.mp (List.mem_cons.not.mp h)
    rw [List.cons_append, bareFrom, if_neg (Ne.symm hc), ih hbody]

/-- A class of characters that no such stretch begins with. -/
theorem closing?_eq_none {p : Char → Bool} {c : Char} (h : p c = true)
    (hp : p '#' = false ∧ p '\x27' = false ∧ p '\x60' = false) : closing? c = none := by
  obtain ⟨hcomment, hquote, hfold⟩ := hp
  unfold closing?
  split
  · cases hcomment.symm.trans h
  · cases hquote.symm.trans h
  · cases hfold.symm.trans h
  · rfl

theorem closing?_of_startsByte {c : Char} (h : startsByte c = true) : closing? c = none :=
  closing?_eq_none h (by decide)

theorem closing?_of_isBinaryDigit {c : Char} (h : isBinaryDigit c = true) : closing? c = none :=
  closing?_eq_none h (by decide)

theorem closing?_of_letter {c : Char} {escape : Escape} (h : Escape.ofLetter? c = some escape) :
    closing? c = none :=
  closing?_eq_none (Option.isSome_of_eq_some h) (p := fun c => (Escape.ofLetter? c).isSome)
    (by decide)

namespace Shared

variable {text rest : List Char}

theorem cons {c : Char} (h : Shared (c :: rest)) (hc : closing? c = none) :
    c ∉ sequenceSigns ∧ Shared rest := by
  have hbare : bare (c :: rest) = c :: bare rest := by
    rw [bare, bareFrom, hc]
    rfl
  rw [Shared, hbare] at h
  exact List.forall_mem_cons.mp h

theorem append {body : List Char} (h : Shared (body ++ rest))
    (hbody : ∀ c ∈ body, closing? c = none) : Shared rest := by
  induction body with
  | nil => exact h
  | cons c body ih =>
    obtain ⟨hc, hbody⟩ := List.forall_mem_cons.mp hbody
    exact ih (Shared.cons h hc).2 hbody

/-- A quoted text and a comment may hold any characters. -/
theorem stretch {c last : Char} {body : List Char} (h : Shared (c :: (body ++ last :: rest)))
    (hc : closing? c = some last) (hbody : last ∉ body) : Shared rest := by
  have hbare : bare (c :: (body ++ last :: rest)) = bare rest := by
    rw [bare, bareFrom, hc]
    exact bareFrom_append hbody rest
  rwa [Shared, hbare] at h

theorem nil : Shared [] :=
  nofun

/-! ### After a part of the text -/

theorem of_spacing (h : Shared text) (hspacing : Spacing text rest) : Shared rest := by
  cases hspacing with
  | blank hc =>
    simp only [List.mem_cons, List.not_mem_nil, or_false] at hc
    rcases hc with rfl | rfl | rfl | rfl <;> exact (h.cons rfl).2
  | comment hbody => exact h.stretch rfl hbody
  | lastComment hbody => exact nil

theorem of_gap (h : Shared text) (hgap : Gap text rest) : Shared rest := by
  induction hgap with
  | nil => exact h
  | cons hfirst hothers ih => exact ih (h.of_spacing hfirst)

theorem of_byte {digits : List Char} {bits : MaskedByte} (h : Shared text)
    (hbyte : ByteSpelling text digits bits rest) : Shared rest := by
  cases hbyte with
  | pair hhigh hlow =>
    exact ((h.cons (closing?_of_startsByte hhigh)).2.cons (closing?_of_startsByte hlow)).2
  | hexadecimal hhigh hlow =>
    have hdigits := ((h.cons rfl).2.cons rfl).2
    exact ((hdigits.cons (closing?_of_startsByte hhigh)).2.cons (closing?_of_startsByte hlow)).2
  | binary hlength hdigits =>
    exact ((h.cons rfl).2.cons rfl).2.append fun c hc => closing?_of_isBinaryDigit (hdigits c hc)

theorem of_quoted {casing : Casing} {body : List Char}
    (h : Shared (casing.quote :: (body ++ casing.quote :: rest))) (hquote : casing.quote ∉ body) :
    Shared rest := by
  cases casing with
  | exact => exact h.stretch rfl hquote
  | folded => exact h.stretch rfl hquote

theorem not_quantifier {quantifier : Quantifier} (h : Shared text)
    (hquantifier : QuantifierSpelling text quantifier rest) : False := by
  cases hquantifier <;> exact (h.cons rfl).1 (by decide)

end Shared

/-! ## From a sequence to a set -/

/-- What a derivation of a shared text becomes in a set, where strings are
read as they are outside of it. -/
def Form.Enclosed : Form → List Char → List Char → Prop
  | .phrase place charsets value, text, rest =>
    Shared text → Shared rest ∧
      (place.charsets charsets = [.latin1] → Derives (.phrase .set charsets value) text rest)
  | .steps place before after, text, rest =>
    Shared text → Shared rest ∧
      (place.charsets before.charsets = [.latin1] → Derives (.steps .set before after) text rest)
  | .branches _ _, _, _ => True

theorem Derives.enclosed {form : Form} {text rest : List Char} (h : Derives form text rest) :
    form.Enclosed text rest := by
  induction h with
  | byte h hfixed => exact fun hshared => ⟨hshared.of_byte h, fun _ => .byte h hfixed⟩
  | wild h hwild => exact fun hshared => ⟨hshared.of_byte h, fun _ => .wild h hwild⟩
  | escape h =>
    intro hshared
    exact ⟨((hshared.cons rfl).2.cons (closing?_of_letter h)).2, fun _ => .escape h⟩
  | set members hmembers ih =>
    intro hshared
    obtain ⟨hclosed, -⟩ := ih (hshared.cons rfl).2
    exact ⟨(hclosed.cons rfl).2, fun _ => .set members hmembers⟩
  | quoted hbody hquote hencodable =>
    intro hshared
    refine ⟨hshared.of_quoted hquote, fun hcharsets => ?_⟩
    rw [hcharsets] at hencodable ⊢
    exact .quoted hbody hquote hencodable
  | done => exact fun hshared => ⟨hshared, fun _ => .done⟩
  | gap h next ih =>
    intro hshared
    obtain ⟨hrest, hnext⟩ := ih (hshared.of_spacing h)
    exact ⟨hrest, fun hcharsets => .gap h (hnext hcharsets)⟩
  | value h next ih ihnext =>
    intro hshared
    obtain ⟨hmiddle, hvalue⟩ := ih hshared
    obtain ⟨hrest, hnext⟩ := ihnext hmiddle
    exact ⟨hrest, fun hcharsets => .value (hvalue hcharsets) (hnext hcharsets)⟩
  | any next ih =>
    intro hshared
    obtain ⟨hrest, hnext⟩ := ih (hshared.cons rfl).2
    exact ⟨hrest, fun hcharsets => .any (hnext hcharsets)⟩
  | inverted hgap h htoggled next ih ihnext =>
    intro hshared
    obtain ⟨hmiddle, hvalue⟩ := ih ((hshared.cons rfl).2.of_gap hgap)
    obtain ⟨hrest, hnext⟩ := ihnext hmiddle
    exact ⟨hrest, fun hcharsets =>
      .inverted hgap (hvalue hcharsets) htoggled (hnext hcharsets)⟩
  | range hgap h next ih ihnext =>
    intro hshared
    obtain ⟨hmiddle, hvalue⟩ := ih ((hshared.cons rfl).2.of_gap hgap)
    obtain ⟨hrest, hnext⟩ := ihnext hmiddle
    exact ⟨hrest, fun hcharsets => .range hgap (hvalue hcharsets) (hnext hcharsets)⟩
  | anyBits hgap h hmasked next ih ihnext =>
    intro hshared
    obtain ⟨hmiddle, hvalue⟩ := ih ((hshared.cons rfl).2.of_gap hgap)
    obtain ⟨hrest, hnext⟩ := ihnext hmiddle
    exact ⟨hrest, fun hcharsets =>
      .anyBits hgap (hvalue hcharsets) hmasked (hnext hcharsets)⟩
  | invertedAnyBits hcaret hgap h hmasked next ih ihnext =>
    intro hshared
    have htilde := ((hshared.cons rfl).2.of_gap hcaret).cons rfl
    obtain ⟨hmiddle, hvalue⟩ := ih (htilde.2.of_gap hgap)
    obtain ⟨hrest, hnext⟩ := ihnext hmiddle
    exact ⟨hrest, fun hcharsets =>
      .invertedAnyBits hcaret hgap (hvalue hcharsets) hmasked (hnext hcharsets)⟩
  | directive hclose h next ih => exact fun hshared => absurd (hshared.cons rfl).1 (by decide)
  | quantifier h hoperand next ih => exact fun hshared => (hshared.not_quantifier h).elim
  | group h hvalue next ih ihnext => exact fun hshared => absurd (hshared.cons rfl).1 (by decide)
  | lastBranch h hvalue ih => trivial
  | branch h hvalue others ih ihothers => trivial

/-- A shared text that is read is one branch, and can be derived as the
members of a set. -/
theorem exists_members {text : List Char} {p : Pattern} (h : parse text = .ok p)
    (hshared : Shared text) :
    ∃ after, Derives (.steps .set (.empty [.latin1]) after) text [] ∧ Joined after.items p := by
  obtain ⟨values, hbranches, hvalue⟩ := denotes_of_parse h
  cases hbranches with
  | @lastBranch charsets after text rest branch hsteps hjoined =>
    obtain ⟨-, hset⟩ := hsteps.enclosed hshared
    cases hvalue with
    | one => exact ⟨after, hset rfl, hjoined⟩
    | plain hlength hfew => simp at hlength
    | set hlength hall => simp at hlength
    | mixed hmany hother => exact absurd (hmany.trans (List.length_filter_le _ _)) (by simp)
  | branch hsteps hjoined hothers =>
    obtain ⟨hbar, -⟩ := hsteps.enclosed hshared
    exact absurd (hbar.cons rfl).1 (by decide)

/-! ## Enclosed texts -/

/-- The items of a sequence; anything else is one item. -/
def Pattern.items : Pattern → List Pattern
  | sequence items => items
  | p => [p]

theorem Joined.items_eq {items : List Pattern} {p : Pattern} (h : Joined items p)
    (hmembers : ∀ item ∈ items, item.isMember = true) : p.items = items.reverse := by
  cases h with
  | one =>
    have hmember := hmembers p (List.mem_cons_self ..)
    cases p with
    | sequence items => cases hmember
    | byte | range | set | any | wild | anyBits | string | alternatives | quantified => rfl
  | more => rfl

/-- A text of what sequences and sets share is read in brackets as the set
of its items, and after a caret as the inverted set of them. The line feed
ends a comment that may be at the end of the text. -/
theorem parse_enclosed {text : List Char} {p : Pattern} (h : parse text = .ok p)
    (hshared : Shared text) :
    parse ('[' :: (text ++ ['\n', ']'])) = .ok (.set p.items false) ∧
      parse ('^' :: '[' :: (text ++ ['\n', ']'])) = .ok (.set p.items true) := by
  obtain ⟨after, hsteps, hjoined⟩ := exists_members h hshared
  have hsound : after.Sound .set := hsteps.isSound (.empty (List.cons_ne_nil _ _)
    (List.nodup_singleton _) .set)
  have hitems : p.items = after.items.reverse :=
    hjoined.items_eq fun item hitem => (hsound.items item hitem).2.1
  have hne : after.items ≠ [] := hjoined.ne_nil
  have hset : Derives (.phrase .sequence [.latin1] (.set p.items false))
      ('[' :: (text ++ ['\n', ']'])) [] := by
    rw [hitems]
    exact .set (hsteps.goesOn [']']) hne
  constructor
  · exact Denotes.parse_eq_ok ⟨_, .lastBranch (.value hset .done) .one, .one⟩
  · exact Denotes.parse_eq_ok ⟨_, .lastBranch (.inverted .nil hset rfl .done) .one, .one⟩

/-- Brackets in a comment and a quantifier in a string do no harm. -/
theorem parse_enclosed_commented :
    parse "['a+'^[00]#(\n]".toList = .ok (.set
        [.string .exact ['a', '+'] .latin1, .set [.byte 0x00 false] true] false) ∧
      parse "^['a+'^[00]#(\n]".toList = .ok (.set
        [.string .exact ['a', '+'] .latin1, .set [.byte 0x00 false] true] true) := by
  have h : parse "'a+'^[00]#(".toList = .ok (.sequence
      [.string .exact ['a', '+'] .latin1, .set [.byte 0x00 false] true]) := by
    with_unfolding_all rfl
  exact parse_enclosed h (by decide)

end OctetPattern
