import Mathlib.Algebra.Order.Group.Multiset
import OctetPattern.Proofs.Accepting

/-!
# No string is lost

What is stored for a quoted text is still there at the end, whatever
modifiers, quantifiers, groups, sets and bars do with it. `Holds ps values`
is the ledger: the strings in the patterns `ps` are those of the values,
every value in one piece in one of the patterns. Putting patterns together
keeps it (`Holds.joined`, `Holds.alternation`), and so does every token
(`Holds.accepts`), except that a quoted text adds what it stands for
(`Holds.accepts_quoted`).

A merge of branches moves whole branches, so the order of the values is
not kept, only the order of the strings in each.
-/

namespace OctetPattern

/-! ## Strings in a tree -/

namespace Pattern

mutual

/-- The strings in a tree, from left to right. -/
def strings : Pattern → List Pattern
  | string casing text charset => [string casing text charset]
  | set nodes _ | sequence nodes | alternatives nodes => stringsEach nodes
  | quantified _ operand => strings operand
  | byte _ _ | range _ _ _ | any | wild _ _ | anyBits _ _ => []

def stringsEach : List Pattern → List Pattern
  | [] => []
  | p :: ps => strings p ++ stringsEach ps

end

theorem stringsEach_eq (ps : List Pattern) : stringsEach ps = ps.flatMap strings := by
  induction ps with
  | nil => rfl
  | cons p ps ih => rw [stringsEach, ih, List.flatMap_cons]

theorem strings_toggled {p q : Pattern} (h : p.toggled? = some q) : q.strings = p.strings := by
  cases p <;> cases h <;> simp only [strings]

theorem strings_operand {pending : Pending} {p q : Pattern} (h : pending.operand? p = some q) :
    q.strings = p.strings := by
  unfold Pending.operand? at h
  split at h
  · exact strings_toggled h
  · cases h
    rfl

theorem strings_anyBitsOf {inverted : Bool} {p q : Pattern} (h : anyBitsOf inverted p = .ok q) :
    q.strings = p.strings := by
  cases p <;> cases h <;> rfl

@[simp] theorem strings_ofMasked (bits : MaskedByte) (inverted : Bool) :
    (ofMasked bits inverted).strings = [] := by
  rw [ofMasked]
  split <;> rfl

@[simp] theorem strings_escape (escape : Escape) (inverted : Bool) :
    (escape.pattern inverted).strings = [] := by
  cases escape with
  | byte value => rfl
  | byteClass c =>
    obtain ⟨base, negated⟩ := c
    cases inverted <;> cases base <;> rfl

end Pattern

/-- One string for each charset, in their order, or a byte. -/
theorem strings_quotedValue (casing : Casing) (text : List Char) (charsets : List Charset) :
    (quotedValue casing text charsets).strings = charsets.map (.string casing text) ∨
      ∃ value, quotedValue casing text charsets = .byte value false := by
  unfold quotedValue
  split
  · split
    · exact .inr ⟨_, rfl⟩
    · exact .inl rfl
  · refine .inl ?_
    rw [Pattern.strings, Pattern.stringsEach_eq, List.flatMap_map]
    exact List.map_eq_flatMap.symm

/-- The strings are those of the values, the values in some order. -/
def Arranged (strings : List Pattern) (values : Multiset Pattern) : Prop :=
  ∃ order : List Pattern, (order : Multiset Pattern) = values ∧
    order.flatMap Pattern.strings = strings

namespace Arranged

theorem nil : Arranged [] 0 :=
  ⟨[], rfl, rfl⟩

theorem self (value : Pattern) : Arranged value.strings {value} :=
  ⟨[value], rfl, by simp⟩

theorem append {xs ys : List Pattern} {values values' : Multiset Pattern}
    (h : Arranged xs values) (h' : Arranged ys values') :
    Arranged (xs ++ ys) (values + values') := by
  obtain ⟨order, rfl, rfl⟩ := h
  obtain ⟨order', rfl, rfl⟩ := h'
  exact ⟨order ++ order', rfl, List.flatMap_append⟩

end Arranged

/-- The strings in each of the patterns are those of some of the values,
and all values are used. -/
inductive Holds : List Pattern → Multiset Pattern → Prop
  | nil : Holds [] 0
  | cons {p : Pattern} {ps : List Pattern} {values values' : Multiset Pattern}
      (h : Arranged p.strings values) (others : Holds ps values') :
      Holds (p :: ps) (values + values')

namespace Holds

variable {p : Pattern} {ps qs : List Pattern} {values values' : Multiset Pattern}

theorem arranged (h : Holds ps values) : Arranged (ps.flatMap Pattern.strings) values := by
  induction h with
  | nil => exact .nil
  | cons h others ih => exact h.append ih

theorem split (h : Holds (ps ++ qs) values) :
    ∃ left right, values = left + right ∧ Holds ps left ∧ Holds qs right := by
  induction ps generalizing values with
  | nil => exact ⟨0, values, (zero_add _).symm, .nil, h⟩
  | cons p ps ih =>
    cases h with
    | cons hfirst others =>
      obtain ⟨left, right, rfl, hleft, hright⟩ := ih others
      exact ⟨_, right, (add_assoc ..).symm, .cons hfirst hleft, hright⟩

theorem perm (hperm : ps.Perm qs) (h : Holds ps values) : Holds qs values := by
  induction hperm generalizing values with
  | nil => exact h
  | cons p hperm ih =>
    cases h with
    | cons hfirst others => exact .cons hfirst (ih others)
  | swap p q ps =>
    cases h with
    | cons hfirst others =>
      cases others with
      | cons hsecond others =>
        rw [add_left_comm]
        exact .cons hsecond (.cons hfirst others)
  | trans hperm hperm' ih ih' => exact ih' (ih h)

theorem of_one (h : Holds [p] values) : Arranged p.strings values := by
  have harranged := h.arranged
  rwa [List.flatMap_singleton] at harranged

theorem of_set (h : Holds ps values) (inverted : Bool) :
    Arranged (Pattern.set ps inverted).strings values := by
  rw [Pattern.strings, Pattern.stringsEach_eq]
  exact h.arranged

theorem of_alternatives (h : Holds ps values) :
    Arranged (Pattern.alternatives ps).strings values := by
  rw [Pattern.strings, Pattern.stringsEach_eq]
  exact h.arranged

theorem joined (h : Holds ps values) (hjoined : Joined ps p) : Arranged p.strings values := by
  cases hjoined with
  | one => exact h.of_one
  | more hlength =>
    rw [Pattern.strings, Pattern.stringsEach_eq]
    exact (h.perm (List.reverse_perm ps).symm).arranged

theorem alternation (h : Holds ps values) (halternation : Alternation ps p) :
    Arranged p.strings values := by
  cases halternation with
  | one => exact h.of_one
  | plain hlength hfew => exact h.of_alternatives
  | set hlength hall => exact h.of_set false
  | mixed hmany hother =>
    -- the values are divided as the branches are, and stand in the same
    -- order in each part
    have hperm := List.filter_append_perm Pattern.matchesSinglePosition ps
    obtain ⟨singles, rest, rfl, hsingles, hrest⟩ := split (h.perm hperm.symm)
    have hcollected := Holds.cons (hsingles.of_set false) hrest
    exact (hcollected.perm (List.perm_append_singleton _ _).symm).of_alternatives

/-- A stored value brings its strings with it, and what it is combined
with has none. -/
theorem store {pending : Pending} {value : Pattern} {items items' others : List Pattern}
    (h : Holds (items ++ others) values) (hvalue : Arranged value.strings values')
    (hstore : pending.store value items = .ok items') :
    Holds (items' ++ others) (values + values') := by
  cases pending with
  | none | inversion =>
    cases hstore
    rw [add_comm]
    exact .cons hvalue h
  | rangeEnd =>
    cases items with
    | nil => cases hstore
    | cons first items =>
      obtain ⟨range, hrange, rfl⟩ := map_eq_ok.mp hstore
      obtain ⟨low, high, inverted, rfl, rfl, rfl⟩ := rangeBetween_eq_ok.mp hrange
      cases h with
      | cons hfirst hrest =>
        rw [add_right_comm]
        exact .cons (hfirst.append hvalue) hrest
  | anyBits inverted =>
    obtain ⟨anyBits, hanyBits, rfl⟩ := map_eq_ok.mp hstore
    rw [← Pattern.strings_anyBitsOf hanyBits] at hvalue
    rw [add_comm]
    exact .cons hvalue h

theorem stores {pending : Pending} {value : Pattern} {items items' others : List Pattern}
    (h : Holds (items ++ others) values) (hvalue : Arranged value.strings values')
    (hstores : pending.Stores value items items') :
    Holds (items' ++ others) (values + values') := by
  obtain ⟨v, hv, hstore⟩ := hstores
  rw [← Pattern.strings_operand hv] at hvalue
  exact h.store hvalue hstore

theorem stores_plain {pending : Pending} {value : Pattern} {items items' others : List Pattern}
    (h : Holds (items ++ others) values) (hvalue : value.strings = [])
    (hstores : pending.Stores value items items') : Holds (items' ++ others) values := by
  have hnone : Arranged value.strings 0 := by
    rw [hvalue]
    exact .nil
  have hstored := h.stores hnone hstores
  rwa [add_zero] at hstored

end Holds

/-! ## Strings in a state -/

/-- All that has been stored in the levels around the current one, apart
from what is in the current one. -/
def Context.held : Context → List Pattern
  | .whole branches => branches
  | .group branches outer outside => branches ++ (outer.items ++ outside.held)
  | .set outer outside => outer.items ++ outside.held

def State.held (s : State) : List Pattern :=
  s.level.items ++ s.context.held

namespace Holds

variable {values : Multiset Pattern}

theorem push {context frame : Context} {items : List Pattern} {branch : Pattern}
    (h : Holds (items ++ context.held) values) (hbranch : Joined items branch)
    (hframe : context.push? branch = some frame) : Holds frame.held values := by
  obtain ⟨left, right, rfl, hitems, hothers⟩ := h.split
  cases context with
  | whole branches =>
    cases hframe
    exact .cons (hitems.joined hbranch) hothers
  | group branches outer outside =>
    cases hframe
    exact .cons (hitems.joined hbranch) hothers
  | set => cases hframe

/-- What the branches amount to holds what they and the last one hold. -/
theorem combined {branches items : List Pattern} {branch p : Pattern}
    (h : Holds (items ++ branches) values) (hbranch : Joined items branch)
    (hcombine : Branches.merged (branch :: branches).reverse = some p) :
    Arranged p.strings values := by
  obtain ⟨left, right, rfl, hitems, hbranches⟩ := h.split
  have hall : Holds (branch :: branches) (left + right) := .cons (hitems.joined hbranch) hbranches
  have hinOrder := hall.perm (List.reverse_perm _).symm
  exact hinOrder.alternation (Branches.merged_eq_some.mp hcombine)

/-- A group that is closed becomes a value of the level outside. -/
theorem closeGroup {branches items items' others stored : List Pattern} {branch p : Pattern}
    {pending : Pending} (h : Holds (items ++ (branches ++ (items' ++ others))) values)
    (hbranch : Joined items branch)
    (hcombine : Branches.merged (branch :: branches).reverse = some p)
    (hstore : pending.store p items' = .ok stored) : Holds (stored ++ others) values := by
  rw [← List.append_assoc] at h
  obtain ⟨left, right, rfl, hgroup, hothers⟩ := h.split
  rw [add_comm]
  exact hothers.store (hgroup.combined hbranch hcombine) hstore

/-- A set that is closed becomes a value of the level outside. -/
theorem closeSet {items items' others stored : List Pattern} {pending : Pending}
    (h : Holds (items ++ (items' ++ others)) values)
    (hstores : pending.Stores (.set items.reverse false) items' stored) :
    Holds (stored ++ others) values := by
  obtain ⟨left, right, rfl, hitems, h⟩ := h.split
  have hset := (hitems.perm (List.reverse_perm items).symm).of_set false
  rw [add_comm]
  exact h.stores hset hstores

/-- A quoted text adds what it stands for. -/
theorem accepts_quoted {s next : State} {casing : Casing} {body : List Char}
    (h : Holds s.held values)
    (haccept : s.accept Branches.merged (.quoted casing body) = .ok next) :
    Holds next.held (values + {quotedValue casing body s.stringCharsets}) := by
  rw [State.stringCharsets_eq]
  obtain ⟨context, items, pending, charsets⟩ := s
  obtain ⟨-, stored, hstores, rfl⟩ := State.accept_quoted.mp haccept
  exact h.stores (.self _) hstores

/-- Every other token keeps what is held. -/
theorem accepts {s next : State} {token : Token} (h : Holds s.held values)
    (haccept : s.accept Branches.merged token = .ok next)
    (hquoted : ∀ casing body, token ≠ .quoted casing body) : Holds next.held values := by
  obtain ⟨context, items, pending, charsets⟩ := s
  cases token with
  | gap | directive =>
    cases haccept
    exact h
  | bar =>
    obtain ⟨branch, frame, -, hbranch, hframe, rfl⟩ := State.accept_bar.mp haccept
    exact h.push hbranch hframe
  | openGroup =>
    obtain ⟨hplace, rfl, rfl⟩ := State.accept_openGroup.mp haccept
    exact h
  | closeGroup =>
    obtain ⟨branches, ⟨items', pending', charsets'⟩, outside, branch, p, rfl, -, hbranch, hcombine,
      hstore⟩ := State.accept_closeGroup.mp haccept
    obtain ⟨stored, hstored, rfl⟩ := State.store_eq_ok.mp hstore
    exact closeGroup h hbranch hcombine hstored
  | openSet =>
    obtain rfl := State.accept_openSet.mp haccept
    exact h
  | closeSet =>
    obtain ⟨outer, outside, stored, rfl, -, -, hstores, rfl⟩ := State.accept_closeSet.mp haccept
    exact closeSet h hstores
  | caret | dash | tilde =>
    obtain ⟨waiting, rfl⟩ := State.pending_of_accept (by simp) haccept
    exact h
  | any =>
    obtain ⟨-, rfl⟩ := State.accept_any.mp haccept
    exact h.stores_plain rfl (stores_none.mpr rfl)
  | quantifier quantifier =>
    obtain ⟨-, -, operand, others, rfl, -, rfl⟩ := State.accept_quantifier.mp haccept
    cases h with
    | cons hoperand hothers =>
      refine .cons ?_ hothers
      rwa [Pattern.strings]
  | quoted casing body => exact absurd rfl (hquoted casing body)
  | escape escape =>
    obtain ⟨stored, hstores, rfl⟩ := State.accept_escape.mp haccept
    exact h.stores_plain (Pattern.strings_escape escape false) hstores
  | byte bits =>
    obtain ⟨stored, hstores, rfl⟩ := State.accept_byte.mp haccept
    exact h.stores_plain (Pattern.strings_ofMasked bits false) hstores
  | other c => cases haccept

/-- At the end all that is held is in the pattern. -/
theorem finish {s : State} {p : Pattern} (h : Holds s.held values)
    (hfinish : s.finish Branches.merged = .ok p) : Arranged p.strings values := by
  obtain ⟨context, items, pending, charsets⟩ := s
  obtain ⟨branches, branch, rfl, -, hbranch, hcombine⟩ := State.finish_eq_ok.mp hfinish
  exact h.combined hbranch hcombine

end Holds
end OctetPattern
