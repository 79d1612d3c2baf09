import Mathlib.Data.List.Forall2
import Mathlib.Data.Set.Basic
import OctetPattern.Parse
import OctetPattern.Proofs.Accepting

/-!
# Collecting branches changes no meaning

`parse` collects the single-position branches of an alternation in a
set; with `Branches.plain` they stay where they were written. Both
readers go through the same tokens, fail at the same places for the
same faults, and end with trees of the same meaning.

An `Interpretation` is any meaning of trees in which an alternation is
the union of its branches and a sequence or a quantified tree depends on
nothing but the meanings below it. Two trees are `Alike` if all
interpretations agree on them and no later token can tell them apart: a
quantifier asks whether it is already there, and a range and a tilde ask
for a byte. Inside sets, where there are no groups, both readers hold the
very same trees. `State.Alike` extends this to all levels, and each step
of the one reader is a step of the other (`step_agree`).
-/

namespace OctetPattern

/-! ## Meanings -/

/-- Sets of byte strings as the meaning of trees. -/
structure Interpretation where
  meaning : Pattern → Set (List UInt8)
  /-- A sequence means what the meanings of its items make up. -/
  sequence : ∀ {ps qs : List Pattern}, List.Forall₂ (fun p q => meaning p = meaning q) ps qs →
    meaning (.sequence ps) = meaning (.sequence qs)
  /-- A quantified tree means what its operand's meaning makes up. -/
  quantified : ∀ (quantifier : Quantifier) {p q : Pattern}, meaning p = meaning q →
    meaning (.quantified quantifier p) = meaning (.quantified quantifier q)
  alternatives : ∀ branches : List Pattern,
    meaning (.alternatives branches) = {bytes | ∃ p ∈ branches, bytes ∈ meaning p}
  singles : ∀ members : List Pattern, (∀ p ∈ members, p.matchesSinglePosition = true) →
    meaning (.set members false) = {bytes | ∃ p ∈ members, bytes ∈ meaning p}

namespace Interpretation

variable (M : Interpretation)

/-- However branches are put together, they mean their union. -/
theorem meaning_of_alternation {branches : List Pattern} {p : Pattern}
    (h : Alternation branches p) :
    M.meaning p = {bytes | ∃ q ∈ branches, bytes ∈ M.meaning q} := by
  cases h with
  | one => simp
  | plain hlength hfew => exact M.alternatives branches
  | set hlength hall => exact M.singles branches hall
  | mixed hmany hother =>
    have hset := M.singles (branches.filter Pattern.matchesSinglePosition)
      fun q hq => (List.mem_filter.mp hq).2
    rw [M.alternatives]
    ext bytes
    simp only [Set.mem_ofPred_eq, List.mem_append, List.mem_singleton, List.mem_filter]
    constructor
    · rintro ⟨q, ⟨hq, -⟩ | rfl, hbytes⟩
      · exact ⟨q, hq, hbytes⟩
      · rw [hset] at hbytes
        obtain ⟨r, hr, hbytes⟩ := hbytes
        exact ⟨r, (List.mem_filter.mp hr).1, hbytes⟩
    · rintro ⟨q, hq, hbytes⟩
      cases hsingle : q.matchesSinglePosition with
      | false => exact ⟨q, .inl ⟨hq, by simp [hsingle]⟩, hbytes⟩
      | true =>
        refine ⟨_, .inr rfl, ?_⟩
        rw [hset]
        exact ⟨q, List.mem_filter.mpr ⟨hq, hsingle⟩, hbytes⟩

theorem meaning_of_plain {branches : List Pattern} {p : Pattern}
    (h : Branches.plain branches = some p) :
    M.meaning p = {bytes | ∃ q ∈ branches, bytes ∈ M.meaning q} := by
  unfold Branches.plain at h
  split at h <;> cases h
  · simp
  · exact M.alternatives branches

end Interpretation

/-! ## Meanings from leaves -/

/-- How many operands in a row a quantifier allows. -/
def Quantifier.Allows : Quantifier → Nat → Prop
  | .optional, n => n ≤ 1
  | .zeroToMany, _ => True
  | .oneToMany, n => 1 ≤ n
  | .exactly count, n => n = count.toNat
  | .between first second, n =>
    min first.toNat second.toNat ≤ n ∧ n ≤ max first.toNat second.toNat
  | .atLeast min, n => min.toNat ≤ n

/-- Byte strings that are made of one from each set. -/
def concatenation : List (Set (List UInt8)) → Set (List UInt8)
  | [] => {[]}
  | first :: others => {bytes | ∃ u ∈ first, ∃ v ∈ concatenation others, bytes = u ++ v}

mutual

/-- The meaning of trees whose leaves have the given meanings. -/
def meaningFrom (leaf : Pattern → Set (List UInt8)) : Pattern → Set (List UInt8)
  | .sequence items => concatenation (meaningsFrom leaf items)
  | .alternatives branches => {bytes | ∃ S ∈ meaningsFrom leaf branches, bytes ∈ S}
  | .set members false => {bytes | ∃ S ∈ meaningsFrom leaf members, bytes ∈ S}
  | .quantified quantifier operand =>
    {bytes | ∃ n, quantifier.Allows n ∧
      bytes ∈ concatenation (List.replicate n (meaningFrom leaf operand))}
  | p => leaf p

def meaningsFrom (leaf : Pattern → Set (List UInt8)) : List Pattern → List (Set (List UInt8))
  | [] => []
  | p :: ps => meaningFrom leaf p :: meaningsFrom leaf ps

end

theorem meaningsFrom_eq_map (leaf : Pattern → Set (List UInt8)) (ps : List Pattern) :
    meaningsFrom leaf ps = ps.map (meaningFrom leaf) := by
  induction ps with
  | nil => rw [meaningsFrom, List.map_nil]
  | cons p ps ih => rw [meaningsFrom, ih, List.map_cons]

/-- Any meaning of leaves is that of an interpretation. -/
def Interpretation.ofLeaves (leaf : Pattern → Set (List UInt8)) : Interpretation where
  meaning := meaningFrom leaf
  sequence {ps qs} h := by
    have hmap : ps.map (meaningFrom leaf) = qs.map (meaningFrom leaf) := by
      induction h with
      | nil => rfl
      | cons hfirst _ ih => rw [List.map_cons, List.map_cons, hfirst, ih]
    rw [meaningFrom, meaningFrom, meaningsFrom_eq_map, meaningsFrom_eq_map, hmap]
  quantified quantifier p q h := by
    rw [meaningFrom, meaningFrom, h]
  alternatives branches := by
    rw [meaningFrom, meaningsFrom_eq_map]
    simp
  singles members _ := by
    rw [meaningFrom, meaningsFrom_eq_map]
    simp

/-! ## Trees that are alike -/

/-- All interpretations agree on the trees, and reading on does not tell
them apart. -/
structure Pattern.Alike (p q : Pattern) : Prop where
  meaning : ∀ M : Interpretation, M.meaning p = M.meaning q
  quantifiable : p.isQuantifiable = q.isQuantifiable
  /-- Only the same bytes can be modified. -/
  masked : p = q ∨ p.masked? = none ∧ q.masked? = none

/-- What two items have in common at a place. -/
def Pattern.AlikeAt : Place → Pattern → Pattern → Prop
  | .sequence => Alike
  | .set => Eq

theorem Pattern.Alike.refl (p : Pattern) : p.Alike p :=
  ⟨fun _ => rfl, rfl, .inl rfl⟩

theorem Pattern.AlikeAt.refl (place : Place) (p : Pattern) : p.AlikeAt place p := by
  cases place with
  | sequence => exact Alike.refl p
  | set => rfl

theorem Pattern.AlikeAt.alike {place : Place} {p q : Pattern} (h : p.AlikeAt place q) :
    p.Alike q := by
  cases place with
  | sequence => exact h
  | set =>
    obtain rfl : p = q := h
    exact Alike.refl p

theorem alike_sequence {ps qs : List Pattern} (h : List.Forall₂ Pattern.Alike ps qs) :
    (Pattern.sequence ps).Alike (.sequence qs) :=
  ⟨fun M => M.sequence (h.imp fun _ _ hpq => hpq.meaning M), rfl, .inr ⟨rfl, rfl⟩⟩

theorem alike_quantified (quantifier : Quantifier) {p q : Pattern} (h : p.Alike q) :
    (Pattern.quantified quantifier p).Alike (.quantified quantifier q) :=
  ⟨fun M => M.quantified quantifier (h.meaning M), rfl, .inr ⟨rfl, rfl⟩⟩

theorem union_congr (M : Interpretation) {ps qs : List Pattern}
    (h : List.Forall₂ Pattern.Alike ps qs) :
    {bytes | ∃ p ∈ ps, bytes ∈ M.meaning p} = {bytes | ∃ q ∈ qs, bytes ∈ M.meaning q} := by
  induction h with
  | nil => rfl
  | cons hfirst hothers ih =>
    ext bytes
    have := Set.ext_iff.mp ih bytes
    simp only [Set.mem_ofPred_eq] at this
    simp only [Set.mem_ofPred_eq, List.exists_mem_cons_iff, hfirst.meaning M, this]

/-- Several branches amount to nothing that could be modified. -/
theorem Alternation.masked? {branches : List Pattern} {p : Pattern} (h : Alternation branches p)
    (hlength : 2 ≤ branches.length) : p.isQuantifiable = true ∧ p.masked? = none := by
  cases h with
  | one => simp at hlength
  | plain | set | mixed => exact ⟨rfl, rfl⟩

/-- Alike branches amount to alike trees, also if some are collected. -/
theorem merged_rel_plain {ps qs : List Pattern} (h : List.Forall₂ Pattern.Alike ps qs) :
    Option.Rel Pattern.Alike (Branches.merged ps) (Branches.plain qs) := by
  by_cases hlength : 2 ≤ ps.length
  · obtain ⟨p, hp⟩ := Branches.exists_alternation (List.ne_nil_of_length_pos
      (Nat.lt_of_lt_of_le Nat.zero_lt_two hlength))
    have hq := Branches.plain_of_length (h.length_eq ▸ hlength)
    have hmeaning : ∀ M : Interpretation, M.meaning p = M.meaning (.alternatives qs) := fun M =>
      (M.meaning_of_alternation hp).trans ((union_congr M h).trans (M.meaning_of_plain hq).symm)
    obtain ⟨hquantifiable, hmasked⟩ := hp.masked? hlength
    rw [Branches.merged_of_alternation hp, hq]
    exact .some ⟨hmeaning, hquantifiable, .inr ⟨hmasked, rfl⟩⟩
  · cases h with
    | nil => exact .none
    | cons hfirst hothers =>
      cases hothers with
      | cons => simp at hlength
      | nil =>
        rw [Branches.merged_of_alternation .one]
        exact .some hfirst

/-! ## Values -/

/-- The same fault, though perhaps of different kinds of trees. -/
def SameFault (d e : Cause) : Prop :=
  d.fault = e.fault

theorem SameFault.refl (e : Cause) : SameFault e e :=
  rfl

section
variable {first first' v w : Pattern}

theorem rangeBetween_of_unmasked (h : first.masked? = none) (v : Pattern) :
    rangeBetween first v = .error (.badRangeStart first.kind) := by
  cases first <;> first | rfl | cases h

theorem rangeBetween_to_unmasked (h : v.masked? = none) (value : UInt8) (inverted : Bool) :
    rangeBetween (.byte value inverted) v = .error (.badRangeEnd v.kind) := by
  cases v <;> first | rfl | cases h

theorem openRange_of_unmasked (h : first.masked? = none) (others : List Pattern) :
    Pending.none.openRange (first :: others) = .error (.badRangeStart first.kind) := by
  cases first <;> first | rfl | cases h

theorem anyBitsOf_of_unmasked (h : v.masked? = none) (inverted : Bool) :
    anyBitsOf inverted v = .error (.badAnyBits v.kind) := by
  cases v <;> first | rfl | cases h

theorem rangeBetween_agree (hfirst : first.Alike first') (hv : v.Alike w) :
    Agree SameFault Eq (rangeBetween first v) (rangeBetween first' w) := by
  rcases hfirst.masked with rfl | ⟨hnone, hnone'⟩
  · rcases hv.masked with rfl | ⟨hnone, hnone'⟩
    · exact agree_refl .refl _
    · cases first with
      | byte value inverted =>
        rw [rangeBetween_to_unmasked hnone, rangeBetween_to_unmasked hnone']
        rfl
      | _ => exact rfl
  · rw [rangeBetween_of_unmasked hnone, rangeBetween_of_unmasked hnone']
    rfl

theorem anyBitsOf_agree (hv : v.Alike w) (inverted : Bool) :
    Agree SameFault Eq (anyBitsOf inverted v) (anyBitsOf inverted w) := by
  rcases hv.masked with rfl | ⟨hnone, hnone'⟩
  · exact agree_refl .refl _
  · rw [anyBitsOf_of_unmasked hnone, anyBitsOf_of_unmasked hnone']
    rfl

end

theorem Pending.store_agree {place : Place} {v w : Pattern} {items items' : List Pattern}
    (pending : Pending) (hv : v.AlikeAt place w)
    (hitems : List.Forall₂ (Pattern.AlikeAt place) items items') :
    Agree SameFault (List.Forall₂ (Pattern.AlikeAt place)) (pending.store v items)
      (pending.store w items') := by
  cases pending with
  | none | inversion => exact .cons hv hitems
  | anyBits inverted =>
    refine (anyBitsOf_agree hv.alike inverted).map ?_
    rintro p _ rfl
    exact .cons (.refl place p) hitems
  | rangeEnd =>
    cases hitems with
    | nil => exact rfl
    | cons hfirst hothers =>
      refine (rangeBetween_agree hfirst.alike hv.alike).map ?_
      rintro p _ rfl
      exact .cons (.refl place p) hothers

theorem Pending.openRange_agree {place : Place} {items items' : List Pattern}
    {pending pending' : Pending} (hpending : pending = pending')
    (hitems : List.Forall₂ (Pattern.AlikeAt place) items items') :
    Agree SameFault Eq (pending.openRange items) (pending'.openRange items') := by
  subst hpending
  cases pending with
  | none =>
    cases hitems with
    | nil => exact rfl
    | @cons first first' others others' hfirst hothers =>
      rcases hfirst.alike.masked with rfl | ⟨hnone, hnone'⟩
      · cases first <;> exact rfl
      · rw [openRange_of_unmasked hnone, openRange_of_unmasked hnone']
        rfl
  | _ => exact rfl

theorem operand?_agree {place : Place} {items items' : List Pattern} (symbol : Char)
    (hitems : List.Forall₂ (Pattern.AlikeAt place) items items') :
    Agree SameFault
      (fun x y => x.1.AlikeAt place y.1 ∧ List.Forall₂ (Pattern.AlikeAt place) x.2 y.2)
      (operand? symbol items) (operand? symbol items') := by
  cases hitems with
  | nil => exact rfl
  | cons hfirst hothers =>
    simp only [operand?, hfirst.alike.quantifiable]
    split
    · exact ⟨hfirst, hothers⟩
    · exact rfl

/-! ## Levels -/

/-- The levels differ in nothing but alike items. -/
structure Level.AlikeAt (place : Place) (l m : Level) : Prop where
  items : List.Forall₂ (Pattern.AlikeAt place) l.items m.items
  pending : l.pending = m.pending
  charsets : l.charsets = m.charsets

namespace Level.AlikeAt

variable {place : Place} {l m : Level}

theorem fresh (place : Place) (charsets : List Charset) :
    Level.AlikeAt place (.fresh charsets) (.fresh charsets) :=
  ⟨.nil, rfl, rfl⟩

theorem eq_of_set (h : l.AlikeAt .set m) : l = m := by
  obtain ⟨items, pending, charsets⟩ := l
  obtain ⟨items', pending', charsets'⟩ := m
  obtain ⟨hitems, rfl, rfl⟩ := h
  obtain rfl := List.forall₂_eq_eq_eq ▸ hitems
  rfl

theorem store (h : l.AlikeAt place m) {v w : Pattern} (hv : v.AlikeAt place w) :
    Agree SameFault (Level.AlikeAt place) (l.store v) (m.store w) := by
  obtain ⟨items, pending, charsets⟩ := l
  obtain ⟨items', pending', charsets'⟩ := m
  obtain ⟨hitems, rfl, rfl⟩ := h
  exact (pending.store_agree hv hitems).map fun _ _ hstored => ⟨hstored, rfl, rfl⟩

theorem value (h : l.AlikeAt .sequence m) (follower : Follower) :
    Agree SameFault Pattern.Alike (l.value follower) (m.value follower) := by
  obtain ⟨items, pending, charsets⟩ := l
  obtain ⟨items', pending', charsets'⟩ := m
  obtain ⟨hitems, rfl, rfl⟩ := h
  refine agree_bind_self .refl (pending.mustBeNone follower) fun _ => ?_
  cases hitems with
  | nil => exact rfl
  | cons hfirst hothers =>
    cases hothers with
    | nil => exact hfirst
    | cons hsecond hothers =>
      exact alike_sequence (List.rel_reverse (.cons hfirst (.cons hsecond hothers)))

theorem quantify (h : l.AlikeAt .sequence m) (quantifier : Quantifier) :
    Agree SameFault (Level.AlikeAt .sequence) (l.quantify quantifier) (m.quantify quantifier) := by
  obtain ⟨items, pending, charsets⟩ := l
  obtain ⟨items', pending', charsets'⟩ := m
  obtain ⟨hitems, rfl, rfl⟩ := h
  refine agree_bind_self .refl (pending.mustBeNone .quantifier) fun _ => ?_
  have hquantified : Agree SameFault (List.Forall₂ (Pattern.AlikeAt .sequence))
      (OctetPattern.quantify quantifier items) (OctetPattern.quantify quantifier items') :=
    (operand?_agree quantifier.symbol hitems).map fun _ _ hsplit =>
      .cons (alike_quantified quantifier hsplit.1) hsplit.2
  exact hquantified.bind fun _ _ hitems' => ⟨hitems', rfl, rfl⟩

end Level.AlikeAt

/-! ## States -/

/-- The contexts differ in nothing but alike branches and items. Groups
stand in no set. -/
inductive Context.Alike : Context → Context → Prop
  | whole {ps qs : List Pattern} (h : List.Forall₂ Pattern.Alike ps qs) :
      Alike (.whole ps) (.whole qs)
  | group {ps qs : List Pattern} {outer outer' : Level} {outside outside' : Context}
      (h : List.Forall₂ Pattern.Alike ps qs) (hplace : outside.place = .sequence)
      (houter : outer.AlikeAt .sequence outer') (houtside : Alike outside outside') :
      Alike (.group ps outer outside) (.group qs outer' outside')
  | set {outer outer' : Level} {outside outside' : Context}
      (houter : outer.AlikeAt outside.place outer') (houtside : Alike outside outside') :
      Alike (.set outer outside) (.set outer' outside')

theorem Context.Alike.place {c d : Context} (h : c.Alike d) : c.place = d.place := by
  cases h <;> rfl

/-- The states differ in nothing but alike branches and items. -/
structure State.Alike (s t : State) : Prop where
  context : s.context.Alike t.context
  level : s.level.AlikeAt s.context.place t.level

namespace State.Alike

variable {s t : State}

theorem inSet (h : s.Alike t) : s.inSet = t.inSet := by
  rw [Bool.eq_iff_iff, State.inSet_iff, State.inSet_iff, h.context.place]

theorem store (h : s.Alike t) {v w : Pattern} (hv : v.AlikeAt s.context.place w) :
    Agree SameFault State.Alike (s.store v) (t.store w) :=
  (h.level.store hv).map fun _ _ hlevel => ⟨h.context, hlevel⟩

theorem level_of_not_inSet (h : s.Alike t) (hset : ¬ s.inSet = true) :
    s.level.AlikeAt .sequence t.level := by
  rw [← State.place_of_not_inSet hset]
  exact h.level

theorem stringCharsets (h : s.Alike t) : s.stringCharsets = t.stringCharsets := by
  rw [State.stringCharsets_eq, State.stringCharsets_eq, h.context.place, h.level.charsets]

/-- A change of the pending modifier alone. -/
theorem onPending (h : s.Alike t) {f g : Pending → Except Cause Pending}
    (hfg : Agree SameFault Eq (f s.level.pending) (g t.level.pending)) :
    Agree SameFault State.Alike (s.onPending f) (t.onPending g) := by
  have hlevel : Agree SameFault (Level.AlikeAt s.context.place)
      ((f s.level.pending).map fun pending => { s.level with pending })
      ((g t.level.pending).map fun pending => { t.level with pending }) :=
    hfg.map fun _ _ hpending => ⟨h.level.items, hpending, h.level.charsets⟩
  exact hlevel.map fun _ _ hlevel' => ⟨h.context, hlevel'⟩

theorem permit (h : s.Alike t) (lead : Lead) :
    Agree SameFault Eq (s.permit lead) (t.permit lead) := by
  cases lead with
  | directive =>
    rw [State.permit, State.permit, h.level.pending]
    exact agree_refl .refl _
  | repetition =>
    rw [State.permit, State.permit, h.inSet, h.level.pending]
    split
    · exact rfl
    · refine agree_bind_self .refl _ fun _ => ?_
      exact (operand?_agree '{' h.level.items).bind fun _ _ _ => rfl
  | _ => exact rfl

/-! ### Tokens between levels -/

theorem nextBranch (h : s.Alike t) : Agree SameFault State.Alike s.nextBranch t.nextBranch := by
  obtain ⟨context, level⟩ := s
  obtain ⟨context', level'⟩ := t
  obtain ⟨hcontext, hlevel⟩ := h
  have hfresh := hlevel.charsets
  cases hcontext with
  | whole hbranches =>
    refine (hlevel.value .bar).bind fun p q hpq => ⟨.whole (.cons hpq hbranches), ?_⟩
    exact hfresh ▸ .fresh _ _
  | group hbranches hplace houter houtside =>
    refine (hlevel.value .bar).bind fun p q hpq =>
      ⟨.group (.cons hpq hbranches) hplace houter houtside, ?_⟩
    exact hfresh ▸ .fresh _ _
  | set => exact rfl

theorem openGroup (h : s.Alike t) : Agree SameFault State.Alike s.openGroup t.openGroup := by
  rw [State.openGroup, State.openGroup, h.level.pending, h.level.charsets, ← h.inSet]
  split
  · exact rfl
  · rename_i hset
    refine agree_bind_self .refl _ fun _ => ?_
    exact ⟨.group .nil (State.place_of_not_inSet hset) (h.level_of_not_inSet hset) h.context,
      .fresh _ _⟩

theorem openSet (h : s.Alike t) : s.openSet.Alike t.openSet := by
  refine ⟨.set h.level h.context, ?_⟩
  rw [State.openSet, State.openSet, h.level.charsets]
  exact .fresh _ _

theorem closeSet (h : s.Alike t) : Agree SameFault State.Alike s.closeSet t.closeSet := by
  obtain ⟨context, level⟩ := s
  obtain ⟨context', level'⟩ := t
  obtain ⟨hcontext, hlevel⟩ := h
  cases hcontext with
  | whole | group => exact rfl
  | set houter houtside =>
    obtain rfl := hlevel.eq_of_set
    simp only [State.closeSet, houter.pending]
    refine agree_bind_self .refl _ fun p => ?_
    exact State.Alike.store ⟨houtside, houter⟩ (.refl _ p)

theorem combineWith {ps qs : List Pattern} {l m : Level}
    (hbranches : List.Forall₂ Pattern.Alike ps qs) (hlevel : l.AlikeAt .sequence m)
    (follower : Follower) :
    Agree SameFault Pattern.Alike (State.combineWith Branches.merged ps l follower)
      (State.combineWith Branches.plain qs m follower) := by
  refine (hlevel.value follower).bind fun p q hpq => ?_
  have hall : List.Forall₂ Pattern.Alike (p :: ps).reverse (q :: qs).reverse :=
    List.rel_reverse (.cons hpq hbranches)
  have hrel := merged_rel_plain hall
  generalize Branches.merged (p :: ps).reverse = x at hrel ⊢
  generalize Branches.plain (q :: qs).reverse = y at hrel ⊢
  cases hrel with
  | some h => exact h
  | none => exact rfl

theorem closeGroup (h : s.Alike t) :
    Agree SameFault State.Alike (s.closeGroup Branches.merged) (t.closeGroup Branches.plain) := by
  obtain ⟨context, level⟩ := s
  obtain ⟨context', level'⟩ := t
  obtain ⟨hcontext, hlevel⟩ := h
  cases hcontext with
  | whole hbranches => exact (combineWith hbranches hlevel .closeGroup).bind fun _ _ _ => rfl
  | group hbranches hplace houter houtside =>
    refine (combineWith hbranches hlevel .closeGroup).bind fun p q hpq => ?_
    rw [← hplace] at houter
    exact State.Alike.store ⟨houtside, houter⟩ (hplace ▸ hpq)
  | set => exact rfl

/-! ### Any token -/

theorem anyByte (h : s.Alike t) : Agree SameFault State.Alike s.anyByte t.anyByte := by
  rw [State.anyByte, State.anyByte, h.level.pending, h.inSet]
  split
  · exact rfl
  · exact h.store (.refl _ _)

theorem quantify (h : s.Alike t) (quantifier : Quantifier) :
    Agree SameFault State.Alike (s.quantify quantifier) (t.quantify quantifier) := by
  rw [State.quantify, State.quantify, ← h.inSet]
  split
  · exact rfl
  · rename_i hset
    refine ((h.level_of_not_inSet hset).quantify quantifier).map fun _ _ hlevel => ?_
    exact ⟨h.context, State.place_of_not_inSet hset ▸ hlevel⟩

theorem quoted (h : s.Alike t) (casing : Casing) (text : List Char) :
    Agree SameFault State.Alike (s.quoted casing text) (t.quoted casing text) := by
  rw [State.quoted, State.quoted, h.stringCharsets, h.level.pending]
  refine agree_bind_self .refl _ fun p => ?_
  exact h.store (.refl _ p)

theorem accept (h : s.Alike t) (token : Token) :
    Agree SameFault State.Alike (s.accept Branches.merged token)
      (t.accept Branches.plain token) := by
  cases token with
  | gap => exact h
  | bar => exact h.nextBranch
  | openGroup => exact h.openGroup
  | closeGroup => exact h.closeGroup
  | openSet => exact h.openSet
  | closeSet => exact h.closeSet
  | caret => exact h.onPending (h.level.pending ▸ agree_refl .refl _)
  | dash =>
    exact h.onPending (f := (·.openRange s.level.items)) (g := (·.openRange t.level.items))
      (Pending.openRange_agree h.level.pending h.level.items)
  | tilde => exact h.onPending (h.level.pending ▸ agree_refl .refl _)
  | any => exact h.anyByte
  | directive charsets => exact ⟨h.context, h.level.items, h.level.pending, rfl⟩
  | quantifier quantifier => exact h.quantify quantifier
  | quoted casing text => exact h.quoted casing text
  | escape escape =>
    rw [State.accept, State.accept, h.level.pending]
    exact h.store (.refl _ _)
  | byte bits =>
    rw [State.accept, State.accept, h.level.pending]
    exact h.store (.refl _ _)
  | other c => exact rfl

theorem finish (h : s.Alike t) :
    Agree SameFault Pattern.Alike (s.finish Branches.merged) (t.finish Branches.plain) := by
  obtain ⟨context, level⟩ := s
  obtain ⟨context', level'⟩ := t
  obtain ⟨hcontext, hlevel⟩ := h
  cases hcontext with
  | whole hbranches => exact combineWith hbranches hlevel .endOfInput
  | group hbranches hplace houter houtside =>
    exact (combineWith hbranches hlevel .endOfInput).bind fun _ _ _ => rfl
  | set => exact rfl

end State.Alike

/-! ## Whole runs -/

/-- The same fault at the same place. -/
def SameReport (d e : SyntaxError) : Prop :=
  d.cause.fault = e.cause.fault ∧ d.position = e.position

theorem placed_agree {α β : Type} {R : α → β → Prop} {x : Except Cause α} {y : Except Cause β}
    (h : Agree SameFault R x y) (position : Nat) :
    Agree SameReport R (placed position x) (placed position y) :=
  h.placed fun _ _ hfault => ⟨hfault, rfl⟩

theorem step_agree {s t : State} (h : s.Alike t) (first : Char) (c : Cursor) :
    Agree SameReport (fun x y => x.1.Alike y.1 ∧ x.2 = y.2)
      (step Branches.merged s first c) (step Branches.plain t first c) := by
  simp only [step]
  refine (placed_agree (h.permit _) c.position).bind fun _ _ _ => ?_
  refine agree_bind_self (fun _ => ⟨rfl, rfl⟩) _ fun token => ?_
  exact (placed_agree (h.accept token) _).bind fun _ _ hnext => ⟨hnext, rfl⟩

theorem run_agree {s t : State} (h : s.Alike t) (c : Cursor) :
    Agree SameReport Pattern.Alike (run Branches.merged s c) (run Branches.plain t c) := by
  fun_induction run Branches.merged s c generalizing t with
  | case1 s c hnext =>
    rw [run_of_end hnext]
    exact placed_agree h.finish c.position
  | case2 s c first c₁ hnext e hstep =>
    have hagree := step_agree h first c₁
    rw [run_of_next hnext]
    rw [hstep] at hagree
    obtain ⟨e', hplain, hreport⟩ := agree_error.mp hagree
    rw [hplain]
    exact hreport
  | case3 s c first c₁ hnext s' c' hstep ih =>
    have hagree := step_agree h first c₁
    rw [run_of_next hnext]
    rw [hstep] at hagree
    obtain ⟨⟨t', c''⟩, hplain, hnext, rfl⟩ := agree_ok.mp hagree
    rw [hplain]
    exact ih hnext

theorem alike_start : State.start.Alike State.start :=
  ⟨.whole .nil, .fresh _ _⟩

/-- With or without collecting branches, a text is read as trees of one
meaning, or refused for the same fault at the same place. -/
theorem parse_agrees_plain (text : List Char) :
    Agree SameReport (fun p q => ∀ M : Interpretation, M.meaning p = M.meaning q)
      (parse text) (parseWith Branches.plain text) := by
  rw [parse, parseWith, parseWith]
  split
  · exact ⟨rfl, rfl⟩
  · have hrun := run_agree alike_start (.start text)
    exact hrun.imp fun _ _ halike => halike.meaning

end OctetPattern
