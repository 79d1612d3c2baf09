import Mathlib.Data.List.Nodup
import OctetPattern.Proofs.Derivable

/-!
# What holds in every tree that is read

A tree that is read has no node that its text could not have spelled.
`Pattern.WellBuilt` says what a node owes to its own fields and to what
is below it, and `Pattern.FansOut` that a string which could have been
a byte is one of several in different charsets.

Both are carried along a derivation by `Draft.Sound`: what is stored as
an item is well built throughout, is no such string itself, and inside
a set is something that a set may hold (`Pattern.Fits`). Modifiers,
quantifiers and alternations keep it, one lemma for each.
-/

namespace OctetPattern

/-! ## Nodes -/

namespace Pattern

/-- A node of a tree: its root, or a node of one of the children. -/
inductive Within (q : Pattern) : Pattern → Prop
  | here : Within q q
  | inside {p child : Pattern} (hchild : child ∈ p.children) (h : Within q child) : Within q p

/-- All nodes of the tree are such. -/
def Everywhere (P : Pattern → Prop) (p : Pattern) : Prop :=
  ∀ q : Pattern, q.Within p → P q

theorem everywhere_iff {P : Pattern → Prop} {p : Pattern} :
    p.Everywhere P ↔ P p ∧ ∀ child ∈ p.children, child.Everywhere P := by
  constructor
  · intro h
    exact ⟨h p .here, fun child hchild q hq => h q (.inside hchild hq)⟩
  · rintro ⟨hroot, hbelow⟩ q hq
    cases hq with
    | here => exact hroot
    | inside hchild hq => exact hbelow _ hchild q hq

/-- A pattern that may stand between the brackets of a set. -/
def isMember : Pattern → Bool
  | byte _ _ | range _ _ _ | set _ _ | any | wild _ _ | anyBits _ _ | string _ _ _ => true
  | sequence _ | alternatives _ | quantified _ _ => false

/-- An exact string of one character that is a single byte. -/
def isByteString : Pattern → Bool
  | string .exact [c] charset =>
    match charset.encode? [c] with
    | some [_] => true
    | _ => false
  | _ => false

/-- A string, if it is one, is in the charset of sets. -/
def IsLatin1 : Pattern → Prop
  | string _ _ charset => charset = .latin1
  | _ => True

/-- What a node owes to its fields and to what is below it. -/
def WellBuilt : Pattern → Prop
  | byte _ _ | range _ _ _ | any => True
  | set members inverted =>
    members ≠ [] ∧ (∀ p ∈ members, p.isMember = true) ∧ (set members inverted).Everywhere IsLatin1
  | wild bits _ => bits.mask ≠ 0xff ∧ bits.Tight
  | anyBits bits _ => bits.Tight
  | string casing text charset =>
    text ≠ [] ∧ casing.quote ∉ text ∧ (charset.encode? text).isSome = true
  | sequence items => 2 ≤ items.length
  | alternatives branches =>
    2 ≤ branches.length ∧ (branches.filter matchesSinglePosition).length ≤ 1
  | quantified quantifier operand => operand.isQuantifiable = true ∧ quantifier ≠ .exactly 0

/-- A child that could have been a byte is one of several alternatives:
the same text in different charsets. -/
def FansOut (p : Pattern) : Prop :=
  ∀ child ∈ p.children, child.isByteString = true →
    ∃ (text : List Char) (charsets : List Charset),
      p = alternatives (charsets.map (string .exact text)) ∧ charsets.Nodup

/-- All nodes are well built, and single-byte strings stand only where
they have to. -/
def Sound (p : Pattern) : Prop :=
  p.isByteString = false ∧ p.Everywhere fun q => q.WellBuilt ∧ q.FansOut

/-- The pattern may be an item at such a place. -/
def Fits : Place → Pattern → Prop
  | .sequence, _ => True
  | .set, p => p.isMember = true ∧ p.Everywhere IsLatin1

/-! ## Sound patterns from sound parts -/

theorem Sound.wellBuilt {p : Pattern} (h : p.Sound) : p.WellBuilt :=
  (h.2 p .here).1

theorem sound_of_children {p : Pattern} (hroot : p.isByteString = false) (hbuilt : p.WellBuilt)
    (hchildren : ∀ child ∈ p.children, child.Sound) : p.Sound := by
  refine ⟨hroot, everywhere_iff.mpr ⟨⟨hbuilt, ?_⟩, fun child hchild => (hchildren child hchild).2⟩⟩
  intro child hchild hbyte
  rw [(hchildren child hchild).1] at hbyte
  cases hbyte

theorem sound_byte (value : UInt8) (inverted : Bool) : (byte value inverted).Sound :=
  sound_of_children rfl trivial nofun

theorem sound_range (first second : UInt8) (inverted : Bool) :
    (range first second inverted).Sound :=
  sound_of_children rfl trivial nofun

theorem sound_any : any.Sound :=
  sound_of_children rfl trivial nofun

theorem sound_wild {bits : MaskedByte} (hmask : bits.mask ≠ 0xff) (htight : bits.Tight)
    (inverted : Bool) : (wild bits inverted).Sound :=
  sound_of_children rfl ⟨hmask, htight⟩ nofun

theorem sound_anyBits {bits : MaskedByte} (htight : bits.Tight) (inverted : Bool) :
    (anyBits bits inverted).Sound :=
  sound_of_children rfl htight nofun

theorem sound_set {members : List Pattern} (hne : members ≠ [])
    (hmembers : ∀ p ∈ members, p.Sound ∧ p.Fits .set) (inverted : Bool) :
    (set members inverted).Sound := by
  have hlatin1 : (set members inverted).Everywhere IsLatin1 :=
    everywhere_iff.mpr ⟨trivial, fun p hp => (hmembers p hp).2.2⟩
  exact sound_of_children rfl ⟨hne, fun p hp => (hmembers p hp).2.1, hlatin1⟩
    fun p hp => (hmembers p hp).1

theorem fits_of_leaf {p : Pattern} (hmember : p.isMember = true) (hleaf : p.children = [])
    (hlatin1 : p.IsLatin1) (place : Place) : p.Fits place := by
  cases place with
  | sequence => trivial
  | set => exact ⟨hmember, everywhere_iff.mpr ⟨hlatin1, by simp [hleaf]⟩⟩

theorem fits_anyBits (bits : MaskedByte) (inverted : Bool) (place : Place) :
    (anyBits bits inverted).Fits place :=
  fits_of_leaf rfl rfl (by trivial) place

theorem Sound.fits_set {members : List Pattern} {inverted : Bool}
    (h : (set members inverted).Sound) (place : Place) : (set members inverted).Fits place := by
  cases place with
  | sequence => trivial
  | set => exact ⟨rfl, h.wellBuilt.2.2⟩

/-- What matches a single position may be collected in a set. -/
theorem Sound.fits_of_single {p : Pattern} (h : p.Sound)
    (hsingle : p.matchesSinglePosition = true) (place : Place) : p.Fits place := by
  cases p with
  | set members inverted => exact h.fits_set place
  | byte | range | any | wild => exact fits_of_leaf rfl rfl (by trivial) place
  | _ => cases hsingle

theorem Sound.and_fits {p : Pattern} (h : p.Sound) (hsingle : p.matchesSinglePosition = true)
    (place : Place) : p.Sound ∧ p.Fits place :=
  ⟨h, h.fits_of_single hsingle place⟩

theorem sound_set_of_single {members : List Pattern} (hne : members ≠ [])
    (hmembers : ∀ p ∈ members, p.Sound ∧ p.matchesSinglePosition = true) (inverted : Bool) :
    (set members inverted).Sound := by
  refine sound_set hne (fun p hp => ?_) inverted
  obtain ⟨hsound, hsingle⟩ := hmembers p hp
  exact hsound.and_fits hsingle .set

/-! ## Modifiers -/

/-- The inversion of a set concerns none of its nodes. -/
theorem Sound.with_inversion {members : List Pattern} {inverted : Bool}
    (h : (set members inverted).Sound) (inverted' : Bool) : (set members inverted').Sound := by
  obtain ⟨⟨⟨hne, hmembers, hlatin1⟩, hfan⟩, hchildren⟩ := everywhere_iff.mp h.2
  have hlatin1' : (set members inverted').Everywhere IsLatin1 :=
    everywhere_iff.mpr ⟨trivial, (everywhere_iff.mp hlatin1).2⟩
  refine ⟨rfl, everywhere_iff.mpr ⟨⟨⟨hne, hmembers, hlatin1'⟩, ?_⟩, hchildren⟩⟩
  intro child hchild hbyte
  obtain ⟨text, charsets, heq, -⟩ := hfan child hchild hbyte
  cases heq

theorem Sound.of_toggled? {p q : Pattern} (h : p.Sound) (htoggled : p.toggled? = some q) :
    q.Sound ∧ q.matchesSinglePosition = true := by
  cases p with
  | byte value inverted =>
    cases htoggled
    exact ⟨sound_byte _ _, rfl⟩
  | range first second inverted =>
    cases htoggled
    exact ⟨sound_range _ _ _, rfl⟩
  | wild bits inverted =>
    cases htoggled
    exact ⟨sound_wild h.wellBuilt.1 h.wellBuilt.2 _, rfl⟩
  | set members inverted =>
    cases htoggled
    exact ⟨h.with_inversion _, rfl⟩
  | _ => cases htoggled

theorem Sound.of_masked? {p : Pattern} {bits : MaskedByte} (h : p.Sound)
    (hmasked : p.masked? = some bits) (inverted : Bool) : (anyBits bits inverted).Sound := by
  cases p with
  | byte value _ =>
    cases hmasked
    exact sound_anyBits (MaskedByte.tight_full value) inverted
  | wild bits _ =>
    cases hmasked
    exact sound_anyBits h.wellBuilt.2 inverted
  | _ => cases hmasked

/-! ## Escapes and strings -/

theorem sound_byteClass (c : ByteClass) :
    c.pattern.Sound ∧ c.pattern.matchesSinglePosition = true := by
  obtain ⟨base, negated⟩ := c
  cases base with
  | digit | lower | upper | ascii => exact ⟨sound_range _ _ _, rfl⟩
  | word | whitespace =>
    refine ⟨sound_set_of_single (by simp) ?_ _, rfl⟩
    simp [sound_range, sound_byte, matchesSinglePosition, ofByte]

theorem sound_escape (escape : Escape) :
    (escape.pattern false).Sound ∧ (escape.pattern false).matchesSinglePosition = true := by
  cases escape with
  | byte value => exact ⟨sound_byte value false, rfl⟩
  | byteClass c => exact sound_byteClass c

section
variable {casing : Casing} {text : List Char} {charsets : List Charset}

theorem everywhere_string {charset : Charset} (htext : text ≠ []) (hquote : casing.quote ∉ text)
    (hencodable : (charset.encode? text).isSome = true) :
    (string casing text charset).Everywhere fun q => q.WellBuilt ∧ q.FansOut :=
  everywhere_iff.mpr ⟨⟨⟨htext, hquote, hencodable⟩, nofun⟩, nofun⟩

/-- The strings of one text in several charsets. -/
theorem sound_strings (htext : text ≠ []) (hquote : casing.quote ∉ text)
    (hencodable : ∀ charset ∈ charsets, (charset.encode? text).isSome = true)
    (hlength : 2 ≤ charsets.length) (hnodup : charsets.Nodup) :
    (alternatives (charsets.map (string casing text))).Sound := by
  have hbuilt : (alternatives (charsets.map (string casing text))).WellBuilt := by
    refine ⟨by simpa using hlength, ?_⟩
    rw [List.filter_map, List.length_map]
    rw [List.filter_eq_nil_iff.mpr (by simp [matchesSinglePosition])]
    exact Nat.zero_le 1
  refine ⟨rfl, everywhere_iff.mpr ⟨⟨hbuilt, fun child hchild hbyte => ?_⟩, fun child hchild => ?_⟩⟩
  · obtain ⟨charset, -, rfl⟩ := List.mem_map.mp hchild
    cases casing with
    | exact => exact ⟨text, charsets, rfl, hnodup⟩
    | folded => cases hbyte
  · obtain ⟨charset, hcharset, rfl⟩ := List.mem_map.mp hchild
    exact everywhere_string htext hquote (hencodable charset hcharset)

/-- A string in one charset is a byte, or could not have been one. -/
theorem quotedValue_singleton (casing : Casing) (text : List Char) (charset : Charset) :
    (∃ value, quotedValue casing text [charset] = byte value false) ∨
      quotedValue casing text [charset] = string casing text charset ∧
        (string casing text charset).isByteString = false := by
  simp only [quotedValue]
  split
  · exact .inl ⟨_, rfl⟩
  · rename_i hbyte
    refine .inr ⟨rfl, ?_⟩
    unfold isByteString
    split
    · rename_i heq
      cases heq
      split
      · rename_i byte hbytes
        exact (hbyte _ byte rfl rfl hbytes).elim
      · rfl
    · rfl

theorem sound_quotedValue (htext : text ≠ []) (hquote : casing.quote ∉ text)
    (hencodable : ∀ charset ∈ charsets, (charset.encode? text).isSome = true)
    (hcharsets : charsets ≠ []) (hnodup : charsets.Nodup) :
    (quotedValue casing text charsets).Sound := by
  match charsets with
  | [charset] =>
    rcases quotedValue_singleton casing text charset with ⟨value, hvalue⟩ | ⟨hvalue, hbyte⟩
    · rw [hvalue]
      exact sound_byte value false
    · rw [hvalue]
      exact ⟨hbyte, everywhere_string htext hquote (hencodable _ (List.mem_singleton_self _))⟩
  | charset :: charset' :: charsets =>
    exact sound_strings htext hquote hencodable (by simp) hnodup

theorem fits_quotedValue (casing : Casing) (text : List Char) (place : Place)
    (charsets : List Charset) : (quotedValue casing text (place.charsets charsets)).Fits place := by
  cases place with
  | sequence => trivial
  | set =>
    rw [Place.charsets]
    rcases quotedValue_singleton casing text .latin1 with ⟨value, hvalue⟩ | ⟨hvalue, -⟩
    · rw [hvalue]
      exact fits_of_leaf rfl rfl (by trivial) .set
    · rw [hvalue]
      exact fits_of_leaf rfl rfl (by rfl) .set

end

/-! ## Branches -/

theorem sound_joined {items : List Pattern} {p : Pattern} (h : Joined items p)
    (hitems : ∀ item ∈ items, item.Sound) : p.Sound := by
  cases h with
  | one => exact hitems p (List.mem_singleton_self p)
  | more hlength =>
    exact sound_of_children rfl (by simpa [WellBuilt] using hlength)
      fun item hitem => hitems item (List.mem_reverse.mp hitem)

theorem sound_alternation {branches : List Pattern} {p : Pattern} (h : Alternation branches p)
    (hbranches : ∀ branch ∈ branches, branch.Sound) : p.Sound := by
  cases h with
  | one => exact hbranches p (List.mem_singleton_self p)
  | plain hlength hfew =>
    exact sound_of_children rfl ⟨hlength, Nat.le_of_lt_succ hfew⟩ hbranches
  | set hlength hall =>
    exact sound_set_of_single (fun hnil => by simp [hnil] at hlength)
      (fun q hq => ⟨hbranches q hq, hall q hq⟩) false
  | mixed hmany hother =>
    have hset : (set (branches.filter matchesSinglePosition) false).Sound := by
      refine sound_set_of_single (fun hnil => by simp [hnil] at hmany) (fun q hq => ?_) false
      obtain ⟨hmem, hsingle⟩ := List.mem_filter.mp hq
      exact ⟨hbranches q hmem, hsingle⟩
    refine sound_of_children rfl ⟨?_, ?_⟩ ?_
    · obtain ⟨p, hp, hsingle⟩ := hother
      have hpos : 0 < (branches.filter fun q => !q.matchesSinglePosition).length :=
        List.length_pos_of_mem (List.mem_filter.mpr ⟨hp, by simp [hsingle]⟩)
      rw [List.length_append, List.length_singleton]
      exact Nat.succ_le_succ hpos
    · simp [List.filter_append, List.filter_filter, List.filter_cons, matchesSinglePosition]
    · intro child hchild
      rcases List.mem_append.mp hchild with hchild | hchild
      · exact hbranches child (List.mem_filter.mp hchild).1
      · obtain rfl := List.mem_singleton.mp hchild
        exact hset

end Pattern

/-! ## Derivations -/

theorem nodup_eraseDups (charsets : List Charset) : charsets.eraseDups.Nodup := by
  generalize hlength : charsets.length = n
  induction n using Nat.strongRecOn generalizing charsets with
  | ind n ih =>
    cases charsets with
    | nil => exact List.nodup_nil
    | cons charset charsets =>
      rw [List.eraseDups_cons, List.nodup_cons]
      refine ⟨by simp [List.mem_eraseDups], ih _ ?_ _ rfl⟩
      have := List.length_filter_le (fun c => !c == charset) charsets
      simp at hlength
      omega

theorem Named.ne_nil {names : List Char} {charsets : List Charset} (h : Named names charsets) :
    charsets ≠ [] := by
  obtain ⟨all, hall, rfl⟩ := h
  cases all with
  | nil => exact absurd (List.map_eq_nil_iff.mp hall) (List.splitOn_ne_nil _ _)
  | cons charset all => simp [List.eraseDups_cons]

theorem Named.nodup {names : List Char} {charsets : List Charset} (h : Named names charsets) :
    charsets.Nodup := by
  obtain ⟨all, -, rfl⟩ := h
  exact nodup_eraseDups all

theorem QuantifierSpelling.ne_zero {text rest : List Char} {quantifier : Quantifier}
    (h : QuantifierSpelling text quantifier rest) : quantifier ≠ .exactly 0 := by
  cases h with
  | exactly hn hpos =>
    rintro ⟨⟩
    exact hpos rfl
  | _ => rintro ⟨⟩

/-- Every string can be encoded in some charset and in none twice, and
every item is sound and may stand where it does. -/
structure Draft.Sound (place : Place) (d : Draft) : Prop where
  charsets_ne_nil : d.charsets ≠ []
  charsets_nodup : d.charsets.Nodup
  items : ∀ item ∈ d.items, item.Sound ∧ item.Fits place

namespace Draft.Sound

variable {place : Place} {d : Draft} {charsets : List Charset} {items : List Pattern}
  {p q : Pattern}

theorem empty (hne : charsets ≠ []) (hnodup : charsets.Nodup) (place : Place) :
    (Draft.empty charsets).Sound place :=
  ⟨hne, hnodup, nofun⟩

theorem push (h : d.Sound place) (hp : p.Sound ∧ p.Fits place) : (d.push p).Sound place := by
  refine ⟨h.charsets_ne_nil, h.charsets_nodup, fun item hitem => ?_⟩
  rcases List.mem_cons.mp hitem with rfl | hitem
  · exact hp
  · exact h.items item hitem

/-- The newest item can be replaced. -/
theorem replace (h : Draft.Sound place ⟨charsets, q :: items⟩) (hp : p.Sound ∧ p.Fits place) :
    Draft.Sound place ⟨charsets, p :: items⟩ := by
  have hothers : Draft.Sound place ⟨charsets, items⟩ :=
    ⟨h.charsets_ne_nil, h.charsets_nodup, fun item hitem => h.items item (.tail _ hitem)⟩
  exact hothers.push hp

end Draft.Sound

/-- What a derivation keeps, for each form. -/
def Form.IsSound : Form → Prop
  | .phrase place charsets value =>
    charsets ≠ [] → charsets.Nodup → value.Sound ∧ value.Fits place
  | .steps place before after => before.Sound place → after.Sound place
  | .branches charsets values => charsets ≠ [] → charsets.Nodup → ∀ p ∈ values, p.Sound

theorem Derives.isSound {form : Form} {text rest : List Char} (h : Derives form text rest) :
    form.IsSound := by
  induction h with
  | byte h hfixed =>
    intro hne hnodup
    exact (Pattern.sound_byte _ _).and_fits rfl _
  | wild h hwild =>
    intro hne hnodup
    have hmask := h.isWild_iff.mpr hwild
    rw [MaskedByte.isWild, bne_iff_ne] at hmask
    exact (Pattern.sound_wild hmask h.tight false).and_fits rfl _
  | @escape place charsets letter escape rest h =>
    intro hne hnodup
    obtain ⟨hsound, hsingle⟩ := Pattern.sound_escape escape
    exact hsound.and_fits hsingle place
  | set members hmembers ih =>
    intro hne hnodup
    have hafter := ih (.empty hne hnodup .set)
    have hset := Pattern.sound_set (mt List.reverse_eq_nil_iff.mp hmembers)
      (fun p hp => hafter.items p (List.mem_reverse.mp hp)) false
    exact hset.and_fits rfl _
  | @quoted place charsets casing body rest hbody hquote hencodable =>
    intro hne hnodup
    refine ⟨Pattern.sound_quotedValue hbody hquote hencodable ?_ ?_,
      Pattern.fits_quotedValue casing body place charsets⟩
    · cases place with
      | sequence => exact hne
      | set => exact List.cons_ne_nil _ _
    · cases place with
      | sequence => exact hnodup
      | set => exact List.nodup_singleton _
  | done => exact id
  | gap h next ih => exact ih
  | value h next ih ihnext =>
    intro hbefore
    exact ihnext (hbefore.push (ih hbefore.charsets_ne_nil hbefore.charsets_nodup))
  | any next ih =>
    intro hbefore
    exact ih (hbefore.push (Pattern.sound_any.and_fits rfl _))
  | inverted hgap h htoggled next ih ihnext =>
    intro hbefore
    obtain ⟨hsound, -⟩ := ih hbefore.charsets_ne_nil hbefore.charsets_nodup
    obtain ⟨hsound, hsingle⟩ := hsound.of_toggled? htoggled
    exact ihnext (hbefore.push (hsound.and_fits hsingle _))
  | range hgap h next ih ihnext =>
    intro hbefore
    exact ihnext (hbefore.replace ((Pattern.sound_range _ _ _).and_fits rfl _))
  | anyBits hgap h hmasked next ih ihnext =>
    intro hbefore
    obtain ⟨hsound, -⟩ := ih hbefore.charsets_ne_nil hbefore.charsets_nodup
    exact ihnext (hbefore.push ⟨hsound.of_masked? hmasked false, Pattern.fits_anyBits _ _ _⟩)
  | invertedAnyBits hcaret hgap h hmasked next ih ihnext =>
    intro hbefore
    obtain ⟨hsound, -⟩ := ih hbefore.charsets_ne_nil hbefore.charsets_nodup
    exact ihnext (hbefore.push ⟨hsound.of_masked? hmasked true, Pattern.fits_anyBits _ _ _⟩)
  | directive hclose h next ih => exact fun hbefore => ih ⟨h.ne_nil, h.nodup, hbefore.items⟩
  | quantifier h hoperand next ih =>
    intro hbefore
    have hsound := (hbefore.items _ (List.mem_cons_self ..)).1
    refine ih (hbefore.replace ⟨Pattern.sound_of_children rfl ⟨hoperand, h.ne_zero⟩ ?_, trivial⟩)
    intro child hchild
    obtain rfl := List.mem_singleton.mp hchild
    exact hsound
  | group h hvalue next ih ihnext =>
    intro hbefore
    have hvalues := ih hbefore.charsets_ne_nil hbefore.charsets_nodup
    exact ihnext (hbefore.push ⟨Pattern.sound_alternation hvalue hvalues, trivial⟩)
  | lastBranch h hvalue ih =>
    intro hne hnodup p hp
    obtain rfl := List.mem_singleton.mp hp
    have hafter := ih (.empty hne hnodup .sequence)
    exact Pattern.sound_joined hvalue fun item hitem => (hafter.items item hitem).1
  | branch h hvalue others ih ihothers =>
    intro hne hnodup p hp
    have hafter := ih (.empty hne hnodup .sequence)
    rcases List.mem_cons.mp hp with rfl | hp
    · exact Pattern.sound_joined hvalue fun item hitem => (hafter.items item hitem).1
    · exact ihothers hafter.charsets_ne_nil hafter.charsets_nodup p hp

theorem Denotes.sound {text : List Char} {p : Pattern} (h : Denotes text p) : p.Sound := by
  obtain ⟨values, hbranches, hvalue⟩ := h
  exact Pattern.sound_alternation hvalue
    (hbranches.isSound (List.cons_ne_nil _ _) (List.nodup_singleton _))

/-- In a tree that is read, every node is well built, and a string that
could have been a byte stands only among the same text in other charsets. -/
theorem parse_invariants {text : List Char} {p : Pattern} (h : parse text = .ok p) :
    p.isByteString = false ∧ ∀ q : Pattern, q.Within p → q.WellBuilt ∧ q.FansOut :=
  (denotes_of_parse h).sound

theorem parse_invariants_fan :
    parse "(*utf8,ascii)'a'".toList =
        .ok (.alternatives [.string .exact ['a'] .utf8, .string .exact ['a'] .ascii]) ∧
      Pattern.FansOut
        (.alternatives [.string .exact ['a'] .utf8, .string .exact ['a'] .ascii]) := by
  have h : parse "(*utf8,ascii)'a'".toList =
      .ok (.alternatives [.string .exact ['a'] .utf8, .string .exact ['a'] .ascii]) := by
    with_unfolding_all rfl
  exact ⟨h, ((parse_invariants h).2 _ .here).2⟩

end OctetPattern
