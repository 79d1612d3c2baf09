import OctetPattern.Proofs.Decoding
import OctetPattern.Proofs.Invariants

/-!
# Reading what was written

The normal form of a well-formed tree is read as that tree. `WellFormed`
says which trees these are, by what they are made of. The proof stays in
the grammar: the text of a node is a step of the sequence or set that it
stands in (`RendersItem`), or a branch (`RendersBranch`), whatever comes
after it. Brackets are what keeps the two apart, so each kind of node
needs them in one of the two only.

A tree that was read is well formed if no directive chose the charset of
its strings, which `Invariants` leaves little to show of.
-/

namespace OctetPattern

/-! ## Parts -/

theorem numeral_decimal (n : UInt32) : Numeral (decimal n) n where
  ne_nil := Nat.toDigits_ne_nil
  isDigit _ hc := Nat.isDigit_of_mem_toDigits (by decide) (by decide) hc
  value := Nat.ofDigitChars_ten_toDigits

theorem spelling_suffix {quantifier : Quantifier} (h : quantifier ≠ .exactly 0)
    (rest : List Char) : QuantifierSpelling (quantifier.suffix ++ rest) quantifier rest := by
  cases quantifier with
  | optional => exact .optional
  | zeroToMany => exact .zeroToMany
  | oneToMany => exact .oneToMany
  | exactly count =>
    have hcount : count ≠ 0 := by
      rintro rfl
      exact h rfl
    have htext : Quantifier.suffix (.exactly count) ++ rest =
        '{' :: (decimal count ++ '}' :: rest) := by simp [Quantifier.suffix]
    rw [htext]
    exact .exactly (numeral_decimal count) hcount
  | between min max =>
    have htext : Quantifier.suffix (.between min max) ++ rest =
        '{' :: (decimal min ++ ',' :: (decimal max ++ '}' :: rest)) := by
      simp [Quantifier.suffix]
    rw [htext]
    exact .between (numeral_decimal min) (numeral_decimal max)
  | atLeast min =>
    have htext : Quantifier.suffix (.atLeast min) ++ rest =
        '{' :: (decimal min ++ ',' :: '*' :: '}' :: rest) := by simp [Quantifier.suffix]
    rw [htext]
    exact .atLeast (numeral_decimal min)

/-! ## Well-formed trees -/

namespace Pattern

/-- The trees that have a text of their own: without the choice of a
charset, and without a node that reading would put in another way. -/
inductive WellFormed : Pattern → Prop
  | byte (value : UInt8) (inverted : Bool) : WellFormed (byte value inverted)
  | range (first second : UInt8) (inverted : Bool) : WellFormed (range first second inverted)
  | any : WellFormed any
  | wild {bits : MaskedByte} (hmask : bits.mask ≠ 0xff) (htight : bits.Tight) (inverted : Bool) :
      WellFormed (wild bits inverted)
  | anyBits {bits : MaskedByte} (htight : bits.Tight) (inverted : Bool) :
      WellFormed (anyBits bits inverted)
  /-- A string of one character would be read as a byte. -/
  | exactString {text : List Char} (hlength : 2 ≤ text.length)
      (hlatin1 : ∀ c ∈ text, c.toNat ≤ 0xff) (hquote : Casing.exact.quote ∉ text) :
      WellFormed (string .exact text .latin1)
  | foldedString {text : List Char} (hlength : 1 ≤ text.length)
      (hlatin1 : ∀ c ∈ text, c.toNat ≤ 0xff) (hquote : Casing.folded.quote ∉ text) :
      WellFormed (string .folded text .latin1)
  | set {members : List Pattern} (hlength : 1 ≤ members.length)
      (hmembers : ∀ p ∈ members, p.isMember = true) (h : ∀ p ∈ members, WellFormed p)
      (inverted : Bool) : WellFormed (set members inverted)
  | sequence {items : List Pattern} (hlength : 2 ≤ items.length)
      (h : ∀ p ∈ items, WellFormed p) : WellFormed (sequence items)
  /-- Two that match a single position would be collected in a set. -/
  | alternatives {branches : List Pattern} (hlength : 2 ≤ branches.length)
      (hfew : (branches.filter matchesSinglePosition).length ≤ 1)
      (h : ∀ p ∈ branches, WellFormed p) : WellFormed (alternatives branches)
  | quantified {quantifier : Quantifier} {operand : Pattern} (hcount : quantifier ≠ .exactly 0)
      (hoperand : operand.isQuantifiable = true) (h : WellFormed operand) :
      WellFormed (quantified quantifier operand)

/-! ## Texts of nodes -/

/-- Wherever such an item may come next, its text derives it. -/
def RendersItem (place : Place) (p : Pattern) : Prop :=
  ∀ (items : List Pattern) (after : Draft) (text rest : List Char),
    Derives (.steps place ⟨[.latin1], p :: items⟩ after) text rest →
      Derives (.steps place ⟨[.latin1], items⟩ after) (bracketed .item p p.render ++ text) rest

/-- Wherever such a branch may come next, its text derives the items of it. -/
def RendersBranch (p : Pattern) : Prop :=
  ∃ items, Joined items p ∧ ∀ (after : Draft) (text rest : List Char),
    Derives (.steps .sequence ⟨[.latin1], items⟩ after) text rest →
      Derives (.steps .sequence (.empty [.latin1]) after)
        (bracketed .branch p p.render ++ text) rest

/-- Whatever comes next, its text derives what it amounts to. -/
def RendersWhole (p : Pattern) : Prop :=
  ∃ branches, Alternation branches p ∧ ∀ rest : List Char,
    Derives (.branches [.latin1] branches) (p.render ++ rest) rest

/-- The text of a pattern that can be inverted. -/
theorem derives_caret {place : Place} {items : List Pattern} {after : Draft}
    {text middle rest : List Char} (form : Bool → Pattern)
    (htoggled : (form false).toggled? = some (form true)) (inverted : Bool)
    (h : Derives (.phrase place [.latin1] (form false)) text middle)
    (next : Derives (.steps place ⟨[.latin1], form inverted :: items⟩ after) middle rest) :
    Derives (.steps place ⟨[.latin1], items⟩ after) (caret inverted ++ text) rest := by
  cases inverted with
  | false => exact .value h next
  | true => exact .inverted .nil h htoggled next

theorem phrase_byte (place : Place) (value : UInt8) (text : List Char) :
    Derives (.phrase place [.latin1] (byte value false)) (hexPair value ++ text) text := by
  refine .byte (spelling_hexPair value text) ?_
  simp [hexPair, (hexDigit_ne_wildcard _).symm]

theorem phrase_wild {bits : MaskedByte} (hmask : bits.mask ≠ 0xff) (htight : bits.Tight)
    (place : Place) (text : List Char) :
    Derives (.phrase place [.latin1] (wild bits false)) (bits.digits ++ text) text := by
  obtain ⟨digits, hspelling⟩ := MaskedByte.digits_spell htight text
  refine .wild hspelling (hspelling.isWild_iff.mp ?_)
  simpa [MaskedByte.isWild] using hmask

/-- What a tilde is written before. -/
theorem phrase_operand {bits : MaskedByte} (htight : bits.Tight) (place : Place)
    (text : List Char) :
    ∃ p, p.masked? = some bits ∧
      Derives (.phrase place [.latin1] p) (bits.operandDigits ++ text) text := by
  obtain ⟨value, mask⟩ := bits
  rw [MaskedByte.operandDigits]
  split
  · rename_i hmask
    obtain rfl : mask = 0xff := hmask
    exact ⟨byte value false, rfl, phrase_byte place value text⟩
  · rename_i hmask
    exact ⟨wild ⟨value, mask⟩ false, rfl, phrase_wild hmask htight place text⟩

/-! ## Items -/

/-- What a set may hold needs brackets nowhere. -/
theorem needsBrackets_of_member {p : Pattern} (h : p.isMember = true) (slot : Slot) :
    needsBrackets slot p = false := by
  cases p <;> first | (cases slot <;> rfl) | cases h

theorem bracketed_of_member {p : Pattern} (h : p.isMember = true) (slot : Slot)
    (text : List Char) : bracketed slot p text = text := by
  rw [bracketed, needsBrackets_of_member h]
  rfl

theorem rendersItem_byte (place : Place) (value : UInt8) (inverted : Bool) :
    (byte value inverted).RendersItem place := by
  intro items after text rest next
  show Derives _ (caret inverted ++ hexPair value ++ text) rest
  rw [List.append_assoc]
  exact derives_caret (byte value) rfl inverted (phrase_byte place value text) next

/-- The range takes the place of its first byte, and its inversion. -/
theorem rendersItem_range (place : Place) (first second : UInt8) (inverted : Bool) :
    (range first second inverted).RendersItem place := by
  intro items after text rest next
  show Derives _ (caret inverted ++ hexPair first ++ '-' :: hexPair second ++ text) rest
  rw [List.append_assoc, List.append_assoc]
  refine derives_caret (byte first) rfl inverted (phrase_byte place first _) ?_
  exact .range .nil (phrase_byte place second text) next

theorem rendersItem_any (place : Place) : any.RendersItem place :=
  fun _ _ _ _ next => .any next

theorem rendersItem_wild {bits : MaskedByte} (hmask : bits.mask ≠ 0xff) (htight : bits.Tight)
    (place : Place) (inverted : Bool) : (wild bits inverted).RendersItem place := by
  intro items after text rest next
  show Derives _ (caret inverted ++ bits.digits ++ text) rest
  rw [List.append_assoc]
  exact derives_caret (wild bits) rfl inverted (phrase_wild hmask htight place text) next

theorem rendersItem_anyBits {bits : MaskedByte} (htight : bits.Tight) (place : Place)
    (inverted : Bool) : (anyBits bits inverted).RendersItem place := by
  intro items after text rest next
  show Derives _ (caret inverted ++ '~' :: bits.operandDigits ++ text) rest
  rw [List.append_assoc]
  obtain ⟨p, hmasked, hoperand⟩ := phrase_operand htight place text
  cases inverted with
  | false => exact .anyBits .nil hoperand hmasked next
  | true => exact .invertedAnyBits .nil .nil hoperand hmasked next

theorem rendersItem_string {casing : Casing} {body : List Char}
    (hvalue : quotedValue casing body [.latin1] = string casing body .latin1)
    (hbody : body ≠ []) (hquote : casing.quote ∉ body) (hlatin1 : ∀ c ∈ body, c.toNat ≤ 0xff)
    (place : Place) : (string casing body .latin1).RendersItem place := by
  intro items after text rest next
  have htext : bracketed .item (string casing body .latin1)
      (string casing body .latin1).render ++ text =
        casing.quote :: (body ++ casing.quote :: text) :=
    List.append_assoc (casing.quote :: body) [casing.quote] text
  have hcharsets : place.charsets [.latin1] = [.latin1] := by
    cases place <;> rfl
  have hencodable : ∀ charset ∈ place.charsets [.latin1],
      (charset.encode? body).isSome = true := by
    intro charset hcharset
    rw [hcharsets] at hcharset
    obtain rfl := List.mem_singleton.mp hcharset
    exact Charset.isSome_encode?.mpr hlatin1
  have hphrase : Derives (.phrase place [.latin1] (quotedValue casing body (place.charsets _)))
      (casing.quote :: (body ++ casing.quote :: text)) text :=
    .quoted hbody hquote hencodable
  rw [hcharsets, hvalue] at hphrase
  rw [htext]
  exact .value hphrase next

theorem intercalate_renderEach (slot : Slot) (separator rest : List Char) (p q : Pattern)
    (ps : List Pattern) :
    separator.intercalate (renderEach slot (p :: q :: ps)) ++ rest =
      bracketed slot p p.render ++
        (separator ++ (separator.intercalate (renderEach slot (q :: ps)) ++ rest)) := by
  rw [renderEach, renderEach, List.intercalate_cons_cons, List.append_assoc, List.append_assoc]

/-- Items with blanks between them, one after another. -/
theorem derives_items {place : Place} {ps : List Pattern} (h : ∀ p ∈ ps, p.RendersItem place)
    {items : List Pattern} {after : Draft} {text rest : List Char}
    (next : Derives (.steps place ⟨[.latin1], ps.reverse ++ items⟩ after) text rest) :
    Derives (.steps place ⟨[.latin1], items⟩ after)
      ([' '].intercalate (renderEach .item ps) ++ text) rest := by
  induction ps generalizing items with
  | nil => simpa [renderEach] using next
  | cons p ps ih =>
    have hp := h p (List.mem_cons_self ..)
    rw [List.reverse_cons, List.append_assoc] at next
    have hps := ih (fun q hq => h q (List.mem_cons_of_mem _ hq)) next
    cases ps with
    | nil => simpa [renderEach] using hp items after text rest next
    | cons q ps =>
      rw [intercalate_renderEach]
      exact hp _ _ _ _ (.gap (.blank (by decide)) hps)

theorem rendersItem_set {members : List Pattern} (hne : members ≠ [])
    (hmembers : ∀ p ∈ members, p.isMember = true) (h : ∀ p ∈ members, p.RendersItem .set)
    (place : Place) (inverted : Bool) : (set members inverted).RendersItem place := by
  intro items after text rest next
  have hslot : renderEach .member members = renderEach .item members := by
    rw [renderEach_eq_map, renderEach_eq_map]
    refine List.map_congr_left fun p hp => ?_
    rw [bracketed_of_member (hmembers p hp), bracketed_of_member (hmembers p hp)]
  show Derives _ (caret inverted ++ '[' :: [' '].intercalate (renderEach .member members) ++ [']']
    ++ text) rest
  rw [hslot, List.append_assoc, List.append_assoc]
  have hset : Derives (.phrase place [.latin1] (set members false))
      ('[' :: ([' '].intercalate (renderEach .item members) ++ ']' :: text)) text := by
    have hsteps : Derives (.steps .set (.empty [.latin1]) ⟨[.latin1], members.reverse ++ []⟩)
        ([' '].intercalate (renderEach .item members) ++ ']' :: text) (']' :: text) :=
      derives_items h .done
    rw [List.append_nil] at hsteps
    have hphrase : Derives (.phrase place [.latin1] (set members.reverse.reverse false)) _ text :=
      .set hsteps (by simpa using hne)
    rwa [List.reverse_reverse] at hphrase
  exact derives_caret (set members) rfl inverted hset next

theorem rendersItem_quantified {quantifier : Quantifier} {operand : Pattern}
    (hcount : quantifier ≠ .exactly 0) (hoperand : operand.isQuantifiable = true)
    (h : operand.RendersItem .sequence) :
    (quantified quantifier operand).RendersItem .sequence := by
  intro items after text rest next
  show Derives _ (bracketed .item operand operand.render ++ quantifier.suffix ++ text) rest
  rw [List.append_assoc]
  exact h _ _ _ _ (.quantifier (spelling_suffix hcount text) hoperand next)

/-! ## Branches -/

/-- A branch that is a single item. -/
theorem RendersItem.branch {p : Pattern} (h : p.RendersItem .sequence)
    (hslot : needsBrackets .branch p = needsBrackets .item p) : p.RendersBranch := by
  refine ⟨[p], .one, fun after text rest next => ?_⟩
  rw [bracketed, hslot]
  exact h [] after text rest next

/-- A branch of several items needs no brackets. -/
theorem rendersBranch_sequence {items : List Pattern} (hlength : 2 ≤ items.length)
    (h : ∀ p ∈ items, p.RendersItem .sequence) : (sequence items).RendersBranch := by
  have hjoined : Joined items.reverse (sequence items.reverse.reverse) :=
    .more (by simpa using hlength)
  rw [List.reverse_reverse] at hjoined
  refine ⟨items.reverse, hjoined, fun after text rest next => ?_⟩
  rw [← items.reverse.append_nil] at next
  rw [bracketed, render]
  exact derives_items h next

theorem RendersBranch.whole {p : Pattern} (h : p.RendersBranch)
    (hslot : needsBrackets .branch p = false) : p.RendersWhole := by
  obtain ⟨items, hjoined, hsteps⟩ := h
  rw [bracketed, hslot] at hsteps
  exact ⟨[p], .one, fun rest => .lastBranch (hsteps _ _ _ .done) hjoined⟩

/-- In brackets, a whole is an item. -/
theorem RendersWhole.item {p : Pattern} (h : p.RendersWhole)
    (hslot : needsBrackets .item p = true) : p.RendersItem .sequence := by
  intro items after text rest next
  obtain ⟨branches, hvalue, hbranches⟩ := h
  have htext : bracketed .item p p.render ++ text = '(' :: (p.render ++ ')' :: text) := by
    simp [bracketed, hslot]
  rw [htext]
  exact .group (hbranches _) hvalue next

end Pattern

/-- Branches may be preceded by blanks. -/
theorem Derives.branches_of_spacing {charsets : List Charset} {values : List Pattern}
    {text middle rest : List Char} (hgap : Spacing text middle)
    (h : Derives (.branches charsets values) middle rest) :
    Derives (.branches charsets values) text rest := by
  cases h with
  | lastBranch h hvalue => exact .lastBranch (.gap hgap h) hvalue
  | branch h hvalue others => exact .branch (.gap hgap h) hvalue others

namespace Pattern

/-- Branches with bars between them. -/
theorem derives_branches {branches : List Pattern} (hne : branches ≠ [])
    (h : ∀ p ∈ branches, p.RendersBranch) (rest : List Char) :
    Derives (.branches [.latin1] branches)
      ([' ', '|', ' '].intercalate (renderEach .branch branches) ++ rest) rest := by
  induction branches with
  | nil => exact absurd rfl hne
  | cons p branches ih =>
    obtain ⟨items, hp, hsteps⟩ := h p (List.mem_cons_self ..)
    cases branches with
    | nil => simpa [renderEach] using Derives.lastBranch (hsteps _ _ _ .done) hp
    | cons q branches =>
      have hothers := ih (List.cons_ne_nil _ _) fun r hr => h r (List.mem_cons_of_mem _ hr)
      rw [intercalate_renderEach]
      exact .branch (hsteps _ _ _ (.gap (.blank (by decide)) .done)) hp
        (hothers.branches_of_spacing (.blank (by decide)))

/-! ## Trees -/

/-- What the text of a well-formed node is. -/
structure Renders (p : Pattern) : Prop where
  item : p.RendersItem .sequence
  member (h : p.isMember = true) : p.RendersItem .set
  branch : p.RendersBranch
  whole : p.RendersWhole

/-- What a set may hold has one text in all places. -/
theorem renders_of_member {p : Pattern} (hmember : p.isMember = true)
    (h : ∀ place, p.RendersItem place) : p.Renders := by
  have hslot (slot : Slot) := needsBrackets_of_member hmember slot
  have hbranch := (h .sequence).branch ((hslot .branch).trans (hslot .item).symm)
  exact ⟨h .sequence, fun _ => h .set, hbranch, hbranch.whole (hslot .branch)⟩

theorem WellFormed.renders {p : Pattern} (h : p.WellFormed) : p.Renders := by
  induction h with
  | byte value inverted =>
    exact renders_of_member rfl fun place => rendersItem_byte place value inverted
  | range first second inverted =>
    exact renders_of_member rfl fun place => rendersItem_range place first second inverted
  | any => exact renders_of_member rfl rendersItem_any
  | wild hmask htight inverted =>
    exact renders_of_member rfl fun place => rendersItem_wild hmask htight place inverted
  | anyBits htight inverted =>
    exact renders_of_member rfl fun place => rendersItem_anyBits htight place inverted
  | @exactString text hlength hlatin1 hquote =>
    have hvalue : quotedValue .exact text [.latin1] = string .exact text .latin1 := by
      match text, hlength with
      | _ :: _ :: _, _ => rfl
    have hne : text ≠ [] := by
      rintro rfl
      simp at hlength
    exact renders_of_member rfl (rendersItem_string hvalue hne hquote hlatin1)
  | foldedString hlength hlatin1 hquote =>
    have hne := List.ne_nil_of_length_pos hlength
    exact renders_of_member rfl (rendersItem_string rfl hne hquote hlatin1)
  | set hlength hmembers h inverted ih =>
    have hne := List.ne_nil_of_length_pos hlength
    exact renders_of_member rfl fun place =>
      rendersItem_set hne hmembers (fun p hp => (ih p hp).member (hmembers p hp)) place inverted
  | sequence hlength h ih =>
    have hbranch := rendersBranch_sequence hlength fun p hp => (ih p hp).item
    have hwhole := hbranch.whole rfl
    exact ⟨hwhole.item rfl, nofun, hbranch, hwhole⟩
  | @alternatives branches hlength hfew h ih =>
    have hne := List.ne_nil_of_length_pos (Nat.lt_of_lt_of_le Nat.zero_lt_two hlength)
    have hwhole : (Pattern.alternatives branches).RendersWhole := by
      refine ⟨branches, .plain hlength (Nat.lt_succ_of_le hfew), fun rest => ?_⟩
      rw [render]
      exact derives_branches hne (fun p hp => (ih p hp).branch) rest
    have hitem := hwhole.item rfl
    exact ⟨hitem, nofun, hitem.branch rfl, hwhole⟩
  | quantified hcount hoperand h ih =>
    have hitem := rendersItem_quantified hcount hoperand ih.item
    have hbranch := hitem.branch rfl
    exact ⟨hitem, nofun, hbranch, hbranch.whole rfl⟩

/-- The normal form of a well-formed tree denotes that tree. -/
theorem WellFormed.denotes {p : Pattern} (h : p.WellFormed) : Denotes p.render p := by
  obtain ⟨branches, hvalue, hbranches⟩ := h.renders.whole
  have htext := hbranches []
  rw [List.append_nil] at htext
  exact ⟨branches, htext, hvalue⟩

/-! ## Trees that were read -/

/-- In the charset of sets every character is one byte. -/
theorem isByteString_latin1 {c : Char} (h : c.toNat ≤ 0xff) :
    (string .exact [c] .latin1).isByteString = true := by
  simp [isByteString, Charset.encode?, Charset.encodeChar?, byteBelow, Nat.lt_succ_of_le h]

theorem wellFormed_string {casing : Casing} {text : List Char}
    (hbuilt : (string casing text .latin1).WellBuilt)
    (hbyte : (string casing text .latin1).isByteString = false) :
    (string casing text .latin1).WellFormed := by
  obtain ⟨hne, hquote, hencodable⟩ := hbuilt
  have hlatin1 := Charset.isSome_encode?.mp hencodable
  cases casing with
  | folded => exact .foldedString (List.length_pos_iff.mpr hne) hlatin1 hquote
  | exact =>
    match text, hne with
    | [c], _ =>
      rw [isByteString_latin1 (hlatin1 c (List.mem_singleton_self c))] at hbyte
      cases hbyte
    | _ :: _ :: _, _ => exact .exactString (by simp) hlatin1 hquote

/-- Strings of one text in different charsets are not all in one charset,
so without directives the children are sound on their own. -/
theorem Sound.of_latin1 {p child : Pattern} (h : p.Sound) (hlatin1 : p.Everywhere IsLatin1)
    (hchild : child ∈ p.children) : child.Sound ∧ child.Everywhere IsLatin1 := by
  obtain ⟨⟨hbuilt, hfan⟩, hchildren⟩ := everywhere_iff.mp h.2
  obtain ⟨-, hcharsets⟩ := everywhere_iff.mp hlatin1
  refine ⟨⟨?_, hchildren child hchild⟩, hcharsets child hchild⟩
  by_contra hbyte
  obtain ⟨text, charsets, rfl, hnodup⟩ := hfan child hchild (by simpa using hbyte)
  have hall : ∀ charset ∈ charsets, charset = .latin1 := fun charset hcharset =>
    hcharsets (string .exact text charset) (List.mem_map_of_mem hcharset) _ .here
  match charsets, hbuilt.1 with
  | first :: second :: others, _ =>
    have hfirst := hall first (by simp)
    have hsecond := hall second (by simp)
    simp [hfirst, hsecond] at hnodup

/-- Only the choice of a charset can keep a tree that is read from being
well formed. -/
theorem Sound.wellFormed {p : Pattern} (h : p.Sound) (hlatin1 : p.Everywhere IsLatin1) :
    p.WellFormed := by
  have hbuilt := h.wellBuilt
  induction p with
  | byte value inverted => exact .byte value inverted
  | range first second inverted => exact .range first second inverted
  | any => exact .any
  | wild bits inverted => exact .wild hbuilt.1 hbuilt.2 inverted
  | anyBits bits inverted => exact .anyBits hbuilt inverted
  | string casing text charset =>
    obtain rfl : charset = .latin1 := hlatin1 _ .here
    exact wellFormed_string hbuilt h.1
  | set members inverted ih =>
    refine .set (List.length_pos_iff.mpr hbuilt.1) hbuilt.2.1 (fun p hp => ?_) inverted
    obtain ⟨hp', hlatin1'⟩ := h.of_latin1 hlatin1 hp
    exact ih p hp hp' hlatin1' hp'.wellBuilt
  | sequence items ih =>
    refine .sequence hbuilt fun p hp => ?_
    obtain ⟨hp', hlatin1'⟩ := h.of_latin1 hlatin1 hp
    exact ih p hp hp' hlatin1' hp'.wellBuilt
  | alternatives branches ih =>
    refine .alternatives hbuilt.1 hbuilt.2 fun p hp => ?_
    obtain ⟨hp', hlatin1'⟩ := h.of_latin1 hlatin1 hp
    exact ih p hp hp' hlatin1' hp'.wellBuilt
  | quantified quantifier operand ih =>
    obtain ⟨hp', hlatin1'⟩ := h.of_latin1 hlatin1 (List.mem_singleton_self operand)
    exact .quantified hbuilt.2 hbuilt.1 (ih hp' hlatin1' hp'.wellBuilt)

end Pattern

/-- The text of a well-formed tree is read as the tree, and so is the text
of every tree that is read without the choice of a charset. -/
theorem parse_text (p : Pattern) :
    (p.WellFormed → parse p.text.toList = .ok p) ∧
      ∀ text, parse text = .ok p →
        (∀ casing body charset, (Pattern.string casing body charset).Within p →
          charset = .latin1) →
        parse p.text.toList = .ok p := by
  have hread : p.WellFormed → parse p.text.toList = .ok p := by
    intro h
    rw [Pattern.text, String.toList_ofList]
    exact h.denotes.parse_eq_ok
  refine ⟨hread, fun text h hlatin1 => hread ?_⟩
  refine (denotes_of_parse h).sound.wellFormed fun q hq => ?_
  cases q with
  | string casing body charset => exact hlatin1 casing body charset hq
  | _ => trivial

theorem parse_text_repeated :
    parse (Pattern.quantified (.exactly 2) (.sequence [.byte 0x00 true, .any])).text.toList =
        .ok (.quantified (.exactly 2) (.sequence [.byte 0x00 true, .any])) ∧
      parse (Pattern.string .exact ['a', 'b'] .latin1).text.toList =
        .ok (.string .exact ['a', 'b'] .latin1) := by
  have hitems : ∀ p ∈ [Pattern.byte 0x00 true, .any], p.WellFormed := by
    simp [Pattern.WellFormed.byte, Pattern.WellFormed.any]
  have hread : parse "  'ab'".toList = .ok (.string .exact ['a', 'b'] .latin1) := by
    with_unfolding_all rfl
  refine ⟨(parse_text _).1 (.quantified (by decide) rfl (.sequence (by decide) hitems)),
    (parse_text _).2 _ hread fun casing body charset h => ?_⟩
  cases h with
  | here => rfl
  | inside hchild h => cases hchild

end OctetPattern
