import Mathlib.Data.List.Basic
import OctetPattern.State
import OctetPattern.Proofs.Grammar
import OctetPattern.Proofs.Masks
import OctetPattern.Proofs.Outcome

/-!
# What tokens do

One lemma for each function of `State`: when it succeeds, and with what.
`Level.value` and `Branches.merged` are tied to `Joined` and
`Alternation`, and the value of a byte, an escape and a string to the
pattern that it is without an inversion (`Pending.operand?`).
-/

namespace OctetPattern

/-! ## Branches -/

namespace Branches

theorem plain_of_length {branches : List Pattern} (h : 2 ≤ branches.length) :
    plain branches = some (.alternatives branches) := by
  match branches, h with
  | _ :: _ :: _, _ => rfl

theorem collected_of_few {branches : List Pattern}
    (h : (branches.filter Pattern.matchesSinglePosition).length < 2) :
    collected branches = branches := by
  rw [collected, split_eq]
  exact if_pos h

theorem collected_of_many {branches : List Pattern}
    (h : 2 ≤ (branches.filter Pattern.matchesSinglePosition).length) :
    collected branches = branches.filter (fun p => !p.matchesSinglePosition) ++
      [.set (branches.filter Pattern.matchesSinglePosition) false] := by
  rw [collected, split_eq]
  exact if_neg (Nat.not_lt.mpr h)

theorem merged_of_alternation {branches : List Pattern} {p : Pattern}
    (h : Alternation branches p) : merged branches = some p := by
  cases h with
  | one =>
    have hfew : ([p].filter Pattern.matchesSinglePosition).length < 2 :=
      Nat.lt_of_le_of_lt (List.length_filter_le _ _) (by simp)
    rw [merged, collected_of_few hfew, plain]
  | plain hlength hfew => rw [merged, collected_of_few hfew, plain_of_length hlength]
  | set hlength hall =>
    have hsingles : branches.filter Pattern.matchesSinglePosition = branches :=
      List.filter_eq_self.mpr hall
    have hothers : branches.filter (fun p => !p.matchesSinglePosition) = [] :=
      List.filter_eq_nil_iff.mpr fun p hp => by simp [hall p hp]
    rw [merged, collected_of_many (by rwa [hsingles]), hsingles, hothers]
    rfl
  | mixed hmany hother =>
    obtain ⟨p, hp, hsingle⟩ := hother
    have hpos : 0 < (branches.filter (fun p => !p.matchesSinglePosition)).length :=
      List.length_pos_of_mem (List.mem_filter.mpr ⟨hp, by simp [hsingle]⟩)
    rw [merged, collected_of_many hmany, plain_of_length (by simp; omega)]

theorem exists_alternation {branches : List Pattern} (h : branches ≠ []) :
    ∃ p, Alternation branches p := by
  by_cases hone : branches.length < 2
  · match branches, h, hone with
    | [branch], _, _ => exact ⟨branch, .one⟩
  · have hlength := Nat.not_lt.mp hone
    by_cases hfew : (branches.filter Pattern.matchesSinglePosition).length < 2
    · exact ⟨_, .plain hlength hfew⟩
    · by_cases hall : ∀ p ∈ branches, p.matchesSinglePosition = true
      · exact ⟨_, .set hlength hall⟩
      · simp only [not_forall, Bool.not_eq_true] at hall
        obtain ⟨p, hp, hsingle⟩ := hall
        exact ⟨_, .mixed (Nat.not_lt.mp hfew) ⟨p, hp, hsingle⟩⟩

/-- `Alternation` says what branches amount to. -/
theorem merged_eq_some {branches : List Pattern} {p : Pattern} :
    merged branches = some p ↔ Alternation branches p := by
  refine ⟨fun h => ?_, merged_of_alternation⟩
  have hne : branches ≠ [] := by
    rintro rfl
    cases h
  obtain ⟨q, hq⟩ := exists_alternation hne
  obtain rfl : q = p := Option.some.inj ((merged_of_alternation hq).symm.trans h)
  exact hq

end Branches

/-! ## Levels -/

@[simp] theorem Pending.mustBeNone_eq_ok {pending : Pending} {follower : Follower} {u : Unit} :
    pending.mustBeNone follower = .ok u ↔ pending = .none := by
  cases pending <;> simp [mustBeNone]

namespace Level

theorem value_eq_ok {level : Level} {follower : Follower} {p : Pattern} :
    level.value follower = .ok p ↔ level.pending = .none ∧ Joined level.items p := by
  simp only [value, bind_eq_ok, Pending.mustBeNone_eq_ok, exists_and_left, exists_const]
  refine and_congr_right fun _ => ?_
  match level.items with
  | [] =>
    refine ⟨(nomatch ·), fun h => ?_⟩
    rcases h with _ | h
    simp at h
  | [item] =>
    refine ⟨fun h => ?_, fun h => ?_⟩
    · cases h
      exact .one
    · rcases h with _ | h
      · rfl
      · simp at h
  | item :: item' :: items =>
    refine ⟨fun h => ?_, fun h => ?_⟩
    · cases h
      exact .more (by simp)
    · cases h
      rfl

theorem set_eq_ok {level : Level} {inverted : Bool} {p : Pattern} :
    level.set inverted = .ok p ↔
      level.pending = .none ∧ level.items ≠ [] ∧ p = .set level.items.reverse inverted := by
  simp only [set, bind_eq_ok, Pending.mustBeNone_eq_ok, exists_and_left, exists_const,
    Pattern.ofMembers?]
  refine and_congr_right fun _ => ?_
  by_cases hitems : level.items = []
  · simp [hitems]
  · simp [hitems, @eq_comm _ p]

theorem store_eq_ok {level next : Level} {value : Pattern} :
    level.store value = .ok next ↔
      ∃ items, level.pending.store value level.items = .ok items ∧
        next = ⟨items, .none, level.charsets⟩ := by
  simp only [store, map_eq_ok, @eq_comm _ next]

end Level

/-! ## Values and pending modifiers -/

/-- A value as its modifier finds it: inverted, if the modifier is a caret. -/
def Pending.operand? (pending : Pending) (value : Pattern) : Option Pattern :=
  if pending.invertsValue then value.toggled? else some value

/-- A value finds its place among the items as its modifier demands. -/
def Pending.Stores (pending : Pending) (value : Pattern) (items items' : List Pattern) : Prop :=
  ∃ v, pending.operand? value = some v ∧ pending.store v items = .ok items'

section
variable {value : Pattern} {items items' : List Pattern}

theorem stores_none : Pending.none.Stores value items items' ↔ items' = value :: items := by
  simp [Pending.Stores, Pending.operand?, Pending.invertsValue, Pending.store, eq_comm]

theorem stores_inversion :
    Pending.inversion.Stores value items items' ↔
      ∃ v, value.toggled? = some v ∧ items' = v :: items := by
  simp [Pending.Stores, Pending.operand?, Pending.invertsValue, Pending.store, eq_comm]

theorem rangeBetween_eq_ok {first second p : Pattern} :
    rangeBetween first second = .ok p ↔
      ∃ low high inverted, first = .byte low inverted ∧ second = .byte high false ∧
        p = .range low high inverted := by
  constructor
  · intro h
    unfold rangeBetween at h
    split at h <;> cases h
    exact ⟨_, _, _, rfl, rfl, rfl⟩
  · rintro ⟨low, high, inverted, rfl, rfl, rfl⟩
    rfl

theorem stores_rangeEnd :
    Pending.rangeEnd.Stores value items items' ↔
      ∃ first second inverted others, value = .byte second false ∧
        items = .byte first inverted :: others ∧
        items' = .range first second inverted :: others := by
  constructor
  · rintro ⟨v, hv, hstore⟩
    obtain rfl := Option.some.inj hv
    cases items with
    | nil => cases hstore
    | cons first others =>
      obtain ⟨range, hrange, rfl⟩ := map_eq_ok.mp hstore
      obtain ⟨low, high, inverted, rfl, rfl, rfl⟩ := rangeBetween_eq_ok.mp hrange
      exact ⟨_, _, _, _, rfl, rfl, rfl⟩
  · rintro ⟨first, second, inverted, others, rfl, rfl, rfl⟩
    exact ⟨_, rfl, rfl⟩

theorem stores_anyBits {inverted : Bool} :
    (Pending.anyBits inverted).Stores value items items' ↔
      ∃ bits, value.masked? = some bits ∧ items' = .anyBits bits inverted :: items := by
  cases value <;>
    simp [Pending.Stores, Pending.operand?, Pending.invertsValue, Pending.store, anyBitsOf,
      Pattern.masked?, Except.map, eq_comm]

end

theorem escape_pattern_true (escape : Escape) :
    (escape.pattern false).toggled? = some (escape.pattern true) := by
  cases escape with
  | byte value => rfl
  | byteClass c =>
    obtain ⟨base, negated⟩ := c
    cases base <;> rfl

theorem ofMasked_true (bits : MaskedByte) :
    (Pattern.ofMasked bits false).toggled? = some (.ofMasked bits true) := by
  by_cases hwild : bits.isWild = true
  · simp [Pattern.ofMasked, hwild, Pattern.toggled?]
  · simp [Pattern.ofMasked, hwild, Pattern.toggled?]

@[simp] theorem Pending.operand?_escape (pending : Pending) (escape : Escape) :
    pending.operand? (escape.pattern false) = some (escape.pattern pending.invertsValue) := by
  rw [operand?]
  cases pending.invertsValue with
  | false => rfl
  | true => exact escape_pattern_true escape

@[simp] theorem Pending.operand?_ofMasked (pending : Pending) (bits : MaskedByte) :
    pending.operand? (.ofMasked bits false) = some (.ofMasked bits pending.invertsValue) := by
  rw [operand?]
  cases pending.invertsValue with
  | false => rfl
  | true => exact ofMasked_true bits

@[simp] theorem Pending.operand?_set (pending : Pending) (members : List Pattern) :
    pending.operand? (.set members false) = some (.set members pending.invertsValue) := by
  rw [operand?]
  cases pending.invertsValue <;> rfl

/-! ## Strings -/

theorem encoded_eq_ok {text : List Char} {charset : Charset} {encoding : Charset × List UInt8} :
    encoded text charset = .ok encoding ↔
      encoding.1 = charset ∧ charset.encode? text = some encoding.2 := by
  obtain ⟨charset', bytes⟩ := encoding
  rw [encoded]
  split
  · rename_i hnone
    simp [hnone]
  · rename_i bytes' hbytes
    simp [hbytes, eq_comm]

theorem mapM_encoded_eq_ok {text : List Char} {charsets : List Charset}
    {encodings : List (Charset × List UInt8)} :
    charsets.mapM (encoded text) = .ok encodings ↔
      encodings.map Prod.fst = charsets ∧
        ∀ encoding ∈ encodings, encoding.1.encode? text = some encoding.2 := by
  induction charsets generalizing encodings with
  | nil => cases encodings <;> simp [pure, Except.pure]
  | cons charset charsets ih =>
    simp only [List.mapM_cons, bind_eq_ok, encoded_eq_ok, ih, pure, Except.pure]
    constructor
    · rintro ⟨encoding, ⟨rfl, hfirst⟩, encodings, ⟨rfl, hothers⟩, ⟨⟩⟩
      refine ⟨rfl, fun e he => ?_⟩
      rcases List.mem_cons.mp he with rfl | he
      · exact hfirst
      · exact hothers e he
    · rintro ⟨hcharsets, hall⟩
      cases encodings with
      | nil => cases hcharsets
      | cons encoding encodings =>
        obtain ⟨hfst, hmap⟩ := List.cons.inj hcharsets
        refine ⟨encoding, ⟨hfst, hfst ▸ hall encoding (List.mem_cons_self ..)⟩, encodings,
          ⟨hmap, fun e he => hall e (List.mem_cons_of_mem _ he)⟩, rfl⟩

theorem exists_encodings {text : List Char} {charsets : List Charset}
    (h : ∀ charset ∈ charsets, (charset.encode? text).isSome = true) :
    ∃ encodings, charsets.mapM (encoded text) = .ok encodings := by
  refine ⟨charsets.map fun charset => (charset, (charset.encode? text).getD []), ?_⟩
  refine mapM_encoded_eq_ok.mpr ⟨by simp [Function.comp_def], fun encoding hencoding => ?_⟩
  obtain ⟨charset, hcharset, rfl⟩ := List.mem_map.mp hencoding
  obtain ⟨bytes, hbytes⟩ := Option.isSome_iff_exists.mp (h charset hcharset)
  simp [hbytes]

/-- A value without an inversion of its own is refused under a caret. -/
theorem operand?_of_toggled?_none {pending : Pending} {casing : Casing} {v : Pattern}
    (value : Pattern) (h : value.toggled? = none) :
    (if pending.invertsValue then .error (.invertedString casing) else .ok value :
      Except Cause Pattern) = .ok v ↔ pending.operand? value = some v := by
  rw [Pending.operand?]
  cases pending.invertsValue <;> simp [h]

/-- The value of a string that all charsets encode is `quotedValue`, if
that can carry the inversion asked for. -/
theorem stringValue_of_encoded {casing : Casing} {text : List Char} {charsets : List Charset}
    {pending : Pending} {value : Pattern} {encodings : List (Charset × List UInt8)}
    (hmap : charsets.mapM (encoded text) = .ok encodings) :
    stringValue casing text charsets pending.invertsValue = .ok value ↔
      pending.operand? (quotedValue casing text charsets) = some value := by
  rw [stringValue, hmap]
  obtain ⟨rfl, hbytes⟩ := mapM_encoded_eq_ok.mp hmap
  rcases encodings with _ | ⟨⟨charset, bytes⟩, _ | ⟨encoding, encodings⟩⟩
  · rcases casing <;> rcases text with _ | ⟨c, _ | ⟨d, text⟩⟩ <;>
      exact operand?_of_toggled?_none (.alternatives []) rfl
  · -- only here, and for one character in one byte, is the value a byte
    have hencode := hbytes _ (List.mem_cons_self ..)
    simp only [List.map_cons, List.map_nil, quotedValue, hencode, stringsIn]
    rcases casing with _ | _
    · rcases text with _ | ⟨c, _ | ⟨d, text⟩⟩
      · exact operand?_of_toggled?_none (.string .exact [] charset) rfl
      · rcases bytes with _ | ⟨byte, _ | ⟨next, bytes⟩⟩
        · exact operand?_of_toggled?_none (.string .exact [c] charset) rfl
        · rcases pending <;> simp [bind, Except.bind, Pending.operand?, Pending.invertsValue,
            Pattern.toggled?]
        · exact operand?_of_toggled?_none (.string .exact [c] charset) rfl
      · exact operand?_of_toggled?_none (.string .exact (c :: d :: text) charset) rfl
    · exact operand?_of_toggled?_none (.string .folded text charset) rfl
  · rcases casing <;> rcases text with _ | ⟨c, _ | ⟨d, text⟩⟩ <;>
      rcases bytes with _ | ⟨byte, _ | ⟨next, bytes⟩⟩ <;>
      exact operand?_of_toggled?_none (.alternatives _) rfl

/-- A string has a value when all its charsets encode it and
`quotedValue` can carry the inversion asked for. -/
theorem stringValue_eq_ok {casing : Casing} {text : List Char} {charsets : List Charset}
    {pending : Pending} {value : Pattern} :
    stringValue casing text charsets pending.invertsValue = .ok value ↔
      (∀ charset ∈ charsets, (charset.encode? text).isSome = true) ∧
        pending.operand? (quotedValue casing text charsets) = some value := by
  constructor
  · intro h
    obtain ⟨encodings, hmap, -⟩ := bind_eq_ok.mp h
    refine ⟨fun charset hcharset => ?_, (stringValue_of_encoded hmap).mp h⟩
    obtain ⟨rfl, hbytes⟩ := mapM_encoded_eq_ok.mp hmap
    obtain ⟨encoding, hencoding, rfl⟩ := List.mem_map.mp hcharset
    rw [hbytes encoding hencoding]
    rfl
  · rintro ⟨hall, hvalue⟩
    obtain ⟨encodings, hmap⟩ := exists_encodings hall
    exact (stringValue_of_encoded hmap).mpr hvalue

/-! ## States -/

/-- What is read at a place of this kind. -/
def Context.place : Context → Place
  | .whole _ | .group _ _ _ => .sequence
  | .set _ _ => .set

/-- The context with one more branch, if it has branches. -/
def Context.push? (branch : Pattern) : Context → Option Context
  | .whole branches => some (.whole (branch :: branches))
  | .group branches outer outside => some (.group (branch :: branches) outer outside)
  | .set _ _ => none

theorem Context.place_of_push? {context frame : Context} {branch : Pattern}
    (h : context.push? branch = some frame) : context.place = .sequence := by
  cases context with
  | whole | group => rfl
  | set => cases h

namespace State

variable {combine : Combine} {context : Context} {items : List Pattern} {pending : Pending}
  {charsets : List Charset} {next : State}

theorem inSet_iff {s : State} : s.inSet = true ↔ s.context.place = .set := by
  obtain ⟨context, level⟩ := s
  cases context <;> simp [inSet, Context.place]

theorem place_of_not_inSet {s : State} (h : ¬ s.inSet = true) : s.context.place = .sequence := by
  rw [inSet_iff] at h
  cases hplace : s.context.place with
  | sequence => rfl
  | set => exact absurd hplace h

theorem stringCharsets_eq (s : State) :
    s.stringCharsets = s.context.place.charsets s.level.charsets := by
  obtain ⟨context, level⟩ := s
  cases context <;> rfl

theorem store_eq_ok {value : Pattern} :
    State.store ⟨context, ⟨items, pending, charsets⟩⟩ value = .ok next ↔
      ∃ items', pending.store value items = .ok items' ∧
        next = ⟨context, ⟨items', .none, charsets⟩⟩ := by
  simp only [store, onLevel, map_eq_ok, Level.store_eq_ok, @eq_comm _ next]
  constructor
  · rintro ⟨level, ⟨items', hstore, rfl⟩, rfl⟩
    exact ⟨items', hstore, rfl⟩
  · rintro ⟨items', hstore, rfl⟩
    exact ⟨_, ⟨items', hstore, rfl⟩, rfl⟩

/-! ### Modifiers -/

/-- A modifier changes what waits and nothing else. -/
theorem onPending_eq_ok {f : Pending → Except Cause Pending} :
    State.onPending ⟨context, ⟨items, pending, charsets⟩⟩ f = .ok next ↔
      ∃ waiting, f pending = .ok waiting ∧ next = ⟨context, ⟨items, waiting, charsets⟩⟩ := by
  simp only [onPending, onLevel, map_eq_ok, @eq_comm _ next]
  constructor
  · rintro ⟨level, ⟨waiting, hwaiting, rfl⟩, rfl⟩
    exact ⟨waiting, hwaiting, rfl⟩
  · rintro ⟨waiting, hwaiting, rfl⟩
    exact ⟨_, ⟨waiting, hwaiting, rfl⟩, rfl⟩

theorem invert_eq_ok {waiting : Pending} :
    pending.invert = .ok waiting ↔ pending = .none ∧ waiting = .inversion := by
  cases pending <;> simp [Pending.invert, eq_comm]

theorem openAnyBits_eq_ok {waiting : Pending} :
    pending.openAnyBits = .ok waiting ↔
      pending = .none ∧ waiting = .anyBits false ∨
        pending = .inversion ∧ waiting = .anyBits true := by
  cases pending <;> simp [Pending.openAnyBits, eq_comm]

theorem openRange_eq_ok {next : Pending} :
    pending.openRange items = .ok next ↔
      pending = .none ∧ next = .rangeEnd ∧
        ∃ first inverted others, items = .byte first inverted :: others := by
  constructor
  · intro h
    unfold Pending.openRange at h
    split at h <;> cases h
    exact ⟨rfl, rfl, _, _, _, rfl⟩
  · rintro ⟨rfl, rfl, first, inverted, others, rfl⟩
    rfl

theorem accept_caret :
    State.accept combine ⟨context, ⟨items, pending, charsets⟩⟩ .caret = .ok next ↔
      pending = .none ∧ next = ⟨context, ⟨items, .inversion, charsets⟩⟩ := by
  change State.onPending _ _ = _ ↔ _
  simp only [onPending_eq_ok, invert_eq_ok]
  constructor
  · rintro ⟨_, ⟨rfl, rfl⟩, rfl⟩
    exact ⟨rfl, rfl⟩
  · rintro ⟨rfl, rfl⟩
    exact ⟨_, ⟨rfl, rfl⟩, rfl⟩

theorem accept_tilde :
    State.accept combine ⟨context, ⟨items, pending, charsets⟩⟩ .tilde = .ok next ↔
      pending = .none ∧ next = ⟨context, ⟨items, .anyBits false, charsets⟩⟩ ∨
        pending = .inversion ∧ next = ⟨context, ⟨items, .anyBits true, charsets⟩⟩ := by
  change State.onPending _ _ = _ ↔ _
  simp only [onPending_eq_ok, openAnyBits_eq_ok]
  constructor
  · rintro ⟨_, ⟨rfl, rfl⟩ | ⟨rfl, rfl⟩, rfl⟩
    · exact .inl ⟨rfl, rfl⟩
    · exact .inr ⟨rfl, rfl⟩
  · rintro (⟨rfl, rfl⟩ | ⟨rfl, rfl⟩)
    · exact ⟨_, .inl ⟨rfl, rfl⟩, rfl⟩
    · exact ⟨_, .inr ⟨rfl, rfl⟩, rfl⟩

theorem accept_dash :
    State.accept combine ⟨context, ⟨items, pending, charsets⟩⟩ .dash = .ok next ↔
      pending = .none ∧ next = ⟨context, ⟨items, .rangeEnd, charsets⟩⟩ ∧
        ∃ first inverted others, items = .byte first inverted :: others := by
  change State.onPending _ (·.openRange items) = _ ↔ _
  simp only [onPending_eq_ok, openRange_eq_ok]
  constructor
  · rintro ⟨_, ⟨rfl, rfl, hitems⟩, rfl⟩
    exact ⟨rfl, rfl, hitems⟩
  · rintro ⟨rfl, rfl, hitems⟩
    exact ⟨_, ⟨rfl, rfl, hitems⟩, rfl⟩

theorem pending_of_accept {token : Token} (htoken : token ∈ [.caret, .dash, .tilde])
    (h : State.accept combine ⟨context, ⟨items, pending, charsets⟩⟩ token = .ok next) :
    ∃ waiting, next = ⟨context, ⟨items, waiting, charsets⟩⟩ := by
  have hpending : ∃ f, State.onPending ⟨context, ⟨items, pending, charsets⟩⟩ f = .ok next := by
    have hcases : token = .caret ∨ token = .dash ∨ token = .tilde := by simpa using htoken
    rcases hcases with rfl | rfl | rfl
    · exact ⟨Pending.invert, h⟩
    · exact ⟨(·.openRange items), h⟩
    · exact ⟨Pending.openAnyBits, h⟩
  obtain ⟨f, hf⟩ := hpending
  obtain ⟨waiting, -, hnext⟩ := onPending_eq_ok.mp hf
  exact ⟨waiting, hnext⟩

/-! ### Values -/

theorem store_operand {value : Pattern} :
    (∃ v, pending.operand? value = some v ∧
        State.store ⟨context, ⟨items, pending, charsets⟩⟩ v = .ok next) ↔
      ∃ items', pending.Stores value items items' ∧
        next = ⟨context, ⟨items', .none, charsets⟩⟩ := by
  simp only [store_eq_ok]
  constructor
  · rintro ⟨v, hv, items', hstore, rfl⟩
    exact ⟨items', ⟨v, hv, hstore⟩, rfl⟩
  · rintro ⟨items', ⟨v, hv, hstore⟩, rfl⟩
    exact ⟨v, hv, items', hstore, rfl⟩

theorem accept_any :
    State.accept combine ⟨context, ⟨items, pending, charsets⟩⟩ .any = .ok next ↔
      pending = .none ∧ next = ⟨context, ⟨.any :: items, .none, charsets⟩⟩ := by
  change State.anyByte _ = _ ↔ _
  simp only [anyByte]
  cases pending with
  | none => simp [Pending.invertsValue, store_eq_ok, Pending.store]
  | inversion => simp [Pending.invertsValue]
  | rangeEnd =>
    simp only [Pending.invertsValue, Bool.false_eq_true, if_false, store_eq_ok]
    rcases items with _ | ⟨first, items⟩
    · simp [Pending.store]
    · cases first <;> simp [Pending.store, rangeBetween, Except.map]
  | anyBits =>
    simp [Pending.invertsValue, store_eq_ok, Pending.store, anyBitsOf, Except.map]

theorem accept_byte {bits : MaskedByte} :
    State.accept combine ⟨context, ⟨items, pending, charsets⟩⟩ (.byte bits) = .ok next ↔
      ∃ items', pending.Stores (.ofMasked bits false) items items' ∧
        next = ⟨context, ⟨items', .none, charsets⟩⟩ := by
  rw [← store_operand]
  change State.store _ _ = _ ↔ _
  simp

theorem accept_escape {escape : Escape} :
    State.accept combine ⟨context, ⟨items, pending, charsets⟩⟩ (.escape escape) = .ok next ↔
      ∃ items', pending.Stores (escape.pattern false) items items' ∧
        next = ⟨context, ⟨items', .none, charsets⟩⟩ := by
  rw [← store_operand]
  change State.store _ _ = _ ↔ _
  simp

theorem accept_quoted {casing : Casing} {text : List Char} :
    State.accept combine ⟨context, ⟨items, pending, charsets⟩⟩ (.quoted casing text) =
        .ok next ↔
      (∀ charset ∈ context.place.charsets charsets, (charset.encode? text).isSome = true) ∧
        ∃ items', pending.Stores (quotedValue casing text (context.place.charsets charsets))
            items items' ∧
          next = ⟨context, ⟨items', .none, charsets⟩⟩ := by
  rw [← store_operand]
  change State.quoted _ _ _ = _ ↔ _
  simp only [quoted, bind_eq_ok, stringCharsets_eq, stringValue_eq_ok]
  constructor
  · rintro ⟨v, ⟨hencodable, hv⟩, hstore⟩
    exact ⟨hencodable, v, hv, hstore⟩
  · rintro ⟨hencodable, v, hv, hstore⟩
    exact ⟨v, ⟨hencodable, hv⟩, hstore⟩

/-! ### Quantifiers -/

theorem operand?_eq_ok {symbol : Char} {split : Pattern × List Pattern} :
    OctetPattern.operand? symbol items = .ok split ↔
      items = split.1 :: split.2 ∧ split.1.isQuantifiable = true := by
  obtain ⟨operand, others⟩ := split
  cases items with
  | nil => simp [OctetPattern.operand?]
  | cons first items =>
    by_cases hfirst : first.isQuantifiable = true
    · simp only [OctetPattern.operand?, hfirst, if_true]
      constructor
      · rintro ⟨⟩
        exact ⟨rfl, hfirst⟩
      · rintro ⟨⟨⟩, -⟩
        rfl
    · simp only [OctetPattern.operand?, hfirst]
      constructor
      · rintro ⟨⟩
      · rintro ⟨⟨⟩, h⟩
        exact absurd h hfirst

theorem quantify_eq_ok {quantifier : Quantifier} {items' : List Pattern} :
    OctetPattern.quantify quantifier items = .ok items' ↔
      ∃ operand others, items = operand :: others ∧ operand.isQuantifiable = true ∧
        items' = .quantified quantifier operand :: others := by
  simp only [OctetPattern.quantify, map_eq_ok, operand?_eq_ok]
  constructor
  · rintro ⟨⟨operand, others⟩, ⟨hitems, hoperand⟩, rfl⟩
    exact ⟨operand, others, hitems, hoperand, rfl⟩
  · rintro ⟨operand, others, hitems, hoperand, rfl⟩
    exact ⟨(operand, others), ⟨hitems, hoperand⟩, rfl⟩

theorem accept_quantifier {quantifier : Quantifier} :
    State.accept combine ⟨context, ⟨items, pending, charsets⟩⟩ (.quantifier quantifier) =
        .ok next ↔
      context.place = .sequence ∧ pending = .none ∧
        ∃ operand others, items = operand :: others ∧ operand.isQuantifiable = true ∧
          next = ⟨context, ⟨.quantified quantifier operand :: others, .none, charsets⟩⟩ := by
  change State.quantify _ _ = _ ↔ _
  simp only [quantify, onLevel, Level.quantify]
  by_cases hset : State.inSet ⟨context, ⟨items, pending, charsets⟩⟩ = true
  · have hplace : context.place = .set := inSet_iff.mp hset
    simp [hset, hplace]
  · have hplace : context.place = .sequence := place_of_not_inSet hset
    simp only [if_neg hset, map_eq_ok, bind_eq_ok, Pending.mustBeNone_eq_ok, quantify_eq_ok]
    constructor
    · rintro ⟨level, ⟨-, rfl, items', ⟨operand, others, rfl, hoperand, rfl⟩, ⟨⟩⟩, rfl⟩
      exact ⟨hplace, rfl, operand, others, rfl, hoperand, rfl⟩
    · rintro ⟨-, rfl, operand, others, rfl, hoperand, rfl⟩
      exact ⟨_, ⟨(), rfl, _, ⟨operand, others, rfl, hoperand, rfl⟩, rfl⟩, rfl⟩

/-! ### Groups and sets -/

theorem accept_bar :
    State.accept combine ⟨context, ⟨items, pending, charsets⟩⟩ .bar = .ok next ↔
      ∃ branch frame, pending = .none ∧ Joined items branch ∧
        context.push? branch = some frame ∧ next = ⟨frame, .fresh charsets⟩ := by
  change State.nextBranch _ = _ ↔ _
  cases context with
  | set => simp [nextBranch, Context.push?]
  | whole | group =>
    simp only [nextBranch, bind_eq_ok, Level.value_eq_ok, Context.push?]
    constructor
    · rintro ⟨branch, ⟨rfl, hbranch⟩, ⟨⟩⟩
      exact ⟨branch, _, rfl, hbranch, rfl, rfl⟩
    · rintro ⟨branch, _, rfl, hbranch, ⟨⟩, rfl⟩
      exact ⟨branch, ⟨rfl, hbranch⟩, rfl⟩

theorem accept_openGroup :
    State.accept combine ⟨context, ⟨items, pending, charsets⟩⟩ .openGroup = .ok next ↔
      context.place = .sequence ∧ pending = .none ∧
        next = ⟨.group [] ⟨items, .none, charsets⟩ context, .fresh charsets⟩ := by
  change State.openGroup _ = _ ↔ _
  simp only [openGroup]
  by_cases hset : State.inSet ⟨context, ⟨items, pending, charsets⟩⟩ = true
  · have hplace : context.place = .set := inSet_iff.mp hset
    simp [hset, hplace]
  · have hplace : context.place = .sequence := place_of_not_inSet hset
    simp only [hset, hplace, true_and]
    cases pending <;> simp [Pending.allowsGroup, bind, Except.bind, pure, Except.pure, eq_comm]

theorem combineWith_eq_ok {branches : List Pattern} {level : Level} {follower : Follower}
    {p : Pattern} :
    combineWith combine branches level follower = .ok p ↔
      ∃ branch, level.pending = .none ∧ Joined level.items branch ∧
        combine (branch :: branches).reverse = some p := by
  simp only [combineWith, bind_eq_ok, Level.value_eq_ok]
  constructor
  · rintro ⟨branch, ⟨hpending, hbranch⟩, h⟩
    split at h
    · cases h
    · rename_i hcombine
      cases h
      exact ⟨branch, hpending, hbranch, hcombine⟩
  · rintro ⟨branch, hpending, hbranch, hcombine⟩
    exact ⟨branch, ⟨hpending, hbranch⟩, by rw [hcombine]⟩

theorem accept_closeGroup :
    State.accept combine ⟨context, ⟨items, pending, charsets⟩⟩ .closeGroup = .ok next ↔
      ∃ branches outer outside branch p, context = .group branches outer outside ∧
        pending = .none ∧ Joined items branch ∧
        combine (branch :: branches).reverse = some p ∧
        State.store ⟨outside, outer⟩ p = .ok next := by
  change State.closeGroup _ _ = _ ↔ _
  cases context with
  | set => simp [closeGroup]
  | whole => simp [closeGroup, bind_eq_ok]
  | group branches outer outside =>
    simp only [closeGroup, bind_eq_ok, combineWith_eq_ok]
    constructor
    · rintro ⟨p, ⟨branch, rfl, hbranch, hcombine⟩, hstore⟩
      exact ⟨_, _, _, branch, p, rfl, rfl, hbranch, hcombine, hstore⟩
    · rintro ⟨_, _, _, branch, p, ⟨⟩, rfl, hbranch, hcombine, hstore⟩
      exact ⟨p, ⟨branch, rfl, hbranch, hcombine⟩, hstore⟩

theorem accept_openSet :
    State.accept combine ⟨context, ⟨items, pending, charsets⟩⟩ .openSet = .ok next ↔
      next = ⟨.set ⟨items, pending, charsets⟩ context, .fresh charsets⟩ := by
  change Except.ok (State.openSet _) = _ ↔ _
  simp [openSet, eq_comm]

theorem accept_closeSet :
    State.accept combine ⟨context, ⟨items, pending, charsets⟩⟩ .closeSet = .ok next ↔
      ∃ outer outside items', context = .set outer outside ∧ pending = .none ∧ items ≠ [] ∧
        outer.pending.Stores (.set items.reverse false) outer.items items' ∧
        next = ⟨outside, ⟨items', .none, outer.charsets⟩⟩ := by
  change State.closeSet _ = _ ↔ _
  cases context with
  | whole | group => simp [closeSet]
  | set outer outside =>
    obtain ⟨items₀, pending₀, charsets₀⟩ := outer
    have hstore : (∃ v, pending₀.operand? (.set items.reverse false) = some v ∧
        State.store ⟨outside, ⟨items₀, pending₀, charsets₀⟩⟩ v = .ok next) ↔ _ := store_operand
    simp only [Pending.operand?_set] at hstore
    simp only [closeSet, bind_eq_ok, Level.set_eq_ok]
    constructor
    · rintro ⟨_, ⟨rfl, hitems, rfl⟩, h⟩
      obtain ⟨items', hstores, rfl⟩ := hstore.mp ⟨_, rfl, h⟩
      exact ⟨_, _, items', rfl, rfl, hitems, hstores, rfl⟩
    · rintro ⟨_, _, items', ⟨⟩, rfl, hitems, hstores, hnext⟩
      obtain ⟨_, ⟨⟩, h⟩ := hstore.mpr ⟨items', hstores, hnext⟩
      exact ⟨_, ⟨rfl, hitems, rfl⟩, h⟩

/-! ### The end of the text -/

theorem finish_eq_ok {p : Pattern} :
    State.finish combine ⟨context, ⟨items, pending, charsets⟩⟩ = .ok p ↔
      ∃ branches branch, context = .whole branches ∧ pending = .none ∧ Joined items branch ∧
        combine (branch :: branches).reverse = some p := by
  cases context with
  | set => simp [finish]
  | group => simp [finish, bind_eq_ok]
  | whole branches =>
    simp only [finish, combineWith_eq_ok]
    constructor
    · rintro ⟨branch, rfl, hbranch, hcombine⟩
      exact ⟨_, branch, rfl, rfl, hbranch, hcombine⟩
    · rintro ⟨_, branch, ⟨⟩, rfl, hbranch, hcombine⟩
      exact ⟨branch, rfl, hbranch, hcombine⟩

end State
end OctetPattern
