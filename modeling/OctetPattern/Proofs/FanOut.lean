import OctetPattern.Proofs.Refusing

/-!
# A string under a directive

What a directive and the string after it amount to, whatever the names
and the text are (`parse_directed`). The names are looked up first, and
the first that is unknown is quoted at the end of the directive. Then the
text is put into each charset, where one that is named again does not
count, and the first charset that lacks a character is named at the end
of the string, with the text in quotes. Otherwise there is one string for
each charset, or a byte.

Names and charsets are both tried one after another, so that the first
that fails decides (`mapM_eq_error`).
-/

namespace OctetPattern

/-! ## First failures -/

/-- What is tried one after another fails as the first that fails. -/
theorem mapM_eq_error {ε α β : Type} {f : α → Except ε β} {fails : α → Bool}
    (hok : ∀ a, fails a = false → ∃ b, f a = .ok b) {a : α} {e : ε} (he : f a = .error e)
    {all : List α} (hfirst : all.find? fails = some a) : all.mapM f = .error e := by
  induction all with
  | nil => cases hfirst
  | cons head all ih =>
    rw [List.mapM_cons]
    cases hhead : fails head with
    | true =>
      rw [List.find?_cons_of_pos hhead] at hfirst
      obtain rfl := Option.some.inj hfirst
      rw [he]
      rfl
    | false =>
      rw [List.find?_cons_of_neg (by simp [hhead])] at hfirst
      obtain ⟨b, hb⟩ := hok head hhead
      rw [hb, ih hfirst]
      rfl

/-- A charset of this name is not known. -/
def isUnknown (name : List Char) : Bool :=
  (Charset.ofName? name).isNone

/-- The text has a character that the charset lacks. -/
def lacks (text : List Char) (charset : Charset) : Bool :=
  (charset.encode? text).isNone

theorem mapM_charsetNamed_eq_error {names : List (List Char)} {name : List Char}
    (h : names.find? isUnknown = some name) :
    names.mapM charsetNamed = .error (.unknownCharset (trimmed name)) := by
  refine mapM_eq_error (fun name hknown => ?_) ?_ h
  · obtain ⟨charset, hcharset⟩ := Option.isSome_iff_exists.mp (Option.isNone_eq_false_iff.mp hknown)
    exact ⟨charset, charsetNamed_eq_ok.mpr hcharset⟩
  · have hunknown : Charset.ofName? name = none := by
      simpa [isUnknown] using List.find?_some h
    rw [charsetNamed, hunknown]

/-- Known names stand for their charsets. -/
theorem named_of_known {names : List (List Char)} {text : List Char}
    (hsplit : text.splitOn ',' = names) (h : names.find? isUnknown = none) :
    Named text (names.filterMap Charset.ofName?).eraseDups := by
  refine ⟨_, ?_, rfl⟩
  rw [hsplit]
  clear hsplit
  induction names with
  | nil => rfl
  | cons name names ih =>
    rw [List.find?_cons] at h
    split at h
    · cases h
    · rename_i hknown
      obtain ⟨charset, hcharset⟩ :=
        Option.isSome_iff_exists.mp (Option.isNone_eq_false_iff.mp hknown)
      rw [List.map_cons, ih h, List.filterMap_cons_some hcharset, hcharset, List.map_cons]

theorem stringValue_eq_error {casing : Casing} {text : List Char} {charsets : List Charset}
    {charset : Charset} (inverted : Bool) (h : charsets.find? (lacks text) = some charset) :
    stringValue casing text charsets inverted = .error (.unencodable text charset) := by
  have hmap : charsets.mapM (encoded text) = .error (.unencodable text charset) := by
    refine mapM_eq_error (fun charset hhas => ?_) ?_ h
    · obtain ⟨bytes, hbytes⟩ := Option.isSome_iff_exists.mp (Option.isNone_eq_false_iff.mp hhas)
      exact ⟨(charset, bytes), encoded_eq_ok.mpr ⟨rfl, hbytes⟩⟩
    · have hlacks : charset.encode? text = none := by
        simpa [lacks] using List.find?_some h
      rw [encoded, hlacks]
  rw [stringValue, hmap]
  rfl

/-! ## Directives before strings -/

/-- A directive of the given names. -/
def directiveText (names : List (List Char)) : List Char :=
  '(' :: '*' :: ([','].intercalate names ++ [')'])

/-- A directive of the given names, and a string. -/
def directedText (names : List (List Char)) (casing : Casing) (text : List Char) : List Char :=
  directiveText names ++ casing.quote :: (text ++ [casing.quote])

/-- What becomes of a string after a directive, or what is reported. -/
def directed (names : List (List Char)) (casing : Casing) (text : List Char) :
    Except Report Pattern :=
  match names.find? isUnknown with
  | some name =>
    .error ⟨.unknownCharset, (directiveText names).length,
      "unknown charset " ++ quotedText (trimmed name)⟩
  | none =>
    let charsets := (names.filterMap Charset.ofName?).eraseDups
    match charsets.find? (lacks text) with
    | some charset =>
      .error ⟨.unencodableString, (directedText names casing text).length,
        quotedText text ++ " cannot be encoded in " ++ charset.name⟩
    | none => .ok (quotedValue casing text charsets)

/-- A character that is in none of the parts is not in the whole. -/
theorem not_mem_intercalate {sep c : Char} (hsep : c ≠ sep) {parts : List (List Char)}
    (h : ∀ part ∈ parts, c ∉ part) : c ∉ [sep].intercalate parts := by
  induction parts with
  | nil => simp
  | cons part parts ih =>
    have hpart : c ∉ part := h part (List.mem_cons_self ..)
    have hparts := ih fun part hmem => h part (List.mem_cons_of_mem _ hmem)
    cases parts with
    | nil => simpa using hpart
    | cons other parts =>
      rw [List.intercalate_cons_cons]
      simp [hpart, hsep, hparts]

theorem directiveText_append (names : List (List Char)) (rest : List Char) :
    directiveText names ++ rest = '(' :: '*' :: ([','].intercalate names ++ ')' :: rest) := by
  simp [directiveText]

theorem length_directiveText (names : List (List Char)) :
    (directiveText names).length = 2 + ([','].intercalate names).length + 1 := by
  simp only [directiveText, List.length_cons, List.length_append, List.length_nil]
  omega

section
variable {combine : Combine} {names : List (List Char)}
  (hfree : ∀ name ∈ names, ',' ∉ name ∧ ')' ∉ name)
include hfree

/-- The directive ends at its own bracket. -/
theorem not_mem_names : ')' ∉ [','].intercalate names :=
  not_mem_intercalate (by decide) fun name hmem => (hfree name hmem).2

/-- The names are told apart as they were put together. -/
theorem splitOn_names (hne : names ≠ []) : ([','].intercalate names).splitOn ',' = names :=
  List.splitOn_intercalate ',' (fun name hmem => (hfree name hmem).1) hne

theorem run_directive_eq_error (hne : names ≠ []) {name : List Char}
    (h : names.find? isUnknown = some name) (rest : List Char) :
    run combine .start (.start (directiveText names ++ rest)) =
      .error ⟨.unknownCharset (trimmed name), (directiveText names).length⟩ := by
  have hnamed : charsetsNamed ([','].intercalate names) =
      .error (.unknownCharset (trimmed name)) := by
    rw [charsetsNamed, splitOn_names hfree hne, mapM_charsetNamed_eq_error h]
    rfl
  rw [directiveText_append, length_directiveText]
  refine run_of_step_error rfl (State.fails_iff.mp (.reading rfl ?_))
  change (Cursor.readDirective ⟨'*' :: ([','].intercalate names ++ ')' :: rest), 1⟩).1.map _ = _
  rw [Cursor.readDirective, Cursor.skip, Cursor.readUntil_append (not_mem_names hfree)]
  dsimp only
  rw [hnamed]
  rfl

theorem run_directive (hne : names ≠ []) (h : names.find? isUnknown = none) (rest : List Char) :
    run combine .start (.start (directiveText names ++ rest)) =
      run combine (State.start.direct (names.filterMap Charset.ofName?).eraseDups)
        ⟨rest, (directiveText names).length⟩ := by
  have hnamed := named_of_known (splitOn_names hfree hne) h
  have hreads : Reads combine .start (directiveText names ++ rest)
      (State.start.direct (names.filterMap Charset.ofName?).eraseDups) rest := by
    rw [directiveText_append]
    exact .of_spelled (.directive (not_mem_names hfree) hnamed) ⟨rfl, fun _ _ => rfl⟩
  rw [Cursor.start, hreads.run_eq 0, Nat.zero_add]

end

/-! ## Strings after directives -/

section
variable {casing : Casing} {text : List Char} {charsets : List Charset}
  (htext : text ≠ []) (hquote : casing.quote ∉ text)
include htext hquote

/-- The first charset that lacks a character is blamed where the string
ends. -/
theorem run_string_eq_error {combine : Combine} {charset : Charset}
    (h : charsets.find? (lacks text) = some charset) (position : Nat) :
    run combine (State.start.direct charsets)
        ⟨casing.quote :: (text ++ [casing.quote]), position⟩ =
      .error ⟨.unencodable text charset,
        position + (casing.quote :: (text ++ [casing.quote])).length⟩ := by
  have haccept : State.accept combine (State.start.direct charsets) (.quoted casing text) =
      .error (.unencodable text charset) := by
    change (stringValue casing text charsets false >>= _) = _
    rw [stringValue_eq_error false h]
    rfl
  have hspelled : Spelled (.quoted casing text) (casing.quote :: (text ++ [casing.quote])) [] :=
    .quoted htext hquote
  rw [← List.append_nil (casing.quote :: _)] at hspelled
  have hrun := run_of_refused hspelled nofun nofun haccept position
  rwa [List.append_nil] at hrun

theorem run_string (h : charsets.find? (lacks text) = none) (position : Nat) :
    run Branches.merged (State.start.direct charsets)
        ⟨casing.quote :: (text ++ [casing.quote]), position⟩ =
      .ok (quotedValue casing text charsets) := by
  have hencodable : ∀ charset ∈ charsets, (charset.encode? text).isSome = true := by
    intro charset hcharset
    have hhas := List.find?_eq_none.mp h charset hcharset
    simpa [lacks, Option.isSome_iff_ne_none] using hhas
  have haccept : State.accept Branches.merged (State.start.direct charsets)
      (.quoted casing text) =
        .ok ⟨.whole [], ⟨[quotedValue casing text charsets], .none, charsets⟩⟩ :=
    State.accept_quoted.mpr ⟨hencodable, _, stores_none.mpr rfl, rfl⟩
  have hfinish : State.finish Branches.merged
      ⟨.whole [], ⟨[quotedValue casing text charsets], .none, charsets⟩⟩ =
        .ok (quotedValue casing text charsets) :=
    State.finish_eq_ok.mpr ⟨[], _, rfl, rfl, .one, Branches.merged_of_alternation .one⟩
  exact (Reads.of_accept (.quoted htext hquote) haccept nofun).run_eq_ok hfinish position

end

/-- A directive and a string after it: the first unknown name is reported,
then the first charset that lacks a character, and if there is neither,
the string stands for itself in each charset. -/
theorem parse_directed {names : List (List Char)} {casing : Casing} {text : List Char}
    (hnames : names ≠ []) (hfree : ∀ name ∈ names, ',' ∉ name ∧ ')' ∉ name) (htext : text ≠ [])
    (hquote : casing.quote ∉ text) :
    (parse (directedText names casing text)).mapError SyntaxError.report =
      directed names casing text := by
  have hne : directedText names casing text ≠ [] := by simp [directedText, directiveText]
  rw [parse_eq_run hne, directed, directedText]
  cases hunknown : names.find? isUnknown with
  | some name =>
    rw [run_directive_eq_error hfree hnames hunknown]
    rfl
  | none =>
    rw [run_directive hfree hnames hunknown]
    dsimp only
    cases hlacks : (names.filterMap Charset.ofName?).eraseDups.find? (lacks text) with
    | some charset =>
      rw [run_string_eq_error htext hquote hlacks, List.length_append]
      rfl
    | none =>
      rw [run_string htext hquote hlacks]
      rfl

/-- The blank before the name is dropped, and in the name a combining mark
and what is no character are shown by their code points. The third name of
the second text is another of the first charset, and the second charset
lacks the character. Without it there is one charset left, and a character
of two bytes is no byte. -/
theorem parse_directed_repeated :
    (parse "(*utf-8,\u3000a\u0301\u0378\x22)'b'".toList).mapError SyntaxError.report =
        .error ⟨.unknownCharset, 14, "unknown charset \"a\\u\x7b301\x7d\\u\x7b378\x7d\\\"\""⟩ ∧
      (parse "(*utf-8, US-ascii ,UTF8)'\u00e9'".toList).mapError SyntaxError.report =
        .error ⟨.unencodableString, 27, "\"\u00e9\" cannot be encoded in US-ASCII"⟩ ∧
      (parse "(*utf-8,UTF8)'\u00e9'".toList).mapError SyntaxError.report =
        .ok (.string .exact ['\u00e9'] .utf8) := by
  have hletter : Casing.exact.quote ∉ ['b'] := by decide
  have haccent : Casing.exact.quote ∉ ['\u00e9'] := by decide
  have hunknown := @parse_directed ["utf-8".toList, "\u3000a\u0301\u0378\x22".toList] .exact ['b']
    (by decide) (by decide) (by decide) hletter
  have hlacking := @parse_directed ["utf-8".toList, " US-ascii ".toList, "UTF8".toList] .exact
    ['\u00e9'] (by decide) (by decide) (by decide) haccent
  have hutf8 := @parse_directed ["utf-8".toList, "UTF8".toList] .exact ['\u00e9'] (by decide)
    (by decide) (by decide) haccent
  refine ⟨hunknown.trans ?_, hlacking.trans ?_, hutf8⟩
  · decide +kernel
  · decide +kernel

end OctetPattern
