import OctetPattern.Proofs.Derivable

/-!
# A text before other text

What a text derives on its own it derives before other text as well, if a
line feed stands between the two. The line feed ends a comment that may
be at the end of the first text, and is a blank if there is none. Nothing
else at the end of a text can take in what comes after it.

`Form.GoesOn` says what becomes of each form, and `Derives.goesOn` finds
it by induction on the derivation. A part that is not the last of a
derivation has some of the text after it, and the line feed only makes
that longer; where nothing is left, the line feed is passed over
(`lineAfter`).
-/

namespace OctetPattern

/-! ## Parts of a text -/

/-- What is left of a text that goes on after a line feed, if `rest` is
left of the text alone. Where nothing was left, the line feed is passed. -/
def lineAfter : List Char → List Char → List Char
  | [], more => more
  | c :: rest, more => c :: (rest ++ '\n' :: more)

section
variable {text rest : List Char}

theorem Spacing.append (h : Spacing text rest) (hrest : rest ≠ []) (more : List Char) :
    Spacing (text ++ more) (rest ++ more) := by
  obtain ⟨lexeme, -, rfl, hother⟩ := h.exists_lexeme hrest
  rw [List.append_assoc]
  exact hother (rest ++ more)

theorem Gap.eq_nil (h : Gap [] rest) : rest = [] := by
  cases h with
  | nil => rfl
  | cons hfirst hothers => cases hfirst

theorem Gap.append (h : Gap text rest) (hrest : rest ≠ []) (more : List Char) :
    Gap (text ++ more) (rest ++ more) := by
  induction h with
  | nil => exact .nil
  | cons hfirst hothers ih =>
    refine .cons (hfirst.append ?_ more) (ih hrest)
    rintro rfl
    exact hrest hothers.eq_nil

theorem ByteSpelling.append {digits : List Char} {bits : MaskedByte}
    (h : ByteSpelling text digits bits rest) (more : List Char) :
    ByteSpelling (text ++ more) digits bits (rest ++ more) := by
  obtain ⟨lexeme, -, rfl, hother⟩ := h.exists_lexeme
  rw [List.append_assoc]
  exact hother (rest ++ more)

theorem QuantifierSpelling.append {quantifier : Quantifier}
    (h : QuantifierSpelling text quantifier rest) (more : List Char) :
    QuantifierSpelling (text ++ more) quantifier (rest ++ more) := by
  obtain ⟨lexeme, -, rfl, hother⟩ := h.exists_lexeme
  rw [List.append_assoc]
  exact hother (rest ++ more)

end

namespace Derives

theorem phrase_ne_nil {place : Place} {charsets : List Charset} {value : Pattern}
    {text rest : List Char} (h : Derives (.phrase place charsets value) text rest) :
    text ≠ [] := by
  cases h with
  | byte h hfixed => cases h <;> exact List.cons_ne_nil _ _
  | wild h hwild => cases h <;> exact List.cons_ne_nil _ _
  | escape | set | quoted => exact List.cons_ne_nil _ _

/-- Steps that find no text are none. -/
theorem steps_of_nil {place : Place} {before after : Draft} {rest : List Char}
    (h : Derives (.steps place before after) [] rest) : after = before ∧ rest = [] := by
  cases h with
  | done => exact ⟨rfl, rfl⟩
  | gap h next => cases h
  | value h next => exact absurd rfl h.phrase_ne_nil
  | quantifier h hoperand next => cases h

/-- A blank or a comment before other text. The last comment of a text
takes the line feed after it. -/
theorem gap_line {place : Place} {before after : Draft} {text middle rest more : List Char}
    (h : Spacing text middle) (next : Derives (.steps place before after) middle rest)
    (hline : Derives (.steps place before after) (middle ++ '\n' :: more) (lineAfter rest more)) :
    Derives (.steps place before after) (text ++ '\n' :: more) (lineAfter rest more) := by
  cases h with
  | blank hc => exact .gap (.blank hc) hline
  | comment hbody =>
    rw [List.cons_append, List.append_assoc]
    exact .gap (.comment hbody) hline
  | lastComment hbody =>
    obtain ⟨rfl, rfl⟩ := next.steps_of_nil
    exact .gap (.comment hbody) .done

end Derives

/-! ## Forms -/

/-- What a derivation becomes when its text goes on after a line feed. -/
def Form.GoesOn : Form → List Char → List Char → Prop
  | .phrase place charsets value, text, rest =>
    ∀ more, Derives (.phrase place charsets value) (text ++ '\n' :: more) (rest ++ '\n' :: more)
  | .steps place before after, text, rest =>
    ∀ more, Derives (.steps place before after) (text ++ '\n' :: more) (lineAfter rest more)
  | .branches charsets values, text, rest =>
    ∀ more, Derives (.branches charsets values) (text ++ '\n' :: more) (lineAfter rest more)

theorem Derives.goesOn {form : Form} {text rest : List Char} (h : Derives form text rest) :
    form.GoesOn text rest := by
  induction h with
  | byte h hfixed => exact fun more => .byte (h.append _) hfixed
  | wild h hwild => exact fun more => .wild (h.append _) hwild
  | escape h => exact fun more => .escape h
  | set members hmembers ih => exact fun more => .set (ih more) hmembers
  | quoted hbody hquote hencodable =>
    intro more
    rw [List.cons_append, List.append_assoc]
    exact .quoted hbody hquote hencodable
  | @done place draft rest =>
    intro more
    cases rest with
    | nil => exact .gap (.blank (by simp)) .done
    | cons c rest => exact .done
  | gap h next ih => exact fun more => .gap_line h next (ih more)
  | value h next ih ihnext => exact fun more => .value (ih _) (ihnext more)
  | any next ih => exact fun more => .any (ih more)
  | inverted hgap h htoggled next ih ihnext =>
    exact fun more => .inverted (hgap.append h.phrase_ne_nil _) (ih _) htoggled (ihnext more)
  | range hgap h next ih ihnext =>
    exact fun more => .range (hgap.append h.phrase_ne_nil _) (ih _) (ihnext more)
  | anyBits hgap h hmasked next ih ihnext =>
    exact fun more => .anyBits (hgap.append h.phrase_ne_nil _) (ih _) hmasked (ihnext more)
  | invertedAnyBits hcaret hgap h hmasked next ih ihnext =>
    exact fun more => .invertedAnyBits (hcaret.append (List.cons_ne_nil _ _) _)
      (hgap.append h.phrase_ne_nil _) (ih _) hmasked (ihnext more)
  | directive hclose h next ih =>
    intro more
    rw [List.cons_append, List.cons_append, List.append_assoc]
    exact .directive hclose h (ih more)
  | quantifier h hoperand next ih =>
    exact fun more => .quantifier (h.append _) hoperand (ih more)
  | group h hvalue next ih ihnext => exact fun more => .group (ih more) hvalue (ihnext more)
  | lastBranch h hvalue ih => exact fun more => .lastBranch (ih more) hvalue
  | branch h hvalue others ih ihothers =>
    exact fun more => .branch (ih more) hvalue (ihothers more)

end OctetPattern
