import OctetPattern.Proofs.Continuing

/-!
# Groups

A text in brackets is read as it is read on its own, wherever the
brackets stand: what is around them reaches it only through the charsets,
and what it says about charsets stays inside.

* `parse_groups`: groups as the items of a sequence, as the branches of an
  alternation and as the operand of a quantifier.
* `parse_nested`: brackets around a text, as many on each side or not.

Both go through derivations. A text that is read derives its branches
before any other text (`Delimited`), the rules of the grammar put these
derivations together, and a derived text is read. Where a text is
refused, the derivation of what comes before leads the reader to the
state that refuses (`Derives.isRead`, `Delimited.reads`).
-/

namespace OctetPattern

/-- A text with brackets around it. The line feed ends a comment that may
be at the end of the text. -/
def grouped (text : List Char) : List Char :=
  '(' :: (text ++ ['\n', ')'])

/-- A text is refused for such a fault, noticed after so many characters. -/
def Refused (text : List Char) (fault : Fault) (position : Nat) : Prop :=
  ∃ e, parse text = .error e ∧ e.cause.fault = fault ∧ e.position = position

/-! ## Texts that end where they end -/

/-- The text denotes the pattern and is complete, whatever comes after it. -/
def Delimited (text : List Char) (p : Pattern) : Prop :=
  ∃ values, Alternation values p ∧
    ∀ rest, Derives (.branches [.latin1] values) (text ++ rest) rest

section
variable {text : List Char} {p : Pattern}

theorem delimited_line (h : parse text = .ok p) : Delimited (text ++ ['\n']) p := by
  obtain ⟨values, hbranches, hvalue⟩ := denotes_of_parse h
  refine ⟨values, hvalue, fun rest => ?_⟩
  rw [List.append_assoc]
  exact hbranches.goesOn rest

theorem Delimited.parse_eq_ok (h : Delimited text p) : parse text = .ok p := by
  obtain ⟨values, hvalue, hbranches⟩ := h
  have htext := hbranches []
  rw [List.append_nil] at htext
  exact Denotes.parse_eq_ok ⟨values, htext, hvalue⟩

/-- In brackets it is an item. -/
theorem Delimited.derives (h : Delimited text p) {items : List Pattern} {after : Draft}
    {middle rest : List Char}
    (next : Derives (.steps .sequence ⟨[.latin1], p :: items⟩ after) middle rest) :
    Derives (.steps .sequence ⟨[.latin1], items⟩ after) ('(' :: (text ++ ')' :: middle)) rest := by
  obtain ⟨values, hvalue, hbranches⟩ := h
  exact .group (hbranches _) hvalue next

theorem derives_grouped (h : parse text = .ok p) {items : List Pattern} {after : Draft}
    {middle rest : List Char}
    (next : Derives (.steps .sequence ⟨[.latin1], p :: items⟩ after) middle rest) :
    Derives (.steps .sequence ⟨[.latin1], items⟩ after) (grouped text ++ middle) rest := by
  have htext : grouped text ++ middle = '(' :: ((text ++ ['\n']) ++ ')' :: middle) := by
    simp [grouped]
  rw [htext]
  exact (delimited_line h).derives next

end

/-! ## Groups in a row -/

/-- Groups one after another are items one after another. -/
theorem derives_groups {groups : List (List Char × Pattern)}
    (h : ∀ group ∈ groups, parse group.1 = .ok group.2) {items : List Pattern} {after : Draft}
    {middle rest : List Char}
    (next : Derives (.steps .sequence ⟨[.latin1], (groups.map Prod.snd).reverse ++ items⟩ after)
      middle rest) :
    Derives (.steps .sequence ⟨[.latin1], items⟩ after)
      ((groups.flatMap fun group => grouped group.1) ++ middle) rest := by
  induction groups generalizing items with
  | nil => exact next
  | cons group groups ih =>
    rw [List.map_cons, List.reverse_cons, List.append_assoc] at next
    have hothers := ih (fun g hg => h g (List.mem_cons_of_mem _ hg)) next
    rw [List.flatMap_cons, List.append_assoc]
    exact derives_grouped (h group (List.mem_cons_self ..)) hothers

/-- Groups with bars between them are branches. -/
theorem derives_barred {groups : List (List Char × Pattern)} (hne : groups ≠ [])
    (h : ∀ group ∈ groups, parse group.1 = .ok group.2) :
    Derives (.branches [.latin1] (groups.map Prod.snd))
      (['|'].intercalate (groups.map fun group => grouped group.1)) [] := by
  induction groups with
  | nil => exact absurd rfl hne
  | cons group groups ih =>
    have hgroup := h group (List.mem_cons_self ..)
    cases groups with
    | nil =>
      have hlast : Derives (.steps .sequence (.empty [.latin1]) ⟨[.latin1], [group.2]⟩)
          (grouped group.1 ++ []) [] := derives_grouped hgroup .done
      rw [List.append_nil] at hlast
      simpa using Derives.lastBranch hlast .one
    | cons group' groups =>
      have hothers := ih (List.cons_ne_nil _ _) fun g hg => h g (List.mem_cons_of_mem _ hg)
      rw [List.map_cons, List.map_cons, List.map_cons, List.map_cons,
        List.intercalate_cons_cons, List.append_assoc]
      exact .branch (derives_grouped hgroup .done) .one hothers

/-- What two or more branches amount to. -/
theorem alternation_of_length {branches : List Pattern} (h : 2 ≤ branches.length) :
    Alternation branches
      (if (branches.filter Pattern.matchesSinglePosition).length < 2 then .alternatives branches
      else if (branches.filter fun p => !p.matchesSinglePosition) = [] then
        .set (branches.filter Pattern.matchesSinglePosition) false
      else .alternatives ((branches.filter fun p => !p.matchesSinglePosition) ++
        [.set (branches.filter Pattern.matchesSinglePosition) false])) := by
  split
  · rename_i hfew
    exact .plain h hfew
  · rename_i hmany
    split
    · rename_i hothers
      have hall : ∀ p ∈ branches, p.matchesSinglePosition = true := by
        simpa [List.filter_eq_nil_iff] using hothers
      rw [List.filter_eq_self.mpr hall]
      exact .set h hall
    · rename_i hothers
      obtain ⟨p, hp⟩ := List.exists_mem_of_ne_nil _ hothers
      obtain ⟨hmem, hsingle⟩ := List.mem_filter.mp hp
      exact .mixed (Nat.not_lt.mp hmany) ⟨p, hmem, by simpa using hsingle⟩

/-! ## Quantified groups -/

section
variable {text suffix : List Char} {p : Pattern} {quantifier : Quantifier}

theorem parse_quantified (h : parse text = .ok p)
    (hsuffix : QuantifierSpelling suffix quantifier []) (hquantifiable : p.isQuantifiable = true) :
    parse (grouped text ++ suffix) = .ok (.quantified quantifier p) := by
  have hsteps : Derives (.steps .sequence (.empty [.latin1])
      ⟨[.latin1], [.quantified quantifier p]⟩) (grouped text ++ suffix) [] :=
    derives_grouped h (.quantifier hsuffix hquantifiable .done)
  exact Denotes.parse_eq_ok ⟨_, .lastBranch hsteps .one, .one⟩

/-- Neither kind of quantifier gets further than its first character
after an item that is quantified already. -/
theorem step_quantifier_eq_error {combine : Combine} {branches items : List Pattern}
    {charsets : List Charset} {first : Char} {rest : List Char}
    (hsuffix : QuantifierSpelling (first :: suffix) quantifier rest)
    (hquantified : p.isQuantifiable = false) (position : Nat) :
    step combine ⟨.whole branches, ⟨p :: items, .none, charsets⟩⟩ first ⟨suffix, position⟩ =
      .error ⟨.notQuantifiable first p.kind, position⟩ := by
  have hoperand : ∀ symbol,
      operand? symbol (p :: items) = .error (.notQuantifiable symbol p.kind) := by
    intro symbol
    simp [operand?, hquantified]
  cases hsuffix with
  | optional | zeroToMany | oneToMany =>
    simp [step, Lead.of, State.permit, Token.read, State.accept, State.quantify, State.inSet,
      State.onLevel, Level.quantify, Pending.mustBeNone, OctetPattern.quantify, hoperand, placed,
      Quantifier.symbol, bind, Except.bind, Except.map]
  | exactly | between | atLeast =>
    simp [step, Lead.of, State.permit, State.inSet, Pending.mustBeNone, hoperand, placed, bind,
      Except.bind]

theorem refused_quantified (h : parse text = .ok p)
    (hsuffix : QuantifierSpelling suffix quantifier []) (hquantified : p.isQuantifiable = false) :
    Refused (grouped text ++ suffix) .notQuantifiable ((grouped text).length + 1) := by
  have hsteps : Derives (.steps .sequence (.empty [.latin1]) ⟨[.latin1], [p]⟩)
      (grouped text ++ suffix) suffix := derives_grouped h .done
  have hrun := (hsteps.isRead (.whole []) rfl).run_eq 0
  cases suffix with
  | nil => cases hsuffix
  | cons first suffix =>
    refine ⟨⟨.notQuantifiable first p.kind, 0 + (grouped text).length + 1⟩, ?_, rfl, by simp⟩
    rw [parse_eq_run (by simp [grouped]), Cursor.start]
    refine hrun.trans (run_of_step_error rfl ?_)
    exact step_quantifier_eq_error hsuffix hquantified _

end

/-! ## Several groups -/

/-- Groups are read as they are read on their own: as the items of a
sequence, as the branches of an alternation and as the operand of a
quantifier, which refuses an operand that is quantified already. -/
theorem parse_groups {groups : List (List Char × Pattern)} (hlength : 2 ≤ groups.length)
    (h : ∀ group ∈ groups, parse group.1 = .ok group.2) :
    parse (groups.flatMap fun group => grouped group.1) =
        .ok (.sequence (groups.map Prod.snd)) ∧
      (let singles := (groups.map Prod.snd).filter Pattern.matchesSinglePosition
       let others := (groups.map Prod.snd).filter fun p => !p.matchesSinglePosition
       parse (['|'].intercalate (groups.map fun group => grouped group.1)) =
        .ok (if singles.length < 2 then .alternatives (groups.map Prod.snd)
          else if others = [] then .set singles false
          else .alternatives (others ++ [.set singles false]))) ∧
      ∀ group ∈ groups, ∀ suffix quantifier, QuantifierSpelling suffix quantifier [] →
        (group.2.isQuantifiable = true →
          parse (grouped group.1 ++ suffix) = .ok (.quantified quantifier group.2)) ∧
        (group.2.isQuantifiable = false →
          Refused (grouped group.1 ++ suffix) .notQuantifiable ((grouped group.1).length + 1)) := by
  have hvalues : 2 ≤ (groups.map Prod.snd).length := by rwa [List.length_map]
  refine ⟨?_, ?_, ?_⟩
  · have hjoined : Joined (groups.map Prod.snd).reverse
        (.sequence (groups.map Prod.snd).reverse.reverse) := .more (by rwa [List.length_reverse])
    have hsteps : Derives (.steps .sequence (.empty [.latin1])
        ⟨[.latin1], (groups.map Prod.snd).reverse ++ []⟩)
        ((groups.flatMap fun group => grouped group.1) ++ []) [] := derives_groups h .done
    rw [List.append_nil, List.append_nil] at hsteps
    rw [List.reverse_reverse] at hjoined
    exact Denotes.parse_eq_ok ⟨_, .lastBranch hsteps hjoined, .one⟩
  · have hne : groups ≠ [] := List.ne_nil_of_length_pos (Nat.lt_of_lt_of_le Nat.zero_lt_two hlength)
    exact Denotes.parse_eq_ok ⟨_, derives_barred hne h, alternation_of_length hvalues⟩
  · intro group hgroup suffix quantifier hsuffix
    exact ⟨parse_quantified (h group hgroup) hsuffix, refused_quantified (h group hgroup) hsuffix⟩

/-- The directive of the first group says nothing about the second, and
the second is quantified already. -/
theorem parse_groups_directed :
    parse "((*utf8)'ab'#\n)('ab'+\n)".toList = .ok (.sequence
        [.string .exact ['a', 'b'] .utf8,
          .quantified .oneToMany (.string .exact ['a', 'b'] .latin1)]) ∧
      Refused "('ab'+\n){2,*}".toList .notQuantifiable 9 := by
  have hfirst : parse "(*utf8)'ab'#".toList = .ok (.string .exact ['a', 'b'] .utf8) := by
    with_unfolding_all rfl
  have hsecond : parse "'ab'+".toList =
      .ok (.quantified .oneToMany (.string .exact ['a', 'b'] .latin1)) := by
    with_unfolding_all rfl
  have hgroups : ∀ group ∈ [("(*utf8)'ab'#".toList, Pattern.string .exact ['a', 'b'] .utf8),
      ("'ab'+".toList, .quantified .oneToMany (.string .exact ['a', 'b'] .latin1))],
      parse group.1 = .ok group.2 :=
    List.forall_mem_cons.mpr ⟨hfirst, List.forall_mem_singleton.mpr hsecond⟩
  have hsuffix : QuantifierSpelling ['{', '2', ',', '*', '}'] (.atLeast 2) [] :=
    .atLeast ⟨List.cons_ne_nil '2' [], List.forall_mem_singleton.mpr rfl, rfl⟩
  have h := parse_groups (by decide) hgroups
  exact ⟨h.1, (h.2.2 _ (List.mem_cons_of_mem _ (List.mem_cons_self ..)) _ _ hsuffix).2 rfl⟩

/-! ## Groups inside groups -/

/-- Groups that have just been opened, one inside another. -/
def opened : Nat → Context
  | 0 => .whole []
  | k + 1 => .group [] (.fresh [.latin1]) (opened k)

theorem reads_opening (combine : Combine) (k : Nat) {text : List Char}
    (htext : text.head? ≠ some '*') :
    Reads combine .start (List.replicate k '(' ++ text) ⟨opened k, .fresh [.latin1]⟩ text := by
  induction k generalizing text with
  | zero => exact .refl
  | succ k ih =>
    have hplace : (opened k).place = .sequence := by cases k <;> rfl
    rw [List.replicate_succ', List.append_assoc]
    refine (ih (by simp)).trans (.of_accept (.openGroup htext) ?_ nofun)
    exact State.accept_openGroup.mpr ⟨hplace, rfl, rfl⟩

namespace Delimited

variable {text : List Char} {p : Pattern}

/-- Brackets that match do not change what is denoted. -/
theorem nested (h : Delimited text p) (k : Nat) :
    Delimited (List.replicate k '(' ++ (text ++ List.replicate k ')')) p := by
  induction k with
  | zero => simpa using h
  | succ k ih =>
    refine ⟨[p], .one, fun rest => ?_⟩
    have hgroup : Derives (.steps .sequence (.empty [.latin1]) ⟨[.latin1], [p]⟩)
        ('(' :: (List.replicate k '(' ++ (text ++ List.replicate k ')') ++ ')' :: rest)) rest :=
      ih.derives .done
    have htext : List.replicate (k + 1) '(' ++ (text ++ List.replicate (k + 1) ')') ++ rest =
        '(' :: (List.replicate k '(' ++ (text ++ List.replicate k ')') ++ ')' :: rest) := by
      rw [List.replicate_succ, List.replicate_succ']
      simp
    rw [htext]
    exact .lastBranch hgroup .one

/-- In any frame for branches it is read up to its end, and the branches
then amount to the pattern. -/
theorem reads (h : Delimited text p) (frame : List Pattern → Context)
    (hframe : ∀ branches branch, (frame branches).push? branch = some (frame (branch :: branches)))
    (rest : List Char) :
    ∃ branches level,
      Reads Branches.merged ⟨frame [], .fresh [.latin1]⟩ (text ++ rest)
        ⟨frame branches, level⟩ rest ∧
      ∀ follower, State.combineWith Branches.merged branches level follower = .ok p := by
  obtain ⟨values, hvalue, hbranches⟩ := h
  obtain ⟨last, others, items, charsets, hreads, hlast, hvalues⟩ :=
    (hbranches rest).isRead frame hframe []
  refine ⟨others, _, hreads, fun follower => ?_⟩
  exact State.combineWith_eq_ok.mpr ⟨last, rfl, hlast, hvalue.merged_eq_some hvalues⟩

theorem head?_ne_asterisk (h : Delimited text p) (rest : List Char) :
    (text ++ rest).head? ≠ some '*' := by
  obtain ⟨values, -, hbranches⟩ := h
  exact (hbranches rest).head?_ne_asterisk

/-- A bracket that is missing is missed at the end. -/
theorem refused_unclosed (h : Delimited text p) (k : Nat) :
    Refused (List.replicate (k + 1) '(' ++ text) .unclosedGroup (k + 1 + text.length) := by
  obtain ⟨branches, level, hreads, hvalue⟩ :=
    h.reads (.group · (.fresh [.latin1]) (opened k)) (fun _ _ => rfl) []
  have hopening := reads_opening Branches.merged (k + 1) (h.head?_ne_asterisk [])
  have hall := hopening.trans hreads
  rw [← List.append_assoc] at hall
  have hfinish : State.finish Branches.merged
      ⟨.group branches (.fresh [.latin1]) (opened k), level⟩ = .error .unclosedGroup := by
    simp [State.finish, hvalue, bind, Except.bind]
  have hrun := (hall.run_eq 0).trans (run_of_end rfl)
  rw [hfinish, List.append_nil] at hrun
  refine ⟨⟨.unclosedGroup, 0 + (List.replicate (k + 1) '(' ++ text).length⟩, ?_, rfl, by simp⟩
  rw [parse_eq_run (by simp)]
  exact hrun

/-- A bracket that closes nothing is noticed where it stands. -/
theorem refused_unopened (h : Delimited text p) (rest : List Char) :
    Refused (text ++ ')' :: rest) .unexpectedCharacter (text.length + 1) := by
  obtain ⟨branches, level, hreads, hvalue⟩ :=
    h.reads .whole (fun _ _ => rfl) (')' :: rest)
  have hrun := hreads.run_eq 0
  have hstep : step Branches.merged ⟨.whole branches, level⟩ ')'
      ⟨rest, 0 + text.length + 1⟩ = .error ⟨.unopenedGroup, 0 + text.length + 1⟩ := by
    simp [step, Lead.of, State.permit, Token.read, State.accept, State.closeGroup, hvalue, placed,
      bind, Except.bind]
  refine ⟨⟨.unopenedGroup, 0 + text.length + 1⟩, ?_, rfl, by simp⟩
  rw [parse_eq_run (by simp), Cursor.start]
  exact hrun.trans (run_of_step_error rfl hstep)

end Delimited

/-- Brackets around a text change nothing if they match. If some are left
open the text ends too early, and if there are too many the first of them
is refused, whatever comes after it. -/
theorem parse_nested {text : List Char} {p : Pattern} (h : parse text = .ok p) (k j : Nat) :
    (j = k → parse (List.replicate k '(' ++ text ++ '\n' :: List.replicate j ')') = .ok p) ∧
      (j < k → Refused (List.replicate k '(' ++ text ++ '\n' :: List.replicate j ')')
        .unclosedGroup (k + text.length + 1 + j)) ∧
      (k < j → ∀ rest, Refused
        (List.replicate k '(' ++ text ++ '\n' :: List.replicate j ')' ++ rest)
        .unexpectedCharacter (k + text.length + 1 + k + 1)) := by
  have hline := delimited_line h
  refine ⟨?_, ?_, ?_⟩
  · rintro rfl
    simpa using (hline.nested j).parse_eq_ok
  · intro hlt
    obtain ⟨d, rfl⟩ := Nat.exists_eq_add_of_lt hlt
    have hrefused := (hline.nested j).refused_unclosed d
    have htext : List.replicate (j + d + 1) '(' ++ text ++ '\n' :: List.replicate j ')' =
        List.replicate (d + 1) '(' ++
          (List.replicate j '(' ++ (text ++ ['\n'] ++ List.replicate j ')')) := by
      rw [show j + d + 1 = d + 1 + j by omega, List.replicate_add]
      simp only [List.append_assoc, List.singleton_append]
    have hposition : j + d + 1 + text.length + 1 + j = d + 1 +
        (List.replicate j '(' ++ (text ++ ['\n'] ++ List.replicate j ')')).length := by
      simp
      omega
    rwa [htext, hposition]
  · intro hlt rest
    obtain ⟨d, rfl⟩ := Nat.exists_eq_add_of_lt hlt
    have hrefused := (hline.nested k).refused_unopened (List.replicate d ')' ++ rest)
    have htext : List.replicate k '(' ++ text ++ '\n' :: List.replicate (k + d + 1) ')' ++ rest =
        List.replicate k '(' ++ (text ++ ['\n'] ++ List.replicate k ')') ++
          ')' :: (List.replicate d ')' ++ rest) := by
      rw [Nat.add_assoc, List.replicate_add, List.replicate_succ]
      simp
    have hposition : k + text.length + 1 + k + 1 =
        (List.replicate k '(' ++ (text ++ ['\n'] ++ List.replicate k ')')).length + 1 := by
      simp
      omega
    rwa [htext, hposition]

theorem parse_nested_once :
    parse "(00#\n)".toList = .ok (.byte 0x00 false) ∧
      Refused "((00#\n)".toList .unclosedGroup 7 ∧
      Refused "(00#\n))(".toList .unexpectedCharacter 7 := by
  have h : parse "00#".toList = .ok (.byte 0x00 false) := by
    with_unfolding_all rfl
  exact ⟨(parse_nested h 1 1).1 rfl, (parse_nested h 2 1).2.1 (by decide),
    (parse_nested h 1 2).2.2 (by decide) ['(']⟩

end OctetPattern
