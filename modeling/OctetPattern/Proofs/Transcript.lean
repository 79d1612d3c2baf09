import OctetPattern.Scanner
import OctetPattern.Proofs.Promptness

/-!
# Transcripts of a scanner

A scanner may be asked for anything at any time, and it goes on after a
failure. Its position and what it has not read are kept apart, and still
the one always tells the other: it has read the text up to its position,
once and in order, and reports stand where it does (`Scanner.Faithful`).
This holds of every request in every sequence of them
(`Scanner.serveAll_faithful`).

What one request does follows from its reader. Readers go forwards
(`Cursor.Reaches`), and a cursor that is reached from the start of a text
is at its position in it (`Cursor.reaches_start_iff`). They place their
errors where they stop (`Prompt`). `Scanner.transcript_serveAll` is the
induction over the requests.
-/

namespace OctetPattern

/-! ## What is passed over in a text -/

namespace Cursor

/-- A character is passed over unless the text has ended. -/
theorem Reaches.position_skip {text : List Char} {c : Cursor} (h : (start text).Reaches c) :
    c.skip.position = min (c.position + 1) text.length := by
  obtain ⟨hle, hrest⟩ := reaches_start_iff.mp h
  have hlength : c.rest.length = text.length - c.position := by rw [hrest, List.length_drop]
  obtain ⟨_ | ⟨ch, rest⟩, position⟩ := c
  · simp only [skip, List.length_nil] at *
    omega
  · simp only [skip, List.length_cons] at *
    omega

end Cursor

/-- From one position in a text to another, everything has been passed over
up to the first delimiter and with it, or everything if there is none. The
part before the delimiter is kept. -/
inductive Delimits (text : List Char) (delimiter : Char) (position : Nat) :
    Option (List Char) → Nat → Prop
  | found {body rest : List Char} (h : text.drop position = body ++ delimiter :: rest)
      (hbody : delimiter ∉ body) :
      Delimits text delimiter position (some body) (position + body.length + 1)
  | missing (h : delimiter ∉ text.drop position) :
      Delimits text delimiter position none text.length

namespace Cursor

/-- What is searched for is found where it stands first in the text. -/
theorem delimits_readUntil {text : List Char} {c : Cursor} (h : (start text).Reaches c)
    (delimiter : Char) :
    Delimits text delimiter c.position (c.readUntil delimiter).1
      (c.readUntil delimiter).2.position := by
  obtain ⟨hle, hrest⟩ := reaches_start_iff.mp h
  obtain ⟨unread, position⟩ := c
  obtain rfl : unread = text.drop position := hrest
  by_cases hmem : delimiter ∈ text.drop position
  · obtain ⟨body, rest, hdrop, hbody⟩ := List.eq_append_cons_of_mem hmem
    rw [hdrop, readUntil_append hbody]
    exact .found hdrop hbody
  · have hend : position + (text.drop position).length = text.length := by
      rw [List.length_drop]
      exact Nat.add_sub_cancel' hle
    rw [readUntil_of_not_mem hmem, hend]
    exact .missing hmem

/-! ## The register -/

/-- What the register held has no part in reading a byte. -/
theorem readByte_masked (register : MaskedByte) (first : Char) (c : Cursor) :
    (c.readByte register first).masked = c.readMasked first := by
  rw [readMasked_eq]
  unfold readByte
  split
  · rw [readHexPair_masked, readHexPair_masked]
  · split
    · rfl
    · rw [readSecondDigit_masked, readSecondDigit_masked]

end Cursor

/-! ## Answers -/

/-- How a scanner answers a reading. -/
def Reading.answer {α : Type} (f : α → Answer) (r : Reading α) : Answer :=
  match r.1 with
  | .ok a => f a
  | .error e => .report e.report

theorem Answer.elim_ne_report {α : Type} {found : Option α} {f : α → Answer} {report : Report}
    (hf : ∀ a, f a ≠ .report report) : found.elim .none f ≠ .report report := by
  cases found with
  | none => exact Answer.noConfusion
  | some a => exact hf a

theorem Reading.exists_error {α : Type} {f : α → Answer} {r : Reading α} {report : Report}
    (hf : ∀ a, f a ≠ .report report) (h : r.answer f = .report report) :
    ∃ e, r.1 = .error e ∧ report = e.report := by
  obtain ⟨e | a, after⟩ := r
  · exact ⟨e, rfl, (Answer.report.inj h).symm⟩
  · exact absurd h (hf a)

/-- A prompt reader is reported to have failed where it has stopped. -/
theorem Prompt.position_of_report {α : Type} {read : Cursor → Reading α} (h : Prompt read)
    {f : α → Answer} {c : Cursor} {report : Report} (hf : ∀ a, f a ≠ .report report)
    (hreport : (read c).answer f = .report report) : report.position = (read c).2.position := by
  obtain ⟨e, he, rfl⟩ := Reading.exists_error hf hreport
  exact (h.stands he).position

namespace Scanner

theorem serve_readNumber (s : Scanner) :
    s.serve .readNumber =
      (s.cursor.readNumber.answer .number, { s with cursor := s.cursor.readNumber.2 }) := by
  rw [serve]
  generalize s.cursor.readNumber = reading
  obtain ⟨_ | _, after⟩ := reading <;> rfl

/-- The answer and the cursor after it come from reading a byte without a
register. -/
theorem exists_readByte (first : Char) (s : Scanner) :
    ∃ register, s.readByte first =
      ((s.cursor.readMasked first).answer fun _ => .stored,
        ⟨(s.cursor.readMasked first).2, register⟩) := by
  rw [← Cursor.readByte_masked s.register]
  refine ⟨(s.cursor.readByte s.register first).register, ?_⟩
  rw [readByte]
  generalize s.cursor.readByte s.register first = reading
  obtain ⟨_ | _, register, after⟩ := reading <;> rfl

/-- A byte is read from the next character on, if there is one. -/
theorem serve_readByte_none (s : Scanner) :
    s.serve (.readByte none) =
      s.cursor.peek?.elim (.none, s) fun first =>
        readByte first { s with cursor := s.cursor.skip } := by
  rw [serve]
  obtain ⟨⟨_ | ⟨first, rest⟩, position⟩, register⟩ := s <;> rfl

/-! ## One request -/

theorem reaches_serve (s : Scanner) (request : Request) :
    s.cursor.Reaches (s.serve request).2.cursor := by
  cases request with
  | read => exact s.cursor.reaches_skip
  | peek | report => exact .refl s.cursor
  | readUntil delimiter => exact s.cursor.reaches_readUntil delimiter
  | skipLine => exact s.cursor.reaches_skipLine
  | readNumber =>
    rw [serve_readNumber]
    exact s.cursor.reaches_readNumber
  | readByte first =>
    cases first with
    | some first => exact s.cursor.reaches_readByte s.register first
    | none =>
      rw [serve_readByte_none]
      cases s.cursor.peek? with
      | none => exact .refl s.cursor
      | some first => exact s.cursor.reaches_skip.trans (s.cursor.skip.reaches_readByte _ first)

theorem position_of_readByte {first : Char} {s : Scanner} {report : Report}
    (h : (s.readByte first).1 = .report report) :
    report.position = (s.readByte first).2.cursor.position := by
  obtain ⟨register, hread⟩ := s.exists_readByte first
  rw [hread] at h ⊢
  exact (Cursor.prompt_readMasked first).position_of_report (fun _ => Answer.noConfusion) h

/-- A report, asked for or not, is of the position the scanner is at. -/
theorem position_of_serve {s : Scanner} {request : Request} {report : Report}
    (h : (s.serve request).1 = .report report) :
    report.position = (s.serve request).2.cursor.position := by
  cases request with
  | read | peek | readUntil =>
    exact absurd h (Answer.elim_ne_report fun _ => Answer.noConfusion)
  | skipLine => cases h
  | report fault message =>
    cases h
    rfl
  | readNumber =>
    rw [serve_readNumber] at h ⊢
    exact Cursor.prompt_readNumber.position_of_report (fun _ => Answer.noConfusion) h
  | readByte first =>
    cases first with
    | some first => exact position_of_readByte h
    | none =>
      rw [serve_readByte_none] at h ⊢
      cases hpeek : s.cursor.peek? with
      | none =>
        rw [hpeek] at h
        cases h
      | some first =>
        rw [hpeek] at h
        exact position_of_readByte h

theorem readByte_register (first : Char) (s : Scanner) (register : MaskedByte) :
    ∃ register', readByte first { s with register } =
      ((s.readByte first).1, { (s.readByte first).2 with register := register' }) := by
  obtain ⟨bits, hread⟩ := s.exists_readByte first
  obtain ⟨register', hread'⟩ := exists_readByte first { s with register }
  rw [hread, hread']
  exact ⟨register', rfl⟩

/-- With another register, the scanner answers the same and goes as far. -/
theorem serve_register (s : Scanner) (request : Request) (register : MaskedByte) :
    ∃ register', serve { s with register } request =
      ((s.serve request).1, { (s.serve request).2 with register := register' }) := by
  cases request with
  | read | peek | report | readUntil | skipLine => exact ⟨register, rfl⟩
  | readNumber =>
    rw [serve_readNumber, serve_readNumber]
    exact ⟨register, rfl⟩
  | readByte first =>
    cases first with
    | some first => exact s.readByte_register first register
    | none =>
      rw [serve_readByte_none, serve_readByte_none]
      dsimp only
      cases s.cursor.peek? with
      | none => exact ⟨register, rfl⟩
      | some first => exact readByte_register first { s with cursor := s.cursor.skip } register

/-- A request to a scanner that reads a text, with its answer and the
scanner after it. -/
structure Faithful (text : List Char) (before : Scanner) (request : Request) (answer : Answer)
    (after : Scanner) : Prop where
  /-- Nothing is lost: what is left is the text without what has been read. -/
  unread : after.cursor.rest = text.drop after.cursor.position
  /-- Nothing is read again. -/
  forwards : before.cursor.position ≤ after.cursor.position
  within : after.cursor.position ≤ text.length
  /-- To peek gives the character at the position, and leaves the scanner as it is. -/
  ahead : after.serve .peek = (text[after.cursor.position]?.elim .none .character, after)
  /-- To read gives that character and goes behind it, unless the text has ended. -/
  single : request = .read →
    answer = text[before.cursor.position]?.elim .none .character ∧
      after.cursor.position = min (before.cursor.position + 1) text.length
  delimited (delimiter : Char) : request = .readUntil delimiter →
    ∃ body, Delimits text delimiter before.cursor.position body after.cursor.position ∧
      answer = body.elim .none .text
  line : request = .skipLine →
    ∃ body, Delimits text '\n' before.cursor.position body after.cursor.position
  /-- What fails, fails where the scanner has come to. -/
  placed (report : Report) : answer = .report report → report.position = after.cursor.position
  /-- The register decides neither answer nor place, so it may be another each time. -/
  apart (register : MaskedByte) : ∃ register', serve { before with register } request =
    (answer, { after with register := register' })

theorem faithful_serve {text : List Char} {s : Scanner}
    (h : (Cursor.start text).Reaches s.cursor) (request : Request) :
    Faithful text s request (s.serve request).1 (s.serve request).2 := by
  have hafter := h.trans (s.reaches_serve request)
  obtain ⟨hwithin, hunread⟩ := Cursor.reaches_start_iff.mp hafter
  exact {
    unread := hunread
    forwards := (s.reaches_serve request).position_le
    within := hwithin
    ahead := by rw [serve, hafter.peek?_start]
    single := by
      rintro rfl
      rw [← h.peek?_start, ← h.position_skip]
      exact ⟨rfl, rfl⟩
    delimited := by
      rintro delimiter rfl
      exact ⟨_, Cursor.delimits_readUntil h delimiter, rfl⟩
    line := by
      rintro rfl
      exact ⟨_, Cursor.delimits_readUntil h '\n'⟩
    placed := fun _ => position_of_serve
    apart := s.serve_register request }

/-! ## Any number of requests -/

/-- Each answer is in a relation to its request, the scanner before it and
the scanner after it, which is the one that serves the next request. -/
inductive Transcript (R : Scanner → Request → Answer → Scanner → Prop) :
    Scanner → List Request → List (Answer × Scanner) → Prop
  | nil {s : Scanner} : Transcript R s [] []
  | cons {s after : Scanner} {request : Request} {answer : Answer} {requests : List Request}
      {served : List (Answer × Scanner)} (h : R s request answer after)
      (others : Transcript R after requests served) :
      Transcript R s (request :: requests) ((answer, after) :: served)

/-- What holds of every request served where an invariant holds, holds of
all requests served from there on. -/
theorem transcript_serveAll {R : Scanner → Request → Answer → Scanner → Prop}
    {I : Scanner → Prop} (hkeep : ∀ s request, I s → I (s.serve request).2)
    (hserve : ∀ s request, I s → R s request (s.serve request).1 (s.serve request).2)
    {s : Scanner} (h : I s) (requests : List Request) :
    Transcript R s requests (s.serveAll requests) := by
  induction requests generalizing s with
  | nil => exact .nil
  | cons request requests ih => exact .cons (hserve s request h) (ih (hkeep s request h))

/-- Whatever a scanner is asked for and however often it fails, after each
request it has read the text up to its position, and no report is of
another position. -/
theorem serveAll_faithful (text : List Char) (register : MaskedByte) (requests : List Request) :
    Transcript (Faithful text) ⟨.start text, register⟩ requests
      (serveAll ⟨.start text, register⟩ requests) := by
  have hkeep : ∀ (s : Scanner) request, (Cursor.start text).Reaches s.cursor →
      (Cursor.start text).Reaches (s.serve request).2.cursor :=
    fun s request h => h.trans (s.reaches_serve request)
  exact transcript_serveAll hkeep (fun _ request h => faithful_serve h request) (.refl _) requests

example :
    (serveAll (start ['7', 'x', '\n', 'a']) [.readNumber, .readNumber, .skipLine, .readByte none,
      .readUntil ';']).map (fun served => served.2.cursor) =
      [⟨['x', '\n', 'a'], 1⟩, ⟨['x', '\n', 'a'], 1⟩, ⟨['a'], 3⟩, ⟨[], 4⟩, ⟨[], 4⟩] := by
  decide

end Scanner
end OctetPattern
