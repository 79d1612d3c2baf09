import OctetPattern.ByteReading

/-!
# Scanners

A scanner serves requests on a text one after another. It holds a
cursor and the register that bytes are read into. A request that fails
is answered with a report, and the scanner goes on from where the
failure left it.
-/

namespace OctetPattern

inductive Request where
  | read
  | peek
  | readUntil (delimiter : Char)
  | skipLine
  | readNumber
  /-- A report at the current position. -/
  | report (fault : Fault) (message : String)
  /-- A byte that starts with the given character or, if none is given,
  with the next one. -/
  | readByte (first : Option Char)
  deriving Repr

inductive Answer where
  | none
  | character (c : Char)
  | text (text : List Char)
  | number (n : UInt32)
  /-- A byte was read into the register. -/
  | stored
  | report (report : Report)
  deriving DecidableEq, Repr

/-- A cursor and the byte read last. -/
structure Scanner where
  cursor : Cursor
  register : MaskedByte
  deriving DecidableEq, Repr

namespace Scanner

def start (text : List Char) : Scanner :=
  ⟨.start text, .zero⟩

/-- Reads a byte that starts with `first`, which has been read already. -/
def readByte (first : Char) (s : Scanner) : Answer × Scanner :=
  let reading := s.cursor.readByte s.register first
  let answer :=
    match reading.outcome with
    | .ok _ => Answer.stored
    | .error e => .report e.report
  (answer, ⟨reading.cursor, reading.register⟩)

/-- The answer to a request, and the scanner after it. -/
def serve (s : Scanner) : Request → Answer × Scanner
  | .read => (s.cursor.peek?.elim .none .character, { s with cursor := s.cursor.skip })
  | .peek => (s.cursor.peek?.elim .none .character, s)
  | .readUntil delimiter =>
    let (text?, cursor) := s.cursor.readUntil delimiter
    (text?.elim .none .text, { s with cursor })
  | .skipLine => (.none, { s with cursor := s.cursor.skipLine })
  | .readNumber =>
    match s.cursor.readNumber with
    | (.ok n, cursor) => (.number n, { s with cursor })
    | (.error e, cursor) => (.report e.report, { s with cursor })
  | .report fault message => (.report ⟨fault, s.cursor.position, message⟩, s)
  | .readByte (some first) => s.readByte first
  | .readByte none =>
    match s.cursor.next? with
    | none => (.none, s)
    | some (first, cursor) => readByte first { s with cursor }

def serveAll : Scanner → List Request → List (Answer × Scanner)
  | _, [] => []
  | s, request :: requests =>
    let served := s.serve request
    served :: serveAll served.2 requests

end Scanner
end OctetPattern
