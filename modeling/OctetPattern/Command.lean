import OctetPattern.Listing
import OctetPattern.Parse
import OctetPattern.Render

/-!
# The command line

Arguments are read from left to right. The first thing that settles what
is to be done, such as a request for help or an unknown option, hides
everything after it. `Command.ofArguments` reads the arguments and
`Command.output` says what is written and with which exit code; neither
touches the world.
-/

namespace OctetPattern

/-! ## Arguments -/

inductive Flag where
  | listing
  | help
  | version
  deriving DecidableEq, Repr

/-- The flag of a letter after a single dash. -/
def Flag.ofLetter? : Char → Option Flag
  | 't' => some .listing
  | 'h' => some .help
  | 'V' => some .version
  | _ => none

/-- The flag of a word after two dashes. -/
def Flag.ofWord? (word : List Char) : Option Flag :=
  [("tree", listing), ("help", help), ("version", version)].lookup (String.ofList word)

/-- What one argument is by its looks alone. -/
inductive Argument where
  | pattern (text : List Char)
  /-- Flags in order; `none` is one that does not exist. -/
  | flags (flags : List (Option Flag))
  /-- Two dashes, after which all arguments are patterns. -/
  | endOfFlags
  deriving DecidableEq, Repr

/-- A dash alone is a pattern; letters after one dash are flags of their own. -/
def Argument.of : List Char → Argument
  | ['-', '-'] => .endOfFlags
  | '-' :: '-' :: word => .flags [Flag.ofWord? word]
  | '-' :: letter :: letters => .flags ((letter :: letters).map Flag.ofLetter?)
  | text => .pattern text

/-! ## Commands -/

/-- Arguments that make no command. -/
inductive UsageError where
  | missingPattern
  | unknownFlag
  | repeatedFlag
  deriving DecidableEq, Repr

def UsageError.text : UsageError → String
  | .missingPattern => "at least one pattern is needed"
  | .unknownFlag => "there is no such option"
  | .repeatedFlag => "an option was given twice"

inductive Command where
  | help
  | version
  | refuse (error : UsageError)
  /-- Write each pattern in its normal form, or as a listing. -/
  | write (patterns : List (List Char)) (asListing : Bool)
  deriving DecidableEq, Repr

namespace Command

/-- Whether listings are asked for after some more flags, or the command
that the flags settle. -/
def readFlags (asListing : Bool) : List (Option Flag) → Except Command Bool
  | [] => .ok asListing
  | none :: _ => .error (refuse .unknownFlag)
  | some .help :: _ => .error help
  | some .version :: _ => .error version
  | some .listing :: flags =>
    if asListing then .error (refuse .repeatedFlag) else readFlags true flags

/-- The command to write all patterns, of which there must be one. -/
def writeAll (patterns : List (List Char)) (asListing : Bool) : Command :=
  if patterns.isEmpty then refuse .missingPattern else write patterns asListing

/-- The command of the arguments that are left, after `patterns`, the
newest first. -/
def readArguments (patterns : List (List Char)) (asListing : Bool) :
    List (List Char) → Command
  | [] => writeAll patterns.reverse asListing
  | argument :: arguments =>
    match Argument.of argument with
    | .pattern text => readArguments (text :: patterns) asListing arguments
    | .endOfFlags => writeAll (patterns.reverse ++ arguments) asListing
    | .flags flags =>
      match readFlags asListing flags with
      | .ok asListing => readArguments patterns asListing arguments
      | .error command => command

def ofArguments (arguments : List String) : Command :=
  readArguments [] false (arguments.map String.toList)

end Command

/-! ## Output -/

/-- What a run leaves behind. -/
structure Output where
  code : UInt8
  out : String
  err : String
  deriving DecidableEq, Repr

namespace Command

def versionText : String := "bytepat 0.1.0\n"

def usageText : String := "Usage: bytepat [OPTIONS] <PATTERN>...\n"

def helpText : String :=
  "A parser for a byte-oriented pattern language, producing a typed syntax tree "
    ++ "for byte search engines\n\n" ++ usageText
    ++ "\nArguments:\n"
    ++ "  <PATTERN>...  Patterns to parse\n"
    ++ "\nOptions:\n"
    ++ "  -t, --tree     Print the syntax tree instead of the normalised pattern\n"
    ++ "  -h, --help     Print help\n"
    ++ "  -V, --version  Print version\n"

def written (asListing : Bool) (p : Pattern) : String :=
  if asListing then p.listing.pretty else p.text

/-- The patterns that can be read, one after another. -/
def successes (patterns : List (List Char)) (asListing : Bool) : List String :=
  patterns.filterMap fun text =>
    (parse text).toOption.map fun p => written asListing p ++ "\n"

/-- A line for each text that is no pattern. -/
def failures (patterns : List (List Char)) : List String :=
  patterns.filterMap fun text =>
    match parse text with
    | .ok _ => none
    | .error e => some (String.ofList text ++ ": " ++ e.report.text ++ "\n")

/-- How many texts were no patterns. -/
def failureCount (n : Nat) : String :=
  "Error: " ++ String.ofList (Nat.toDigits 10 n)
    ++ (if n = 1 then " pattern" else " patterns") ++ " failed to parse\n"

def output : Command → Output
  | help => ⟨0, helpText, ""⟩
  | version => ⟨0, versionText, ""⟩
  | refuse error => ⟨2, "", "error: " ++ error.text ++ "\n\n" ++ usageText⟩
  | write patterns asListing =>
    let failed := failures patterns
    { code := if failed.isEmpty then 0 else 1
      out := String.join (successes patterns asListing)
      err := String.join failed
        ++ if failed.isEmpty then "" else failureCount failed.length }

end Command
end OctetPattern
