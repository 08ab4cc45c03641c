import Glob.CommandLine.Arguments
import Glob.Text.Printable
/-!
# What the program says about its own use

Lines of text for who asks for help, and for who has used the program wrongly.
-/
namespace Glob.CommandLine

def commandPath (program : Text) : Option Command → Text
  | none => program
  | some c => program ++ Mark.space :: Text.of c.name

def operandsLine : Option Command → String
  | none => "COMMAND [ARGS]..."
  | some .translate => "PATTERN"
  | some .check => "PATTERN"
  | some .select => "PATTERN [PATHS]..."

def usageLine (program : Text) (about : Option Command) : Text :=
  Text.of "Usage: " ++ commandPath program about ++ Text.of " [OPTIONS] " ++
    Text.of (operandsLine about)

def Fault.message : Fault → Text
  | .noSuchOption name alike =>
    Text.of "No such option: " ++ name ++
      (match alike with
        | [] => []
        | [one] => Text.of " Did you mean " ++ one ++ Text.of "?"
        | several => Text.of " (Possible options: " ++ Text.join (Text.of ", ") several ++
          Text.of ")")
  | .valueGiven name => Text.of "Option '" ++ name ++ Text.of "' does not take a value."
  | .noSuchCommand name => Text.of "No such command " ++ Text.quoted name ++ Text.of "."
  | .missingCommand => Text.of "Missing command."
  | .missingPattern => Text.of "Missing argument 'PATTERN'."
  | .extraOperands operands =>
    Text.of (if operands.length = 1 then "Got unexpected extra argument ("
      else "Got unexpected extra arguments (") ++
      Text.join [Mark.space] operands ++ Text.of ")"

/-- What is said of a fault.  How the command is used comes before it, unless an option was given a
value and takes none. -/
def Misuse.lines (program : Text) (m : Misuse) : List Text :=
  let error := Text.of "Error: " ++ m.fault.message
  match m.fault with
  | .valueGiven _ => [error]
  | _ => [
    usageLine program m.command,
    Text.of "Try '" ++ commandPath program m.command ++ Text.of " --help' for help.",
    [],
    error]

def Command.purpose : Command → String
  | .translate => "Print the regular expression a PATTERN compiles to."
  | .check => "Validate PATTERN, pointing at the first error if there is one."
  | .select => "Print each PATH that matches PATTERN."

def optionLines : List String := [
  "  -s, --case-sensitive / -i, --ignore-case",
  "                                  Match letters exactly or regardless of case.",
  "  --literal-separator / --no-literal-separator",
  "                                  Whether '*', '?' and classes refuse to match",
  "                                  '/'.",
  "  --literal-leading-dot / --no-literal-leading-dot",
  "                                  Whether a leading '.' in a segment needs a",
  "                                  literal '.' in the pattern.",
  "  --debug                         Log to the console as well as the log file.",
  "  --help                          Show this message and exit."]

def helpLines (program : Text) : Option Command → List Text
  | none =>
    [usageLine program none, []] ++
      (["  pathglob: compile glob patterns and test paths against them.", "", "Options:"] ++ optionLines ++
        ["", "Commands:",
          "  check      " ++ Command.check.purpose,
          "  match      " ++ Command.select.purpose,
          "  translate  " ++ Command.translate.purpose]).map Text.of
  | some c =>
    [usageLine program (some c), []] ++
      (["  " ++ c.purpose] ++
        (match c with
          | .select =>
            ["", "  Paths are read one per line from stdin when none are given. Exits with 0 if",
              "  any path matched and 1 otherwise.", "",
              "  Examples:     pathglob match 'src/**/*.py' src/a.py docs/b.md     git ls-",
              "  files | pathglob match '*.\x7bc,h\x7d'"]
          | _ => []) ++
        ["", "Options:", "  --help  Show this message and exit."]).map Text.of

end Glob.CommandLine
