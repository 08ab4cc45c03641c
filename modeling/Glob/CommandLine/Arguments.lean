import Glob.Options
import Glob.Text.Alphanumeric
import Glob.Text.Likeness
/-!
# The arguments of the command line

The arguments are switches for the whole program, then the name of a command, then its operands.
`readSwitches` sorts an argument list into switches and operands.  A switch is written in full, or
as a letter after one dash, where several letters may share the dash; none takes a value.  After
`--` every argument is an operand, and a lone `-` always is.  Before the command no operand may
stand, so there the first one ends the switches; a command takes its operands and switches in any
order.

Where switches contradict each other the last one counts.

What is wrong with the operands of a command is known only after the program was set up, so
`Reading.start` holds it as a value.
-/
namespace Glob.CommandLine

inductive Command
  | translate
  | check
  | select
  deriving DecidableEq, Repr

namespace Command

def all : List Command := [.translate, .check, .select]

def name : Command → String
  | .translate => "translate"
  | .check => "check"
  | .select => "match"

end Command

inductive Fault
  /-- There is no such option; `alike` are the options that may have been meant. -/
  | noSuchOption (name : Text) (alike : List Text)
  | valueGiven (name : Text)
  | noSuchCommand (name : Text)
  | missingCommand
  | missingPattern
  | extraOperands (operands : List Text)
  deriving DecidableEq, Repr

structure Misuse where
  command : Option Command
  fault : Fault
  deriving DecidableEq, Repr

/-! ## Switches -/

structure Switch (σ : Type) where
  long : String
  short : Option Char
  set : σ → σ

variable {σ : Type}

def equalsSign : CodePoint := 0x3D

def readLetters (switches : List (Switch σ)) (s : σ) : Text → Except Fault σ
  | [] => .ok s
  | c :: rest =>
    match switches.find? fun w => w.short.map Char.toNat == some c with
    | some w => readLetters switches (w.set s) rest
    | none => .error (.noSuchOption [Mark.dash, c] [])

def readSwitch (switches : List (Switch σ)) (s : σ) (argument : Text) : Except Fault σ :=
  let name := argument.takeWhile (· != equalsSign)
  match switches.find? fun w => Text.of w.long == name with
  | some w => if name = argument then .ok (w.set s) else .error (.valueGiven name)
  | none =>
    match argument with
    | Mark.dash :: Mark.dash :: _ =>
      .error (.noSuchOption name (Text.closest name (switches.map fun w => Text.of w.long)))
    | _ => readLetters switches s (argument.drop 1)

/-- The argument is no operand: it begins with a dash and goes on. -/
def isSwitch (argument : Text) : Bool := argument.head? = some Mark.dash && argument.length ≠ 1

/-- What the switches set, and the operands.  If `mixed`, switches may follow operands. -/
def readSwitches (mixed : Bool) (switches : List (Switch σ)) (s : σ) :
    List Text → Except Fault (σ × List Text)
  | [] => .ok (s, [])
  | argument :: rest =>
    if argument = [Mark.dash, Mark.dash] then .ok (s, rest)
    else if isSwitch argument then
      match readSwitch switches s argument with
      | .ok s => readSwitches mixed switches s rest
      | .error f => .error f
    else if mixed then
      (fun (s, operands) => (s, argument :: operands)) <$> readSwitches mixed switches s rest
    else .ok (s, argument :: rest)

/-! ## The switches before the command -/

structure Flags where
  caseSensitive : Option Bool := none
  literalSeparator : Option Bool := none
  literalLeadingDot : Option Bool := none
  debug : Bool := false
  help : Bool := false
  deriving DecidableEq, Repr

namespace Flags

def switches : List (Switch Flags) := [
  ⟨"--case-sensitive", some 's', fun f => { f with caseSensitive := some true }⟩,
  ⟨"--ignore-case", some 'i', fun f => { f with caseSensitive := some false }⟩,
  ⟨"--literal-separator", none, fun f => { f with literalSeparator := some true }⟩,
  ⟨"--no-literal-separator", none, fun f => { f with literalSeparator := some false }⟩,
  ⟨"--literal-leading-dot", none, fun f => { f with literalLeadingDot := some true }⟩,
  ⟨"--no-literal-leading-dot", none, fun f => { f with literalLeadingDot := some false }⟩,
  ⟨"--debug", none, fun f => { f with debug := true }⟩,
  ⟨"--help", none, fun f => { f with help := true }⟩]

def options (f : Flags) (defaults : Options) : Options where
  caseSensitive := f.caseSensitive.getD defaults.caseSensitive
  literalSeparator := f.literalSeparator.getD defaults.literalSeparator
  literalLeadingDot := f.literalLeadingDot.getD defaults.literalLeadingDot

end Flags

/-! ## Commands with their operands -/

inductive Task
  | translate (pattern : Text)
  | check (pattern : Text)
  /-- Of the paths, or else of the lines of standard input, those that match. -/
  | select (pattern : Text) (paths : List Text)
  deriving DecidableEq, Repr

inductive Request
  | help (c : Command)
  | perform (t : Task)
  deriving DecidableEq, Repr

namespace Request

def switches : List (Switch Bool) := [⟨"--help", none, fun _ => true⟩]

def ofOperands (c : Command) : List Text → Except Fault Request
  | [] => .error .missingPattern
  | pattern :: rest =>
    match c, rest with
    | .select, paths => .ok (.perform (.select pattern paths))
    | .translate, [] => .ok (.perform (.translate pattern))
    | .check, [] => .ok (.perform (.check pattern))
    | _, extra => .error (.extraOperands extra)

def ofArguments (c : Command) (arguments : List Text) : Except Misuse Request :=
  match readSwitches true switches false arguments with
  | .error f => .error ⟨some c, f⟩
  | .ok (true, _) => .ok (.help c)
  | .ok (false, operands) => (ofOperands c operands).mapError (⟨some c, ·⟩)

end Request

inductive Reading
  | help
  | misuse (m : Misuse)
  /-- The program is to be set up by the flags, and then to do what is requested. -/
  | start (flags : Flags) (request : Except Misuse Request)

def Reading.needsInput : Reading → Bool
  | .start _ (.ok (.perform (.select _ []))) => true
  | _ => false

/-- A name that begins with a sign was meant as an option. -/
def beginsWithSign (name : Text) : Bool :=
  match name with
  | [] => false
  | c :: _ => !Text.isAlphanumeric c

def Reading.ofArguments (arguments : List Text) : Reading :=
  if arguments = [] then .help
  else
    match readSwitches false Flags.switches {} arguments with
    | .error f => .misuse ⟨none, f⟩
    | .ok (flags, operands) =>
      if flags.help then .help
      else
        match operands with
        | [] => .misuse ⟨none, .missingCommand⟩
        | name :: rest =>
          match Command.all.find? fun c => Text.of c.name == name with
          | some c => .start flags (Request.ofArguments c rest)
          | none =>
            if beginsWithSign name then .help else .misuse ⟨none, .noSuchCommand name⟩

end Glob.CommandLine
