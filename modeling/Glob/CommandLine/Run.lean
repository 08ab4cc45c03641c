import Glob.CommandLine.Manual
import Glob.CommandLine.Outcome
import Glob.Matcher
/-!
# The program

`CommandLine.run` is a run of the program: what it prints, logs and answers for its arguments and
its standard input, in its surroundings.  The log is opened first, as the configuration says; then
the command is done with the options that the flags and the configuration give.
-/
namespace Glob.CommandLine

/-! ## Commands -/

def note (level : Log.Level) (text : Text) : Event := .logged ⟨level, text⟩

def complain (text : Text) : Event := .complaint text.withoutStyling

/-- Prints lines, and goes on if all of them could be printed. -/
def print (lines : List Text) (next : Outcome) : Outcome :=
  match lines with
  | [] => next
  | line :: rest =>
    let line := line.withoutStyling
    match Utf8.surrogates? line with
    | none => .after [.printed line] (print rest next)
    | some e => ⟨[], .failed (.output e), none⟩

/-- Compiles a pattern, and goes on with its matcher; an error is shown where it is. -/
def withMatcher (o : Options) (pattern : Text) (next : Matcher → Outcome) : Outcome :=
  let shown := pattern.quoted
  .after [note .debug (Text.of "Compiling glob " ++ shown ++ Text.of " with " ++ o.display)]
    (match Matcher.ofPattern? o pattern with
      | .ok m =>
        .after [note .debug (Text.of "Glob " ++ shown ++ Text.of " compiled to " ++
          m.source.quoted)] (next m)
      | .error (.rejected e) =>
        ⟨[note .debug (Text.of "Rejected pattern " ++ shown ++ Text.of ": " ++ e.message),
          complain e.caret, complain (Text.of "error: " ++ e.message)], .exit 2, none⟩
      | .error f => ⟨[], .failed (.pattern f), none⟩)

def Task.perform (o : Options) (input : Text) : Task → Outcome
  | .translate pattern => withMatcher o pattern fun m => print [m.source] ⟨[], .exit 0, none⟩
  | .check pattern => withMatcher o pattern fun _ => print [Text.of "ok"] ⟨[], .exit 0, none⟩
  | .select pattern paths =>
    withMatcher o pattern fun m =>
      let candidates := if paths = [] then input.lines else paths
      let matched := candidates.filter m.accepts
      print matched
        ⟨[note .debug (Text.ofNat matched.length ++ Text.of " of " ++
            Text.ofNat candidates.length ++ Text.of " paths matched " ++ pattern.quoted)],
          .exit (if matched = [] then 1 else 0), none⟩

/-! ## The log -/

def logName : String := "pathglob.log"

/-- The warnings that came before there was a log. -/
def early (warning : Option Log.Record) : List Event :=
  warning.toList.map fun r => .complaint r.earlyLine

/-- How much is logged: as a variable says, or else the configuration; a name that is none means
`INFO`.  Another variable makes it everything. -/
def logLevel (s : Surroundings) : Option Log.Record × Except Config.Failure Log.Level :=
  let level := fun name =>
    if s.isSet "PATHGLOB_DEBUG" then .debug else (Log.Level.ofText? name).getD .info
  if s.isSet "PATHGLOB_DEBUG_LEVEL" then
    (none, .ok (level ((s.env? "PATHGLOB_DEBUG_LEVEL").getD [])))
  else (Config.ask s Config.verbosity).map id (level <$> ·)

def openLogIn (s : Surroundings) (flags : Flags) (directory : FilePath) :
    List Event × Except Failure LogFile :=
  match logLevel s with
  | (warning, .error f) => (early warning, .error (.config f))
  | (warning, .ok level) =>
    let location := s.files.named (directory.child logName)
    let whole := FilePath.toText ⟨max 1 directory.root, location⟩
    (early warning,
      if pathLimit < Utf8.size whole then .error (.files (.tooLong whole))
      else if s.files.isDirectory location then .error (.files (.isADirectory whole))
      else .ok ⟨location, directory.inside logName, level, flags.debug⟩)

def openLog (s : Surroundings) (flags : Flags) :
    List Event × Except Failure (LogFile × Surroundings) :=
  match Config.ask s (Config.logDirectory s) with
  | (warning, .error f) => (early warning, .error (.config f))
  | (warning, .ok directory) =>
    match s.files.makeDirectories directory with
    | .error f => (early warning, .error (.files f))
    | .ok files =>
      let s := { s with files }
      match openLogIn s flags directory with
      | (events, .error f) => (early warning ++ events, .error f)
      | (events, .ok log) => (early warning ++ events, .ok (log, s))

/-! ## The whole -/

def showMisuse (s : Surroundings) (m : Misuse) : Outcome :=
  ⟨(m.lines s.program).map complain, .exit 2, none⟩

def showHelp (s : Surroundings) (about : Option Command) : Outcome :=
  ⟨(helpLines s.program about).map .printed, .exit 0, none⟩

def work (s : Surroundings) (flags : Flags) (request : Except Misuse Request) (input : Text) :
    Outcome :=
  match Config.ask s Config.options with
  | (warning, .error f) => ⟨warning.toList.map .logged, .failed (.config f), none⟩
  | (warning, .ok defaults) =>
    let o := flags.options defaults
    .after (warning.toList.map .logged ++ [note .debug (Text.of "Matching with " ++ o.display)])
      (match request with
        | .error m => showMisuse s m
        | .ok (.help c) => showHelp s (some c)
        | .ok (.perform task) => task.perform o input)

def run (s : Surroundings) (arguments : List Text) (input : Text) : Outcome :=
  match Reading.ofArguments arguments with
  | .help => showHelp s none
  | .misuse m => showMisuse s m
  | .start flags request =>
    match openLog s flags with
    | (events, .error f) => ⟨events, .failed f, none⟩
    | (events, .ok (log, s)) =>
      let opened := [
        note .info (Text.of "Logging configured. Log file: " ++ log.name),
        note .info (Text.of "Log level set to: " ++ Text.of log.level.name)]
      { (work s flags request input).after (events ++ opened) with log := some log }

end Glob.CommandLine
