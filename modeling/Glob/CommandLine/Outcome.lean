import Glob.Config
import Glob.Pattern.Parser
/-!
# What a run of the program comes to

An `Outcome` is what happened in order, how it ended, and where the log is, if one was opened.  What
is on standard output, on standard error and in the log are views of the events: `outputLines`,
`errorLines` and `records`.

An engine for expressions may write remarks of its own to standard error, for instance that a sign
stands twice in the set `[a&&b]`.  They are no events, so `errorLines` does not have them.
-/
namespace Glob.CommandLine

inductive Event
  | printed (line : Text)
  /-- A line on standard error. -/
  | complaint (line : Text)
  /-- A record for the log, which keeps it if it is grave enough. -/
  | logged (r : Log.Record)
  deriving DecidableEq, Repr

inductive Failure
  | config (f : Config.Failure)
  | files (f : FileFailure)
  /-- A line that has no encoding. -/
  | output (e : Utf8.EncodeError)
  | pattern (f : ParseFailure)

def Failure.message : Failure → Text
  | .config f => f.message
  | .files f => f.message
  | .output e => e.message
  | .pattern f => f.message

inductive Ending
  | exit (code : Nat)
  | failed (f : Failure)

structure LogFile where
  location : Location
  name : Text
  level : Log.Level
  /-- The records are also shown on standard error. -/
  isShown : Bool

structure Outcome where
  events : List Event
  ending : Ending
  log : Option LogFile := none

namespace Outcome

def after (events : List Event) (o : Outcome) : Outcome := { o with events := events ++ o.events }

def outputLines (o : Outcome) : List Text :=
  o.events.filterMap fun
    | .printed line => some line
    | _ => none

def records (o : Outcome) : List Log.Record :=
  match o.log with
  | none => []
  | some log =>
    o.events.filterMap fun
      | .logged r => if r.isKept log.level then some r else none
      | _ => none

def errorLines (o : Outcome) : List Text :=
  o.events.filterMap fun
    | .printed _ => none
    | .complaint line => some line
    | .logged r =>
      match o.log with
      | none => none
      | some log => if log.isShown && r.isKept log.level then some r.line else none

def exitCode (o : Outcome) : Nat :=
  match o.ending with
  | .exit code => code
  | .failed _ => 1

end Outcome

end Glob.CommandLine
