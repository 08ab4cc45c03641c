import Glob.Text
/-!
# The log

A record has a level and a text.  A log has a level too, and keeps the records that are at least as
grave.  `Level.ofText?` reads the name of a level in any mixture of capital and small letters.
-/
namespace Glob.Log

inductive Level
  | debug
  | info
  | warning
  | error
  | critical
  deriving DecidableEq, Repr

namespace Level

def all : List Level := [.debug, .info, .warning, .error, .critical]

def name : Level → String
  | .debug => "DEBUG"
  | .info => "INFO"
  | .warning => "WARNING"
  | .error => "ERROR"
  | .critical => "CRITICAL"

def gravity : Level → Nat
  | .debug => 0
  | .info => 1
  | .warning => 2
  | .error => 3
  | .critical => 4

/-- The capital of a letter, as far as a level's name has it: that of the dotless i is an I. -/
def capital (c : CodePoint) : CodePoint :=
  if 0x61 ≤ c ∧ c ≤ 0x7A then c - 0x20 else if c = 0x131 then 0x49 else c

def ofText? (t : Text) : Option Level :=
  all.find? fun l => Text.of l.name == t.map capital

end Level

structure Record where
  level : Level
  text : Text
  deriving DecidableEq, Repr

def Record.line (r : Record) : Text :=
  Text.of "root - " ++ Text.of r.level.name ++ Text.of " - " ++ r.text

/-- The record as it is shown while there is no log. -/
def Record.earlyLine (r : Record) : Text :=
  Text.of r.level.name ++ Text.of ":root:" ++ r.text

def Record.isKept (threshold : Level) (r : Record) : Bool := threshold.gravity ≤ r.level.gravity

end Glob.Log
