import Glob.Text
/-!
# Matching options

The three settings that change what a pattern means.  `Options.display` is their form in log lines
and in the printed form of a matcher; `Options.set?` sets one by its name.
-/
namespace Glob

structure Options where
  /-- Letters match only themselves. -/
  caseSensitive : Bool := true
  /-- `*`, `?` and classes never match a `/`. -/
  literalSeparator : Bool := true
  /-- A `.` at the start of a path component is matched only by a `.` of the pattern. -/
  literalLeadingDot : Bool := false
  deriving DecidableEq, Repr

namespace Options

def boolName : Bool → Text
  | true => Text.of "True"
  | false => Text.of "False"

def display (o : Options) : Text :=
  Text.of "Options(case_sensitive=" ++ boolName o.caseSensitive ++
    Text.of ", require_literal_separator=" ++ boolName o.literalSeparator ++
    Text.of ", require_literal_leading_dot=" ++ boolName o.literalLeadingDot ++ Text.of ")"

def set? (o : Options) (name : Text) (value : Bool) : Option Options :=
  if name = Text.of "case_sensitive" then some { o with caseSensitive := value }
  else if name = Text.of "require_literal_separator" then some { o with literalSeparator := value }
  else if name = Text.of "require_literal_leading_dot" then
    some { o with literalLeadingDot := value }
  else none

end Options

def unknownOptionMessage (name : Text) : Text :=
  Text.of "_options() got an unexpected keyword argument '" ++ name ++ Text.of "'"

end Glob
