import Glob.Pattern.Expression
import Glob.Pattern.Parser
import Glob.Regex.Reader
import Glob.Regex.Run
/-!
# Compiled patterns

A `Matcher` is a pattern with the source text of its regular expression and the expression read from
that text, ready to run.  Where letters match exactly and the pattern is literal, no expression is
run: the candidate is compared with the literal text.  A candidate is taken as it is, without any
normalisation.
-/
namespace Glob

structure Matcher where
  pattern : Text
  options : Options
  source : Text
  regex : Regex
  isLiteral : Bool
  /-- The one text that matches, where no expression is needed. -/
  literal : Option Text

def Pattern.regexSource (o : Options) (p : Pattern) : Text := (p.regex o).render

def engineRejected (detail pattern : Text) : GlobError :=
  ⟨.compiling, .engineRejected, Text.of "regex engine rejected generated pattern: " ++ detail,
    ⟨0, pattern.length⟩, some pattern⟩

/-- The expression of a source text; `pattern` is the text that errors show. -/
def compileSource (source pattern : Text) : Except GlobError Regex :=
  match Regex.read source with
  | .ok r =>
    if r.widthsBehind then .ok r
    else .error (engineRejected (Text.of "look-behind requires fixed-width pattern") pattern)
  | .error e => .error (engineRejected (e.message source) pattern)

def regexSource? (o : Options) (pattern : Text) : Except ParseFailure Text :=
  (Pattern.regexSource o ·) <$> Pattern.parse pattern

namespace Matcher

def ofPattern? (o : Options) (pattern : Text) : Except ParseFailure Matcher :=
  match Pattern.parse pattern with
  | .error f => .error f
  | .ok tree =>
    let source := tree.regexSource o
    match compileSource source pattern with
    | .error e => .error (.rejected e)
    | .ok regex =>
      .ok ⟨pattern, o, source, regex, tree.isLiteral,
        if tree.isLiteral && o.caseSensitive then some tree.literalText else none⟩

/-- The whole candidate matches the pattern. -/
def accepts (m : Matcher) (candidate : Text) : Bool :=
  match m.literal with
  | some text => candidate == text
  | none => m.regex.accepts (!m.options.caseSensitive) candidate

/-- Two matchers are equal if they were made from the same pattern with the same options. -/
def key (m : Matcher) : Text × Options := (m.pattern, m.options)

def display (m : Matcher) : Text :=
  Text.of "Matcher(pattern=" ++ m.pattern.quoted ++ Text.of ", options=" ++ m.options.display ++
    Text.of ")"

end Matcher

end Glob
