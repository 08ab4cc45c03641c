import Glob.Text.Utf8
/-!
# What is wrong with a pattern

A `GlobError` says what is wrong (`kind`, and `detail` in words), where (`span`), and in which
pattern, if that is known.  From these follow the one-line `message`, the `caret` picture that
underlines the place, and the `byteOffset` of the place in the encoded pattern.
-/
namespace Glob

inductive ErrorKind
  | unterminatedEscape
  | unclosedClass
  | invalidRange
  | unclosedAlternation
  | engineRejected
  deriving DecidableEq, Repr

def ErrorKind.title : ErrorKind → Text
  | .unterminatedEscape => Text.of "unterminated escape"
  | .unclosedClass => Text.of "unclosed character class"
  | .invalidRange => Text.of "invalid character range"
  | .unclosedAlternation => Text.of "unclosed alternation"
  | .engineRejected => Text.of "regex engine rejected generated pattern"

/-- The step that found the error; an error made by hand may name none. -/
inductive Stage
  | scanning
  | parsing
  | compiling
  | unknown
  deriving DecidableEq, Repr

structure GlobError where
  stage : Stage
  kind : ErrorKind
  detail : Text
  span : Span
  pattern : Option Text
  deriving DecidableEq, Repr

namespace GlobError

def message (e : GlobError) : Text :=
  Text.of "Pattern syntax error near position " ++ Text.ofInt e.span.start ++ Text.of ": " ++
    e.detail

/-- The length in bytes of the pattern before the error; where the pattern is not known, the offset
as it is. -/
def byteOffset (e : GlobError) : Except Utf8.EncodeError Int :=
  match e.pattern with
  | none => .ok e.span.start
  | some p => (fun bytes => (bytes.length : Int)) <$> Utf8.encode (p.upTo e.span.start)

/-- The line of marks under the pattern: at least one mark, even for an empty span. -/
def underline (s : Span) : Text :=
  List.replicate s.start.toNat Mark.space ++
    List.replicate (max 1 (s.stop - s.start)).toNat Mark.caret

def caret (e : GlobError) : Text :=
  match e.pattern with
  | none => e.detail
  | some p => p ++ Mark.newline :: underline e.span

end GlobError

end Glob
