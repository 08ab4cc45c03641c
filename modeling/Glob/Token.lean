import Glob.Text.Printable
/-!
# Tokens

A pattern is read as a list of tokens, each with its text and its span.  The text of an escaped
character is the character alone, and that of a range is its two ends, both without their
backslashes; all other tokens have the text under their span.
-/
namespace Glob

inductive Token.Kind
  | literal
  | star
  | doubleStar
  | question
  | classOpen
  | classClose
  | classNegate
  | classRange
  | braceOpen
  | braceComma
  | braceClose
  | separator
  | escaped
  | finish
  deriving DecidableEq, Repr

def Token.Kind.name : Token.Kind → Text
  | .literal => Text.of "LITERAL"
  | .star => Text.of "STAR"
  | .doubleStar => Text.of "DOUBLE_STAR"
  | .question => Text.of "QUESTION"
  | .classOpen => Text.of "CLASS_OPEN"
  | .classClose => Text.of "CLASS_CLOSE"
  | .classNegate => Text.of "CLASS_NEGATE"
  | .classRange => Text.of "CLASS_RANGE"
  | .braceOpen => Text.of "BRACE_OPEN"
  | .braceComma => Text.of "BRACE_COMMA"
  | .braceClose => Text.of "BRACE_CLOSE"
  | .separator => Text.of "PATH_SEPARATOR"
  | .escaped => Text.of "ESCAPED_CHAR"
  | .finish => Text.of "END"

structure Token where
  kind : Token.Kind
  text : Text
  span : Span
  deriving DecidableEq, Repr

namespace Token

/-- The first and the last code point of a token's text: for a range, its two ends. -/
def ends? (t : Token) : Option (CodePoint × CodePoint) :=
  match t.text.head?, t.text.getLast? with
  | some lo, some hi => some (lo, hi)
  | _, _ => none

/-- A token as messages show it; a range without ends has no such form. -/
def display? (t : Token) : Option Text :=
  let place := Text.of "@" ++ Text.ofInt t.span.start
  match t.kind with
  | .literal | .escaped =>
    some (t.kind.name ++ Text.of "(" ++ t.text.quoted ++ Text.of ")" ++ place)
  | .classRange =>
    t.ends?.map fun (lo, hi) =>
      t.kind.name ++ Text.of "(" ++ Text.quoted [lo] ++ Text.of ", " ++ Text.quoted [hi] ++
        Text.of ")" ++ place
  | kind => some (kind.name ++ place)

end Token

end Glob
