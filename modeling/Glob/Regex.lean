import Glob.Text
/-!
# Regular expressions

The expressions that patterns are compiled to, as trees.  `Regex.render` writes a tree as source
text.  The text is what users see and what is matched: a matcher reads it back
(`Glob.Regex.Reader`) and runs the tree it reads (`Glob.Regex.Run`).  For trees that come from a
pattern the two trees accept the same texts; a tree made by hand may hold an empty set, and then the
text means something else.

`Regex.width?` is the number of code points that an expression takes, where that is always the same.  What
a `notBehind` looks for has to have a width, or its text is refused (`Glob.Matcher`).
-/
namespace Glob

inductive Regex
  | empty
  | char (c : CodePoint)
  /-- Any code point, newlines included. -/
  | any
  /-- One code point inside the ranges or, if `negated`, outside. -/
  | set (negated : Bool) (items : List (CodePoint × CodePoint))
  | start
  | stop
  | seq (a b : Regex)
  | either (a b : Regex)
  | group (a : Regex)
  | many (a : Regex)
  | optional (a : Regex)
  /-- What follows does not begin with a match of `a`. -/
  | notAhead (a : Regex)
  /-- What comes before does not end with a match of `a`. -/
  | notBehind (a : Regex)
  deriving DecidableEq, Repr

namespace Regex

def sequence : List Regex → Regex
  | [] => .empty
  | [a] => a
  | a :: rest => .seq a (sequence rest)

/-- The expressions as alternatives; of none, the empty expression. -/
def alternatives : List Regex → Regex
  | [] => .empty
  | [a] => a
  | a :: rest => .either a (alternatives rest)

def ofText (t : Text) : Regex := sequence (t.map .char)

/-! ## Widths -/

/-- The number of code points that the expression takes, where that is always the same. -/
def width? : Regex → Option Nat
  | .empty | .start | .stop | .notAhead _ | .notBehind _ => some 0
  | .char _ | .any | .set _ _ => some 1
  | .seq a b =>
    match a.width?, b.width? with
    | some m, some n => some (m + n)
    | _, _ => none
  | .either a b =>
    match a.width?, b.width? with
    | some m, some n => if m = n then some m else none
    | _, _ => none
  | .group a => a.width?
  | .many a | .optional a => if a.width? = some 0 then some 0 else none

/-- Whatever is looked for behind has a width. -/
def widthsBehind : Regex → Bool
  | .empty | .char _ | .any | .set _ _ | .start | .stop => true
  | .seq a b | .either a b => a.widthsBehind && b.widthsBehind
  | .group a | .many a | .optional a | .notAhead a => a.widthsBehind
  | .notBehind a => a.width?.isSome && a.widthsBehind

/-! ## Source text -/

/-- The code points that take a backslash outside sets: those with a meaning there, and the blanks,
`#`, `&`, `-` and `~`, so that the text stays the same in every notation for expressions. -/
def specials : List CodePoint := [
  0x09, 0x0A, 0x0B, 0x0C, 0x0D, 0x20, 0x23, 0x24, 0x26, 0x28, 0x29, 0x2A, 0x2B, 0x2D, 0x2E, 0x3F,
  0x5B, 0x5C, 0x5D, 0x5E, 0x7B, 0x7C, 0x7D, 0x7E]

def renderChar (c : CodePoint) : Text :=
  if specials.contains c then [Mark.backslash, c] else [c]

def setSpecials : List CodePoint :=
  [Mark.backslash, Mark.closeBracket, Mark.caret, Mark.dash, Mark.openBracket]

def renderSetChar (c : CodePoint) : Text :=
  if setSpecials.contains c then [Mark.backslash, c] else [c]

def renderItem (item : CodePoint × CodePoint) : Text :=
  if item.1 = item.2 then renderSetChar item.1
  else renderSetChar item.1 ++ Mark.dash :: renderSetChar item.2

def render : Regex → Text
  | .empty => []
  | .char c => renderChar c
  | .any => [Mark.dot]
  | .set negated items =>
    Mark.openBracket :: (if negated then [Mark.caret] else []) ++ items.flatMap renderItem ++
      [Mark.closeBracket]
  | .start => [Mark.caret]
  | .stop => [Mark.backslash, 0x5A]
  | .seq a b => a.render ++ b.render
  | .either a b => a.render ++ Mark.bar :: b.render
  | .group a => [Mark.openParen, Mark.question, Mark.colon] ++ a.render ++ [Mark.closeParen]
  | .many a => a.render ++ [Mark.star]
  | .optional a => a.render ++ [Mark.question]
  | .notAhead a =>
    [Mark.openParen, Mark.question, Mark.exclamation] ++ a.render ++ [Mark.closeParen]
  | .notBehind a =>
    [Mark.openParen, Mark.question, Mark.less, Mark.exclamation] ++ a.render ++ [Mark.closeParen]

end Regex

end Glob
