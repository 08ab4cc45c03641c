import Glob.Text
/-!
# The tree of a pattern

A pattern is a list of segments, the parts between its top-level separators, and a segment is a list
of nodes.  Each node owns the span of the text it was read from.  A segment that is `**` alone is
recursive: it stands for any number of path components.  An alternation holds its branches as node
lists; a branch may hold separators, as literal text.

The tree has no other shapes than these, so a tree made by hand is one of them as well
(`Glob.Pattern.Sketch`); only what a pattern text can denote is narrower.
-/
namespace Glob

inductive Node
  | literal (text : Text) (span : Span)
  /-- `?` -/
  | anyChar (span : Span)
  | star (span : Span)
  | doubleStar (span : Span)
  /-- `[…]`; a single character is the range from itself to itself. -/
  | set (negated : Bool) (items : List (CodePoint × CodePoint)) (span : Span)
  | alternation (branches : List (List Node)) (span : Span)

structure Segment where
  nodes : List Node
  span : Span

structure Pattern where
  source : Text
  segments : List Segment

namespace Node

def isLiteral : Node → Bool
  | .literal _ _ => true
  | _ => false

def literalText : Node → Text
  | .literal text _ => text
  | _ => []

def span : Node → Span
  | .literal _ s | .anyChar s | .star s | .doubleStar s | .set _ _ s | .alternation _ s => s

/-- A `**` that does not stand alone is two stars. -/
def twoStars (start : Int) : List Node :=
  [.star ⟨start, start + 1⟩, .star ⟨start + 1, start + 2⟩]

end Node

namespace Segment

def isRecursive (s : Segment) : Bool :=
  match s.nodes with
  | [.doubleStar _] => true
  | _ => false

def isLiteral (s : Segment) : Bool := s.nodes.all Node.isLiteral

def literalText (s : Segment) : Text := s.nodes.flatMap Node.literalText

end Segment

namespace Pattern

def isLiteral (p : Pattern) : Bool := p.segments.all Segment.isLiteral

/-- The text that a literal pattern matches: its own, without the escaping backslashes. -/
def literalText (p : Pattern) : Text := Text.join [Mark.slash] (p.segments.map Segment.literalText)

end Pattern

end Glob
