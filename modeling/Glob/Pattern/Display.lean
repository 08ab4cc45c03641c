import Glob.Pattern
import Glob.Text.Printable
/-!
# Trees as messages show them

A tree is shown in the pattern language itself, with literal text quoted, so that `a*` is shown as
`'a'*`.
-/
namespace Glob

def displayItem (item : CodePoint × CodePoint) : Text :=
  if item.1 = item.2 then [item.1] else [item.1, Mark.dash, item.2]

mutual

def Node.display : Node → Text
  | .literal text _ => text.quoted
  | .anyChar _ => [Mark.question]
  | .star _ => [Mark.star]
  | .doubleStar _ => [Mark.star, Mark.star]
  | .set negated items _ =>
    Mark.openBracket :: (if negated then [Mark.exclamation] else []) ++
      items.flatMap displayItem ++ [Mark.closeBracket]
  | .alternation branches _ =>
    Mark.openBrace :: displayBranches branches ++ [Mark.closeBrace]

def displayNodes : List Node → Text
  | [] => []
  | node :: nodes => node.display ++ displayNodes nodes

def displayBranches : List (List Node) → Text
  | [] => []
  | [branch] => displayNodes branch
  | branch :: branches => displayNodes branch ++ Mark.comma :: displayBranches branches

end

def Segment.display (s : Segment) : Text := displayNodes s.nodes

def Pattern.display (p : Pattern) : Text :=
  Text.of "Pattern(" ++ Text.join [Mark.slash] (p.segments.map Segment.display) ++ Text.of ")"

end Glob
