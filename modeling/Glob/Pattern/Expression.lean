import Glob.Options
import Glob.Pattern.Place
import Glob.Regex
/-!
# The regular expression of a tree

`Pattern.regex` gives the expression that matches exactly the paths of a pattern, anchored at both
ends.

Two options add guards.  Under `literalSeparator`, `*`, `?` and negated classes are sets without the
separator, and a class that has it among its members is preceded by a look ahead.  Under
`literalLeadingDot`, a wildcard or class refuses a dot at the start of a path component; where it may
or may not be at a start, the guard looks behind before it refuses.

A `**` segment takes any number of components with their separators, so it also decides which of
the separators around it are written: `Expression.segments`.
-/
namespace Glob

namespace Expression

def separator : Regex := .char Mark.slash

def notSeparator : Regex := .set true [(Mark.slash, Mark.slash)]

/-! ## Guards -/

def noDot : Regex := .notAhead (.char Mark.dot)

/-- No dot follows, unless there is a character before it that is no separator. -/
def noDotAtStart : Regex := .notAhead (.seq (.notBehind notSeparator) (.char Mark.dot))

/-- What stands before a wildcard or a class. -/
def guard (o : Options) (place : Place) : Regex :=
  if o.literalLeadingDot then
    match place with
    | .componentStart => noDot
    | .maybeStart => noDotAtStart
    | .inside => .empty
  else .empty

/-! ## Nodes -/

def anyChar (o : Options) : Regex := if o.literalSeparator then notSeparator else .any

def star (o : Options) : Regex := .many (anyChar o)

def set (o : Options) (negated : Bool) (items : List (CodePoint × CodePoint)) : Regex :=
  if negated then
    .set true (if o.literalSeparator then items ++ [(Mark.slash, Mark.slash)] else items)
  else if o.literalSeparator && items.any (fun item => item.1 ≤ Mark.slash && Mark.slash ≤ item.2)
  then .seq (.notAhead separator) (.set false items)
  else .set false items

mutual

/-- The expression of a node at a place of its component. -/
def node (o : Options) (place : Place) : Node → Regex
  | .literal text _ => Regex.ofText text
  | .anyChar _ => .seq (guard o place) (anyChar o)
  | .star _ => .seq (guard o place) (star o)
  | .doubleStar _ => .seq (star o) (star o)
  | .set negated items _ => .seq (guard o place) (set o negated items)
  | .alternation bs _ => .group (Regex.alternatives (branches o place bs))

def nodes (o : Options) (place : Place) : List Node → Regex
  | [] => .empty
  | n :: rest => .seq (node o place n) (nodes o (n.placeAfter place) rest)

def branches (o : Options) (place : Place) : List (List Node) → List Regex
  | [] => []
  | b :: rest => nodes o place b :: branches o place rest

end

/-! ## Segments -/

/-- One component that `**` may take, without its separator. -/
def component (o : Options) : Regex :=
  if o.literalLeadingDot then .seq noDot (.many notSeparator) else .many notSeparator

def components (o : Options) : Regex := .many (.group (.seq (component o) separator))

def anyPath (o : Options) : Regex :=
  if o.literalLeadingDot then
    .optional (.group (.seq (component o) (.many (.group (.seq separator (component o))))))
  else .many .any

def segment (o : Options) (s : Segment) : Regex := nodes o .componentStart s.nodes

/-- The segments that follow others.  A separator is due before the next one unless a `**` has
taken it; after an empty first segment, the root, a final `**` has to have its separator. -/
def segmentsAfter (o : Options) (separatorDue underRoot : Bool) : List Segment → Regex
  | [] => .empty
  | s :: rest =>
    let due := if separatorDue then separator else .empty
    if s.isRecursive then
      match rest with
      | [] =>
        let path := .seq separator (anyPath o)
        if underRoot then path else .optional (.group path)
      | _ :: _ => .seq due (.seq (components o) (segmentsAfter o false false rest))
    else .seq due (.seq (segment o s) (segmentsAfter o true false rest))

def segments (o : Options) : List Segment → Regex
  | [] => .empty
  | s :: rest =>
    if s.isRecursive then
      match rest with
      | [] => anyPath o
      | _ :: _ => .seq (components o) (segmentsAfter o false false rest)
    else .seq (segment o s) (segmentsAfter o true s.nodes.isEmpty rest)

end Expression

def Pattern.regex (o : Options) (p : Pattern) : Regex :=
  .seq .start (.seq (Expression.segments o p.segments) .stop)

end Glob
