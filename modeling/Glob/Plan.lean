import Glob.Cache
import Glob.Text.Folding
/-!
# A plan for walking directories

A walker that looks for the paths of a pattern need not test every path there is: it can follow the
pattern one path component at a time.  A `precise` step names one entry, a `wildcard` step filters
the entries of a directory, and a `recursive` step goes down into any number of directories.

A brace branch may hold a separator, and then no single component can be tested by itself.  From such
a segment on the plan ends with one `tail` step, which tests the whole rest of a path.

Nothing here looks at a directory.
-/
namespace Glob

inductive Selector.Kind
  | precise
  | wildcard
  | recursive
  | tail
  deriving DecidableEq, Repr

def Selector.Kind.name : Selector.Kind → Text
  | .precise => Text.of "PRECISE"
  | .wildcard => Text.of "WILDCARD"
  | .recursive => Text.of "RECURSIVE"
  | .tail => Text.of "TAIL"

structure Selector where
  kind : Selector.Kind
  text : Text
  matcher : Option Matcher
  options : Options

structure MissingMatcher where
  kind : Selector.Kind
  text : Text

def MissingMatcher.message (e : MissingMatcher) : Text :=
  e.kind.name ++ Text.of " selector " ++ e.text.quoted ++ Text.of " needs a matcher"

namespace Selector

/-- A step made by hand; `wildcard` and `tail` steps have to have a matcher. -/
def make? (kind : Kind) (text : Text) (matcher : Option Matcher) (options : Options) :
    Except MissingMatcher Selector :=
  match kind, matcher with
  | .wildcard, none | .tail, none => .error ⟨kind, text⟩
  | _, _ => .ok ⟨kind, text, matcher, options⟩

/-- The step admits a path component or, for a `tail` step, the rest of a path. -/
def accepts (s : Selector) (name : Text) : Bool :=
  match s.kind, s.matcher with
  | .recursive, _ => !(s.options.literalLeadingDot && name.head? == some Mark.dot)
  | _, some m => m.accepts name
  | _, none =>
    if s.options.caseSensitive then name == s.text else Text.fold name == Text.fold s.text

end Selector

mutual

def Node.crossesSeparator : Node → Bool
  | .literal text _ => text.contains Mark.slash
  | .alternation branches _ => branchesCrossSeparator branches
  | _ => false

def crossesSeparator : List Node → Bool
  | [] => false
  | node :: nodes => node.crossesSeparator || crossesSeparator nodes

def branchesCrossSeparator : List (List Node) → Bool
  | [] => false
  | branch :: branches => crossesSeparator branch || branchesCrossSeparator branches

end

namespace Plan

/-- The segments that steps are made for: all but an empty one at the end, which a trailing separator
leaves. -/
def walked (segments : List Segment) : List Segment :=
  match segments.getLast? with
  | some last =>
    if 1 < segments.length && last.nodes.isEmpty then segments.dropLast else segments
  | none => segments

/-- The steps for some segments of a pattern, the last of which ends at `stop`. -/
def steps (pattern : Text) (o : Options) (stop : Int) :
    List Segment → Cache → Except ParseFailure (List Selector) × Cache
  | [], c => (.ok [], c)
  | s :: rest, c =>
    let go (step : Selector) (c : Cache) : Except ParseFailure (List Selector) × Cache :=
      match steps pattern o stop rest c with
      | (.ok steps, c) => (.ok (step :: steps), c)
      | (.error f, c) => (.error f, c)
    if s.isRecursive then go ⟨.recursive, [Mark.star, Mark.star], none, o⟩ c
    else if s.isLiteral then go ⟨.precise, s.literalText, none, o⟩ c
    else if crossesSeparator s.nodes then
      let text := Span.extract ⟨s.span.start, stop⟩ pattern
      match c.compile o text with
      | (.ok m, c) => (.ok [⟨.tail, text, some m.matcher, o⟩], c)
      | (.error f, c) => (.error f, c)
    else
      let text := s.span.extract pattern
      match c.compile o text with
      | (.ok m, c) => go ⟨.wildcard, text, some m.matcher, o⟩ c
      | (.error f, c) => (.error f, c)

end Plan

def plan (c : Cache) (o : Options) (pattern : Text) :
    Except ParseFailure (List Selector) × Cache :=
  match Pattern.parse pattern with
  | .error f => (.error f, c)
  | .ok tree =>
    let segments := Plan.walked tree.segments
    Plan.steps pattern o ((segments.getLast?.map (·.span.stop)).getD 0) segments c

end Glob
