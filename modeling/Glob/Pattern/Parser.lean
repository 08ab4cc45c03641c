import Glob.Pattern
import Glob.Token.Scanner
/-!
# From tokens to a tree

The parser takes one token at a time.  Its `Builder` holds the segments that are complete, the
nodes of the sequence it is in, one `OpenBrace` for every brace that is not closed yet, and the
`OpenClass` it is in, if any; all of these lists have the last one first.  `Builder.step` puts the next
token in its place, ends the parse with the list of segments, or rejects.

Braces may be nested to any depth here.  A parser that calls itself for each of them runs out of stack
at several hundred; that limit is left out.

Three rules shape the tree.  Adjacent literal texts are one literal.  A `**` counts as such only
where it is a whole segment; anywhere else it is two stars.  Of adjacent `**` segments only the
first is kept, because `a/**/**/b` says no more than `a/**/b`.

`ofTokens?` reads any list of tokens, also one that no pattern text has.  It stops at the first end
token.  A list without one is read as if its last token came twice; if even then there is no end,
`ParseFailure.endless` says so.
-/
namespace Glob

inductive ParseFailure
  | rejected (e : GlobError)
  /-- A token that fits nowhere stands where the pattern may end. -/
  | unexpected (t : Token)
  | noTokens
  | emptyRange
  /-- There is no end token, and nothing else that stops the parse. -/
  | endless

def ParseFailure.message : ParseFailure → Text
  | .rejected e => e.message
  | .unexpected t =>
    match t.display? with
    | some shown => Text.of "Expected TokenType.END but found " ++ shown
    | none => Text.of "string index out of range"
  | .noTokens => Text.of "list index out of range"
  | .emptyRange => Text.of "string index out of range"
  | .endless => []

namespace Parser

structure OpenClass where
  opener : Span
  negated : Bool
  /-- No member and no negation mark was read yet. -/
  fresh : Bool
  /-- The members so far, the last one first. -/
  items : List (CodePoint × CodePoint)

structure OpenBrace where
  opener : Span
  before : List Node
  branches : List (List Node)

structure Builder where
  source : Text
  segments : List Segment
  /-- Where the segment at hand starts, once its first token was seen. -/
  segmentStart : Option Int
  braces : List OpenBrace
  nodes : List Node
  openClass : Option OpenClass

def start (source : Text) : Builder := ⟨source, [], none, [], [], none⟩

inductive Outcome
  | more (b : Builder)
  | done (segments : List Segment)
  | failed (f : ParseFailure)

/-! ## Nodes -/

/-- A literal text at the end of a sequence, given with the last node first. -/
def addLiteral (nodes : List Node) (text : Text) (span : Span) : List Node :=
  match nodes with
  | .literal before s :: rest => .literal (before ++ text) ⟨s.start, span.stop⟩ :: rest
  | _ => .literal text span :: nodes

def demote : Node → List Node
  | .doubleStar s => Node.twoStars s.start
  | node => [node]

/-- The nodes of a complete segment: `**` stays only if it is alone. -/
def demoteDoubleStars (nodes : List Node) : List Node :=
  match nodes with
  | [] => []
  | [node] => [node]
  | _ => nodes.flatMap demote

/-- One more segment, unless it repeats a recursive one; the last segment comes first. -/
def addSegment (segments : List Segment) (s : Segment) : List Segment :=
  match segments with
  | last :: _ => if s.isRecursive && last.isRecursive then segments else s :: segments
  | [] => [s]

/-! ## Errors -/

def unclosedClass (source : Text) (opener : Span) : ParseFailure :=
  .rejected ⟨.parsing, .unclosedClass, Text.of "unclosed character class '['", opener, some source⟩

def unclosedAlternation (source : Text) (opener : Span) : ParseFailure :=
  .rejected ⟨.parsing, .unclosedAlternation, Text.of "unclosed alternation '\x7b'", opener,
    some source⟩

def invalidRange (source : Text) (lo hi : CodePoint) (span : Span) : ParseFailure :=
  .rejected ⟨.parsing, .invalidRange,
    Text.of "invalid character range '" ++ [lo, Mark.dash, hi] ++ Text.of "'", span, some source⟩

namespace Builder

def push (b : Builder) (node : Node) : Builder := { b with nodes := node :: b.nodes }

def pushLiteral (b : Builder) (t : Token) : Builder :=
  { b with nodes := addLiteral b.nodes t.text t.span }

def closeSegment (b : Builder) (stop : Int) : List Segment :=
  addSegment b.segments
    ⟨demoteDoubleStars b.nodes.reverse, ⟨b.segmentStart.getD stop, stop⟩⟩

def stopAt (b : Builder) (t : Token) : Outcome :=
  match b.braces with
  | brace :: _ => .failed (unclosedAlternation b.source brace.opener)
  | [] =>
    match t.kind, t.ends? with
    | .finish, _ => .done (b.closeSegment t.span.start).reverse
    | .classRange, none => .failed .emptyRange
    | _, _ => .failed (.unexpected t)

def classStep (b : Builder) (c : OpenClass) (t : Token) : Outcome :=
  let add (items : List (CodePoint × CodePoint)) : Outcome :=
    .more { b with openClass := some { c with fresh := false, items := items ++ c.items } }
  match t.kind with
  | .classClose =>
    .more { b with
      openClass := none
      nodes := .set c.negated c.items.reverse ⟨c.opener.start, t.span.stop⟩ :: b.nodes }
  | .classNegate =>
    if c.fresh then .more { b with openClass := some { c with negated := true, fresh := false } }
    else .failed (unclosedClass b.source c.opener)
  | .literal | .escaped => add (t.text.map fun x => (x, x)).reverse
  | .classRange =>
    match t.ends? with
    | none => .failed .emptyRange
    | some (lo, hi) =>
      if hi < lo then .failed (invalidRange b.source lo hi t.span) else add [(lo, hi)]
  | _ => .failed (unclosedClass b.source c.opener)

def sequenceStep (b : Builder) (t : Token) : Outcome :=
  match t.kind with
  | .literal | .escaped => .more (b.pushLiteral t)
  | .star => .more (b.push (.star t.span))
  | .question => .more (b.push (.anyChar t.span))
  | .doubleStar =>
    match b.braces with
    | [] => .more (b.push (.doubleStar t.span))
    | _ :: _ => .more { b with nodes := (Node.twoStars t.span.start).reverse ++ b.nodes }
  | .classOpen => .more { b with openClass := some ⟨t.span, false, true, []⟩ }
  | .braceOpen => .more { b with braces := ⟨t.span, b.nodes, []⟩ :: b.braces, nodes := [] }
  | .braceComma =>
    match b.braces with
    | [] => .more (b.pushLiteral t)
    | brace :: outer =>
      .more { b with
        braces := { brace with branches := b.nodes.reverse :: brace.branches } :: outer
        nodes := [] }
  | .braceClose =>
    match b.braces with
    | [] => .more (b.pushLiteral t)
    | brace :: outer =>
      .more { b with
        braces := outer
        nodes := .alternation (b.nodes.reverse :: brace.branches).reverse
          ⟨brace.opener.start, t.span.stop⟩ :: brace.before }
  | .separator =>
    match b.braces with
    | [] =>
      .more { b with segments := b.closeSegment t.span.start, segmentStart := none, nodes := [] }
    | _ :: _ => .more (b.pushLiteral t)
  | .classClose | .classNegate | .classRange | .finish => b.stopAt t

def step (b : Builder) (t : Token) : Outcome :=
  match b.openClass with
  | some c => b.classStep c t
  | none =>
    let b := { b with segmentStart := some (b.segmentStart.getD t.span.start) }
    b.sequenceStep t

/-- All tokens, until one ends the parse. -/
def run (b : Builder) : List Token → Except ParseFailure (List Segment)
  | [] => .error .endless
  | t :: rest =>
    match b.step t with
    | .more b => b.run rest
    | .done segments => .ok segments
    | .failed f => .error f

end Builder

end Parser

namespace Pattern

/-- The tree of a list of tokens; `source` is the pattern text that errors show. -/
def ofTokens? (tokens : List Token) (source : Text) : Except ParseFailure Pattern :=
  match tokens.getLast? with
  | none => .error .noTokens
  | some last => (Pattern.mk source ·) <$> (Parser.start source).run (tokens ++ [last])

def parse (p : Text) : Except ParseFailure Pattern :=
  match scan p with
  | .ok tokens => ofTokens? tokens p
  | .error e => .error (.rejected e)

end Pattern

end Glob
