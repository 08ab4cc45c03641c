import Glob.Pattern
import Glob.Text.Printable
/-!
# Trees from outside

Someone who builds a tree by hand may put things into it that are no nodes.  A `Sketch` is such a
tree; `Sketch.node?` makes a node of it, or gives the first thing in it that is none.
-/
namespace Glob

inductive Sketch
  | node (n : Node)
  | alternation (branches : List (List Sketch)) (span : Span)
  | text (t : Text)
  | number (n : Int)

inductive UnknownNode
  | text (t : Text)
  | number (n : Int)

def UnknownNode.message (e : UnknownNode) : Text :=
  Text.of "unknown glob node " ++
    match e with
    | .text t => t.quoted
    | .number n => Text.ofInt n

namespace Sketch

mutual

def node? : Sketch → Except UnknownNode Node
  | .node n => .ok n
  | .alternation branches span =>
    match branches? branches with
    | .ok bs => .ok (.alternation bs span)
    | .error e => .error e
  | .text t => .error (.text t)
  | .number n => .error (.number n)

def nodes? : List Sketch → Except UnknownNode (List Node)
  | [] => .ok []
  | s :: rest =>
    match node? s with
    | .error e => .error e
    | .ok n =>
      match nodes? rest with
      | .error e => .error e
      | .ok ns => .ok (n :: ns)

def branches? : List (List Sketch) → Except UnknownNode (List (List Node))
  | [] => .ok []
  | b :: rest =>
    match nodes? b with
    | .error e => .error e
    | .ok ns =>
      match branches? rest with
      | .error e => .error e
      | .ok bs => .ok (ns :: bs)

end

end Sketch

/-- A pattern drawn by hand: the nodes of each segment, with the segment's span. -/
def Pattern.ofSketch? (source : Text) : List (List Sketch × Span) → Except UnknownNode Pattern
  | [] => .ok ⟨source, []⟩
  | (sketch, span) :: rest =>
    match Sketch.nodes? sketch with
    | .error e => .error e
    | .ok nodes =>
      match Pattern.ofSketch? source rest with
      | .error e => .error e
      | .ok p => .ok { p with segments := ⟨nodes, span⟩ :: p.segments }

end Glob
