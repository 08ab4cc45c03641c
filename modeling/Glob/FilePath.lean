import Glob.Text.Utf8
/-!
# File paths in normal form

A path is the number of slashes it begins with and its components.  Empty components and the
component `.` say nothing and are dropped, and so is a slash at the end; `..` stays, because what it
leads to depends on links.  Two slashes at the beginning are not the same as one, but three or more
are.  `FilePath.toText` writes the normal form.  A `PathLike` is whatever callers give as a pattern or
a path.
-/
namespace Glob

structure FilePath where
  /-- How many slashes stand at the beginning: none, one or two. -/
  root : Nat
  components : List Text
  deriving DecidableEq, Repr

namespace FilePath

def isStep (component : Text) : Bool := component != [] && component != [Mark.dot]

def parse (t : Text) : FilePath :=
  let slashes := (t.takeWhile (· == Mark.slash)).length
  ⟨if slashes = 2 then 2 else min slashes 1, (t.splitAt Mark.slash).filter isStep⟩

def isAbsolute (p : FilePath) : Bool := p.root != 0

def toText (p : FilePath) : Text :=
  if p.root = 0 ∧ p.components = [] then [Mark.dot]
  else List.replicate p.root Mark.slash ++ Text.join [Mark.slash] p.components

/-- The path that leads on from `p` as `q` says; an absolute `q` starts anew. -/
def append (p q : FilePath) : FilePath :=
  if q.isAbsolute then q else { p with components := p.components ++ q.components }

instance : Append FilePath := ⟨append⟩

def child (p : FilePath) (name : String) : FilePath := p ++ parse (Text.of name)

/-- The directories on the way to a path, the first one first; the root and the path are not among
them. -/
def ancestors (p : FilePath) : List FilePath :=
  (List.range (p.components.length - 1)).map fun i =>
    { p with components := p.components.take (i + 1) }

end FilePath

/-! ## What callers give as a pattern or a path

A text is taken as it is, bytes are decoded without loss, a file path is taken in its normal form.
Anything else is refused by the name of its type. -/

inductive PathLike
  | text (t : Text)
  | bytes (b : Bytes)
  | path (p : FilePath)
  | other (typeName : String)

structure NotAPath where
  typeName : String

def NotAPath.message (e : NotAPath) : Text :=
  Text.of "expected str, bytes or os.PathLike object, not " ++ Text.of e.typeName

def PathLike.decode : PathLike → Except NotAPath Text
  | .text t => .ok t
  | .bytes b => .ok (Utf8.decodeLossless b)
  | .path p => .ok p.toText
  | .other typeName => .error ⟨typeName⟩

end Glob
