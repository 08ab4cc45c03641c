import Glob.Options
import Glob.Pattern
import Glob.Text.CaseClass
import Mathlib.Data.List.Forall2
/-!
# What a pattern stands for

Two readings of a tree, both without regular expressions.

`Pattern.Denotes` tells which texts a pattern stands for.  Every `**` segment picks a list of components, every other
segment one text of its nodes, and the candidate is what was picked, with separators between.  It knows nothing of
leading dots.

`Pattern.Derives` reads the same tree along a candidate.  A node is applied at an offset of the candidate and takes it
up to another one, so the rule for leading dots can be told: a wildcard or class may be applied at the start of a
component only where no dot stands.

A `**` among other nodes, which no pattern text has, is read like a star.
-/
namespace Glob

/-! ## Characters -/

namespace Options

/-- A character of the pattern is the candidate's character, up to case where case does not matter. -/
def Same (o : Options) (p c : CodePoint) : Prop :=
  if o.caseSensitive then p = c else Text.sameClass p c = true

/-- Wildcards and classes may take the character. -/
def Admits (o : Options) (c : CodePoint) : Prop := o.literalSeparator = true → c ≠ Mark.slash

/-- The character, or a case variant of it where case does not matter, is inside one of the ranges. -/
def InRanges (o : Options) (items : List (CodePoint × CodePoint)) (c : CodePoint) : Prop :=
  ∃ item ∈ items, ∃ d, (item.1 ≤ d ∧ d ≤ item.2) ∧ o.Same d c

/-- A class may take the character. -/
def InClass (o : Options) (negated : Bool) (items : List (CodePoint × CodePoint)) (c : CodePoint) : Prop :=
  o.Admits c ∧ (o.InRanges items c ↔ negated = false)

/-- A component that a `**` segment may take. -/
def Component (o : Options) (w : Text) : Prop :=
  Mark.slash ∉ w ∧ (o.literalLeadingDot = true → w.head? ≠ some Mark.dot)

end Options

/-! ## The texts of a pattern -/

mutual

/-- The texts of a node. -/
def Node.Denotes (o : Options) : Node → Text → Prop
  | .literal text _, w => List.Forall₂ o.Same text w
  | .anyChar _, w => ∃ c, w = [c] ∧ o.Admits c
  | .star _, w => ∀ c ∈ w, o.Admits c
  | .doubleStar _, w => ∀ c ∈ w, o.Admits c
  | .set negated items _, w => ∃ c, w = [c] ∧ o.InClass negated items c
  | .alternation branches _, w => branchesDenote o branches w

/-- The texts of a sequence of nodes: one text of each, one after the other. -/
def nodesDenote (o : Options) : List Node → Text → Prop
  | [], w => w = []
  | n :: ns, w => ∃ u v, w = u ++ v ∧ n.Denotes o u ∧ nodesDenote o ns v

def branchesDenote (o : Options) : List (List Node) → Text → Prop
  | [], _ => False
  | b :: bs, w => nodesDenote o b w ∨ branchesDenote o bs w

end

/-- What the segments pick, in order: any number of components for a `**`, one text for another segment. -/
def Picks (o : Options) : List Segment → List Text → Prop
  | [], ws => ws = []
  | s :: rest, ws =>
    if s.isRecursive then
      ∃ components ws', ws = components ++ ws' ∧ (∀ w ∈ components, Mark.slash ∉ w) ∧ Picks o rest ws'
    else ∃ w ws', ws = w :: ws' ∧ nodesDenote o s.nodes w ∧ Picks o rest ws'

/-- **The texts of a pattern**: what its segments pick, joined by separators. -/
def Pattern.Denotes (o : Options) (p : Pattern) (x : Text) : Prop :=
  ∃ ws, Picks o p.segments ws ∧ x = Text.join [Mark.slash] ws

/-- The pattern `/**`: everything below the root, which is an empty first segment. -/
def Pattern.BelowRoot (p : Pattern) : Prop :=
  ∃ root s, p.segments = [root, s] ∧ root.nodes = [] ∧ s.isRecursive = true

/-! ## Along a candidate -/

/-- Offset `i` of the candidate is the start of a component. -/
def ComponentStart (x : Text) (i : Nat) : Prop := i = 0 ∨ ∃ k, i = k + 1 ∧ x[k]? = some Mark.slash

/-- A wildcard or a class may be applied at offset `i`: no dot stands there, if it is the start of a component. -/
def Options.Guarded (o : Options) (x : Text) (i : Nat) : Prop :=
  o.literalLeadingDot = true → ComponentStart x i → x[i]? ≠ some Mark.dot

/-- The characters from offset `i` to just before `j` pass the test. -/
def Between (x : Text) (test : CodePoint → Prop) (i j : Nat) : Prop :=
  i ≤ j ∧ ∀ k, i ≤ k → k < j → ∃ d, x[k]? = some d ∧ test d

/-- The text stands at offset `i`, up to case where case does not matter. -/
def Options.Stands (o : Options) (x : Text) : Text → Nat → Prop
  | [], _ => True
  | p :: text, i => (∃ d, x[i]? = some d ∧ o.Same p d) ∧ o.Stands x text (i + 1)

mutual

/-- The node, applied at offset `i` of the candidate, takes it up to offset `j`. -/
def Node.Takes (o : Options) (x : Text) : Node → Nat → Nat → Prop
  | .literal text _, i, j => j = i + text.length ∧ o.Stands x text i
  | .anyChar _, i, j => o.Guarded x i ∧ j = i + 1 ∧ ∃ d, x[i]? = some d ∧ o.Admits d
  | .star _, i, j => o.Guarded x i ∧ Between x o.Admits i j
  | .doubleStar _, i, j => o.Guarded x i ∧ Between x o.Admits i j
  | .set negated items _, i, j => o.Guarded x i ∧ j = i + 1 ∧ ∃ d, x[i]? = some d ∧ o.InClass negated items d
  | .alternation branches _, i, j => branchesTake o x branches i j

/-- The nodes, applied one after the other from offset `i` on, take the candidate up to offset `j`. -/
def nodesTake (o : Options) (x : Text) : List Node → Nat → Nat → Prop
  | [], i, j => j = i
  | n :: ns, i, j => ∃ k, n.Takes o x i k ∧ nodesTake o x ns k j

def branchesTake (o : Options) (x : Text) : List (List Node) → Nat → Nat → Prop
  | [], _, _ => False
  | b :: bs, i, j => nodesTake o x b i j ∨ branchesTake o x bs i j

end

/-- The offset after some components and the separators behind them, of which the first begins at `i`. -/
def offsetAfter (components : List Text) (i : Nat) : Nat := i + (components.flatMap (· ++ [Mark.slash])).length

/-- What the segments pick where the first piece begins at offset `i` of the candidate, each further one after one
separator. -/
def Lie (o : Options) (x : Text) : List Segment → Nat → List Text → Prop
  | [], _, ws => ws = []
  | s :: rest, i, ws =>
    if s.isRecursive then
      ∃ components ws', ws = components ++ ws' ∧ (∀ w ∈ components, o.Component w) ∧
        Lie o x rest (offsetAfter components i) ws'
    else ∃ w ws', ws = w :: ws' ∧ nodesTake o x s.nodes i (i + w.length) ∧ Lie o x rest (i + w.length + 1) ws'

/-- **The pattern can be read along the candidate**: what its segments pick there, joined by separators, is the
candidate. -/
def Pattern.Derives (o : Options) (p : Pattern) (x : Text) : Prop :=
  ∃ ws, Lie o x p.segments 0 ws ∧ x = Text.join [Mark.slash] ws

end Glob
