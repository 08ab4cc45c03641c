import Glob.Pattern
/-!
# Where in its path component a node begins

A dot means something else at the start of a path component than further on, so wildcards need to know
where in their component they stand.  A separator in literal text starts a new component.  After an
alternation the place depends on the branch that was taken; when the branches do not agree, or end
where a component may have started before them, it is `maybeStart`.  `placeAfter` gives the place
after a sequence of nodes for the place before it.
-/
namespace Glob

inductive Place
  /-- At the start of a component, whatever was matched before. -/
  | componentStart
  /-- At its start or further on, depending on the branch taken before. -/
  | maybeStart
  | inside
  deriving DecidableEq, Repr

namespace Place

/-- The place after an alternation, given the places after its branches. -/
def join (ends : List Place) : Place :=
  if ends ≠ [] ∧ ends.all (· == .componentStart) then .componentStart
  else if ends.any (· != .inside) then .maybeStart
  else .inside

end Place

mutual

def Node.placeAfter (place : Place) : Node → Place
  | .literal text _ =>
    match text.getLast? with
    | none => place
    | some c => if c = Mark.slash then .componentStart else .inside
  | .alternation branches _ => Place.join (branchPlaces place branches)
  | _ => .inside

def placeAfter (place : Place) : List Node → Place
  | [] => place
  | node :: nodes => placeAfter (node.placeAfter place) nodes

def branchPlaces (place : Place) : List (List Node) → List Place
  | [] => []
  | branch :: branches => placeAfter place branch :: branchPlaces place branches

end

end Glob
