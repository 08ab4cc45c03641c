import Glob.Regex.Condense
import Glob.Text.CaseClass
/-!
# Running an expression over a subject

`Regex.run` takes the offsets at which an expression may begin and gives those at which it may then
end.  Working on sets of offsets, held as lists without regard to order, keeps the work polynomial
in the length of the subject however the expression is nested.  A repetition is the closure of its
body: no offset is tried twice, so as many rounds as the subject has offsets are enough.

Letters are compared exactly or by their case class (`Glob.Text.CaseClass`).  When case is ignored,
the members of a set up to U+FFFF stand for their classes.  Beyond it only ranges do; a single member
is compared, as it is, with the lower case of what the subject has, so a capital letter among other
members matches nothing there.
-/
namespace Glob.Regex

def sameChar (ignoreCase : Bool) (p c : CodePoint) : Bool :=
  if ignoreCase then Text.sameClass p c else p == c

def inRange (item : CodePoint × CodePoint) (c : CodePoint) : Bool := item.1 ≤ c && c ≤ item.2

/-- The last code point whose case is ignored as a member of a set. -/
def lastFolded : CodePoint := 0xFFFF

/-- A member of a set has the code point when case is ignored. -/
def inRangeFolded (item : CodePoint × CodePoint) (c : CodePoint) : Bool :=
  if item.2 ≤ lastFolded then (Text.classMates c).any (inRange item)
  else if item.1 = item.2 then Text.lower c == item.1
  else (Text.classMates c).any (inRange item) || (Text.firstCapital? c).any (inRange item)

def inItems (ignoreCase : Bool) (items : List (CodePoint × CodePoint)) (c : CodePoint) : Bool :=
  match ignoreCase, items with
  | false, items => items.any (inRange · c)
  | true, [(lo, hi)] => if lo = hi then Text.sameClass lo c else inRangeFolded (lo, hi) c
  | true, items => items.any (inRangeFolded · c)

def inSet (ignoreCase negated : Bool) (items : List (CodePoint × CodePoint)) (c : CodePoint) :
    Bool :=
  inItems ignoreCase items c != negated

def advance (t : Text) (test : CodePoint → Bool) (offsets : List Nat) : List Nat :=
  offsets.filterMap fun i =>
    match t[i]? with
    | some c => if test c then some (i + 1) else none
    | none => none

def union (a b : List Nat) : List Nat := a ++ b.filter fun i => !a.contains i

/-- What repeating `next` reaches, in at most `rounds` rounds, from the offsets `seen`, of which
those in `fresh` have not been tried yet. -/
def closure (next : List Nat → List Nat) : (rounds : Nat) → (seen fresh : List Nat) → List Nat
  | 0, seen, _ => seen
  | rounds + 1, seen, fresh =>
    match (next fresh).filter fun i => !seen.contains i with
    | [] => seen
    | found => closure next rounds (seen ++ found) found

/-- The offsets at which the expression may end, having begun at one of the given ones. -/
def run (ignoreCase : Bool) (t : Text) : Regex → List Nat → List Nat
  | .empty, offsets => offsets
  | .char p, offsets => advance t (sameChar ignoreCase p) offsets
  | .any, offsets => advance t (fun _ => true) offsets
  | .set negated items, offsets => advance t (inSet ignoreCase negated items) offsets
  | .start, offsets => offsets.filter (· == 0)
  | .stop, offsets => offsets.filter (· == t.length)
  | .seq a b, offsets => run ignoreCase t b (run ignoreCase t a offsets)
  | .either a b, offsets => union (run ignoreCase t a offsets) (run ignoreCase t b offsets)
  | .group a, offsets => run ignoreCase t a offsets
  | .many a, offsets => closure (run ignoreCase t a) (t.length + 1) offsets offsets
  | .optional a, offsets => union offsets (run ignoreCase t a offsets)
  | .notAhead a, offsets => offsets.filter fun i => (run ignoreCase t a [i]).isEmpty
  | .notBehind a, offsets =>
    offsets.filter fun i => !(run ignoreCase t a (List.range (i + 1))).contains i

/-- The expression matches some beginning of the subject; an expression that ends with `stop` matches
the whole of it. -/
def accepts (ignoreCase : Bool) (r : Regex) (t : Text) : Bool :=
  !(run ignoreCase t (if ignoreCase then r.condensed else r) [0]).isEmpty

end Glob.Regex
