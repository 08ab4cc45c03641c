import Glob.Regex
/-!
# Alternatives of single characters

When case is ignored, a member of a set is not compared in the same way as a character that stands by
itself (`Glob.Regex.Run`), so it matters what counts as a set.  A set with one member is a character.
Alternatives are a set if each of them is one character or one set that is not negated.  What all
alternatives have in common at their beginning does not count; it is taken out first, as far as it
is made of single characters and sets.

`Regex.condensed` writes an expression in this way.  Where case matters the two forms match the same.
-/
namespace Glob.Regex

/-- An expression that takes one code point, or is a place in the subject. -/
def isSimple : Regex → Bool
  | .char _ | .any | .set _ _ | .start | .stop => true
  | _ => false

/-- The simple expressions with which both sequences begin. -/
def common : List Regex → List Regex → List Regex
  | a :: as, b :: bs => if a = b ∧ a.isSimple then a :: common as bs else []
  | _, _ => []

/-- The members, where the sequence is one character or one set that is not negated. -/
def members? : List Regex → Option (List (CodePoint × CodePoint))
  | [.char c] => some [(c, c)]
  | [.set false items] => some items
  | _ => none

def oneOf (branches : List (List Regex)) : Regex :=
  match branches.mapM members? with
  | some items => .set false items.flatten.eraseDups
  | none => .group (alternatives (branches.map sequence))

/-- Alternatives as a sequence: what they have in common, and one expression for the rest. -/
def joined : List (List Regex) → List Regex
  | [] => []
  | [branch] => branch
  | branch :: branches =>
    let front := branches.foldl common branch
    front ++ [oneOf ((branch :: branches).map (·.drop front.length))]

/-- A set without repeated members; one that has a single member is a character. -/
def ofSet (negated : Bool) (items : List (CodePoint × CodePoint)) : Regex :=
  match negated, items.eraseDups with
  | false, [(lo, hi)] => if lo = hi then .char lo else .set false [(lo, hi)]
  | negated, items => .set negated items

def branches : Regex → List (List Regex)
  | .empty => [[]]
  | .set negated items => [[ofSet negated items]]
  | .seq a b => [joined (branches a) ++ joined (branches b)]
  | .either a b => joined (branches a) :: branches b
  | .group a => [joined (branches a)]
  | .many a => [[.many (sequence (joined (branches a)))]]
  | .optional a => [[.optional (sequence (joined (branches a)))]]
  | .notAhead a => [[.notAhead (sequence (joined (branches a)))]]
  | .notBehind a => [[.notBehind (sequence (joined (branches a)))]]
  | a => [[a]]

/-- The expression with alternatives of single characters written as sets. -/
def condensed (r : Regex) : Regex := sequence (joined (branches r))

end Glob.Regex
