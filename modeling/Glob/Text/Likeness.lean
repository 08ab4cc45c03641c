import Glob.Text
/-!
# How alike two texts are

Two texts share the longest block that both have, and what the parts before it share, and what the
parts after it share.  They are alike if at least three in ten of their code points, counted in both,
are shared.  `closest` finds the names that someone may have meant who wrote another one.
-/
namespace Glob.Text

def agreement : Text → Text → Nat
  | a :: as, b :: bs => if a = b then agreement as bs + 1 else 0
  | _, _ => 0

structure Block where
  first : Nat
  second : Nat
  size : Nat

/-- The longest block in common; of several, the one that begins first in `a`, and then in `b`. -/
def longestBlock (a b : Text) : Block :=
  let places := (List.range a.length).flatMap fun i => (List.range b.length).map fun j => (i, j)
  places.foldl (fun best (i, j) =>
    let size := agreement (a.drop i) (b.drop j)
    if best.size < size then ⟨i, j, size⟩ else best) ⟨0, 0, 0⟩

def sharedIn (blocks : Nat) (a b : Text) : Nat :=
  match blocks with
  | 0 => 0
  | blocks + 1 =>
    let m := longestBlock a b
    if m.size = 0 then 0
    else
      sharedIn blocks (a.take m.first) (b.take m.second) + m.size +
        sharedIn blocks (a.drop (m.first + m.size)) (b.drop (m.second + m.size))

def shared (a b : Text) : Nat := sharedIn a.length a b

/-- So many shared code points are enough for texts of these lengths to be alike. -/
def isEnough (a b : Text) (count : Nat) : Bool := 3 * (a.length + b.length) ≤ 10 * count

def isLike (a b : Text) : Bool :=
  isEnough a b (min a.length b.length) && isEnough a b (shared a b)

def isOrdered (a b : Text) : Bool := !List.lex b a Nat.blt

/-- Of two names, the first one is more like the word than the second; of two that are equally like
it, the first one comes later in the order of code points. -/
def isCloser (word a b : Text) : Bool :=
  let x := shared a word * (b.length + word.length)
  let y := shared b word * (a.length + word.length)
  y < x || (y == x && isOrdered b a)

/-- The names that are like the word, in order, but no more than the three that are most like it. -/
def closest (word : Text) (names : List Text) : List Text :=
  let best := ((names.filter (isLike · word)).mergeSort (isCloser word)).take 3
  best.mergeSort isOrdered

end Glob.Text
