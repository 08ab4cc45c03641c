/-!
# Numbers in 64 bits

The floating-point numbers of configuration files, in exact arithmetic.  A finite one is a whole
number of at most 53 bits times a power of two.  `Binary64.ofDecimal` gives the number nearest to a
decimal one; of two that are equally near it takes the one with the even whole number, and beyond
the largest finite number there is infinity.
-/
namespace Glob

inductive Binary64
  /-- The number `m` · 2 ^ `q`, or its negative. -/
  | finite (negative : Bool) (m : Nat) (q : Int)
  | infinite (negative : Bool)
  | nan
  deriving DecidableEq, Repr

namespace Binary64

def minExponent : Int := -1074

def maxExponent : Int := 971

def limit : Nat := Nat.pow 2 53

/-- `num / den` rounded to a whole number, a half to the even neighbour. -/
def roundDiv (num den : Nat) : Nat :=
  let d := num / den
  let r := num % den
  if 2 * r < den then d
  else if den < 2 * r then d + 1
  else d + d % 2

def scaled (num den : Nat) (q : Int) : Nat × Nat :=
  if 0 ≤ q then (num, den * Nat.pow 2 q.toNat) else (num * Nat.pow 2 (-q).toNat, den)

/-- The exponent of two at which `num / den` has all of its 53 bits, or the least there is. -/
def exponentOf (num den : Nat) : Int :=
  let b : Int := (num.log2 : Int) - den.log2
  let (n, d) := scaled num den b
  max minExponent (if n < d then b - 53 else b - 52)

def ofQuotient (negative : Bool) (num den : Nat) : Binary64 :=
  if num = 0 then .finite negative 0 minExponent
  else
    let q := exponentOf num den
    let (n, d) := scaled num den q
    let m := roundDiv n d
    let (m, q) := if m = limit then (limit / 2, q + 1) else (m, q)
    if maxExponent < q then .infinite negative else .finite negative m q

/-- The number nearest to `digits` · 10 ^ `exponent`.  An exponent so large or so small that only
infinity or zero is near is not computed with. -/
def ofDecimal (negative : Bool) (digits : Nat) (exponent : Int) : Binary64 :=
  let magnitude : Int := (Nat.toDigits 10 digits).length + exponent
  if digits = 0 ∨ magnitude < -400 then .finite negative 0 minExponent
  else if 400 < magnitude then .infinite negative
  else if 0 ≤ exponent then ofQuotient negative (digits * Nat.pow 10 exponent.toNat) 1
  else ofQuotient negative digits (Nat.pow 10 (-exponent).toNat)

def isZero : Binary64 → Bool
  | .finite _ m _ => m == 0
  | _ => false

end Binary64

end Glob
