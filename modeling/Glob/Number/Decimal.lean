import Glob.Number.Binary64
import Glob.Text
/-!
# Numbers in decimal notation

A floating-point number is written with the fewest digits that read back as the same number, and of those with the
digits nearest to it.  All decimals of the interval of reals that round to the number read back as
it; the ends of the interval belong to it if the number's whole part is even.  For one digit, two
digits, and so on, the two neighbours of the number on the grid of such decimals are tried, and the
first grid that has one in the interval decides.

Decimal exponents from -4 to 15 are written positionally, all others with `e`, a sign, and at least
two digits.
-/
namespace Glob.Binary64

/-- Digits with a decimal exponent: the number `digits` · 10 ^ `exponent`. -/
structure Decimal where
  digits : Nat
  exponent : Int
  deriving DecidableEq, Repr

/-- `x` · 2 ^ `s` and `c` · 10 ^ `k` as whole numbers of one common unit. -/
def common (x : Nat) (s : Int) (c : Nat) (k : Int) : Nat × Nat :=
  (x * Nat.pow 2 s.toNat * Nat.pow 10 (-k).toNat, c * Nat.pow 10 k.toNat * Nat.pow 2 (-s).toNat)

def readsBack (m : Nat) (q : Int) (c : Nat) (k : Int) : Bool :=
  let below := if m = limit / 2 ∧ minExponent < q then 4 * m - 1 else 4 * m - 2
  let (low, x) := common below (q - 2) c k
  let (high, _) := common (4 * m + 2) (q - 2) c k
  if m % 2 = 0 then low ≤ x && x ≤ high else low < x && x < high

/-- The greatest exponent of ten that is not above the number, between -324 and 308. -/
def decimalExponent (m : Nat) (q : Int) : Int :=
  let fits := fun (i : Nat) =>
    let (v, p) := common m q 1 (308 - (i : Int))
    p ≤ v
  308 - (((List.range 633).find? fits).getD 632 : Nat)

/-- The decimal with that exponent nearest to the number, if one reads back. -/
def nearestOnGrid? (m : Nat) (q : Int) (k : Int) : Option Decimal :=
  let (v, unit) := common m q 1 k
  let c := v / unit
  let down := readsBack m q c k
  let up := readsBack m q (c + 1) k
  let twice := 2 * (v % unit)
  if down && (!up || twice < unit || (twice == unit && c % 2 == 0)) then some ⟨c, k⟩
  else if up then some ⟨c + 1, k⟩
  else none

/-- The shortest decimal that reads back as `m` · 2 ^ `q`; seventeen digits are always enough. -/
def shortest (m : Nat) (q : Int) : Decimal :=
  let top := decimalExponent m q
  ((List.range 17).findSome? fun (i : Nat) => nearestOnGrid? m q (top - i)).getD ⟨m, q⟩

def Decimal.stripped (d : Decimal) : Text × Int :=
  let digits := Text.ofNat d.digits
  let zeros := (digits.reverse.takeWhile (· == 0x30)).length
  (digits.take (digits.length - zeros), d.exponent + zeros)

def zeros (n : Nat) : Text := List.replicate n 0x30

def positional (digits : Text) (point : Int) : Text :=
  if point ≤ 0 then zeros 1 ++ [Mark.dot] ++ zeros (-point).toNat ++ digits
  else if digits.length ≤ point.toNat then
    digits ++ zeros (point.toNat - digits.length) ++ [Mark.dot] ++ zeros 1
  else digits.take point.toNat ++ [Mark.dot] ++ digits.drop point.toNat

def scientific (digits : Text) (exponent : Int) : Text :=
  let size := Text.ofNat exponent.natAbs
  digits.take 1 ++ (if digits.length ≤ 1 then [] else Mark.dot :: digits.drop 1) ++
    Text.of (if exponent < 0 then "e-" else "e+") ++ zeros (2 - size.length) ++ size

def magnitudeText (m : Nat) (q : Int) : Text :=
  if m = 0 then Text.of "0.0"
  else
    let (digits, exponent) := (shortest m q).stripped
    let point := exponent + digits.length
    if -4 < point ∧ point ≤ 16 then positional digits point else scientific digits (point - 1)

def sign (negative : Bool) : Text := if negative then [Mark.dash] else []

def toText : Binary64 → Text
  | .finite negative m q => sign negative ++ magnitudeText m q
  | .infinite negative => sign negative ++ Text.of "inf"
  | .nan => Text.of "nan"

end Glob.Binary64

/-! ## Whole numbers

Going from digits to a whole number, or back, takes a time that grows with the square of how many
digits there are.  So there is a limit to them: a whole number is neither read nor written in decimal
notation if that has more than 4300 digits.  Notations whose base is a power of two have no limit. -/

namespace Glob.Whole

def digitLimit : Nat := 4300

/-- A number has too many digits; how many is known only if it was about to be read. -/
structure TooLong where
  digits : Option Nat
  deriving DecidableEq, Repr

def TooLong.message (e : TooLong) : Text :=
  Text.of "Exceeds the limit (" ++ Text.ofNat digitLimit ++
    Text.of " digits) for integer string conversion" ++
    (match e.digits with
      | some n => Text.of ": value has " ++ Text.ofNat n ++ Text.of " digits"
      | none => []) ++
    Text.of "; use sys.set_int_max_str_digits() to increase the limit"

def isWritable (n : Int) : Bool := n.natAbs < Nat.pow 10 digitLimit

end Glob.Whole
