/-!
# Text as code points

Patterns, candidate paths, messages and regular expressions are all `Text`: a list of code points.
A `Char` is too narrow for them, because a path that is not valid UTF-8 is held with one lone
surrogate for each stray byte (`Glob.Text.Utf8`), and a pattern may be such a path.  Every offset
and length in this library counts code points, so it is a position in this list.

`Text.upTo` and `Text.slice` cut a text; `Text.slice_append_drop` and `Text.slice_length` are what
later modules know of the cut.  A `Span` says which part of a text something is about.
-/
namespace Glob

/-- A code point, from 0 to 0x10FFFF; unlike a `Char` it may be a surrogate. -/
abbrev CodePoint := Nat

abbrev Text := List CodePoint

/-! ## The marks of the pattern language -/

namespace Mark

@[match_pattern] abbrev newline : CodePoint := 0x0A
@[match_pattern] abbrev carriageReturn : CodePoint := 0x0D
@[match_pattern] abbrev space : CodePoint := 0x20
@[match_pattern] abbrev exclamation : CodePoint := 0x21
@[match_pattern] abbrev doubleQuote : CodePoint := 0x22
@[match_pattern] abbrev dollar : CodePoint := 0x24
@[match_pattern] abbrev singleQuote : CodePoint := 0x27
@[match_pattern] abbrev openParen : CodePoint := 0x28
@[match_pattern] abbrev closeParen : CodePoint := 0x29
@[match_pattern] abbrev star : CodePoint := 0x2A
@[match_pattern] abbrev plus : CodePoint := 0x2B
@[match_pattern] abbrev comma : CodePoint := 0x2C
@[match_pattern] abbrev dash : CodePoint := 0x2D
@[match_pattern] abbrev dot : CodePoint := 0x2E
@[match_pattern] abbrev slash : CodePoint := 0x2F
@[match_pattern] abbrev colon : CodePoint := 0x3A
@[match_pattern] abbrev less : CodePoint := 0x3C
@[match_pattern] abbrev question : CodePoint := 0x3F
@[match_pattern] abbrev openBracket : CodePoint := 0x5B
@[match_pattern] abbrev backslash : CodePoint := 0x5C
@[match_pattern] abbrev closeBracket : CodePoint := 0x5D
@[match_pattern] abbrev caret : CodePoint := 0x5E
@[match_pattern] abbrev openBrace : CodePoint := 0x7B
@[match_pattern] abbrev bar : CodePoint := 0x7C
@[match_pattern] abbrev closeBrace : CodePoint := 0x7D
@[match_pattern] abbrev tilde : CodePoint := 0x7E

end Mark

namespace Text

def of (s : String) : Text := s.toList.map Char.toNat

def ofNat (n : Nat) : Text := (Nat.toDigits 10 n).map Char.toNat

def ofInt : Int → Text
  | .ofNat n => ofNat n
  | .negSucc n => Mark.dash :: ofNat (n + 1)

/-- The lone surrogates: code points that no `Char` and no UTF-8 text holds. -/
def isSurrogate (c : CodePoint) : Bool := 0xD800 ≤ c && c ≤ 0xDFFF

def toString? (t : Text) : Option String :=
  if t.any isSurrogate then none else some (String.ofList (t.map Char.ofNat))

/-! ## Cutting -/

/-- The code points before offset `k`; a negative offset counts from the end. -/
def upTo (t : Text) (k : Int) : Text :=
  t.take (if k < 0 then (t.length + k).toNat else k.toNat)

def slice (t : Text) (i j : Nat) : Text := (t.take j).drop i

theorem slice_append_drop (t : Text) {i j : Nat} (h : i ≤ j) :
    t.slice i j ++ t.drop j = t.drop i := by
  unfold slice
  by_cases hj : j ≤ t.length
  · have hl : i ≤ (t.take j).length := by rw [List.length_take]; omega
    rw [← List.drop_append_of_le_length hl, List.take_append_drop]
  · rw [List.drop_of_length_le (i := j) (by omega), List.append_nil,
      List.take_of_length_le (by omega)]

theorem slice_length (t : Text) {i j : Nat} (h : j ≤ t.length) :
    (t.slice i j).length = j - i := by
  simp [slice, Nat.min_eq_left h]

/-! ## Joining -/

def join (sep : Text) (pieces : List Text) : Text := List.flatten (pieces.intersperse sep)

/-- The pieces between the separators: one more than there are separators. -/
def splitAt (sep : CodePoint) : Text → List Text
  | [] => [[]]
  | c :: rest =>
    match splitAt sep rest with
    | [] => [[c]]
    | piece :: pieces => if c = sep then [] :: piece :: pieces else (c :: piece) :: pieces

theorem splitAt_ne_nil (sep : CodePoint) (t : Text) : splitAt sep t ≠ [] := by
  cases t with
  | nil => simp [splitAt]
  | cons c rest =>
    unfold splitAt
    split
    · simp
    · split <;> simp

/-! ## Lines

A line ends with a newline, with a carriage return, or with a carriage return and a newline; the last
line may also end where the text ends. -/

def lines : Text → List Text
  | [] => []
  | Mark.carriageReturn :: Mark.newline :: rest => [] :: lines rest
  | c :: rest =>
    if c = Mark.newline || c = Mark.carriageReturn then [] :: lines rest
    else
      match lines rest with
      | [] => [[c]]
      | line :: more => (c :: line) :: more

end Text

/-! ## Spans

Tokens, tree nodes and errors all say which part of the pattern they are about.  The two ends are
integers, because an error or a token list may also be made by hand with any numbers in it; the
ones made here are offsets of the pattern. -/

/-- A part of a pattern: from offset `start` to just before offset `stop`. -/
structure Span where
  start : Int
  stop : Int
  deriving DecidableEq, Repr

namespace Span

def sized (i : Nat) (count : Nat) : Span := ⟨i, i + count⟩

/-- The span in a text that has `k` more code points in front. -/
def shift (k : Int) (s : Span) : Span := ⟨k + s.start, k + s.stop⟩

def extract (s : Span) (t : Text) : Text := t.slice s.start.toNat s.stop.toNat

end Span

end Glob
