import Glob.Regex
/-!
# From source text to an expression

The reader goes through the source once, one code point at a time.  Its `State` holds the atoms of
the sequence it is in, the alternatives before it, one `Frame` for every open parenthesis, and the
`Mode`, which says what it is in the middle of.  The notation is that of `Regex.render`: literal
characters, `.`, `^`, `\Z`, sets, the groups `(?:…)`, `(?!…)` and `(?<!…)`, alternatives, `*` and
`?`.  The other marks of expressions, `+`, `$` and `{`, stand for themselves only behind a backslash;
by themselves they are refused, and so is the repetition of an anchor.

Groups may be nested to any depth here.  A reader that calls itself for each of them runs out of stack at
several hundred; that limit is left out.

In a set, a `]` that would leave it empty is a member.  So the text of an empty set does not end
where it was meant to, and what follows is read as members; that is how the reader comes to refuse
texts that `Regex.render` made.  A `ReadError` has the offset at which the refused part begins.
-/
namespace Glob.Regex

structure ReadError where
  detail : Text
  offset : Nat
  deriving DecidableEq, Repr

/-- The detail and its offset; where the source has several lines, also the line and the column. -/
def ReadError.message (e : ReadError) (source : Text) : Text :=
  let before := source.take e.offset
  let column := (before.reverse.takeWhile (· != Mark.newline)).length + 1
  e.detail ++ Text.of " at position " ++ Text.ofNat e.offset ++
    if source.contains Mark.newline then
      Text.of " (line " ++ Text.ofNat (before.count Mark.newline + 1) ++ Text.of ", column " ++
        Text.ofNat column ++ Text.of ")"
    else []

namespace Reader

inductive GroupKind
  | plain
  | notAhead
  | notBehind
  deriving DecidableEq, Repr

/-- An open parenthesis, with what came before it in its own group; lists have the last one
first. -/
structure Frame where
  kind : GroupKind
  place : Nat
  alternatives : List Regex
  atoms : List Regex
  deriving DecidableEq, Repr

/-- A set that is not closed yet; its items have the last one first. -/
structure OpenSet where
  place : Nat
  negated : Bool
  items : List (CodePoint × CodePoint)
  deriving DecidableEq, Repr

/-- A set member that a dash may yet extend to a range. -/
structure Member where
  char : CodePoint
  escaped : Bool
  place : Nat
  deriving DecidableEq, Repr

inductive Mode
  | plain
  | escape (place : Nat)
  | paren (place : Nat)
  /-- After `(?`. -/
  | parenQuestion (place : Nat)
  /-- After `(?<`. -/
  | parenLess (place : Nat)
  | setOpened (place : Nat)
  | set (s : OpenSet)
  | setEscape (s : OpenSet) (place : Nat)
  | member (s : OpenSet) (m : Member)
  | dash (s : OpenSet) (m : Member)
  | dashEscape (s : OpenSet) (m : Member) (place : Nat)
  deriving DecidableEq, Repr

structure State where
  offset : Nat
  frames : List Frame
  alternatives : List Regex
  atoms : List Regex
  mode : Mode
  deriving DecidableEq, Repr

def start : State := ⟨0, [], [], [], .plain⟩

/-- The expression of alternatives and the sequence after them, both with the last one first. -/
def close (alternatives atoms : List Regex) : Regex :=
  Regex.alternatives (Regex.sequence atoms.reverse :: alternatives).reverse

def GroupKind.regex : GroupKind → Regex → Regex
  | .plain, a => .group a
  | .notAhead, a => .notAhead a
  | .notBehind, a => .notBehind a

/-- A letter or digit: with a backslash before it, not the character itself. -/
def isNamed (c : CodePoint) : Bool :=
  (0x30 ≤ c && c ≤ 0x39) || (0x41 ≤ c && c ≤ 0x5A) || (0x61 ≤ c && c ≤ 0x7A)

def isRepeat : Regex → Bool
  | .many _ | .optional _ => true
  | _ => false

def isAnchor : Regex → Bool
  | .start | .stop => true
  | _ => false

namespace State

def next (s : State) (mode : Mode) : State := { s with offset := s.offset + 1, mode }

def push (s : State) (a : Regex) : State := { s.next .plain with atoms := a :: s.atoms }

def refuse (detail : String) (offset : Nat) : Except ReadError State :=
  .error ⟨Text.of detail, offset⟩

def badEscape (c : CodePoint) (offset : Nat) : Except ReadError State :=
  .error ⟨Text.of "bad escape \\" ++ [c], offset⟩

def again (s : State) (wrap : Regex → Regex) : Except ReadError State :=
  match s.atoms with
  | [] => refuse "nothing to repeat" s.offset
  | a :: atoms =>
    if isAnchor a then refuse "nothing to repeat" s.offset
    else if isRepeat a then refuse "multiple repeat" s.offset
    else .ok { s.next .plain with atoms := wrap a :: atoms }

def plain (s : State) (c : CodePoint) : Except ReadError State :=
  match c with
  | Mark.backslash => .ok (s.next (.escape s.offset))
  | Mark.dot => .ok (s.push .any)
  | Mark.caret => .ok (s.push .start)
  | Mark.openBracket => .ok (s.next (.setOpened s.offset))
  | Mark.openParen => .ok (s.next (.paren s.offset))
  | Mark.closeParen =>
    match s.frames with
    | [] => refuse "unbalanced parenthesis" s.offset
    | frame :: frames =>
      .ok { s.next .plain with
        frames
        alternatives := frame.alternatives
        atoms := frame.kind.regex (close s.alternatives s.atoms) :: frame.atoms }
  | Mark.bar =>
    .ok { s.next .plain with
      alternatives := Regex.sequence s.atoms.reverse :: s.alternatives
      atoms := [] }
  | Mark.star => s.again .many
  | Mark.question => s.again .optional
  | Mark.plus | Mark.dollar | Mark.openBrace => refuse "mark without a backslash" s.offset
  | _ => .ok (s.push (.char c))

def openGroup (s : State) (kind : GroupKind) (place : Nat) : State :=
  { s.next .plain with
    frames := ⟨kind, place, s.alternatives, s.atoms⟩ :: s.frames
    alternatives := []
    atoms := [] }

/-! ## Sets -/

def closeSet (s : State) (o : OpenSet) : State := s.push (.set o.negated o.items.reverse)

def OpenSet.add (o : OpenSet) (lo hi : CodePoint) : OpenSet :=
  { o with items := (lo, hi) :: o.items }

def setChar (s : State) (o : OpenSet) (c : CodePoint) : State :=
  if c = Mark.closeBracket ∧ o.items ≠ [] then s.closeSet o
  else if c = Mark.backslash then s.next (.setEscape o s.offset)
  else s.next (.member o ⟨c, false, s.offset⟩)

/-- A set character as it stands in the source. -/
def written (escaped : Bool) (c : CodePoint) : Text :=
  if escaped then [Mark.backslash, c] else [c]

def range (s : State) (o : OpenSet) (m : Member) (hi : CodePoint) (escaped : Bool) :
    Except ReadError State :=
  if hi < m.char then
    .error ⟨Text.of "bad character range " ++ written m.escaped m.char ++ [Mark.dash] ++
      written escaped hi, m.place⟩
  else .ok (s.next (.set (OpenSet.add o m.char hi)))

/-! ## One code point -/

def step (s : State) (c : CodePoint) : Except ReadError State :=
  match s.mode with
  | .plain => s.plain c
  | .escape place =>
    if c = 0x5A then .ok (s.push .stop)
    else if isNamed c then badEscape c place
    else .ok (s.push (.char c))
  | .paren place =>
    if c = Mark.question then .ok (s.next (.parenQuestion place))
    else refuse "unknown group" place
  | .parenQuestion place =>
    if c = Mark.colon then .ok (s.openGroup .plain place)
    else if c = Mark.exclamation then .ok (s.openGroup .notAhead place)
    else if c = Mark.less then .ok (s.next (.parenLess place))
    else refuse "unknown group" place
  | .parenLess place =>
    if c = Mark.exclamation then .ok (s.openGroup .notBehind place)
    else refuse "unknown group" place
  | .setOpened place =>
    if c = Mark.caret then .ok (s.next (.set ⟨place, true, []⟩))
    else .ok (s.setChar ⟨place, false, []⟩ c)
  | .set o => .ok (s.setChar o c)
  | .setEscape o place =>
    if isNamed c then badEscape c place else .ok (s.next (.member o ⟨c, true, place⟩))
  | .member o m =>
    if c = Mark.dash then .ok (s.next (.dash o m))
    else .ok (s.setChar (OpenSet.add o m.char m.char) c)
  | .dash o m =>
    if c = Mark.closeBracket then
      .ok (s.closeSet (OpenSet.add (OpenSet.add o m.char m.char) Mark.dash Mark.dash))
    else if c = Mark.backslash then .ok (s.next (.dashEscape o m s.offset))
    else s.range o m c false
  | .dashEscape o m place => if isNamed c then badEscape c place else s.range o m c true

def run (s : State) : Text → Except ReadError State
  | [] => .ok s
  | c :: rest =>
    match s.step c with
    | .ok s => s.run rest
    | .error e => .error e

def finish (s : State) : Except ReadError Regex :=
  match s.mode with
  | .plain =>
    match s.frames with
    | [] => .ok (close s.alternatives s.atoms)
    | frame :: _ => .error ⟨Text.of "missing ), unterminated subpattern", frame.place⟩
  | .escape place => .error ⟨Text.of "bad escape (end of pattern)", place⟩
  | .paren place | .parenQuestion place | .parenLess place =>
    .error ⟨Text.of "unexpected end of pattern", place⟩
  | .setOpened place => .error ⟨Text.of "unterminated character set", place⟩
  | .set o | .setEscape o _ | .member o _ | .dash o _ | .dashEscape o _ _ =>
    .error ⟨Text.of "unterminated character set", o.place⟩

theorem run_append (s : State) (p q : Text) :
    s.run (p ++ q) = (s.run p).bind (·.run q) := by
  induction p generalizing s with
  | nil => rfl
  | cons c p ih =>
    simp only [List.cons_append, run]
    cases s.step c with
    | ok s => exact ih s
    | error e => rfl

end State

end Reader

def read (source : Text) : Except ReadError Regex :=
  match Reader.start.run source with
  | .ok s => s.finish
  | .error e => .error e

end Glob.Regex
