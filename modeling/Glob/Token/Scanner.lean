import Glob.Error
import Glob.Token
/-!
# From a pattern to its tokens

The scanner reads a pattern once, from left to right, one code point at a time.  Between two code
points it keeps a `State`: the offset, how many braces are open, and the `Mode`, which says what it
is in the middle of.  `State.step` gives the tokens that the next code point completes and the state
after it, and `State.finish` those that the end of the pattern completes.

What a code point means depends on the mode.  Outside classes, `meaning` says it: a comma or a
closing brace is text unless a brace is open.  Inside a class, `]` closes it unless it is the first
member, `/` ends it unclosed, and a dash makes a range if a member stands before it and a character
other than `]` and `/` after it; an escaped character counts by its value everywhere.  Whether
classes and braces balance is not the scanner's concern.  Its only error is a backslash with nothing
after it.
-/
namespace Glob

namespace Scanner

inductive Meaning
  | plain
  | escape
  | star
  | question
  | classOpen
  | braceOpen
  | braceComma
  | braceClose
  | separator
  deriving DecidableEq, Repr

/-- What a code point means where `depth` braces are open. -/
def meaning (depth : Nat) (c : CodePoint) : Meaning :=
  match c with
  | Mark.backslash => .escape
  | Mark.star => .star
  | Mark.question => .question
  | Mark.openBracket => .classOpen
  | Mark.openBrace => .braceOpen
  | Mark.comma => if 0 < depth then .braceComma else .plain
  | Mark.closeBrace => if 0 < depth then .braceClose else .plain
  | Mark.slash => .separator
  | _ => .plain

/-- A class member that a dash may yet extend to a range. -/
structure Member where
  char : CodePoint
  escaped : Bool
  start : Nat
  deriving DecidableEq, Repr

inductive Mode
  | text
  /-- In a run of plain characters; the ones so far, the last one first. -/
  | run (start : Nat) (chars : Text)
  /-- After a star that a second one may double. -/
  | star (start : Nat)
  | escape (start : Nat)
  | classOpened
  /-- Before the first member of a negated class. -/
  | firstMember
  | members
  | memberEscape (start : Nat)
  | member (m : Member)
  | dash (m : Member)
  /-- After a member, a dash, and a backslash at offset `place`. -/
  | rangeEscape (m : Member) (place : Nat)
  deriving DecidableEq, Repr

structure State where
  offset : Nat
  depth : Nat
  mode : Mode
  deriving DecidableEq, Repr

def start : State := ⟨0, 0, .text⟩

/-! ## The tokens -/

/-- A run of plain characters, given with the last one first. -/
def runToken (start : Nat) (chars : Text) : Token :=
  ⟨.literal, chars.reverse, Span.sized start chars.length⟩

def starToken (start : Nat) : Token := ⟨.star, [Mark.star], Span.sized start 1⟩

def Member.token (m : Member) : Token :=
  if m.escaped then ⟨.escaped, [m.char], Span.sized m.start 2⟩
  else ⟨.literal, [m.char], Span.sized m.start 1⟩

def Member.range (m : Member) (hi : CodePoint) (stop : Nat) : Token :=
  ⟨.classRange, [m.char, hi], ⟨m.start, stop⟩⟩

/-- A dash that makes no range is a member itself. -/
def dashToken (place : Nat) : Token := ⟨.literal, [Mark.dash], Span.sized place 1⟩

namespace State

def next (s : State) (mode : Mode) : State := { s with offset := s.offset + 1, mode }

def single (s : State) (kind : Token.Kind) (c : CodePoint) : Token :=
  ⟨kind, [c], Span.sized s.offset 1⟩

/-! ## One code point -/

def outside (s : State) (c : CodePoint) : List Token × State :=
  match meaning s.depth c with
  | .plain => ([], s.next (.run s.offset [c]))
  | .escape => ([], s.next (.escape s.offset))
  | .star => ([], s.next (.star s.offset))
  | .question => ([s.single .question c], s.next .text)
  | .classOpen => ([s.single .classOpen c], s.next .classOpened)
  | .braceOpen => ([s.single .braceOpen c], { s.next .text with depth := s.depth + 1 })
  | .braceComma => ([s.single .braceComma c], s.next .text)
  | .braceClose => ([s.single .braceClose c], { s.next .text with depth := s.depth - 1 })
  | .separator => ([s.single .separator c], s.next .text)

def member (s : State) (c : CodePoint) : List Token × State :=
  if c = Mark.backslash then ([], s.next (.memberEscape s.offset))
  else ([], s.next (.member ⟨c, false, s.offset⟩))

def firstMember (s : State) (c : CodePoint) : List Token × State :=
  if c = Mark.slash then s.outside c else s.member c

def members (s : State) (c : CodePoint) : List Token × State :=
  if c = Mark.slash then s.outside c
  else if c = Mark.closeBracket then ([s.single .classClose c], s.next .text)
  else s.member c

def after (tokens : List Token) (r : List Token × State) : List Token × State :=
  (tokens ++ r.1, r.2)

/-- The tokens that a code point completes, and the state after it. -/
def step (s : State) (c : CodePoint) : List Token × State :=
  match s.mode with
  | .text => s.outside c
  | .run start chars =>
    if meaning s.depth c = .plain then ([], s.next (.run start (c :: chars)))
    else after [runToken start chars] (s.outside c)
  | .star start =>
    if c = Mark.star then
      ([⟨.doubleStar, [Mark.star, Mark.star], Span.sized start 2⟩], s.next .text)
    else after [starToken start] (s.outside c)
  | .escape start => ([⟨.escaped, [c], Span.sized start 2⟩], s.next .text)
  | .classOpened =>
    if c = Mark.exclamation ∨ c = Mark.caret then
      ([s.single .classNegate c], s.next .firstMember)
    else s.firstMember c
  | .firstMember => s.firstMember c
  | .members => s.members c
  | .memberEscape start => ([], s.next (.member ⟨c, true, start⟩))
  | .member m =>
    if c = Mark.dash then ([], s.next (.dash m)) else after [m.token] (s.members c)
  | .dash m =>
    if c = Mark.slash ∨ c = Mark.closeBracket then
      after [m.token, dashToken (s.offset - 1)] (s.members c)
    else if c = Mark.backslash then ([], s.next (.rangeEscape m s.offset))
    else ([m.range c (s.offset + 1)], s.next .members)
  | .rangeEscape m _ => ([m.range c (s.offset + 1)], s.next .members)

def run (s : State) : Text → List Token × State
  | [] => ([], s)
  | c :: rest =>
    let r := s.step c
    after r.1 (r.2.run rest)

/-- The tokens that the end of the pattern completes, or the offset of a backslash that has nothing
to escape. -/
def pending (s : State) : Except Nat (List Token) :=
  match s.mode with
  | .text | .classOpened | .firstMember | .members => .ok []
  | .run start chars => .ok [runToken start chars]
  | .star start => .ok [starToken start]
  | .escape start => .error start
  | .memberEscape start => .error start
  | .rangeEscape _ place => .error place
  | .member m => .ok [m.token]
  | .dash m => .ok [m.token, dashToken (s.offset - 1)]

theorem run_append (s : State) (p q : Text) :
    s.run (p ++ q) = after (s.run p).1 ((s.run p).2.run q) := by
  induction p generalizing s with
  | nil => rfl
  | cons c p ih => simp [run, ih, after]

/-- Every step takes one code point. -/
theorem offset_step (s : State) (c : CodePoint) : (s.step c).2.offset = s.offset + 1 := by
  have outside_offset : (s.outside c).2.offset = s.offset + 1 := by
    unfold outside
    split <;> rfl
  have member_offset : (s.member c).2.offset = s.offset + 1 := by
    unfold member
    split <;> rfl
  have first_offset : (s.firstMember c).2.offset = s.offset + 1 := by
    unfold firstMember
    split <;> assumption
  have members_offset : (s.members c).2.offset = s.offset + 1 := by
    unfold members
    split
    · exact outside_offset
    · split
      · rfl
      · exact member_offset
  unfold step
  split <;> (try split) <;> (try split) <;> first | rfl | assumption

theorem offset_run (s : State) (p : Text) : (s.run p).2.offset = s.offset + p.length := by
  induction p generalizing s with
  | nil => rfl
  | cons c p ih =>
    show ((s.step c).2.run p).2.offset = _
    rw [ih, offset_step, List.length_cons]
    omega

end State

def unterminatedEscape (p : Text) (place : Nat) : GlobError :=
  ⟨.scanning, .unterminatedEscape, Text.of "pattern ends with an unterminated escape '\\'",
    ⟨place, place⟩, some p⟩

end Scanner

/-- The tokens of a pattern; the last one is the end of the pattern, and no other one is. -/
def scan (p : Text) : Except GlobError (List Token) :=
  let r := Scanner.start.run p
  match r.2.pending with
  | .ok tokens => .ok (r.1 ++ tokens ++ [⟨.finish, [], ⟨p.length, p.length⟩⟩])
  | .error place => .error (Scanner.unterminatedEscape p place)

end Glob
