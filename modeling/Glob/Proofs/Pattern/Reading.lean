import Glob.Text
/-!
# Reading a pattern for its classes and braces

Whether a pattern is accepted depends on its backslashes, classes and braces only.  `Reading.outline` reads a pattern
from left to right for them, apart from any tokens or tree: which classes there are, what ranges each of them has and
whether it is closed, and which braces stay open.  `Reading.separated` reads it in the same way for the separators that
end a segment.

The offset of a place is told by what is left of the pattern there.
-/
namespace Glob

namespace Reading

/-- An odd number of backslashes stands at the end, so the last one has nothing to escape. -/
def EndsEscaping (p : Text) : Prop := (p.reverse.takeWhile (· == Mark.backslash)).length % 2 = 1

instance (p : Text) : Decidable (EndsEscaping p) := inferInstanceAs (Decidable (_ = 1))

/-- The offset at which `t`, the end of the pattern, begins. -/
def offset (p t : Text) : Nat := p.length - t.length

/-! ## Classes -/

structure Range where
  lo : CodePoint
  hi : CodePoint
  span : Span

def Range.Inverted (r : Range) : Prop := r.hi < r.lo

instance (r : Range) : Decidable r.Inverted := inferInstanceAs (Decidable (r.hi < r.lo))

/-- A character and what comes behind it: an escaped one, or any other one but a separator. -/
def member? : Text → Option (CodePoint × Text)
  | [] | Mark.slash :: _ | [Mark.backslash] => none
  | Mark.backslash :: c :: t => some (c, t)
  | c :: t => some (c, t)

/-- The far end of a range, if the text goes on with a dash and one: a character that is no raw `]`. -/
def rangeEnd? : Text → Option (CodePoint × Text)
  | Mark.dash :: Mark.closeBracket :: _ => none
  | Mark.dash :: t => member? t
  | _ => none

theorem member?_length {t t' : Text} {c : CodePoint} (h : member? t = some (c, t')) : t'.length < t.length := by
  unfold member? at h
  split at h <;> cases h <;> simp only [List.length_cons] <;> omega

theorem rangeEnd?_length {t t' : Text} {c : CodePoint} (h : rangeEnd? t = some (c, t')) : t'.length < t.length := by
  unfold rangeEnd? at h
  split at h
  · cases h
  · exact Nat.lt_succ_of_lt (member?_length h)
  · cases h

structure Members where
  ranges : List Range
  closed : Bool
  /-- What comes behind the closing bracket, or where the class ends unclosed, all that is left. -/
  left : Text

/-- Members up to the first raw `]` that is not the first of them. -/
def members (p : Text) (first : Bool) (t : Text) : Members :=
  if first = false ∧ t.head? = some Mark.closeBracket then ⟨[], true, t.tail⟩
  else
    match _h : member? t with
    | none => ⟨[], false, t⟩
    | some (lo, t') =>
      match _h' : rangeEnd? t' with
      | none => members p false t'
      | some (hi, t'') =>
        let behind := members p false t''
        { behind with ranges := ⟨lo, hi, ⟨offset p t, offset p t''⟩⟩ :: behind.ranges }
termination_by t.length
decreasing_by
  · exact member?_length _h
  · exact Nat.lt_trans (rangeEnd?_length _h') (member?_length _h)

theorem members_length (p : Text) (first : Bool) (t : Text) : (members p first t).left.length ≤ t.length := by
  fun_induction members p first t with
  | case1 => simp
  | case2 => exact Nat.le_refl _
  | case3 first t _ lo t' h h' ih => exact Nat.le_trans ih (Nat.le_of_lt (member?_length h))
  | case4 first t _ lo t' h hi t'' h' behind ih =>
    exact Nat.le_trans ih (Nat.le_of_lt (Nat.lt_trans (rangeEnd?_length h') (member?_length h)))

/-- A class may begin with one mark of negation. -/
def behindNegation : Text → Text
  | Mark.exclamation :: t | Mark.caret :: t => t
  | t => t

theorem behindNegation_length (t : Text) : (behindNegation t).length ≤ t.length := by
  unfold behindNegation
  split <;> simp

theorem behindNegation_suffix (t : Text) : behindNegation t <:+ t := by
  unfold behindNegation
  split
  · exact List.suffix_cons _ _
  · exact List.suffix_cons _ _
  · exact List.suffix_rfl

structure ClassReading where
  opener : Nat
  ranges : List Range
  closed : Bool

def ClassReading.inverted? (c : ClassReading) : Option Range := c.ranges.find? (·.Inverted)

def ClassReading.Bad (c : ClassReading) : Prop := c.inverted?.isSome ∨ c.closed = false

instance (c : ClassReading) : Decidable c.Bad := inferInstanceAs (Decidable (_ ∨ _))

/-! ## Patterns -/

structure Outline where
  classes : List ClassReading
  /-- The offsets of the braces that stay open, the innermost one first. -/
  braces : List Nat

/-- What is to be read in `t`, the end of the pattern, where braces are open from before. -/
def outlineFrom (p : Text) (braces : List Nat) : Text → Outline
  | [] => ⟨[], braces⟩
  | Mark.backslash :: t => outlineFrom p braces t.tail
  | Mark.openBracket :: t =>
    let inside := members p true (behindNegation t)
    let behind := outlineFrom p braces inside.left
    { behind with classes := ⟨offset p (Mark.openBracket :: t), inside.ranges, inside.closed⟩ :: behind.classes }
  | Mark.openBrace :: t => outlineFrom p (offset p (Mark.openBrace :: t) :: braces) t
  | Mark.closeBrace :: t => outlineFrom p braces.tail t
  | _ :: t => outlineFrom p braces t
termination_by t => t.length
decreasing_by
  · rw [List.length_tail, List.length_cons]
    omega
  · exact Nat.lt_succ_of_le (Nat.le_trans (members_length p true _) (behindNegation_length t))
  all_goals exact Nat.lt_succ_self _

/-- **The outline of a pattern.** -/
def outline (p : Text) : Outline := outlineFrom p [] p

/-- Outside classes and braces, a separator stands in `t`, the end of the pattern, where `depth` braces are open from
before. -/
def separatedFrom (p : Text) (depth : Nat) : Text → Bool
  | [] => false
  | Mark.backslash :: t => separatedFrom p depth t.tail
  | Mark.openBracket :: t => separatedFrom p depth (members p true (behindNegation t)).left
  | Mark.openBrace :: t => separatedFrom p (depth + 1) t
  | Mark.closeBrace :: t => separatedFrom p (depth - 1) t
  | Mark.slash :: t => depth == 0 || separatedFrom p depth t
  | _ :: t => separatedFrom p depth t
termination_by t => t.length
decreasing_by
  · rw [List.length_tail, List.length_cons]
    omega
  · exact Nat.lt_succ_of_le (Nat.le_trans (members_length p true _) (behindNegation_length t))
  all_goals exact Nat.lt_succ_self _

/-- **A separator stands outside classes and braces, and no backslash escapes it.** -/
def separated (p : Text) : Bool := separatedFrom p 0 p

/-- The leftmost class that is not closed or has a range whose ends are turned around. -/
def Outline.bad? (o : Outline) : Option ClassReading := o.classes.find? (·.Bad)

end Reading

end Glob
