import Glob.Proofs.Pattern.Resume
/-!
# Reading further on

A text that is read further on in a pattern gives the same tokens, nodes and segments, all further on by the same number
of characters.  `shift` moves spans, tokens, nodes and the states of the scanner; `Builder.behind` moves what a builder
has built, and puts it behind the segments of what stands in front.  Both machines commute with this, step by step
(`step_shift`, `step_behind`), and so does the rest of a parse: `resume_behind`.

Where the text in front ends with a recursive segment and the moved one begins with another, the second of them is
dropped as any other would be: the segments are added to those in front one by one.
-/
namespace Glob

/-! ## Nodes -/

namespace Span

theorem shift_sized (k i count : Nat) : (sized i count).shift k = sized (k + i) count := by
  simp [shift, sized, Int.add_assoc]

end Span

mutual

def Node.shift (k : Int) : Node → Node
  | .literal text s => .literal text (s.shift k)
  | .anyChar s => .anyChar (s.shift k)
  | .star s => .star (s.shift k)
  | .doubleStar s => .doubleStar (s.shift k)
  | .set negated items s => .set negated items (s.shift k)
  | .alternation branches s => .alternation (branchesShift k branches) (s.shift k)

def nodesShift (k : Int) : List Node → List Node
  | [] => []
  | n :: ns => n.shift k :: nodesShift k ns

def branchesShift (k : Int) : List (List Node) → List (List Node)
  | [] => []
  | b :: bs => nodesShift k b :: branchesShift k bs

end

section Lists

variable (k : Int)

theorem nodesShift_eq_map (ns : List Node) : nodesShift k ns = ns.map (Node.shift k) := by
  induction ns with
  | nil => rfl
  | cons n ns ih => rw [nodesShift, ih, List.map_cons]

theorem branchesShift_eq_map (bs : List (List Node)) : branchesShift k bs = bs.map (nodesShift k) := by
  induction bs with
  | nil => rfl
  | cons b bs ih => rw [branchesShift, ih, List.map_cons]

theorem nodesShift_append (ns ns' : List Node) : nodesShift k (ns ++ ns') = nodesShift k ns ++ nodesShift k ns' := by
  simp only [nodesShift_eq_map, List.map_append]

theorem nodesShift_reverse (ns : List Node) : nodesShift k ns.reverse = (nodesShift k ns).reverse := by
  simp only [nodesShift_eq_map, List.map_reverse]

theorem twoStars_shift (start : Int) : nodesShift k (Node.twoStars start) = Node.twoStars (k + start) := by
  simp [Node.twoStars, nodesShift, Node.shift, Span.shift, Int.add_assoc]

end Lists

def Segment.shift (k : Int) (s : Segment) : Segment := ⟨nodesShift k s.nodes, s.span.shift k⟩

theorem Segment.isRecursive_shift (k : Int) (s : Segment) : (s.shift k).isRecursive = s.isRecursive := by
  obtain ⟨ns, span⟩ := s
  match ns with
  | [] => rfl
  | [n] => cases n <;> rfl
  | n :: _ :: _ => cases n <;> rfl

/-! ## The scanner -/

def Token.shift (k : Int) (t : Token) : Token := { t with span := t.span.shift k }

namespace Scanner

def Member.shift (k : Nat) (m : Member) : Member := { m with start := k + m.start }

def Mode.shift (k : Nat) : Mode → Mode
  | .run start chars => .run (k + start) chars
  | .star start => .star (k + start)
  | .escape start => .escape (k + start)
  | .memberEscape start => .memberEscape (k + start)
  | .member m => .member (m.shift k)
  | .dash m => .dash (m.shift k)
  | .rangeEscape m place => .rangeEscape (m.shift k) (k + place)
  | mode => mode

def State.shift (k : Nat) (s : State) : State := ⟨k + s.offset, s.depth, s.mode.shift k⟩

def shiftStep (k : Nat) (r : List Token × State) : List Token × State := (r.1.map (Token.shift k), r.2.shift k)

/-- A dash that may make a range has been read. -/
def State.Begun (s : State) : Prop := ∀ m, s.mode = .dash m → 0 < s.offset

variable {k : Nat} {s : State} {c : CodePoint} {tokens : List Token}

theorem begun_step (s : State) (c : CodePoint) : (s.step c).2.Begun := by
  intro m _
  rw [State.offset_step]
  exact Nat.succ_pos _

theorem shiftStep_after (tokens : List Token) (r : List Token × State) :
    shiftStep k (State.after tokens r) = State.after (tokens.map (Token.shift k)) (shiftStep k r) := by
  simp [shiftStep, State.after]

theorem single_shift (kind : Token.Kind) : (s.shift k).single kind c = (s.single kind c).shift k := by
  simp [State.single, Token.shift, Span.shift_sized, State.shift]

theorem runToken_shift (start : Nat) (chars : Text) :
    runToken (k + start) chars = (runToken start chars).shift k := by
  simp [runToken, Token.shift, Span.shift_sized]

theorem starToken_shift (start : Nat) : starToken (k + start) = (starToken start).shift k := by
  simp [starToken, Token.shift, Span.shift_sized]

theorem memberToken_shift (m : Member) : (m.shift k).token = m.token.shift k := by
  obtain ⟨char, escaped, start⟩ := m
  cases escaped <;> simp [Member.token, Member.shift, Token.shift, Span.shift_sized]

theorem memberRange_shift (m : Member) (hi : CodePoint) (stop : Nat) :
    (m.shift k).range hi (k + stop) = (m.range hi stop).shift k := by
  simp [Member.range, Member.shift, Token.shift, Span.shift]

theorem dashToken_shift (h : 0 < s.offset) : dashToken (k + s.offset - 1) = (dashToken (s.offset - 1)).shift k := by
  rw [Nat.add_sub_assoc h]
  simp [dashToken, Token.shift, Span.shift_sized]

theorem outside_shift (s : State) (c : CodePoint) : (s.shift k).outside c = shiftStep k (s.outside c) := by
  have hdepth : (s.shift k).depth = s.depth := rfl
  unfold State.outside
  rw [hdepth]
  cases meaning s.depth c with
  | plain | escape | star => rfl
  | question | classOpen | braceOpen | braceComma | braceClose | separator =>
    simp only [single_shift]
    rfl

theorem member_shift (s : State) (c : CodePoint) : (s.shift k).member c = shiftStep k (s.member c) := by
  unfold State.member
  split <;> rfl

theorem firstMember_shift (s : State) (c : CodePoint) : (s.shift k).firstMember c = shiftStep k (s.firstMember c) := by
  unfold State.firstMember
  split
  · exact outside_shift s c
  · exact member_shift s c

theorem members_shift (s : State) (c : CodePoint) : (s.shift k).members c = shiftStep k (s.members c) := by
  unfold State.members
  split
  · exact outside_shift s c
  · split
    · rw [single_shift]
      rfl
    · exact member_shift s c

/-- **A step of the scanner is the same further on.** -/
theorem step_shift (hs : s.Begun) (c : CodePoint) : (s.shift k).step c = shiftStep k (s.step c) := by
  obtain ⟨i, depth, mode⟩ := s
  cases mode with
  | text => exact outside_shift ⟨i, depth, .text⟩ c
  | run start chars =>
    show (if meaning depth c = .plain then _ else _) = shiftStep k (if meaning depth c = .plain then _ else _)
    split
    · rfl
    · rw [shiftStep_after, ← outside_shift, runToken_shift]
      rfl
  | star start =>
    show (if c = Mark.star then _ else _) = shiftStep k (if c = Mark.star then _ else _)
    split
    · simp [shiftStep, Token.shift, Span.shift_sized, State.shift, State.next, Mode.shift, Nat.add_assoc]
    · rw [shiftStep_after, ← outside_shift, starToken_shift]
      rfl
  | escape start =>
    show ([⟨.escaped, [c], Span.sized (k + start) 2⟩], _) = shiftStep k ([⟨.escaped, [c], Span.sized start 2⟩], _)
    rw [← Span.shift_sized]
    rfl
  | classOpened =>
    show (if c = Mark.exclamation ∨ c = Mark.caret then _ else _) =
      shiftStep k (if c = Mark.exclamation ∨ c = Mark.caret then _ else _)
    split
    · rw [single_shift]
      rfl
    · exact firstMember_shift ⟨i, depth, .classOpened⟩ c
  | firstMember => exact firstMember_shift ⟨i, depth, .firstMember⟩ c
  | members => exact members_shift ⟨i, depth, .members⟩ c
  | memberEscape start => rfl
  | member m =>
    show (if c = Mark.dash then _ else _) = shiftStep k (if c = Mark.dash then _ else _)
    split
    · rfl
    · rw [shiftStep_after, ← members_shift, List.map_singleton, ← memberToken_shift]
  | dash m =>
    show (if c = Mark.slash ∨ c = Mark.closeBracket then _ else if c = Mark.backslash then _ else _) =
      shiftStep k (if c = Mark.slash ∨ c = Mark.closeBracket then _ else if c = Mark.backslash then _ else _)
    split
    · rw [shiftStep_after, ← members_shift, List.map_cons, List.map_singleton, ← memberToken_shift,
        ← dashToken_shift (hs m rfl)]
      rfl
    · split
      · rfl
      · show ([(m.shift k).range c (k + (i + 1))], _) = _
        rw [memberRange_shift]
        rfl
  | rangeEscape m place =>
    show ([(m.shift k).range c (k + (i + 1))], _) = _
    rw [memberRange_shift]
    rfl

theorem run_shift (hs : s.Begun) (t : Text) : (s.shift k).run t = shiftStep k (s.run t) := by
  induction t generalizing s with
  | nil => rfl
  | cons c t ih =>
    show State.after ((s.shift k).step c).1 (((s.shift k).step c).2.run t) = _
    rw [step_shift hs, shiftStep, ih (begun_step s c), ← shiftStep_after]
    rfl

theorem pending_shift (hs : s.Begun) (h : s.pending = .ok tokens) :
    (s.shift k).pending = .ok (tokens.map (Token.shift k)) := by
  obtain ⟨i, depth, mode⟩ := s
  cases mode with
  | text | classOpened | firstMember | members =>
    cases h
    rfl
  | run start chars =>
    cases h
    rw [List.map_singleton, ← runToken_shift]
    rfl
  | star start =>
    cases h
    rw [List.map_singleton, ← starToken_shift]
    rfl
  | escape _ | memberEscape _ | rangeEscape _ _ => cases h
  | member m =>
    cases h
    rw [List.map_singleton, ← memberToken_shift]
    rfl
  | dash m =>
    cases h
    rw [List.map_cons, List.map_singleton, ← memberToken_shift, ← dashToken_shift (hs m rfl)]
    rfl

theorem begun_run (hs : s.Begun) (t : Text) : (s.run t).2.Begun := by
  induction t generalizing s with
  | nil => exact hs
  | cons c t ih => exact ih (begun_step s c)

end Scanner

/-! ## The builder -/

namespace Parser

open Scanner (State)

/-- The error about the pattern `source`, in which what is at fault stands `k` characters further on. -/
def moved (k : Int) (source : Text) : ParseFailure → ParseFailure
  | .rejected e => .rejected { e with span := e.span.shift k, pattern := some source }
  | .unexpected t => .unexpected (t.shift k)
  | f => f

def OpenClass.shift (k : Int) (c : OpenClass) : OpenClass := { c with opener := c.opener.shift k }

def OpenBrace.shift (k : Int) (brace : OpenBrace) : OpenBrace :=
  ⟨brace.opener.shift k, nodesShift k brace.before, branchesShift k brace.branches⟩

/-- Segments, the last one first, moved behind those in front of them. -/
def segmentsBehind (k : Int) (before segments : List Segment) : List Segment :=
  segments.foldr (fun s ss => addSegment ss (s.shift k)) before

/-- The builder of the pattern `source`, in which `k` characters stand in front that gave the segments `before`. -/
def Builder.behind (k : Int) (source : Text) (before : List Segment) (b : Builder) : Builder where
  source := source
  segments := segmentsBehind k before b.segments
  segmentStart := b.segmentStart.map (k + ·)
  braces := b.braces.map (OpenBrace.shift k)
  nodes := nodesShift k b.nodes
  openClass := b.openClass.map (OpenClass.shift k)

def Outcome.behind (k : Int) (source : Text) (before : List Segment) : Outcome → Outcome
  | .more b => .more (b.behind k source before)
  | .done segments => .done (segmentsBehind k before segments.reverse).reverse
  | .failed f => .failed (moved k source f)

section Behind

variable {k : Int} {source : Text} {before segments : List Segment} {b : Builder}

theorem addSegment_addSegment {s s' : Segment} (hs : s.isRecursive = true) (hs' : s'.isRecursive = true) :
    addSegment (addSegment segments s) s' = addSegment segments s := by
  cases segments with
  | nil => exact if_pos (by rw [hs, hs']; rfl)
  | cons last segments =>
    cases hlast : last.isRecursive <;> simp [addSegment, hs, hs', hlast]

theorem segmentsBehind_addSegment (segments : List Segment) (s : Segment) :
    segmentsBehind k before (addSegment segments s) = addSegment (segmentsBehind k before segments) (s.shift k) := by
  cases segments with
  | nil => rfl
  | cons last segments =>
    by_cases hboth : (s.isRecursive && last.isRecursive) = true
    · have hadd : addSegment (last :: segments) s = last :: segments := if_pos hboth
      obtain ⟨hs, hlast⟩ := Bool.and_eq_true_iff.1 hboth
      rw [hadd]
      have hshifted : (last.shift k).isRecursive = true ∧ (s.shift k).isRecursive = true := by
        rw [Segment.isRecursive_shift, Segment.isRecursive_shift]
        exact ⟨hlast, hs⟩
      exact (addSegment_addSegment hshifted.1 hshifted.2).symm
    · have hadd : addSegment (last :: segments) s = s :: last :: segments := if_neg hboth
      rw [hadd]
      rfl

theorem addLiteral_shift (ns : List Node) (text : Text) (span : Span) :
    addLiteral (nodesShift k ns) text (span.shift k) = nodesShift k (addLiteral ns text span) := by
  cases ns with
  | nil => rfl
  | cons n ns => cases n <;> rfl

theorem flatMap_demote_shift (ns : List Node) :
    (nodesShift k ns).flatMap demote = nodesShift k (ns.flatMap demote) := by
  induction ns with
  | nil => rfl
  | cons n ns ih =>
    rw [nodesShift, List.flatMap_cons, List.flatMap_cons, nodesShift_append, ih]
    congr 1
    cases n with
    | doubleStar s => exact (twoStars_shift k s.start).symm
    | _ => rfl

theorem demoteDoubleStars_shift (ns : List Node) :
    demoteDoubleStars (nodesShift k ns) = nodesShift k (demoteDoubleStars ns) := by
  match ns with
  | [] | [_] => rfl
  | _ :: _ :: _ => exact flatMap_demote_shift _

namespace Builder

theorem closeSegment_behind (b : Builder) (stop : Int) :
    (b.behind k source before).closeSegment (k + stop) = segmentsBehind k before (b.closeSegment stop) := by
  have hstart : (b.segmentStart.map (k + ·)).getD (k + stop) = k + b.segmentStart.getD stop := by
    cases b.segmentStart <;> rfl
  rw [closeSegment, closeSegment, segmentsBehind_addSegment, Segment.shift, ← demoteDoubleStars_shift,
    nodesShift_reverse, Span.shift, ← hstart]
  rfl

theorem pushLiteral_behind (b : Builder) (t : Token) :
    (b.behind k source before).pushLiteral (t.shift k) = (b.pushLiteral t).behind k source before := by
  simp [pushLiteral, behind, Token.shift, addLiteral_shift]

theorem stopAt_behind (b : Builder) (t : Token) :
    (b.behind k source before).stopAt (t.shift k) = (b.stopAt t).behind k source before := by
  have hbraces : (b.behind k source before).braces = b.braces.map (OpenBrace.shift k) := rfl
  have hkind : (t.shift k).kind = t.kind := rfl
  have hends : (t.shift k).ends? = t.ends? := rfl
  unfold stopAt
  rw [hbraces, hkind, hends]
  cases b.braces with
  | cons brace outer => rfl
  | nil =>
    cases t.kind with
    | finish =>
      show Outcome.done (closeSegment _ (k + t.span.start)).reverse = .done (segmentsBehind k before _).reverse
      rw [closeSegment_behind, List.reverse_reverse]
    | classRange => cases t.ends? <;> rfl
    | _ => rfl

theorem classStep_behind (b : Builder) (c : OpenClass) (t : Token) :
    (b.behind k source before).classStep (c.shift k) (t.shift k) = (b.classStep c t).behind k source before := by
  have hkind : (t.shift k).kind = t.kind := rfl
  have hends : (t.shift k).ends? = t.ends? := rfl
  unfold classStep
  rw [hkind, hends]
  cases t.kind with
  | classNegate =>
    obtain ⟨opener, negated, fresh, items⟩ := c
    cases fresh <;> rfl
  | classRange =>
    cases t.ends? with
    | none => rfl
    | some ends =>
      simp only
      split <;> rfl
  | _ => rfl

theorem sequenceStep_behind (b : Builder) (t : Token) :
    (b.behind k source before).sequenceStep (t.shift k) = (b.sequenceStep t).behind k source before := by
  have hliteral : Outcome.more ((b.behind k source before).pushLiteral (t.shift k)) =
      Outcome.behind k source before (.more (b.pushLiteral t)) := congrArg Outcome.more (pushLiteral_behind b t)
  have hkind : (t.shift k).kind = t.kind := rfl
  have hbraces : (b.behind k source before).braces = b.braces.map (OpenBrace.shift k) := rfl
  unfold sequenceStep
  rw [hkind, hbraces]
  cases t.kind with
  | literal | escaped => exact hliteral
  | star | question | classOpen | braceOpen => rfl
  | doubleStar =>
    cases b.braces with
    | nil => rfl
    | cons brace outer =>
      have hstars : nodesShift k ((Node.twoStars t.span.start).reverse ++ b.nodes) =
          (Node.twoStars (t.shift k).span.start).reverse ++ nodesShift k b.nodes := by
        rw [nodesShift_append, nodesShift_reverse, twoStars_shift]
        rfl
      simp only [Outcome.behind, behind, hstars]
      rfl
  | braceComma =>
    cases b.braces with
    | nil => exact hliteral
    | cons brace outer =>
      simp [Outcome.behind, behind, nodesShift_reverse, OpenBrace.shift, branchesShift, nodesShift]
  | braceClose =>
    cases b.braces with
    | nil => exact hliteral
    | cons brace outer =>
      simp [Outcome.behind, behind, branchesShift_eq_map, nodesShift_eq_map, OpenBrace.shift, Node.shift, Token.shift,
        Span.shift]
  | separator =>
    cases hb : b.braces with
    | nil =>
      have hclosed : (b.behind k source before).closeSegment (t.shift k).span.start =
          segmentsBehind k before (b.closeSegment t.span.start) := closeSegment_behind b t.span.start
      simp only [List.map_nil, hclosed]
      simp [Outcome.behind, behind, nodesShift, hb]
    | cons brace outer => exact hliteral
  | classClose | classNegate | classRange | finish => exact stopAt_behind b t

/-- **A step of the builder is the same further on.** -/
theorem step_behind (b : Builder) (t : Token) :
    (b.behind k source before).step (t.shift k) = (b.step t).behind k source before := by
  cases hc : b.openClass with
  | some c =>
    have hclass : (b.behind k source before).openClass = some (c.shift k) := congrArg (Option.map _) hc
    rw [step, step, hclass, hc]
    exact classStep_behind b c t
  | none =>
    have hclass : (b.behind k source before).openClass = none := congrArg (Option.map _) hc
    have hbegun : (b.behind k source before).begun (t.shift k).span.start =
        (b.begun t.span.start).behind k source before := by
      cases hstart : b.segmentStart <;> simp [begun, behind, hstart, Token.shift, Span.shift]
    rw [step_outside hclass, step_outside hc, hbegun]
    exact sequenceStep_behind _ t

theorem run_behind (b : Builder) (tokens : List Token) (h : b.run tokens = .ok segments) :
    (b.behind k source before).run (tokens.map (Token.shift k)) =
      .ok (segmentsBehind k before segments.reverse).reverse := by
  induction tokens generalizing b with
  | nil => cases h
  | cons t tokens ih =>
    rw [run] at h
    rw [List.map_cons, run, step_behind]
    cases hstep : b.step t with
    | more d =>
      rw [hstep] at h
      exact ih d h
    | done _ =>
      rw [hstep] at h
      cases h
      rfl
    | failed _ =>
      rw [hstep] at h
      cases h

end Builder

/-! ## The rest of a pattern -/

variable {s : State} {t : Text} {tokens : List Token}

theorem rest_shift {k : Nat} (hs : s.Begun) (h : rest s t = .ok tokens) :
    rest (s.shift k) t = .ok (tokens.map (Token.shift k)) := by
  have hrun := Scanner.run_shift (k := k) hs t
  unfold rest at h ⊢
  cases hp : (s.run t).2.pending with
  | error place =>
    rw [hp] at h
    cases h
  | ok more =>
    rw [hp] at h
    obtain rfl : (s.run t).1 ++ more = tokens := Except.ok.inj h
    rw [hrun, Scanner.shiftStep, Scanner.pending_shift (Scanner.begun_run hs t) hp, List.map_append]
    rfl

theorem ending_shift (k stop : Nat) : (ending stop).map (Token.shift k) = ending (k + stop) := by
  simp [ending, Token.shift, Span.shift]

/-- **The rest of a pattern gives the same further on.** -/
theorem resume_behind {k : Nat} (hs : s.Begun) (h : resume s b t = .ok (.ok segments)) :
    resume (s.shift k) (b.behind k source before) t = .ok (.ok (segmentsBehind k before segments.reverse).reverse) := by
  unfold resume at h ⊢
  cases hrest : rest s t with
  | error place =>
    rw [hrest] at h
    cases h
  | ok tokens =>
    rw [hrest] at h
    have hrun : (b.behind k source before).run ((tokens ++ ending (s.offset + t.length)).map (Token.shift k)) =
        .ok (segmentsBehind k before segments.reverse).reverse := Builder.run_behind b _ (Except.ok.inj h)
    have hend : (s.shift k).offset + t.length = k + (s.offset + t.length) := Nat.add_assoc _ _ _
    rw [List.map_append, ending_shift] at hrun
    rw [rest_shift hs hrest, hend]
    exact congrArg Except.ok hrun

end Behind

end Parser

end Glob
