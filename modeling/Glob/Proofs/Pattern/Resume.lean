import Glob.Pattern.Parser
/-!
# Reading and building at once

`Pattern.parse` first scans the whole pattern and then builds the tree.  `Parser.resume` is what becomes of the rest of
a pattern when the scanner is in some state and the builder has taken the tokens so far.  Its equations read a pattern
the way its syntax is told: a plain character, an escaped one, a star, a class member, one after the other
(`resume_plain`, `resume_escaped`, `resume_member` and so on).  In them the scanner has nothing pending; that a run of
plain characters is one token makes no difference to the builder (`resume_run`).
-/
namespace Glob

namespace Parser

open Scanner (State Mode Member)

/-! ## Tokens to the end -/

def rest (s : State) (t : Text) : Except Nat (List Token) := ((s.run t).1 ++ ·) <$> (s.run t).2.pending

/-- The end token, once for the pattern and once as what comes behind it. -/
def ending (stop : Nat) : List Token := [⟨.finish, [], ⟨stop, stop⟩⟩, ⟨.finish, [], ⟨stop, stop⟩⟩]

/-- What the parse gives when the scanner is in state `s`, the builder has taken the tokens so far, and `t` is left: the
offset of a backslash that has nothing to escape, or what the builder makes of all tokens. -/
def resume (s : State) (b : Builder) (t : Text) : Except Nat (Except ParseFailure (List Segment)) :=
  (fun tokens => b.run (tokens ++ ending (s.offset + t.length))) <$> rest s t

theorem parse_eq_resume (p : Text) :
    Pattern.parse p =
      match resume Scanner.start (start p) p with
      | .ok r => (Pattern.mk p ·) <$> r
      | .error place => .error (.rejected (Scanner.unterminatedEscape p place)) := by
  have hoffset : Scanner.start.offset + p.length = p.length := Nat.zero_add _
  simp only [Pattern.parse, scan, resume, rest, hoffset]
  cases h : (Scanner.start.run p).2.pending with
  | error place => rfl
  | ok tokens => simp [Pattern.ofTokens?, ending, Functor.map, Except.map]

theorem parse_eq_ok {p : Text} {segments : List Segment} :
    Pattern.parse p = .ok ⟨p, segments⟩ ↔ resume Scanner.start (start p) p = .ok (.ok segments) := by
  rw [parse_eq_resume]
  cases resume Scanner.start (start p) p with
  | error place => simp
  | ok r => cases r <;> simp [Functor.map, Except.map]

/-! ## Feeding several tokens -/

namespace Builder

/-- The builder after some tokens, if none of them ends the parse. -/
def feed (b : Builder) : List Token → Option Builder
  | [] => some b
  | t :: tokens =>
    match b.step t with
    | .more b => b.feed tokens
    | _ => none

theorem run_append {b b' : Builder} {tokens : List Token} (h : b.feed tokens = some b') (more : List Token) :
    b.run (tokens ++ more) = b'.run more := by
  induction tokens generalizing b with
  | nil =>
    obtain rfl : b = b' := Option.some.inj h
    rfl
  | cons t tokens ih =>
    rw [feed] at h
    rw [List.cons_append, run]
    split at h
    · next hb =>
      rw [hb]
      exact ih h
    · cases h

end Builder

/-! ## One step at a time -/

section Steps

variable {s s' : State} {b b' : Builder} {c : CodePoint} {t t' : Text} {tokens : List Token}

theorem rest_nil : rest s [] = s.pending := by
  simp only [rest, State.run, Functor.map, Except.map]
  cases s.pending <;> simp

theorem rest_cons : rest s (c :: t) = ((s.step c).1 ++ ·) <$> rest (s.step c).2 t := by
  show (((s.step c).1 ++ ((s.step c).2.run t).1) ++ ·) <$> ((s.step c).2.run t).2.pending = _
  simp only [rest, Functor.map, Except.map]
  cases ((s.step c).2.run t).2.pending with
  | error place => rfl
  | ok tokens => simp

/-- The builder may take tokens as soon as they are known. -/
theorem resume_congr (hrest : rest s t = (tokens ++ ·) <$> rest s' t')
    (hend : s.offset + t.length = s'.offset + t'.length) (hb : b.feed tokens = some b') :
    resume s b t = resume s' b' t' := by
  rw [resume, resume, hrest, hend]
  cases rest s' t' with
  | error place => rfl
  | ok more =>
    show Except.ok (b.run ((tokens ++ more) ++ _)) = _
    rw [List.append_assoc, Builder.run_append hb]
    rfl

theorem offset_of_step (hs : s.step c = (tokens, s')) : s.offset + (c :: t).length = s'.offset + t.length := by
  have hoffset := State.offset_step s c
  rw [hs] at hoffset
  rw [hoffset, List.length_cons]
  omega

theorem resume_step (hs : s.step c = (tokens, s')) (hb : b.feed tokens = some b') :
    resume s b (c :: t) = resume s' b' t :=
  resume_congr (by rw [rest_cons, hs]) (offset_of_step hs) hb

theorem resume_silent (hs : s.step c = ([], s')) : resume s b (c :: t) = resume s' b t := resume_step hs rfl

/-- A token that was pending until the next character. -/
theorem resume_flush (hs : s.step c = State.after tokens (s'.step c)) (hb : b.feed tokens = some b')
    (hoffset : s'.offset = s.offset) : resume s b (c :: t) = resume s' b' (c :: t) := by
  refine resume_congr ?_ (by rw [hoffset]) hb
  rw [rest_cons, rest_cons, hs, State.after]
  cases rest (s'.step c).2 t with
  | error place => rfl
  | ok more => simp [Functor.map, Except.map]

/-- A token that was pending until the end of the pattern. -/
theorem resume_flush_nil (hs : s.pending = .ok tokens) (hs' : s'.pending = .ok []) (hb : b.feed tokens = some b')
    (hoffset : s'.offset = s.offset) : resume s b [] = resume s' b' [] := by
  refine resume_congr ?_ (by rw [hoffset]) hb
  simp [rest_nil, hs, hs', Functor.map, Except.map]

/-- A token that the builder rejects ends the parse, if the rest of the pattern can be scanned at all. -/
theorem resume_failed {token : Token} {f : ParseFailure} {r : Except ParseFailure (List Segment)}
    (hs : s.step c = (token :: tokens, s')) (hb : b.step token = .failed f) (hr : resume s b (c :: t) = .ok r) :
    r = .error f := by
  rw [resume, rest_cons, hs] at hr
  cases hrest : rest s' t with
  | error place =>
    rw [hrest] at hr
    cases hr
  | ok more =>
    rw [hrest] at hr
    rw [← Except.ok.inj hr]
    show b.run (token :: _) = _
    rw [Builder.run, hb]

end Steps

/-! ## Outside classes -/

namespace Builder

/-- The builder with a segment begun, at the latest at offset `k`. -/
def begun (b : Builder) (k : Int) : Builder := { b with segmentStart := some (b.segmentStart.getD k) }

theorem step_outside {b : Builder} (h : b.openClass = none) (t : Token) :
    b.step t = (b.begun t.span.start).sequenceStep t := by
  unfold step
  split
  · next hc =>
    rw [h] at hc
    cases hc
  · rfl

def takeText (b : Builder) (text : Text) (span : Span) : Builder :=
  { b.begun span.start with nodes := addLiteral b.nodes text span }

def takeNode (b : Builder) (node : Node) : Builder := (b.begun node.span.start).push node

/-- The builder after two stars: they are a `**` only if no brace is open. -/
def takeStars (b : Builder) (k : Nat) : Builder :=
  if b.braces.isEmpty then b.takeNode (.doubleStar (Span.sized k 2))
  else { b.begun k with nodes := (Node.twoStars k).reverse ++ b.nodes }

theorem addLiteral_addLiteral (nodes : List Node) (text text' : Text) (span span' : Span) :
    addLiteral (addLiteral nodes text span) text' span' =
      addLiteral nodes (text ++ text') ⟨span.start, span'.stop⟩ := by
  cases nodes with
  | nil => rfl
  | cons n nodes => cases n <;> simp [addLiteral]

theorem takeText_takeText (b : Builder) (text text' : Text) (span span' : Span) :
    (b.takeText text span).takeText text' span' = b.takeText (text ++ text') ⟨span.start, span'.stop⟩ := by
  simp [takeText, begun, addLiteral_addLiteral]

end Builder

section Outside

variable {k : Nat} {b : Builder} {c : CodePoint} {t : Text}

/-- What the parse gives when nothing is pending and `t` is left, which begins at offset `k`. -/
def resumeAt (k : Nat) (b : Builder) (t : Text) : Except Nat (Except ParseFailure (List Segment)) :=
  resume ⟨k, b.braces.length, .text⟩ b t

/-- The builder does not tell a run of plain characters from its parts. -/
theorem resume_run {start : Nat} {chars : Text} (hc : b.openClass = none) (hk : k = start + chars.length) :
    resume ⟨k, b.braces.length, .run start chars⟩ b t =
      resumeAt k (b.takeText chars.reverse (Span.sized start chars.length)) t := by
  induction t generalizing k b start chars with
  | nil =>
    refine resume_flush_nil rfl rfl ?_ rfl
    rw [Builder.feed, Builder.step_outside hc]
    rfl
  | cons c t ih =>
    by_cases hplain : Scanner.meaning b.braces.length c = .plain
    · have hleft : (⟨k, b.braces.length, .run start chars⟩ : State).step c =
          ([], ⟨k + 1, b.braces.length, .run start (c :: chars)⟩) := if_pos hplain
      have hright : (⟨k, b.braces.length, .text⟩ : State).step c = ([], ⟨k + 1, b.braces.length, .run k [c]⟩) := by
        simp only [State.step, State.outside, hplain]
        rfl
      have hspan : Span.sized start (c :: chars).length =
          ⟨(Span.sized start chars.length).start, (Span.sized k 1).stop⟩ := by
        simp [Span.sized, hk, Int.add_assoc]
      calc resume ⟨k, b.braces.length, .run start chars⟩ b (c :: t)
        _ = resume ⟨k + 1, b.braces.length, .run start (c :: chars)⟩ b t := resume_silent hleft
        _ = resumeAt (k + 1) (b.takeText (c :: chars).reverse (Span.sized start (c :: chars).length)) t :=
          ih hc (by rw [hk, List.length_cons]; omega)
        _ = resumeAt (k + 1) ((b.takeText chars.reverse (Span.sized start chars.length)).takeText [c] (Span.sized k 1))
            t := by
          rw [Builder.takeText_takeText, ← hspan, List.reverse_cons]
        _ = resume ⟨k + 1, b.braces.length, .run k [c]⟩ (b.takeText chars.reverse (Span.sized start chars.length)) t :=
          (@ih (k + 1) (b.takeText chars.reverse (Span.sized start chars.length)) k [c] hc rfl).symm
        _ = resumeAt k (b.takeText chars.reverse (Span.sized start chars.length)) (c :: t) :=
          (resume_silent hright).symm
    · refine resume_flush (if_neg hplain) ?_ rfl
      rw [Builder.feed, Builder.step_outside hc]
      rfl

theorem resume_plain (hc : b.openClass = none) (h : Scanner.meaning b.braces.length c = .plain) :
    resumeAt k b (c :: t) = resumeAt (k + 1) (b.takeText [c] (Span.sized k 1)) t := by
  have hstep : (⟨k, b.braces.length, .text⟩ : State).step c = ([], ⟨k + 1, b.braces.length, .run k [c]⟩) := by
    simp only [State.step, State.outside, h]
    rfl
  exact (resume_silent hstep).trans (resume_run hc rfl)

theorem resume_escaped (hc : b.openClass = none) :
    resumeAt k b (Mark.backslash :: c :: t) = resumeAt (k + 2) (b.takeText [c] (Span.sized k 2)) t := by
  refine (resume_silent rfl).trans (resume_step rfl ?_)
  rw [Builder.feed, Builder.step_outside hc]
  rfl

theorem resume_star (hc : b.openClass = none) (ht : t.head? ≠ some Mark.star) :
    resumeAt k b (Mark.star :: t) = resumeAt (k + 1) (b.takeNode (.star (Span.sized k 1))) t := by
  have hfeed : b.feed [Scanner.starToken k] = some (b.takeNode (.star (Span.sized k 1))) := by
    rw [Builder.feed, Builder.step_outside hc]
    rfl
  refine (resume_silent rfl).trans ?_
  cases t with
  | nil => exact resume_flush_nil rfl rfl hfeed rfl
  | cons c t =>
    have hne : c ≠ Mark.star := fun h => ht (by rw [h]; rfl)
    exact resume_flush (if_neg hne) hfeed rfl

theorem resume_stars (hc : b.openClass = none) :
    resumeAt k b (Mark.star :: Mark.star :: t) = resumeAt (k + 2) (b.takeStars k) t := by
  have hfeed : b.feed [⟨.doubleStar, [Mark.star, Mark.star], Span.sized k 2⟩] = some (b.takeStars k) := by
    rw [Builder.feed, Builder.step_outside hc]
    obtain ⟨_, _, _, braces, _, _⟩ := b
    cases braces <;> rfl
  have hbraces : (b.takeStars k).braces = b.braces := by
    unfold Builder.takeStars
    split <;> rfl
  refine (resume_silent rfl).trans ?_
  rw [resumeAt, hbraces]
  exact resume_step rfl hfeed

/-- A character that is a token of its own. -/
theorem resume_token {kind : Token.Kind} {depth : Nat} {b' : Builder} (hc : b.openClass = none)
    (hs : (⟨k, b.braces.length, .text⟩ : State).step c = ([⟨kind, [c], Span.sized k 1⟩], ⟨k + 1, depth, .text⟩))
    (hb : (b.begun k).sequenceStep ⟨kind, [c], Span.sized k 1⟩ = .more b') (hdepth : b'.braces.length = depth) :
    resumeAt k b (c :: t) = resumeAt (k + 1) b' t := by
  subst hdepth
  refine resume_step hs ?_
  rw [Builder.feed, Builder.step_outside hc]
  show (match (b.begun k).sequenceStep _ with | .more b => b.feed [] | _ => none) = _
  rw [hb]
  rfl

theorem resume_question (hc : b.openClass = none) :
    resumeAt k b (Mark.question :: t) = resumeAt (k + 1) (b.takeNode (.anyChar (Span.sized k 1))) t :=
  resume_token hc rfl rfl rfl

theorem resume_openBrace (hc : b.openClass = none) :
    resumeAt k b (Mark.openBrace :: t) =
      resumeAt (k + 1) { b.begun k with braces := ⟨Span.sized k 1, b.nodes, []⟩ :: b.braces, nodes := [] } t :=
  resume_token hc rfl rfl rfl

section Braces

variable {brace : OpenBrace} {outer : List OpenBrace}

theorem resume_comma (hc : b.openClass = none) (hb : b.braces = brace :: outer) :
    resumeAt k b (Mark.comma :: t) =
      resumeAt (k + 1)
        { b.begun k with
          braces := { brace with branches := b.nodes.reverse :: brace.branches } :: outer
          nodes := [] } t := by
  obtain ⟨source, segments, segmentStart, _, nodes, openClass⟩ := b
  subst hb
  exact resume_token hc rfl rfl rfl

theorem resume_closeBrace (hc : b.openClass = none) (hb : b.braces = brace :: outer) :
    resumeAt k b (Mark.closeBrace :: t) =
      resumeAt (k + 1)
        { b.begun k with
          braces := outer
          nodes := .alternation (b.nodes.reverse :: brace.branches).reverse ⟨brace.opener.start, k + 1⟩ ::
            brace.before } t := by
  obtain ⟨source, segments, segmentStart, _, nodes, openClass⟩ := b
  subst hb
  exact resume_token hc rfl rfl rfl

/-- A separator inside braces is text. -/
theorem resume_innerSeparator (hc : b.openClass = none) (hb : b.braces = brace :: outer) :
    resumeAt k b (Mark.slash :: t) = resumeAt (k + 1) (b.takeText [Mark.slash] (Span.sized k 1)) t := by
  obtain ⟨source, segments, segmentStart, _, nodes, openClass⟩ := b
  subst hb
  exact resume_token hc rfl rfl rfl

end Braces

/-- A separator outside braces ends the segment. -/
theorem resume_separator (hc : b.openClass = none) (hb : b.braces = []) :
    resumeAt k b (Mark.slash :: t) =
      resumeAt (k + 1) { b with segments := (b.begun k).closeSegment k, segmentStart := none, nodes := [] } t := by
  obtain ⟨source, segments, segmentStart, _, nodes, openClass⟩ := b
  subst hb
  exact resume_token hc rfl rfl rfl

theorem resume_nil (hc : b.openClass = none) :
    resumeAt k b [] =
      .ok (match b.braces with
        | [] => .ok ((b.begun k).closeSegment k).reverse
        | brace :: _ => .error (unclosedAlternation b.source brace.opener)) := by
  obtain ⟨source, segments, segmentStart, braces, nodes, openClass⟩ := b
  obtain rfl : openClass = none := hc
  cases braces <;> rfl

end Outside

end Parser

end Glob
