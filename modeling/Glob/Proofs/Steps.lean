import Glob.Proofs.Pattern.Pieces
import Glob.Proofs.Pattern.Slices
import Glob.Proofs.Plan
/-!
# The steps of a plan

`Plan.Made` tells which steps a plan has for which segments, without the cache that their matchers come from: a step is
made of its segment alone, or of the slice of the pattern that it stands for, which is read as this segment again.  The
steps of every plan are made so (`plan_made`), and what can be said of a plan is an induction over `Made`.

A slice is never refused, so a plan fails only where its pattern has no tree, `plan_compiles`.
-/
namespace Glob

open Glob.Parser (Piece Placed collapse joined joined_cons joined_append joined_singleton)

namespace Plan

/-- The steps that a plan has for segments of the pattern text `p`. -/
inductive Made (o : Options) (p : Text) : List Segment → List Selector → Prop
  | nil : Made o p [] []
  | recursive {s : Segment} {ss : List Segment} {steps : List Selector} (hrec : s.isRecursive = true)
    (rest : Made o p ss steps) : Made o p (s :: ss) (⟨.recursive, [Mark.star, Mark.star], none, o⟩ :: steps)
  | precise {s : Segment} {ss : List Segment} {steps : List Selector} (hliteral : s.isLiteral = true)
    (slice : ReadAs (s.span.extract p) [s]) (rest : Made o p ss steps) :
    Made o p (s :: ss) (⟨.precise, s.literalText, none, o⟩ :: steps)
  | wildcard {s : Segment} {ss : List Segment} {steps : List Selector} {m : Matcher} (hrec : s.isRecursive = false)
    (hliteral : s.isLiteral = false) (hcross : crossesSeparator s.nodes = false)
    (slice : ReadAs (s.span.extract p) [s]) (hm : Matcher.ofPattern? o (s.span.extract p) = .ok m)
    (rest : Made o p ss steps) : Made o p (s :: ss) (⟨.wildcard, s.span.extract p, some m, o⟩ :: steps)
  | tail {s : Segment} {ss : List Segment} {text : Text} {m : Matcher} (hrec : s.isRecursive = false)
    (hliteral : s.isLiteral = false) (hcross : crossesSeparator s.nodes = true) (slice : ReadAs text (s :: ss))
    (hm : Matcher.ofPattern? o text = .ok m) : Made o p (s :: ss) [⟨.tail, text, some m, o⟩]

variable {o : Options} {p t : Text} {k stop : Nat} {s : Segment} {rest placed : List Segment} {piece : Piece}
  {pieces : List Piece}

/-! ## One lemma for each kind of step -/

/-- From any faithful cache, the segments get the steps that are made for them. -/
def Makes (o : Options) (p : Text) (stop : Nat) (ss : List Segment) : Prop :=
  ∀ c : Cache, c.Faithful → ∃ steps c', Plan.steps p o stop ss c = (.ok steps, c') ∧ Made o p ss steps

theorem makes_recursive (hrec : s.isRecursive = true) (h : Makes o p stop rest) : Makes o p stop (s :: rest) := by
  intro c hc
  obtain ⟨steps, c', hsteps, hmade⟩ := h c hc
  exact ⟨_, c', by rw [steps_recursive hrec, hsteps]; rfl, .recursive hrec hmade⟩

theorem makes_precise (hrec : s.isRecursive = false) (hliteral : s.isLiteral = true)
    (hslice : ReadAs (s.span.extract p) [s]) (h : Makes o p stop rest) : Makes o p stop (s :: rest) := by
  intro c hc
  obtain ⟨steps, c', hsteps, hmade⟩ := h c hc
  exact ⟨_, c', by rw [steps_precise hrec hliteral, hsteps]; rfl, .precise hliteral hslice hmade⟩

theorem makes_wildcard (hrec : s.isRecursive = false) (hliteral : s.isLiteral = false)
    (hcross : crossesSeparator s.nodes = false) (hslice : ReadAs (s.span.extract p) [s]) (h : Makes o p stop rest) :
    Makes o p stop (s :: rest) := by
  intro c hc
  obtain ⟨m, hm, -⟩ := hslice.ofPattern? o
  obtain ⟨v, c', hv, rfl, hc'⟩ := Cache.compile_ok hc hm
  obtain ⟨steps, c'', hsteps, hmade⟩ := h c' hc'
  refine ⟨_, c'', by rw [steps_wildcard hrec hliteral hcross, hv]; simp only [hsteps]; rfl, ?_⟩
  exact .wildcard hrec hliteral hcross hslice hm hmade

theorem makes_tail (hrec : s.isRecursive = false) (hliteral : s.isLiteral = false)
    (hcross : crossesSeparator s.nodes = true) (hslice : ReadAs (Span.extract ⟨s.span.start, stop⟩ p) (s :: rest)) :
    Makes o p stop (s :: rest) := by
  intro c hc
  obtain ⟨m, hm, -⟩ := hslice.ofPattern? o
  obtain ⟨v, c', hv, rfl, -⟩ := Cache.compile_ok hc hm
  exact ⟨_, c', by rw [steps_tail hrec hliteral hcross, hv], .tail hrec hliteral hcross hslice hm⟩

/-! ## The steps of a pattern -/

/-- The text under the span of a segment is its piece. -/
theorem readAs_slice (hrec : s.isRecursive = false) (hplaced : Placed k (piece :: pieces) (s :: rest))
    (hdrop : p.drop k = joined (piece :: pieces) ++ t) : ReadAs (s.span.extract p) [s] := by
  cases hplaced with
  | cons hnodes hspan _ =>
    rw [← List.singleton_append, joined_append pieces (List.cons_ne_nil piece []), joined_singleton,
      List.append_assoc] at hdrop
    have hone : Placed k [piece] [s] := .cons hnodes hspan (.nil _)
    have hslice := Parser.readAs_joined hone (List.cons_ne_nil _ _)
    rw [Parser.collapse_cons_plain hrec, joined_singleton] at hslice
    rw [hspan, Span.extract_of_drop hdrop]
    exact hslice

/-- The text from a segment to the end of the last one is the pieces of both and of those between. -/
theorem readAs_rest (hrec : s.isRecursive = false) (hplaced : Placed k pieces (s :: placed))
    (hdrop : p.drop k = joined pieces ++ t) (hstop : stop = k + (joined pieces).length) :
    ReadAs (Span.extract ⟨s.span.start, stop⟩ p) (s :: collapse false placed) := by
  have htext : Span.extract ⟨s.span.start, stop⟩ p = joined pieces := by
    cases hplaced with
    | cons _ hspan _ =>
      rw [hspan, hstop]
      exact Span.extract_of_drop hdrop
  have hne : pieces ≠ [] := by
    rintro rfl
    cases hplaced
  rw [htext, ← Parser.collapse_cons_plain hrec]
  exact Parser.readAs_joined hplaced hne

/-- **The steps of a plan are made for its segments.** -/
theorem makes_collapse (hplaced : Placed k pieces placed) {r : Bool}
    (htext : pieces ≠ [] → p.drop k = joined pieces ++ t ∧ stop = k + (joined pieces).length) :
    Makes o p stop (collapse r placed) := by
  induction hplaced generalizing r with
  | nil => exact fun c _ => ⟨[], c, rfl, .nil⟩
  | @cons k piece pieces s ss hnodes hspan hrest ih =>
    obtain ⟨hdrop, hstop⟩ := htext (List.cons_ne_nil _ _)
    have hplaced : Placed k (piece :: pieces) (s :: ss) := .cons hnodes hspan hrest
    -- what comes behind this piece and its separator
    have hbehind : pieces ≠ [] → p.drop (k + piece.text.length + 1) = joined pieces ++ t ∧
        stop = k + piece.text.length + 1 + (joined pieces).length := by
      intro hne
      rw [joined_cons piece hne, List.append_assoc] at hdrop
      rw [joined_cons piece hne, List.length_append, List.length_cons] at hstop
      exact ⟨Expression.drop_of_drop_eq (w := [Mark.slash]) (Expression.drop_of_drop_eq hdrop), by omega⟩
    cases hrec : s.isRecursive with
    | true =>
      rw [collapse, hrec, Bool.and_true]
      split
      · exact ih hbehind
      · exact makes_recursive hrec (ih hbehind)
    | false =>
      rw [Parser.collapse_cons_plain hrec]
      have hslice := readAs_slice hrec hplaced hdrop
      cases hliteral : s.isLiteral with
      | true => exact makes_precise hrec hliteral hslice (ih hbehind)
      | false =>
        cases hcross : crossesSeparator s.nodes with
        | true => exact makes_tail hrec hliteral hcross (readAs_rest hrec hplaced hdrop hstop)
        | false => exact makes_wildcard hrec hliteral hcross hslice (ih hbehind)

end Plan

variable {o : Options} {p : Text} {tree : Pattern} {c c' : Cache}

/-- **A plan has the steps that are made for the segments of its pattern**, without an empty one at the end. -/
theorem plan_made (hparse : Pattern.parse p = .ok tree) (hc : c.Faithful) :
    ∃ steps, (plan c o p).1 = .ok steps ∧ Plan.Made o p (Plan.walked tree.segments) steps := by
  obtain ⟨pieces, placed, hne, rfl, hplaced, rfl⟩ := parse_pieces hparse
  obtain ⟨first, segments, t, hfirst, hjoined, hplaced', hwalked, hlast⟩ := Parser.exists_walked hplaced hne
  have hsegments : segments ≠ [] := by
    rintro rfl
    exact hfirst (List.eq_nil_of_length_eq_zero hplaced'.length_eq)
  have hstop : ((collapse false segments).getLast?.map (·.span.stop)).getD 0 = ((joined first).length : Nat) := by
    obtain ⟨last, hsome⟩ := Option.ne_none_iff_exists'.1 (mt List.getLast?_eq_none_iff.1 hsegments)
    rw [hlast, hsome, Option.map_some, Option.getD_some, hplaced'.stop hsome, Nat.zero_add]
  have hmakes : Plan.Makes o (joined pieces) (joined first).length (collapse false segments) :=
    Plan.makes_collapse hplaced' fun _ => ⟨hjoined, (Nat.zero_add _).symm⟩
  obtain ⟨steps, c', hsteps, hmade⟩ := hmakes c hc
  refine ⟨steps, ?_, hwalked ▸ hmade⟩
  unfold plan
  rw [hparse]
  simp only [← hwalked, hstop, hsteps]

/-! ## What each step stands for -/

/-- The kind of step that a plan has for the segment. -/
def Segment.stepKind (s : Segment) : Selector.Kind :=
  if s.isRecursive then .recursive
  else if s.isLiteral then .precise
  else if crossesSeparator s.nodes then .tail
  else .wildcard

theorem Segment.stepKind_recursive {s : Segment} (hrec : s.isRecursive = true) : s.stepKind = .recursive := if_pos hrec

theorem Segment.stepKind_precise {s : Segment} (hliteral : s.isLiteral = true) : s.stepKind = .precise := by
  rw [Segment.stepKind, recursive_of_isLiteral hliteral, hliteral]
  rfl

theorem Segment.stepKind_plain {s : Segment} (hrec : s.isRecursive = false) (hliteral : s.isLiteral = false) :
    s.stepKind = if crossesSeparator s.nodes then .tail else .wildcard := by
  rw [Segment.stepKind, hrec, hliteral]
  rfl

/-- The step is the one for the segment `s` with the segments `rest` behind it. -/
structure Selector.StandsFor (o : Options) (s : Segment) (rest : List Segment) (step : Selector) : Prop where
  kind : step.kind = s.stepKind
  options : step.options = o
  precise : step.kind = .precise → step.text = s.literalText
  /-- A step that compares, or that takes any component, has no matcher. -/
  matcherless : step.kind = .precise ∨ step.kind = .recursive → step.matcher = none
  wildcard : step.kind = .wildcard → ∃ m, step.matcher = some m ∧ m.options = o ∧
    m.source = Mark.caret :: ((Expression.nodes o .componentStart s.nodes).render ++ [Mark.backslash, 0x5A])
  tail : step.kind = .tail → ∃ m, step.matcher = some m ∧ m.options = o ∧
    m.source = Pattern.regexSource o ⟨step.text, s :: rest⟩

namespace Plan

variable {s : Segment} {ss : List Segment} {step : Selector} {steps : List Selector}

/-- The expression of a slice that is one segment. -/
theorem regexSource_single (hrec : s.isRecursive = false) (t : Text) : Pattern.regexSource o ⟨t, [s]⟩ =
    Mark.caret :: ((Expression.nodes o .componentStart s.nodes).render ++ [Mark.backslash, 0x5A]) := by
  rw [Pattern.regexSource, Pattern.regex, Expression.segments_plain hrec, Expression.segment, Expression.segmentsAfter]
  simp [Regex.render]

theorem Made.exists_step (h : Made o p (s :: ss) steps) : ∃ step rest, steps = step :: rest := by
  cases h <;> exact ⟨_, _, rfl⟩

theorem Made.exists_segment (h : Made o p ss (step :: steps)) : ∃ s rest, ss = s :: rest := by
  cases h <;> exact ⟨_, _, rfl⟩

/-- The first step stands for the first segment, and it is the only one if it is a tail. -/
theorem Made.head (h : Made o p (s :: ss) (step :: steps)) :
    step.StandsFor o s ss ∧ ((step.kind = .tail ∧ steps = []) ∨ (step.kind ≠ .tail ∧ Made o p ss steps)) := by
  cases h with
  | recursive hrec rest =>
    refine ⟨⟨(Segment.stepKind_recursive hrec).symm, rfl, ?_, fun _ => rfl, ?_, ?_⟩, .inr ⟨?_, rest⟩⟩ <;> exact nofun
  | precise hliteral slice rest =>
    refine ⟨⟨(Segment.stepKind_precise hliteral).symm, rfl, fun _ => rfl, fun _ => rfl, ?_, ?_⟩, .inr ⟨?_, rest⟩⟩ <;>
      exact nofun
  | @wildcard _ _ _ m hrec hliteral hcross slice hm rest =>
    have hkind : s.stepKind = .wildcard := by rw [Segment.stepKind_plain hrec hliteral, hcross]; rfl
    obtain ⟨m', hm', hoptions, hsource⟩ := slice.ofPattern? o
    obtain rfl : m = m' := Except.ok.inj (hm.symm.trans hm')
    refine ⟨⟨hkind.symm, rfl, ?_, ?_, fun _ => ⟨m, rfl, hoptions, ?_⟩, ?_⟩, .inr ⟨?_, rest⟩⟩
    · exact nofun
    · exact fun h => h.elim nofun nofun
    · rw [hsource, regexSource_single hrec]
    · exact nofun
    · exact nofun
  | @tail _ _ text m hrec hliteral hcross slice hm =>
    have hkind : s.stepKind = .tail := by rw [Segment.stepKind_plain hrec hliteral, hcross]; rfl
    obtain ⟨m', hm', hoptions, hsource⟩ := slice.ofPattern? o
    obtain rfl : m = m' := Except.ok.inj (hm.symm.trans hm')
    refine ⟨⟨hkind.symm, rfl, ?_, ?_, ?_, fun _ => ⟨m, rfl, hoptions, hsource⟩⟩, .inl ⟨rfl, rfl⟩⟩
    · exact nofun
    · exact fun h => h.elim nofun nofun
    · exact nofun

/-- From any step on, the steps are made for the segments from the same place on. -/
theorem Made.getElem? (h : Made o p ss steps) {i : Nat} (hi : steps[i]? = some step) :
    ∃ s, ss[i]? = some s ∧ Made o p (s :: ss.drop (i + 1)) (step :: steps.drop (i + 1)) := by
  induction i generalizing ss steps with
  | zero =>
    cases steps with
    | nil => cases hi
    | cons first steps =>
      obtain rfl := Option.some.inj hi
      obtain ⟨s, ss, rfl⟩ := h.exists_segment
      exact ⟨s, rfl, h⟩
  | succ i ih =>
    cases steps with
    | nil => cases hi
    | cons first steps =>
      obtain ⟨s, ss, rfl⟩ := h.exists_segment
      rcases h.head.2 with ⟨-, rfl⟩ | ⟨-, hmade⟩
      · cases hi
      · exact ih hmade hi

/-- **Every step stands for the segment at its place**, and nothing comes behind a tail. -/
theorem Made.standsFor (h : Made o p ss steps) {i : Nat} (hi : steps[i]? = some step) :
    ∃ s, ss[i]? = some s ∧ step.StandsFor o s (ss.drop (i + 1)) ∧ (step.kind = .tail → i + 1 = steps.length) := by
  obtain ⟨s, hs, hmade⟩ := h.getElem? hi
  obtain ⟨hstands, hrest⟩ := hmade.head
  refine ⟨s, hs, hstands, fun htail => ?_⟩
  rcases hrest with ⟨-, hnil⟩ | ⟨hno, -⟩
  · exact Nat.le_antisymm (List.getElem?_eq_some_iff.1 hi).1 (List.drop_eq_nil_iff.1 hnil)
  · exact absurd htail hno

/-- Without a tail, no segment is left over. -/
theorem Made.length_eq (h : Made o p ss steps) (htail : ∀ step ∈ steps, step.kind ≠ .tail) :
    steps.length = ss.length := by
  induction h with
  | nil => rfl
  | recursive _ _ ih | precise _ _ _ ih | wildcard _ _ _ _ _ _ ih =>
    rw [List.length_cons, List.length_cons, ih (List.forall_mem_cons.1 htail).2]
  | tail => exact absurd rfl (htail _ List.mem_cons_self)

end Plan

/-! ## What a plan fails on -/

/-- An error that is found in a pattern shows the whole of it. -/
theorem parse_error_pattern {f : ParseFailure} (h : Pattern.parse p = .error f) :
    ∃ e, f = .rejected e ∧ e.OfSyntax ∧ e.pattern = some p := by
  by_cases hp : Reading.EndsEscaping p
  · rw [parse_endsEscaping hp] at h
    cases h
    exact ⟨_, rfl, .inl rfl, rfl⟩
  · have hparse := parse_unescaped hp
    split at hparse
    · split at hparse <;>
      · cases hparse.symm.trans h
        exact ⟨_, rfl, .inr rfl, rfl⟩
    · split at hparse
      · cases hparse.symm.trans h
        exact ⟨_, rfl, .inr rfl, rfl⟩
      · obtain ⟨tree, htree⟩ := hparse
        cases htree.symm.trans h

theorem plan_error_iff (hc : c.Faithful) {f : ParseFailure} :
    (plan c o p).1 = .error f ↔ Pattern.parse p = .error f := by
  cases hparse : Pattern.parse p with
  | error f' =>
    unfold plan
    rw [hparse, Except.error.injEq, Except.error.injEq]
  | ok tree =>
    obtain ⟨steps, hsteps, -⟩ := plan_made hparse hc
    rw [hsteps]
    exact ⟨nofun, nofun⟩

theorem compile_error_iff (hc : c.Faithful) {f : ParseFailure} :
    (c.compile o p).1 = .error f ↔ Pattern.parse p = .error f := by
  cases hparse : Pattern.parse p with
  | error f' =>
    have hsame := (Cache.compile_faithful hc o p).2
    rw [Matcher.ofPattern?, hparse] at hsame
    cases hv : (c.compile o p).1 with
    | error g =>
      rw [hv] at hsame
      rw [show g = f' from Except.error.inj hsame, Except.error.injEq, Except.error.injEq]
    | ok v =>
      rw [hv] at hsame
      cases hsame
  | ok tree =>
    obtain ⟨v, c', hv, -⟩ := Cache.compile_ok hc (ofPattern?_of_parse hparse o)
    rw [hv]
    exact iff_of_false (fun h => by cases h) fun h => by cases h

/-- **A plan fails on the patterns that do not compile, and with the same error**, which shows the whole pattern.  It has
one step for each segment it walks, up to the first tail; the matcher of a step has the expression of its segment, and
that of a tail has the expression of all segments that are left. -/
theorem plan_compiles (hc : c.Reached) (hc' : c'.Reached) (o : Options) (p : Text) :
    (∀ f, (plan c o p).1 = .error f ↔ (c'.compile o p).1 = .error f) ∧
    (∀ f, (plan c o p).1 = .error f →
      Pattern.parse p = .error f ∧ ∃ e, f = .rejected e ∧ e.OfSyntax ∧ e.pattern = some p) ∧
    ∀ tree, Pattern.parse p = .ok tree → ∃ steps, (plan c o p).1 = .ok steps ∧
      (∀ i step, steps[i]? = some step → ∃ s, (Plan.walked tree.segments)[i]? = some s ∧
        step.StandsFor o s ((Plan.walked tree.segments).drop (i + 1)) ∧ (step.kind = .tail → i + 1 = steps.length)) ∧
      ((∀ step ∈ steps, step.kind ≠ .tail) → steps.length = (Plan.walked tree.segments).length) := by
  refine ⟨fun f => ?_, fun f h => ?_, fun tree hparse => ?_⟩
  · rw [plan_error_iff hc.faithful, compile_error_iff hc'.faithful]
  · have hparse := (plan_error_iff hc.faithful).1 h
    exact ⟨hparse, parse_error_pattern hparse⟩
  · obtain ⟨steps, hsteps, hmade⟩ := plan_made (c := c) hparse hc.faithful
    exact ⟨steps, hsteps, fun i step hi => hmade.standsFor hi, hmade.length_eq⟩

/-- The pattern `{b/,c}*/d/`, whose plan is one tail: the empty segment at its end has no part in it. -/
theorem plan_compiles_tail :
    ∃ step m, (plan Cache.empty {} (Text.of "\x7bb/,c\x7d*/d/")).1 = .ok [step] ∧ step.kind = .tail ∧
      step.matcher = some m ∧ m.source = Text.of "^(?:b/|c)[^/]*/d\\Z" := by
  let first : Segment :=
    ⟨[.alternation [[.literal [0x62, 0x2F] ⟨1, 3⟩], [.literal [0x63] ⟨4, 5⟩]] ⟨0, 6⟩, .star ⟨6, 7⟩], ⟨0, 7⟩⟩
  let second : Segment := ⟨[.literal [0x64] ⟨8, 9⟩], ⟨8, 9⟩⟩
  have hparse : Pattern.parse (Text.of "\x7bb/,c\x7d*/d/") =
      .ok ⟨Text.of "\x7bb/,c\x7d*/d/", [first, second, ⟨[], ⟨10, 10⟩⟩]⟩ := rfl
  obtain ⟨steps, hsteps, hstands, hlength⟩ := (plan_compiles .empty .empty {} _).2.2 _ hparse
  have hwalked : Plan.walked [first, second, ⟨[], ⟨10, 10⟩⟩] = [first, second] := rfl
  rw [hwalked] at hstands hlength
  cases steps with
  | nil => cases hlength fun _ h => absurd h List.not_mem_nil
  | cons step steps =>
    obtain ⟨s, hs, hstep, hlast⟩ := hstands 0 step rfl
    obtain rfl := Option.some.inj hs
    have hkind : step.kind = .tail := hstep.kind
    obtain rfl : steps = [] := List.eq_nil_of_length_eq_zero (Nat.succ.inj (hlast hkind)).symm
    obtain ⟨m, hm, -, hsource⟩ := hstep.tail hkind
    exact ⟨step, m, hsteps, hkind, hm, hsource⟩

end Glob
