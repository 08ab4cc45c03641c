import Glob.Proofs.Literal
import Glob.Proofs.Steps
/-!
# What a precise step names

The text of a precise step is the slice of its segment without the escapes.  A separator gets into it by an escape and in
no other way: an unescaped one ends the segment, and one inside braces is in no literal segment but makes the plan end
with a tail, `plan_precise`.
-/
namespace Glob

open Text (wildcards unescape? unescape?_cons unescape?_escaped wildcards_cons escapes escapes_cons)

namespace Parser

variable {k : Nat} {b : Builder} {c : CodePoint} {t : Text} {segments : List Segment}

/-- Outside braces, a separator never stands for itself. -/
theorem Builder.IsText.ne_slash (h : b.IsText c) (hb : b.braces = []) : c ≠ Mark.slash := by
  rintro rfl
  rcases h with hplain | ⟨-, hopen⟩
  · rw [hb] at hplain
    cases hplain
  · exact hopen hb

/-- **In literal text that is one segment, separators are escaped.** -/
theorem Course.escapes_iff (h : Course k b t segments) (hb : b.isLiteral = true) (ht : wildcards t = false) :
    b.segments.length < segments.length ∧
      (segments.length = b.segments.length + 1 → ∀ u, unescape? t = some u →
        (Mark.slash ∈ u ↔ escapes Mark.slash t = true)) := by
  -- every unescaped separator is one more segment
  induction h with
  | @ends k b _ =>
    rw [Builder.closeSegment_literal (b := b.begun k) hb, List.length_reverse, List.length_cons]
    refine ⟨Nat.lt_succ_self _, fun _ u hu => ?_⟩
    obtain rfl := Option.some.inj hu
    simp [escapes]
  | @text k b c t segments hc _ ih =>
    rw [wildcards_cons hc.not_mark] at ht
    obtain ⟨hlt, hiff⟩ := ih (by rwa [Builder.takeText_isLiteral]) ht
    refine ⟨hlt, fun hone u hu => ?_⟩
    rw [unescape?_cons hc.ne_backslash] at hu
    obtain ⟨v, hv, rfl⟩ := Option.map_eq_some_iff.1 hu
    have hbraces : b.braces = [] := by
      simp only [Builder.isLiteral, Bool.and_eq_true] at hb
      exact List.isEmpty_iff.1 hb.1.1
    rw [escapes_cons hc.ne_backslash, List.mem_cons, ← hiff hone v hv]
    exact or_iff_right (hc.ne_slash hbraces).symm
  | @escaped k b c t segments _ ih =>
    obtain ⟨hlt, hiff⟩ := ih (by rwa [Builder.takeText_isLiteral]) ht
    refine ⟨hlt, fun hone u hu => ?_⟩
    rw [unescape?_escaped] at hu
    obtain ⟨v, hv, rfl⟩ := Option.map_eq_some_iff.1 hu
    rw [escapes, Bool.or_eq_true, beq_iff_eq, List.mem_cons, ← hiff hone v hv, eq_comm]
  | star | stars | question | set | openBrace => cases ht
  | comma hopen | closeBrace hopen => simp [Builder.isLiteral, hopen] at hb
  | @separator k b t segments hnone _ ih =>
    have hclosed := Builder.closeSegment_literal (b := b.begun k) hb k
    have hnext : Builder.isLiteral
        { b with segments := (b.begun k).closeSegment k, segmentStart := none, nodes := [] } = true := by
      rw [Builder.isLiteral, Builder.closeSegment_isLiteral (b := b.begun k) hnone k, hnone]
      exact (Bool.and_true _).trans hb
    rw [wildcards_cons (by decide)] at ht
    have hlt : ((b.begun k).closeSegment k).length < segments.length := (ih hnext ht).1
    rw [hclosed, List.length_cons] at hlt
    have hlt' : b.segments.length + 1 < segments.length := hlt
    exact ⟨by omega, fun hone => absurd hone (by omega)⟩

end Parser

variable {o : Options} {p q : Text} {tree : Pattern} {c : Cache} {s : Segment}

/-- The text of a literal segment is its slice without the escapes, and the separators in it are the escaped ones. -/
theorem ReadAs.literal (h : ReadAs q [s]) (hliteral : s.isLiteral = true) :
    wildcards q = false ∧ unescape? q = some s.literalText ∧
      (Mark.slash ∈ s.literalText ↔ escapes Mark.slash q = true) := by
  obtain ⟨⟨source, segments⟩, hparse, hsame⟩ := h
  obtain ⟨s', rfl⟩ : ∃ s', segments = [s'] := List.length_eq_one_iff.1 (by simpa using congrArg List.length hsame)
  have hbare : s'.bare = s.bare := (List.cons.inj hsame).1
  have htree : Pattern.isLiteral ⟨source, [s']⟩ = true := by
    rw [Pattern.isLiteral, List.all_cons, List.all_nil, Bool.and_true, ← s'.isLiteral_bare, hbare, s.isLiteral_bare,
      hliteral]
  have htext : Pattern.literalText ⟨source, [s']⟩ = s.literalText := by
    rw [Pattern.literalText, List.map_cons, List.map_nil, Text.join_singleton, ← s'.literalText_bare, hbare,
      s.literalText_bare]
  have hq : wildcards q = false := by simpa [parse_isLiteral hparse] using htree
  have hunescape := parse_literalText hparse htree
  rw [htext] at hunescape
  exact ⟨hq, hunescape, ((parse_course hparse).2.escapes_iff rfl hq).2 rfl _ hunescape⟩

/-- A segment that may be more than one component has a tail, unless it is literal. -/
theorem Segment.stepKind_tail (hliteral : s.isLiteral = false) (hcross : crossesSeparator s.nodes = true) :
    s.stepKind = .tail := by
  cases hrec : s.isRecursive with
  | true =>
    obtain ⟨span, hnodes⟩ := Segment.isRecursive_iff.1 hrec
    rw [hnodes] at hcross
    cases hcross
  | false => rw [Segment.stepKind_plain hrec hliteral, if_pos hcross]

namespace Plan

variable {ss : List Segment} {step : Selector} {steps : List Selector}

theorem Made.precise_slice (h : Made o p (s :: ss) (step :: steps)) (hkind : step.kind = .precise) :
    s.isLiteral = true ∧ ReadAs (s.span.extract p) [s] := by
  cases h with
  | precise hliteral slice => exact ⟨hliteral, slice⟩
  | recursive | wildcard | tail => cases hkind

/-- Nothing comes behind the step for a segment that may be more than one component, or that step is not reached. -/
theorem Made.ends_with_tail (h : Made o p ss steps) {i : Nat} (hi : ss[i]? = some s) (htail : s.stepKind = .tail) :
    steps.length ≤ i + 1 ∧ ∃ last, steps.getLast? = some last ∧ last.kind = .tail := by
  induction ss generalizing i steps with
  | nil => cases hi
  | cons s₀ ss ih =>
    obtain ⟨step, steps, rfl⟩ := h.exists_step
    obtain ⟨hstands, ⟨hkind, rfl⟩ | ⟨hkind, hrest⟩⟩ := h.head
    · exact ⟨Nat.succ_le_succ (Nat.zero_le i), step, rfl, hkind⟩
    · cases i with
      | zero =>
        obtain rfl := Option.some.inj hi
        exact absurd (hstands.kind.trans htail) hkind
      | succ i =>
        obtain ⟨hlength, last, hlast, hend⟩ := ih hrest hi
        refine ⟨Nat.succ_le_succ hlength, last, ?_, hend⟩
        rw [List.getLast?_cons, hlast]
        rfl

end Plan

/-- **A precise step names the slice of its segment without the escapes**, and a separator stands in the name exactly if
the slice escapes one.  A separator inside the braces of a segment makes the plan end there with a tail. -/
theorem plan_precise (hparse : Pattern.parse p = .ok tree) (hc : c.Reached) (o : Options) :
    ∃ steps, (plan c o p).1 = .ok steps ∧
      (∀ (i : Nat) (step : Selector), steps[i]? = some step → step.kind = .precise →
        ∃ s, (Plan.walked tree.segments)[i]? = some s ∧ wildcards (s.span.extract p) = false ∧
          unescape? (s.span.extract p) = some step.text ∧
          (Mark.slash ∈ step.text ↔ escapes Mark.slash (s.span.extract p) = true)) ∧
      ∀ (i : Nat) (s : Segment), (Plan.walked tree.segments)[i]? = some s → s.isLiteral = false →
        crossesSeparator s.nodes = true →
        steps.length ≤ i + 1 ∧ ∃ last, steps.getLast? = some last ∧ last.kind = .tail := by
  obtain ⟨steps, hsteps, hmade⟩ := plan_made (c := c) (o := o) hparse hc.faithful
  refine ⟨steps, hsteps, fun i step hi hkind => ?_, fun i s hi hliteral hcross => ?_⟩
  · obtain ⟨s, hs, hhead⟩ := hmade.getElem? hi
    obtain ⟨hliteral, hslice⟩ := hhead.precise_slice hkind
    rw [hhead.head.1.precise hkind]
    exact ⟨s, hs, hslice.literal hliteral⟩
  · exact hmade.ends_with_tail hi (Segment.stepKind_tail hliteral hcross)

/-- The pattern `a\/b/{c/,d}`: a precise step can only have the name `a/b`, and the plan ends with a tail. -/
theorem plan_precise_escaped :
    ∃ steps, (plan Cache.empty {} (Text.of "a\\/b/\x7bc/,d\x7d")).1 = .ok steps ∧
      (∀ (i : Nat) (step : Selector), steps[i]? = some step → step.kind = .precise → step.text = Text.of "a/b") ∧
      steps.length ≤ 2 ∧ ∃ last, steps.getLast? = some last ∧ last.kind = .tail := by
  let first : Segment := ⟨[.literal [0x61, 0x2F, 0x62] ⟨0, 4⟩], ⟨0, 4⟩⟩
  let second : Segment := ⟨[.alternation [[.literal [0x63, 0x2F] ⟨6, 8⟩], [.literal [0x64] ⟨9, 10⟩]] ⟨5, 11⟩], ⟨5, 11⟩⟩
  have hparse : Pattern.parse (Text.of "a\\/b/\x7bc/,d\x7d") =
      .ok ⟨Text.of "a\\/b/\x7bc/,d\x7d", [first, second]⟩ := rfl
  obtain ⟨steps, hsteps, hprecise, htail⟩ := plan_precise hparse .empty {}
  refine ⟨steps, hsteps, fun i step hi hkind => ?_, htail 1 second rfl rfl rfl⟩
  obtain ⟨s, hs, hwildcards, htext, -⟩ := hprecise i step hi hkind
  match i with
  | 0 =>
    obtain rfl := Option.some.inj hs
    exact (Option.some.inj htext).symm
  | 1 =>
    obtain rfl := Option.some.inj hs
    cases hwildcards
  | i + 2 => cases hs

/-- A precise step of the plan of `a\/b` names no single component. -/
theorem separator_named : ∃ step, (plan Cache.empty {} (Text.of "a\\/b")).1 = .ok [step] ∧ step.kind = .precise ∧
    Mark.slash ∈ step.text :=
  ⟨_, rfl, rfl, by decide⟩

end Glob
