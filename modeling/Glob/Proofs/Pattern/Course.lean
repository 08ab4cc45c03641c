import Glob.Proofs.Pattern.Acceptance
import Glob.Proofs.Pattern.ClassText
/-!
# The course of a parse

The equations of `resume` tell one by one what becomes of a pattern.  `Course` is a parse that succeeds as the run of
them: it is read one character, one escape, one class at a time, and every case says what the builder does with it.
What a tree has in common with its text is an induction over the course of its parse, with the builder's part in what
it has taken so far for the invariant (`parse_course`).
-/
namespace Glob

namespace Parser

open Reading (ClassText members behindNegation)
open Scanner (meaning)

/-- The character stands for itself: it has no meaning here, or it is a separator inside braces. -/
def Builder.IsText (b : Builder) (c : CodePoint) : Prop :=
  meaning b.braces.length c = .plain ∨ (c = Mark.slash ∧ b.braces ≠ [])

/-- The text is what is left of a pattern, from offset `k` on, the builder has taken what comes before it, and the parse
ends with the segments. -/
inductive Course : Nat → Builder → Text → List Segment → Prop
  | ends {k : Nat} {b : Builder} (hb : b.braces = []) : Course k b [] ((b.begun k).closeSegment k).reverse
  | text {k : Nat} {b : Builder} {c : CodePoint} {t : Text} {segments : List Segment} (hc : b.IsText c)
    (rest : Course (k + 1) (b.takeText [c] (Span.sized k 1)) t segments) : Course k b (c :: t) segments
  | escaped {k : Nat} {b : Builder} {c : CodePoint} {t : Text} {segments : List Segment}
    (rest : Course (k + 2) (b.takeText [c] (Span.sized k 2)) t segments) :
    Course k b (Mark.backslash :: c :: t) segments
  | star {k : Nat} {b : Builder} {t : Text} {segments : List Segment} (ht : t.head? ≠ some Mark.star)
    (rest : Course (k + 1) (b.takeNode (.star (Span.sized k 1))) t segments) : Course k b (Mark.star :: t) segments
  | stars {k : Nat} {b : Builder} {t : Text} {segments : List Segment} (rest : Course (k + 2) (b.takeStars k) t segments) :
    Course k b (Mark.star :: Mark.star :: t) segments
  | question {k : Nat} {b : Builder} {t : Text} {segments : List Segment}
    (rest : Course (k + 1) (b.takeNode (.anyChar (Span.sized k 1))) t segments) :
    Course k b (Mark.question :: t) segments
  | set {k : Nat} {b : Builder} {cl : OpenClass} {w t : Text} {segments : List Segment}
    (hopener : cl.opener = Span.sized k 1) (hw : ClassText w cl.negated cl.items.reverse)
    (rest : Course (k + w.length + 2) ((b.begun k).withClass cl (k + w.length + 2)) t segments) :
    Course k b (Mark.openBracket :: (w ++ Mark.closeBracket :: t)) segments
  | openBrace {k : Nat} {b : Builder} {t : Text} {segments : List Segment}
    (rest : Course (k + 1)
      { b.begun k with braces := ⟨Span.sized k 1, b.nodes, []⟩ :: b.braces, nodes := [] } t segments) :
    Course k b (Mark.openBrace :: t) segments
  | comma {k : Nat} {b : Builder} {brace : OpenBrace} {outer : List OpenBrace} {t : Text} {segments : List Segment}
    (hb : b.braces = brace :: outer)
    (rest : Course (k + 1)
      { b.begun k with
        braces := { brace with branches := b.nodes.reverse :: brace.branches } :: outer
        nodes := [] } t segments) : Course k b (Mark.comma :: t) segments
  | closeBrace {k : Nat} {b : Builder} {brace : OpenBrace} {outer : List OpenBrace} {t : Text}
    {segments : List Segment} (hb : b.braces = brace :: outer)
    (rest : Course (k + 1)
      { b.begun k with
        braces := outer
        nodes := .alternation (b.nodes.reverse :: brace.branches).reverse ⟨brace.opener.start, k + 1⟩ ::
          brace.before } t segments) : Course k b (Mark.closeBrace :: t) segments
  | separator {k : Nat} {b : Builder} {t : Text} {segments : List Segment} (hb : b.braces = [])
    (rest : Course (k + 1)
      { b with segments := (b.begun k).closeSegment k, segmentStart := none, nodes := [] } t segments) :
    Course k b (Mark.slash :: t) segments

variable {p t : Text} {k : Nat} {b : Builder} {segments : List Segment}

/-- The class of a parse that succeeds has an end, and the parse goes on behind it. -/
theorem class_ends (hp : k + (Mark.openBracket :: t).length = p.length) (hc : b.openClass = none)
    (h : resumeAt k b (Mark.openBracket :: t) = .ok (.ok segments)) :
    ∃ w t' cl, t = w ++ Mark.closeBracket :: t' ∧ cl.opener = Span.sized k 1 ∧
      ClassText w cl.negated cl.items.reverse ∧
      resumeAt (k + w.length + 2) ((b.begun k).withClass cl (k + w.length + 2)) t' = .ok (.ok segments) := by
  have hclass := resume_class hp hc h
  unfold ClassOutcome at hclass
  split at hclass
  · cases hclass
  · next hordered =>
    split at hclass
    · next hclosed =>
      obtain ⟨v, items, hv, hmembers⟩ := Reading.exists_membersText hclosed hordered
      obtain ⟨w, negated, ht, hw⟩ := Reading.exists_classText hv hmembers
      obtain ⟨cl, hopener, rfl, hitems, hrest⟩ := resume_classText (k := k) hw hc _
      obtain rfl : cl.items.reverse = items := by rw [hitems, List.reverse_reverse]
      rw [← ht] at hrest
      exact ⟨w, _, cl, ht, hopener, hw, hrest.symm.trans h⟩
    · cases hclass

/-- **A parse that succeeds has a course.** -/
theorem course_of_resume (hp : k + t.length = p.length) (hc : b.openClass = none)
    (h : resumeAt k b t = .ok (.ok segments)) : Course k b t segments := by
  -- on what is left: an escape takes two characters, a class any number of them
  induction hn : t.length using Nat.strong_induction_on generalizing t k b with
  | _ n ih =>
  subst hn
  cases t with
  | nil =>
    rw [resume_nil hc] at h
    cases hb : b.braces with
    | nil =>
      rw [hb] at h
      obtain rfl := Except.ok.inj (Except.ok.inj h)
      exact .ends hb
    | cons brace outer =>
      rw [hb] at h
      cases Except.ok.inj h
  | cons c t =>
    have hnext : k + 1 + t.length = p.length := by rw [← hp, List.length_cons]; omega
    have hlt : t.length < (c :: t).length := Nat.lt_succ_self _
    by_cases hplain : meaning b.braces.length c = .plain
    · rw [resume_plain hc hplain] at h
      exact .text (.inl hplain) (ih _ hlt hnext hc h rfl)
    · have hmark := meaning_cases hplain
      simp only [List.mem_cons, List.not_mem_nil, or_false] at hmark
      rcases hmark with rfl | rfl | rfl | rfl | rfl | rfl | rfl | rfl
      · cases t with
        | nil => cases h
        | cons c t =>
          rw [resume_escaped hc] at h
          rw [List.length_cons] at hnext
          exact .escaped (ih _ (Nat.lt_succ_of_lt (Nat.lt_succ_self _)) (by omega) hc h rfl)
      · by_cases htwo : t.head? = some Mark.star
        · obtain ⟨t, rfl⟩ : ∃ t', t = Mark.star :: t' := by
            cases t with
            | nil => cases htwo
            | cons c t => exact ⟨t, by rw [Option.some.inj htwo]⟩
          have hc' : (b.takeStars k).openClass = none := by
            unfold Builder.takeStars
            split <;> exact hc
          rw [resume_stars hc] at h
          rw [List.length_cons] at hnext
          exact .stars (ih _ (Nat.lt_succ_of_lt (Nat.lt_succ_self _)) (by omega) hc' h rfl)
        · rw [resume_star hc htwo] at h
          exact .star htwo (ih _ hlt hnext hc h rfl)
      · rw [resume_question hc] at h
        exact .question (ih _ hlt hnext hc h rfl)
      · obtain ⟨w, t, cl, rfl, hopener, hw, hrest⟩ := class_ends hp hc h
        rw [List.length_append, List.length_cons] at hnext
        refine .set hopener hw (ih _ ?_ (by omega) rfl hrest rfl)
        rw [List.length_cons, List.length_append, List.length_cons]
        omega
      · rw [resume_openBrace hc] at h
        exact .openBrace (ih _ hlt hnext hc h rfl)
      -- a comma or a closing brace has a meaning only where a brace is open
      · obtain ⟨brace, outer, hb⟩ := List.exists_cons_of_ne_nil fun hnone : b.braces = [] =>
          hplain (by rw [hnone]; rfl)
        rw [resume_comma hc hb] at h
        exact .comma hb (ih _ hlt hnext hc h rfl)
      · obtain ⟨brace, outer, hb⟩ := List.exists_cons_of_ne_nil fun hnone : b.braces = [] =>
          hplain (by rw [hnone]; rfl)
        rw [resume_closeBrace hc hb] at h
        exact .closeBrace hb (ih _ hlt hnext hc h rfl)
      · cases hb : b.braces with
        | nil =>
          rw [resume_separator hc hb] at h
          exact .separator hb (ih _ hlt hnext hc h rfl)
        | cons brace outer =>
          have hopen : b.braces ≠ [] := by rw [hb]; exact List.cons_ne_nil _ _
          rw [resume_innerSeparator hc hb] at h
          exact .text (.inr ⟨rfl, hopen⟩) (ih _ hlt hnext hc h rfl)

/-- A character that stands for itself is no mark outside classes and braces. -/
theorem Builder.IsText.not_mark {c : CodePoint} (h : b.IsText c) :
    c ∉ [Mark.backslash, Mark.star, Mark.question, Mark.openBracket, Mark.openBrace] := by
  intro hmem
  simp only [List.mem_cons, List.not_mem_nil, or_false] at hmem
  rcases h with hplain | ⟨rfl, _⟩
  · rcases hmem with rfl | rfl | rfl | rfl | rfl <;> cases hplain
  · revert hmem
    decide

theorem Builder.IsText.ne_backslash {c : CodePoint} (h : b.IsText c) : c ≠ Mark.backslash := fun heq =>
  h.not_mark (heq ▸ List.mem_cons_self)

end Parser

/-- **A tree comes of the course of its parse.** -/
theorem parse_course {p : Text} {tree : Pattern} (h : Pattern.parse p = .ok tree) :
    tree.source = p ∧ Parser.Course 0 (Parser.start p) p tree.segments := by
  rw [Parser.parse_eq_resume] at h
  cases hr : Parser.resume Scanner.start (Parser.start p) p with
  | error place =>
    rw [hr] at h
    cases h
  | ok r =>
    rw [hr] at h
    cases r with
    | error f => cases h
    | ok segments =>
      obtain rfl := Except.ok.inj h
      exact ⟨rfl, Parser.course_of_resume (p := p) (Nat.zero_add _) rfl hr⟩

end Glob
