import Glob.Proofs.Pattern.Built
import Glob.Proofs.Token.Escapes
/-!
# Which patterns are accepted

`parse_outcome` decides the outcome of `Pattern.parse` by the outline of the pattern: an escape at its end, the leftmost
bad class, or the innermost open brace is reported, in this order of precedence, and a pattern without any of them has
a well-formed tree.
-/
namespace Glob

namespace Parser

open Reading (Outline outlineFrom members behindNegation)
open Scanner (Meaning meaning)

/-- What becomes of a pattern whose last backslash has something to escape. -/
def PatternOutcome (p : Text) (outline : Outline) (r : Except ParseFailure (List Segment)) : Prop :=
  match outline.bad? with
  | some bad =>
    match bad.inverted? with
    | some range => r = .error (invalidRange p range.lo range.hi range.span)
    | none => r = .error (unclosedClass p (Span.sized bad.opener 1))
  | none =>
    match outline.braces with
    | brace :: _ => r = .error (unclosedAlternation p (Span.sized brace 1))
    | [] => ∃ segments, r = .ok segments ∧ Pattern.WellFormed ⟨p, segments⟩

variable {p t : Text} {k : Nat} {b : Builder} {braces : List Nat} {c : CodePoint}
  {r : Except ParseFailure (List Segment)}

theorem outlineFrom_other (h : c ∉ [Mark.backslash, Mark.openBracket, Mark.openBrace, Mark.closeBrace]) :
    outlineFrom p braces (c :: t) = outlineFrom p braces t := by
  simp only [List.mem_cons, List.not_mem_nil, or_false, not_or] at h
  rw [outlineFrom]
  · exact h.1
  · exact h.2.1
  · exact h.2.2.1
  · exact h.2.2.2

/-- A plain character is not seen in the outline; a closing brace is one where no brace is open. -/
theorem outlineFrom_plain (hs : b.Sound p braces) (h : meaning b.braces.length c = .plain) :
    outlineFrom p braces (c :: t) = outlineFrom p braces t := by
  by_cases hclose : c = Mark.closeBrace
  · subst hclose
    have hnone : b.braces = [] := by
      cases hb : b.braces with
      | nil => rfl
      | cons brace outer =>
        rw [hb] at h
        cases h
    have hbraces : braces = [] := by
      have hopeners := hs.openers
      rw [hnone] at hopeners
      exact List.map_eq_nil_iff.1 hopeners.symm
    rw [outlineFrom, hbraces]
    rfl
  · refine outlineFrom_other fun hmem => ?_
    simp only [List.mem_cons, List.not_mem_nil, or_false, hclose] at hmem
    rcases hmem with rfl | rfl | rfl <;> cases h

theorem meaning_cases {d : Nat} (h : meaning d c ≠ .plain) :
    c ∈ [Mark.backslash, Mark.star, Mark.question, Mark.openBracket, Mark.openBrace, Mark.comma, Mark.closeBrace,
      Mark.slash] := by
  unfold meaning at h
  split at h <;> simp_all

/-- The class decides, or what comes behind it does. -/
theorem patternOutcome_class {read : Reading.Members} {behind : Outline} (hsource : b.source = p)
    (h : ClassOutcome p b (Span.sized k 1) read r)
    (hbehind : ∀ k' cl, k' + read.left.length = p.length → cl.Sound false →
      resumeAt k' (b.withClass cl k') read.left = .ok r → PatternOutcome p behind r) :
    PatternOutcome p { behind with classes := ⟨k, read.ranges, read.closed⟩ :: behind.classes } r := by
  subst hsource
  let here : Reading.ClassReading := ⟨k, read.ranges, read.closed⟩
  have hbad : here.Bad → (here :: behind.classes).find? (·.Bad) = some here :=
    fun hbad => List.find?_cons_of_pos (decide_eq_true hbad)
  have hgood : ¬ here.Bad → (here :: behind.classes).find? (·.Bad) = behind.classes.find? (·.Bad) :=
    fun hgood => List.find?_cons_of_neg fun hd => hgood (of_decide_eq_true hd)
  unfold ClassOutcome at h
  unfold PatternOutcome Outline.bad?
  cases hfind : read.ranges.find? (·.Inverted) with
  | some range =>
    have hinverted : here.inverted? = some range := hfind
    rw [hfind] at h
    rw [hbad (.inl (by rw [hinverted]; rfl))]
    simp only [hinverted]
    exact h
  | none =>
    have hinverted : here.inverted? = none := hfind
    simp only [hfind] at h
    by_cases hclosed : read.closed = true
    · have hfine : ¬ here.Bad := by
        rintro (hsome | hopen)
        · rw [hinverted] at hsome
          cases hsome
        · exact Bool.noConfusion (hclosed.symm.trans hopen)
      rw [hgood hfine]
      rw [if_pos hclosed] at h
      obtain ⟨k', cl, hk', _, hcl, hresume⟩ := h
      exact hbehind k' cl hk' hcl hresume
    · rw [hbad (.inr (Bool.eq_false_iff.2 hclosed))]
      rw [if_neg hclosed] at h
      simp only [hinverted]
      exact h

/-- **What is left of a pattern decides its outcome through its outline.** -/
theorem resume_outline (hp : k + t.length = p.length) (hs : b.Sound p braces) (hr : resumeAt k b t = .ok r) :
    PatternOutcome p (outlineFrom p braces t) r := by
  -- on what is left: an escape takes two characters, a class any number of them
  induction hn : t.length using Nat.strong_induction_on generalizing t k b braces with
  | _ n ih =>
  subst hn
  cases t with
  | nil =>
    rw [resume_nil hs.outside] at hr
    have hopeners := hs.openers
    rw [outlineFrom, ← Except.ok.inj hr]
    cases braces with
    | nil =>
      have hnone : b.braces = [] := List.map_eq_nil_iff.1 hopeners
      rw [hnone]
      exact ⟨_, rfl, (hs.begun k).wellFormed hnone k⟩
    | cons brace outer =>
      obtain ⟨opened, _, hb, hopener, _⟩ := List.map_eq_cons_iff.1 hopeners
      rw [hb, hs.source]
      show Except.error (unclosedAlternation p opened.opener) = _
      rw [hopener]
  | cons c t =>
    have hnext : k + 1 + t.length = p.length := by rw [← hp, List.length_cons]; omega
    have hlt : t.length < (c :: t).length := Nat.lt_succ_self _
    by_cases hplain : meaning b.braces.length c = .plain
    · rw [resume_plain hs.outside hplain] at hr
      rw [outlineFrom_plain hs hplain]
      exact ih _ hlt hnext (hs.takeText _ _) hr rfl
    · have hc := meaning_cases hplain
      simp only [List.mem_cons, List.not_mem_nil, or_false] at hc
      rcases hc with rfl | rfl | rfl | rfl | rfl | rfl | rfl | rfl
      -- a backslash, which does not end the pattern, or it would not be scanned
      · cases t with
        | nil => cases hr
        | cons c t =>
          rw [resume_escaped hs.outside] at hr
          rw [outlineFrom, List.tail_cons]
          rw [List.length_cons] at hnext
          exact ih _ (Nat.lt_succ_of_lt (Nat.lt_succ_self _)) (by omega) (hs.takeText _ _) hr rfl
      -- a star, with or without a second one
      · rw [outlineFrom_other (by decide)]
        by_cases htwo : t.head? = some Mark.star
        · obtain ⟨t, rfl⟩ : ∃ t', t = Mark.star :: t' := by
            cases t with
            | nil => cases htwo
            | cons c t => exact ⟨t, by rw [Option.some.inj htwo]⟩
          rw [resume_stars hs.outside] at hr
          rw [outlineFrom_other (by decide)]
          rw [List.length_cons] at hnext
          exact ih _ (Nat.lt_succ_of_lt (Nat.lt_succ_self _)) (by omega) (hs.takeStars k) hr rfl
        · rw [resume_star hs.outside htwo] at hr
          exact ih _ hlt hnext (hs.takeNode (n := .star _) trivial) hr rfl
      · rw [resume_question hs.outside] at hr
        rw [outlineFrom_other (by decide)]
        exact ih _ hlt hnext (hs.takeNode (n := .anyChar _) trivial) hr rfl
      -- a class: what is behind its members is shorter than what is behind its bracket
      · have hclass := resume_class hp hs.outside hr
        rw [outlineFrom, offset_eq hp]
        refine patternOutcome_class (hs.begun k).source hclass fun k' cl hk' hcl hleft => ?_
        have hshorter : (members p true (behindNegation t)).left.length ≤ t.length :=
          Nat.le_trans (Reading.members_length _ _ _) (Reading.behindNegation_length _)
        exact ih _ (Nat.lt_succ_of_le hshorter) hk' ((hs.begun k).withClass hcl k') hleft rfl
      · rw [resume_openBrace hs.outside] at hr
        rw [outlineFrom, offset_eq hp]
        exact ih _ hlt hnext (hs.openBrace k) hr rfl
      -- a comma or a closing brace has a meaning only where a brace is open
      · rw [outlineFrom_other (by decide)]
        obtain ⟨brace, outer, hb⟩ := List.exists_cons_of_ne_nil fun hnone : b.braces = [] =>
          hplain (by rw [hnone]; rfl)
        rw [resume_comma hs.outside hb] at hr
        exact ih _ hlt hnext (hs.comma hb k) hr rfl
      · rw [outlineFrom]
        obtain ⟨brace, outer, hb⟩ := List.exists_cons_of_ne_nil fun hnone : b.braces = [] =>
          hplain (by rw [hnone]; rfl)
        rw [resume_closeBrace hs.outside hb] at hr
        exact ih _ hlt hnext (hs.closeBrace hb k _) hr rfl
      -- a separator ends the segment unless a brace is open
      · rw [outlineFrom_other (by decide)]
        cases hb : b.braces with
        | nil =>
          rw [resume_separator hs.outside hb] at hr
          exact ih _ hlt hnext (hs.separator hb k) hr rfl
        | cons brace outer =>
          rw [resume_innerSeparator hs.outside hb] at hr
          exact ih _ hlt hnext (hs.takeText _ _) hr rfl

/-! ## From the start -/

theorem resume_start_error {place : Nat} (h : (Scanner.start.run p).2.escaping = some place) :
    resume Scanner.start (start p) p = .error place := by
  simp only [resume, rest, Scanner.pending_eq_error h]
  rfl

theorem resume_start_ok (h : (Scanner.start.run p).2.escaping = none) :
    ∃ r, resume Scanner.start (start p) p = .ok r := by
  obtain ⟨tokens, htokens⟩ := Scanner.pending_eq_ok h
  simp only [resume, rest, htokens]
  exact ⟨_, rfl⟩

end Parser

open Reading (EndsEscaping outline)

theorem parse_endsEscaping {p : Text} (h : EndsEscaping p) :
    Pattern.parse p = .error (.rejected (Scanner.unterminatedEscape p (p.length - 1))) := by
  rw [Parser.parse_eq_resume, Parser.resume_start_error ((Scanner.escaping_run p).1 h)]

theorem parse_outcome {p : Text} (h : ¬ EndsEscaping p) :
    ∃ r, Parser.PatternOutcome p (outline p) r ∧ Pattern.parse p = (Pattern.mk p ·) <$> r := by
  obtain ⟨r, hr⟩ := Parser.resume_start_ok ((Scanner.escaping_run p).2 h)
  refine ⟨r, Parser.resume_outline (Nat.zero_add _) (.start p) hr, ?_⟩
  rw [Parser.parse_eq_resume, hr]

/-- **The tree of a pattern text is well-formed.** -/
theorem parse_wellFormed {p : Text} {tree : Pattern} (h : Pattern.parse p = .ok tree) : tree.WellFormed := by
  by_cases hp : EndsEscaping p
  · rw [parse_endsEscaping hp] at h
    cases h
  · obtain ⟨r, houtcome, hparse⟩ := parse_outcome hp
    rw [hparse] at h
    cases r with
    | error f => cases h
    | ok segments =>
      obtain rfl : Pattern.mk p segments = tree := Except.ok.inj h
      unfold Parser.PatternOutcome at houtcome
      split at houtcome
      · split at houtcome <;> cases houtcome
      · split at houtcome
        · cases houtcome
        · obtain ⟨_, hsegments, hwf⟩ := houtcome
          obtain rfl := Except.ok.inj hsegments
          exact hwf

/-- What the parse of a pattern gives if its last backslash has something to escape. -/
theorem parse_unescaped {p : Text} (h : ¬ EndsEscaping p) :
    match (outline p).bad? with
    | some bad =>
      match bad.inverted? with
      | some range => Pattern.parse p = .error (Parser.invalidRange p range.lo range.hi range.span)
      | none => Pattern.parse p = .error (Parser.unclosedClass p (Span.sized bad.opener 1))
    | none =>
      match (outline p).braces with
      | brace :: _ => Pattern.parse p = .error (Parser.unclosedAlternation p (Span.sized brace 1))
      | [] => ∃ tree, Pattern.parse p = .ok tree := by
  obtain ⟨r, houtcome, hparse⟩ := parse_outcome h
  rw [hparse]
  unfold Parser.PatternOutcome at houtcome
  split at houtcome
  · split at houtcome
    · rw [houtcome]
      rfl
    · rw [houtcome]
      rfl
  · split at houtcome
    · rw [houtcome]
      rfl
    · obtain ⟨segments, rfl, _⟩ := houtcome
      exact ⟨_, rfl⟩

theorem parse_error_scanning {p : Text} {e : GlobError} (h : Pattern.parse p = .error (.rejected e))
    (hkind : e.kind = .unterminatedEscape) : EndsEscaping p := by
  refine Decidable.byContradiction fun hp => ?_
  have hparse := parse_unescaped hp
  split at hparse
  · split at hparse
    all_goals
      rw [hparse] at h
      cases h
      cases hkind
  · split at hparse
    · rw [hparse] at h
      cases h
      cases hkind
    · obtain ⟨tree, htree⟩ := hparse
      rw [htree] at h
      cases h

/-- **What is wrong with a pattern, if anything is.**  An escape at its end is reported in any case; then the leftmost
bad class, for its first inverted range if it has one and for its opening bracket otherwise; then the innermost brace
that stays open.  A pattern without any of these has a tree. -/
theorem parse_reports (p : Text) :
    ((∃ e, Pattern.parse p = .error (.rejected e) ∧ e.kind = .unterminatedEscape) ↔ EndsEscaping p) ∧
    (EndsEscaping p → Pattern.parse p = .error (.rejected (Scanner.unterminatedEscape p (p.length - 1)))) ∧
    (¬ EndsEscaping p →
      match (outline p).bad? with
      | some bad =>
        match bad.inverted? with
        | some range => Pattern.parse p = .error (Parser.invalidRange p range.lo range.hi range.span)
        | none => Pattern.parse p = .error (Parser.unclosedClass p (Span.sized bad.opener 1))
      | none =>
        match (outline p).braces with
        | brace :: _ => Pattern.parse p = .error (Parser.unclosedAlternation p (Span.sized brace 1))
        | [] => ∃ tree, Pattern.parse p = .ok tree) := by
  refine ⟨⟨?_, fun hp => ⟨_, parse_endsEscaping hp, rfl⟩⟩, parse_endsEscaping, parse_unescaped⟩
  rintro ⟨e, h, hkind⟩
  exact parse_error_scanning h hkind

end Glob
