import Glob.Proofs.Compiling
import Glob.Proofs.Pattern.ClassText
import Glob.Proofs.Session
import Glob.Proofs.Text.Pieces
/-!
# The text at fault

What is wrong with a pattern is found at a text in it: the bracket of a class, the brace of an alternation, the
backslash at the end, or a range that is turned around.  The span of the error is that text (`parse_error_spans`).

It is read off the outline: the positions in it are those of brackets and braces, and its ranges are spelled out in the
pattern (`Reading.outlineFrom_places`).
-/
namespace Glob

namespace Reading

variable {p t : Text} {braces : List Nat} {c : CodePoint} {first : Bool}

/-- The text stands at this offset of the pattern. -/
def StandsAt (p w : Text) (k : Nat) : Prop := ∃ before behind, p = before ++ (w ++ behind) ∧ before.length = k

theorem standsAt_offset {w u : Text} (h : w ++ u <:+ p) : StandsAt p w (offset p (w ++ u)) := by
  obtain ⟨before, rfl⟩ := h
  exact ⟨before, u, rfl, by rw [offset, List.length_append, Nat.add_sub_cancel]⟩

/-- The range is spelled out where its span says. -/
def Range.Spelled (p : Text) (r : Range) : Prop :=
  ∃ w k, RangeText w r.lo r.hi ∧ StandsAt p w k ∧ r.span = ⟨k, (k + w.length : Nat)⟩

theorem suffix_of_member? {t' : Text} (h : member? t = some (c, t')) : t' <:+ t := by
  obtain ⟨m, -, rfl⟩ := exists_memberText h
  exact List.suffix_append m t'

theorem suffix_of_rangeEnd? {t' : Text} (h : rangeEnd? t = some (c, t')) : t' <:+ t := by
  obtain ⟨m, -, -, rfl⟩ := exists_rangeEnd h
  exact (List.suffix_append m t').trans (List.suffix_cons _ _)

theorem members_suffix (p : Text) (first : Bool) (t : Text) : (members p first t).left <:+ t := by
  fun_induction members p first t with
  | case1 => exact List.tail_suffix _
  | case2 => exact List.suffix_rfl
  | case3 first t _ lo t' h h' ih => exact ih.trans (suffix_of_member? h)
  | case4 first t _ lo t' h hi t'' h' behind ih =>
    exact ih.trans ((suffix_of_rangeEnd? h').trans (suffix_of_member? h))

/-- The ranges of a class are spelled out in the pattern. -/
theorem members_spelled (h : t <:+ p) : ∀ r ∈ (members p first t).ranges, r.Spelled p := by
  fun_induction members p first t with
  | case1 => exact fun _ hr => absurd hr List.not_mem_nil
  | case2 => exact fun _ hr => absurd hr List.not_mem_nil
  | case3 first t _ lo t' hmember hrange ih => exact ih ((suffix_of_member? hmember).trans h)
  | case4 first t _ lo t' hmember hi t'' hrange behind ih =>
    refine List.forall_mem_cons.2 ⟨?_, ih (((suffix_of_rangeEnd? hrange).trans (suffix_of_member? hmember)).trans h)⟩
    obtain ⟨m, hm, rfl⟩ := exists_memberText hmember
    obtain ⟨m', hm', -, rfl⟩ := exists_rangeEnd hrange
    have hw : m ++ Mark.dash :: (m' ++ t'') = (m ++ Mark.dash :: m') ++ t'' := by simp
    rw [hw] at h ⊢
    refine ⟨_, _, ⟨m, m', hm, hm', rfl⟩, standsAt_offset h, ?_⟩
    obtain ⟨before, rfl⟩ := h
    simp only [offset, List.length_append]
    congr 1
    omega

/-- What an outline says is where it says. -/
structure Outline.Places (p : Text) (o : Outline) : Prop where
  openers : ∀ c ∈ o.classes, StandsAt p [Mark.openBracket] c.opener
  ranges : ∀ c ∈ o.classes, ∀ r ∈ c.ranges, r.Spelled p
  braces : ∀ k ∈ o.braces, StandsAt p [Mark.openBrace] k

/-- **All that the outline of a pattern mentions stands in the pattern.** -/
theorem outlineFrom_places (h : t <:+ p) (hbraces : ∀ k ∈ braces, StandsAt p [Mark.openBrace] k) :
    (outlineFrom p braces t).Places p := by
  fun_induction outlineFrom p braces t with
  | case1 => exact ⟨fun _ hc => absurd hc List.not_mem_nil, fun _ hc => absurd hc List.not_mem_nil, hbraces⟩
  | case2 braces t ih => exact ih ((List.tail_suffix t).trans ((List.suffix_cons _ t).trans h)) hbraces
  | case3 braces t inside behind ih =>
    have hinside : behindNegation t <:+ p := (behindNegation_suffix t).trans ((List.suffix_cons _ t).trans h)
    obtain ⟨hopeners, hranges, hb⟩ := ih ((members_suffix p true _).trans hinside) hbraces
    exact ⟨List.forall_mem_cons.2 ⟨standsAt_offset (w := [Mark.openBracket]) h, hopeners⟩,
      List.forall_mem_cons.2 ⟨members_spelled hinside, hranges⟩, hb⟩
  | case4 braces t ih =>
    exact ih ((List.suffix_cons _ t).trans h)
      (List.forall_mem_cons.2 ⟨standsAt_offset (w := [Mark.openBrace]) h, hbraces⟩)
  | case5 braces t ih =>
    exact ih ((List.suffix_cons _ t).trans h) fun k hk => hbraces k (List.mem_of_mem_tail hk)
  | case6 braces c t _ _ _ _ ih => exact ih ((List.suffix_cons _ t).trans h) hbraces

theorem outline_places (p : Text) : (outline p).Places p :=
  outlineFrom_places List.suffix_rfl fun _ hk => absurd hk List.not_mem_nil

theorem EndsEscaping.standsAt (h : EndsEscaping p) : StandsAt p [Mark.backslash] (p.length - 1) := by
  induction p using List.reverseRecOn with
  | nil => exact absurd h (by decide)
  | append_singleton p c =>
    obtain ⟨-, rfl⟩ := (Scanner.endsEscaping_concat p c).1 h
    exact ⟨p, [], by simp, by simp⟩

end Reading

/-! ## Errors -/

open Reading (RangeText StandsAt outline)

/-- The text that is at fault, by the kind of the error; it ends where the span of a range does. -/
def GlobError.AtFault (e : GlobError) (p w : Text) : Prop :=
  match e.kind with
  | .unterminatedEscape => w = [Mark.backslash]
  | .unclosedClass => w = [Mark.openBracket]
  | .unclosedAlternation => w = [Mark.openBrace]
  | .invalidRange =>
    ∃ lo hi, hi < lo ∧ RangeText w lo hi ∧ w = e.span.extract p ∧
      (outline p).bad?.bind Reading.ClassReading.inverted? = some ⟨lo, hi, e.span⟩
  | .engineRejected => False

variable {p w : Text} {k : Nat} {e : GlobError}

theorem Reading.StandsAt.extract (h : StandsAt p w k) : Span.extract ⟨k, (k + w.length : Nat)⟩ p = w := by
  obtain ⟨before, behind, rfl, rfl⟩ := h
  exact Span.extract_of_drop List.drop_left

/-- **The span of an error is the text at fault**; that of a backslash with nothing behind it is empty. -/
theorem parse_error_spans (h : Pattern.parse p = .error (.rejected e)) :
    e.pattern = some p ∧ ∃ w k, e.AtFault p w ∧ StandsAt p w k ∧
      e.span = ⟨k, (k + if e.kind = .unterminatedEscape then 0 else w.length : Nat)⟩ := by
  by_cases hend : Reading.EndsEscaping p
  · rw [parse_endsEscaping hend] at h
    cases h
    exact ⟨rfl, _, _, rfl, hend.standsAt, rfl⟩
  have hparse := parse_unescaped hend
  have hplaces := Reading.outline_places p
  cases hbad : (outline p).bad? with
  | some bad =>
    have hmem := List.mem_of_find?_eq_some hbad
    rw [hbad] at hparse
    cases hinverted : bad.inverted? with
    | some range =>
      simp only [hinverted] at hparse
      rw [hparse] at h
      cases h
      have hrange := List.mem_of_find?_eq_some hinverted
      have hturned : range.hi < range.lo :=
        of_decide_eq_true (List.find?_some (p := fun r : Reading.Range => decide r.Inverted) hinverted)
      obtain ⟨w, k, hw, hstands, hspan⟩ := hplaces.ranges bad hmem range hrange
      refine ⟨rfl, w, k, ⟨range.lo, range.hi, hturned, hw, ?_, ?_⟩, hstands, hspan⟩
      · exact (hspan ▸ hstands.extract).symm
      · rw [hbad, Option.bind_some, hinverted]
    | none =>
      simp only [hinverted] at hparse
      rw [hparse] at h
      cases h
      exact ⟨rfl, _, _, rfl, hplaces.openers bad hmem, rfl⟩
  | none =>
    rw [hbad] at hparse
    cases hbraces : (outline p).braces with
    | cons brace outer =>
      simp only [hbraces] at hparse
      rw [hparse] at h
      cases h
      exact ⟨rfl, _, _, rfl, hplaces.braces brace (hbraces ▸ List.mem_cons_self), rfl⟩
    | nil =>
      simp only [hbraces] at hparse
      obtain ⟨tree, htree⟩ := hparse
      rw [htree] at h
      cases h

/-- **An error is where the text at fault begins.** -/
theorem parse_error_places (h : Pattern.parse p = .error (.rejected e)) :
    e.pattern = some p ∧ ∃ w k, e.AtFault p w ∧ StandsAt p w k ∧ e.span.start = k := by
  obtain ⟨hpattern, w, k, hfault, hstands, hspan⟩ := parse_error_spans h
  exact ⟨hpattern, w, k, hfault, hstands, congrArg Span.start hspan⟩

/-- Compiling a pattern in any form through the cache gives what its text is compiled to. -/
theorem compileLike_faithful {c : Cache} (hc : c.Faithful) (o : Options) {pattern : PathLike}
    (hp : pattern.decode = .ok p) : (c.compileLike o pattern).1 = (Matcher.ofPattern? o p).mapError .pattern := by
  rw [← (Cache.compile_faithful hc o p).2]
  simp only [Cache.compileLike, hp]
  rcases c.compile o p with ⟨_ | _, c'⟩ <;> rfl

theorem ofPattern?_error {o : Options} {f : ParseFailure} (h : Matcher.ofPattern? o p = .error f) :
    ∃ e, f = .rejected e ∧ Pattern.parse p = .error (.rejected e) := by
  rcases parse_ok_or_rejected p with ⟨tree, htree⟩ | ⟨e, he, -⟩
  · rw [ofPattern?_of_parse htree] at h
    cases h
  · rw [Matcher.ofPattern?, he] at h
    exact ⟨e, (Except.error.inj h).symm, he⟩

/-- Compiling a pattern that has a text fails only by what is wrong with that text, whatever the cache has. -/
theorem compileLike_error {c : Cache} (hc : c.Reached) {o : Options} {pattern : PathLike} {q : QueryFailure}
    (hp : pattern.decode = .ok p) (h : (c.compileLike o pattern).1 = .error q) :
    ∃ e, q = .pattern (.rejected e) ∧ Pattern.parse p = .error (.rejected e) := by
  rw [compileLike_faithful hc.faithful o hp] at h
  cases hm : Matcher.ofPattern? o p with
  | ok m =>
    rw [hm] at h
    cases h
  | error f =>
    rw [hm] at h
    obtain ⟨e, rfl, he⟩ := ofPattern?_error hm
    exact ⟨e, (Except.error.inj h).symm, he⟩

end Glob
