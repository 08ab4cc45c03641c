import Glob.Proofs.Pattern.Classes
/-!
# The text of a class

What stands between the brackets of a class is read as the same members wherever the class stands.  `MembersText` tells
this text apart from what comes behind it: members and ranges one after the other, of which a raw `]` can only be the
first.  `exists_membersText` finds it in a pattern where `Reading.members` finds the class closed, and `resume_classText`
says what becomes of it at any place: a node of these members.
-/
namespace Glob

namespace Reading

/-- The text of one member: a character, behind a backslash or not. -/
inductive MemberText : Text → CodePoint → Prop
  | raw {c : CodePoint} (hslash : c ≠ Mark.slash) (hback : c ≠ Mark.backslash) : MemberText [c] c
  | escaped (c : CodePoint) : MemberText [Mark.backslash, c] c

/-- The text of a range: two characters with a dash between them, each behind a backslash or not. -/
def RangeText (w : Text) (lo hi : CodePoint) : Prop :=
  ∃ m m', MemberText m lo ∧ MemberText m' hi ∧ w = m ++ Mark.dash :: m'

/-- The text of members up to the end of a class, and what they are; `first` if no other member comes before them. -/
inductive MembersText : Bool → Text → List (CodePoint × CodePoint) → Prop
  | nil : MembersText false [] []
  | single {first : Bool} {m w : Text} {c : CodePoint} {items : List (CodePoint × CodePoint)} (hm : MemberText m c)
    (hfirst : first = true ∨ m ≠ [Mark.closeBracket]) (hend : rangeEnd? (w ++ [Mark.closeBracket]) = none)
    (rest : MembersText false w items) : MembersText first (m ++ w) ((c, c) :: items)
  | range {first : Bool} {m m' w : Text} {lo hi : CodePoint} {items : List (CodePoint × CodePoint)}
    (hm : MemberText m lo) (hfirst : first = true ∨ m ≠ [Mark.closeBracket]) (hm' : MemberText m' hi)
    (hraw : m' ≠ [Mark.closeBracket]) (hle : lo ≤ hi) (rest : MembersText false w items) :
    MembersText first (m ++ Mark.dash :: (m' ++ w)) ((lo, hi) :: items)

/-- The text between the brackets of a class. -/
structure ClassText (w : Text) (negated : Bool) (items : List (CodePoint × CodePoint)) : Prop where
  members : MembersText true (behindNegation w) items
  negated : negated = true ↔ behindNegation w ≠ w

variable {m t t' u w : Text} {c lo hi : CodePoint} {first negated : Bool} {items : List (CodePoint × CodePoint)}

/-! ## One member -/

theorem MemberText.ne_nil (h : MemberText m c) : m ≠ [] := by
  cases h <;> exact List.cons_ne_nil _ _

theorem RangeText.ne_nil {lo hi : CodePoint} (h : RangeText w lo hi) : w ≠ [] := by
  obtain ⟨m, m', hm, -, rfl⟩ := h
  exact List.append_ne_nil_of_left_ne_nil hm.ne_nil _

theorem MemberText.member?_append (h : MemberText m c) (t : Text) : member? (m ++ t) = some (c, t) := by
  cases h with
  | escaped => rfl
  | raw hslash hback =>
    show member? (c :: t) = _
    unfold member?
    split
    · next heq => cases heq
    · next heq => exact absurd (List.cons.inj heq).1 hslash
    · next heq => exact absurd (List.cons.inj heq).1 hback
    · next heq => exact absurd (List.cons.inj heq).1 hback
    · next heq =>
      obtain ⟨rfl, rfl⟩ := List.cons.inj heq
      rfl

theorem MemberText.may_begin (h : MemberText m c) (hfirst : first = true ∨ m ≠ [Mark.closeBracket]) (t : Text) :
    first = true ∨ (m ++ t).head? ≠ some Mark.closeBracket := by
  refine hfirst.imp_right fun hraw hhead => ?_
  cases h with
  | raw =>
    obtain rfl := Option.some.inj hhead
    exact hraw rfl
  | escaped => exact absurd (Option.some.inj hhead) (by decide)

theorem exists_memberText (h : member? t = some (c, t')) : ∃ m, MemberText m c ∧ t = m ++ t' := by
  unfold member? at h
  split at h
  · cases h
  · cases h
  · cases h
  · cases h
    exact ⟨_, .escaped c, rfl⟩
  · next hslash hend hback =>
    cases h
    refine ⟨[c], .raw hslash ?_, rfl⟩
    rintro rfl
    cases t' with
    | nil => exact hend rfl rfl
    | cons => exact hback _ _ rfl rfl

theorem MemberText.rangeEnd?_append (h : MemberText m c) (hraw : m ≠ [Mark.closeBracket]) (t : Text) :
    rangeEnd? (Mark.dash :: (m ++ t)) = some (c, t) := by
  rw [rangeEnd?]
  · exact h.member?_append t
  · intro t' heq
    cases h with
    | raw =>
      obtain rfl := (List.cons.inj heq).1
      exact hraw rfl
    | escaped => exact absurd (List.cons.inj heq).1 (by decide)

theorem exists_rangeEnd (h : rangeEnd? t = some (c, t')) :
    ∃ m, MemberText m c ∧ m ≠ [Mark.closeBracket] ∧ t = Mark.dash :: (m ++ t') := by
  unfold rangeEnd? at h
  split at h
  · cases h
  · next t hclose =>
    obtain ⟨m, hm, rfl⟩ := exists_memberText h
    refine ⟨m, hm, ?_, rfl⟩
    rintro rfl
    exact hclose _ rfl
  · cases h

/-- Whether a range begins is decided before the closing bracket. -/
theorem rangeEnd?_closed :
    rangeEnd? (w ++ Mark.closeBracket :: t) = none ↔ rangeEnd? (w ++ [Mark.closeBracket]) = none := by
  match w with
  | [] => exact iff_of_true rfl rfl
  | c :: w =>
    by_cases hdash : c = Mark.dash
    · subst hdash
      match w with
      | [] => exact iff_of_true rfl rfl
      | d :: w =>
        by_cases hclose : d = Mark.closeBracket
        · subst hclose
          exact iff_of_true rfl rfl
        by_cases hback : d = Mark.backslash
        · subst hback
          cases w <;> exact iff_of_false nofun nofun
        by_cases hslash : d = Mark.slash
        · subst hslash
          exact iff_of_true rfl rfl
        · have hrange : ∀ t : Text, rangeEnd? (Mark.dash :: d :: t) ≠ none := fun t h =>
            absurd (((MemberText.raw hslash hback).rangeEnd?_append (by simpa using hclose) t).symm.trans h) nofun
          exact iff_of_false (hrange _) (hrange _)
    · have hnone : ∀ t : Text, rangeEnd? (c :: t) = none := fun t => by
        unfold rangeEnd?
        split
        · next heq => exact absurd (List.cons.inj heq).1 hdash
        · next heq => exact absurd (List.cons.inj heq).1 hdash
        · rfl
      exact iff_of_true (hnone _) (hnone _)

/-! ## All members -/

theorem MembersText.ne_nil (h : MembersText true w items) : w ≠ [] ∧ items ≠ [] := by
  cases h with
  | single hm => exact ⟨List.append_ne_nil_of_left_ne_nil hm.ne_nil _, List.cons_ne_nil _ _⟩
  | range hm => exact ⟨List.append_ne_nil_of_left_ne_nil hm.ne_nil _, List.cons_ne_nil _ _⟩

theorem MembersText.ordered (h : MembersText first w items) : ∀ item ∈ items, item.1 ≤ item.2 := by
  induction h with
  | nil => exact fun _ hitem => absurd hitem List.not_mem_nil
  | single _ _ _ _ ih => exact List.forall_mem_cons.2 ⟨Nat.le_refl _, ih⟩
  | range _ _ _ _ hle _ ih => exact List.forall_mem_cons.2 ⟨hle, ih⟩

theorem raw_of_head (h : first = true ∨ t.head? ≠ some Mark.closeBracket) (ht : t = m ++ t') :
    first = true ∨ m ≠ [Mark.closeBracket] := by
  refine h.imp_right fun hhead hm => hhead ?_
  rw [ht, hm]
  rfl

/-- **A class that is closed, with no range turned around, has its members in front of the closing bracket.** -/
theorem exists_membersText {p : Text} (hclosed : (members p first t).closed = true)
    (hordered : (members p first t).ranges.find? (·.Inverted) = none) :
    ∃ w items, t = w ++ Mark.closeBracket :: (members p first t).left ∧ MembersText first w items := by
  fun_induction members p first t with
  | case1 first t hclose =>
    obtain ⟨rfl, hhead⟩ := hclose
    cases t with
    | nil => cases hhead
    | cons c t =>
      obtain rfl := Option.some.inj hhead
      exact ⟨[], [], rfl, .nil⟩
  | case2 => cases hclosed
  | case3 first t hclose lo t' hmember hrange ih =>
    obtain ⟨w, items, ht', hw⟩ := ih hclosed hordered
    obtain ⟨m, hm, ht⟩ := exists_memberText hmember
    have hfirst := raw_of_head (Parser.may_begin hclose) ht
    rw [ht', rangeEnd?_closed] at hrange
    exact ⟨m ++ w, _, by rw [List.append_assoc, ← ht', ht], .single hm hfirst hrange hw⟩
  | case4 first t hclose lo t' hmember hi t'' hrange behind ih =>
    have hnone := List.find?_eq_none.1 hordered
    have hle : lo ≤ hi := Nat.le_of_not_lt fun hlt => hnone _ List.mem_cons_self (decide_eq_true hlt)
    have hbehind : behind.ranges.find? (·.Inverted) = none :=
      List.find?_eq_none.2 fun range hrange => hnone range (List.mem_cons_of_mem _ hrange)
    obtain ⟨w, items, ht'', hw⟩ := ih hclosed hbehind
    obtain ⟨m, hm, ht⟩ := exists_memberText hmember
    obtain ⟨m', hm', hraw, ht'⟩ := exists_rangeEnd hrange
    have hfirst := raw_of_head (Parser.may_begin hclose) ht
    refine ⟨m ++ Mark.dash :: (m' ++ w), _, ?_, .range hm hfirst hm' hraw hle hw⟩
    rw [List.append_assoc, List.cons_append, List.append_assoc, ← ht'', ← ht', ht]

/-! ## Negation -/

theorem behindNegation_append (h : w ≠ []) (t : Text) : behindNegation (w ++ t) = behindNegation w ++ t := by
  obtain ⟨c, w, rfl⟩ := List.exists_cons_of_ne_nil h
  show behindNegation (c :: (w ++ t)) = _
  by_cases hmark : c = Mark.exclamation ∨ c = Mark.caret
  · rcases hmark with rfl | rfl <;> rfl
  · have hplain : ∀ t, behindNegation (c :: t) = c :: t := fun t => by
      unfold behindNegation
      split
      · next heq => exact absurd (.inl (List.cons.inj heq).1) hmark
      · next heq => exact absurd (.inr (List.cons.inj heq).1) hmark
      · rfl
    rw [hplain, hplain]
    rfl

theorem ClassText.ne_nil (h : ClassText w negated items) : w ≠ [] := by
  rintro rfl
  exact h.members.ne_nil.1 rfl

/-- The text of a class that has its members in front of the closing bracket. -/
theorem exists_classText (h : behindNegation t = w ++ Mark.closeBracket :: t') (hw : MembersText true w items) :
    ∃ w' negated, t = w' ++ Mark.closeBracket :: t' ∧ ClassText w' negated items := by
  obtain ⟨mark, ht⟩ := behindNegation_suffix t
  rw [h, ← List.append_assoc] at ht
  have hne : mark ++ w ≠ [] := List.append_ne_nil_of_right_ne_nil _ hw.ne_nil.1
  have hbehind : behindNegation (mark ++ w) = w := by
    rw [← ht, behindNegation_append hne] at h
    exact List.append_cancel_right h
  exact ⟨mark ++ w, decide (behindNegation (mark ++ w) ≠ mark ++ w), ht.symm, by rwa [hbehind], decide_eq_true_iff⟩

end Reading

namespace Parser

open Reading (MembersText ClassText behindNegation)

variable {k : Nat} {b : Builder} {cl : OpenClass} {w : Text} {items : List (CodePoint × CodePoint)}
  {first negated : Bool}

/-- **Members are read one after the other, whatever comes behind their class.** -/
theorem resume_membersText (h : MembersText first w items) (hc : b.openClass = some cl) (t : Text) :
    ∃ k' cl', k' = k + w.length + 1 ∧ cl'.opener = cl.opener ∧ cl'.negated = cl.negated ∧
      cl'.items = items.reverse ++ cl.items ∧
      resume ⟨k, b.braces.length, between first⟩ b (w ++ Mark.closeBracket :: t) = resumeAt k' (b.withClass cl' k') t := by
  induction h generalizing k b cl with
  | nil => exact ⟨k + 1, cl, rfl, rfl, rfl, rfl, resume_closed hc⟩
  | @single first m w c items hm hfirst hend rest ih =>
    obtain ⟨k₁, member, hk₁, rfl, -, hbegun⟩ :=
      resume_memberBegun (k := k) (d := b.braces.length) (b := b) (hm.may_begin hfirst _) (hm.member?_append _)
    obtain ⟨k', cl', hk', hopener, hneg, hitems, hrest⟩ := @ih k₁ _ _ (withItem_openClass hc (member.char, member.char))
    refine ⟨k', cl', ?_, hopener, hneg, ?_, ?_⟩
    · simp only [List.length_append] at hk₁ ⊢
      omega
    · rw [hitems, List.reverse_cons, List.append_assoc]
      rfl
    · rw [List.append_assoc, hbegun, resume_member hc (Reading.rangeEnd?_closed.2 hend)]
      exact hrest
  | @range first m m' w lo hi items hm hfirst hm' hraw hle rest ih =>
    obtain ⟨k₁, member, hk₁, rfl, -, hbegun⟩ :=
      resume_memberBegun (k := k) (d := b.braces.length) (b := b) (hm.may_begin hfirst _) (hm.member?_append _)
    obtain ⟨k₂, s, c, hk₂, hscanned, hstep⟩ :=
      resume_range (k := k₁) (d := b.braces.length) (b := b) (m := member) (hm'.rangeEnd?_append hraw _)
    have hfeed : b.feed [member.range hi k₂] = some (b.withItem (member.char, hi)) := by
      rw [Builder.feed, step_range hc, if_neg (Nat.not_lt.2 hle)]
      rfl
    obtain ⟨k', cl', hk', hopener, hneg, hitems, hrest⟩ := @ih k₂ _ _ (withItem_openClass hc (member.char, hi))
    refine ⟨k', cl', ?_, hopener, hneg, ?_, ?_⟩
    · simp only [List.length_append, List.length_cons] at hk₁ hk₂ ⊢
      omega
    · rw [hitems, List.reverse_cons, List.append_assoc]
      rfl
    · rw [List.append_assoc, List.cons_append, List.append_assoc, hbegun, hscanned, resume_step hstep hfeed]
      exact hrest

/-- **A class is read as the same node at any place.** -/
theorem resume_classText (h : ClassText w negated items) (hc : b.openClass = none) (t : Text) :
    ∃ cl : OpenClass, cl.opener = Span.sized k 1 ∧ cl.negated = negated ∧ cl.items = items.reverse ∧
      resumeAt k b (Mark.openBracket :: (w ++ Mark.closeBracket :: t)) =
        resumeAt (k + w.length + 2) ((b.begun k).withClass cl (k + w.length + 2)) t := by
  obtain ⟨k₁, cl, hk₁, hopener, hitems, hneg, hopened⟩ :=
    resume_openBracket (k := k) (b := b) (t := w ++ Mark.closeBracket :: t) hc
  rw [Reading.behindNegation_append h.ne_nil] at hk₁ hneg hopened
  obtain ⟨k', cl', hk', hopener', hneg', hitems', hread⟩ := resume_membersText (k := k₁)
    (b := { b.begun k with openClass := some cl }) h.members rfl t
  obtain rfl : k' = k + w.length + 2 := by
    simp only [List.length_append, List.length_cons] at hk₁
    omega
  refine ⟨cl', hopener'.trans hopener, ?_, by rw [hitems', hitems, List.append_nil], hopened.trans hread⟩
  rw [hneg', Bool.eq_iff_iff, hneg, h.negated, ne_eq, ne_eq, List.append_left_inj]

end Parser

end Glob
