import Glob.Proofs.Pattern.Units
import Glob.Proofs.Text.Pieces
/-!
# Patterns without redundant stars

Two stars next to each other match what one does, unless they are a segment of their own, and a segment `**` behind
another one matches nothing more.  `squeezed` takes out all of these stars: from the units of each segment, and then from
the segments.  An escape, a class or any other character is a unit, so only the stars that are wildcards go.

What is left are units again (`UnitsEach.squeezed`), in particular no class comes to end elsewhere, and a backslash that
has nothing to escape stays at the end (`endsEscaping_squeezed`).
-/
namespace Glob

namespace Reading

/-! ## Runs -/

section Once

variable {α : Type} [DecidableEq α] {a b : α} {l : List α}

/-- The list with one `a` for each run of them; `behind` says that one comes right before the list. -/
def once (a : α) (behind : Bool) : List α → List α
  | [] => []
  | b :: l => if behind && b = a then once a true l else b :: once a (b = a) l

@[simp] theorem once_nil (a : α) (behind : Bool) : once a behind [] = [] := rfl

theorem once_drop (a : α) (l : List α) : once a true (a :: l) = once a true l := by simp [once]

theorem once_first (a b : α) (l : List α) : once a false (b :: l) = b :: once a (b = a) l := by simp [once]

theorem once_keep (h : b ≠ a) (behind : Bool) (l : List α) : once a behind (b :: l) = b :: once a false l := by
  simp [once, h]

theorem mem_once (h : b ≠ a) {behind : Bool} : b ∈ once a behind l ↔ b ∈ l := by
  induction l generalizing behind with
  | nil => rfl
  | cons c l ih =>
    unfold once
    split
    · next hc =>
      obtain rfl : c = a := by simpa using (Bool.and_eq_true_iff.1 hc).2
      rw [ih, List.mem_cons, or_iff_right h]
    · rw [List.mem_cons, List.mem_cons, ih]

theorem head?_once_ne (a : α) (l : List α) : (once a true l).head? ≠ some a := by
  induction l with
  | nil => exact nofun
  | cons b l ih =>
    by_cases h : b = a
    · rwa [h, once_drop]
    · rw [once_keep h]
      exact fun heq => h (Option.some.inj heq)

/-- There is no run of two. -/
theorem once_ne_twice (a : α) (l : List α) : once a false l ≠ [a, a] := by
  cases l with
  | nil => exact nofun
  | cons b l =>
    rw [once_first]
    intro h
    obtain ⟨rfl, hrest⟩ := List.cons.inj h
    rw [decide_eq_true rfl] at hrest
    exact head?_once_ne b l (congrArg List.head? hrest)

end Once

/-! ## Segments -/

/-- How many braces are open behind a unit. -/
def depthBehind (depth : Nat) (u : Text) : Nat :=
  if u = [Mark.openBrace] then depth + 1 else if u = [Mark.closeBrace] then depth - 1 else depth

/-- The units of each segment: those between the separators that stand outside braces. -/
def segmentUnits (depth : Nat) : List Text → List (List Text)
  | [] => [[]]
  | u :: us =>
    if u = [Mark.slash] ∧ depth = 0 then [] :: segmentUnits 0 us
    else (segmentUnits (depthBehind depth u) us).modifyHead (u :: ·)

def wholeStars : List Text := [[Mark.star], [Mark.star]]

/-- One star for each run of them, unless the segment is `**`. -/
def squeezedSegment (us : List Text) : List Text := if us = wholeStars then us else once [Mark.star] false us

/-- **The pattern without redundant stars**: one for each run of them in a segment other than `**`, and one segment `**`
for each run of these. -/
def squeezed (p : Text) : Text :=
  Text.join [Mark.slash]
    ((once wholeStars false ((segmentUnits 0 (units p)).map squeezedSegment)).map List.flatten)

variable {t t' p : Text} {us : List Text} {segs : List (List Text)} {d e : Nat}

/-- The segments, each with a separator in front of it. -/
def behind (segs : List (List Text)) : Text := segs.flatMap fun us => Mark.slash :: us.flatten

theorem behind_cons (us : List Text) (segs : List (List Text)) :
    behind (us :: segs) = Mark.slash :: (us.flatten ++ behind segs) := List.flatMap_cons

theorem join_segments (us : List Text) (segs : List (List Text)) :
    Text.join [Mark.slash] ((us :: segs).map List.flatten) = us.flatten ++ behind segs := by
  rw [List.map_cons, Text.join_cons, List.flatMap_map]
  rfl

/-- From one number of open braces to the other, there is no separator that ends a segment. -/
inductive Inner : Nat → List Text → Nat → Prop
  | nil (d : Nat) : Inner d [] d
  | cons {d e : Nat} {u : Text} {us : List Text} (h : ¬ (u = [Mark.slash] ∧ d = 0))
    (rest : Inner (depthBehind d u) us e) : Inner d (u :: us) e

/-- The units of segments, the first of which begins where `d` braces are open. -/
inductive Segmented : Nat → List (List Text) → Prop
  | last {d e : Nat} {us : List Text} (h : Inner d us e) (hus : Units [] us) : Segmented d [us]
  | cons {d : Nat} {us : List Text} {segs : List (List Text)} (h : Inner d us 0) (hus : Units (behind segs) us)
    (rest : Segmented 0 segs) : Segmented d (us :: segs)

theorem Segmented.first (h : Segmented 0 (us :: segs)) :
    ∃ e, Inner 0 us e ∧ Units (behind segs) us ∧ (segs = [] ∨ (e = 0 ∧ Segmented 0 segs)) := by
  cases h with
  | last hinner hus => exact ⟨_, hinner, hus, .inl rfl⟩
  | cons hinner hus hrest => exact ⟨0, hinner, hus, .inr ⟨rfl, hrest⟩⟩

theorem segmentUnits_sound (h : Units [] us) (d : Nat) :
    ∃ first rest, segmentUnits d us = first :: rest ∧ Segmented d (first :: rest) ∧
      us.flatten = first.flatten ++ behind rest := by
  induction us generalizing d with
  | nil => exact ⟨[], [], rfl, .last (.nil d) trivial, rfl⟩
  | cons u us ih =>
    obtain ⟨hu, hus⟩ := h
    rw [segmentUnits]
    split
    · next hslash =>
      obtain ⟨rfl, rfl⟩ := hslash
      obtain ⟨first, rest, heq, hsound, hflatten⟩ := ih hus 0
      refine ⟨[], _, rfl, .cons (.nil 0) trivial (heq ▸ hsound), ?_⟩
      rw [heq, behind_cons, ← hflatten]
      rfl
    · next hinner =>
      obtain ⟨first, rest, heq, hsound, hflatten⟩ := ih hus (depthBehind d u)
      rw [List.append_nil, hflatten] at hu
      refine ⟨u :: first, rest, by rw [heq]; rfl, ?_, ?_⟩
      · cases hsound with
        | last hfirst hunits => exact .last (.cons hinner hfirst) ⟨hu, hunits⟩
        | cons hfirst hunits hrest => exact .cons (.cons hinner hfirst) ⟨hu, hunits⟩ hrest
      · rw [List.flatten_cons, List.flatten_cons, hflatten, List.append_assoc]

/-! ## Units without redundant stars -/

/-- Both texts are empty, or both begin with a separator. -/
inductive Ends : Text → Text → Prop
  | nil : Ends [] []
  | slash (t t' : Text) : Ends (Mark.slash :: t) (Mark.slash :: t')

theorem UnitText.ne_nil {u : Text} (h : UnitText u t) : u ≠ [] := by
  cases h <;> exact List.cons_ne_nil _ _

theorem head?_cons_ne {c : CodePoint} (h : c ≠ Mark.star) (t : Text) : (c :: t).head? ≠ some Mark.star :=
  fun heq => h (Option.some.inj heq)

theorem UnitText.head?_ne {u : Text} (h : UnitText u t) (hstar : u ≠ [Mark.star]) (v : Text) :
    (u ++ v).head? ≠ some Mark.star := by
  cases h with
  | lone => exact head?_cons_ne (by decide) _
  | escaped => exact head?_cons_ne (by decide) _
  | set => exact head?_cons_ne (by decide) _
  | char => exact head?_cons_ne (by simpa using hstar) _

theorem Ends.head?_ne (h : Ends t t') : t.head? ≠ some Mark.star ∧ t'.head? ≠ some Mark.star := by
  cases h with
  | nil => exact ⟨nofun, nofun⟩
  | slash => exact ⟨head?_cons_ne (by decide) _, head?_cons_ne (by decide) _⟩

theorem Units.eq_nil (h : Units t us) (hnil : us.flatten = []) : us = [] := by
  cases us with
  | nil => rfl
  | cons u us => exact absurd (List.append_eq_nil_iff.1 hnil).1 h.1.ne_nil

/-- What ends a class that is not closed is kept. -/
theorem Units.stops_once (h : Units t us) (ht : Ends t t') (hstop : member? (us.flatten ++ t) = none) :
    member? ((once [Mark.star] false us).flatten ++ t') = none := by
  cases us with
  | nil => cases ht <;> rfl
  | cons u us =>
    obtain ⟨hu, hus⟩ := h
    rw [once_first]
    rw [List.flatten_cons, List.append_assoc] at hstop
    generalize hbehind : us.flatten ++ t = v at hu hstop
    cases hu with
    | lone =>
      obtain ⟨hnil, rfl⟩ := List.append_eq_nil_iff.1 hbehind
      rw [hus.eq_nil hnil]
      cases ht
      rfl
    | escaped => cases hstop
    | set => cases hstop
    | @char c hback =>
      by_cases hslash : c = Mark.slash
      · subst hslash
        rfl
      · rw [(MemberText.raw hslash hback).member?_append] at hstop
        cases hstop

theorem Units.once (h : Units t us) (ht : Ends t t') (behind : Bool) : Units t' (once [Mark.star] behind us) := by
  induction us generalizing behind with
  | nil => trivial
  | cons u us ih =>
    obtain ⟨hu, hus⟩ := h
    by_cases hstar : u = [Mark.star]
    · subst hstar
      cases behind with
      | true =>
        rw [once_drop]
        exact ih hus true
      | false =>
        rw [once_first]
        exact ⟨.char (by decide) (by decide) _, ih hus _⟩
    · rw [once_keep hstar]
      refine ⟨?_, ih hus false⟩
      generalize hbehind : us.flatten ++ t = v at hu
      cases hu with
      | lone =>
        obtain ⟨hnil, rfl⟩ := List.append_eq_nil_iff.1 hbehind
        rw [hus.eq_nil hnil]
        cases ht
        exact .lone
      | escaped c => exact .escaped c _
      | set hw hfollow =>
        refine .set hw (hfollow.imp_right fun hstop => ?_)
        rw [← hbehind] at hstop
        exact hus.stops_once ht hstop
      | char hback hbracket => exact .char hback hbracket _

/-- The last backslash has nothing to escape exactly if it is a unit by itself. -/
theorem Units.endsEscaping (h : Units t us) :
    EndsEscaping (us.flatten ++ t) ↔ [Mark.backslash] ∈ us ∨ EndsEscaping t := by
  induction us with
  | nil => simp
  | cons u us ih =>
    obtain ⟨hu, hus⟩ := h
    rw [List.flatten_cons, List.append_assoc, List.mem_cons, or_assoc, ← ih hus]
    generalize us.flatten ++ t = v at hu
    cases hu with
    | lone => exact iff_of_true (by decide) (.inl rfl)
    | escaped c =>
      rw [or_iff_right (by simp)]
      exact endsEscaping_escaped
    | set hw =>
      have hcomplete : ¬ EndsEscaping (Mark.openBracket :: _) := mt (endsEscaping_cons (by decide)).1 hw.complete
      rw [or_iff_right (by simp), endsEscaping_append hcomplete]
    | char hback =>
      rw [or_iff_right (by simpa using hback.symm)]
      exact endsEscaping_cons hback

/-! ## Segments without redundant stars -/

theorem squeezedSegment_of_ne (h : us ≠ wholeStars) : squeezedSegment us = once [Mark.star] false us := if_neg h

theorem squeezedSegment_whole : squeezedSegment wholeStars = wholeStars := rfl

theorem squeezedSegment_eq_whole : squeezedSegment us = wholeStars ↔ us = wholeStars := by
  by_cases h : us = wholeStars
  · rw [h, squeezedSegment_whole]
  · rw [squeezedSegment_of_ne h]
    exact iff_of_false (once_ne_twice _ _) h

/-- The segments without redundant stars; `whole` says that a segment `**` comes right before them. -/
def squeezedSegments (whole : Bool) (segs : List (List Text)) : List (List Text) :=
  once wholeStars whole (segs.map squeezedSegment)

@[simp] theorem squeezedSegments_nil (whole : Bool) : squeezedSegments whole [] = [] := rfl

theorem squeezedSegments_drop (segs : List (List Text)) :
    squeezedSegments true (wholeStars :: segs) = squeezedSegments true segs := once_drop _ _

theorem squeezedSegments_first (us : List Text) (segs : List (List Text)) :
    squeezedSegments false (us :: segs) = squeezedSegment us :: squeezedSegments (us = wholeStars) segs := by
  rw [squeezedSegments, List.map_cons, once_first]
  simp only [squeezedSegment_eq_whole]
  rfl

theorem squeezedSegments_whole (segs : List (List Text)) :
    squeezedSegments false (wholeStars :: segs) = wholeStars :: squeezedSegments true segs :=
  squeezedSegments_first wholeStars segs

theorem squeezedSegments_keep (h : us ≠ wholeStars) (whole : Bool) (segs : List (List Text)) :
    squeezedSegments whole (us :: segs) = squeezedSegment us :: squeezedSegments false segs :=
  once_keep (mt squeezedSegment_eq_whole.1 h) _ _

theorem ends_behind (segs : List (List Text)) : Ends (behind segs) (behind (squeezedSegments false segs)) := by
  cases segs with
  | nil => exact .nil
  | cons us segs =>
    rw [squeezedSegments_first]
    exact .slash _ _

/-- The segments are units, each where the others come behind it. -/
def UnitsEach : List (List Text) → Prop
  | [] => True
  | us :: segs => Units (behind segs) us ∧ UnitsEach segs

theorem Segmented.unitsEach (h : Segmented d segs) : UnitsEach segs := by
  induction h with
  | last _ hus => exact ⟨hus, trivial⟩
  | cons _ hus _ ih => exact ⟨hus, ih⟩

/-- **What is left are units.** -/
theorem UnitsEach.squeezed (h : UnitsEach segs) (whole : Bool) : UnitsEach (squeezedSegments whole segs) := by
  induction segs generalizing whole with
  | nil => trivial
  | cons us segs ih =>
    obtain ⟨hus, hsegs⟩ := h
    by_cases hwhole : us = wholeStars
    · subst hwhole
      cases whole with
      | true =>
        rw [squeezedSegments_drop]
        exact ih hsegs true
      | false =>
        rw [squeezedSegments_whole]
        exact ⟨⟨.char (by decide) (by decide) _, .char (by decide) (by decide) _, trivial⟩, ih hsegs true⟩
    · rw [squeezedSegments_keep hwhole, squeezedSegment_of_ne hwhole]
      exact ⟨hus.once (ends_behind segs) false, ih hsegs false⟩

theorem UnitsEach.endsEscaping (h : UnitsEach segs) :
    EndsEscaping (behind segs) ↔ ∃ us ∈ segs, [Mark.backslash] ∈ us := by
  induction segs with
  | nil => simp [behind, not_endsEscaping_nil]
  | cons us segs ih =>
    rw [behind_cons, endsEscaping_cons (by decide), h.1.endsEscaping, ih h.2, List.exists_mem_cons_iff]

theorem exists_mem_squeezed (whole : Bool) :
    (∃ us ∈ squeezedSegments whole segs, [Mark.backslash] ∈ us) ↔ ∃ us ∈ segs, [Mark.backslash] ∈ us := by
  have hstar : [Mark.backslash] ≠ [Mark.star] := by decide
  induction segs generalizing whole with
  | nil => rfl
  | cons us segs ih =>
    by_cases hwhole : us = wholeStars
    · subst hwhole
      have hnone : [Mark.backslash] ∉ wholeStars := by decide
      rw [List.exists_mem_cons_iff, or_iff_right hnone]
      cases whole with
      | true =>
        rw [squeezedSegments_drop]
        exact ih true
      | false =>
        rw [squeezedSegments_whole, List.exists_mem_cons_iff, or_iff_right hnone]
        exact ih true
    · rw [squeezedSegments_keep hwhole, squeezedSegment_of_ne hwhole, List.exists_mem_cons_iff,
        List.exists_mem_cons_iff, mem_once hstar]
      exact or_congr_right (ih false)

/-- **The segments of a pattern, and those of the pattern without redundant stars.** -/
theorem exists_segmented (p : Text) :
    ∃ us segs, Segmented 0 (us :: segs) ∧ p = us.flatten ++ behind segs ∧
      squeezed p = (squeezedSegment us).flatten ++ behind (squeezedSegments (us = wholeStars) segs) := by
  obtain ⟨us, segs, heq, hsound, hflatten⟩ := segmentUnits_sound (units_sound p) 0
  refine ⟨us, segs, hsound, (flatten_units p).symm.trans hflatten, ?_⟩
  show Text.join [Mark.slash] ((squeezedSegments false (segmentUnits 0 (units p))).map List.flatten) = _
  rw [heq, squeezedSegments_first, join_segments]

theorem endsEscaping_squeezed (p : Text) : EndsEscaping (squeezed p) ↔ EndsEscaping p := by
  obtain ⟨us, segs, hsound, hp, hsqueezed⟩ := exists_segmented p
  have hall := hsound.unitsEach
  -- a separator in front makes no difference
  have hslash : ∀ us segs, EndsEscaping (us.flatten ++ behind segs) ↔ EndsEscaping (behind (us :: segs)) :=
    fun us segs => by rw [behind_cons, endsEscaping_cons (by decide)]
  rw [hsqueezed, hslash, ← squeezedSegments_first, (hall.squeezed false).endsEscaping, exists_mem_squeezed, hp, hslash,
    hall.endsEscaping]

end Reading

end Glob
