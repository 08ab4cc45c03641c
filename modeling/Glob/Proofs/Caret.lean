import Glob.Proofs.Pattern.Faults
/-!
# The picture of an error

`GlobError.caret` writes the pattern and a line of marks under it: as many spaces as there are code points before the
text at fault, and a caret for each of its own, one at least.  Where the pattern is a single line, these are two lines,
and the carets are below the text at fault.  A pattern with line ends in it is written as it is, so the marks come
under its last line (`caret_marks`).
-/
namespace Glob

open Reading (StandsAt)

/-- The code points that have a caret below them. -/
def Text.marked (p marks : Text) : Text := ((p.zip marks).filter (·.2 = Mark.caret)).map Prod.fst

variable {p w : Text} {k s t : Nat} {e : GlobError}

/-! ## The line of marks -/

theorem underline_eq (s t : Nat) : GlobError.underline ⟨s, t⟩ =
    List.replicate s Mark.space ++ List.replicate (max 1 (t - s)) Mark.caret := by
  have hcount : (max 1 ((t : Int) - s)).toNat = max 1 (t - s) := by omega
  rw [GlobError.underline, hcount]
  rfl

theorem newline_not_mem_underline (span : Span) : Mark.newline ∉ GlobError.underline span := by
  intro h
  rcases List.mem_append.1 h with hspace | hcaret
  · exact absurd (List.eq_of_mem_replicate hspace) (by decide)
  · exact absurd (List.eq_of_mem_replicate hcaret) (by decide)

theorem filter_zip_spaces (u : Text) (n : Nat) :
    (u.zip (List.replicate n Mark.space)).filter (·.2 = Mark.caret) = [] := by
  apply List.filter_eq_nil_iff.2
  intro x hx
  have hspace : x.2 = Mark.space := List.eq_of_mem_replicate (List.of_mem_zip hx).2
  rw [hspace]
  decide

theorem filter_zip_carets (u : Text) (n : Nat) :
    ((u.zip (List.replicate n Mark.caret)).filter (·.2 = Mark.caret)).map Prod.fst = u.take n := by
  induction u generalizing n with
  | nil => simp
  | cons c u ih =>
    cases n with
    | zero => rfl
    | succ n =>
      have hn := ih n
      simp only [List.replicate_succ, List.zip_cons_cons, List.take_succ_cons] at hn ⊢
      simp [hn]

/-- Behind `s` spaces, so many carets mark the text from offset `s` on. -/
theorem marked_line (hs : s ≤ p.length) (count : Nat) :
    p.marked (List.replicate s Mark.space ++ List.replicate count Mark.caret) = p.slice s (s + count) := by
  have hzip : p.zip (List.replicate s Mark.space ++ List.replicate count Mark.caret) =
      (p.take s).zip (List.replicate s Mark.space) ++ (p.drop s).zip (List.replicate count Mark.caret) := by
    rw [← List.zip_append (by simp [hs]), List.take_append_drop]
  rw [Text.marked, hzip, List.filter_append, filter_zip_spaces, List.nil_append, filter_zip_carets, Text.slice,
    List.drop_take, Nat.add_sub_cancel_left]

/-! ## Lines -/

theorem splitAt_eq_singleton {sep : CodePoint} : Text.splitAt sep p = [p] ↔ sep ∉ p := by
  constructor
  · intro h
    exact Text.not_mem_of_mem_splitAt (t := p) (by simp [h])
  · exact Text.splitAt_of_not_mem

theorem lines_caret (h : e.pattern = some p) :
    Text.splitAt Mark.newline e.caret = Text.splitAt Mark.newline p ++ [GlobError.underline e.span] := by
  rw [GlobError.caret, h]
  dsimp only
  rw [Text.splitAt_append_cons, Text.splitAt_of_not_mem (newline_not_mem_underline e.span)]

/-! ## Errors of patterns -/

theorem GlobError.AtFault.ne_nil (h : e.AtFault p w) : w ≠ [] := by
  unfold GlobError.AtFault at h
  split at h
  · simp [h]
  · simp [h]
  · simp [h]
  · obtain ⟨_, _, -, hrange, -⟩ := h
    exact hrange.ne_nil
  · exact h.elim

/-- The span of an error lies in the pattern, and something is there to mark. -/
theorem parse_error_bounds (h : Pattern.parse p = .error (.rejected e)) :
    ∃ s t : Nat, e.span = ⟨s, t⟩ ∧ s ≤ t ∧ t ≤ p.length ∧ s < p.length := by
  obtain ⟨-, w, k, hfault, ⟨before, behind, hp, hk⟩, hspan⟩ := parse_error_spans h
  have hw : 0 < w.length := List.length_pos_iff.2 hfault.ne_nil
  have hlength : p.length = k + (w.length + behind.length) := by simp [hp, hk]
  refine ⟨k, _, hspan, Nat.le_add_right _ _, ?_, by omega⟩
  split <;> omega

/-- **The caret marks the text at fault.**  An error of a pattern has a span inside the pattern.  Its picture is the
pattern and, as one more line, as many spaces as there are code points before the span and a caret for each code point
in it, but one at least; so the carets mark the text under the span.  These are two lines exactly if the pattern has no
line end. -/
theorem caret_marks {c : Cache} (hc : c.Reached) (o : Options) {q : QueryFailure}
    (h : (c.compileLike o (.text p)).1 = .error q) :
    ∃ e, ∃ s t : Nat, q = .pattern (.rejected e) ∧ e.pattern = some p ∧ e.span = ⟨s, t⟩ ∧
      s ≤ t ∧ t ≤ p.length ∧ s < p.length ∧
      let marks := List.replicate s Mark.space ++ List.replicate (max 1 (t - s)) Mark.caret
      e.caret = p ++ Mark.newline :: marks ∧
        Text.splitAt Mark.newline e.caret = Text.splitAt Mark.newline p ++ [marks] ∧
        (Text.splitAt Mark.newline e.caret = [p, marks] ↔ Mark.newline ∉ p) ∧
        p.marked marks = p.slice s (max t (s + 1)) := by
  obtain ⟨e, rfl, he⟩ := compileLike_error hc rfl h
  obtain ⟨hpattern, -⟩ := parse_error_spans he
  obtain ⟨s, t, hspan, hle, ht, hs⟩ := parse_error_bounds he
  have hmarks : GlobError.underline e.span =
      List.replicate s Mark.space ++ List.replicate (max 1 (t - s)) Mark.caret := by rw [hspan, underline_eq]
  have hlines := lines_caret hpattern
  refine ⟨e, s, t, rfl, hpattern, hspan, hle, ht, hs, ?_, ?_, ?_, ?_⟩
  · rw [GlobError.caret, hpattern, ← hmarks]
  · rw [hlines, hmarks]
  · rw [hlines, hmarks, ← splitAt_eq_singleton]
    show _ ++ [_] = [p] ++ [_] ↔ _
    rw [List.append_left_inj]
  · have hend : s + max 1 (t - s) = max t (s + 1) := by omega
    rw [marked_line hs.le, hend]

/-- The pattern `é{[\z-a]` is wrong in its range, which has four code points and three before it. -/
theorem caret_marks_range :
    let p := Text.of "é\x7b[\\z-a]"
    ∃ e, (Cache.empty.compileLike {} (.text p)).1 = .error (.pattern (.rejected e)) ∧
      Text.splitAt Mark.newline e.caret = [p, Text.of "   ^^^^"] ∧ p.marked (Text.of "   ^^^^") = Text.of "\\z-a" := by
  intro p
  have h : (Cache.empty.compileLike {} (.text p)).1 =
      .error (.pattern (Parser.invalidRange p 0x7A 0x61 ⟨3, 7⟩)) := rfl
  obtain ⟨e, s, t, hq, -, hspan, -, -, -, -, -, hlines, hmarked⟩ := caret_marks .empty {} h
  cases hq
  obtain rfl : 3 = s := Int.ofNat.inj (congrArg Span.start hspan)
  obtain rfl : 7 = t := Int.ofNat.inj (congrArg Span.stop hspan)
  exact ⟨_, h, hlines.2 (by decide), hmarked⟩

/-- The pattern of a line end and `[` makes a picture of three lines, with the bracket in the first column and the caret
in the second one. -/
theorem caret_below_lines :
    ∃ e, (Cache.empty.compileLike {} (.text [Mark.newline, Mark.openBracket])).1 = .error (.pattern (.rejected e)) ∧
      Text.splitAt Mark.newline e.caret = [[], [Mark.openBracket], [Mark.space, Mark.caret]] ∧
      (Text.splitAt Mark.newline e.caret).length ≠ 2 :=
  ⟨_, rfl, rfl, by decide⟩

end Glob
