import Glob.Text
/-!
# Joining and splitting

`Text.join` with one separating code point and `Text.splitAt` are inverse to each other on lists of pieces that have
no separator in them: `splitAt_join` and `join_splitAt`.  `join_cons` and `join_append` say how a join is laid out:
every piece but the first comes after a separator.  `Span.extract_of_drop` gives back a piece by its offset.
-/
namespace Glob.Text

variable {sep : CodePoint}

theorem join_cons (w : Text) (ws : List Text) : join [sep] (w :: ws) = w ++ ws.flatMap (sep :: ·) := by
  induction ws generalizing w with
  | nil => simp [join]
  | cons next ws ih =>
    have := ih next
    simp only [join] at this ⊢
    simp [this]

theorem join_singleton (w : Text) : join [sep] [w] = w := by simp [join]

theorem join_cons_of_ne_nil (w : Text) {ws : List Text} (h : ws ≠ []) :
    join [sep] (w :: ws) = w ++ sep :: join [sep] ws := by
  obtain ⟨next, ws, rfl⟩ := List.exists_cons_of_ne_nil h
  rw [join_cons, join_cons, List.flatMap_cons, List.cons_append]

theorem join_append (ws : List Text) {ws' : List Text} (h : ws' ≠ []) :
    join [sep] (ws ++ ws') = ws.flatMap (· ++ [sep]) ++ join [sep] ws' := by
  induction ws with
  | nil => rfl
  | cons w ws ih =>
    rw [List.cons_append, join_cons_of_ne_nil w (by simp [h]), ih, List.flatMap_cons]
    simp

theorem splitAt_cons {t piece : Text} {pieces : List Text} (h : splitAt sep t = piece :: pieces) (c : CodePoint) :
    splitAt sep (c :: t) = if c = sep then [] :: piece :: pieces else (c :: piece) :: pieces := by
  rw [splitAt, h]

theorem join_splitAt (t : Text) : join [sep] (splitAt sep t) = t := by
  induction t with
  | nil => rfl
  | cons c t ih =>
    obtain ⟨piece, pieces, hp⟩ := List.exists_cons_of_ne_nil (splitAt_ne_nil sep t)
    rw [hp, join_cons] at ih
    rw [splitAt_cons hp]
    by_cases hc : c = sep
    · subst hc
      rw [if_pos rfl, join_cons, List.flatMap_cons, List.nil_append, List.cons_append, ih]
    · rw [if_neg hc, join_cons, List.cons_append, ih]

theorem not_mem_of_mem_splitAt {t w : Text} (h : w ∈ splitAt sep t) : sep ∉ w := by
  induction t generalizing w with
  | nil =>
    obtain rfl : w = [] := by simpa [splitAt] using h
    exact List.not_mem_nil
  | cons c t ih =>
    obtain ⟨piece, pieces, hp⟩ := List.exists_cons_of_ne_nil (splitAt_ne_nil sep t)
    rw [splitAt_cons hp] at h
    rw [hp] at ih
    by_cases hc : c = sep
    · rw [if_pos hc] at h
      rcases List.mem_cons.1 h with rfl | h
      · exact List.not_mem_nil
      · exact ih h
    · rw [if_neg hc] at h
      rcases List.mem_cons.1 h with rfl | h
      · exact List.not_mem_cons_of_ne_of_not_mem (Ne.symm hc) (ih List.mem_cons_self)
      · exact ih (List.mem_cons_of_mem _ h)

/-- A separator ends the first piece. -/
theorem splitAt_of_not_mem {w : Text} (hw : sep ∉ w) : splitAt sep w = [w] := by
  induction w with
  | nil => rfl
  | cons c w ih =>
    obtain ⟨hc, hw⟩ := List.ne_and_not_mem_of_not_mem_cons hw
    rw [splitAt_cons (ih hw), if_neg (Ne.symm hc)]

theorem splitAt_append_cons (u t : Text) : splitAt sep (u ++ sep :: t) = splitAt sep u ++ splitAt sep t := by
  induction u with
  | nil =>
    obtain ⟨piece, pieces, hp⟩ := List.exists_cons_of_ne_nil (splitAt_ne_nil sep t)
    rw [List.nil_append, splitAt_cons hp, if_pos rfl, hp]
    rfl
  | cons c u ih =>
    obtain ⟨piece, pieces, hp⟩ := List.exists_cons_of_ne_nil (splitAt_ne_nil sep u)
    rw [hp, List.cons_append] at ih
    rw [List.cons_append, splitAt_cons ih, splitAt_cons hp]
    split <;> rfl

theorem splitAt_append {w : Text} (hw : sep ∉ w) (t : Text) :
    splitAt sep (w ++ sep :: t) = w :: splitAt sep t := by
  rw [splitAt_append_cons, splitAt_of_not_mem hw]
  rfl

theorem splitAt_join {ws : List Text} (hne : ws ≠ []) (h : ∀ w ∈ ws, sep ∉ w) :
    splitAt sep (join [sep] ws) = ws := by
  induction ws with
  | nil => exact absurd rfl hne
  | cons w ws ih =>
    have hw := h w List.mem_cons_self
    cases ws with
    | nil => rw [join_singleton, splitAt_of_not_mem hw]
    | cons next ws =>
      have htail := ih (by simp) fun x hx => h x (List.mem_cons_of_mem _ hx)
      rw [join_cons, List.flatMap_cons, List.cons_append, splitAt_append hw, ← join_cons, htail]

end Glob.Text

namespace Glob.Span

theorem extract_of_drop {p u t : Text} {k : Nat} (h : p.drop k = u ++ t) :
    Span.extract ⟨k, (k + u.length : Nat)⟩ p = u := by
  show (p.take (k + u.length)).drop k = u
  rw [List.drop_take, h, Nat.add_sub_cancel_left, List.take_left]

end Glob.Span
