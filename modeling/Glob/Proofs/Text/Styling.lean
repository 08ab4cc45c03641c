import Glob.Text.Printable
/-!
# What is left of a text without its styling

Leaving out styling sequences only leaves out characters (`withoutStyling_sublist`), so a text that can be printed can be
printed without them.  A text without an escape character is left as it is (`withoutStyling_eq_self`).
-/
namespace Glob

namespace Text

variable {t : Text} {c : CodePoint}

theorem withoutStylingFrom_sublist (skipped : Nat) (t : Text) : (withoutStylingFrom skipped t).Sublist t := by
  induction t generalizing skipped with
  | nil => exact List.Sublist.refl _
  | cons c t ih =>
    unfold withoutStylingFrom
    split
    · exact (ih _).cons c
    · split
      · exact (ih _).cons c
      · exact (ih 0).cons_cons c

theorem withoutStyling_sublist (t : Text) : t.withoutStyling.Sublist t := withoutStylingFrom_sublist 0 t

theorem stylingLength?_eq_none (h : c ≠ escapeMark) (t : Text) : stylingLength? (c :: t) = none := by
  unfold stylingLength?
  split
  · next hcons =>
    obtain ⟨rfl, -⟩ := List.cons.inj hcons
    split
    · exact if_neg (by simp [h])
    · rfl
  · rfl

/-- **A text without an escape character has no styling.** -/
theorem withoutStyling_eq_self (h : escapeMark ∉ t) : t.withoutStyling = t := by
  unfold withoutStyling
  induction t with
  | nil => rfl
  | cons c t ih =>
    have hc : c ≠ escapeMark := fun hc => h (hc ▸ List.mem_cons_self)
    unfold withoutStylingFrom
    simp only [stylingLength?_eq_none hc]
    rw [ih fun hmem => h (List.mem_cons_of_mem _ hmem)]

end Text

namespace Utf8

variable {t : Text}

/-- **A text without surrogates can be written.** -/
theorem surrogates?_eq_none (h : ∀ c ∈ t, Text.isSurrogate c = false) : surrogates? t = none := by
  have hplain : ∀ c ∈ t, (!Text.isSurrogate c) = true := fun c hc => by simp [h c hc]
  have hall : t.takeWhile (fun c => !Text.isSurrogate c) = t := by
    rw [← List.append_nil t, List.takeWhile_append_of_pos hplain, List.takeWhile_nil]
  unfold surrogates?
  simp only [hall, List.drop_length]

end Utf8

end Glob
