import Glob.Text
/-!
# Without escapes

`Text.unescape?` takes away every backslash that escapes the character behind it.  A backslash with nothing behind it
escapes nothing, and such a text has no other form; so texts may be put together before or after
(`unescape?_append`).  `Text.wildcards` says whether there is a wildcard, a class or an alternation in a text, that is, one
of the four marks that begin them, without a backslash that escapes it, and `Text.escapes` whether a certain code point
comes behind a backslash that escapes it.
-/
namespace Glob.Text

variable {c : CodePoint} {t t' u u' : Text}

/-- The text without the backslashes that escape a character. -/
def unescape? : Text → Option Text
  | [] => some []
  | [Mark.backslash] => none
  | Mark.backslash :: c :: t => (c :: ·) <$> unescape? t
  | c :: t => (c :: ·) <$> unescape? t

theorem unescape?_escaped : unescape? (Mark.backslash :: c :: t) = (c :: ·) <$> unescape? t := rfl

theorem unescape?_cons (h : c ≠ Mark.backslash) : unescape? (c :: t) = (c :: ·) <$> unescape? t := by
  rw [unescape?]
  · exact fun hc _ => h hc
  · exact fun _ _ hc _ => h hc

/-- A code point that is no lone backslash and escapes nothing is no backslash. -/
theorem ne_backslash (hend : c = Mark.backslash → t = [] → False)
    (hescape : ∀ d u, c = Mark.backslash → t = d :: u → False) : c ≠ Mark.backslash := by
  rintro rfl
  cases t with
  | nil => exact hend rfl rfl
  | cons d t => exact hescape d t rfl rfl

theorem unescape?_append (h : unescape? t = some u) (h' : unescape? t' = some u') :
    unescape? (t ++ t') = some (u ++ u') := by
  fun_induction unescape? t generalizing u with
  | case1 =>
    obtain rfl := Option.some.inj h
    exact h'
  | case2 => cases h
  | case3 c t ih =>
    obtain ⟨v, hv, rfl⟩ := Option.map_eq_some_iff.1 h
    rw [List.cons_append, List.cons_append, unescape?_escaped, ih hv]
    rfl
  | case4 c t hend hescape ih =>
    obtain ⟨v, hv, rfl⟩ := Option.map_eq_some_iff.1 h
    rw [List.cons_append, unescape?_cons (ne_backslash hend hescape), ih hv]
    rfl

/-- Taking backslashes away adds nothing. -/
theorem mem_of_mem_unescape? (h : unescape? t = some u) (hc : c ∈ u) : c ∈ t := by
  fun_induction unescape? t generalizing u with
  | case1 =>
    obtain rfl := Option.some.inj h
    exact hc
  | case2 => cases h
  | case3 d t ih =>
    obtain ⟨v, hv, rfl⟩ := Option.map_eq_some_iff.1 h
    rcases List.mem_cons.1 hc with rfl | hc
    · exact List.mem_cons_of_mem _ List.mem_cons_self
    · exact List.mem_cons_of_mem _ (List.mem_cons_of_mem _ (ih hv hc))
  | case4 d t hend hescape ih =>
    obtain ⟨v, hv, rfl⟩ := Option.map_eq_some_iff.1 h
    rcases List.mem_cons.1 hc with rfl | hc
    · exact List.mem_cons_self
    · exact List.mem_cons_of_mem _ (ih hv hc)

/-- There is a `*`, `?`, `[` or `{` that is not escaped. -/
def wildcards : Text → Bool
  | [] => false
  | [Mark.backslash] => false
  | Mark.backslash :: _ :: t => wildcards t
  | c :: t => [Mark.star, Mark.question, Mark.openBracket, Mark.openBrace].contains c || wildcards t

theorem wildcards_cons (h : c ∉ [Mark.backslash, Mark.star, Mark.question, Mark.openBracket, Mark.openBrace]) :
    wildcards (c :: t) = wildcards t := by
  simp only [List.mem_cons, List.not_mem_nil, or_false, not_or] at h
  rw [wildcards]
  · simp [h]
  · exact fun hc _ => h.1 hc
  · exact fun _ _ hc _ => h.1 hc

/-- The code point stands in the text behind a backslash that escapes it. -/
def escapes (d : CodePoint) : Text → Bool
  | [] => false
  | [Mark.backslash] => false
  | Mark.backslash :: c :: t => c == d || escapes d t
  | _ :: t => escapes d t

theorem escapes_cons {d : CodePoint} (h : c ≠ Mark.backslash) : escapes d (c :: t) = escapes d t := by
  rw [escapes]
  · exact fun hc _ => h hc
  · exact fun _ _ hc _ => h hc

end Glob.Text
