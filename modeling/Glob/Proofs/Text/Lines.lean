import Glob.Text
/-!
# Lines that are read as they were written

Lines that are written with any of the three ends are read back (`lines_written`), empty ones too.  Only a last line
without an end has to have something in it (`lines_written_last`): where the text ends, no empty line begins.

One kind of end is used throughout a text.  A line that ends with a carriage return, with an empty one after it that ends
with a newline, would be read as one line.
-/
namespace Glob.Text

def lineEnds : List Text := [[Mark.newline], [Mark.carriageReturn, Mark.newline], [Mark.carriageReturn]]

def IsLine (t : Text) : Prop := Mark.newline ∉ t ∧ Mark.carriageReturn ∉ t

/-- The lines, each one with its end. -/
def written (ending : Text) (ls : List Text) : Text := ls.flatMap (· ++ ending)

variable {ending line rest t : Text} {ls : List Text} {c : CodePoint}

theorem isLine_cons : IsLine (c :: t) ↔ c ≠ Mark.newline ∧ c ≠ Mark.carriageReturn ∧ IsLine t := by
  simp only [IsLine, List.mem_cons, not_or, ne_comm (a := c)]
  exact ⟨fun h => ⟨h.1.1, h.2.1, h.1.2, h.2.2⟩, fun h => ⟨⟨h.1, h.2.2.1⟩, h.2.1, h.2.2.2⟩⟩

theorem IsLine.head?_ne (h : IsLine t) : t.head? ≠ some Mark.newline := by
  cases t with
  | nil => nofun
  | cons c t => exact fun hc => (isLine_cons.1 h).1 (Option.some.inj hc)

/-! ## One line -/

theorem lines_cons (hnewline : c ≠ Mark.newline) (hreturn : c ≠ Mark.carriageReturn) (rest : Text) :
    lines (c :: rest) = (c :: (lines rest).headD []) :: (lines rest).tail := by
  rw [lines, if_neg (by simp [hnewline, hreturn])]
  · cases lines rest <;> rfl
  · rintro _ hc -
    exact hreturn hc

/-- Where a line ends, the lines of the rest follow; a carriage return by itself ends a line unless a newline follows. -/
theorem lines_end (hend : ending ∈ lineEnds) (hrest : ending = [Mark.carriageReturn] → rest.head? ≠ some Mark.newline) :
    lines (ending ++ rest) = [] :: lines rest := by
  simp only [lineEnds, List.mem_cons, List.not_mem_nil, or_false] at hend
  rcases hend with rfl | rfl | rfl
  · rw [List.singleton_append, lines, if_pos (by simp)]
    nofun
  · rfl
  · rw [List.singleton_append, lines, if_pos (by simp)]
    rintro more - rfl
    exact hrest rfl rfl

theorem lines_line (hline : IsLine line) (h : lines t = [] :: ls) : lines (line ++ t) = line :: ls := by
  induction line with
  | nil => exact h
  | cons c line ih =>
    obtain ⟨hnewline, hreturn, hrest⟩ := isLine_cons.1 hline
    rw [List.cons_append, lines_cons hnewline hreturn, ih hrest]
    rfl

theorem lines_last (hline : IsLine line) (hne : line ≠ []) : lines line = [line] := by
  induction line with
  | nil => exact absurd rfl hne
  | cons c line ih =>
    obtain ⟨hnewline, hreturn, hrest⟩ := isLine_cons.1 hline
    rw [lines_cons hnewline hreturn]
    cases line with
    | nil => rfl
    | cons d line =>
      rw [ih hrest nofun]
      rfl

/-! ## All of them -/

/-- If lines end with a carriage return, none begins with a newline, for an empty one begins with its end. -/
theorem head?_written (hlines : ∀ l ∈ ls, IsLine l) (hrest : rest.head? ≠ some Mark.newline) :
    (written [Mark.carriageReturn] ls ++ rest).head? ≠ some Mark.newline := by
  cases ls with
  | nil => exact hrest
  | cons l ls =>
    have hl := (hlines l List.mem_cons_self).head?_ne
    cases l with
    | nil => nofun
    | cons c l => exact hl

theorem lines_written_append (hend : ending ∈ lineEnds) (hlines : ∀ l ∈ ls, IsLine l)
    (hrest : rest.head? ≠ some Mark.newline) : lines (written ending ls ++ rest) = ls ++ lines rest := by
  induction ls with
  | nil => rfl
  | cons l ls ih =>
    obtain ⟨hl, hlines⟩ := List.forall_mem_cons.1 hlines
    have hafter : lines (ending ++ (written ending ls ++ rest)) = [] :: lines (written ending ls ++ rest) :=
      lines_end hend fun hreturn => hreturn ▸ head?_written hlines hrest
    have hwritten : written ending (l :: ls) ++ rest = l ++ (ending ++ (written ending ls ++ rest)) := by
      simp [written]
    rw [hwritten, lines_line hl hafter, ih hlines, List.cons_append]

/-- **Lines are read as they were written.** -/
theorem lines_written (hend : ending ∈ lineEnds) (hlines : ∀ l ∈ ls, IsLine l) : lines (written ending ls) = ls := by
  have h : lines (written ending ls ++ []) = ls ++ lines [] := lines_written_append hend hlines nofun
  rwa [List.append_nil, lines, List.append_nil] at h

/-- The last one may do without its end if there is something in it. -/
theorem lines_written_last (hend : ending ∈ lineEnds) (hlines : ∀ l ∈ ls, IsLine l) (hline : IsLine line)
    (hne : line ≠ []) : lines (written ending ls ++ line) = ls ++ [line] := by
  rw [lines_written_append hend hlines hline.head?_ne, lines_last hline hne]

theorem mem_of_mem_lines {l : Text} (hl : l ∈ lines t) (hc : c ∈ l) : c ∈ t := by
  induction t using lines.induct generalizing l with
  | case1 => cases hl
  | case2 rest ih =>
    rcases List.mem_cons.1 hl with rfl | hl
    · cases hc
    · exact List.mem_cons_of_mem _ (List.mem_cons_of_mem _ (ih hl hc))
  | case3 d rest hboth hend ih =>
    rw [lines, if_pos hend] at hl
    · rcases List.mem_cons.1 hl with rfl | hl
      · cases hc
      · exact List.mem_cons_of_mem _ (ih hl hc)
    · exact hboth
  | case4 d rest hboth hend hnone ih | case5 d rest hboth hend line more hlines ih =>
    obtain ⟨hnewline, hreturn⟩ : d ≠ Mark.newline ∧ d ≠ Mark.carriageReturn := by simpa using hend
    rw [lines_cons hnewline hreturn] at hl
    rcases List.mem_cons.1 hl with rfl | hl
    · rcases List.mem_cons.1 hc with rfl | hc
      · exact List.mem_cons_self
      · cases hlines : lines rest with
        | nil =>
          rw [hlines] at hc
          cases hc
        | cons line more =>
          have hline : line ∈ lines rest := hlines ▸ List.mem_cons_self
          rw [hlines] at hc
          exact List.mem_cons_of_mem _ (ih hline hc)
    · exact List.mem_cons_of_mem _ (ih (List.mem_of_mem_tail hl) hc)

end Glob.Text
