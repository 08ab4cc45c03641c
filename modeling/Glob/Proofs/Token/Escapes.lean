import Glob.Proofs.Pattern.Reading
import Glob.Token.Scanner
import Mathlib.Data.List.Induction
/-!
# Escapes at the end of a pattern

The scanner rejects a pattern only if its last backslash has nothing to escape.  `escaping_run` tells when this is so,
without regard to what else is in the pattern: a backslash escapes what comes next unless it is escaped itself, so the
backslashes at the end of the pattern are counted.
-/
namespace Glob

namespace Scanner

/-- The offset of a backslash that the next character is escaped by. -/
def State.escaping (s : State) : Option Nat :=
  match s.mode with
  | .escape place | .memberEscape place | .rangeEscape _ place => some place
  | _ => none

theorem pending_eq_error {s : State} {place : Nat} (h : s.escaping = some place) : s.pending = .error place := by
  obtain ⟨k, depth, mode⟩ := s
  cases mode <;> cases h <;> rfl

theorem pending_eq_ok {s : State} (h : s.escaping = none) : ∃ tokens, s.pending = .ok tokens := by
  obtain ⟨k, depth, mode⟩ := s
  cases mode <;> first | exact ⟨_, rfl⟩ | cases h

/-! ## One step -/

theorem meaning_eq_escape {depth : Nat} {c : CodePoint} (h : meaning depth c = .escape) : c = Mark.backslash := by
  unfold meaning at h
  split at h
  · rfl
  all_goals first | cases h | (split at h <;> cases h)

theorem escaping_outside (s : State) (c : CodePoint) :
    (s.outside c).2.escaping = if c = Mark.backslash then some s.offset else none := by
  by_cases hc : c = Mark.backslash
  · rw [if_pos hc, hc]
    rfl
  · rw [if_neg hc]
    unfold State.outside
    split
    · rfl
    · next h => exact absurd (meaning_eq_escape h) hc
    all_goals rfl

theorem escaping_member (s : State) (c : CodePoint) :
    (s.member c).2.escaping = if c = Mark.backslash then some s.offset else none := by
  unfold State.member
  split <;> rfl

theorem escaping_firstMember (s : State) (c : CodePoint) :
    (s.firstMember c).2.escaping = if c = Mark.backslash then some s.offset else none := by
  unfold State.firstMember
  split
  · exact escaping_outside s c
  · exact escaping_member s c

theorem escaping_members (s : State) (c : CodePoint) :
    (s.members c).2.escaping = if c = Mark.backslash then some s.offset else none := by
  unfold State.members
  split
  · exact escaping_outside s c
  · split
    · next hc =>
      rw [hc]
      rfl
    · exact escaping_member s c

/-- The character after an escaping backslash escapes nothing. -/
theorem escaping_step_escaped {s : State} {place : Nat} (h : s.escaping = some place) (c : CodePoint) :
    (s.step c).2.escaping = none := by
  obtain ⟨k, depth, mode⟩ := s
  cases mode <;> first | rfl | cases h

/-- Any other backslash escapes the next character. -/
theorem escaping_step {s : State} (h : s.escaping = none) (c : CodePoint) :
    (s.step c).2.escaping = if c = Mark.backslash then some s.offset else none := by
  obtain ⟨k, depth, mode⟩ := s
  cases mode with
  | text => exact escaping_outside _ c
  | run start chars =>
    by_cases hplain : meaning depth c = .plain
    · have hstep : State.step ⟨k, depth, .run start chars⟩ c = ([], ⟨k + 1, depth, .run start (c :: chars)⟩) :=
        if_pos hplain
      rw [hstep, if_neg]
      · rfl
      · rintro rfl
        cases hplain
    · have hstep : State.step ⟨k, depth, .run start chars⟩ c = State.after _ (State.outside _ c) := if_neg hplain
      rw [hstep]
      exact escaping_outside _ c
  | star start =>
    by_cases hc : c = Mark.star
    · subst hc
      rfl
    · have hstep : State.step ⟨k, depth, .star start⟩ c = State.after _ (State.outside _ c) := if_neg hc
      rw [hstep]
      exact escaping_outside _ c
  | escape start => cases h
  | classOpened =>
    by_cases hc : c = Mark.exclamation ∨ c = Mark.caret
    · rcases hc with rfl | rfl <;> rfl
    · have hstep : State.step ⟨k, depth, .classOpened⟩ c = State.firstMember _ c := if_neg hc
      rw [hstep]
      exact escaping_firstMember _ c
  | firstMember => exact escaping_firstMember _ c
  | members => exact escaping_members _ c
  | memberEscape start => cases h
  | member m =>
    by_cases hc : c = Mark.dash
    · subst hc
      rfl
    · have hstep : State.step ⟨k, depth, .member m⟩ c = State.after _ (State.members _ c) := if_neg hc
      rw [hstep]
      exact escaping_members _ c
  | dash m =>
    by_cases hend : c = Mark.slash ∨ c = Mark.closeBracket
    · have hstep : State.step ⟨k, depth, .dash m⟩ c = State.after _ (State.members _ c) := if_pos hend
      rw [hstep]
      exact escaping_members _ c
    · by_cases hc : c = Mark.backslash
      · subst hc
        rfl
      · have hstep : State.step ⟨k, depth, .dash m⟩ c = ([m.range c (k + 1)], ⟨k + 1, depth, .members⟩) :=
          (if_neg hend).trans (if_neg hc)
        rw [hstep, if_neg hc]
        rfl
  | rangeEscape m place => cases h

/-! ## Whole patterns -/

open Reading (EndsEscaping)

theorem endsEscaping_concat (p : Text) (c : CodePoint) :
    EndsEscaping (p ++ [c]) ↔ ¬ EndsEscaping p ∧ c = Mark.backslash := by
  unfold EndsEscaping
  rw [List.reverse_append, List.reverse_singleton, List.singleton_append, List.takeWhile_cons]
  by_cases hc : c = Mark.backslash
  · simp only [hc, BEq.rfl, if_true, List.length_cons, and_true]
    omega
  · simp [hc]

/-- **The scanner ends in the middle of an escape exactly if the pattern does.** -/
theorem escaping_run (p : Text) :
    (EndsEscaping p → (start.run p).2.escaping = some (p.length - 1)) ∧
      (¬ EndsEscaping p → (start.run p).2.escaping = none) := by
  induction p using List.reverseRecOn with
  | nil => exact ⟨fun h => absurd h (by simp [EndsEscaping]), fun _ => rfl⟩
  | append_singleton p c ih =>
    have hrun : (start.run (p ++ [c])).2 = ((start.run p).2.step c).2 := by
      rw [State.run_append]
      rfl
    rw [hrun, endsEscaping_concat]
    by_cases hp : EndsEscaping p
    · exact ⟨fun h => absurd hp h.1, fun _ => escaping_step_escaped (ih.1 hp) c⟩
    · have hoffset : (start.run p).2.offset = (p ++ [c]).length - 1 := by
        rw [State.offset_run, List.length_append]
        exact Nat.zero_add _
      rw [escaping_step (ih.2 hp), hoffset]
      exact ⟨fun h => if_pos h.2, fun h => if_neg fun hc => h ⟨hp, hc⟩⟩

end Scanner

end Glob
