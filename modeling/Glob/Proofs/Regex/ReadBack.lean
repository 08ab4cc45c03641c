import Glob.Proofs.Regex.Matching
import Glob.Regex.Reader
/-!
# Source text is read back with its meaning

`Regex.render` writes an expression as text and `Regex.read` reads a text.  What is read back is not the expression
that was written: sequences come back flat, and nothing shows where an empty expression stood.  `reread` is the
expression that comes back.  `read_render` says that it does, for every expression whose sets can be written and whose
repetitions and alternatives stand where the notation needs no more groups (`Readable`), `matches_reread` that it
matches the same, and `widthsBehind_reread` that it looks behind for nothing but what has a width.
-/
namespace Glob.Regex

/-! ## What can be written -/

/-- The text of the expression is one atom, so a mark of repetition after it applies to all of it. -/
def isAtom : Regex → Bool
  | .char _ | .any | .set _ _ | .group _ => true
  | _ => false

/-- The expression has no alternatives outside of groups. -/
def isSequence : Regex → Bool
  | .either _ _ => false
  | .seq a b => a.isSequence && b.isSequence
  | _ => true

/-- The text of the expression stands for the expression: no set is empty or has a range that is turned around, no
group is missing, and what is looked for behind has a width. -/
def Readable : Regex → Prop
  | .set _ items => items ≠ [] ∧ ∀ item ∈ items, item.1 ≤ item.2
  | .seq a b => (a.isSequence = true ∧ b.isSequence = true) ∧ a.Readable ∧ b.Readable
  | .either a b => a.isSequence = true ∧ a.Readable ∧ b.Readable
  | .group a | .notAhead a => a.Readable
  | .notBehind a => a.width?.isSome = true ∧ a.Readable
  | .many a | .optional a => a.isAtom = true ∧ a.Readable
  | .empty | .char _ | .any | .start | .stop => True

/-! ## What comes back -/

/-- Alternatives, each a sequence, as one expression. -/
def assembled (branches : List (List Regex)) : Regex := alternatives (branches.map sequence)

/-- The alternatives of an expression as they come back from its text, each as the sequence of its atoms. -/
def parts : Regex → List (List Regex)
  | .empty => [[]]
  | .seq a b => [(parts a).flatten ++ (parts b).flatten]
  | .either a b => (parts a).flatten :: parts b
  | .group a => [[.group (assembled (parts a))]]
  | .many a => [[.many (assembled (parts a))]]
  | .optional a => [[.optional (assembled (parts a))]]
  | .notAhead a => [[.notAhead (assembled (parts a))]]
  | .notBehind a => [[.notBehind (assembled (parts a))]]
  | a => [[a]]

/-- The expression that comes back from the text of an expression. -/
def reread (r : Regex) : Regex := assembled (parts r)

theorem parts_ne_nil (r : Regex) : parts r ≠ [] := by
  cases r <;> simp [parts]

theorem parts_of_isSequence {r : Regex} (h : r.isSequence = true) : ∃ atoms, parts r = [atoms] := by
  cases r with
  | either a b => simp [isSequence] at h
  | _ => exact ⟨_, rfl⟩

theorem assembled_singleton (atoms : List Regex) : assembled [atoms] = sequence atoms := rfl

theorem assembled_cons {atoms : List Regex} {branches : List (List Regex)} (h : branches ≠ []) :
    assembled (atoms :: branches) = .either (sequence atoms) (assembled branches) := by
  obtain ⟨next, rest, rfl⟩ := List.exists_cons_of_ne_nil h
  rfl

theorem matches_assembled {ignoreCase : Bool} {t : Text} {branches : List (List Regex)} (h : branches ≠ [])
    {i j : Nat} :
    Matches ignoreCase t (assembled branches) i j ↔
      ∃ branch ∈ branches, Matches ignoreCase t (sequence branch) i j := by
  rw [assembled, matches_alternatives (by simpa using h)]
  constructor
  · rintro ⟨r, hr, hm⟩
    obtain ⟨branch, hb, rfl⟩ := List.mem_map.1 hr
    exact ⟨branch, hb, hm⟩
  · rintro ⟨branch, hb, hm⟩
    exact ⟨_, List.mem_map_of_mem hb, hm⟩

/-- **What comes back matches the same.** -/
theorem matches_reread {ignoreCase : Bool} {t : Text} {r : Regex} (h : r.Readable) {i j : Nat} :
    Matches ignoreCase t r.reread i j ↔ Matches ignoreCase t r i j := by
  unfold reread
  induction r generalizing i j with
  | empty => rfl
  | char c => rfl
  | any => rfl
  | set negated items => rfl
  | start => rfl
  | stop => rfl
  | seq a b iha ihb =>
    obtain ⟨⟨ha, hb⟩, hra, hrb⟩ := h
    obtain ⟨as, has⟩ := parts_of_isSequence ha
    obtain ⟨bs, hbs⟩ := parts_of_isSequence hb
    simp only [has, assembled_singleton] at iha
    simp only [hbs, assembled_singleton] at ihb
    simp only [parts, has, hbs, List.flatten_cons, List.flatten_nil, List.append_nil, assembled_singleton,
      matches_sequence_append, iha hra, ihb hrb, Matches]
  | either a b iha ihb =>
    obtain ⟨ha, hra, hrb⟩ := h
    obtain ⟨as, has⟩ := parts_of_isSequence ha
    simp only [has, assembled_singleton] at iha
    have hb : (∃ branch ∈ parts b, Matches ignoreCase t (sequence branch) i j) ↔ Matches ignoreCase t b i j :=
      (matches_assembled (parts_ne_nil b)).symm.trans (ihb hrb)
    rw [matches_assembled (by simp [parts])]
    simp only [parts, has, List.flatten_cons, List.flatten_nil, List.append_nil, List.mem_cons, exists_eq_or_imp,
      iha hra, hb, Matches]
  | group a ih => exact ih h
  | many a ih =>
    have : Matches ignoreCase t (assembled (parts a)) = Matches ignoreCase t a := by
      funext i j
      exact propext (ih h.2)
    simp only [parts, assembled_singleton, sequence, Matches, this]
  | optional a ih => simp only [parts, assembled_singleton, sequence, Matches, ih h.2]
  | notAhead a ih =>
    simp only [parts, assembled_singleton, sequence, Matches, ih (show a.Readable from h)]
  | notBehind a ih => simp only [parts, assembled_singleton, sequence, Matches, ih h.2]

/-! ## Widths -/

def widthSum : Option Nat → Option Nat → Option Nat
  | some m, some n => some (m + n)
  | _, _ => none

theorem width_seq (a b : Regex) : (Regex.seq a b).width? = widthSum a.width? b.width? := by
  rw [width?]
  cases a.width? <;> cases b.width? <;> rfl

theorem widthSum_zero (w : Option Nat) : widthSum w (some 0) = w := by cases w <;> rfl

theorem widthSum_assoc (u v w : Option Nat) : widthSum (widthSum u v) w = widthSum u (widthSum v w) := by
  cases u <;> cases v <;> cases w <;> simp [widthSum, Nat.add_assoc]

theorem width_sequence_cons (a : Regex) (atoms : List Regex) :
    (sequence (a :: atoms)).width? = widthSum a.width? (sequence atoms).width? := by
  cases atoms with
  | nil => exact (widthSum_zero _).symm
  | cons b atoms => exact width_seq a _

theorem width_sequence_append (as bs : List Regex) :
    (sequence (as ++ bs)).width? = widthSum (sequence as).width? (sequence bs).width? := by
  induction as with
  | nil =>
    rw [List.nil_append]
    cases h : (sequence bs).width? with
    | none => rfl
    | some n => simp [sequence, width?, widthSum]
  | cons a as ih => rw [List.cons_append, width_sequence_cons, width_sequence_cons, ih, widthSum_assoc]

/-- **What comes back has the same width.** -/
theorem width_reread {r : Regex} (h : r.Readable) : r.reread.width? = r.width? := by
  unfold reread
  induction r with
  | empty | char c | any | set negated items | start | stop | notAhead a | notBehind a => rfl
  | seq a b iha ihb =>
    obtain ⟨⟨ha, hb⟩, hra, hrb⟩ := h
    obtain ⟨as, has⟩ := parts_of_isSequence ha
    obtain ⟨bs, hbs⟩ := parts_of_isSequence hb
    have hleft := iha hra
    have hright := ihb hrb
    rw [has, assembled_singleton] at hleft
    rw [hbs, assembled_singleton] at hright
    simp only [parts, has, hbs, List.flatten_cons, List.flatten_nil, List.append_nil, assembled_singleton]
    rw [width_sequence_append, hleft, hright, width_seq]
  | either a b iha ihb =>
    obtain ⟨ha, hra, hrb⟩ := h
    obtain ⟨as, has⟩ := parts_of_isSequence ha
    have hleft := iha hra
    rw [has, assembled_singleton] at hleft
    have hparts : parts (.either a b) = as :: parts b := by simp [parts, has]
    rw [hparts, assembled_cons (parts_ne_nil b), width?, width?, hleft, ihb hrb]
  | group a ih => exact ih h
  | many a ih | optional a ih => simp only [parts, assembled_singleton, sequence, width?, ih h.2]

theorem widthsBehind_sequence (rs : List Regex) : (sequence rs).widthsBehind = rs.all widthsBehind := by
  induction rs with
  | nil => rfl
  | cons r rs ih =>
    cases rs with
    | nil => simp [sequence]
    | cons next rs =>
      rw [List.all_cons, ← ih]
      rfl

theorem widthsBehind_assembled {branches : List (List Regex)} (h : branches ≠ []) :
    (assembled branches).widthsBehind = branches.all (·.all widthsBehind) := by
  induction branches with
  | nil => exact absurd rfl h
  | cons branch branches ih =>
    cases branches with
    | nil => simp [assembled_singleton, widthsBehind_sequence]
    | cons next branches =>
      rw [assembled_cons (List.cons_ne_nil _ _), widthsBehind, ih (List.cons_ne_nil _ _), widthsBehind_sequence]
      rfl

/-- **What comes back looks behind for nothing but what has a width.** -/
theorem widthsBehind_reread {r : Regex} (h : r.Readable) : r.reread.widthsBehind = true := by
  rw [reread, widthsBehind_assembled (parts_ne_nil r)]
  induction r with
  | empty | char c | any | set negated items | start | stop => rfl
  | seq a b iha ihb =>
    obtain ⟨⟨ha, hb⟩, hra, hrb⟩ := h
    obtain ⟨as, has⟩ := parts_of_isSequence ha
    obtain ⟨bs, hbs⟩ := parts_of_isSequence hb
    have hleft := iha hra
    have hright := ihb hrb
    rw [has] at hleft
    rw [hbs] at hright
    simpa [parts, has, hbs] using And.intro hleft hright
  | either a b iha ihb =>
    obtain ⟨ha, hra, hrb⟩ := h
    obtain ⟨as, has⟩ := parts_of_isSequence ha
    have hleft := iha hra
    rw [has] at hleft
    simpa [parts, has] using And.intro hleft (ihb hrb)
  | group a ih | notAhead a ih =>
    have hbody := ih h
    rw [← widthsBehind_assembled (parts_ne_nil a)] at hbody
    simpa [parts, widthsBehind] using hbody
  | many a ih | optional a ih =>
    have hbody := ih h.2
    rw [← widthsBehind_assembled (parts_ne_nil a)] at hbody
    simpa [parts, widthsBehind] using hbody
  | notBehind a ih =>
    have hbody := ih h.2
    rw [← widthsBehind_assembled (parts_ne_nil a)] at hbody
    have hwidth := width_reread h.2
    rw [reread] at hwidth
    simpa [parts, widthsBehind, hwidth, h.1] using hbody

namespace Reader

/-! ## Characters and sets -/

/-- The alternatives and the sequence at hand, both with the last one first, after `branches` more alternatives, of
which the first goes on with the sequence. -/
def grown (alternatives atoms : List Regex) : List (List Regex) → List Regex × List Regex
  | [] => (alternatives, atoms)
  | [branch] => (alternatives, branch.reverse ++ atoms)
  | branch :: branches => grown (sequence (branch.reverse ++ atoms).reverse :: alternatives) [] branches

theorem close_grown {branches : List (List Regex)} (h : branches ≠ []) (alternatives : List Regex) :
    close (grown alternatives [] branches).1 (grown alternatives [] branches).2 =
      Regex.alternatives (alternatives.reverse ++ branches.map sequence) := by
  induction branches generalizing alternatives with
  | nil => exact absurd rfl h
  | cons branch branches ih =>
    cases branches with
    | nil => simp [grown, close]
    | cons next branches =>
      rw [grown, ih (by simp)]
      · simp
      · exact List.cons_ne_nil _ _

theorem run_cons {s u : State} {c : CodePoint} (h : s.step c = .ok u) (rest : Text) :
    s.run (c :: rest) = u.run rest := by
  rw [State.run, h]

/-- Outside of sets, a character that needs no backslash stands for itself. -/
theorem plain_char {s : State} {c : CodePoint} (h : specials.contains c = false) :
    s.plain c = .ok (s.push (.char c)) := by
  unfold State.plain
  split <;> first | rfl | simp [specials] at h

theorem not_isNamed_of_mem {c : CodePoint} {marks : List CodePoint} (hmarks : marks.all (!isNamed ·) = true)
    (h : marks.contains c = true) : isNamed c = false := by
  have := List.all_eq_true.1 hmarks c (List.contains_iff_mem.1 h)
  simpa using this

theorem run_renderChar (k : Nat) (fs : List Frame) (alts atoms : List Regex) (c : CodePoint) :
    (⟨k, fs, alts, atoms, .plain⟩ : State).run (renderChar c) =
      .ok ⟨k + (renderChar c).length, fs, alts, .char c :: atoms, .plain⟩ := by
  unfold renderChar
  cases h : specials.contains c with
  | true =>
    have hnamed : isNamed c = false := not_isNamed_of_mem (by decide) h
    have hZ : c ≠ 0x5A := by
      rintro rfl
      simp [specials] at h
    rw [if_pos rfl, run_cons (u := ⟨k + 1, fs, alts, atoms, .escape k⟩) rfl]
    simp [State.run, State.step, State.next, State.push, hnamed, hZ]
  | false => simp [State.run, State.step, plain_char h, State.next, State.push]

/-- A set character begins a member, whether it is written with a backslash or without. -/
theorem run_renderSetChar (k : Nat) (fs : List Frame) (alts atoms : List Regex) (o : OpenSet) (c : CodePoint) :
    ∃ m : Member, m.char = c ∧
      (⟨k, fs, alts, atoms, .set o⟩ : State).run (renderSetChar c) =
        .ok ⟨k + (renderSetChar c).length, fs, alts, atoms, .member o m⟩ := by
  unfold renderSetChar
  cases h : setSpecials.contains c with
  | true =>
    have hnamed : isNamed c = false := not_isNamed_of_mem (by decide) h
    refine ⟨⟨c, true, k⟩, rfl, ?_⟩
    rw [if_pos rfl, run_cons (u := ⟨k + 1, fs, alts, atoms, .setEscape o k⟩) (by
      simp [State.step, State.setChar, State.next, Mark.backslash, Mark.closeBracket])]
    simp [State.run, State.step, State.next, hnamed]
  | false =>
    simp only [setSpecials, List.contains_eq_mem, List.mem_cons, decide_eq_false_iff_not, not_or] at h
    refine ⟨⟨c, false, k⟩, rfl, ?_⟩
    simp [State.run, State.step, State.setChar, State.next, h.1, h.2.1]

/-- After a member and a dash, a set character ends the range. -/
theorem run_rangeEnd (k : Nat) (fs : List Frame) (alts atoms : List Regex) (o : OpenSet) (m : Member)
    {hi : CodePoint} (h : m.char ≤ hi) :
    (⟨k, fs, alts, atoms, .dash o m⟩ : State).run (renderSetChar hi) =
      .ok ⟨k + (renderSetChar hi).length, fs, alts, atoms, .set (State.OpenSet.add o m.char hi)⟩ := by
  unfold renderSetChar
  have hlt : ¬ hi < m.char := Nat.not_lt.2 h
  cases hs : setSpecials.contains hi with
  | true =>
    have hnamed : isNamed hi = false := not_isNamed_of_mem (by decide) hs
    rw [if_pos rfl, run_cons (u := ⟨k + 1, fs, alts, atoms, .dashEscape o m k⟩) (by
      simp [State.step, State.next, Mark.backslash, Mark.closeBracket])]
    simp [State.run, State.step, State.next, State.range, hnamed, hlt]
  | false =>
    simp only [setSpecials, List.contains_eq_mem, List.mem_cons, decide_eq_false_iff_not, not_or] at hs
    simp [State.run, State.step, State.next, State.range, hs.1, hs.2.1, hlt]

/-- A member that no dash follows is done. -/
theorem run_after_member (k : Nat) (fs : List Frame) (alts atoms : List Regex) (o : OpenSet) (m : Member)
    {c : CodePoint} (rest : Text) (hc : c ≠ Mark.dash) :
    (⟨k, fs, alts, atoms, .member o m⟩ : State).run (c :: rest) =
      (⟨k, fs, alts, atoms, .set (State.OpenSet.add o m.char m.char)⟩ : State).run (c :: rest) := by
  simp [State.run, State.step, hc]
  rfl

/-- The text of a set's members does not begin with a dash, a caret or a closing bracket. -/
theorem renderItem_head (item : CodePoint × CodePoint) :
    ∃ c rest, renderItem item = c :: rest ∧ c ≠ Mark.dash ∧ c ≠ Mark.caret ∧ c ≠ Mark.closeBracket := by
  have hchar : ∀ c, ∃ d rest, renderSetChar c = d :: rest ∧ d ≠ Mark.dash ∧ d ≠ Mark.caret ∧
      d ≠ Mark.closeBracket := by
    intro c
    unfold renderSetChar
    cases h : setSpecials.contains c with
    | true => exact ⟨_, _, rfl, by decide, by decide, by decide⟩
    | false =>
      simp only [setSpecials, List.contains_eq_mem, List.mem_cons, decide_eq_false_iff_not, not_or] at h
      exact ⟨c, [], rfl, h.2.2.2.1, h.2.2.1, h.2.1⟩
  obtain ⟨c, rest, hc, h⟩ := hchar item.1
  unfold renderItem
  split
  · exact ⟨c, rest, hc, h⟩
  · exact ⟨c, _, by rw [hc]; rfl, h⟩

/-- The members of a set are read back in their order. -/
theorem run_items (items : List (CodePoint × CodePoint)) (hitems : ∀ item ∈ items, item.1 ≤ item.2) (k : Nat)
    (fs : List Frame) (alts atoms : List Regex) (o : OpenSet) (hne : o.items ≠ [] ∨ items ≠ []) :
    (⟨k, fs, alts, atoms, .set o⟩ : State).run (items.flatMap renderItem ++ [Mark.closeBracket]) =
      .ok ⟨k + (items.flatMap renderItem).length + 1, fs, alts,
        .set o.negated (o.items.reverse ++ items) :: atoms, .plain⟩ := by
  induction items generalizing k o with
  | nil =>
    have ho : o.items ≠ [] := by simpa using hne
    simp [State.run, State.step, State.setChar, ho, State.closeSet, State.push, State.next]
  | cons item items ih =>
    obtain ⟨lo, hi⟩ := item
    have hle : lo ≤ hi := hitems (lo, hi) List.mem_cons_self
    have hrest := ih (fun item h => hitems item (List.mem_cons_of_mem _ h))
    rw [List.flatMap_cons, List.append_assoc]
    by_cases heq : lo = hi
    · subst heq
      obtain ⟨m, hm, hrun⟩ := run_renderSetChar k fs alts atoms o lo
      -- what follows the member is no dash, whether it is a member or the end of the set
      obtain ⟨c, rest, hcr, hc⟩ : ∃ c rest, items.flatMap renderItem ++ [Mark.closeBracket] = c :: rest ∧
          c ≠ Mark.dash := by
        cases items with
        | nil => exact ⟨_, _, rfl, by decide⟩
        | cons item items =>
          obtain ⟨c, rest, hc, h, _⟩ := renderItem_head item
          exact ⟨c, _, by rw [List.flatMap_cons, hc]; rfl, h⟩
      have hitem : renderItem (lo, lo) = renderSetChar lo := by simp [renderItem]
      rw [hitem, State.run_append, hrun, Except.bind, hcr, run_after_member _ _ _ _ _ _ _ hc, ← hcr,
        hrest _ _ (by simp [State.OpenSet.add])]
      simp [State.OpenSet.add, hm, Nat.add_assoc]
    · obtain ⟨m, hm, hrun⟩ := run_renderSetChar k fs alts atoms o lo
      have hitem : renderItem (lo, hi) = renderSetChar lo ++ ([Mark.dash] ++ renderSetChar hi) := by
        simp [renderItem, heq]
      have hdash : (⟨k + (renderSetChar lo).length, fs, alts, atoms, .member o m⟩ : State).run [Mark.dash] =
          .ok ⟨k + (renderSetChar lo).length + 1, fs, alts, atoms, .dash o m⟩ := by
        simp [State.run, State.step, State.next]
      rw [hitem, State.run_append, State.run_append, hrun, Except.bind, State.run_append, hdash, Except.bind,
        run_rangeEnd _ _ _ _ _ _ (hm ▸ hle), Except.bind, hrest _ _ (by simp [State.OpenSet.add])]
      simp [State.OpenSet.add, hm]
      omega

theorem run_set (negated : Bool) (items : List (CodePoint × CodePoint)) (hne : items ≠ [])
    (hitems : ∀ item ∈ items, item.1 ≤ item.2) (k : Nat) (fs : List Frame) (alts atoms : List Regex) :
    (⟨k, fs, alts, atoms, .plain⟩ : State).run (render (.set negated items)) =
      .ok ⟨k + (render (.set negated items)).length, fs, alts, .set negated items :: atoms, .plain⟩ := by
  have hall := run_items items hitems
  cases negated with
  | true =>
    simp only [render, if_true, List.cons_append, List.nil_append]
    rw [run_cons (u := ⟨k + 1, fs, alts, atoms, .setOpened k⟩) rfl,
      run_cons (u := ⟨k + 1 + 1, fs, alts, atoms, .set ⟨k, true, []⟩⟩) rfl, hall _ _ _ _ _ (.inr hne)]
    simp
    omega
  | false =>
    obtain ⟨item, items', rfl⟩ := List.exists_cons_of_ne_nil hne
    obtain ⟨c, rest, hc, _, hcaret, _⟩ := renderItem_head item
    have hopen : ∀ text, (⟨k + 1, fs, alts, atoms, .setOpened k⟩ : State).run (c :: text) =
        (⟨k + 1, fs, alts, atoms, .set ⟨k, false, []⟩⟩ : State).run (c :: text) := fun text => by
      simp [State.run, State.step, hcaret]
      rfl
    have hrun := hall (k + 1) fs alts atoms ⟨k, false, []⟩ (.inr hne)
    rw [List.flatMap_cons, hc, List.cons_append, List.cons_append, ← hopen] at hrun
    simp only [render, Bool.false_eq_true, if_false, List.nil_append, List.flatMap_cons, hc, List.cons_append]
    rw [run_cons (u := ⟨k + 1, fs, alts, atoms, .setOpened k⟩) rfl, hrun]
    simp
    omega

/-! ## Groups, repetitions and sequences -/

/-- The text of an atom comes back as one expression that may be repeated. -/
theorem parts_of_isAtom {r : Regex} (h : r.isAtom = true) :
    ∃ atom, parts r = [[atom]] ∧ isAnchor atom = false ∧ isRepeat atom = false := by
  cases r with
  | char c => exact ⟨_, rfl, rfl, rfl⟩
  | any => exact ⟨_, rfl, rfl, rfl⟩
  | set negated items => exact ⟨_, rfl, rfl, rfl⟩
  | group a => exact ⟨_, rfl, rfl, rfl⟩
  | _ => simp [isAtom] at h

/-- A closing parenthesis makes one atom of what was read since its group was opened. -/
theorem run_closeParen (k place : Nat) (fs : List Frame) (kind : GroupKind) (alts atoms : List Regex)
    {branches : List (List Regex)} (h : branches ≠ []) :
    (⟨k, ⟨kind, place, alts, atoms⟩ :: fs, (grown [] [] branches).1, (grown [] [] branches).2, .plain⟩ : State).run
        [Mark.closeParen] =
      .ok ⟨k + 1, fs, alts, kind.regex (assembled branches) :: atoms, .plain⟩ := by
  have hclose := close_grown h []
  rw [List.reverse_nil, List.nil_append] at hclose
  simp [State.run, State.step, State.plain, State.next, hclose, assembled]

/-- What stands in parentheses is read as one atom, whatever the mark after the opening parenthesis. -/
theorem run_in_group {a : Regex} (kind : GroupKind) (opening : Text) (k : Nat) (fs : List Frame)
    (alts atoms : List Regex)
    (hopen : ∀ rest, (⟨k, fs, alts, atoms, .plain⟩ : State).run (opening ++ rest) =
      (⟨k + opening.length, ⟨kind, k, alts, atoms⟩ :: fs, [], [], .plain⟩ : State).run rest)
    (hbody : ∀ k fs, (⟨k, fs, [], [], .plain⟩ : State).run a.render =
      .ok ⟨k + a.render.length, fs, (grown [] [] a.parts).1, (grown [] [] a.parts).2, .plain⟩) :
    (⟨k, fs, alts, atoms, .plain⟩ : State).run (opening ++ a.render ++ [Mark.closeParen]) =
      .ok ⟨k + (opening ++ a.render ++ [Mark.closeParen]).length, fs, alts,
        kind.regex (assembled (parts a)) :: atoms, .plain⟩ := by
  rw [List.append_assoc, hopen, State.run_append, hbody, Except.bind, run_closeParen _ _ _ _ _ _ (parts_ne_nil a)]
  simp [Nat.add_assoc]

/-- **Reading what was written** adds the alternatives of the expression to the state. -/
theorem run_render {r : Regex} (h : r.Readable) (k : Nat) (fs : List Frame) (alts atoms : List Regex) :
    (⟨k, fs, alts, atoms, .plain⟩ : State).run r.render =
      .ok ⟨k + r.render.length, fs, (grown alts atoms r.parts).1, (grown alts atoms r.parts).2, .plain⟩ := by
  induction r generalizing k fs alts atoms with
  | empty => rfl
  | char c => exact run_renderChar k fs alts atoms c
  | any => rfl
  | set negated items => exact run_set negated items h.1 h.2 k fs alts atoms
  | start => rfl
  | stop => rfl
  | seq a b iha ihb =>
    obtain ⟨⟨ha, hb⟩, hra, hrb⟩ := h
    obtain ⟨as, has⟩ := parts_of_isSequence ha
    obtain ⟨bs, hbs⟩ := parts_of_isSequence hb
    rw [render, State.run_append, iha hra, Except.bind, ihb hrb]
    simp [parts, has, hbs, grown, Nat.add_assoc]
  | either a b iha ihb =>
    obtain ⟨ha, hra, hrb⟩ := h
    obtain ⟨as, has⟩ := parts_of_isSequence ha
    obtain ⟨b₀, bs, hbs⟩ := List.exists_cons_of_ne_nil (parts_ne_nil b)
    rw [render, State.run_append, iha hra, Except.bind, has, grown]
    rw [run_cons (u := ⟨k + a.render.length + 1, fs, sequence (as.reverse ++ atoms).reverse :: alts, [], .plain⟩) rfl,
      ihb hrb, parts, has, hbs]
    simp [grown]
    omega
  | group a ih => exact run_in_group .plain _ k fs alts atoms (fun _ => rfl) (fun k fs => ih h k fs [] [])
  | many a ih =>
    obtain ⟨atom, hatom, hanchor, hrepeat⟩ := parts_of_isAtom h.1
    rw [render, State.run_append, ih h.2, Except.bind]
    simp [hatom, grown, parts, assembled, alternatives, sequence, State.run, State.step, State.plain, State.again,
      hanchor, hrepeat, State.next, Nat.add_assoc]
  | optional a ih =>
    obtain ⟨atom, hatom, hanchor, hrepeat⟩ := parts_of_isAtom h.1
    rw [render, State.run_append, ih h.2, Except.bind]
    simp [hatom, grown, parts, assembled, alternatives, sequence, State.run, State.step, State.plain, State.again,
      hanchor, hrepeat, State.next, Nat.add_assoc]
  | notAhead a ih => exact run_in_group .notAhead _ k fs alts atoms (fun _ => rfl) (fun k fs => ih h k fs [] [])
  | notBehind a ih => exact run_in_group .notBehind _ k fs alts atoms (fun _ => rfl) (fun k fs => ih h.2 k fs [] [])

end Reader

/-- **The source text of an expression is read back**, as an expression that matches the same
(`matches_reread`). -/
theorem read_render {r : Regex} (h : r.Readable) : read r.render = .ok r.reread := by
  have hrun := Reader.run_render h 0 [] [] []
  have hclose := Reader.close_grown (parts_ne_nil r) []
  rw [List.reverse_nil, List.nil_append] at hclose
  rw [read, Reader.start, hrun]
  simp [Reader.State.finish, hclose, reread, assembled]

end Glob.Regex
