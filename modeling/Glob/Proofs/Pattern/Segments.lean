import Glob.Proofs.Pattern.Nodes
import Glob.Proofs.Text.Pieces
/-!
# The expression of segments takes what the segments pick

`segments_match` closes the gap between nodes and patterns.  What a list of segments picks is laid along the candidate
from an offset on: where a separator is due before the first piece, what is left of the candidate is every piece behind
a separator (`PickedBehind`); where it has been taken, it is the pieces joined (`PickedJoined`).  `segmentsAfter_match`
tells both, and the one candidate on which the expression and the reading differ: below the root, a final `**` does not
take the empty list.
-/
namespace Glob.Expression

open Regex (Matches)
open Relation (ReflTransGen)

variable {o : Options} {x : Text} {i j : Nat}

theorem drop_eq_cons_iff {d : CodePoint} : x.drop i = d :: x.drop (i + 1) ↔ x[i]? = some d := by
  constructor
  · intro h
    rw [← List.head?_drop, h, List.head?_cons]
  · intro h
    obtain ⟨hi, rfl⟩ := List.getElem?_eq_some_iff.1 h
    exact List.drop_eq_getElem_cons hi

theorem drop_of_drop_eq {w t : Text} (h : x.drop i = w ++ t) : x.drop (i + w.length) = t := by
  rw [← List.drop_drop, h, List.drop_left]

theorem exists_part (hij : i ≤ j) (hj : j ≤ x.length) : ∃ w, j = i + w.length ∧ x.drop i = w ++ x.drop j :=
  ⟨x.slice i j, by rw [Text.slice_length x hj]; omega, (Text.slice_append_drop x hij).symm⟩

theorem part_le {w : Text} (hi : i ≤ x.length) (h : x.drop i = w ++ x.drop j) (hj : j = i + w.length) :
    j ≤ x.length := by
  have := congrArg List.length h
  simp only [List.length_append, List.length_drop] at this
  omega

theorem between_part {test : CodePoint → Prop} {w : Text} (hw : x.drop i = w ++ x.drop j) (hj : j = i + w.length) :
    Between x test i j ↔ ∀ d ∈ w, test d := by
  have hget : ∀ k, k < w.length → x[i + k]? = w[k]? := by
    intro k hk
    rw [← List.getElem?_drop, hw, List.getElem?_append_left hk]
  constructor
  · rintro ⟨_, h⟩ d hd
    obtain ⟨k, hk, rfl⟩ := List.getElem_of_mem hd
    obtain ⟨d, hd, htest⟩ := h (i + k) (by omega) (by omega)
    rw [hget k hk, List.getElem?_eq_getElem hk] at hd
    exact Option.some.inj hd ▸ htest
  · intro h
    refine ⟨by omega, fun k h1 h2 => ?_⟩
    obtain ⟨m, rfl⟩ := Nat.exists_eq_add_of_le h1
    have hm : m < w.length := by omega
    exact ⟨w[m], by rw [hget m hm, List.getElem?_eq_getElem hm], h _ (List.getElem_mem hm)⟩

/-! ## Components -/

theorem separator_matches : Matches (!o.caseSensitive) x separator i j ↔ j = i + 1 ∧ x[i]? = some Mark.slash := by
  simp only [separator, char_matches, Options.same_slash, exists_eq_right]

theorem many_notSeparator_matches {w : Text} (hw : x.drop i = w ++ x.drop j) (hj : j = i + w.length) :
    Matches (!o.caseSensitive) x (.many notSeparator) i j ↔ Mark.slash ∉ w := by
  rw [many_single fun _ _ => notSeparator_matches, between_part hw hj]
  exact ⟨fun h hmem => h _ hmem rfl, fun h d hd heq => h (heq ▸ hd)⟩

/-- The dot that a component may not begin with is looked for where the component begins, even if it is empty; so it
must not be what follows. -/
theorem component_part {w : Text} (hdot : x[j]? ≠ some Mark.dot) (hw : x.drop i = w ++ x.drop j)
    (hj : j = i + w.length) : Matches (!o.caseSensitive) x (component o) i j ↔ o.Component w := by
  unfold component Options.Component
  cases o.literalLeadingDot with
  | false => simpa using many_notSeparator_matches hw hj
  | true =>
    have hhead : x[i]? ≠ some Mark.dot ↔ w.head? ≠ some Mark.dot := by
      cases w with
      | nil => simpa [hj] using hdot
      | cons d w => rw [← List.head?_drop, hw, List.cons_append, List.head?_cons, List.head?_cons]
    show (∃ k, (k = i ∧ ∀ l, ¬ Matches _ x (.char Mark.dot) i l) ∧ Matches _ x (.many notSeparator) k j) ↔ _
    simp only [dot_matches, hhead, true_implies]
    constructor
    · rintro ⟨_, ⟨rfl, h⟩, hmany⟩
      exact ⟨(many_notSeparator_matches hw hj).1 hmany, h⟩
    · rintro ⟨hslash, h⟩
      exact ⟨i, ⟨rfl, h⟩, (many_notSeparator_matches hw hj).2 hslash⟩

theorem component_matches (hi : i ≤ x.length) (hdot : x[j]? ≠ some Mark.dot) :
    Matches (!o.caseSensitive) x (component o) i j ↔
      ∃ w, o.Component w ∧ j = i + w.length ∧ x.drop i = w ++ x.drop j := by
  constructor
  · intro h
    obtain ⟨w, hj, hw⟩ := exists_part h.le (h.le_length hi)
    exact ⟨w, (component_part hdot hw hj).1 h, hj, hw⟩
  · rintro ⟨w, hcomp, hj, hw⟩
    exact (component_part hdot hw hj).2 hcomp

theorem components_match (hi : i ≤ x.length) :
    Matches (!o.caseSensitive) x (components o) i j ↔
      ∃ ws, (∀ w ∈ ws, o.Component w) ∧ j = offsetAfter ws i ∧
        x.drop i = ws.flatMap (· ++ [Mark.slash]) ++ x.drop j := by
  have hstep : ∀ {i k}, i ≤ x.length → (Matches (!o.caseSensitive) x (.group (.seq (component o) separator)) i k ↔
      ∃ w, o.Component w ∧ k = i + w.length + 1 ∧ x.drop i = w ++ Mark.slash :: x.drop k) := by
    intro i k hi
    show (∃ l, Matches _ x (component o) i l ∧ Matches _ x separator l k) ↔ _
    simp only [separator_matches]
    constructor
    · rintro ⟨l, hcomp, rfl, hl⟩
      obtain ⟨w, hw, rfl, hdrop⟩ := (component_matches hi (by rw [hl]; decide)).1 hcomp
      exact ⟨w, hw, rfl, by rw [hdrop, drop_eq_cons_iff.2 hl]⟩
    · rintro ⟨w, hw, rfl, hdrop⟩
      have hl := drop_of_drop_eq hdrop
      have hslash := drop_eq_cons_iff.1 hl
      exact ⟨_, (component_matches hi (by rw [hslash]; decide)).2 ⟨w, hw, rfl, by rw [hl, hdrop]⟩, rfl, hslash⟩
  constructor
  · intro h
    induction h using ReflTransGen.head_induction_on with
    | refl => exact ⟨[], by simp, rfl, rfl⟩
    | head h _ ih =>
      obtain ⟨ws, hws, hj, hdrop⟩ := ih (h.le_length hi)
      obtain ⟨w, hw, rfl, hpart⟩ := (hstep hi).1 h
      refine ⟨w :: ws, List.forall_mem_cons.2 ⟨hw, hws⟩, ?_, ?_⟩
      · rw [hj]
        simp only [offsetAfter, List.flatMap_cons, List.length_append, List.length_singleton]
        omega
      · rw [hpart, hdrop]
        simp
  · rintro ⟨ws, hws, hj, hdrop⟩
    induction ws generalizing i with
    | nil =>
      obtain rfl : j = i := by simpa [offsetAfter] using hj
      exact .refl
    | cons w ws ih =>
      obtain ⟨hw, hws⟩ := List.forall_mem_cons.1 hws
      have hpart : x.drop i = (w ++ [Mark.slash]) ++ (ws.flatMap (· ++ [Mark.slash]) ++ x.drop j) := by
        rw [hdrop, List.flatMap_cons, List.append_assoc]
      have hnext : x.drop (i + w.length + 1) = ws.flatMap (· ++ [Mark.slash]) ++ x.drop j := by
        simpa [Nat.add_assoc] using drop_of_drop_eq hpart
      have hle : i + w.length + 1 ≤ x.length := by
        have := congrArg List.length hpart
        simp only [List.length_append, List.length_drop, List.length_singleton] at this
        omega
      refine .head ((hstep hi).2 ⟨w, hw, rfl, ?_⟩) (ih hle hws ?_ hnext)
      · rw [hpart, hnext]
        simp
      · rw [hj]
        simp only [offsetAfter, List.flatMap_cons, List.length_append, List.length_singleton]
        omega

/-- No dot stands where only pieces behind separators are left. -/
theorem no_dot_of_drop {ws : List Text} (h : x.drop i = ws.flatMap (Mark.slash :: ·)) : x[i]? ≠ some Mark.dot := by
  rw [← List.head?_drop, h]
  cases ws with
  | nil => simp
  | cons w ws =>
    rw [List.flatMap_cons, List.cons_append, List.head?_cons]
    decide

theorem moreComponents_match (hi : i ≤ x.length) :
    Matches (!o.caseSensitive) x (.many (.group (.seq separator (component o)))) i x.length ↔
      ∃ ws : List Text, (∀ w ∈ ws, o.Component w) ∧ x.drop i = ws.flatMap (Mark.slash :: ·) := by
  constructor
  · intro h
    induction h using ReflTransGen.head_induction_on with
    | refl => exact ⟨[], by simp, by simp⟩
    | @head i k h _ ih =>
      obtain ⟨ws, hws, hdrop⟩ := ih (h.le_length hi)
      obtain ⟨l, hsep, hcomp⟩ : ∃ l, Matches _ x separator i l ∧ Matches _ x (component o) l k := h
      obtain ⟨w, hw, -, hpart⟩ := (component_matches (hsep.le_length hi) (no_dot_of_drop hdrop)).1 hcomp
      obtain ⟨rfl, hslash⟩ := separator_matches.1 hsep
      refine ⟨w :: ws, List.forall_mem_cons.2 ⟨hw, hws⟩, ?_⟩
      rw [drop_eq_cons_iff.2 hslash, hpart, hdrop, List.flatMap_cons, List.cons_append]
  · rintro ⟨ws, hws, hdrop⟩
    induction ws generalizing i with
    | nil =>
      obtain rfl : i = x.length := Nat.le_antisymm hi (List.drop_eq_nil_iff.1 hdrop)
      exact .refl
    | cons w ws ih =>
      obtain ⟨hw, hws⟩ := List.forall_mem_cons.1 hws
      rw [List.flatMap_cons, List.cons_append] at hdrop
      have hi' : i + 1 ≤ x.length := by
        have := congrArg List.length hdrop
        simp only [List.length_drop, List.length_cons] at this
        omega
      have hnext : x.drop (i + 1) = w ++ ws.flatMap (Mark.slash :: ·) := drop_of_drop_eq (w := [Mark.slash]) hdrop
      have hrest := drop_of_drop_eq hnext
      have hslash : x[i]? = some Mark.slash := drop_eq_cons_iff.1 (hnext ▸ hdrop)
      refine .head ⟨_, separator_matches.2 ⟨rfl, hslash⟩, ?_⟩ (ih (part_le hi' (hrest ▸ hnext) rfl) hws hrest)
      exact (component_matches hi' (no_dot_of_drop hrest)).2 ⟨w, hw, rfl, hrest ▸ hnext⟩

theorem any_matches (hi : i ≤ x.length) : Matches (!o.caseSensitive) x (.many .any) i x.length := by
  have hany : ∀ i j, Matches (!o.caseSensitive) x .any i j ↔ j = i + 1 ∧ ∃ d, x[i]? = some d ∧ True := by
    intro i j
    simp only [Matches, and_true]
    refine and_congr_right fun _ => ⟨fun h => ⟨_, List.getElem?_eq_getElem h⟩, ?_⟩
    rintro ⟨d, hd⟩
    exact (List.getElem?_eq_some_iff.1 hd).1
  obtain ⟨w, hj, hw⟩ := exists_part hi (Nat.le_refl _)
  exact (many_single hany).2 ((between_part hw hj).2 fun _ _ => trivial)

/-- Without a rule for dots any text is a list of components. -/
theorem anyPath_matches (hi : i ≤ x.length) :
    Matches (!o.caseSensitive) x (anyPath o) i x.length ↔
      ∃ ws, ws ≠ [] ∧ (∀ w ∈ ws, o.Component w) ∧ x.drop i = Text.join [Mark.slash] ws := by
  unfold anyPath
  cases hdot : o.literalLeadingDot with
  | false =>
    refine ⟨fun _ => ⟨Text.splitAt Mark.slash (x.drop i), Text.splitAt_ne_nil _ _, fun w hw => ?_, ?_⟩,
      fun _ => any_matches hi⟩
    · exact ⟨Text.not_mem_of_mem_splitAt hw, fun h => by rw [hdot] at h; cases h⟩
    · exact (Text.join_splitAt _).symm
  | true =>
    show (x.length = i ∨ ∃ k, Matches _ x (component o) i k ∧
      Matches _ x (.many (.group (.seq separator (component o)))) k x.length) ↔ _
    constructor
    · rintro (rfl | ⟨k, hcomp, hmore⟩)
      · exact ⟨[[]], List.cons_ne_nil _ _, by simp [Options.Component], by simp [Text.join]⟩
      · obtain ⟨ws, hws, hdrop⟩ := (moreComponents_match (hcomp.le_length hi)).1 hmore
        obtain ⟨w, hw, -, hpart⟩ := (component_matches hi (no_dot_of_drop hdrop)).1 hcomp
        refine ⟨w :: ws, List.cons_ne_nil _ _, List.forall_mem_cons.2 ⟨hw, hws⟩, ?_⟩
        rw [Text.join_cons, ← hdrop, hpart]
    · rintro ⟨ws, hne, hws, hdrop⟩
      obtain ⟨w, ws, rfl⟩ := List.exists_cons_of_ne_nil hne
      obtain ⟨hw, hws⟩ := List.forall_mem_cons.1 hws
      rw [Text.join_cons] at hdrop
      have hrest := drop_of_drop_eq hdrop
      refine .inr ⟨_, (component_matches hi (no_dot_of_drop hrest)).2 ⟨w, hw, rfl, hrest ▸ hdrop⟩, ?_⟩
      exact (moreComponents_match (part_le hi (hrest ▸ hdrop) rfl)).2 ⟨ws, hws, hrest⟩

/-! ## Segments -/

/-- What is left of the candidate is what the segments pick, each piece behind a separator. -/
def PickedBehind (o : Options) (x : Text) (ss : List Segment) (i : Nat) : Prop :=
  ∃ ws : List Text, Lie o x ss (i + 1) ws ∧ x.drop i = ws.flatMap (Mark.slash :: ·)

/-- What is left of the candidate is what the segments pick, with separators between. -/
def PickedJoined (o : Options) (x : Text) (ss : List Segment) (i : Nat) : Prop :=
  ∃ ws, Lie o x ss i ws ∧ x.drop i = Text.join [Mark.slash] ws

/-- The segments are one `**`. -/
def Sole (ss : List Segment) : Prop := ∃ s, ss = [s] ∧ s.isRecursive = true

/-- What the expression of segments needs from them. -/
structure Ready (o : Options) (ss : List Segment) : Prop where
  wellFormed : ∀ s ∈ ss, s.WellFormed
  separate : ss.IsChain Segment.Separate
  folds : o.caseSensitive = false → ∀ s ∈ ss, NodesFold false s.nodes
  dots : o.literalLeadingDot = true → o.literalSeparator = true

variable {s : Segment} {rest : List Segment} {underRoot : Bool}

theorem Ready.tail (h : Ready o (s :: rest)) : Ready o rest where
  wellFormed a ha := h.wellFormed a (List.mem_cons_of_mem _ ha)
  separate := h.separate.tail
  folds hcase a ha := h.folds hcase a (List.mem_cons_of_mem _ ha)
  dots := h.dots

/-- Behind a `**` there is no other one. -/
theorem plain_next {next : Segment} (h : (s :: next :: rest).IsChain Segment.Separate) (hrec : s.isRecursive = true) :
    next.isRecursive = false := by
  have hsep := (List.isChain_cons_cons.1 h).1
  simpa [Segment.Separate, hrec] using hsep

theorem segment_matches (h : Ready o (s :: rest)) (hrec : s.isRecursive = false) (hi : i ≤ x.length)
    (hstart : ComponentStart x i) :
    Matches (!o.caseSensitive) x (segment o s) i j ↔ nodesTake o x s.nodes i j :=
  nodes_match h.dots s.nodes ((h.wellFormed s List.mem_cons_self).resolve_left (by simp [hrec]))
    (fun hcase => h.folds hcase s List.mem_cons_self) hi fun _ => hstart

theorem componentStart_behind (h : x[i]? = some Mark.slash) : ComponentStart x (i + 1) := .inr ⟨i, rfl, h⟩

theorem componentStart_offsetAfter {ws : List Text} {t : Text} (hstart : ComponentStart x i)
    (h : x.drop i = ws.flatMap (· ++ [Mark.slash]) ++ t) : ComponentStart x (offsetAfter ws i) := by
  rcases List.eq_nil_or_concat ws with rfl | ⟨ws, w, rfl⟩
  · simpa [offsetAfter] using hstart
  · rw [List.concat_eq_append, List.flatMap_append, List.flatMap_singleton, ← List.append_assoc, List.append_assoc] at h
    have hslash := componentStart_behind (by rw [← List.head?_drop, drop_of_drop_eq h]; rfl)
    simpa [offsetAfter, Nat.add_assoc] using hslash

/-- The expression of a plain segment and of those behind it, where the separator before it has been taken. -/
theorem plain_matches (h : Ready o (s :: rest)) (hrec : s.isRecursive = false) (hroot : underRoot = true → s.nodes = [])
    (hrest : ∀ {k}, k ≤ x.length → (Matches (!o.caseSensitive) x (segmentsAfter o true underRoot rest) k x.length ↔
      PickedBehind o x rest k ∧ ¬ (underRoot = true ∧ Sole rest ∧ k = x.length)))
    (hi : i ≤ x.length) (hstart : ComponentStart x i) :
    Matches (!o.caseSensitive) x (.seq (segment o s) (segmentsAfter o true underRoot rest)) i x.length ↔
      PickedJoined o x (s :: rest) i ∧ ¬ (underRoot = true ∧ Sole rest ∧ i = x.length) := by
  show (∃ k, Matches _ x (segment o s) i k ∧ Matches _ x (segmentsAfter o true underRoot rest) k x.length) ↔ _
  have hempty : ∀ {k}, underRoot = true → nodesTake o x s.nodes i k → k = i := by
    intro k hunder hk
    rw [hroot hunder] at hk
    exact hk
  constructor
  · rintro ⟨k, hk, hmore⟩
    have hle := hk.le_length hi
    have htake := (segment_matches h hrec hi hstart).1 hk
    obtain ⟨⟨ws, hws, hdrop⟩, hexcept⟩ := (hrest hle).1 hmore
    obtain ⟨w, rfl, hw⟩ := exists_part hk.le hle
    refine ⟨⟨w :: ws, ?_, by rw [hw, hdrop, Text.join_cons]⟩, ?_⟩
    · rw [Lie, if_neg (by simp [hrec])]
      exact ⟨w, ws, rfl, htake, hws⟩
    · rintro ⟨hunder, hsole, hend⟩
      exact hexcept ⟨hunder, hsole, (hempty hunder htake).trans hend⟩
  · rintro ⟨⟨ws, hlie, hdrop⟩, hexcept⟩
    rw [Lie, if_neg (by simp [hrec])] at hlie
    obtain ⟨w, ws, rfl, htake, hws⟩ := hlie
    rw [Text.join_cons] at hdrop
    have hnext := drop_of_drop_eq hdrop
    have hle := part_le hi (hnext ▸ hdrop) rfl
    refine ⟨_, (segment_matches h hrec hi hstart).2 htake, (hrest hle).2 ⟨⟨ws, hws, hnext⟩, ?_⟩⟩
    rintro ⟨hunder, hsole, hend⟩
    exact hexcept ⟨hunder, hsole, (hempty hunder htake).symm.trans hend⟩

theorem join_behind {ws : List Text} (h : ws ≠ []) :
    ws.flatMap (Mark.slash :: ·) = Mark.slash :: Text.join [Mark.slash] ws := by
  obtain ⟨w, ws, rfl⟩ := List.exists_cons_of_ne_nil h
  rw [Text.join_cons, List.flatMap_cons, List.cons_append]

theorem lie_ne_nil {ws : List Text} (hrec : s.isRecursive = false) (h : Lie o x (s :: rest) i ws) : ws ≠ [] := by
  rw [Lie, if_neg (by simp [hrec])] at h
  obtain ⟨w, ws, rfl, _⟩ := h
  exact List.cons_ne_nil _ _

theorem lie_recursive_ne_nil {next : Segment} {ws : List Text} (hrec : s.isRecursive = true)
    (hnext : next.isRecursive = false) (h : Lie o x (s :: next :: rest) i ws) : ws ≠ [] := by
  rw [Lie, if_pos hrec] at h
  obtain ⟨components, ws, rfl, _, hws⟩ := h
  simp [lie_ne_nil hnext hws]

/-- The expression of a `**` and of the segments behind it, where the separator before it has been taken. -/
theorem recursive_matches (hrec : s.isRecursive = true) {next : Segment} (hnext : next.isRecursive = false)
    (hrest : ∀ {k}, k ≤ x.length → ComponentStart x k →
      (Matches (!o.caseSensitive) x (segmentsAfter o false false (next :: rest)) k x.length ↔
        PickedJoined o x (next :: rest) k)) (hi : i ≤ x.length) (hstart : ComponentStart x i) :
    Matches (!o.caseSensitive) x (.seq (components o) (segmentsAfter o false false (next :: rest))) i x.length ↔
      PickedJoined o x (s :: next :: rest) i := by
  show (∃ k, Matches _ x (components o) i k ∧ Matches _ x (segmentsAfter o false false (next :: rest)) k x.length) ↔ _
  constructor
  · rintro ⟨k, hk, hmore⟩
    obtain ⟨components, hcomps, rfl, hdrop⟩ := (components_match hi).1 hk
    obtain ⟨ws, hws, hjoin⟩ := (hrest (hk.le_length hi) (componentStart_offsetAfter hstart hdrop)).1 hmore
    refine ⟨components ++ ws, ?_, ?_⟩
    · rw [Lie, if_pos hrec]
      exact ⟨components, ws, rfl, hcomps, hws⟩
    · rw [hdrop, hjoin, Text.join_append _ (lie_ne_nil hnext hws)]
  · rintro ⟨ws, hlie, hjoin⟩
    rw [Lie, if_pos hrec] at hlie
    obtain ⟨components, ws, rfl, hcomps, hws⟩ := hlie
    rw [Text.join_append _ (lie_ne_nil hnext hws)] at hjoin
    have hdrop : x.drop (offsetAfter components i) = Text.join [Mark.slash] ws := drop_of_drop_eq hjoin
    have hk := (components_match (o := o) hi).2 ⟨components, hcomps, rfl, hdrop ▸ hjoin⟩
    exact ⟨_, hk, (hrest (hk.le_length hi) (componentStart_offsetAfter hstart hjoin)).2 ⟨ws, hws, hdrop⟩⟩

/-- A final `**` with the separator before it. -/
theorem last_matches (hrec : s.isRecursive = true) (hi : i ≤ x.length) :
    Matches (!o.caseSensitive) x (.seq separator (anyPath o)) i x.length ↔
      PickedBehind o x [s] i ∧ i ≠ x.length := by
  show (∃ k, Matches _ x separator i k ∧ Matches _ x (anyPath o) k x.length) ↔ _
  constructor
  · rintro ⟨k, hsep, hpath⟩
    have hle := hsep.le_length hi
    obtain ⟨ws, hne, hws, hjoin⟩ := (anyPath_matches hle).1 hpath
    obtain ⟨rfl, hslash⟩ := separator_matches.1 hsep
    refine ⟨⟨ws, ?_, by rw [drop_eq_cons_iff.2 hslash, hjoin, join_behind hne]⟩, by omega⟩
    rw [Lie, if_pos hrec]
    exact ⟨ws, [], by simp, hws, rfl⟩
  · rintro ⟨⟨ws, hlie, hdrop⟩, hend⟩
    rw [Lie, if_pos hrec] at hlie
    obtain ⟨components, ws, rfl, hcomps, hnil⟩ := hlie
    obtain rfl : ws = [] := hnil
    rw [List.append_nil] at hdrop
    have hne : components ≠ [] := by
      rintro rfl
      exact hend (Nat.le_antisymm hi (List.drop_eq_nil_iff.1 hdrop))
    rw [join_behind hne] at hdrop
    have hnext : x.drop (i + 1) = Text.join [Mark.slash] components := drop_of_drop_eq (w := [Mark.slash]) hdrop
    refine ⟨_, separator_matches.2 ⟨rfl, drop_eq_cons_iff.1 (hnext ▸ hdrop)⟩, ?_⟩
    exact (anyPath_matches (by omega)).2 ⟨components, hne, hcomps, hnext⟩

/-- Nothing is picked by a final `**` at the end of the candidate. -/
theorem pickedBehind_end (hrec : s.isRecursive = true) : PickedBehind o x [s] x.length := by
  refine ⟨[], ?_, by simp⟩
  rw [Lie, if_pos hrec]
  exact ⟨[], [], rfl, by simp, rfl⟩

/-- A separator that is due is written before what follows. -/
theorem due_matches {ss : List Segment} {r : Regex} (hne : ∀ {ws}, Lie o x ss (i + 1) ws → ws ≠ [])
    (hr : i + 1 ≤ x.length → ComponentStart x (i + 1) →
      (Matches (!o.caseSensitive) x r (i + 1) x.length ↔ PickedJoined o x ss (i + 1))) (hi : i ≤ x.length) :
    Matches (!o.caseSensitive) x (.seq separator r) i x.length ↔ PickedBehind o x ss i := by
  show (∃ k, Matches _ x separator i k ∧ Matches _ x r k x.length) ↔ _
  constructor
  · rintro ⟨k, hsep, hmore⟩
    have hle := hsep.le_length hi
    obtain ⟨rfl, hslash⟩ := separator_matches.1 hsep
    obtain ⟨ws, hws, hjoin⟩ := (hr hle (componentStart_behind hslash)).1 hmore
    exact ⟨ws, hws, by rw [join_behind (hne hws), ← hjoin, drop_eq_cons_iff.2 hslash]⟩
  · rintro ⟨ws, hws, hdrop⟩
    rw [join_behind (hne hws)] at hdrop
    have hnext : x.drop (i + 1) = Text.join [Mark.slash] ws := drop_of_drop_eq (w := [Mark.slash]) hdrop
    have hslash : x[i]? = some Mark.slash := drop_eq_cons_iff.1 (hnext ▸ hdrop)
    have hle := (List.getElem?_eq_some_iff.1 hslash).1
    exact ⟨_, separator_matches.2 ⟨rfl, hslash⟩, (hr hle (componentStart_behind hslash)).2 ⟨ws, hws, hnext⟩⟩

/-- **The segments behind others**: with a separator due, and, behind a `**`, with the separator taken. -/
theorem segmentsAfter_match {ss : List Segment} (h : Ready o ss) :
    (∀ {underRoot i}, i ≤ x.length →
      (Matches (!o.caseSensitive) x (segmentsAfter o true underRoot ss) i x.length ↔
        PickedBehind o x ss i ∧ ¬ (underRoot = true ∧ Sole ss ∧ i = x.length))) ∧
    ∀ {s rest i}, ss = s :: rest → s.isRecursive = false → i ≤ x.length → ComponentStart x i →
      (Matches (!o.caseSensitive) x (segmentsAfter o false false ss) i x.length ↔ PickedJoined o x ss i) := by
  induction ss with
  | nil =>
    refine ⟨fun {underRoot i} hi => ?_, by simp⟩
    simp only [segmentsAfter, Matches, PickedBehind, Lie, Sole, exists_eq_left, List.flatMap_nil, List.drop_eq_nil_iff]
    constructor
    · rintro rfl
      simp
    · intro hend
      exact Nat.le_antisymm hend.1 hi
  | cons s rest ih =>
    obtain ⟨ihdue, ihtaken⟩ := ih h.tail
    cases hrec : s.isRecursive with
    | false =>
      have hplain : ∀ {i}, i ≤ x.length → ComponentStart x i →
          (Matches (!o.caseSensitive) x (.seq (segment o s) (segmentsAfter o true false rest)) i x.length ↔
            PickedJoined o x (s :: rest) i) := by
        intro i hi hstart
        rw [plain_matches h hrec (by simp) ihdue hi hstart]
        simp
      have hnot : ¬ Sole (s :: rest) := by
        rintro ⟨s', heq, hs'⟩
        rw [(List.cons.inj heq).1, hs'] at hrec
        cases hrec
      constructor
      · intro underRoot i hi
        rw [segmentsAfter_plain hrec, if_pos rfl, due_matches (lie_ne_nil hrec) hplain hi]
        simp [hnot]
      · intro s' rest' i _ _ hi hstart
        rw [segmentsAfter_plain hrec, ← hplain hi hstart]
        simp [Matches]
    | true =>
      refine ⟨fun {underRoot i} hi => ?_, fun heq hplain => ?_⟩
      · cases rest with
        | nil =>
          have hsole : Sole [s] := ⟨s, rfl, hrec⟩
          rw [segmentsAfter_last hrec]
          cases underRoot with
          | true =>
            rw [if_pos rfl, last_matches hrec hi]
            simp [hsole]
          | false =>
            show (x.length = i ∨ Matches _ x (.seq separator (anyPath o)) i x.length) ↔ _
            rw [last_matches hrec hi]
            by_cases hend : i = x.length
            · subst hend
              simp [pickedBehind_end hrec]
            · simp [hend, Ne.symm hend]
        | cons next rest =>
          have hnext := plain_next h.separate hrec
          have hnot : ¬ Sole (s :: next :: rest) := by simp [Sole]
          rw [segmentsAfter_recursive hrec (List.cons_ne_nil _ _), if_pos rfl,
            due_matches (lie_recursive_ne_nil hrec hnext)
              (fun hi hstart => recursive_matches hrec hnext (ihtaken rfl hnext) hi hstart) hi]
          simp [hnot]
      · rw [(List.cons.inj heq).1, hplain] at hrec
        cases hrec

theorem segments_match (h : Ready o (s :: rest)) :
    Matches (!o.caseSensitive) x (segments o (s :: rest)) 0 x.length ↔
      PickedJoined o x (s :: rest) 0 ∧ ¬ (s.nodes = [] ∧ Sole rest ∧ x = []) := by
  have hstart : ComponentStart x 0 := .inl rfl
  obtain ⟨hdue, htaken⟩ := segmentsAfter_match (x := x) h.tail
  cases hrec : s.isRecursive with
  | false =>
    rw [segments_plain hrec, plain_matches h hrec List.isEmpty_iff.1 hdue (Nat.zero_le _) hstart]
    simp [eq_comm (a := 0)]
  | true =>
    have hroot : s.nodes ≠ [] := by
      rintro hnil
      simp [Segment.isRecursive, hnil] at hrec
    simp only [hroot, false_and, not_false_eq_true, and_true]
    cases rest with
    | nil =>
      rw [segments_sole hrec, anyPath_matches (Nat.zero_le _)]
      constructor
      · rintro ⟨ws, _, hws, hjoin⟩
        exact ⟨ws, by rw [Lie, if_pos hrec]; exact ⟨ws, [], by simp, hws, rfl⟩, hjoin⟩
      · rintro ⟨ws, hlie, hjoin⟩
        rw [Lie, if_pos hrec] at hlie
        obtain ⟨components, _, rfl, hcomps, rfl⟩ := hlie
        rw [List.append_nil] at hjoin
        cases components with
        | nil => exact ⟨[[]], List.cons_ne_nil _ _, by simp [Options.Component], hjoin⟩
        | cons w ws => exact ⟨_, List.cons_ne_nil _ _, hcomps, hjoin⟩
    | cons next rest =>
      have hnext := plain_next h.separate hrec
      rw [segments_recursive hrec (List.cons_ne_nil _ _),
        recursive_matches hrec hnext (htaken rfl hnext) (Nat.zero_le _) hstart]

end Glob.Expression
