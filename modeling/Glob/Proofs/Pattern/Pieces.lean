import Glob.Proofs.Pattern.Segments
/-!
# Reading a candidate piece by piece

The reading of a tree along a candidate asks for each piece where it lies.  Where the pieces are known to lay out the
candidate (`Laid`), only the pieces matter: `lie_iff` replaces the test of nodes at offsets by any test of pieces that
agrees with it.  It is used with the texts that nodes denote, where dots are not looked at, and with the one text of a
literal segment.
-/
namespace Glob

open Expression (drop_eq_cons_iff drop_of_drop_eq exists_part part_le between_part)

variable {o : Options} {x : Text}

/-! ## Where pieces lie -/

/-- The pieces, with separators between, are what is left of the candidate from offset `i`, a start of a component. -/
structure Laid (x : Text) (i : Nat) (ws : List Text) : Prop where
  drop : x.drop i = Text.join [Mark.slash] ws
  start : ws ≠ [] → ComponentStart x i

theorem Laid.whole {ws : List Text} (h : x = Text.join [Mark.slash] ws) : Laid x 0 ws := ⟨h, fun _ => .inl rfl⟩

theorem Laid.le {i : Nat} {w : Text} {ws : List Text} (h : Laid x i (w :: ws)) : i ≤ x.length := by
  rcases h.start (List.cons_ne_nil _ _) with rfl | ⟨k, rfl, hk⟩
  · exact Nat.zero_le _
  · exact (List.getElem?_eq_some_iff.1 hk).1

theorem Laid.behind {i : Nat} {w : Text} {ws : List Text} (h : Laid x i (w :: ws)) :
    x.drop (i + w.length) = ws.flatMap (Mark.slash :: ·) :=
  drop_of_drop_eq (by rw [h.drop, Text.join_cons])

theorem Laid.part {i : Nat} {w : Text} {ws : List Text} (h : Laid x i (w :: ws)) :
    x.drop i = w ++ x.drop (i + w.length) := by
  rw [h.behind, h.drop, Text.join_cons]

theorem Laid.tail {i : Nat} {w : Text} {ws : List Text} (h : Laid x i (w :: ws)) : Laid x (i + w.length + 1) ws := by
  have hrest := h.behind
  cases ws with
  | nil => exact ⟨by rw [← List.drop_drop, hrest]; rfl, fun hne => absurd rfl hne⟩
  | cons next ws =>
    rw [Expression.join_behind (List.cons_ne_nil _ _)] at hrest
    have hnext : x.drop (i + w.length + 1) = Text.join [Mark.slash] (next :: ws) :=
      drop_of_drop_eq (w := [Mark.slash]) hrest
    exact ⟨hnext, fun _ => Expression.componentStart_behind (drop_eq_cons_iff.1 (hnext ▸ hrest))⟩

theorem Laid.after {i : Nat} {components ws : List Text} (h : Laid x i (components ++ ws)) :
    Laid x (offsetAfter components i) ws := by
  induction components generalizing i with
  | nil => exact h
  | cons w components ih =>
    have := ih h.tail
    simpa [offsetAfter, Nat.add_assoc, Nat.add_comm, Nat.add_left_comm] using this

/-! ## Tests of pieces -/

/-- What segments pick, with a test for the components of a `**` and one for the piece of every other segment. -/
def PickBy (component : Text → Prop) (piece : Segment → Text → Prop) : List Segment → List Text → Prop
  | [], ws => ws = []
  | s :: rest, ws =>
    if s.isRecursive then
      ∃ components ws', ws = components ++ ws' ∧ (∀ w ∈ components, component w) ∧ PickBy component piece rest ws'
    else ∃ w ws', ws = w :: ws' ∧ piece s w ∧ PickBy component piece rest ws'

/-- **Reading along a candidate is testing its pieces.** -/
theorem lie_iff {piece : Segment → Text → Prop} {ss : List Segment} {i : Nat} {ws : List Text} (h : Laid x i ws)
    (hpiece : ∀ s ∈ ss, ∀ i w ws, Laid x i (w :: ws) → (nodesTake o x s.nodes i (i + w.length) ↔ piece s w)) :
    Lie o x ss i ws ↔ PickBy o.Component piece ss ws := by
  induction ss generalizing i ws with
  | nil => exact Iff.rfl
  | cons s rest ih =>
    have htail := fun a ha => hpiece a (List.mem_cons_of_mem _ ha)
    rw [Lie, PickBy]
    split
    · refine exists_congr fun components => exists_congr fun ws' => ?_
      refine and_congr_right fun hws => and_congr_right fun _ => ?_
      exact ih (hws ▸ h).after htail
    · refine exists_congr fun w => exists_congr fun ws' => and_congr_right fun hws => ?_
      subst hws
      rw [hpiece s List.mem_cons_self i w ws' h, ih h.tail htail]

theorem derives_iff {p : Pattern} {piece : Segment → Text → Prop}
    (hpiece : ∀ s ∈ p.segments, ∀ i w ws, Laid x i (w :: ws) →
      (nodesTake o x s.nodes i (i + w.length) ↔ piece s w)) :
    p.Derives o x ↔ ∃ ws, PickBy o.Component piece p.segments ws ∧ x = Text.join [Mark.slash] ws :=
  exists_congr fun _ => and_congr_left fun h => lie_iff (.whole h) hpiece

/-! ## Without a rule for dots -/

theorem stands_iff {text : Text} {i : Nat} :
    o.Stands x text i ↔ ∃ w, List.Forall₂ o.Same text w ∧ x.drop i = w ++ x.drop (i + w.length) := by
  induction text generalizing i with
  | nil => simp [Options.Stands]
  | cons p text ih =>
    simp only [Options.Stands, ih]
    constructor
    · rintro ⟨⟨d, hd, hsame⟩, w, hw, hdrop⟩
      refine ⟨d :: w, .cons hsame hw, ?_⟩
      rw [drop_eq_cons_iff.2 hd, hdrop, List.cons_append, List.length_cons]
      congr 3
      omega
    · rintro ⟨_, hforall, hdrop⟩
      cases hforall with
      | @cons _ d _ w hsame hw =>
        rw [List.cons_append] at hdrop
        have hnext : x.drop (i + 1) = w ++ x.drop (i + (d :: w).length) := drop_of_drop_eq (w := [d]) hdrop
        refine ⟨⟨d, drop_eq_cons_iff.1 (hnext ▸ hdrop), hsame⟩, w, hw, ?_⟩
        rw [hnext, List.length_cons]
        congr 2
        omega

theorem between_iff {test : CodePoint → Prop} {i j : Nat} (hi : i ≤ x.length) :
    Between x test i j ↔ ∃ w, (∀ d ∈ w, test d) ∧ j = i + w.length ∧ x.drop i = w ++ x.drop j := by
  constructor
  · intro h
    have hj : j ≤ x.length := by
      rcases Nat.eq_or_lt_of_le h.1 with rfl | hlt
      · exact hi
      · obtain ⟨d, hd, _⟩ := h.2 (j - 1) (by omega) (by omega)
        have := (List.getElem?_eq_some_iff.1 hd).1
        omega
    obtain ⟨w, hlen, hw⟩ := exists_part h.1 hj
    exact ⟨w, (between_part hw hlen).1 h, hlen, hw⟩
  · rintro ⟨w, htest, hlen, hw⟩
    exact (between_part hw hlen).2 htest

theorem single_iff {test : CodePoint → Prop} {i j : Nat} :
    (j = i + 1 ∧ ∃ d, x[i]? = some d ∧ test d) ↔
      ∃ w, (∃ d, w = [d] ∧ test d) ∧ j = i + w.length ∧ x.drop i = w ++ x.drop j := by
  constructor
  · rintro ⟨rfl, d, hd, htest⟩
    exact ⟨[d], ⟨d, rfl, htest⟩, rfl, drop_eq_cons_iff.2 hd⟩
  · rintro ⟨_, ⟨d, rfl, htest⟩, rfl, hdrop⟩
    exact ⟨rfl, d, drop_eq_cons_iff.1 hdrop, htest⟩

mutual

theorem node_takes_iff (hdot : o.literalLeadingDot = false) :
    (n : Node) → {i j : Nat} → i ≤ x.length →
      (n.Takes o x i j ↔ ∃ w, n.Denotes o w ∧ j = i + w.length ∧ x.drop i = w ++ x.drop j)
  | .literal text _, i, j, _ => by
    simp only [Node.Takes, Node.Denotes, stands_iff]
    constructor
    · rintro ⟨rfl, w, hw, hdrop⟩
      rw [hw.length_eq]
      exact ⟨w, hw, rfl, hdrop⟩
    · rintro ⟨w, hw, rfl, hdrop⟩
      exact ⟨by rw [hw.length_eq], w, hw, hdrop⟩
  | .anyChar _, _, _, _ => by
    simp only [Node.Takes, Node.Denotes, Options.Guarded, hdot, Bool.false_eq_true, false_implies, true_and, single_iff]
  | .star _, _, _, hi => by
    simp only [Node.Takes, Node.Denotes, Options.Guarded, hdot, Bool.false_eq_true, false_implies, true_and,
      between_iff hi]
  | .doubleStar _, _, _, hi => by
    simp only [Node.Takes, Node.Denotes, Options.Guarded, hdot, Bool.false_eq_true, false_implies, true_and,
      between_iff hi]
  | .set _ _ _, _, _, _ => by
    simp only [Node.Takes, Node.Denotes, Options.Guarded, hdot, Bool.false_eq_true, false_implies, true_and, single_iff]
  | .alternation bs _, _, _, hi => branches_take_iff hdot bs hi

/-- Without a rule for dots, what nodes take is a text that they denote. -/
theorem nodes_take_iff (hdot : o.literalLeadingDot = false) :
    (ns : List Node) → {i j : Nat} → i ≤ x.length →
      (nodesTake o x ns i j ↔ ∃ w, nodesDenote o ns w ∧ j = i + w.length ∧ x.drop i = w ++ x.drop j)
  | [], _, _, _ => by
    simp only [nodesTake, nodesDenote, exists_eq_left, List.length_nil, Nat.add_zero, List.nil_append]
    exact ⟨fun h => ⟨h, by rw [h]⟩, fun h => h.1⟩
  | n :: ns, i, j, hi => by
    simp only [nodesTake, nodesDenote, node_takes_iff hdot n hi]
    constructor
    · rintro ⟨_, ⟨u, hu, rfl, hdrop⟩, hns⟩
      obtain ⟨v, hv, rfl, hdrop'⟩ := (nodes_take_iff hdot ns (part_le hi hdrop rfl)).1 hns
      refine ⟨u ++ v, ⟨u, v, rfl, hu, hv⟩, by rw [List.length_append, Nat.add_assoc], ?_⟩
      rw [hdrop, hdrop', List.append_assoc]
    · rintro ⟨_, ⟨u, v, rfl, hu, hv⟩, rfl, hdrop⟩
      rw [List.append_assoc] at hdrop
      have hnext := drop_of_drop_eq hdrop
      have hpart := hnext ▸ hdrop
      refine ⟨_, ⟨u, hu, rfl, hpart⟩, (nodes_take_iff hdot ns (part_le hi hpart rfl)).2 ⟨v, hv, ?_, hnext⟩⟩
      rw [List.length_append, Nat.add_assoc]

theorem branches_take_iff (hdot : o.literalLeadingDot = false) :
    (bs : List (List Node)) → {i j : Nat} → i ≤ x.length →
      (branchesTake o x bs i j ↔ ∃ w, branchesDenote o bs w ∧ j = i + w.length ∧ x.drop i = w ++ x.drop j)
  | [], _, _, _ => by simp [branchesTake, branchesDenote]
  | b :: bs, _, _, hi => by
    simp only [branchesTake, branchesDenote, nodes_take_iff hdot b hi, branches_take_iff hdot bs hi, or_and_right,
      exists_or]

end

theorem picks_iff (hdot : o.literalLeadingDot = false) {ss : List Segment} {ws : List Text} :
    PickBy o.Component (fun s => nodesDenote o s.nodes) ss ws ↔ Picks o ss ws := by
  have hcomp : ∀ w, o.Component w ↔ Mark.slash ∉ w := by simp [Options.Component, hdot]
  induction ss generalizing ws with
  | nil => exact Iff.rfl
  | cons s rest ih => simp only [PickBy, Picks, hcomp, ih]

/-- **Without a rule for dots, a pattern can be read along its texts and no others.** -/
theorem derives_iff_denotes (hdot : o.literalLeadingDot = false) {p : Pattern} : p.Derives o x ↔ p.Denotes o x := by
  have hpiece : ∀ s ∈ p.segments, ∀ i w ws, Laid x i (w :: ws) →
      (nodesTake o x s.nodes i (i + w.length) ↔ nodesDenote o s.nodes w) := by
    intro s _ i w ws h
    rw [nodes_take_iff hdot s.nodes h.le]
    constructor
    · rintro ⟨w', hw', hlen, hdrop⟩
      rw [h.part] at hdrop
      rwa [List.append_inj_left hdrop (by omega)]
    · intro hw
      exact ⟨w, hw, rfl, h.part⟩
  rw [derives_iff hpiece]
  exact exists_congr fun ws => and_congr_left fun _ => picks_iff hdot

/-! ## Literal segments -/

theorem stands_exact (hcase : o.caseSensitive = true) {text : Text} {i : Nat} :
    o.Stands x text i ↔ x.drop i = text ++ x.drop (i + text.length) := by
  have hsame : ∀ text w : Text, List.Forall₂ o.Same text w ↔ text = w := by
    intro text w
    have : o.Same = Eq := by
      funext p d
      simp [Options.Same, hcase]
    rw [this, List.forall₂_eq_eq_eq]
  simp only [stands_iff, hsame, exists_eq_left']

theorem literal_takes (hcase : o.caseSensitive = true) {ns : List Node} (h : ns.all Node.isLiteral = true) {i j : Nat} :
    nodesTake o x ns i j ↔
      j = i + (ns.flatMap Node.literalText).length ∧ x.drop i = ns.flatMap Node.literalText ++ x.drop j := by
  induction ns generalizing i with
  | nil =>
    simp only [nodesTake, List.flatMap_nil, List.length_nil, Nat.add_zero, List.nil_append]
    exact ⟨fun h => ⟨h, by rw [h]⟩, fun h => h.1⟩
  | cons n ns ih =>
    obtain ⟨hn, hns⟩ := Bool.and_eq_true_iff.1 h
    cases n with
    | literal text span =>
      simp only [nodesTake, Node.Takes, stands_exact hcase, ih hns, List.flatMap_cons, Node.literalText,
        List.length_append]
      constructor
      · rintro ⟨_, ⟨rfl, hdrop⟩, rfl, hdrop'⟩
        exact ⟨by omega, by rw [hdrop, hdrop', List.append_assoc]⟩
      · rintro ⟨rfl, hdrop⟩
        rw [List.append_assoc] at hdrop
        have hnext := drop_of_drop_eq hdrop
        exact ⟨_, ⟨rfl, hnext ▸ hdrop⟩, by omega, hnext⟩
    | _ => cases hn

theorem recursive_of_isLiteral {s : Segment} (h : s.isLiteral = true) : s.isRecursive = false := by
  refine Bool.eq_false_iff.2 fun hrec => ?_
  obtain ⟨span, hnodes⟩ := Segment.isRecursive_iff.1 hrec
  rw [Segment.isLiteral, hnodes] at h
  cases h

/-- **Where case counts, a literal pattern can be read along its own text only.** -/
theorem derives_literal (hcase : o.caseSensitive = true) {p : Pattern} (h : p.isLiteral = true) :
    p.Derives o x ↔ x = p.literalText := by
  have hpiece : ∀ s ∈ p.segments, ∀ i w ws, Laid x i (w :: ws) →
      (nodesTake o x s.nodes i (i + w.length) ↔ w = s.literalText) := by
    intro s hs i w ws hlaid
    rw [literal_takes hcase (List.all_eq_true.1 h s hs)]
    constructor
    · rintro ⟨hlen, hdrop⟩
      rw [hlaid.part] at hdrop
      exact List.append_inj_left hdrop (Nat.add_left_cancel hlen)
    · rintro rfl
      exact ⟨rfl, hlaid.part⟩
  have hpick : ∀ ss : List Segment, (∀ s ∈ ss, s.isLiteral = true) → ∀ ws,
      PickBy o.Component (fun s w => w = s.literalText) ss ws ↔ ws = ss.map Segment.literalText := by
    intro ss hss
    induction ss with
    | nil => exact fun ws => Iff.rfl
    | cons s rest ih =>
      intro ws
      obtain ⟨hs, hrest⟩ := List.forall_mem_cons.1 hss
      have hrec : ¬ s.isRecursive = true := by simp [recursive_of_isLiteral hs]
      simp only [PickBy, if_neg hrec, ih hrest, List.map_cons]
      constructor
      · rintro ⟨_, _, rfl, rfl, rfl⟩
        rfl
      · rintro rfl
        exact ⟨_, _, rfl, rfl, rfl⟩
  rw [derives_iff hpiece]
  simp only [hpick p.segments (List.all_eq_true.1 h), exists_eq_left]
  rfl

end Glob
