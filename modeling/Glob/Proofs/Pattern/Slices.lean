import Glob.Plan
import Glob.Proofs.Compiling
import Glob.Proofs.Pattern.Rejoining
/-!
# Slices of a pattern

A slice of a pattern, cut at separators, is read as the segments that it was cut for, apart from their spans (`ReadAs`).
The expression of a tree does not look at spans, so the matcher of a slice has the expression of its segments
(`ReadAs.ofPattern?`).

The segments that a plan walks are those of some of the first pieces of the pattern: `Parser.exists_walked`.
-/
namespace Glob

variable {o : Options}

/-! ## Expressions do not look at spans -/

mutual

theorem Node.placeAfter_bare (place : Place) : (n : Node) → n.bare.placeAfter place = n.placeAfter place
  | .literal _ _ | .anyChar _ | .star _ | .doubleStar _ | .set _ _ _ => rfl
  | .alternation bs _ => congrArg Place.join (branchPlaces_bare place bs)

theorem placeAfter_bare (place : Place) : (ns : List Node) → placeAfter place (nodesBare ns) = placeAfter place ns
  | [] => rfl
  | n :: ns => by
    rw [nodesBare, placeAfter, n.placeAfter_bare, placeAfter_bare _ ns, placeAfter]

theorem branchPlaces_bare (place : Place) :
    (bs : List (List Node)) → branchPlaces place (branchesBare bs) = branchPlaces place bs
  | [] => rfl
  | b :: bs => congrArg₂ List.cons (placeAfter_bare place b) (branchPlaces_bare place bs)

end

namespace Expression

mutual

theorem node_bare (place : Place) : (n : Node) → node o place n.bare = node o place n
  | .literal _ _ | .anyChar _ | .star _ | .doubleStar _ | .set _ _ _ => rfl
  | .alternation bs _ => congrArg (fun rs => Regex.group (Regex.alternatives rs)) (branches_bare place bs)

theorem nodes_bare (place : Place) : (ns : List Node) → nodes o place (nodesBare ns) = nodes o place ns
  | [] => rfl
  | n :: ns => by
    rw [nodesBare, nodes, node_bare place n, n.placeAfter_bare, nodes_bare _ ns, nodes]

theorem branches_bare (place : Place) :
    (bs : List (List Node)) → branches o place (branchesBare bs) = branches o place bs
  | [] => rfl
  | b :: bs => congrArg₂ List.cons (nodes_bare place b) (branches_bare place bs)

end

theorem segment_bare (s : Segment) : segment o s.bare = segment o s := nodes_bare .componentStart s.nodes

end Expression

theorem Segment.isRecursive_bare (s : Segment) : s.bare.isRecursive = s.isRecursive :=
  Segment.isRecursive_congr (nodesBare_bare s.nodes)

theorem Segment.isLiteral_bare (s : Segment) : s.bare.isLiteral = s.isLiteral := by
  have hnode : ∀ n : Node, n.bare.isLiteral = n.isLiteral := fun n => by cases n <;> rfl
  rw [Segment.isLiteral, Segment.bare, nodesBare_eq_map, List.all_map, Segment.isLiteral]
  exact congrArg _ (funext hnode)

theorem Segment.literalText_bare (s : Segment) : s.bare.literalText = s.literalText := by
  have hnode : ∀ n : Node, n.bare.literalText = n.literalText := fun n => by cases n <;> rfl
  rw [Segment.literalText, Segment.bare, nodesBare_eq_map, List.flatMap_map, Segment.literalText]
  exact congrArg (s.nodes.flatMap ·) (funext hnode)

namespace Expression

theorem segmentsAfter_bare (separatorDue underRoot : Bool) (ss : List Segment) :
    segmentsAfter o separatorDue underRoot (ss.map Segment.bare) = segmentsAfter o separatorDue underRoot ss := by
  induction ss generalizing separatorDue underRoot with
  | nil => rfl
  | cons s ss ih =>
    cases hrec : s.isRecursive with
    | false =>
      rw [List.map_cons, segmentsAfter_plain (s.isRecursive_bare.trans hrec), segmentsAfter_plain hrec, segment_bare, ih]
    | true =>
      cases ss with
      | nil => rw [List.map_cons, List.map_nil, segmentsAfter_last (s.isRecursive_bare.trans hrec), segmentsAfter_last hrec]
      | cons s' ss =>
        rw [List.map_cons, segmentsAfter_recursive (s.isRecursive_bare.trans hrec) (by simp),
          segmentsAfter_recursive hrec (List.cons_ne_nil _ _), ih]

theorem segments_bare (ss : List Segment) : segments o (ss.map Segment.bare) = segments o ss := by
  cases ss with
  | nil => rfl
  | cons s ss =>
    cases hrec : s.isRecursive with
    | false =>
      have hempty : s.bare.nodes.isEmpty = s.nodes.isEmpty := by
        rw [Segment.bare, nodesBare_eq_map, List.isEmpty_map]
      rw [List.map_cons, segments_plain (s.isRecursive_bare.trans hrec), segments_plain hrec, segment_bare, hempty,
        segmentsAfter_bare]
    | true =>
      cases ss with
      | nil => rw [List.map_cons, List.map_nil, segments_sole (s.isRecursive_bare.trans hrec), segments_sole hrec]
      | cons s' ss =>
        rw [List.map_cons, segments_recursive (s.isRecursive_bare.trans hrec) (by simp),
          segments_recursive hrec (List.cons_ne_nil _ _), segmentsAfter_bare]

end Expression

/-! ## What a slice is read as -/

/-- The text is read as the segments, apart from their spans. -/
def ReadAs (t : Text) (ss : List Segment) : Prop :=
  ∃ tree, Pattern.parse t = .ok tree ∧ tree.segments.map Segment.bare = ss.map Segment.bare

variable {t : Text} {ss ss' : List Segment}

theorem forall₂_of_bare (h : ss.map Segment.bare = ss'.map Segment.bare) :
    List.Forall₂ (fun s s' => nodesBare s.nodes = nodesBare s'.nodes) ss ss' := by
  have hbare : List.Forall₂ (fun s s' => s.bare = s'.bare) ss ss' := by
    rw [← List.forall₂_eq_eq_eq, List.forall₂_map_left_iff, List.forall₂_map_right_iff] at h
    exact h
  exact hbare.imp fun s s' hs => congrArg Segment.nodes hs

theorem Pattern.regex_congr {p p' : Pattern} (h : p.segments.map Segment.bare = p'.segments.map Segment.bare) :
    p.regex o = p'.regex o := by
  rw [Pattern.regex, Pattern.regex, ← Expression.segments_bare p.segments, h, Expression.segments_bare]

/-- **The matcher of a slice has the expression of its segments.** -/
theorem ReadAs.ofPattern? (h : ReadAs t ss) (o : Options) :
    ∃ m, Matcher.ofPattern? o t = .ok m ∧ m.options = o ∧ m.source = Pattern.regexSource o ⟨t, ss⟩ := by
  obtain ⟨tree, hparse, hsame⟩ := h
  refine ⟨_, ofPattern?_of_parse hparse o, rfl, ?_⟩
  exact congrArg Regex.render (Pattern.regex_congr hsame)

namespace Parser

variable {k : Nat} {pieces : List Piece} {placed placed' : List Segment}

/-- Pieces are the same segments wherever they are placed. -/
theorem Placed.bare_eq {k' : Nat} (h : Placed k pieces placed) (h' : Placed k' pieces placed') :
    placed.map Segment.bare = placed'.map Segment.bare := by
  induction h generalizing k' placed' with
  | nil =>
    cases h'
    rfl
  | cons hnodes _ _ ih =>
    cases h' with
    | cons hnodes' _ hrest' =>
      rw [List.map_cons, List.map_cons, ih hrest', Segment.bare, Segment.bare, hnodes.trans hnodes'.symm]

theorem collapse_bare (r : Bool) (ss : List Segment) :
    (collapse r ss).map Segment.bare = collapse r (ss.map Segment.bare) := by
  induction ss generalizing r with
  | nil => rfl
  | cons s ss ih =>
    rw [List.map_cons, collapse, collapse, s.isRecursive_bare]
    split
    · exact ih true
    · rw [List.map_cons, ih]

theorem readAs_joined (h : Placed k pieces placed) (hne : pieces ≠ []) : ReadAs (joined pieces) (collapse false placed) := by
  obtain ⟨placed', hplaced', hparse⟩ := parse_join hne
  refine ⟨_, hparse, ?_⟩
  show (collapse false placed').map Segment.bare = _
  rw [collapse_bare, collapse_bare, hplaced'.bare_eq h]

theorem collapse_cons_plain {s : Segment} {r : Bool} (h : s.isRecursive = false) (ss : List Segment) :
    collapse r (s :: ss) = s :: collapse false ss := by
  rw [collapse, h, Bool.and_false]
  rfl

/-! ## The segments that a plan walks -/

theorem walked_cases (ss : List Segment) :
    Plan.walked ss = ss ∨ ∃ init s, ss = init ++ [s] ∧ init ≠ [] ∧ s.nodes = [] ∧ Plan.walked ss = init := by
  rcases List.eq_nil_or_concat' ss with rfl | ⟨init, s, rfl⟩
  · exact .inl rfl
  · unfold Plan.walked
    simp only [List.getLast?_concat, List.dropLast_concat]
    split
    · next hdropped =>
      obtain ⟨hlong, hempty⟩ := Bool.and_eq_true_iff.1 hdropped
      refine .inr ⟨init, s, rfl, ?_, List.isEmpty_iff.1 hempty, rfl⟩
      rintro rfl
      cases hlong
    · exact .inl rfl

/-- **Some of the first pieces give the segments that a plan walks**, and the last of them gives the last one. -/
theorem exists_walked (h : Placed k pieces placed) (hne : pieces ≠ []) :
    ∃ first segments t, first ≠ [] ∧ joined pieces = joined first ++ t ∧ Placed k first segments ∧
      collapse false segments = Plan.walked (collapse false placed) ∧
      (collapse false segments).getLast? = segments.getLast? := by
  obtain ⟨first, segments, t, hfirst, hjoined, hplaced, hcollapse, hlast⟩ := exists_trimmed h hne
  rcases walked_cases (collapse false placed) with hwalked | ⟨init, s, hsplit, hinit, hempty, hwalked⟩
  · exact ⟨first, segments, t, hfirst, hjoined, hplaced, hcollapse.trans hwalked.symm, hlast⟩
  -- the last piece is empty and is left out
  · rw [hwalked]
    obtain ⟨before, piece, rfl⟩ := (List.eq_nil_or_concat' first).resolve_left hfirst
    obtain ⟨placedBefore, s', rfl, hbefore⟩ := hplaced.concat
    rw [hcollapse, hsplit, List.getLast?_concat, List.getLast?_concat] at hlast
    obtain rfl := Option.some.inj hlast
    have hplain : s.isRecursive = false := by rw [Segment.isRecursive, hempty]
    rw [collapse_concat, hplain, Bool.and_false, if_neg Bool.false_ne_true, hsplit] at hcollapse
    have hsame : collapse false placedBefore = init := List.append_cancel_right hcollapse
    have hne : before ≠ [] := by
      rintro rfl
      cases hbefore
      exact hinit hsame.symm
    obtain ⟨first, segments, t', hfirst, hjoined', hplaced, hcollapse, hlast⟩ := exists_trimmed hbefore hne
    obtain ⟨more, hmore⟩ : ∃ more, joined (before ++ [piece]) = joined before ++ more := ⟨_, joined_append [piece] hne⟩
    refine ⟨first, segments, t' ++ (more ++ t), hfirst, ?_, hplaced, hcollapse.trans hsame, hlast⟩
    rw [hjoined, hmore, hjoined', List.append_assoc, List.append_assoc]

end Parser

end Glob
