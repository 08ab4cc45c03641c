import Glob.Proofs.Pattern.Exchange
import Glob.Proofs.Pattern.Spelling
/-!
# What a tree means spelled out

Spelling out a tree changes neither the places in it nor what its expression matches (`nodes_spelled`), and it keeps
the tree condensable (`condensable_iff_spelled`).  Without `**` the segments of a pattern and the separators between
them are one sequence of nodes, so a matcher accepts what the expression of this sequence matches
(`accepts_iff_spelled`).
-/
namespace Glob

open Regex (Matches Steady)

variable {o : Options} {x : Text} {place : Place} {i j : Nat}

/-! ## Places -/

theorem placeAfter_letters (place : Place) (text : Text) (span : Span) :
    placeAfter place (text.map letter) = (Node.literal text span).placeAfter place := by
  rcases List.eq_nil_or_concat' text with rfl | ⟨init, c, rfl⟩
  · rfl
  · simp [placeAfter_append, placeAfter, letter, Node.placeAfter]

mutual

theorem Node.placeAfter_spelled (place : Place) : (n : Node) → placeAfter place n.spelled = n.placeAfter place
  | .literal text span => placeAfter_letters place text span
  | .anyChar _ | .star _ | .doubleStar _ | .set _ _ _ => rfl
  | .alternation bs _ => congrArg Place.join (branchPlaces_spelled place bs)

theorem placeAfter_spelled (place : Place) :
    (ns : List Node) → placeAfter place (nodesSpelled ns) = placeAfter place ns
  | [] => rfl
  | n :: ns => by
    rw [nodesSpelled, placeAfter_append, n.placeAfter_spelled, placeAfter_spelled _ ns]
    rfl

theorem branchPlaces_spelled (place : Place) :
    (bs : List (List Node)) → branchPlaces place (branchesSpelled bs) = branchPlaces place bs
  | [] => rfl
  | b :: bs => congrArg₂ List.cons (placeAfter_spelled place b) (branchPlaces_spelled place bs)

end

namespace Expression

/-! ## Expressions -/

theorem letters_match (text : Text) :
    Matches (!o.caseSensitive) x (nodes o place (text.map letter)) i j ↔
      Matches (!o.caseSensitive) x (Regex.ofText text) i j := by
  induction text generalizing place i with
  | nil => exact Iff.rfl
  | cons c text ih =>
    refine Iff.trans ?_ (Regex.matches_sequence_cons _ _).symm
    exact exists_congr fun k => and_congr_right fun _ => ih

mutual

theorem node_spelled : (n : Node) → {place : Place} → {i j : Nat} →
    (Matches (!o.caseSensitive) x (nodes o place n.spelled) i j ↔ Matches (!o.caseSensitive) x (node o place n) i j)
  | .literal text _, _, _, _ => letters_match text
  | .anyChar _, _, _, _ | .star _, _, _, _ | .doubleStar _, _, _, _ | .set _ _ _, _, _, _ => nodes_single _
  | .alternation bs _, place, i, j => by
    have hnone : branchesSpelled bs = [] ↔ bs = [] := by simp [branchesSpelled_eq_map]
    rw [Node.spelled, nodes_single, alternation_matches, alternation_matches, branches_spelled bs, hnone]

/-- **The expression of nodes matches the same spelled out.** -/
theorem nodes_spelled : (ns : List Node) → {place : Place} → {i j : Nat} →
    (Matches (!o.caseSensitive) x (nodes o place (nodesSpelled ns)) i j ↔
      Matches (!o.caseSensitive) x (nodes o place ns) i j)
  | [], _, _, _ => Iff.rfl
  | n :: ns, place, i, j => by
    simp only [nodesSpelled, nodes_append, node_spelled n, n.placeAfter_spelled, nodes_spelled ns, nodes, Matches]

theorem branches_spelled : (bs : List (List Node)) → {place : Place} → {i j : Nat} →
    ((∃ b ∈ branchesSpelled bs, Matches (!o.caseSensitive) x (nodes o place b) i j) ↔
      ∃ b ∈ bs, Matches (!o.caseSensitive) x (nodes o place b) i j)
  | [], _, _, _ => by simp [branchesSpelled]
  | b :: bs, _, _, _ => by
    simp only [branchesSpelled, List.exists_mem_cons_iff, nodes_spelled b, branches_spelled bs]

end

/-- Behind a separator an expression begins at the start of a component. -/
theorem slash_matches (ns : List Node) :
    Matches (!o.caseSensitive) x (nodes o place (letter Mark.slash :: ns)) i j ↔
      ∃ k, Matches (!o.caseSensitive) x separator i k ∧ Matches (!o.caseSensitive) x (nodes o .componentStart ns) k j :=
  Iff.rfl

theorem parts_spelled {s : Segment} {ss : List Segment} (h : ∀ s' ∈ ss, s'.isRecursive = false) (underRoot : Bool) :
    Matches (!o.caseSensitive) x (nodes o .componentStart (partsSpelled ((s :: ss).map Segment.nodes))) i j ↔
      ∃ k, Matches (!o.caseSensitive) x (segment o s) i k ∧
        Matches (!o.caseSensitive) x (segmentsAfter o true underRoot ss) k j := by
  induction ss generalizing s i underRoot with
  | nil => simp [partsSpelled, nodes_spelled, segment, segmentsAfter, Matches]
  | cons s' ss ih =>
    obtain ⟨hs', hss⟩ := List.forall_mem_cons.1 h
    rw [List.map_cons, partsSpelled_cons _ (by simp), nodes_append, segmentsAfter_plain hs', if_pos rfl]
    refine exists_congr fun k => and_congr (nodes_spelled s.nodes) ?_
    rw [slash_matches]
    exact exists_congr fun l => and_congr_right fun _ => ih hss false

/-- **Without `**` the segments of a pattern are one sequence of nodes.** -/
theorem segments_spelled {p : Pattern} (hne : p.segments ≠ []) (h : ∀ s ∈ p.segments, s.isRecursive = false) :
    Matches (!o.caseSensitive) x (segments o p.segments) i j ↔
      Matches (!o.caseSensitive) x (nodes o .componentStart p.spelled) i j := by
  obtain ⟨s, ss, hs⟩ := List.exists_cons_of_ne_nil hne
  rw [hs] at h
  obtain ⟨hfirst, hrest⟩ := List.forall_mem_cons.1 h
  rw [Pattern.spelled, hs, segments_plain hfirst, parts_spelled hrest s.nodes.isEmpty]
  rfl

end Expression

/-! ## Condensable trees -/

mutual

theorem Node.condensable_spelled : (n : Node) → {inside : Bool} →
    (NodesEvery Node.Condensable inside n.spelled ↔ n.Every Node.Condensable inside)
  | .literal text _, inside => by
    simp only [Node.spelled, nodesEvery_iff, List.forall_mem_map, letter, Node.Every, Node.Condensable,
      List.forall_mem_singleton]
    exact ⟨fun h hinside c hc => h c hc hinside, fun h c hc hinside => h hinside c hc⟩
  | .anyChar _, _ | .star _, _ | .doubleStar _, _ | .set _ _ _, _ => and_iff_left trivial
  | .alternation bs _, _ => (and_iff_left trivial).trans (branchesCondensable_spelled bs)

theorem nodesCondensable_spelled : (ns : List Node) → {inside : Bool} →
    (NodesEvery Node.Condensable inside (nodesSpelled ns) ↔ NodesEvery Node.Condensable inside ns)
  | [], _ => Iff.rfl
  | n :: ns, _ => by
    rw [nodesSpelled, nodesEvery_append, n.condensable_spelled, nodesCondensable_spelled ns, NodesEvery]

theorem branchesCondensable_spelled : (bs : List (List Node)) →
    (BranchesEvery Node.Condensable (branchesSpelled bs) ↔ BranchesEvery Node.Condensable bs)
  | [] => Iff.rfl
  | b :: bs => and_congr (nodesCondensable_spelled b) (branchesCondensable_spelled bs)

end

theorem partsCondensable_spelled {parts : List (List Node)} :
    NodesEvery Node.Condensable false (partsSpelled parts) ↔ ∀ ns ∈ parts, NodesEvery Node.Condensable false ns := by
  induction parts with
  | nil => simp [partsSpelled, NodesEvery]
  | cons ns parts ih =>
    by_cases hlast : parts = []
    · subst hlast
      simp [partsSpelled, nodesCondensable_spelled]
    · have hslash : (letter Mark.slash).Every Node.Condensable false := nofun
      rw [partsSpelled_cons _ hlast, nodesEvery_append, nodesCondensable_spelled, NodesEvery, ih, List.forall_mem_cons]
      simp only [hslash, true_and]

theorem Pattern.condensable_iff_spelled {p : Pattern} :
    p.Condensable ↔ NodesEvery Node.Condensable false p.spelled := by
  rw [Pattern.spelled, partsCondensable_spelled, List.forall_mem_map]
  rfl

/-! ## Matchers -/

/-- **A matcher accepts what the expression of its tree matches spelled out**, if the text can be read without `**`. -/
theorem accepts_iff_spelled {p : Text} {ns : List Node} (h : Draft.Reads ⟨[], []⟩ p ⟨ns, []⟩)
    (hcondensable : o.caseSensitive = false → NodesEvery Node.Condensable false ns) {m : Matcher}
    (hm : Matcher.ofPattern? o p = .ok m) :
    m.accepts x = true ↔ Matches (!o.caseSensitive) x (Expression.nodes o .componentStart ns) 0 x.length := by
  obtain ⟨-, tree, hparse, rfl, hplain⟩ := parse_reading h
  rw [accepts_iff_of_condensable hparse (fun hcase => Pattern.condensable_iff_spelled.2 (hcondensable hcase)) hm]
  exact Expression.segments_spelled (parse_wellFormed hparse).nonempty hplain

/-- A text that can be read without `**` has a matcher, and it accepts what the expression matches. -/
theorem exists_accepts_iff_spelled {p : Text} {ns : List Node} (h : Draft.Reads ⟨[], []⟩ p ⟨ns, []⟩)
    (hcondensable : o.caseSensitive = false → NodesEvery Node.Condensable false ns) :
    (∃ m, Matcher.ofPattern? o p = .ok m ∧ m.accepts x = true) ↔
      Matches (!o.caseSensitive) x (Expression.nodes o .componentStart ns) 0 x.length := by
  constructor
  · rintro ⟨m, hm, haccepts⟩
    exact (accepts_iff_spelled h hcondensable hm).1 haccepts
  · intro hmatch
    obtain ⟨-, tree, hparse, -⟩ := parse_reading h
    have hm := ofPattern?_of_parse hparse o
    exact ⟨_, hm, (accepts_iff_spelled h hcondensable hm).2 hmatch⟩

end Glob
