import Glob.Proofs.Pattern.Segments
import Glob.Proofs.Regex.Condensed
/-!
# Stars next to each other

A star takes any number of characters, so two of them in a row take what one does, and only the first of them has a guard
(`starred_matches`).  Their expression begins with no simple expression, whatever the options, so trees that differ in how
many stars there are can be compared without a look at their letters (`Regex.Within`): `within_stars` moves stars between
the front of an expression and what follows it, and `segments_side` takes the comparison from segments to trees.
-/
namespace Glob

open Regex (Matches Within Solid)

namespace Expression

variable {ignoreCase : Bool} {o : Options} {place : Place} {x : Text} {r r' : Regex} {ns : List Node}

/-! ## A guard and stars behind it -/

theorem guard_inside (o : Options) : guard o .inside = .empty := by
  unfold guard
  split <;> rfl

/-- The first star of several, with its guard, and `k` more. -/
def starred (o : Options) (place : Place) : Nat → Regex
  | 0 => .seq (guard o place) (star o)
  | k + 1 => .seq (starred o place k) (.seq .empty (star o))

theorem nodes_star (o : Options) (place : Place) (span : Span) (ns : List Node) :
    nodes o place (.star span :: ns) = .seq (starred o place 0) (nodes o .inside ns) := rfl

theorem guard_solid (o : Options) (place : Place) (as : List Regex) (h : Solid as) :
    Solid ((guard o place).atoms ++ as) := by
  unfold guard
  split
  · cases place with
    | inside => exact h
    | componentStart => exact (Regex.solid_singleton rfl).append as
    | maybeStart => exact (Regex.solid_singleton rfl).append as
  · exact h

theorem starred_solid (o : Options) (place : Place) (k : Nat) : Solid (starred o place k).atoms := by
  induction k with
  | zero => exact guard_solid o place _ (Regex.solid_singleton rfl)
  | succ k ih => exact ih.append _

theorem starred_folds (o : Options) (place : Place) (k : Nat) : (starred o place k).Folds false := by
  induction k with
  | zero => exact ⟨guard_folds o place false, anyChar_folds o false⟩
  | succ k ih => exact ⟨ih, trivial, anyChar_folds o false⟩

/-- **Several stars match what one does.** -/
theorem starred_matches {k i j : Nat} :
    Matches ignoreCase x (starred o place k) i j ↔ Matches ignoreCase x (starred o place 0) i j := by
  induction k generalizing j with
  | zero => exact .rfl
  | succ k ih =>
    constructor
    · rintro ⟨l, hl, _, rfl, hj⟩
      obtain ⟨m, hm, hml⟩ := ih.1 hl
      exact ⟨m, hm, hml.trans hj⟩
    · intro h
      exact ⟨j, ih.2 h, j, rfl, .refl⟩

/-! ## Nodes that begin with stars -/

/-- The nodes are stars. -/
def Stars (ss : List Node) : Prop := ∀ n ∈ ss, ∃ span, n = .star span

variable {k : Nat} {ss ss' ns' : List Node} {span span' : Span}

theorem nodes_inside_star (o : Options) (span : Span) (ns : List Node) :
    nodes o .inside (.star span :: ns) = .seq (.seq .empty (star o)) (nodes o .inside ns) := by
  rw [← guard_inside o]
  rfl

theorem within_stars_right (h : Stars ss)
    (hw : Within ignoreCase x r (.seq (starred o place (k + ss.length)) (nodes o .inside ns))) :
    Within ignoreCase x r (.seq (starred o place k) (nodes o .inside (ss ++ ns))) := by
  induction ss generalizing k with
  | nil => exact hw
  | cons n ss ih =>
    obtain ⟨⟨span, rfl⟩, hss⟩ := List.forall_mem_cons.1 h
    rw [List.cons_append, nodes_inside_star]
    refine .assoc_right (ih (k := k + 1) hss ?_)
    rwa [Nat.add_right_comm]

theorem within_stars_left (h : Stars ss)
    (hw : Within ignoreCase x (.seq (starred o place (k + ss.length)) (nodes o .inside ns)) r) :
    Within ignoreCase x (.seq (starred o place k) (nodes o .inside (ss ++ ns))) r := by
  induction ss generalizing k with
  | nil => exact hw
  | cons n ss ih =>
    obtain ⟨⟨span, rfl⟩, hss⟩ := List.forall_mem_cons.1 h
    rw [List.cons_append, nodes_inside_star]
    refine .assoc_left (ih (k := k + 1) hss ?_)
    rwa [Nat.add_right_comm]

/-- **Behind a star, more stars make no difference.** -/
theorem nodes_stars_within (h : Stars ss) (h' : Stars ss')
    (hrest : Within ignoreCase x (nodes o .inside ns) (nodes o .inside ns')) :
    Within ignoreCase x (nodes o place (.star span :: (ss ++ ns))) (nodes o place (.star span' :: (ss' ++ ns'))) := by
  rw [nodes_star, nodes_star]
  refine within_stars_left h (within_stars_right h' ?_)
  exact .front (starred_solid o place _) (starred_solid o place _) (starred_folds o place _) (starred_folds o place _)
    (fun i j hm => starred_matches.2 (starred_matches.1 hm)) hrest

/-! ## Segments side by side -/

/-- The second segment is of the same kind, and its expression matches what the expression of the first does. -/
structure SegmentWithin (ignoreCase : Bool) (o : Options) (x : Text) (s s' : Segment) : Prop where
  recursive : s.isRecursive = s'.isRecursive
  isEmpty : s.nodes.isEmpty = s'.nodes.isEmpty
  nodes : Within ignoreCase x (segment o s) (segment o s')

variable {segs segs' : List Segment}

theorem segmentsAfter_side (h : List.Forall₂ (SegmentWithin ignoreCase o x) segs segs') (due root : Bool) :
    Within ignoreCase x (segmentsAfter o due root segs) (segmentsAfter o due root segs') := by
  induction h generalizing due root with
  | nil => exact .refl _
  | @cons s s' rest rest' hs hrest ih =>
    cases hrec : s.isRecursive with
    | false =>
      rw [segmentsAfter_plain hrec, segmentsAfter_plain (hs.recursive.symm.trans hrec)]
      exact (Within.refl _).seq (hs.nodes.seq (ih true false))
    | true =>
      have hrec' := hs.recursive.symm.trans hrec
      cases hrest with
      | nil =>
        rw [segmentsAfter_last hrec, segmentsAfter_last hrec']
        exact .refl _
      | cons =>
        rw [segmentsAfter_recursive hrec (List.cons_ne_nil _ _), segmentsAfter_recursive hrec' (List.cons_ne_nil _ _)]
        exact (Within.refl _).seq ((Within.refl _).seq (ih false false))

/-- **Trees are compared segment by segment.** -/
theorem segments_side (h : List.Forall₂ (SegmentWithin ignoreCase o x) segs segs') :
    Within ignoreCase x (segments o segs) (segments o segs') := by
  cases h with
  | nil => exact .refl _
  | @cons s s' rest rest' hs hrest =>
    cases hrec : s.isRecursive with
    | false =>
      rw [segments_plain hrec, segments_plain (hs.recursive.symm.trans hrec), ← hs.isEmpty]
      exact hs.nodes.seq (segmentsAfter_side hrest true _)
    | true =>
      have hrec' := hs.recursive.symm.trans hrec
      cases hrest with
      | nil =>
        rw [segments_sole hrec, segments_sole hrec']
        exact .refl _
      | cons hnext hrest =>
        rw [segments_recursive hrec (List.cons_ne_nil _ _), segments_recursive hrec' (List.cons_ne_nil _ _)]
        exact (Within.refl _).seq (segmentsAfter_side (.cons hnext hrest) false false)

end Expression

/-- The expression of the second tree matches what the expression of the first does. -/
theorem regex_side {ignoreCase : Bool} {o : Options} {x : Text} {p p' : Pattern}
    (h : List.Forall₂ (Expression.SegmentWithin ignoreCase o x) p.segments p'.segments) :
    Within ignoreCase x (p.regex o) (p'.regex o) :=
  (Within.refl _).seq ((Expression.segments_side h).seq (.refl _))

end Glob
