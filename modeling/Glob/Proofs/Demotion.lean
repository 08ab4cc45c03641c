import Glob.Proofs.Compiling
import Glob.Proofs.Pattern.Stars
/-!
# A `**` among other nodes

In a tree made by hand a `**` may stand where the parser leaves none: next to other nodes, or in braces.  The parser makes
two stars of it there, and the tree in which this is done is `Pattern.demoted`.  The expression of a misplaced `**` is
that of two stars, but without the guard that other wildcards have before them.  So the tree accepts all that the demoted
tree accepts (`misplaced_stars`), and it may accept more where three things come together: the rule for leading dots, a
candidate with a dot, and a misplaced `**` where a component may begin (`Pattern.StarsInside` is what is said of a tree
without any such `**`).
-/
namespace Glob

open Regex (Matches Solid Within)

/-! ## Demoted trees -/

mutual

def Node.demoted : Node → List Node
  | .doubleStar span => Node.twoStars span.start
  | .alternation branches span => [.alternation (branchesDemoted branches) span]
  | .literal text span => [.literal text span]
  | .anyChar span => [.anyChar span]
  | .star span => [.star span]
  | .set negated items span => [.set negated items span]

def nodesDemoted : List Node → List Node
  | [] => []
  | n :: ns => n.demoted ++ nodesDemoted ns

def branchesDemoted : List (List Node) → List (List Node)
  | [] => []
  | b :: bs => nodesDemoted b :: branchesDemoted bs

end

/-- A segment that is `**` alone stays as it is. -/
def Segment.demoted (s : Segment) : Segment := if s.isRecursive then s else ⟨nodesDemoted s.nodes, s.span⟩

/-- **The tree with two stars for every `**` that is not a segment of its own.** -/
def Pattern.demoted (p : Pattern) : Pattern := ⟨p.source, p.segments.map Segment.demoted⟩

mutual

/-- Every `**` in the node stands where no component may begin. -/
def Node.StarsInside (place : Place) : Node → Prop
  | .doubleStar _ => place = .inside
  | .alternation branches _ => BranchesStarsInside place branches
  | .literal _ _ | .anyChar _ | .star _ | .set _ _ _ => True

def NodesStarsInside (place : Place) : List Node → Prop
  | [] => True
  | n :: ns => n.StarsInside place ∧ NodesStarsInside (n.placeAfter place) ns

def BranchesStarsInside (place : Place) : List (List Node) → Prop
  | [] => True
  | b :: bs => NodesStarsInside place b ∧ BranchesStarsInside place bs

end

/-- Every `**` that is not a segment of its own stands where no component may begin. -/
def Pattern.StarsInside (p : Pattern) : Prop :=
  ∀ s ∈ p.segments, s.isRecursive = false → NodesStarsInside .componentStart s.nodes

/-! ## What demotion keeps -/

mutual

theorem Node.placeAfter_demoted (place : Place) : (n : Node) → placeAfter place n.demoted = n.placeAfter place
  | .doubleStar _ | .literal _ _ | .anyChar _ | .star _ | .set _ _ _ => rfl
  | .alternation bs _ => congrArg Place.join (branchPlaces_demoted place bs)

theorem placeAfter_demoted (place : Place) : (ns : List Node) → placeAfter place (nodesDemoted ns) = placeAfter place ns
  | [] => rfl
  | n :: ns => by
    rw [nodesDemoted, placeAfter_append, Node.placeAfter_demoted place n]
    exact placeAfter_demoted _ ns

theorem branchPlaces_demoted (place : Place) :
    (bs : List (List Node)) → branchPlaces place (branchesDemoted bs) = branchPlaces place bs
  | [] => rfl
  | b :: bs => congrArg₂ List.cons (placeAfter_demoted place b) (branchPlaces_demoted place bs)

end

theorem alternation_placeAfter_demoted (place : Place) (bs : List (List Node)) (span : Span) :
    (Node.alternation (branchesDemoted bs) span).placeAfter place = (Node.alternation bs span).placeAfter place :=
  congrArg Place.join (branchPlaces_demoted place bs)

theorem nodesWritable_append {ns ns' : List Node} (h : NodesWritable ns) (h' : NodesWritable ns') :
    NodesWritable (ns ++ ns') := by
  induction ns with
  | nil => exact h'
  | cons n ns ih => exact ⟨h.1, ih h.2⟩

mutual

theorem Node.Writable.demoted : (n : Node) → n.Writable → NodesWritable n.demoted
  | .doubleStar _, _ => ⟨trivial, trivial, trivial⟩
  | .literal _ _, _ | .anyChar _, _ | .star _, _ => ⟨trivial, trivial⟩
  | .set _ _ _, h => ⟨h, trivial⟩
  | .alternation bs _, h => ⟨branchesWritable_demoted bs h, trivial⟩

theorem nodesWritable_demoted : (ns : List Node) → NodesWritable ns → NodesWritable (nodesDemoted ns)
  | [], _ => trivial
  | n :: ns, h => nodesWritable_append (Node.Writable.demoted n h.1) (nodesWritable_demoted ns h.2)

theorem branchesWritable_demoted : (bs : List (List Node)) → BranchesWritable bs → BranchesWritable (branchesDemoted bs)
  | [], _ => trivial
  | b :: bs, h => ⟨nodesWritable_demoted b h.1, branchesWritable_demoted bs h.2⟩

end

theorem Pattern.Writable.demoted {p : Pattern} (h : p.Writable) : p.demoted.Writable := by
  intro s hs
  obtain ⟨s, hmem, rfl⟩ := List.mem_map.1 hs
  unfold Segment.demoted
  split
  · exact h s hmem
  · exact nodesWritable_demoted s.nodes (h s hmem)

/-- A demoted node has a first one, and that is no `**`. -/
theorem Node.demoted_cons (n : Node) : ∃ m ms, n.demoted = m :: ms ∧ ∀ span, m ≠ .doubleStar span := by
  cases n <;> exact ⟨_, _, rfl, nofun⟩

theorem Segment.isRecursive_demoted (s : Segment) : s.demoted.isRecursive = s.isRecursive := by
  unfold Segment.demoted
  cases hrec : s.isRecursive with
  | true => exact hrec
  | false =>
    rw [if_neg Bool.false_ne_true, Bool.eq_false_iff]
    intro h
    obtain ⟨span, hnodes⟩ := Segment.isRecursive_iff.1 h
    cases hs : s.nodes with
    | nil => simp [hs, nodesDemoted] at hnodes
    | cons n ns =>
      obtain ⟨m, ms, hm, hne⟩ := n.demoted_cons
      rw [hs, nodesDemoted, hm] at hnodes
      exact hne span (List.cons.inj hnodes).1

theorem Segment.isEmpty_demoted (s : Segment) : s.demoted.nodes.isEmpty = s.nodes.isEmpty := by
  unfold Segment.demoted
  split
  · rfl
  · cases hs : s.nodes with
    | nil => rfl
    | cons n ns =>
      obtain ⟨m, ms, hm, -⟩ := n.demoted_cons
      rw [nodesDemoted, hm]
      rfl

/-! ## With guards and without -/

namespace Expression

variable {ignoreCase : Bool} {o : Options} {x : Text} {place : Place} {i j : Nat} {r s : Regex}

/-- A guard takes nothing. -/
theorem guard_stays (h : Matches ignoreCase x (guard o place) i j) : j = i := by
  unfold guard at h
  split at h
  · cases place with
    | inside => exact h
    | componentStart => exact h.1
    | maybeStart => exact h.1
  · exact h

/-- Where there is no dot, there is nothing that a guard could refuse. -/
theorem guard_free (h : o.literalLeadingDot = true → Mark.dot ∈ x → place = .inside) (i : Nat) :
    Matches ignoreCase x (guard o place) i i := by
  unfold guard
  split
  · next hdot =>
    by_cases hplace : place = .inside
    · rw [hplace]
      exact rfl
    · have hnot : ∀ k l, ¬ Matches ignoreCase x (.char Mark.dot) k l := by
        rintro k l ⟨-, d, hd, hsame⟩
        have hdot' : d = Mark.dot :=
          (Options.same_dot (o := ⟨!ignoreCase, true, true⟩) d).1 (sameChar_iff.1 (by rwa [Bool.not_not]))
        exact hplace (h hdot (hdot' ▸ List.mem_of_getElem? hd))
      cases place with
      | inside => exact absurd rfl hplace
      | componentStart => exact ⟨rfl, hnot i⟩
      | maybeStart =>
        refine ⟨rfl, fun l => ?_⟩
        rintro ⟨k, -, hk⟩
        exact hnot k l hk
  · exact rfl

theorem doubleStar_solid (o : Options) (place : Place) (span : Span) : Solid (node o place (.doubleStar span)).atoms :=
  (Regex.solid_singleton rfl).append _

theorem doubleStar_folds (o : Options) (place : Place) (span : Span) : (node o place (.doubleStar span)).Folds false :=
  ⟨anyChar_folds o false, anyChar_folds o false⟩

/-- Two stars take what a misplaced `**` takes, from where the guard lets them begin. -/
theorem twoStars_matches {span : Span} :
    Matches ignoreCase x (starred o place 1) i j ↔
      Matches ignoreCase x (guard o place) i i ∧ Matches ignoreCase x (node o place (.doubleStar span)) i j := by
  constructor
  · rintro ⟨k, ⟨l, hl, hk⟩, m, hm, hj⟩
    obtain rfl := guard_stays hl
    obtain rfl : m = k := hm
    exact ⟨hl, m, hk, hj⟩
  · rintro ⟨hi, k, hk, hj⟩
    exact ⟨k, ⟨i, hi, hk⟩, k, rfl, hj⟩

theorem stars_single (span : Span) : Stars [.star span] := by
  intro n hn
  exact ⟨span, List.mem_singleton.1 hn⟩

variable {ns ns' : List Node}

theorem twoStars_within (span : Span)
    (h : Within ignoreCase x (nodes o .inside ns) r) :
    Within ignoreCase x (nodes o place (Node.twoStars span.start ++ ns)) (.seq (node o place (.doubleStar span)) r) := by
  rw [Node.twoStars, List.cons_append, nodes_star]
  refine within_stars_left (stars_single _) ?_
  exact .front (starred_solid o place 1) (doubleStar_solid o place span) (starred_folds o place 1)
    (doubleStar_folds o place span) (fun i j hm => (twoStars_matches.1 hm).2) h

theorem within_twoStars (span : Span) (hguard : ∀ i, Matches ignoreCase x (guard o place) i i)
    (h : Within ignoreCase x r (nodes o .inside ns)) :
    Within ignoreCase x (.seq (node o place (.doubleStar span)) r) (nodes o place (Node.twoStars span.start ++ ns)) := by
  rw [Node.twoStars, List.cons_append, nodes_star]
  refine within_stars_right (stars_single _) ?_
  exact .front (doubleStar_solid o place span) (starred_solid o place 1) (doubleStar_folds o place span)
    (starred_folds o place 1) (fun i j hm => twoStars_matches.2 ⟨hguard i, hm⟩) h

/-! ## Nodes -/

mutual

/-- Demoted nodes take no more, and behind them nothing changes. -/
theorem node_demoted (o : Options) {place : Place} : (n : Node) → {ns : List Node} → {r : Regex} →
    Within ignoreCase x (nodes o (n.placeAfter place) ns) r →
      Within ignoreCase x (nodes o place (n.demoted ++ ns)) (.seq (node o place n) r)
  | .literal _ _, _, _, h | .anyChar _, _, _, h | .star _, _, _, h | .set _ _ _, _, _, h => (Within.refl _).seq h
  | .doubleStar span, _, _, h => twoStars_within span h
  | .alternation bs span, _, _, h => by
    have hbs : List.Forall₂ (Within ignoreCase x) (branches o place (branchesDemoted bs)) (branches o place bs) :=
      branches_demoted o bs
    rw [← alternation_placeAfter_demoted] at h
    exact (Within.alternatives hbs).group.seq h

theorem nodes_demoted (o : Options) {place : Place} : (ns : List Node) →
    Within ignoreCase x (nodes o place (nodesDemoted ns)) (nodes o place ns)
  | [] => .refl _
  | n :: ns => node_demoted o n (nodes_demoted o ns)

theorem branches_demoted (o : Options) {place : Place} : (bs : List (List Node)) →
    List.Forall₂ (Within ignoreCase x) (branches o place (branchesDemoted bs)) (branches o place bs)
  | [] => .nil
  | b :: bs => .cons (nodes_demoted o b) (branches_demoted o bs)

end

mutual

/-- Where no guard is missed, demoted nodes take no less. -/
theorem demoted_node (o : Options) {place : Place} : (n : Node) → {ns : List Node} → {r : Regex} →
    (o.literalLeadingDot = true → Mark.dot ∈ x → n.StarsInside place) →
    Within ignoreCase x r (nodes o (n.placeAfter place) ns) →
      Within ignoreCase x (.seq (node o place n) r) (nodes o place (n.demoted ++ ns))
  | .literal _ _, _, _, _, h | .anyChar _, _, _, _, h | .star _, _, _, _, h | .set _ _ _, _, _, _, h => (Within.refl _).seq h
  | .doubleStar span, _, _, hinside, h => within_twoStars span (guard_free hinside) h
  | .alternation bs span, _, _, hinside, h => by
    rw [← alternation_placeAfter_demoted] at h
    exact (Within.alternatives (demoted_branches o bs hinside)).group.seq h

theorem demoted_nodes (o : Options) {place : Place} : (ns : List Node) →
    (o.literalLeadingDot = true → Mark.dot ∈ x → NodesStarsInside place ns) →
    Within ignoreCase x (nodes o place ns) (nodes o place (nodesDemoted ns))
  | [], _ => .refl _
  | n :: ns, h => demoted_node o n (fun hdot hx => (h hdot hx).1) (demoted_nodes o ns fun hdot hx => (h hdot hx).2)

theorem demoted_branches (o : Options) {place : Place} : (bs : List (List Node)) →
    (o.literalLeadingDot = true → Mark.dot ∈ x → BranchesStarsInside place bs) →
    List.Forall₂ (Within ignoreCase x) (branches o place bs) (branches o place (branchesDemoted bs))
  | [], _ => .nil
  | b :: bs, h =>
    .cons (demoted_nodes o b fun hdot hx => (h hdot hx).1) (demoted_branches o bs fun hdot hx => (h hdot hx).2)

end

end Expression

/-! ## Trees -/

section Trees

variable {ignoreCase : Bool} {o : Options} {x : Text}

theorem Segment.demoted_within (s : Segment) : Expression.SegmentWithin ignoreCase o x s.demoted s := by
  refine ⟨s.isRecursive_demoted, s.isEmpty_demoted, ?_⟩
  unfold Segment.demoted
  split
  · exact .refl _
  · exact Expression.nodes_demoted o s.nodes

theorem Segment.within_demoted {s : Segment}
    (h : o.literalLeadingDot = true → Mark.dot ∈ x → s.isRecursive = false → NodesStarsInside .componentStart s.nodes) :
    Expression.SegmentWithin ignoreCase o x s s.demoted := by
  refine ⟨s.isRecursive_demoted.symm, s.isEmpty_demoted.symm, ?_⟩
  unfold Segment.demoted
  cases hrec : s.isRecursive with
  | true => exact .refl _
  | false => exact Expression.demoted_nodes o s.nodes fun hdot hx => h hdot hx hrec

end Trees

/-- **A `**` among other nodes is two stars without a guard.**  Whatever the classes of a tree have as members, the tree
and the demoted one are compiled; the tree accepts all that the demoted one accepts, and nothing else unless the rule for
leading dots holds, the candidate has a dot, and a `**` stands where a component may begin. -/
theorem misplaced_stars {p : Pattern} (h : p.Writable) (o : Options) (pattern : Text) :
    ∃ r r', compileSource (p.regexSource o) pattern = .ok r ∧
      compileSource (p.demoted.regexSource o) pattern = .ok r' ∧
      (∀ x, r'.accepts (!o.caseSensitive) x = true → r.accepts (!o.caseSensitive) x = true) ∧
      ∀ x, (o.literalLeadingDot = true → Mark.dot ∈ x → p.StarsInside) →
        r.accepts (!o.caseSensitive) x = r'.accepts (!o.caseSensitive) x := by
  have hread := p.regex_readable o h
  have hread' := p.demoted.regex_readable o h.demoted
  have hfewer : ∀ x, (p.demoted.regex o).reread.accepts (!o.caseSensitive) x = true →
      (p.regex o).reread.accepts (!o.caseSensitive) x = true := fun x => by
    refine (regex_side ?_).accepts hread' hread
    rw [Pattern.demoted, List.forall₂_map_left_iff, List.forall₂_same]
    exact fun s _ => s.demoted_within
  refine ⟨_, _, h.compiles o pattern, h.demoted.compiles o pattern, hfewer, fun x hinside => ?_⟩
  rw [Bool.eq_iff_iff]
  refine ⟨(regex_side ?_).accepts hread hread', hfewer x⟩
  rw [Pattern.demoted, List.forall₂_map_right_iff, List.forall₂_same]
  exact fun s hs => Segment.within_demoted fun hdot hx => hinside hdot hx s hs

/-- Behind a letter and in braces, where no component begins: the tree of `x**{**,?}` written by hand. -/
theorem misplaced_stars_inside :
    let p : Pattern := ⟨[], [⟨[.literal [0x78] ⟨0, 1⟩, .doubleStar ⟨1, 3⟩,
      .alternation [[.doubleStar ⟨4, 6⟩], [.anyChar ⟨7, 8⟩]] ⟨3, 9⟩], ⟨0, 9⟩⟩]⟩
    ∃ r r', compileSource (p.regexSource ⟨false, true, true⟩) [] = .ok r ∧
      compileSource (p.demoted.regexSource ⟨false, true, true⟩) [] = .ok r' ∧
      ∀ x, r.accepts true x = r'.accepts true x := by
  intro p
  have hwritable : p.Writable := by simp [p, Pattern.Writable, NodesWritable, Node.Writable, BranchesWritable]
  have hinside : p.StarsInside := by
    intro s hs _
    obtain rfl := List.mem_singleton.1 hs
    exact ⟨trivial, rfl, ⟨⟨rfl, trivial⟩, ⟨trivial, trivial⟩, trivial⟩, trivial⟩
  obtain ⟨r, r', hr, hr', -, hsame⟩ := misplaced_stars hwritable ⟨false, true, true⟩ []
  exact ⟨r, r', hr, hr', fun x => hsame x fun _ _ => hinside⟩

/-- With `x` behind it, a `**` at the start of a segment takes the dot of `.x`, which two stars do not. -/
theorem misplaced_stars_unguarded :
    let p : Pattern := ⟨[], [⟨[.doubleStar ⟨0, 2⟩, .literal [0x78] ⟨2, 3⟩], ⟨0, 3⟩⟩]⟩
    ∃ r r', compileSource (p.regexSource ⟨true, true, true⟩) [] = .ok r ∧
      compileSource (p.demoted.regexSource ⟨true, true, true⟩) [] = .ok r' ∧
      r.accepts false (Text.of ".x") = true ∧ r'.accepts false (Text.of ".x") = false :=
  ⟨_, _, rfl, rfl, by decide, by decide⟩

end Glob
