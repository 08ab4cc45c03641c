import Glob.Proofs.AnyDepth
import Glob.Proofs.Pattern.Stars
/-!
# Trees without redundant stars

Of stars next to each other `Node.thinned` keeps one, in a sequence and in the branches of an alternation, and takes a
`**` for a star; spans are left out.  The segments of a tree that are `**` stay what they are (`Segment.thinned`).  A tree
and the thinned one match the same (`segments_thinned`), so matchers whose trees have the same thinned segments accept the
same candidates (`accepts_iff_of_thinned`).
-/
namespace Glob

/-! ## Thinned nodes -/

def Node.isStar : Node → Bool
  | .star _ => true
  | _ => false

/-- The node in front of the others; a star is not put in front of another one. -/
def starOnce (n : Node) (ns : List Node) : List Node := if n.isStar && ns.head?.any Node.isStar then ns else n :: ns

mutual

def Node.thinned : Node → Node
  | .literal text _ => .literal text nowhere
  | .anyChar _ => .anyChar nowhere
  | .star _ | .doubleStar _ => .star nowhere
  | .set negated items _ => .set negated items nowhere
  | .alternation branches _ => .alternation (branchesThinned branches) nowhere

def nodesThinned : List Node → List Node
  | [] => []
  | n :: ns => starOnce n.thinned (nodesThinned ns)

def branchesThinned : List (List Node) → List (List Node)
  | [] => []
  | b :: bs => nodesThinned b :: branchesThinned bs

end

theorem branchesThinned_eq_map (bs : List (List Node)) : branchesThinned bs = bs.map nodesThinned := by
  induction bs with
  | nil => rfl
  | cons b bs ih => rw [branchesThinned, ih, List.map_cons]

variable {n m : Node} {ns : List Node}

theorem starOnce_of_not_star (h : n.isStar = false) (ns : List Node) : starOnce n ns = n :: ns := by
  simp [starOnce, h]

theorem starOnce_starOnce (hm : m.isStar = true) (n : Node) (hn : n.isStar = true) (ns : List Node) :
    starOnce n (starOnce m ns) = starOnce m ns := by
  have hhead : (starOnce m ns).head?.any Node.isStar = true := by
    unfold starOnce
    split
    · next h => exact (Bool.and_eq_true_iff.1 h).2
    · simpa using hm
  exact if_pos (Bool.and_eq_true_iff.2 ⟨hn, hhead⟩)

theorem starOnce_concat (n m : Node) (h : ns ≠ []) : starOnce n (ns ++ [m]) = starOnce n ns ++ [m] := by
  have hhead : (ns ++ [m]).head? = ns.head? := List.head?_append_of_ne_nil ns h
  unfold starOnce
  rw [hhead]
  split <;> rfl

theorem Node.thinned_of_isStar (h : n.thinned.isStar = true) : n.thinned = .star nowhere := by
  cases n <;> first | rfl | cases h

theorem head?_nodesThinned (ns : List Node) : (nodesThinned ns).head? = ns.head?.map Node.thinned := by
  induction ns with
  | nil => rfl
  | cons n ns ih =>
    rw [nodesThinned, starOnce]
    split
    · next h =>
      obtain ⟨hn, hhead⟩ := Bool.and_eq_true_iff.1 h
      rw [ih] at hhead ⊢
      cases ns with
      | nil => cases hhead
      | cons m ns =>
        have hm : m.thinned.isStar = true := hhead
        exact congrArg some ((Node.thinned_of_isStar hm).trans (Node.thinned_of_isStar hn).symm)
    · rfl

theorem nodesThinned_eq_nil : nodesThinned ns = [] ↔ ns = [] := by
  rw [← List.head?_eq_none_iff, head?_nodesThinned, Option.map_eq_none_iff, List.head?_eq_none_iff]

/-- Behind a star no star is put at the end. -/
theorem nodesThinned_concat (ns : List Node) (n : Node) :
    nodesThinned (ns ++ [n]) =
      if n.thinned.isStar && ns.getLast?.any (·.thinned.isStar) then nodesThinned ns
      else nodesThinned ns ++ [n.thinned] := by
  induction ns with
  | nil => simp [nodesThinned, starOnce]
  | cons m ns ih =>
    rw [List.cons_append, nodesThinned, ih, nodesThinned]
    by_cases hns : ns = []
    · subst hns
      cases hboth : n.thinned.isStar && m.thinned.isStar with
      | true =>
        obtain ⟨hn, hm⟩ := Bool.and_eq_true_iff.1 hboth
        simp [nodesThinned, starOnce, Node.thinned_of_isStar hn, Node.thinned_of_isStar hm, Node.isStar]
      | false => simp [nodesThinned, starOnce, Bool.and_comm, hboth]
    · have hlast : (m :: ns).getLast? = ns.getLast? := List.getLast?_cons_of_ne_nil hns
      rw [hlast]
      split
      · rfl
      · exact starOnce_concat _ _ (mt nodesThinned_eq_nil.1 hns)

theorem nodesThinned_reverse (ns : List Node) : nodesThinned ns.reverse = (nodesThinned ns).reverse := by
  induction ns with
  | nil => rfl
  | cons n ns ih =>
    rw [List.reverse_cons, nodesThinned_concat, ih, List.getLast?_reverse, nodesThinned, starOnce, head?_nodesThinned,
      Option.any_map]
    split
    · rfl
    · rw [List.reverse_cons]

/-! ## Thinned segments -/

/-- A segment that is `**` stays so. -/
def Segment.thinned (s : Segment) : Segment :=
  ⟨if s.isRecursive then [.doubleStar nowhere] else nodesThinned s.nodes, nowhere⟩

theorem mem_nodesThinned (h : m ∈ nodesThinned ns) : ∃ n ∈ ns, m = n.thinned := by
  induction ns with
  | nil => cases h
  | cons n ns ih =>
    have hmem : m ∈ n.thinned :: nodesThinned ns := by
      rw [nodesThinned, starOnce] at h
      split at h
      · exact List.mem_cons_of_mem _ h
      · exact h
    rcases List.mem_cons.1 hmem with rfl | hmem
    · exact ⟨n, List.mem_cons_self, rfl⟩
    · obtain ⟨a, ha, heq⟩ := ih hmem
      exact ⟨a, List.mem_cons_of_mem _ ha, heq⟩

theorem Segment.isRecursive_thinned (s : Segment) : s.thinned.isRecursive = s.isRecursive := by
  unfold Segment.thinned
  split
  · next h => rw [h, Segment.isRecursive]
  · next h =>
    rw [Bool.eq_false_iff.2 h, Bool.eq_false_iff]
    intro hrec
    obtain ⟨span, hnodes⟩ := Segment.isRecursive_iff.1 hrec
    have hthinned : nodesThinned s.nodes = [.doubleStar span] := hnodes
    obtain ⟨n, -, hn⟩ := mem_nodesThinned (hthinned ▸ List.mem_singleton_self (Node.doubleStar span))
    cases n <;> cases hn

theorem Segment.isEmpty_thinned (s : Segment) : s.thinned.nodes.isEmpty = s.nodes.isEmpty := by
  unfold Segment.thinned
  split
  · next h =>
    obtain ⟨span, hnodes⟩ := Segment.isRecursive_iff.1 h
    rw [hnodes]
    rfl
  · rw [Bool.eq_iff_iff, List.isEmpty_iff, List.isEmpty_iff, nodesThinned_eq_nil]

/-! ## What thinned trees match -/

theorem placeAfter_starOnce (place : Place) (n : Node) (ns : List Node) :
    placeAfter place (starOnce n ns) = placeAfter (n.placeAfter place) ns := by
  unfold starOnce
  split
  · next h =>
    obtain ⟨hn, hhead⟩ := Bool.and_eq_true_iff.1 h
    -- both stars lead inside a component
    cases n with
    | star =>
      cases ns with
      | nil => cases hhead
      | cons m ns =>
        cases m with
        | star => rfl
        | _ => cases hhead
    | _ => cases hn
  · rfl

mutual

theorem Node.placeAfter_thinned (place : Place) : (n : Node) → n.thinned.placeAfter place = n.placeAfter place
  | .literal _ _ | .anyChar _ | .star _ | .doubleStar _ | .set _ _ _ => rfl
  | .alternation bs _ => congrArg Place.join (branchPlaces_thinned place bs)

theorem placeAfter_thinned (place : Place) : (ns : List Node) → placeAfter place (nodesThinned ns) = placeAfter place ns
  | [] => rfl
  | n :: ns => by
    rw [nodesThinned, placeAfter_starOnce, n.placeAfter_thinned]
    exact placeAfter_thinned _ ns

theorem branchPlaces_thinned (place : Place) :
    (bs : List (List Node)) → branchPlaces place (branchesThinned bs) = branchPlaces place bs
  | [] => rfl
  | b :: bs => congrArg₂ List.cons (placeAfter_thinned place b) (branchPlaces_thinned place bs)

end

namespace Regex

variable {ignoreCase : Bool} {x : Text} {r r' s s' : Regex}

/-- Each of the expressions matches what the other does, whatever they stand beside. -/
structure Alike (ignoreCase : Bool) (x : Text) (r s : Regex) : Prop where
  within : Within ignoreCase x r s
  covers : Within ignoreCase x s r

theorem Alike.refl (r : Regex) : Alike ignoreCase x r r := ⟨.refl r, .refl r⟩

theorem Alike.seq (h : Alike ignoreCase x r r') (h' : Alike ignoreCase x s s') :
    Alike ignoreCase x (.seq r s) (.seq r' s') :=
  ⟨h.within.seq h'.within, h.covers.seq h'.covers⟩

theorem Alike.alternatives {rs ss : List Regex} (h : List.Forall₂ (Alike ignoreCase x) rs ss) :
    Alike ignoreCase x (.group (alternatives rs)) (.group (Regex.alternatives ss)) :=
  ⟨(Within.alternatives (h.imp fun _ _ h => h.within)).group,
    (Within.alternatives (h.flip.imp fun _ _ h => h.covers)).group⟩

end Regex

namespace Expression

open Regex (Alike)

variable {ignoreCase : Bool} {x : Text} {o : Options} {place : Place}

/-- The nodes match what the thinned ones do, by themselves and behind stars. -/
structure NodesAlike (ignoreCase : Bool) (x : Text) (o : Options) (ns : List Node) : Prop where
  plain : ∀ place, Alike ignoreCase x (nodes o place ns) (nodes o place (nodesThinned ns))
  starred : ∀ place span ss, Stars ss →
    Alike ignoreCase x (nodes o place (.star span :: (ss ++ ns))) (nodes o place (nodesThinned (.star span :: ns)))

theorem nodesAlike_starred (h : ∀ place, Alike ignoreCase x (nodes o place ns) (nodes o place (nodesThinned ns)))
    (hhead : (nodesThinned ns).head?.any Node.isStar = false) : NodesAlike ignoreCase x o ns := by
  refine ⟨h, fun place span ss hss => ?_⟩
  have hthinned : nodesThinned (.star span :: ns) = .star nowhere :: ([] ++ nodesThinned ns) := by
    rw [nodesThinned, starOnce, hhead, Bool.and_false]
    rfl
  have hnone : Stars [] := fun _ hn => absurd hn List.not_mem_nil
  rw [hthinned]
  exact ⟨nodes_stars_within hss hnone (h .inside).within, nodes_stars_within hnone hss (h .inside).covers⟩

theorem NodesAlike.cons (h : NodesAlike ignoreCase x o ns) (hstar : n.thinned.isStar = false)
    (hn : ∀ place, Alike ignoreCase x (node o place n) (node o place n.thinned)) : NodesAlike ignoreCase x o (n :: ns) := by
  have hthinned : nodesThinned (n :: ns) = n.thinned :: nodesThinned ns := starOnce_of_not_star hstar _
  refine nodesAlike_starred (fun place => ?_) (by rw [hthinned]; simpa using hstar)
  have hrest := h.plain (n.placeAfter place)
  rw [← n.placeAfter_thinned] at hrest
  rw [hthinned, nodes, nodes, ← n.placeAfter_thinned]
  exact (hn place).seq hrest

theorem NodesAlike.star (h : NodesAlike ignoreCase x o ns) (span : Span) : NodesAlike ignoreCase x o (.star span :: ns) := by
  refine ⟨fun place => h.starred place span [] fun _ hn => absurd hn List.not_mem_nil, fun place span' ss hss => ?_⟩
  have hmore : Stars (ss ++ [.star span]) := List.forall_mem_append.2 ⟨hss, by simp⟩
  have hthinned : nodesThinned (.star span' :: .star span :: ns) = nodesThinned (.star span' :: ns) :=
    starOnce_starOnce rfl _ rfl _
  have hrest := h.starred place span' _ hmore
  rw [hthinned]
  rwa [List.append_assoc] at hrest

mutual

theorem nodes_thinned (o : Options) : (ns : List Node) → NodesWellFormed ns → NodesAlike ignoreCase x o ns
  | [], _ => nodesAlike_starred (fun _ => .refl _) rfl
  | .star span :: ns, h => (nodes_thinned o ns h.2).star span
  | .literal text span :: ns, h => (nodes_thinned o ns h.2).cons rfl fun _ => .refl _
  | .anyChar span :: ns, h => (nodes_thinned o ns h.2).cons rfl fun _ => .refl _
  | .set negated items span :: ns, h => (nodes_thinned o ns h.2).cons rfl fun _ => .refl _
  | .alternation bs span :: ns, h =>
    (nodes_thinned o ns h.2).cons rfl fun place => .alternatives (branches_thinned o bs h.1.2 place)

theorem branches_thinned (o : Options) : (bs : List (List Node)) → BranchesWellFormed bs → (place : Place) →
    List.Forall₂ (Alike ignoreCase x) (branches o place bs) (branches o place (branchesThinned bs))
  | [], _, _ => .nil
  | b :: bs, h, place => .cons ((nodes_thinned o b h.1).plain place) (branches_thinned o bs h.2 place)

end

theorem segment_thinned (o : Options) {s : Segment} (h : s.WellFormed) :
    Alike ignoreCase x (segment o s) (segment o s.thinned) := by
  unfold segment Segment.thinned
  split
  · next hrec =>
    obtain ⟨span, hnodes⟩ := Segment.isRecursive_iff.1 hrec
    rw [hnodes]
    exact .refl _
  · next hrec => exact (nodes_thinned o s.nodes (h.resolve_left hrec)).plain _

/-- **Segments match what the thinned ones do.** -/
theorem segments_thinned {ss : List Segment} (h : ∀ s ∈ ss, s.WellFormed) :
    Alike ignoreCase x (segments o ss) (segments o (ss.map Segment.thinned)) := by
  constructor
  · refine segments_side (List.forall₂_map_right_iff.2 (List.forall₂_same.2 fun s hs => ?_))
    exact ⟨s.isRecursive_thinned.symm, s.isEmpty_thinned.symm, (segment_thinned o (h s hs)).within⟩
  · refine segments_side (List.forall₂_map_left_iff.2 (List.forall₂_same.2 fun s hs => ?_))
    exact ⟨s.isRecursive_thinned, s.isEmpty_thinned, (segment_thinned o (h s hs)).covers⟩

end Expression

/-- **Where two trees have the same thinned segments, their matchers accept the same.** -/
theorem accepts_iff_of_thinned {p p' : Text} {tree tree' : Pattern} (h : Pattern.parse p = .ok tree)
    (h' : Pattern.parse p' = .ok tree') (hsame : tree.segments.map Segment.thinned = tree'.segments.map Segment.thinned)
    {o : Options} {m m' : Matcher} (hm : Matcher.ofPattern? o p = .ok m) (hm' : Matcher.ofPattern? o p' = .ok m')
    (x : Text) : m.accepts x = m'.accepts x := by
  have hthin := @Expression.segments_thinned (!o.caseSensitive) x o _ (parse_wellFormed h).segments
  have hthin' := @Expression.segments_thinned (!o.caseSensitive) x o _ (parse_wellFormed h').segments
  rw [← hsame] at hthin'
  rw [Bool.eq_iff_iff, accepts_iff_ran h hm, accepts_iff_ran h' hm']
  exact ⟨fun hmatch => hthin'.covers.ran (hthin.within.ran hmatch),
    fun hmatch => hthin.covers.ran (hthin'.within.ran hmatch)⟩

end Glob
