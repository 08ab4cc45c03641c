import Glob.Proofs.Pattern.Classes
import Glob.Proofs.Pattern.WellFormed
/-!
# What a builder has built

`Builder.Sound` is the invariant of a builder outside classes: its open braces are those of the outline, everything it
holds is well-formed, and a `**` is among its nodes only outside braces.  There is one lemma for each way it goes on,
and `Sound.wellFormed` gives what it ends with, the segments of a well-formed tree.
-/
namespace Glob

theorem nodesWellFormed_iff {ns : List Node} : NodesWellFormed ns ↔ ∀ n ∈ ns, n.WellFormed := by
  induction ns with
  | nil => simp [NodesWellFormed]
  | cons n ns ih => rw [NodesWellFormed, ih, List.forall_mem_cons]

theorem branchesWellFormed_iff {bs : List (List Node)} : BranchesWellFormed bs ↔ ∀ b ∈ bs, NodesWellFormed b := by
  induction bs with
  | nil => simp [BranchesWellFormed]
  | cons b bs ih => rw [BranchesWellFormed, ih, List.forall_mem_cons]

theorem nodesWellFormed_append {ns ns' : List Node} :
    NodesWellFormed (ns ++ ns') ↔ NodesWellFormed ns ∧ NodesWellFormed ns' := by
  simp only [nodesWellFormed_iff, List.forall_mem_append]

theorem branchesWellFormed_concat {bs : List (List Node)} {b : List Node} :
    BranchesWellFormed (bs ++ [b]) ↔ BranchesWellFormed bs ∧ NodesWellFormed b := by
  simp only [branchesWellFormed_iff, List.forall_mem_append, List.forall_mem_singleton]

theorem Segment.Separate.symm {s s' : Segment} (h : s.Separate s') : s'.Separate s := fun h' => h h'.symm

namespace Parser

/-- The nodes are well-formed, apart from `**` where no brace is open. -/
def Loose (outer : List OpenBrace) (ns : List Node) : Prop :=
  ∀ n ∈ ns, n.WellFormed ∨ (outer = [] ∧ ∃ span, n = .doubleStar span)

theorem Loose.cons {outer : List OpenBrace} {n : Node} {ns : List Node} (h : Loose outer ns) (hn : n.WellFormed) :
    Loose outer (n :: ns) :=
  List.forall_mem_cons.2 ⟨.inl hn, h⟩

theorem Loose.literal {outer : List OpenBrace} {ns : List Node} (h : Loose outer ns) (text : Text) (span : Span) :
    Loose outer (addLiteral ns text span) := by
  unfold addLiteral
  split
  · exact Loose.cons (List.forall_mem_cons.1 h).2 trivial
  · exact h.cons trivial

theorem Loose.wellFormed {brace : OpenBrace} {outer : List OpenBrace} {ns : List Node} (h : Loose (brace :: outer) ns) :
    ∀ n ∈ ns, n.WellFormed :=
  fun n hn => (h n hn).resolve_right fun h => by cases h.1

def BracesSound : List OpenBrace → Prop
  | [] => True
  | brace :: outer =>
    Loose outer brace.before ∧ (∀ branch ∈ brace.branches, NodesWellFormed branch) ∧ BracesSound outer

/-! ## Segments -/

/-- Nodes without `**` are kept. -/
theorem demoteDoubleStars_eq_self {ns : List Node} (h : ∀ n ∈ ns, ∀ span, n ≠ .doubleStar span) :
    demoteDoubleStars ns = ns := by
  have hnode : ∀ n ∈ ns, demote n = [n] := fun n hn => by
    unfold demote
    split
    · next span => exact absurd rfl (h _ hn span)
    · rfl
  match ns with
  | [] | [_] => rfl
  | n :: m :: ns =>
    show (n :: m :: ns).flatMap demote = _
    rw [List.flatMap_congr hnode, List.flatMap_singleton']

theorem demote_wellFormed {ns : List Node} (h : Loose [] ns) : ∀ n ∈ ns.flatMap demote, n.WellFormed := by
  intro n hn
  obtain ⟨m, hm, hn⟩ := List.mem_flatMap.1 hn
  rcases h m hm with hwf | ⟨_, span, rfl⟩
  · unfold demote at hn
    split at hn
    · exact hwf.elim
    · rw [List.mem_singleton.1 hn]
      exact hwf
  · have hstars : n = .star ⟨span.start, span.start + 1⟩ ∨ n = .star ⟨span.start + 1, span.start + 2⟩ := by
      simpa [demote, Node.twoStars] using hn
    rcases hstars with rfl | rfl <;> trivial

theorem segment_wellFormed {ns : List Node} (h : Loose [] ns) (span : Span) :
    (⟨demoteDoubleStars ns, span⟩ : Segment).WellFormed := by
  unfold demoteDoubleStars
  split
  · exact .inr trivial
  · next n =>
    rcases h n List.mem_cons_self with hwf | ⟨_, span, rfl⟩
    · exact .inr ⟨hwf, trivial⟩
    · exact .inl rfl
  · exact .inr (nodesWellFormed_iff.2 (demote_wellFormed h))

structure SegmentsSound (segments : List Segment) : Prop where
  wellFormed : ∀ s ∈ segments, s.WellFormed
  separate : segments.IsChain Segment.Separate

/-- A segment is one more, or it is left out because the one before it is recursive too. -/
theorem addSegment_cases (segments : List Segment) (s : Segment) :
    (addSegment segments s = s :: segments ∧ ∀ last ∈ segments.head?, last.Separate s) ∨
      (addSegment segments s = segments ∧ ∃ last rest, segments = last :: rest ∧ last.isRecursive = true ∧
        s.isRecursive = true) := by
  unfold addSegment
  split
  · next last rest =>
    split
    · next hboth =>
      obtain ⟨hrec, hlast⟩ := Bool.and_eq_true_iff.1 hboth
      exact .inr ⟨rfl, last, rest, rfl, hlast, hrec⟩
    · next hboth =>
      refine .inl ⟨rfl, fun last' hlast hrec => hboth ?_⟩
      obtain rfl := Option.some.inj hlast
      rw [hrec.1, hrec.2]
      rfl
  · exact .inl ⟨rfl, nofun⟩

theorem addSegment_separate {segments : List Segment} {s : Segment} (h : ∀ last ∈ segments.head?, last.Separate s) :
    addSegment segments s = s :: segments := by
  rcases addSegment_cases segments s with ⟨hadd, -⟩ | ⟨-, last, rest, rfl, hboth⟩
  · exact hadd
  · exact absurd hboth (h last rfl)

theorem SegmentsSound.add {segments : List Segment} {s : Segment} (h : SegmentsSound segments) (hs : s.WellFormed) :
    SegmentsSound (addSegment segments s) := by
  rcases addSegment_cases segments s with ⟨hadd, hnext⟩ | ⟨hadd, -⟩
  · rw [hadd]
    refine ⟨List.forall_mem_cons.2 ⟨hs, h.wellFormed⟩, List.isChain_cons.2 ⟨fun last hlast => ?_, h.separate⟩⟩
    exact (hnext last hlast).symm
  · rw [hadd]
    exact h

theorem addSegment_ne_nil (segments : List Segment) (s : Segment) : addSegment segments s ≠ [] := by
  rcases addSegment_cases segments s with ⟨hadd, -⟩ | ⟨hadd, last, rest, rfl, -⟩
  · rw [hadd]
    exact List.cons_ne_nil _ _
  · rw [hadd]
    exact List.cons_ne_nil _ _

/-! ## The invariant -/

structure Builder.Sound (b : Builder) (p : Text) (braces : List Nat) : Prop where
  outside : b.openClass = none
  source : b.source = p
  openers : b.braces.map (·.opener) = braces.map (Span.sized · 1)
  segments : SegmentsSound b.segments
  nodes : Loose b.braces b.nodes
  bracesSound : BracesSound b.braces

namespace Builder.Sound

variable {p : Text} {b : Builder} {braces : List Nat}

theorem start (p : Text) : (Parser.start p).Sound p [] :=
  ⟨rfl, rfl, rfl, ⟨by simp [Parser.start], .nil⟩, by simp [Loose, Parser.start], trivial⟩

theorem begun (h : b.Sound p braces) (k : Int) : (b.begun k).Sound p braces :=
  ⟨h.outside, h.source, h.openers, h.segments, h.nodes, h.bracesSound⟩

theorem takeText (h : b.Sound p braces) (text : Text) (span : Span) : (b.takeText text span).Sound p braces :=
  ⟨h.outside, h.source, h.openers, h.segments, h.nodes.literal text span, h.bracesSound⟩

theorem takeNode (h : b.Sound p braces) {n : Node} (hn : n.WellFormed) : (b.takeNode n).Sound p braces :=
  ⟨h.outside, h.source, h.openers, h.segments, h.nodes.cons hn, h.bracesSound⟩

theorem takeStars (h : b.Sound p braces) (k : Nat) : (b.takeStars k).Sound p braces := by
  unfold Builder.takeStars
  split
  · next hnone =>
    have hnodes := h.nodes
    refine ⟨h.outside, h.source, h.openers, h.segments, ?_, h.bracesSound⟩
    refine List.forall_mem_cons.2 ⟨.inr ⟨?_, _, rfl⟩, hnodes⟩
    exact List.isEmpty_iff.1 hnone
  · refine ⟨h.outside, h.source, h.openers, h.segments, ?_, h.bracesSound⟩
    exact Loose.cons (Loose.cons h.nodes trivial) trivial

theorem withClass (h : b.Sound p braces) {cl : OpenClass} (hcl : cl.Sound false) (stop : Nat) :
    (b.withClass cl stop).Sound p braces := by
  refine ⟨rfl, h.source, h.openers, h.segments, h.nodes.cons ⟨?_, fun item hitem => ?_⟩, h.bracesSound⟩
  · simpa using hcl.nonempty rfl
  · exact hcl.ordered item (List.mem_reverse.1 hitem)

theorem openBrace (h : b.Sound p braces) (k : Nat) :
    Sound { b.begun k with braces := ⟨Span.sized k 1, b.nodes, []⟩ :: b.braces, nodes := [] } p (k :: braces) where
  outside := h.outside
  source := h.source
  openers := congrArg (Span.sized k 1 :: ·) h.openers
  segments := h.segments
  nodes := by simp [Loose]
  bracesSound := ⟨h.nodes, by simp, h.bracesSound⟩

section Braces

variable {brace : OpenBrace} {outer : List OpenBrace}

theorem comma (h : b.Sound p braces) (hb : b.braces = brace :: outer) (k : Nat) :
    Sound { b.begun k with
      braces := { brace with branches := b.nodes.reverse :: brace.branches } :: outer
      nodes := [] } p braces := by
  have hnodes := h.nodes
  have hbraces := h.bracesSound
  have hopeners := h.openers
  rw [hb] at hnodes hbraces hopeners
  refine ⟨h.outside, h.source, hopeners, h.segments, by simp [Loose], hbraces.1, ?_, hbraces.2.2⟩
  refine List.forall_mem_cons.2 ⟨nodesWellFormed_iff.2 fun n hn => ?_, hbraces.2.1⟩
  exact hnodes.wellFormed n (List.mem_reverse.1 hn)

theorem closeBrace (h : b.Sound p braces) (hb : b.braces = brace :: outer) (k : Nat) (span : Span) :
    Sound { b.begun k with
      braces := outer
      nodes := .alternation (b.nodes.reverse :: brace.branches).reverse span :: brace.before } p braces.tail := by
  have hnodes := h.nodes
  have hbraces := h.bracesSound
  have hopeners := h.openers
  rw [hb] at hnodes hbraces hopeners
  have hbranches : ∀ branch ∈ b.nodes.reverse :: brace.branches, NodesWellFormed branch := by
    refine List.forall_mem_cons.2 ⟨nodesWellFormed_iff.2 fun n hn => ?_, hbraces.2.1⟩
    exact hnodes.wellFormed n (List.mem_reverse.1 hn)
  refine ⟨h.outside, h.source, ?_, h.segments, hbraces.1.cons ⟨by simp, ?_⟩, hbraces.2.2⟩
  · rw [List.map_tail, ← hopeners]
    rfl
  · exact branchesWellFormed_iff.2 fun branch hmem => hbranches branch (List.mem_reverse.1 hmem)

end Braces

theorem closeSegment (h : b.Sound p braces) (hb : b.braces = []) (stop : Int) :
    SegmentsSound (b.closeSegment stop) := by
  have hnodes := h.nodes
  rw [hb] at hnodes
  exact h.segments.add (segment_wellFormed (fun n hn => hnodes n (List.mem_reverse.1 hn)) _)

theorem separator (h : b.Sound p braces) (hb : b.braces = []) (stop : Int) :
    Sound { b with segments := (b.begun stop).closeSegment stop, segmentStart := none, nodes := [] } p braces :=
  ⟨h.outside, h.source, h.openers, (h.begun stop).closeSegment hb stop, by simp [Loose], h.bracesSound⟩

/-- What the builder ends with. -/
theorem wellFormed (h : b.Sound p braces) (hb : b.braces = []) (stop : Int) :
    Pattern.WellFormed ⟨p, (b.closeSegment stop).reverse⟩ := by
  have hsound := h.closeSegment hb stop
  refine ⟨fun hnil => addSegment_ne_nil _ _ (List.reverse_eq_nil_iff.1 hnil), fun s hs => ?_, ?_⟩
  · exact hsound.wellFormed s (List.mem_reverse.1 hs)
  exact List.isChain_reverse.2 (hsound.separate.imp fun _ _ => Segment.Separate.symm)

end Builder.Sound

end Parser

end Glob
