import Glob.Proofs.Pattern.Built
import Glob.Proofs.Pattern.Course
/-!
# Canonical trees

The same paths can be told by many trees: a literal may be cut in two, or an empty one put between two nodes.  A canonical
tree has none of this, and no segment of it is two stars, which are the same text as a `**`.  Parsing gives canonical
trees only (`parse_canonical`): adjacent texts are merged as they come, and of two stars the first one takes the second.
-/
namespace Glob

def Node.Apart (n n' : Node) : Prop := ¬ (n.isLiteral = true ∧ n'.isLiteral = true)

mutual

/-- No literal of the node is empty, and there are no two in a row. -/
def Node.Tidy : Node → Prop
  | .literal text _ => text ≠ []
  | .anyChar _ | .star _ | .doubleStar _ | .set _ _ _ => True
  | .alternation branches _ => BranchesTidy branches

def NodesTidy : List Node → Prop
  | [] => True
  | n :: ns => n.Tidy ∧ (∀ n' ∈ ns.head?, n.Apart n') ∧ NodesTidy ns

def BranchesTidy : List (List Node) → Prop
  | [] => True
  | b :: bs => NodesTidy b ∧ BranchesTidy bs

end

def Segment.IsTwoStars (s : Segment) : Prop := ∃ span span', s.nodes = [.star span, .star span']

structure Pattern.Canonical (p : Pattern) : Prop extends p.WellFormed where
  tidy : ∀ s ∈ p.segments, NodesTidy s.nodes
  notTwoStars : ∀ s ∈ p.segments, ¬ s.IsTwoStars

/-! ## Tidy nodes -/

theorem Node.Apart.symm {n n' : Node} (h : n.Apart n') : n'.Apart n := fun h' => h h'.symm

theorem Node.Apart.of_left {n n' : Node} (h : n.isLiteral = false) : n.Apart n' := fun h' => by
  rw [h] at h'
  cases h'.1

theorem nodesTidy_iff {ns : List Node} : NodesTidy ns ↔ (∀ n ∈ ns, n.Tidy) ∧ ns.IsChain Node.Apart := by
  induction ns with
  | nil => simp [NodesTidy]
  | cons n ns ih =>
    rw [NodesTidy, ih, List.forall_mem_cons, List.isChain_cons]
    exact ⟨fun ⟨hn, hapart, hns, hchain⟩ => ⟨⟨hn, hns⟩, hapart, hchain⟩,
      fun ⟨⟨hn, hns⟩, hapart, hchain⟩ => ⟨hn, hapart, hns, hchain⟩⟩

theorem branchesTidy_iff {bs : List (List Node)} : BranchesTidy bs ↔ ∀ b ∈ bs, NodesTidy b := by
  induction bs with
  | nil => simp [BranchesTidy]
  | cons b bs ih => rw [BranchesTidy, ih, List.forall_mem_cons]

theorem nodesTidy_reverse {ns : List Node} (h : NodesTidy ns) : NodesTidy ns.reverse := by
  obtain ⟨hns, hchain⟩ := nodesTidy_iff.1 h
  refine nodesTidy_iff.2 ⟨fun n hn => hns n (List.mem_reverse.1 hn), ?_⟩
  exact List.isChain_reverse.2 (hchain.imp fun _ _ => Node.Apart.symm)

theorem NodesTidy.cons {n : Node} {ns : List Node} (h : NodesTidy ns) (hn : n.Tidy) (hplain : n.isLiteral = false) :
    NodesTidy (n :: ns) :=
  ⟨hn, fun _ _ => .of_left hplain, h⟩

namespace Parser

theorem addLiteral_tidy {ns : List Node} (h : NodesTidy ns) {text : Text} (htext : text ≠ []) (span : Span) :
    NodesTidy (addLiteral ns text span) := by
  unfold addLiteral
  split
  · next before s rest =>
    obtain ⟨_, hapart, hrest⟩ := h
    exact ⟨by simp [Node.Tidy, htext], hapart, hrest⟩
  · next hplain =>
    refine ⟨htext, fun n hn hboth => ?_, h⟩
    -- a literal would have been added to
    obtain ⟨ns, rfl⟩ : ∃ ns', ns = n :: ns' := List.head?_eq_some_iff.1 hn
    cases n with
    | literal before s => exact hplain before s ns rfl
    | _ => cases hboth.2

theorem demote_head? (n : Node) : ∀ n' ∈ (demote n).head?, n'.isLiteral = n.isLiteral := by
  intro n' hn'
  cases n with
  | doubleStar span =>
    obtain rfl := Option.some.inj hn'
    rfl
  | _ =>
    obtain rfl := Option.some.inj hn'
    rfl

theorem demote_tidy {ns : List Node} (h : NodesTidy ns) : NodesTidy (ns.flatMap demote) := by
  induction ns with
  | nil => exact h
  | cons n ns ih =>
    obtain ⟨hn, hapart, hns⟩ := h
    have hrest := ih hns
    rw [List.flatMap_cons]
    cases n with
    | doubleStar span => exact (hrest.cons (by trivial) rfl).cons (by trivial) rfl
    | literal text span =>
      refine ⟨hn, fun n' hn' => ?_, hrest⟩
      cases ns with
      | nil => cases hn'
      | cons m ns =>
        have hhead : n' ∈ (demote m).head? := by
          cases m <;> exact hn'
        intro hboth
        exact hapart m rfl ⟨rfl, (demote_head? m n' hhead).symm.trans hboth.2⟩
    | anyChar span | star span | set negated items span => exact hrest.cons (by trivial) rfl
    | alternation bs span => exact hrest.cons hn rfl

theorem demoteDoubleStars_tidy {ns : List Node} (h : NodesTidy ns) : NodesTidy (demoteDoubleStars ns) := by
  unfold demoteDoubleStars
  split
  · exact h
  · exact h
  · exact demote_tidy h

/-- A node that is one star after all was a star. -/
theorem demote_append_star {n : Node} {ns rest : List Node} {span : Span} (h : demote n ++ ns = .star span :: rest)
    (hne : ns ≠ [] ∨ rest = []) (hlen : rest.length ≤ 1) : n = .star span ∧ ns = rest := by
  cases n with
  | doubleStar s =>
    obtain ⟨_, hrest⟩ := List.cons.inj h
    rw [← hrest] at hne hlen
    have hnil : ns = [] := List.length_eq_zero_iff.1 (by simpa using hlen)
    simp [hnil] at hne
  | _ =>
    obtain ⟨hn, hrest⟩ := List.cons.inj h
    exact ⟨hn, hrest⟩

theorem demoteDoubleStars_twoStars {ns : List Node} {span span' : Span}
    (h : demoteDoubleStars ns = [.star span, .star span']) : ns = [.star span, .star span'] := by
  match ns with
  | [] | [_] => cases h
  | n :: m :: ns =>
    rw [demoteDoubleStars, List.flatMap_cons, List.flatMap_cons] at h
    · have hm : demote m ++ ns.flatMap demote ≠ [] := by cases m <;> simp [demote, Node.twoStars]
      obtain ⟨rfl, hrest⟩ := demote_append_star h (.inl hm) (Nat.le_refl 1)
      obtain ⟨rfl, hnil⟩ := demote_append_star hrest (.inr rfl) (Nat.zero_le 1)
      cases ns with
      | nil => rfl
      | cons l ns => cases l <;> simp [demote, Node.twoStars] at hnil
    all_goals simp

/-! ## The invariant -/

/-- A star with nothing but a star before it would be a `**`; and if the last node is a star, no star follows. -/
def Builder.Spaced (b : Builder) (t : Text) : Prop :=
  b.braces = [] → ∀ span ns, b.nodes = .star span :: ns →
    t.head? ≠ some Mark.star ∧ ∀ span', ns ≠ [.star span']

structure Builder.Tidy (b : Builder) : Prop where
  segments : ∀ s ∈ b.segments, NodesTidy s.nodes ∧ ¬ s.IsTwoStars
  nodes : NodesTidy b.nodes
  braces : ∀ brace ∈ b.braces, NodesTidy brace.before ∧ ∀ branch ∈ brace.branches, NodesTidy branch

namespace Builder.Tidy

variable {b : Builder} {t : Text}

theorem start (p : Text) : (Parser.start p).Tidy := ⟨by simp [Parser.start], trivial, by simp [Parser.start]⟩

theorem begun (h : b.Tidy) (k : Int) : (b.begun k).Tidy := ⟨h.segments, h.nodes, h.braces⟩

theorem takeText (h : b.Tidy) {text : Text} (htext : text ≠ []) (span : Span) : (b.takeText text span).Tidy :=
  ⟨h.segments, addLiteral_tidy h.nodes htext span, h.braces⟩

theorem takeNode (h : b.Tidy) {n : Node} (hn : n.Tidy) (hplain : n.isLiteral = false) : (b.takeNode n).Tidy :=
  ⟨h.segments, h.nodes.cons hn hplain, h.braces⟩

theorem takeStars (h : b.Tidy) (k : Nat) : (b.takeStars k).Tidy := by
  unfold Builder.takeStars
  split
  · exact h.takeNode trivial rfl
  · exact ⟨h.segments, (h.nodes.cons (by trivial) rfl).cons (by trivial) rfl, h.braces⟩

theorem openBrace (h : b.Tidy) (k : Nat) :
    Tidy { b.begun k with braces := ⟨Span.sized k 1, b.nodes, []⟩ :: b.braces, nodes := [] } :=
  ⟨h.segments, trivial, List.forall_mem_cons.2 ⟨⟨h.nodes, by simp⟩, h.braces⟩⟩

section Braces

variable {brace : OpenBrace} {outer : List OpenBrace}

theorem comma (h : b.Tidy) (hb : b.braces = brace :: outer) (k : Nat) :
    Tidy { b.begun k with
      braces := { brace with branches := b.nodes.reverse :: brace.branches } :: outer
      nodes := [] } := by
  have hbraces := h.braces
  rw [hb] at hbraces
  obtain ⟨⟨hbefore, hbranches⟩, houter⟩ := List.forall_mem_cons.1 hbraces
  refine ⟨h.segments, trivial, List.forall_mem_cons.2 ⟨⟨hbefore, ?_⟩, houter⟩⟩
  exact List.forall_mem_cons.2 ⟨nodesTidy_reverse h.nodes, hbranches⟩

theorem closeBrace (h : b.Tidy) (hb : b.braces = brace :: outer) (k : Nat) (span : Span) :
    Tidy { b.begun k with
      braces := outer
      nodes := .alternation (b.nodes.reverse :: brace.branches).reverse span :: brace.before } := by
  have hbraces := h.braces
  rw [hb] at hbraces
  obtain ⟨⟨hbefore, hbranches⟩, houter⟩ := List.forall_mem_cons.1 hbraces
  refine ⟨h.segments, hbefore.cons (branchesTidy_iff.2 fun branch hmem => ?_) rfl, houter⟩
  rcases List.mem_cons.1 (List.mem_reverse.1 hmem) with rfl | hmem
  · exact nodesTidy_reverse h.nodes
  · exact hbranches branch hmem

end Braces

theorem closeSegment (h : b.Tidy) (hb : b.braces = []) (hspaced : b.Spaced t) (stop : Int) :
    ∀ s ∈ b.closeSegment stop, NodesTidy s.nodes ∧ ¬ s.IsTwoStars := by
  have hnew : ∀ span, NodesTidy (demoteDoubleStars b.nodes.reverse) ∧
      ¬ Segment.IsTwoStars ⟨demoteDoubleStars b.nodes.reverse, span⟩ := by
    intro span
    refine ⟨demoteDoubleStars_tidy (nodesTidy_reverse h.nodes), ?_⟩
    rintro ⟨first, second, htwo⟩
    have hnodes : b.nodes = [.star second, .star first] := by
      rw [← List.reverse_reverse b.nodes, demoteDoubleStars_twoStars htwo]
      rfl
    exact (hspaced hb second _ hnodes).2 first rfl
  unfold Builder.closeSegment
  rcases addSegment_cases b.segments ⟨demoteDoubleStars b.nodes.reverse, ⟨b.segmentStart.getD stop, stop⟩⟩ with
    ⟨hadd, -⟩ | ⟨hadd, -⟩
  · rw [hadd]
    exact List.forall_mem_cons.2 ⟨hnew _, h.segments⟩
  · rw [hadd]
    exact h.segments

end Builder.Tidy

/-- A builder whose last node is no star. -/
theorem Builder.spaced_of_head {b : Builder} {n : Node} {ns : List Node} (h : b.nodes = n :: ns)
    (hn : ∀ span, n ≠ .star span) (t : Text) : b.Spaced t := by
  intro _ span ns' hstar
  rw [h] at hstar
  exact absurd (List.cons.inj hstar).1 (hn span)

/-- **A parse ends with segments that have nothing but tidy nodes and are not two stars.** -/
theorem Course.tidy {k : Nat} {b : Builder} {t : Text} {segments : List Segment} (h : Course k b t segments)
    (hb : b.Tidy) (hspaced : b.Spaced t) : ∀ s ∈ segments, NodesTidy s.nodes ∧ ¬ s.IsTwoStars := by
  have htext : ∀ (b : Builder) (c : CodePoint) (span : Span) (t : Text), (b.takeText [c] span).Spaced t := by
    intro b c span t
    have hhead : ∃ text span' ns, addLiteral b.nodes [c] span = .literal text span' :: ns := by
      unfold addLiteral
      split
      · exact ⟨_, _, _, rfl⟩
      · exact ⟨_, _, _, rfl⟩
    obtain ⟨text, span', ns, hnodes⟩ := hhead
    exact Builder.spaced_of_head hnodes (fun _ => Node.noConfusion) t
  induction h with
  | @ends k b hnone => exact fun s hs => (hb.begun k).closeSegment hnone hspaced k s (List.mem_reverse.1 hs)
  | text _ _ ih | escaped _ ih => exact ih (hb.takeText (List.cons_ne_nil _ _) _) (htext _ _ _ _)
  | @star k b t segments ht _ ih =>
    refine ih (hb.takeNode trivial rfl) fun hnone span ns hnodes => ⟨ht, fun span' hns => ?_⟩
    have hold : b.nodes = [.star span'] := (List.cons.inj hnodes).2.trans hns
    exact (hspaced hnone span' [] hold).1 rfl
  | @stars k b t segments _ ih =>
    refine ih (hb.takeStars k) fun hnone => ?_
    have hbraces : b.braces = [] := by
      unfold Builder.takeStars at hnone
      split at hnone <;> exact hnone
    have hnodes : (b.takeStars k).nodes = .doubleStar (Span.sized k 2) :: b.nodes := by
      rw [Builder.takeStars, hbraces]
      rfl
    exact Builder.spaced_of_head hnodes (fun _ => Node.noConfusion) t hnone
  | question _ ih => exact ih (hb.takeNode trivial rfl) (Builder.spaced_of_head rfl (fun _ => Node.noConfusion) _)
  | set _ _ _ ih =>
    exact ih ⟨hb.segments, hb.nodes.cons trivial rfl, hb.braces⟩ (Builder.spaced_of_head rfl (fun _ => Node.noConfusion) _)
  | openBrace _ ih => exact ih (hb.openBrace _) nofun
  | comma hopen _ ih => exact ih (hb.comma hopen _) nofun
  | closeBrace hopen _ ih => exact ih (hb.closeBrace hopen _ _) (Builder.spaced_of_head rfl (fun _ => Node.noConfusion) _)
  | @separator k b t segments hnone _ ih =>
    exact ih ⟨(hb.begun k).closeSegment hnone hspaced k, trivial, hb.braces⟩ fun _ => nofun

end Parser

/-- **Parsing gives canonical trees.** -/
theorem parse_canonical {p : Text} {tree : Pattern} (h : Pattern.parse p = .ok tree) : tree.Canonical := by
  have htidy := (parse_course h).2.tidy (.start p) fun _ => nofun
  exact ⟨parse_wellFormed h, fun s hs => (htidy s hs).1, fun s hs => (htidy s hs).2⟩

end Glob
