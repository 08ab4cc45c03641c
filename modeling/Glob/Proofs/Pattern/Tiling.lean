import Glob.Proofs.Pattern.Canonical
import Glob.Proofs.Text.Unescaped
/-!
# Spans tile the pattern

Every node and segment of a tree has the span of the text that it was read from.  `nodesCover` says so of the nodes of a
sequence: their spans follow one another without a gap, and the text under each is what such a node is read from.  The
branches of an alternation are told by the text between its marks.  `segmentsCover` lays the segments along the whole
pattern, with a separator between each two; only behind a recursive segment there may be more, `**/` over and over,
from the recursive segments that were left out.

The builder's part of this is an invariant of the course of a parse: what it has taken is laid along the pattern up to
the offset where it stands (`Builder.Covers`).
-/
namespace Glob

open Text (unescape? unescape?_append)

/-! ## Parts of a text -/

namespace Text

variable {p w w' t : Text} {i j k : Nat}

/-- The part of the text from offset `i` to offset `j` is `w`. -/
def Part (p : Text) (i j : Nat) (w : Text) : Prop := j = i + w.length ∧ p.slice i j = w

theorem part_iff : p.Part i j w ↔ j = i + w.length ∧ w <+: p.drop i := by
  refine and_congr_right fun hj => ?_
  rw [List.prefix_iff_eq_take, slice, List.drop_take, hj, Nat.add_sub_cancel_left]
  exact eq_comm

theorem part_append : p.Part i k (w ++ w') ↔ p.Part i (i + w.length) w ∧ p.Part (i + w.length) k w' := by
  simp only [part_iff, List.length_append, true_and, Nat.add_assoc]
  constructor
  · rintro ⟨hk, t, ht⟩
    refine ⟨⟨w' ++ t, by rw [← ht, List.append_assoc]⟩, hk, t, ?_⟩
    rw [← List.drop_drop, ← ht, List.append_assoc, List.drop_left]
  · rintro ⟨⟨t, ht⟩, hk, t', ht'⟩
    rw [← List.drop_drop, ← ht, List.drop_left] at ht'
    exact ⟨hk, t', by rw [← ht, ← ht', List.append_assoc]⟩

theorem Part.append (h : p.Part i j w) (h' : p.Part j k w') : p.Part i k (w ++ w') := by
  obtain rfl := h.1
  exact part_append.2 ⟨h, h'⟩

theorem part_self (p : Text) : p.Part 0 p.length p := part_iff.2 ⟨(Nat.zero_add _).symm, List.prefix_rfl⟩

end Text

/-! ## Spans -/

mutual

/-- The node is read from the part of `p` from offset `i` to offset `j`, and this is its span. -/
def Node.Covers (p : Text) : Node → Nat → Nat → Prop
  | .literal text span, i, j => span = ⟨i, j⟩ ∧ ∃ w, p.Part i j w ∧ unescape? w = some text
  | .anyChar span, i, j => span = ⟨i, j⟩ ∧ p.Part i j [Mark.question]
  | .star span, i, j => span = ⟨i, j⟩ ∧ p.Part i j [Mark.star]
  | .doubleStar span, i, j => span = ⟨i, j⟩ ∧ p.Part i j [Mark.star, Mark.star]
  | .set _ _ span, i, j =>
    span = ⟨i, j⟩ ∧ ∃ w, p.Part i j (Mark.openBracket :: (w ++ [Mark.closeBracket]))
  | .alternation branches span, i, j =>
    span = ⟨i, j⟩ ∧ p.Part i (i + 1) [Mark.openBrace] ∧ branchesCover p branches (i + 1) j

/-- The spans of the nodes follow one another from offset `i` to offset `j`. -/
def nodesCover (p : Text) : List Node → Nat → Nat → Prop
  | [], i, j => i = j
  | n :: ns, i, j => ∃ k, n.Covers p i k ∧ nodesCover p ns k j

/-- Every branch is laid between two marks: there is a comma behind it, and behind the last one a closing brace. -/
def branchesCover (p : Text) : List (List Node) → Nat → Nat → Prop
  | [], _, _ => False
  | b :: bs, i, j => ∃ k, nodesCover p b i k ∧
    ((bs = [] ∧ p.Part k j [Mark.closeBrace]) ∨ (p.Part k (k + 1) [Mark.comma] ∧ branchesCover p bs (k + 1) j))

end

namespace Segment

def Covers (p : Text) (s : Segment) (i j : Nat) : Prop := s.span = ⟨i, j⟩ ∧ nodesCover p s.nodes i j

/-- From the end of the segment to the next one there is a separator.  Behind a recursive segment there may be others
that were left out. -/
def Before (p : Text) (s : Segment) (j k : Nat) : Prop :=
  ∃ n, (n = 0 ∨ s.isRecursive = true) ∧
    p.Part j k (Mark.slash :: (List.replicate n [Mark.star, Mark.star, Mark.slash]).flatten)

/-- Nothing is behind the segment, except recursive ones that were left out behind a recursive one. -/
def Last (p : Text) (s : Segment) (j : Nat) : Prop :=
  j = p.length ∨ (s.isRecursive = true ∧
    ∃ n, p.Part j p.length (List.replicate (n + 1) [Mark.slash, Mark.star, Mark.star]).flatten)

end Segment

/-- The segments are laid along the pattern, from offset `i` to its end. -/
def segmentsCover (p : Text) : List Segment → Nat → Prop
  | [], _ => False
  | s :: ss, i => ∃ j, s.Covers p i j ∧ ((ss = [] ∧ s.Last p j) ∨ ∃ k, s.Before p j k ∧ segmentsCover p ss k)

/-! ## What is laid in a row -/

section Row

variable {α : Type} {R : α → Nat → Nat → Prop} {as as' : List α} {a : α} {i j k : Nat}

/-- One of the list after the other is laid from offset `i` to offset `j`. -/
def Row (R : α → Nat → Nat → Prop) : List α → Nat → Nat → Prop
  | [], i, j => i = j
  | a :: as, i, j => ∃ k, R a i k ∧ Row R as k j

theorem row_append : Row R (as ++ as') i j ↔ ∃ k, Row R as i k ∧ Row R as' k j := by
  induction as generalizing i with
  | nil => simp [Row]
  | cons a as ih =>
    simp only [List.cons_append, Row, ih]
    constructor
    · rintro ⟨k, ha, l, has, has'⟩
      exact ⟨l, ⟨k, ha, has⟩, has'⟩
    · rintro ⟨l, ⟨k, ha, has⟩, has'⟩
      exact ⟨k, ha, l, has, has'⟩

theorem row_concat : Row R (as ++ [a]) i j ↔ ∃ k, Row R as i k ∧ R a k j := by
  simp only [row_append, Row, exists_eq_right]

end Row

section Covers

variable {p : Text} {ns : List Node} {n : Node} {b : List Node} {bs : List (List Node)} {s : Segment}
  {ss : List Segment} {i j k : Nat}

theorem nodesCover_iff_row : nodesCover p ns i j ↔ Row (Node.Covers p) ns i j := by
  induction ns generalizing i with
  | nil => exact Iff.rfl
  | cons n ns ih => simp only [nodesCover, Row, ih]

theorem nodesCover_append {ns' : List Node} :
    nodesCover p (ns ++ ns') i j ↔ ∃ k, nodesCover p ns i k ∧ nodesCover p ns' k j := by
  simp only [nodesCover_iff_row, row_append]

theorem nodesCover_concat : nodesCover p (ns ++ [n]) i j ↔ ∃ k, nodesCover p ns i k ∧ n.Covers p k j := by
  simp only [nodesCover_iff_row, row_concat]

def BranchCovers (p : Text) (b : List Node) (i j : Nat) : Prop :=
  ∃ k, nodesCover p b i k ∧ p.Part k j [Mark.comma]

theorem branchesCover_concat (h : Row (BranchCovers p) bs i j) (hb : nodesCover p b j k) {l : Nat}
    (hl : p.Part k l [Mark.closeBrace]) : branchesCover p (bs ++ [b]) i l := by
  induction bs generalizing i with
  | nil =>
    obtain rfl : i = j := h
    exact ⟨k, hb, .inl ⟨rfl, hl⟩⟩
  | cons branch bs ih =>
    obtain ⟨next, ⟨stop, hbranch, hcomma⟩, hrest⟩ := h
    obtain rfl : next = stop + 1 := hcomma.1
    exact ⟨stop, hbranch, .inr ⟨hcomma, ih hrest⟩⟩

/-- The segment and what is between it and the next one. -/
def Segment.CoversOn (p : Text) (s : Segment) (i j : Nat) : Prop := ∃ k, s.Covers p i k ∧ s.Before p k j

theorem segmentsCover_concat (h : Row (Segment.CoversOn p) ss i j) (hs : s.Covers p j k) (hlast : s.Last p k) :
    segmentsCover p (ss ++ [s]) i := by
  induction ss generalizing i with
  | nil =>
    obtain rfl : i = j := h
    exact ⟨k, hs, .inl ⟨rfl, hlast⟩⟩
  | cons first ss ih =>
    obtain ⟨next, ⟨stop, hfirst, hnext⟩, hrest⟩ := h
    exact ⟨stop, hfirst, .inr ⟨next, hnext, ih hrest⟩⟩

end Covers

namespace Parser

variable {p : Text} {b : Builder} {ns : List Node} {i j k l : Nat}

/-! ## Nodes and segments -/

theorem addLiteral_covers {w text : Text} (h : nodesCover p ns.reverse i j) (hw : p.Part j k w)
    (htext : unescape? w = some text) : nodesCover p (addLiteral ns text ⟨j, k⟩).reverse i k := by
  unfold addLiteral
  split
  · next before span rest =>
    rw [List.reverse_cons, nodesCover_concat] at h ⊢
    obtain ⟨l, hrest, rfl, w', hw', hbefore⟩ := h
    exact ⟨l, hrest, rfl, w' ++ w, hw'.append hw, unescape?_append hbefore htext⟩
  · rw [List.reverse_cons, nodesCover_concat]
    exact ⟨j, h, rfl, w, hw, htext⟩

theorem twoStars_cover (h : p.Part i k [Mark.star, Mark.star]) : nodesCover p (Node.twoStars i) i k := by
  obtain ⟨hfirst, hsecond⟩ := (@Text.part_append p [Mark.star] [Mark.star] i k).1 h
  have hk : k = i + 1 + 1 := hsecond.1
  subst hk
  refine ⟨i + 1, ⟨rfl, hfirst⟩, i + 1 + 1, ⟨?_, hsecond⟩, rfl⟩
  simp [Int.add_assoc]

theorem demote_covers (h : nodesCover p ns i j) : nodesCover p (ns.flatMap demote) i j := by
  induction ns generalizing i with
  | nil => exact h
  | cons n ns ih =>
    obtain ⟨k, hn, hns⟩ := h
    rw [List.flatMap_cons, nodesCover_append]
    refine ⟨k, ?_, ih hns⟩
    cases n with
    | doubleStar span =>
      obtain ⟨rfl, hpart⟩ := hn
      exact twoStars_cover hpart
    | _ => exact ⟨k, hn, rfl⟩

theorem demoteDoubleStars_covers (h : nodesCover p ns i j) : nodesCover p (demoteDoubleStars ns) i j := by
  unfold demoteDoubleStars
  split
  · exact h
  · exact h
  · exact demote_covers h

theorem recursive_covers {s : Segment} (h : s.Covers p i j) (hrec : s.isRecursive = true) :
    p.Part i j [Mark.star, Mark.star] := by
  obtain ⟨_, hnodes⟩ := h
  obtain ⟨span, heq⟩ := Segment.isRecursive_iff.1 hrec
  rw [heq] at hnodes
  obtain ⟨k, ⟨_, hpart⟩, rfl⟩ := hnodes
  exact hpart

/-- A recursive segment behind a recursive one is left out: the next separator belongs to the first one then. -/
theorem before_of_recursive {s : Segment} (h : s.Before p i j) (hrec : s.isRecursive = true)
    (hnext : p.Part j k [Mark.star, Mark.star]) (hslash : p.Part k l [Mark.slash]) : s.Before p i l := by
  obtain ⟨n, _, hpart⟩ := h
  refine ⟨n + 1, .inr hrec, ?_⟩
  have hall := hpart.append (hnext.append hslash)
  rw [List.replicate_succ', List.flatten_append]
  exact hall

theorem last_of_recursive {s : Segment} (h : s.Before p i j) (hrec : s.isRecursive = true)
    (hnext : p.Part j p.length [Mark.star, Mark.star]) : s.Last p i := by
  obtain ⟨n, _, hpart⟩ := h
  refine .inr ⟨hrec, n, ?_⟩
  have hshift : ∀ n, Mark.slash :: ((List.replicate n [Mark.star, Mark.star, Mark.slash]).flatten ++
      [Mark.star, Mark.star]) = (List.replicate (n + 1) [Mark.slash, Mark.star, Mark.star]).flatten := by
    intro n
    induction n with
    | zero => rfl
    | succ n ih =>
      rw [List.replicate_succ (n := n + 1), List.flatten_cons, ← ih, List.replicate_succ, List.flatten_cons]
      rfl
  rw [← hshift]
  exact hpart.append hnext

/-! ## The invariant -/

/-- The open braces, of which the last one is told first, are laid along the pattern from offset `i` on, and the branch
that is read begins at offset `j`. -/
def bracesCover (p : Text) (i : Nat) : List OpenBrace → Nat → Prop
  | [], j => i = j
  | brace :: outer, j => ∃ h k, bracesCover p i outer h ∧ nodesCover p brace.before.reverse h k ∧
    brace.opener = Span.sized k 1 ∧ p.Part k (k + 1) [Mark.openBrace] ∧
    Row (BranchCovers p) brace.branches.reverse (k + 1) j

/-- What the builder has taken is laid along the pattern up to offset `k`; the segment at hand begins at offset `i`. -/
structure Builder.Covers (p : Text) (b : Builder) (i k : Nat) : Prop where
  start : b.segmentStart.getD k = i
  segments : Row (Segment.CoversOn p) b.segments.reverse 0 i
  nodes : ∃ j, bracesCover p i b.braces j ∧ nodesCover p b.nodes.reverse j k

namespace Builder.Covers

theorem atStart (p : Text) : (Parser.start p).Covers p 0 0 := ⟨rfl, rfl, 0, rfl, rfl⟩

theorem takeText (h : b.Covers p i k) {w text : Text} (hw : p.Part k l w) (htext : unescape? w = some text) :
    (b.takeText text ⟨k, l⟩).Covers p i l := by
  obtain ⟨j, hbraces, hnodes⟩ := h.nodes
  exact ⟨h.start, h.segments, j, hbraces, addLiteral_covers hnodes hw htext⟩

theorem node (h : b.Covers p i k) {n : Node} (hn : n.Covers p k l) :
    Covers p { b.begun k with nodes := n :: b.nodes } i l := by
  obtain ⟨j, hbraces, hnodes⟩ := h.nodes
  refine ⟨h.start, h.segments, j, hbraces, ?_⟩
  rw [List.reverse_cons, nodesCover_concat]
  exact ⟨k, hnodes, hn⟩

theorem takeStars (h : b.Covers p i k) (hpart : p.Part k l [Mark.star, Mark.star]) : (b.takeStars k).Covers p i l := by
  have hl : l = k + 2 := hpart.1
  unfold Builder.takeStars
  split
  · exact h.node (n := .doubleStar (Span.sized k 2)) ⟨by rw [hl]; rfl, hpart⟩
  · obtain ⟨j, hbraces, hnodes⟩ := h.nodes
    refine ⟨h.start, h.segments, j, hbraces, ?_⟩
    rw [List.reverse_append, List.reverse_reverse, nodesCover_append]
    exact ⟨k, hnodes, twoStars_cover hpart⟩

theorem openBrace (h : b.Covers p i k) (hpart : p.Part k (k + 1) [Mark.openBrace]) :
    Covers p { b.begun k with braces := ⟨Span.sized k 1, b.nodes, []⟩ :: b.braces, nodes := [] } i (k + 1) := by
  obtain ⟨j, hbraces, hnodes⟩ := h.nodes
  exact ⟨h.start, h.segments, k + 1, ⟨j, k, hbraces, hnodes, rfl, hpart, rfl⟩, rfl⟩

section Braces

variable {brace : OpenBrace} {outer : List OpenBrace}

theorem comma (h : b.Covers p i k) (hb : b.braces = brace :: outer) (hpart : p.Part k (k + 1) [Mark.comma]) :
    Covers p { b.begun k with
      braces := { brace with branches := b.nodes.reverse :: brace.branches } :: outer
      nodes := [] } i (k + 1) := by
  obtain ⟨j, hbraces, hnodes⟩ := h.nodes
  rw [hb] at hbraces
  obtain ⟨before, opener, houter, hbefore, hopener, hmark, hbranches⟩ := hbraces
  refine ⟨h.start, h.segments, k + 1, ⟨before, opener, houter, hbefore, hopener, hmark, ?_⟩, rfl⟩
  rw [List.reverse_cons, row_concat]
  exact ⟨j, hbranches, k, hnodes, hpart⟩

theorem closeBrace (h : b.Covers p i k) (hb : b.braces = brace :: outer)
    (hpart : p.Part k (k + 1) [Mark.closeBrace]) :
    Covers p { b.begun k with
      braces := outer
      nodes := .alternation (b.nodes.reverse :: brace.branches).reverse ⟨brace.opener.start, k + 1⟩ ::
        brace.before } i (k + 1) := by
  obtain ⟨j, hbraces, hnodes⟩ := h.nodes
  rw [hb] at hbraces
  obtain ⟨before, opener, houter, hbefore, hopener, hmark, hbranches⟩ := hbraces
  refine ⟨h.start, h.segments, before, houter, ?_⟩
  rw [List.reverse_cons, nodesCover_concat, hopener, List.reverse_cons]
  exact ⟨opener, hbefore, rfl, hmark, branchesCover_concat hbranches hnodes hpart⟩

end Braces

/-- The segment at hand is one more, or one that is left out behind another one. -/
theorem closed (h : b.Covers p i k) (hb : b.braces = []) :
    (∃ s, b.closeSegment k = s :: b.segments ∧ s.Covers p i k) ∨
      ∃ last rest, b.closeSegment k = b.segments ∧ b.segments = last :: rest ∧ last.isRecursive = true ∧
        p.Part i k [Mark.star, Mark.star] := by
  obtain ⟨j, hbraces, hnodes⟩ := h.nodes
  rw [hb] at hbraces
  obtain rfl : i = j := hbraces
  have hnew : Segment.Covers p ⟨demoteDoubleStars b.nodes.reverse, ⟨b.segmentStart.getD k, k⟩⟩ i k :=
    ⟨by rw [h.start], demoteDoubleStars_covers hnodes⟩
  rcases addSegment_cases b.segments _ with ⟨hadd, -⟩ | ⟨hadd, last, rest, hsegments, hlast, hrec⟩
  · exact .inl ⟨_, hadd, hnew⟩
  · exact .inr ⟨last, rest, hadd, hsegments, hlast, recursive_covers hnew hrec⟩

theorem separator (h : b.Covers p i k) (hb : b.braces = []) (hpart : p.Part k (k + 1) [Mark.slash]) :
    Covers p { b with segments := (b.begun k).closeSegment k, segmentStart := none, nodes := [] } (k + 1) (k + 1) := by
  have hbegun : (b.begun k).Covers p i k := ⟨h.start, h.segments, h.nodes⟩
  have hsegments := h.segments
  refine ⟨rfl, ?_, k + 1, by rw [hb]; rfl, rfl⟩
  rcases hbegun.closed hb with ⟨s, hclosed, hs⟩ | ⟨last, rest, hclosed, hrest, hrec, hstars⟩
  · rw [hclosed, List.reverse_cons, row_concat]
    exact ⟨i, hsegments, k, hs, 0, .inl rfl, hpart⟩
  · have hrest : b.segments = last :: rest := hrest
    rw [hrest, List.reverse_cons, row_concat] at hsegments
    obtain ⟨l, hrow, stop, hlast, hbefore⟩ := hsegments
    -- the stars and the separator behind them go to the segment before
    rw [hclosed]
    show Row _ b.segments.reverse 0 (k + 1)
    rw [hrest, List.reverse_cons, row_concat]
    exact ⟨l, hrow, stop, hlast, before_of_recursive hbefore hrec hstars hpart⟩

/-- What the builder ends with. -/
theorem ends (h : b.Covers p i p.length) (hb : b.braces = []) :
    segmentsCover p ((b.begun p.length).closeSegment p.length).reverse 0 := by
  have hbegun : (b.begun p.length).Covers p i p.length := ⟨h.start, h.segments, h.nodes⟩
  have hsegments := h.segments
  rcases hbegun.closed hb with ⟨s, hclosed, hs⟩ | ⟨last, rest, hclosed, hrest, hrec, hstars⟩
  · rw [hclosed, List.reverse_cons]
    exact segmentsCover_concat hsegments hs (.inl rfl)
  · have hrest : b.segments = last :: rest := hrest
    rw [hrest, List.reverse_cons, row_concat] at hsegments
    obtain ⟨l, hrow, stop, hlast, hbefore⟩ := hsegments
    rw [hclosed]
    show segmentsCover p b.segments.reverse 0
    rw [hrest, List.reverse_cons]
    exact segmentsCover_concat hrow hlast (last_of_recursive hbefore hrec hstars)

end Builder.Covers

/-- **The segments that a parse ends with are laid along the pattern.** -/
theorem Course.covers {t : Text} {segments : List Segment} (h : Course k b t segments) (hp : p.Part k p.length t)
    (hb : b.Covers p i k) : segmentsCover p segments 0 := by
  -- the first characters of what is left, and the rest of it
  have hcut : ∀ {k : Nat} {w t : Text}, p.Part k p.length (w ++ t) →
      p.Part k (k + w.length) w ∧ p.Part (k + w.length) p.length t := Text.part_append.1
  induction h generalizing i with
  | @ends k b hnone =>
    obtain rfl : p.length = k := hp.1
    exact hb.ends hnone
  | @text k b c t segments hc _ ih =>
    obtain ⟨hmark, hrest⟩ := hcut (w := [c]) hp
    exact ih hrest (hb.takeText hmark (Text.unescape?_cons hc.ne_backslash))
  | @escaped k b c t segments _ ih =>
    obtain ⟨hmark, hrest⟩ := hcut (w := [Mark.backslash, c]) hp
    exact ih hrest (hb.takeText hmark rfl)
  | @star k b t segments _ _ ih =>
    obtain ⟨hmark, hrest⟩ := hcut (w := [Mark.star]) hp
    exact ih hrest (hb.node (n := .star (Span.sized k 1)) ⟨rfl, hmark⟩)
  | stars _ ih =>
    obtain ⟨hmark, hrest⟩ := hcut (w := [Mark.star, Mark.star]) hp
    exact ih hrest (hb.takeStars hmark)
  | @question k b t segments _ ih =>
    obtain ⟨hmark, hrest⟩ := hcut (w := [Mark.question]) hp
    exact ih hrest (hb.node (n := .anyChar (Span.sized k 1)) ⟨rfl, hmark⟩)
  | @set k b cl w t segments hopener _ _ ih =>
    have hlength : k + w.length + 2 = k + (Mark.openBracket :: (w ++ [Mark.closeBracket])).length := by
      simp [Nat.add_assoc]
    obtain ⟨hmark, hrest⟩ := hcut (w := Mark.openBracket :: (w ++ [Mark.closeBracket])) (by simpa using hp)
    rw [← hlength] at hmark hrest
    have hset : Node.Covers p (.set cl.negated cl.items.reverse ⟨cl.opener.start, (k + w.length + 2 : Nat)⟩) k
        (k + w.length + 2) := ⟨by rw [hopener]; rfl, w, hmark⟩
    have hcovers := hb.node hset
    exact ih hrest ⟨hcovers.start, hcovers.segments, hcovers.nodes⟩
  | openBrace _ ih =>
    obtain ⟨hmark, hrest⟩ := hcut (w := [Mark.openBrace]) hp
    exact ih hrest (hb.openBrace hmark)
  | comma hopen _ ih =>
    obtain ⟨hmark, hrest⟩ := hcut (w := [Mark.comma]) hp
    exact ih hrest (hb.comma hopen hmark)
  | closeBrace hopen _ ih =>
    obtain ⟨hmark, hrest⟩ := hcut (w := [Mark.closeBrace]) hp
    exact ih hrest (hb.closeBrace hopen hmark)
  | separator hnone _ ih =>
    obtain ⟨hmark, hrest⟩ := hcut (w := [Mark.slash]) hp
    exact ih hrest (hb.separator hnone hmark)

end Parser

/-! ## Trees -/

/-- **Parsing gives canonical trees, and their spans tile the pattern.**  A `**` stands only alone in its segment, no
other such segment is next to it, and no segment is two stars; no literal is empty or next to another one; classes have
members and alternations have branches.  The segments are laid along the pattern, the nodes of each along its span, the
nodes of a branch between the marks around it, and a literal has the text under its span without the escapes. -/
theorem parse_tiles {p : Text} {tree : Pattern} (h : Pattern.parse p = .ok tree) :
    tree.source = p ∧ tree.Canonical ∧ segmentsCover p tree.segments 0 := by
  obtain ⟨hsource, hcourse⟩ := parse_course h
  exact ⟨hsource, parse_canonical h, hcourse.covers (Text.part_self p) (.atStart p)⟩

/-- The pattern `**/**/{a\,b,}[x]c`. -/
theorem parse_tiles_braces :
    ∃ tree, Pattern.parse (Text.of "**/**/\x7ba\\,b,\x7d[x]c") = .ok tree ∧
      tree.segments.map (·.span) = [⟨0, 2⟩, ⟨6, 17⟩] ∧ tree.Canonical ∧
      segmentsCover (Text.of "**/**/\x7ba\\,b,\x7d[x]c") tree.segments 0 := by
  obtain ⟨_, hcanonical, hcover⟩ := parse_tiles (p := Text.of "**/**/\x7ba\\,b,\x7d[x]c") rfl
  exact ⟨_, rfl, rfl, hcanonical, hcover⟩

end Glob
