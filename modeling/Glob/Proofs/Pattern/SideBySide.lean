import Glob.Proofs.Pattern.Squeezed
import Glob.Proofs.Pattern.Thinned
/-!
# Two parses side by side

Two texts that differ in redundant stars are read unit by unit, each by a builder of its own.  The builders may hold more
stars or fewer, but what they hold is the same when it is thinned (`Builder.Alike`), and every unit keeps it so: a run of
stars, however long (`Builder.Alike.takeRun`), and any other unit, unless both parses end there with errors of the same
kind (`resume_unit`).
-/
namespace Glob

namespace Parser

open Reading (MayFollow ClassExtent UnitText members behindNegation depthBehind)
open Scanner (meaning)

/-! ## Thinned nodes of a builder -/

/-- A literal text is added to thinned nodes as it is to others. -/
theorem addLiteral_thinned (ns : List Node) (text : Text) (span : Span) :
    nodesThinned (addLiteral ns text span) = addLiteral (nodesThinned ns) text nowhere := by
  cases ns with
  | nil => rfl
  | cons n ns =>
    have hhead := head?_nodesThinned (n :: ns)
    cases n with
    | literal before s => rfl
    | anyChar s | star s | doubleStar s | set negated items s | alternation branches s =>
      obtain ⟨rest, hrest⟩ := List.head?_eq_some_iff.1 hhead
      show starOnce _ (nodesThinned (_ :: ns)) = _
      rw [hrest]
      rfl

theorem demoteDoubleStars_thinned (ns : List Node) : nodesThinned (demoteDoubleStars ns) = nodesThinned ns := by
  have hdemote : ∀ ns : List Node, nodesThinned (ns.flatMap demote) = nodesThinned ns := by
    intro ns
    induction ns with
    | nil => rfl
    | cons n ns ih =>
      rw [List.flatMap_cons, nodesThinned, ← ih]
      cases n with
      | doubleStar s => exact starOnce_starOnce rfl _ rfl _
      | literal | anyChar | star | set | alternation => rfl
  unfold demoteDoubleStars
  split
  · rfl
  · rfl
  · exact hdemote ns

/-- Only a `**` by itself is left a `**`. -/
theorem eq_of_demoteDoubleStars {ns : List Node} {span : Span} (h : demoteDoubleStars ns = [.doubleStar span]) :
    ns = [.doubleStar span] := by
  match ns, h with
  | [_], h => exact h
  | n :: m :: ns, h =>
    have hmem : Node.doubleStar span ∈ (n :: m :: ns).flatMap demote :=
      (show (n :: m :: ns).flatMap demote = _ from h) ▸ List.mem_singleton_self _
    obtain ⟨n, -, hn⟩ := List.mem_flatMap.1 hmem
    cases n <;> simp [demote, Node.twoStars] at hn

theorem addSegment_thinned (segments : List Segment) (s : Segment) :
    (addSegment segments s).map Segment.thinned = addSegment (segments.map Segment.thinned) s.thinned := by
  cases segments with
  | nil => rfl
  | cons last rest =>
    simp only [addSegment, List.map_cons, Segment.isRecursive_thinned]
    split <;> rfl

def OpenBrace.thinned (brace : OpenBrace) : List Node × List (List Node) :=
  (nodesThinned brace.before, brace.branches.map nodesThinned)

/-! ## Builders -/

namespace Builder

/-- Outside classes, the builders hold the same apart from redundant stars. -/
structure Alike (b b' : Builder) : Prop where
  outside : b.openClass = none
  outside' : b'.openClass = none
  segments : b.segments.map Segment.thinned = b'.segments.map Segment.thinned
  braces : b.braces.map OpenBrace.thinned = b'.braces.map OpenBrace.thinned
  nodes : nodesThinned b.nodes = nodesThinned b'.nodes

/-- The segment at hand is not a `**` so far. -/
def Mixed (b : Builder) : Prop := b.braces = [] → ∀ span, b.nodes ≠ [.doubleStar span]

/-- The segment at hand has been begun, and is not a `**` so far. -/
structure Filled (b : Builder) : Prop where
  nonempty : b.braces = [] → b.nodes ≠ []
  mixed : b.Mixed

variable {b b' : Builder} {n n' : Node} {k k' : Nat}

theorem Filled.of_head {n : Node} {ns : List Node} (h : b.nodes = n :: ns) (hn : ∀ span, n ≠ .doubleStar span) :
    b.Filled := by
  refine ⟨fun _ => h ▸ List.cons_ne_nil _ _, fun _ span hstar => ?_⟩
  rw [h] at hstar
  exact hn span (List.cons.inj hstar).1

theorem Filled.of_braces (h : b.braces ≠ []) : b.Filled := ⟨fun hnone => absurd hnone h, fun hnone => absurd hnone h⟩

theorem takeText_filled (b : Builder) (text : Text) (span : Span) : (b.takeText text span).Filled := by
  have hhead : ∃ text' span' ns, (b.takeText text span).nodes = .literal text' span' :: ns := by
    show ∃ text' span' ns, addLiteral b.nodes text span = .literal text' span' :: ns
    unfold addLiteral
    split <;> exact ⟨_, _, _, rfl⟩
  obtain ⟨text', span', ns, hnodes⟩ := hhead
  exact .of_head hnodes fun _ => Node.noConfusion

namespace Alike

theorem length_braces (h : b.Alike b') : b.braces.length = b'.braces.length := by
  simpa using congrArg List.length h.braces

theorem braces_eq_nil (h : b.Alike b') : b.braces = [] ↔ b'.braces = [] := by
  rw [← List.length_eq_zero_iff, h.length_braces, List.length_eq_zero_iff]

theorem takeText (h : b.Alike b') (text : Text) (span span' : Span) :
    (b.takeText text span).Alike (b'.takeText text span') := by
  refine ⟨h.outside, h.outside', h.segments, h.braces, ?_⟩
  show nodesThinned (addLiteral _ _ _) = nodesThinned (addLiteral _ _ _)
  rw [addLiteral_thinned, addLiteral_thinned, h.nodes]

theorem takeNode (h : b.Alike b') (hn : n.thinned = n'.thinned) : (b.takeNode n).Alike (b'.takeNode n') :=
  ⟨h.outside, h.outside', h.segments, h.braces, congrArg₂ starOnce hn h.nodes⟩

theorem openBrace (h : b.Alike b') (k k' : Nat) :
    Alike { b.begun k with braces := ⟨Span.sized k 1, b.nodes, []⟩ :: b.braces, nodes := [] }
      { b'.begun k' with braces := ⟨Span.sized k' 1, b'.nodes, []⟩ :: b'.braces, nodes := [] } :=
  ⟨h.outside, h.outside', h.segments, congrArg₂ List.cons (congrArg (·, []) h.nodes) h.braces, rfl⟩

section Braces

variable {brace brace' : OpenBrace} {outer outer' : List OpenBrace}

theorem brace_eq (h : b.Alike b') (hb : b.braces = brace :: outer) (hb' : b'.braces = brace' :: outer') :
    brace.thinned = brace'.thinned ∧ outer.map OpenBrace.thinned = outer'.map OpenBrace.thinned := by
  have hbraces := h.braces
  rw [hb, hb'] at hbraces
  exact List.cons.inj hbraces

theorem branches_eq (h : b.Alike b') (hbrace : brace.thinned = brace'.thinned) :
    (b.nodes.reverse :: brace.branches).map nodesThinned = (b'.nodes.reverse :: brace'.branches).map nodesThinned := by
  rw [List.map_cons, List.map_cons, nodesThinned_reverse, nodesThinned_reverse, h.nodes]
  exact congrArg _ (congrArg Prod.snd hbrace)

theorem comma (h : b.Alike b') (hb : b.braces = brace :: outer) (hb' : b'.braces = brace' :: outer') (k k' : Nat) :
    Alike
      { b.begun k with
        braces := { brace with branches := b.nodes.reverse :: brace.branches } :: outer
        nodes := [] }
      { b'.begun k' with
        braces := { brace' with branches := b'.nodes.reverse :: brace'.branches } :: outer'
        nodes := [] } := by
  obtain ⟨hbrace, houter⟩ := h.brace_eq hb hb'
  refine ⟨h.outside, h.outside', h.segments, congrArg₂ List.cons ?_ houter, rfl⟩
  exact congrArg₂ Prod.mk (congrArg Prod.fst hbrace) (h.branches_eq hbrace)

theorem closeBrace (h : b.Alike b') (hb : b.braces = brace :: outer) (hb' : b'.braces = brace' :: outer') (k k' : Nat)
    (span span' : Span) :
    Alike
      { b.begun k with
        braces := outer
        nodes := .alternation (b.nodes.reverse :: brace.branches).reverse span :: brace.before }
      { b'.begun k' with
        braces := outer'
        nodes := .alternation (b'.nodes.reverse :: brace'.branches).reverse span' :: brace'.before } := by
  obtain ⟨hbrace, houter⟩ := h.brace_eq hb hb'
  refine ⟨h.outside, h.outside', h.segments, houter, ?_⟩
  have hbranches : branchesThinned (b.nodes.reverse :: brace.branches).reverse =
      branchesThinned (b'.nodes.reverse :: brace'.branches).reverse := by
    rw [branchesThinned_eq_map, branchesThinned_eq_map, List.map_reverse, List.map_reverse, h.branches_eq hbrace]
  exact congrArg₂ starOnce (congrArg (Node.alternation · nowhere) hbranches) (congrArg Prod.fst hbrace)

end Braces

/-- Where the segment at hand is no `**`, the segments are the same when it is closed. -/
theorem closeSegment (h : b.Alike b') (hb : b.braces = []) (hmixed : b.Mixed) (hmixed' : b'.Mixed) (stop stop' : Int) :
    (b.closeSegment stop).map Segment.thinned = (b'.closeSegment stop').map Segment.thinned := by
  have hclosed : ∀ {b : Builder} {stop : Int}, (∀ span, b.nodes ≠ [.doubleStar span]) →
      (b.closeSegment stop).map Segment.thinned =
        addSegment (b.segments.map Segment.thinned) ⟨(nodesThinned b.nodes).reverse, nowhere⟩ := by
    intro b stop hne
    have hplain : (⟨demoteDoubleStars b.nodes.reverse, ⟨b.segmentStart.getD stop, stop⟩⟩ : Segment).isRecursive = false := by
      refine Bool.eq_false_iff.2 fun hrec => ?_
      obtain ⟨span, hnodes⟩ := Segment.isRecursive_iff.1 hrec
      refine hne span ?_
      rw [← b.nodes.reverse_reverse, eq_of_demoteDoubleStars hnodes]
      rfl
    rw [Builder.closeSegment, addSegment_thinned, Segment.thinned, hplain, if_neg Bool.false_ne_true,
      demoteDoubleStars_thinned, nodesThinned_reverse]
  rw [hclosed (hmixed hb), hclosed (hmixed' (h.braces_eq_nil.1 hb)), h.segments, h.nodes]

end Alike

end Builder

/-- Behind a unit that is no star both builders have begun their segments and hold the same, with `depth` braces open. -/
structure Builder.Taken (depth : Nat) (b b' : Builder) : Prop extends b.Alike b' where
  filled : b.Filled
  filled' : b'.Filled
  depth : b.braces.length = depth

namespace Builder.Alike

variable {b b' : Builder}

/-- A literal text is taken by both builders. -/
theorem textTaken (h : b.Alike b') (text : Text) (span span' : Span) :
    (b.takeText text span).Taken b.braces.length (b'.takeText text span') :=
  ⟨h.takeText text span span', takeText_filled _ _ _, takeText_filled _ _ _, rfl⟩

/-- Where a brace is open in one builder, one is in the other. -/
theorem exists_braces (h : b.Alike b') (hb : b.braces ≠ []) :
    ∃ brace outer brace' outer', b.braces = brace :: outer ∧ b'.braces = brace' :: outer' := by
  obtain ⟨brace, outer, hbraces⟩ := List.exists_cons_of_ne_nil hb
  obtain ⟨brace', outer', hbraces'⟩ := List.exists_cons_of_ne_nil (mt h.braces_eq_nil.2 hb)
  exact ⟨brace, outer, brace', outer', hbraces, hbraces'⟩

end Builder.Alike

/-! ## Runs of stars -/

namespace Builder

/-- The builder after `n` stars, the first of them at offset `k`. -/
def takeRun : Builder → Nat → Nat → Builder
  | b, _, 0 => b
  | b, k, 1 => b.takeNode (.star (Span.sized k 1))
  | b, k, n + 2 => (b.takeStars k).takeRun (k + 2) n

variable {b b' : Builder} {k k' n n' : Nat}

theorem takeStars_outside (hb : b.braces = []) (k : Nat) : b.takeStars k = b.takeNode (.doubleStar (Span.sized k 2)) :=
  if_pos (by rw [hb]; rfl)

theorem takeStars_kept (b : Builder) (k : Nat) :
    (b.takeStars k).openClass = b.openClass ∧ (b.takeStars k).segments = b.segments ∧
      (b.takeStars k).braces = b.braces := by
  unfold takeStars
  split <;> exact ⟨rfl, rfl, rfl⟩

theorem takeStars_thinned (b : Builder) (k : Nat) :
    nodesThinned (b.takeStars k).nodes = starOnce (.star nowhere) (nodesThinned b.nodes) := by
  unfold takeStars
  split
  · rfl
  · exact starOnce_starOnce rfl _ rfl _

theorem takeRun_kept (b : Builder) (k n : Nat) :
    (b.takeRun k n).openClass = b.openClass ∧ (b.takeRun k n).segments = b.segments ∧
      (b.takeRun k n).braces = b.braces := by
  fun_induction takeRun b k n with
  | case1 => exact ⟨rfl, rfl, rfl⟩
  | case2 => exact ⟨rfl, rfl, rfl⟩
  | case3 b k n ih =>
    obtain ⟨hclass, hsegments, hbraces⟩ := b.takeStars_kept k
    exact ⟨ih.1.trans hclass, ih.2.1.trans hsegments, ih.2.2.trans hbraces⟩

/-- However long the run is, one star is seen of it. -/
theorem takeRun_thinned (b : Builder) (k : Nat) (hn : n ≠ 0) :
    nodesThinned (b.takeRun k n).nodes = starOnce (.star nowhere) (nodesThinned b.nodes) := by
  fun_induction takeRun b k n with
  | case1 => exact absurd rfl hn
  | case2 => rfl
  | case3 b k n ih =>
    by_cases hzero : n = 0
    · subst hzero
      exact b.takeStars_thinned k
    · rw [ih hzero, takeStars_thinned]
      exact starOnce_starOnce rfl _ rfl _

theorem length_takeRun (b : Builder) (k n : Nat) : b.nodes.length + (n + 1) / 2 ≤ (b.takeRun k n).nodes.length := by
  fun_induction takeRun b k n with
  | case1 => exact Nat.le_refl _
  | case2 => exact Nat.le_refl _
  | case3 b k n ih =>
    have hstars : b.nodes.length + 1 ≤ (b.takeStars k).nodes.length := by
      unfold takeStars
      split
      · exact Nat.le_refl _
      · exact Nat.le_succ _
    omega

/-- Only two stars by themselves are a `**`. -/
theorem Mixed.takeRun (h : b.Mixed) (hn : b.braces = [] → b.nodes = [] → n ≠ 2) (k : Nat) : (b.takeRun k n).Mixed := by
  intro hbraces span hnodes
  rw [(takeRun_kept b k n).2.2] at hbraces
  match n, hn, hnodes with
  | 0, _, hnodes => exact h hbraces span hnodes
  | 1, _, hnodes => cases hnodes
  | 2, hn, hnodes =>
    rw [Builder.takeRun, Builder.takeRun, takeStars_outside hbraces] at hnodes
    exact hn hbraces (List.cons.inj hnodes).2 rfl
  | n + 3, _, hnodes =>
    have hlength := length_takeRun b k (n + 3)
    rw [hnodes, List.length_singleton] at hlength
    omega

theorem Alike.takeRun (h : b.Alike b') (hn : n = 0 ↔ n' = 0) (k k' : Nat) : (b.takeRun k n).Alike (b'.takeRun k' n') := by
  obtain ⟨hclass, hsegments, hbraces⟩ := takeRun_kept b k n
  obtain ⟨hclass', hsegments', hbraces'⟩ := takeRun_kept b' k' n'
  refine ⟨hclass.trans h.outside, hclass'.trans h.outside', ?_, ?_, ?_⟩
  · rw [hsegments, hsegments', h.segments]
  · rw [hbraces, hbraces', h.braces]
  · by_cases hzero : n = 0
    · rw [hzero, hn.1 hzero]
      exact h.nodes
    · rw [takeRun_thinned b k hzero, takeRun_thinned b' k' (mt hn.2 hzero), h.nodes]

end Builder

section Reading

variable {k k' : Nat} {b b' : Builder} {t u v v' w : Text} {r r' : Except ParseFailure (List Segment)}
  {ranges : List (CodePoint × CodePoint)} {closed : Bool}

theorem resume_starRun (hc : b.openClass = none) (ht : t.head? ≠ some Mark.star) (n : Nat) :
    resumeAt k b (List.replicate n Mark.star ++ t) = resumeAt (k + n) (b.takeRun k n) t := by
  fun_induction Builder.takeRun b k n with
  | case1 => rfl
  | case2 => exact resume_star hc ht
  | case3 b k n ih =>
    rw [List.replicate_succ, List.replicate_succ, List.cons_append, List.cons_append, resume_stars hc,
      ih ((b.takeStars_kept k).1.trans hc), Nat.add_assoc, Nat.add_comm 2 n]

/-! ## Other units -/

/-- Both parses end with the same segments when these are thinned, or with errors of the same kind. -/
def Agree : Except ParseFailure (List Segment) → Except ParseFailure (List Segment) → Prop
  | .ok segments, .ok segments' => segments.map Segment.thinned = segments'.map Segment.thinned
  | .error (.rejected e), .error (.rejected e') => e.kind = e'.kind
  | _, _ => False

def classFault (ranges : List (CodePoint × CodePoint)) (closed : Bool) : Option ErrorKind :=
  if ∃ range ∈ ranges, range.2 < range.1 then some .invalidRange else if closed then none else some .unclosedClass

theorem resume_class_fault {kind : ErrorKind} (hw : ClassExtent w ranges closed) (ht : MayFollow closed t)
    (hfault : classFault ranges closed = some kind) (hc : b.openClass = none)
    (hr : resumeAt k b (Mark.openBracket :: (w ++ t)) = .ok r) : ∃ e, r = .error (.rejected e) ∧ e.kind = kind := by
  let p : Text := List.replicate k 0 ++ Mark.openBracket :: (w ++ t)
  have hclass := resume_class (p := p) (by rw [List.length_append, List.length_replicate]) hc hr
  obtain ⟨hranges, hclosed, -⟩ := hw.read p ht
  have hinverted : (∃ range ∈ ranges, range.2 < range.1) ↔ ∃ range ∈ (members p true (behindNegation (w ++ t))).ranges,
      range.Inverted := by
    rw [← hranges]
    simp only [List.mem_map, exists_exists_and_eq_and]
    rfl
  unfold ClassOutcome at hclass
  unfold classFault at hfault
  split at hclass
  · next range hfind =>
    have hrange := List.find?_some hfind
    rw [if_pos (hinverted.2 ⟨range, List.mem_of_find?_eq_some hfind, of_decide_eq_true hrange⟩)] at hfault
    exact ⟨_, hclass, Option.some.inj hfault⟩
  · next hfind =>
    have hnone : ¬ ∃ range ∈ ranges, range.2 < range.1 := fun hfound => by
      obtain ⟨range, hmem, hrange⟩ := hinverted.1 hfound
      exact List.find?_eq_none.1 hfind range hmem (decide_eq_true hrange)
    rw [if_neg hnone] at hfault
    rw [hclosed] at hclass
    cases closed with
    | true => cases hfault
    | false => exact ⟨_, hclass, Option.some.inj hfault⟩

/-- A class with nothing wrong is a node, the same wherever it stands. -/
theorem resume_class_taken (hw : ClassExtent w ranges closed) (hfault : classFault ranges closed = none)
    (h : b.Alike b') (t t' : Text) (k k' : Nat) :
    ∃ k₁ k₁' b₁ b₁', resumeAt k b (Mark.openBracket :: (w ++ t)) = resumeAt k₁ b₁ t ∧
      resumeAt k' b' (Mark.openBracket :: (w ++ t')) = resumeAt k₁' b₁' t' ∧ b₁.Taken b.braces.length b₁' := by
  unfold classFault at hfault
  split at hfault
  · cases hfault
  · next hordered =>
    split at hfault
    · next hclosed =>
      subst hclosed
      obtain ⟨v, negated, items, rfl, hv⟩ := hw.classText fun range hrange =>
        Nat.not_lt.1 fun hlt => hordered ⟨range, hrange, hlt⟩
      obtain ⟨cl, -, hnegated, hitems, hresume⟩ := resume_classText (k := k) hv h.outside t
      obtain ⟨cl', -, hnegated', hitems', hresume'⟩ := resume_classText (k := k') hv h.outside' t'
      rw [List.append_assoc, List.append_assoc]
      refine ⟨_, _, _, _, hresume, hresume', ⟨rfl, rfl, h.segments, h.braces, ?_⟩,
        .of_head rfl fun _ => Node.noConfusion, .of_head rfl fun _ => Node.noConfusion, rfl⟩
      refine congrArg₂ starOnce ?_ h.nodes
      simp only [Node.thinned, hnegated, hnegated', hitems, hitems']
    · cases hfault

/-- A character that stands for itself opens and closes no braces. -/
theorem depthBehind_plain {c : CodePoint} {d : Nat} (h : meaning d c = .plain) : depthBehind d [c] = d := by
  unfold depthBehind
  split
  · next hopen =>
    rw [(List.cons.inj hopen).1] at h
    cases h
  · split
    · next hclose =>
      rw [(List.cons.inj hclose).1] at h
      cases d with
      | zero => rfl
      | succ d => cases h
    · rfl

theorem depthBehind_class (d : Nat) (w : Text) : depthBehind d (Mark.openBracket :: w) = d := by
  have hopen : Mark.openBracket ≠ Mark.openBrace := by decide
  have hclose : Mark.openBracket ≠ Mark.closeBrace := by decide
  rw [depthBehind, if_neg fun heq => hopen (List.cons.inj heq).1, if_neg fun heq => hclose (List.cons.inj heq).1]

/-- A character that is no star, escape or class is taken by both builders. -/
theorem resume_char {c : CodePoint} (h : b.Alike b') (hc : c ∉ [Mark.backslash, Mark.star, Mark.openBracket])
    (hinner : ¬ (c = Mark.slash ∧ b.braces.length = 0)) (t t' : Text) (k k' : Nat) :
    ∃ b₁ b₁', resumeAt k b (c :: t) = resumeAt (k + 1) b₁ t ∧ resumeAt k' b' (c :: t') = resumeAt (k' + 1) b₁' t' ∧
      b₁.Taken (depthBehind b.braces.length [c]) b₁' := by
  by_cases hplain : meaning b.braces.length c = .plain
  · have hplain' := h.length_braces ▸ hplain
    rw [depthBehind_plain hplain]
    exact ⟨_, _, resume_plain h.outside hplain, resume_plain h.outside' hplain', h.textTaken _ _ _⟩
  · have hmark := meaning_cases hplain
    simp only [List.mem_cons, List.not_mem_nil, or_false, not_or] at hmark hc
    rcases hmark with rfl | rfl | rfl | rfl | rfl | rfl | rfl | rfl
    · exact absurd rfl hc.1
    · exact absurd rfl hc.2.1
    · exact ⟨_, _, resume_question h.outside, resume_question h.outside', h.takeNode rfl,
        .of_head rfl fun _ => Node.noConfusion, .of_head rfl fun _ => Node.noConfusion, rfl⟩
    · exact absurd rfl hc.2.2
    · exact ⟨_, _, resume_openBrace h.outside, resume_openBrace h.outside', h.openBrace k k',
        .of_braces (List.cons_ne_nil _ _), .of_braces (List.cons_ne_nil _ _), rfl⟩
    -- a comma or a closing brace has a meaning only where a brace is open
    · obtain ⟨brace, outer, brace', outer', hb, hb'⟩ := h.exists_braces fun hnone => hplain (by rw [hnone]; rfl)
      refine ⟨_, _, resume_comma h.outside hb, resume_comma h.outside' hb', h.comma hb hb' k k',
        .of_braces (List.cons_ne_nil _ _), .of_braces (List.cons_ne_nil _ _), ?_⟩
      rw [hb]
      rfl
    · obtain ⟨brace, outer, brace', outer', hb, hb'⟩ := h.exists_braces fun hnone => hplain (by rw [hnone]; rfl)
      refine ⟨_, _, resume_closeBrace h.outside hb, resume_closeBrace h.outside' hb', h.closeBrace hb hb' k k' _ _,
        .of_head rfl fun _ => Node.noConfusion, .of_head rfl fun _ => Node.noConfusion, ?_⟩
      rw [hb]
      rfl
    · obtain ⟨brace, outer, brace', outer', hb, hb'⟩ := h.exists_braces fun hnone => hinner ⟨rfl, by rw [hnone]; rfl⟩
      exact ⟨_, _, resume_innerSeparator h.outside hb, resume_innerSeparator h.outside' hb', h.textTaken _ _ _⟩

/-- **A unit other than a star is taken by both builders**, or it ends both parses in the same way. -/
theorem resume_unit (hu : UnitText u v) (hu' : UnitText u v') (hstar : u ≠ [Mark.star])
    (hinner : ¬ (u = [Mark.slash] ∧ b.braces.length = 0)) (h : b.Alike b') (hr : resumeAt k b (u ++ v) = .ok r)
    (hr' : resumeAt k' b' (u ++ v') = .ok r')
    (hrest : ∀ k₁ k₁' b₁ b₁', b₁.Taken (depthBehind b.braces.length u) b₁' → resumeAt k₁ b₁ v = .ok r →
      resumeAt k₁' b₁' v' = .ok r' → Agree r r') : Agree r r' := by
  cases hu with
  | lone => cases hr
  | escaped c =>
    have hdepth : depthBehind b.braces.length [Mark.backslash, c] = b.braces.length := by simp [depthBehind]
    rw [List.cons_append, List.cons_append, resume_escaped h.outside] at hr
    rw [List.cons_append, List.cons_append, resume_escaped h.outside'] at hr'
    rw [hdepth] at hrest
    exact hrest _ _ _ _ (h.textTaken _ _ _) hr hr'
  | set hw ht =>
    cases hu' with
    | set hw' ht' =>
      obtain ⟨rfl, rfl⟩ := hw.det hw'
      rw [List.cons_append] at hr hr'
      cases hfault : classFault _ _ with
      | some kind =>
        obtain ⟨e, rfl, he⟩ := resume_class_fault hw ht hfault h.outside hr
        obtain ⟨e', rfl, he'⟩ := resume_class_fault hw' ht' hfault h.outside' hr'
        exact he.trans he'.symm
      | none =>
        obtain ⟨k₁, k₁', b₁, b₁', hresume, hresume', htaken⟩ := resume_class_taken hw hfault h v v' k k'
        rw [depthBehind_class] at hrest
        exact hrest k₁ k₁' b₁ b₁' htaken (hresume ▸ hr) (hresume' ▸ hr')
    | char hback hbracket => exact absurd rfl hbracket
  | @char c hback hbracket =>
    have hc : c ∉ [Mark.backslash, Mark.star, Mark.openBracket] := by
      simpa [hback, hbracket] using hstar
    obtain ⟨b₁, b₁', hresume, hresume', htaken⟩ := resume_char h hc (by simpa using hinner) v v' k k'
    exact hrest _ _ _ _ htaken (hresume ▸ hr) (hresume' ▸ hr')

end Reading

end Parser

end Glob
