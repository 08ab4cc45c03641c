import Glob.Proofs.Pattern.Bare
import Glob.Proofs.Pattern.Canonical
import Glob.Proofs.Text.Pieces
/-!
# Writing a tree

`Pattern.written` gives a pattern text for a tree, with a backslash before every character that stands for itself, and
`parse_written` says that for a canonical tree the text is read back as this tree, apart from spans.

What a node is written as is read as this node wherever it stands, except for stars: of two stars in a row the scanner
makes one token, which counts as two stars inside braces and may be demoted to two stars outside (`pairStars`).  So the
nodes of a sequence are read one by one or, if they are two stars, two at a time (`sequence_reads`).
-/
namespace Glob

/-! ## The text of a tree -/

/-- The text with a backslash before every character. -/
def escapedText (text : Text) : Text := text.flatMap ([Mark.backslash, ·])

def itemWritten (item : CodePoint × CodePoint) : Text :=
  if item.1 = item.2 then [Mark.backslash, item.1]
  else [Mark.backslash, item.1, Mark.dash, Mark.backslash, item.2]

mutual

def Node.written : Node → Text
  | .literal text _ => escapedText text
  | .anyChar _ => [Mark.question]
  | .star _ => [Mark.star]
  | .doubleStar _ => [Mark.star, Mark.star]
  | .set negated items _ =>
    Mark.openBracket :: ((if negated then [Mark.exclamation] else []) ++ items.flatMap itemWritten) ++
      [Mark.closeBracket]
  | .alternation branches _ =>
    Mark.openBrace :: Text.join [Mark.comma] (branchesWritten branches) ++ [Mark.closeBrace]

def nodesWritten : List Node → Text
  | [] => []
  | n :: ns => n.written ++ nodesWritten ns

def branchesWritten : List (List Node) → List Text
  | [] => []
  | b :: bs => nodesWritten b :: branchesWritten bs

end

def Pattern.written (p : Pattern) : Text := Text.join [Mark.slash] (p.segments.map fun s => nodesWritten s.nodes)

namespace Parser

open Reading (MembersText ClassText rangeEnd? behindNegation)

variable {k d : Nat} {b b' b'' : Builder} {t : Text} {ns ns' : List Node} {n : Node}

/-! ## What a builder has taken -/

theorem isLiteral_bare (n : Node) : n.bare.isLiteral = n.isLiteral := by
  cases n <;> rfl

/-- The nodes may come next: no two literals meet. -/
def Builder.Joins (b : Builder) (ns : List Node) : Prop :=
  ∀ m ∈ (nodesBare b.nodes).head?, ∀ n ∈ ns.head?, m.Apart n

/-- The builder goes on outside classes, and what is new is the nodes, apart from their spans. -/
structure Builder.Took (b : Builder) (ns : List Node) (b' : Builder) : Prop where
  outside : b'.openClass = none
  segments : b'.segments = b.segments
  braces : b'.braces = b.braces
  nodes : nodesBare b'.nodes = (nodesBare ns).reverse ++ nodesBare b.nodes

theorem Builder.Took.trans (h : b.Took ns b') (h' : b'.Took ns' b'') : b.Took (ns ++ ns') b'' where
  outside := h'.outside
  segments := h'.segments.trans h.segments
  braces := h'.braces.trans h.braces
  nodes := by rw [h'.nodes, h.nodes, nodesBare_append, List.reverse_append, List.append_assoc]

theorem Builder.Took.joins (h : b.Took [n] b') (hapart : ∀ n' ∈ ns'.head?, n.Apart n') : b'.Joins ns' := by
  intro m hm n' hn' hboth
  rw [h.nodes] at hm
  obtain rfl : n.bare = m := Option.some.inj hm
  rw [isLiteral_bare] at hboth
  exact hapart n' hn' hboth

/-! ## One node -/

/-- What the node is written as is read as this node. -/
def NodeReads (n : Node) : Prop :=
  ∀ (k : Nat) (b : Builder) (t : Text), b.openClass = none → b.Joins [n] →
    ∃ k' b', resumeAt k b (n.written ++ t) = resumeAt k' b' t ∧ b.Took [n] b'

theorem resume_escapedText {text : Text} (hc : b.openClass = none) (htext : text ≠ []) :
    ∃ k' span, resumeAt k b (escapedText text ++ t) = resumeAt k' (b.takeText text span) t := by
  induction text generalizing k b with
  | nil => exact absurd rfl htext
  | cons c text ih =>
    have hfirst : resumeAt k b (escapedText (c :: text) ++ t) =
        resumeAt (k + 2) (b.takeText [c] (Span.sized k 2)) (escapedText text ++ t) := resume_escaped hc
    by_cases hlast : text = []
    · subst hlast
      exact ⟨_, _, hfirst⟩
    · obtain ⟨k', span, hrest⟩ := @ih (k + 2) (b.takeText [c] (Span.sized k 2)) hc hlast
      rw [Builder.takeText_takeText] at hrest
      exact ⟨k', _, hfirst.trans hrest⟩

theorem literal_reads {text : Text} (htext : text ≠ []) (span : Span) : NodeReads (.literal text span) := by
  intro k b t hc hjoins
  obtain ⟨k', span', hresume⟩ := resume_escapedText (k := k) (t := t) hc htext
  refine ⟨k', _, hresume, hc, rfl, rfl, ?_⟩
  have hnodes : addLiteral b.nodes text span' = .literal text span' :: b.nodes := by
    unfold addLiteral
    split
    -- a literal before it would take the text
    · next before s rest hb =>
      refine absurd ⟨rfl, rfl⟩ (hjoins (.literal before nowhere) ?_ _ rfl)
      rw [hb]
      rfl
    · rfl
  show nodesBare (addLiteral b.nodes text span') = _
  rw [hnodes]
  rfl

theorem anyChar_reads (span : Span) : NodeReads (.anyChar span) := by
  intro k b t hc _
  exact ⟨_, _, resume_question hc, hc, rfl, rfl, rfl⟩

/-! ## Classes -/

theorem itemWritten_cons (item : CodePoint × CodePoint) : ∃ w, itemWritten item = Mark.backslash :: w := by
  unfold itemWritten
  split <;> exact ⟨_, rfl⟩

theorem rangeEnd?_eq_none (h : t.head? ≠ some Mark.dash) : rangeEnd? t = none := by
  unfold rangeEnd?
  split
  · exact absurd rfl h
  · exact absurd rfl h
  · rfl

/-- Members are written as what they are read as. -/
theorem membersText_written {first : Bool} {items : List (CodePoint × CodePoint)} (hle : ∀ item ∈ items, item.1 ≤ item.2)
    (hend : items = [] → first = false) : MembersText first (items.flatMap itemWritten) items := by
  induction items generalizing first with
  | nil =>
    rw [hend rfl]
    exact .nil
  | cons item items ih =>
    obtain ⟨lo, hi⟩ := item
    obtain ⟨hitem, hitems⟩ := List.forall_mem_cons.1 hle
    have hrest : MembersText false (items.flatMap itemWritten) items := ih hitems fun _ => rfl
    have hraw : ∀ c : CodePoint, [Mark.backslash, c] ≠ [Mark.closeBracket] := by simp
    rw [List.flatMap_cons]
    by_cases heq : lo = hi
    · subst heq
      have hwritten : itemWritten (lo, lo) = [Mark.backslash, lo] := if_pos rfl
      rw [hwritten]
      refine .single (.escaped lo) (.inr (hraw lo)) (rangeEnd?_eq_none ?_) hrest
      cases items with
      | nil => exact fun h => absurd (Option.some.inj h) (by decide)
      | cons next items =>
        obtain ⟨w, hw⟩ := itemWritten_cons next
        rw [List.flatMap_cons, hw]
        exact fun h => absurd (Option.some.inj h) (by decide)
    · have hwritten : itemWritten (lo, hi) = [Mark.backslash, lo, Mark.dash, Mark.backslash, hi] := if_neg heq
      rw [hwritten]
      exact .range (.escaped lo) (.inr (hraw lo)) (.escaped hi) (hraw hi) hitem hrest

theorem classText_written {items : List (CodePoint × CodePoint)} (hne : items ≠ []) (hle : ∀ item ∈ items, item.1 ≤ item.2)
    (negated : Bool) :
    ClassText ((if negated then [Mark.exclamation] else []) ++ items.flatMap itemWritten) negated items := by
  have hmembers : MembersText true (items.flatMap itemWritten) items :=
    membersText_written hle fun h => absurd h hne
  cases negated with
  | true => exact ⟨hmembers, iff_of_true rfl fun h => List.cons_ne_self _ _ h.symm⟩
  | false =>
    have hbehind : behindNegation (items.flatMap itemWritten) = items.flatMap itemWritten := by
      obtain ⟨item, items, rfl⟩ := List.exists_cons_of_ne_nil hne
      obtain ⟨w, hw⟩ := itemWritten_cons item
      rw [List.flatMap_cons, hw]
      rfl
    exact ⟨hbehind.symm ▸ hmembers, iff_of_false Bool.false_ne_true fun h => h hbehind⟩

theorem set_reads {items : List (CodePoint × CodePoint)} (hne : items ≠ []) (hle : ∀ item ∈ items, item.1 ≤ item.2)
    (negated : Bool) (span : Span) : NodeReads (.set negated items span) := by
  intro k b t hc _
  obtain ⟨cl, -, hneg, hitems, hresume⟩ := resume_classText (k := k) (classText_written hne hle negated) hc t
  have hwritten : Node.written (.set negated items span) ++ t = Mark.openBracket ::
      (((if negated then [Mark.exclamation] else []) ++ items.flatMap itemWritten) ++ Mark.closeBracket :: t) := by
    simp [Node.written]
  rw [← hwritten] at hresume
  refine ⟨_, _, hresume, rfl, rfl, rfl, ?_⟩
  show nodesBare (.set cl.negated cl.items.reverse _ :: b.nodes) = _
  rw [hneg, hitems, List.reverse_reverse]
  rfl

/-! ## Stars -/

/-- Two stars in a row, told as the scanner tells them. -/
def pairStars : List Node → List Node
  | .star s :: .star s' :: ns => .doubleStar ⟨s.start, s'.stop⟩ :: pairStars ns
  | n :: ns => n :: pairStars ns
  | [] => []

/-- What a builder has of the nodes. -/
def Builder.told (b : Builder) (ns : List Node) : List Node := if b.braces.isEmpty then pairStars ns else ns

/-- What the nodes are written as is read as these nodes, or where no brace is open, with a `**` for each two stars. -/
def SequenceReads (ns : List Node) : Prop :=
  ∀ (k : Nat) (b : Builder) (t : Text), b.openClass = none → b.Joins ns → t.head? ≠ some Mark.star →
    ∃ k' b', resumeAt k b (nodesWritten ns ++ t) = resumeAt k' b' t ∧ b.Took (b.told ns) b'

theorem written_head {n : Node} (htidy : n.Tidy) (hwf : n.WellFormed) (hstar : ∀ span, n ≠ .star span) :
    ∃ c w, n.written = c :: w ∧ c ≠ Mark.star := by
  cases n with
  | literal text span =>
    obtain ⟨c, text, rfl⟩ := List.exists_cons_of_ne_nil htidy
    exact ⟨Mark.backslash, _, rfl, by decide⟩
  | anyChar span => exact ⟨Mark.question, _, rfl, by decide⟩
  | star span => exact absurd rfl (hstar span)
  | doubleStar span => exact hwf.elim
  | set negated items span => exact ⟨Mark.openBracket, _, rfl, by decide⟩
  | alternation bs span => exact ⟨Mark.openBrace, _, rfl, by decide⟩

theorem told_congr (h : b'.braces = b.braces) (ns : List Node) : b'.told ns = b.told ns := by
  rw [Builder.told, Builder.told, h]

theorem told_cons (h : ∀ s s' ns', n = .star s → ns = .star s' :: ns' → False) : b.told (n :: ns) = n :: b.told ns := by
  unfold Builder.told
  split
  · rw [pairStars]
    exact h
  · rfl

theorem told_stars {s s' : Span} : b.told (.star s :: .star s' :: ns) = b.told [.star s, .star s'] ++ b.told ns := by
  unfold Builder.told
  split <;> rfl

theorem takeStars_took (hc : b.openClass = none) (s s' : Span) :
    b.Took (b.told [.star s, .star s']) (b.takeStars k) := by
  unfold Builder.told Builder.takeStars
  split <;> exact ⟨hc, rfl, rfl, rfl⟩

theorem takeStars_joins (ns : List Node) : (b.takeStars k).Joins ns := by
  intro m hm n _ hboth
  unfold Builder.takeStars at hm
  split at hm <;>
    · obtain rfl := Option.some.inj hm
      cases hboth.1

/-- **The nodes of a sequence are read one by one, and two stars at once.** -/
theorem sequence_reads (htidy : NodesTidy ns) (hwf : NodesWellFormed ns)
    (h : ∀ n ∈ ns, (∀ span, n ≠ .star span) → NodeReads n) : SequenceReads ns := by
  intro k b t hc hjoins ht
  fun_induction pairStars ns generalizing k b with
  | case1 s s' ns ih =>
    have hstars : resumeAt k b (nodesWritten (.star s :: .star s' :: ns) ++ t) =
        resumeAt (k + 2) (b.takeStars k) (nodesWritten ns ++ t) := resume_stars hc
    have htook : b.Took (b.told [.star s, .star s']) (b.takeStars k) := takeStars_took hc s s'
    have hrest := fun n hn => h n (List.mem_cons_of_mem _ (List.mem_cons_of_mem _ hn))
    obtain ⟨k', b', hresume, htook'⟩ :=
      ih htidy.2.2.2.2 hwf.2.2 hrest (k + 2) (b.takeStars k) htook.outside (takeStars_joins ns)
    rw [told_congr htook.braces] at htook'
    exact ⟨k', b', hstars.trans hresume, told_stars ▸ htook.trans htook'⟩
  | case2 n ns hpair ih =>
    obtain ⟨hn, hns⟩ := List.forall_mem_cons.1 h
    have hone : ∃ k' b', resumeAt k b (nodesWritten (n :: ns) ++ t) = resumeAt k' b' (nodesWritten ns ++ t) ∧
        b.Took [n] b' := by
      rw [nodesWritten, List.append_assoc]
      by_cases hstar : ∃ s, n = .star s
      -- no star comes behind it, or the two would be read at once
      · obtain ⟨s, rfl⟩ := hstar
        refine ⟨_, _, resume_star hc ?_, hc, rfl, rfl, rfl⟩
        cases ns with
        | nil => exact ht
        | cons m ns =>
          obtain ⟨c, w, hm, hne⟩ := written_head htidy.2.2.1 hwf.2.1 fun s' heq => hpair s s' ns rfl (by rw [heq])
          rw [nodesWritten, hm]
          exact fun h => hne (Option.some.inj h)
      · refine hn (fun s heq => hstar ⟨s, heq⟩) k b _ hc fun m hm n' hn' => hjoins m hm n' ?_
        exact hn'
    obtain ⟨k', b', hresume, htook⟩ := hone
    have hjoins' : b'.Joins ns := htook.joins htidy.2.1
    obtain ⟨k'', b'', hresume', htook'⟩ := ih htidy.2.2 hwf.2 hns k' b' htook.outside hjoins'
    rw [told_congr htook.braces] at htook'
    exact ⟨k'', b'', hresume.trans hresume', told_cons hpair ▸ htook.trans htook'⟩
  | case3 => exact ⟨k, b, rfl, hc, rfl, rfl, by unfold Builder.told; split <;> rfl⟩

/-! ## Alternations -/

section Alternations

variable {brace : OpenBrace} {outer : List OpenBrace} {bs : List (List Node)}

theorem resume_branches (hne : bs ≠ []) (h : ∀ branch ∈ bs, SequenceReads branch) (hc : b.openClass = none)
    (hb : b.braces = brace :: outer) (hnodes : b.nodes = []) :
    ∃ k' b' bs' span, branchesBare bs' = branchesBare bs ∧
      resumeAt k b (Text.join [Mark.comma] (branchesWritten bs) ++ Mark.closeBrace :: t) = resumeAt k' b' t ∧
      b'.openClass = none ∧ b'.segments = b.segments ∧ b'.braces = outer ∧
      b'.nodes = .alternation (brace.branches.reverse ++ bs') span :: brace.before := by
  induction bs generalizing k b brace with
  | nil => exact absurd rfl hne
  | cons branch bs ih =>
    obtain ⟨hbranch, hbs⟩ := List.forall_mem_cons.1 h
    have htold : b.told branch = branch := by
      rw [Builder.told, hb]
      rfl
    have hjoins : b.Joins branch := by
      intro m hm
      rw [hnodes] at hm
      cases hm
    have hread : ∀ c t, c ≠ Mark.star → ∃ k' b', resumeAt k b (nodesWritten branch ++ c :: t) = resumeAt k' b' (c :: t) ∧
        b.Took branch b' ∧ nodesBare b'.nodes.reverse = nodesBare branch := by
      intro c t hstar
      obtain ⟨k', b', hresume, htook⟩ := hbranch k b (c :: t) hc hjoins fun h => hstar (Option.some.inj h)
      rw [htold] at htook
      refine ⟨k', b', hresume, htook, ?_⟩
      rw [nodesBare_reverse, htook.nodes, hnodes]
      simp [nodesBare]
    by_cases hlast : bs = []
    · subst hlast
      obtain ⟨k', b', hresume, htook, hsame⟩ := hread Mark.closeBrace t (by decide)
      have hclose := resume_closeBrace (k := k') (t := t) htook.outside (htook.braces.trans hb)
      have hjoin : Text.join [Mark.comma] (branchesWritten [branch]) = nodesWritten branch := Text.join_singleton _
      rw [hjoin]
      refine ⟨_, _, [b'.nodes.reverse], ⟨brace.opener.start, k' + 1⟩, by rw [branchesBare, hsame]; rfl,
        hresume.trans hclose, htook.outside, htook.segments, rfl, ?_⟩
      simp
    · have hjoin : Text.join [Mark.comma] (branchesWritten (branch :: bs)) ++ Mark.closeBrace :: t =
          nodesWritten branch ++ Mark.comma :: (Text.join [Mark.comma] (branchesWritten bs) ++ Mark.closeBrace :: t) := by
        have hne : branchesWritten bs ≠ [] := by
          obtain ⟨next, bs, rfl⟩ := List.exists_cons_of_ne_nil hlast
          exact List.cons_ne_nil _ _
        rw [branchesWritten, Text.join_cons_of_ne_nil _ hne, List.append_assoc, List.cons_append]
      obtain ⟨k', b', hresume, htook, hsame⟩ := hread Mark.comma
        (Text.join [Mark.comma] (branchesWritten bs) ++ Mark.closeBrace :: t) (by decide)
      have hcomma := resume_comma (k := k') (t := Text.join [Mark.comma] (branchesWritten bs) ++ Mark.closeBrace :: t)
        htook.outside (htook.braces.trans hb)
      obtain ⟨k'', b'', bs', span, hbare, hrest, hc'', hsegments, hbraces, hnew⟩ := ih hlast hbs
        (k := k' + 1)
        (b := { b'.begun k' with
          braces := { brace with branches := b'.nodes.reverse :: brace.branches } :: outer
          nodes := [] }) htook.outside rfl rfl
      refine ⟨k'', b'', b'.nodes.reverse :: bs', span, by rw [branchesBare, branchesBare, hsame, hbare], ?_, hc'',
        hsegments.trans htook.segments, hbraces, ?_⟩
      · rw [hjoin, hresume, hcomma, hrest]
      · rw [hnew]
        simp

theorem alternation_reads (hne : bs ≠ []) (h : ∀ branch ∈ bs, SequenceReads branch) (span : Span) :
    NodeReads (.alternation bs span) := by
  intro k b t hc _
  have hopen := resume_openBrace (k := k)
    (t := Text.join [Mark.comma] (branchesWritten bs) ++ Mark.closeBrace :: t) hc
  obtain ⟨k', b', bs', span', hbare, hresume, hc', hsegments, hbraces, hnodes⟩ := resume_branches (k := k + 1) (t := t)
    (b := { b.begun k with braces := ⟨Span.sized k 1, b.nodes, []⟩ :: b.braces, nodes := [] }) hne h hc rfl rfl
  refine ⟨k', b', ?_, hc', hsegments, hbraces, ?_⟩
  · have hwritten : Node.written (.alternation bs span) ++ t =
        Mark.openBrace :: (Text.join [Mark.comma] (branchesWritten bs) ++ Mark.closeBrace :: t) := by
      simp [Node.written]
    rw [hwritten, hopen, hresume]
  · rw [hnodes]
    show Node.alternation (branchesBare bs') nowhere :: nodesBare b.nodes = _
    rw [hbare]
    rfl

end Alternations

/-! ## All nodes -/

mutual

theorem node_reads : (n : Node) → n.Tidy → n.WellFormed → (∀ span, n ≠ .star span) → NodeReads n
  | .literal _ span, htidy, _, _ => literal_reads htidy span
  | .anyChar span, _, _, _ => anyChar_reads span
  | .star span, _, _, hstar => absurd rfl (hstar span)
  | .doubleStar _, _, hwf, _ => hwf.elim
  | .set negated _ span, _, hwf, _ => set_reads hwf.1 hwf.2 negated span
  | .alternation bs span, htidy, hwf, _ => alternation_reads hwf.1 (branches_read bs htidy hwf.2) span

theorem nodes_read : (ns : List Node) → NodesTidy ns → NodesWellFormed ns →
    ∀ n ∈ ns, (∀ span, n ≠ .star span) → NodeReads n
  | [], _, _ => fun _ hn => absurd hn List.not_mem_nil
  | n :: ns, htidy, hwf =>
    List.forall_mem_cons.2 ⟨node_reads n htidy.1 hwf.1, nodes_read ns htidy.2.2 hwf.2⟩

theorem branches_read : (bs : List (List Node)) → BranchesTidy bs → BranchesWellFormed bs →
    ∀ branch ∈ bs, SequenceReads branch
  | [], _, _ => fun _ hb => absurd hb List.not_mem_nil
  | b :: bs, htidy, hwf =>
    List.forall_mem_cons.2 ⟨sequence_reads htidy.1 hwf.1 (nodes_read b htidy.1 hwf.1), branches_read bs htidy.2 hwf.2⟩

end

/-! ## Segments -/

theorem pairStars_demote (hwf : NodesWellFormed ns) : nodesBare ((pairStars ns).flatMap demote) = nodesBare ns := by
  fun_induction pairStars ns with
  | case1 s s' ns ih =>
    rw [List.flatMap_cons, nodesBare_append, ih hwf.2.2]
    rfl
  | case2 n ns _ ih =>
    rw [List.flatMap_cons, nodesBare_append, ih hwf.2]
    cases n with
    | doubleStar span => exact hwf.1.elim
    | _ => rfl
  | case3 => rfl

theorem pairStars_doubleStar (hwf : NodesWellFormed ns) {span : Span} (h : pairStars ns = [.doubleStar span]) :
    ∃ s s', ns = [.star s, .star s'] := by
  fun_cases pairStars ns with
  | case1 s s' ns =>
    rw [pairStars] at h
    have hnil : pairStars ns = [] := (List.cons.inj h).2
    obtain rfl : ns = [] := by
      have hbare := pairStars_demote hwf.2.2
      rw [hnil] at hbare
      cases ns with
      | nil => rfl
      | cons n ns => cases hbare
    exact ⟨s, s', rfl⟩
  | case2 n ns hpair =>
    rw [pairStars] at h
    · rw [(List.cons.inj h).1] at hwf
      exact hwf.1.elim
    · exact hpair
  | case3 => cases h

theorem demoteDoubleStars_eq (h : ∀ span, ns ≠ [.doubleStar span]) : demoteDoubleStars ns = ns.flatMap demote := by
  match ns with
  | [] => rfl
  | [n] =>
    cases n with
    | doubleStar span => exact absurd rfl (h span)
    | _ => rfl
  | n :: m :: ns => rfl

/-- **A segment is read as it is written**, if it is not two stars. -/
theorem segment_reads {s : Segment} (hwf : s.WellFormed) (htidy : NodesTidy s.nodes) (htwo : ¬ s.IsTwoStars)
    (hc : b.openClass = none) (hb : b.braces = []) (hn : b.nodes = []) (ht : t.head? ≠ some Mark.star) :
    ∃ k' b', resumeAt k b (nodesWritten s.nodes ++ t) = resumeAt k' b' t ∧ b'.openClass = none ∧ b'.braces = [] ∧
      b'.segments = b.segments ∧ nodesBare (demoteDoubleStars b'.nodes.reverse) = nodesBare s.nodes := by
  rcases hwf with hrec | hwf
  · obtain ⟨span, hnodes⟩ := Segment.isRecursive_iff.1 hrec
    have htake : b.takeStars k = b.takeNode (.doubleStar (Span.sized k 2)) := by
      rw [Builder.takeStars, hb]
      rfl
    have hstars := resume_stars (k := k) (t := t) hc
    rw [htake] at hstars
    rw [hnodes]
    refine ⟨_, _, hstars, hc, hb, rfl, ?_⟩
    show nodesBare (demoteDoubleStars (Node.doubleStar (Span.sized k 2) :: b.nodes).reverse) = _
    rw [hn]
    rfl
  · have hjoins : b.Joins s.nodes := by
      intro m hm
      rw [hn] at hm
      cases hm
    obtain ⟨k', b', hresume, htook⟩ :=
      sequence_reads htidy hwf (nodes_read s.nodes htidy hwf) k b t hc hjoins ht
    refine ⟨k', b', hresume, htook.outside, htook.braces.trans hb, htook.segments, ?_⟩
    have htold : b.told s.nodes = pairStars s.nodes := by
      rw [Builder.told, hb]
      rfl
    have hnodes : nodesBare b'.nodes.reverse = nodesBare (pairStars s.nodes) := by
      rw [nodesBare_reverse, htook.nodes, htold, hn]
      simp [nodesBare]
    have hpaired : ∀ span, pairStars s.nodes ≠ [.doubleStar span] := fun span h =>
      htwo (pairStars_doubleStar hwf h)
    rw [demote_congr hnodes, demoteDoubleStars_eq hpaired, pairStars_demote hwf]

theorem closeSegment_add {s : Segment} (hnodes : nodesBare (demoteDoubleStars b.nodes.reverse) = nodesBare s.nodes)
    (hlast : ∀ last ∈ b.segments.head?, last.Separate s) (stop : Int) :
    ∃ s', s'.bare = s.bare ∧ s'.isRecursive = s.isRecursive ∧ b.closeSegment stop = s' :: b.segments := by
  let s' : Segment := ⟨demoteDoubleStars b.nodes.reverse, ⟨b.segmentStart.getD stop, stop⟩⟩
  have hrec : s'.isRecursive = s.isRecursive := Segment.isRecursive_congr hnodes
  refine ⟨s', congrArg (Segment.mk · nowhere) hnodes, hrec, ?_⟩
  refine addSegment_separate fun last hmem hboth => hlast last hmem ?_
  rwa [hrec] at hboth

/-- **Segments are read one after the other**, and none is left out. -/
theorem segments_read {ss : List Segment} (hne : ss ≠ [])
    (hss : ∀ s ∈ ss, s.WellFormed ∧ NodesTidy s.nodes ∧ ¬ s.IsTwoStars) (hchain : ss.IsChain Segment.Separate)
    (hc : b.openClass = none) (hb : b.braces = []) (hn : b.nodes = [])
    (hlast : ∀ last ∈ b.segments.head?, ∀ s ∈ ss.head?, last.Separate s) :
    ∃ segments, segments.map Segment.bare = ss.map Segment.bare ∧
      resumeAt k b (Text.join [Mark.slash] (ss.map fun s => nodesWritten s.nodes)) =
        .ok (.ok (b.segments.reverse ++ segments)) := by
  induction ss generalizing k b with
  | nil => exact absurd rfl hne
  | cons s ss ih =>
    obtain ⟨⟨hwf, htidy, htwo⟩, hss⟩ := List.forall_mem_cons.1 hss
    obtain ⟨hnext, hchain⟩ := List.isChain_cons.1 hchain
    -- the segment at hand, up to the separator or the end that closes it
    have hread : ∀ t : Text, t.head? ≠ some Mark.star → ∃ k' b' s', s'.bare = s.bare ∧ s'.isRecursive = s.isRecursive ∧
        resumeAt k b (nodesWritten s.nodes ++ t) = resumeAt k' b' t ∧ b'.openClass = none ∧ b'.braces = [] ∧
        (b'.begun k').closeSegment k' = s' :: b.segments := by
      intro t ht
      obtain ⟨k', b', hresume, hc', hb', hsegments, hnodes⟩ :=
        segment_reads (k := k) (b := b) hwf htidy htwo hc hb hn ht
      have hlast' : ∀ last ∈ (b'.begun k').segments.head?, last.Separate s := fun last hmem =>
        hlast last (hsegments ▸ hmem) s rfl
      obtain ⟨s', hbare, hrec, hclose⟩ := closeSegment_add (b := b'.begun k') hnodes hlast' k'
      exact ⟨k', b', s', hbare, hrec, hresume, hc', hb', hclose.trans (congrArg (s' :: ·) hsegments)⟩
    by_cases hlone : ss = []
    · subst hlone
      obtain ⟨k', b', s', hbare, -, hresume, hc', hb', hclose⟩ := hread [] nofun
      refine ⟨[s'], congrArg ([·]) hbare, ?_⟩
      rw [List.map_singleton, Text.join_singleton, ← List.append_nil (nodesWritten s.nodes), hresume, resume_nil hc', hb']
      simp only
      rw [hclose, List.reverse_cons]
    · have hjoin : Text.join [Mark.slash] ((s :: ss).map fun s => nodesWritten s.nodes) =
          nodesWritten s.nodes ++ Mark.slash :: Text.join [Mark.slash] (ss.map fun s => nodesWritten s.nodes) := by
        rw [List.map_cons, Text.join_cons_of_ne_nil _ (mt List.map_eq_nil_iff.1 hlone)]
      obtain ⟨k', b', s', hbare, hrec, hresume, hc', hb', hclose⟩ :=
        hread (Mark.slash :: Text.join [Mark.slash] (ss.map fun s => nodesWritten s.nodes))
          fun h => absurd (Option.some.inj h) (by decide)
      have hfirst : ∀ last ∈ (s' :: b.segments).head?, ∀ next ∈ ss.head?, last.Separate next := by
        intro last hmem next hmem' hboth
        obtain rfl := Option.some.inj hmem
        exact hnext next hmem' ⟨hrec ▸ hboth.1, hboth.2⟩
      obtain ⟨segments, hbares, hrest⟩ := ih hlone hss hchain (k := k' + 1)
        (b := { b' with segments := s' :: b.segments, segmentStart := none, nodes := [] }) hc' hb' rfl hfirst
      refine ⟨s' :: segments, by rw [List.map_cons, List.map_cons, hbare, hbares], ?_⟩
      rw [hjoin, hresume, resume_separator hc' hb', hclose, hrest, List.reverse_cons, List.append_assoc]
      rfl

end Parser

/-- **A canonical tree is read back from what it is written as**, apart from spans. -/
theorem parse_written {tree : Pattern} (h : tree.Canonical) :
    ∃ back, Pattern.parse tree.written = .ok back ∧ back.bare = tree.bare := by
  have hss : ∀ s ∈ tree.segments, s.WellFormed ∧ NodesTidy s.nodes ∧ ¬ s.IsTwoStars := fun s hs =>
    ⟨h.segments s hs, h.tidy s hs, h.notTwoStars s hs⟩
  obtain ⟨segments, hbare, hresume⟩ := Parser.segments_read (k := 0) (b := Parser.start tree.written) h.nonempty hss
    h.separate rfl rfl rfl nofun
  have hparse : Pattern.parse tree.written = .ok ⟨tree.written, segments⟩ := by
    have hstart : Parser.resume Scanner.start (Parser.start tree.written) tree.written = .ok (.ok segments) := hresume
    rw [Parser.parse_eq_resume, hstart]
    rfl
  exact ⟨_, hparse, congrArg (Pattern.mk []) hbare⟩

/-- A tree with a `**`, three stars in braces, a class of marks, and an empty last segment. -/
theorem parse_written_nested :
    let tree : Pattern := ⟨[], [⟨[.doubleStar nowhere], nowhere⟩,
      ⟨[.literal (Text.of ",\x7d") nowhere,
        .alternation [[.star nowhere, .star nowhere, .star nowhere],
          [.set true [(Mark.closeBracket, Mark.closeBracket), (Mark.dash, Mark.caret)] nowhere], []] nowhere,
        .star nowhere], nowhere⟩, ⟨[], nowhere⟩]⟩
    tree.written = Text.of "**/\\,\\\x7d\x7b***,[!\\]\\--\\^],\x7d*/" ∧
      ∃ back, Pattern.parse tree.written = .ok back ∧ back.bare = tree.bare := by
  intro tree
  have hrange : Mark.dash ≤ Mark.caret := by decide
  refine ⟨rfl, parse_written ⟨⟨List.cons_ne_nil _ _, ?_, ?_⟩, ?_, ?_⟩⟩
  · simp [tree, Segment.WellFormed, Segment.isRecursive, NodesWellFormed, Node.WellFormed, BranchesWellFormed, hrange]
  · simp [tree, Segment.Separate, Segment.isRecursive]
  · simp [tree, NodesTidy, Node.Tidy, BranchesTidy, Node.Apart, Node.isLiteral, Text.of]
  · simp [tree, Segment.IsTwoStars]

end Glob
