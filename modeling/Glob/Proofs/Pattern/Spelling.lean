import Glob.Proofs.Pattern.Bare
import Glob.Proofs.Pattern.Course
/-!
# Spelling out a pattern

Where a pattern is put together with others, its literals may grow together with theirs, and a separator of it may end
a segment in one pattern and be literal text in another.  Neither makes a difference once the tree is spelled out: every
character is a literal by itself, a separator between segments is one of them, and spans are left out.

`Draft` is what was read of a pattern so far, spelled out, and `Draft.Reads` how a text goes on with it, one character
or class after the other.  A reading is the same behind other nodes (`Reads.behind`), and inside braces if it has no
mark of them (`Reads.inside`).  Patterns without `**` have readings (`exists_reading`), and a reading is what a pattern
is parsed to, apart from its spelling (`parse_reading`).
-/
namespace Glob

/-! ## Spelled nodes -/

def letter (c : CodePoint) : Node := .literal [c] nowhere

mutual

def Node.spelled : Node → List Node
  | .literal text _ => text.map letter
  | .anyChar _ => [.anyChar nowhere]
  | .star _ => [.star nowhere]
  | .doubleStar _ => [.doubleStar nowhere]
  | .set negated items _ => [.set negated items nowhere]
  | .alternation branches _ => [.alternation (branchesSpelled branches) nowhere]

def nodesSpelled : List Node → List Node
  | [] => []
  | n :: ns => n.spelled ++ nodesSpelled ns

def branchesSpelled : List (List Node) → List (List Node)
  | [] => []
  | b :: bs => nodesSpelled b :: branchesSpelled bs

end

theorem nodesSpelled_eq_flatMap (ns : List Node) : nodesSpelled ns = ns.flatMap Node.spelled := by
  induction ns with
  | nil => rfl
  | cons n ns ih => rw [nodesSpelled, ih, List.flatMap_cons]

theorem branchesSpelled_eq_map (bs : List (List Node)) : branchesSpelled bs = bs.map nodesSpelled := by
  induction bs with
  | nil => rfl
  | cons b bs ih => rw [branchesSpelled, ih, List.map_cons]

theorem nodesSpelled_append (ns ns' : List Node) : nodesSpelled (ns ++ ns') = nodesSpelled ns ++ nodesSpelled ns' := by
  simp only [nodesSpelled_eq_flatMap, List.flatMap_append]

/-- The nodes of segments one after the other, with a separator in front of all but the first. -/
def partsSpelled : List (List Node) → List Node
  | [] => []
  | [ns] => nodesSpelled ns
  | ns :: parts => nodesSpelled ns ++ letter Mark.slash :: partsSpelled parts

theorem partsSpelled_cons (ns : List Node) {parts : List (List Node)} (h : parts ≠ []) :
    partsSpelled (ns :: parts) = nodesSpelled ns ++ letter Mark.slash :: partsSpelled parts := by
  cases parts with
  | nil => exact absurd rfl h
  | cons => rfl

theorem partsSpelled_concat {parts : List (List Node)} (h : parts ≠ []) (ns : List Node) :
    partsSpelled (parts ++ [ns]) = partsSpelled parts ++ letter Mark.slash :: nodesSpelled ns := by
  induction parts with
  | nil => exact absurd rfl h
  | cons first parts ih =>
    by_cases hlast : parts = []
    · subst hlast
      rfl
    · rw [List.cons_append, partsSpelled_cons _ (by simp), partsSpelled_cons _ hlast, ih hlast]
      simp

theorem nodesSpelled_subset {parts : List (List Node)} {ns : List Node} (hns : ns ∈ parts) :
    nodesSpelled ns ⊆ partsSpelled parts := by
  induction parts with
  | nil => cases hns
  | cons first parts ih =>
    intro n hn
    by_cases hlast : parts = []
    · subst hlast
      rwa [List.mem_singleton.1 hns] at hn
    · rw [partsSpelled_cons _ hlast]
      rcases List.mem_cons.1 hns with rfl | hns
      · exact List.mem_append_left _ hn
      · exact List.mem_append_right _ (List.mem_cons_of_mem _ (ih hns hn))

def Pattern.spelled (p : Pattern) : List Node := partsSpelled (p.segments.map Segment.nodes)

/-! ## Drafts -/

/-- What was read of a pattern so far, spelled out. -/
structure Draft where
  nodes : List Node
  /-- For every open brace, the innermost one first, the complete branches and the nodes of the one at hand. -/
  braces : List (List (List Node) × List Node)

namespace Draft

def take : Draft → List Node → Draft
  | ⟨nodes, []⟩, ns => ⟨nodes ++ ns, []⟩
  | ⟨nodes, (bs, ms) :: braces⟩, ns => ⟨nodes, (bs, ms ++ ns) :: braces⟩

@[simp] theorem take_outside (nodes ns : List Node) : take ⟨nodes, []⟩ ns = ⟨nodes ++ ns, []⟩ := rfl

theorem length_braces_take (D : Draft) (ns : List Node) : (D.take ns).braces.length = D.braces.length := by
  obtain ⟨nodes, _ | ⟨_, _⟩⟩ := D <;> rfl

open Reading (ClassText)
open Scanner (meaning)

/-- From the first draft the text is read to the second. -/
inductive Reads : Draft → Text → Draft → Prop
  | done {D : Draft} : D.Reads [] D
  | text {D E : Draft} {c : CodePoint} {t : Text} (hc : meaning D.braces.length c = .plain ∨ c = Mark.slash)
    (rest : (D.take [letter c]).Reads t E) : D.Reads (c :: t) E
  | escaped {D E : Draft} {c : CodePoint} {t : Text} (rest : (D.take [letter c]).Reads t E) :
    D.Reads (Mark.backslash :: c :: t) E
  | star {D E : Draft} {t : Text} (ht : t.head? ≠ some Mark.star) (rest : (D.take [.star nowhere]).Reads t E) :
    D.Reads (Mark.star :: t) E
  | question {D E : Draft} {t : Text} (rest : (D.take [.anyChar nowhere]).Reads t E) : D.Reads (Mark.question :: t) E
  | set {D E : Draft} {w t : Text} {negated : Bool} {items : List (CodePoint × CodePoint)}
    (hw : ClassText w negated items) (rest : (D.take [.set negated items nowhere]).Reads t E) :
    D.Reads (Mark.openBracket :: (w ++ Mark.closeBracket :: t)) E
  | openBrace {D E : Draft} {t : Text} (rest : Reads ⟨D.nodes, ([], []) :: D.braces⟩ t E) :
    D.Reads (Mark.openBrace :: t) E
  | comma {E : Draft} {ns ms : List Node} {bs : List (List Node)} {braces : List (List (List Node) × List Node)}
    {t : Text} (rest : Reads ⟨ns, (bs ++ [ms], []) :: braces⟩ t E) : Reads ⟨ns, (bs, ms) :: braces⟩ (Mark.comma :: t) E
  | closeBrace {E : Draft} {ns ms : List Node} {bs : List (List Node)} {braces : List (List (List Node) × List Node)}
    {t : Text} (rest : (take ⟨ns, braces⟩ [.alternation (bs ++ [ms]) nowhere]).Reads t E) :
    Reads ⟨ns, (bs, ms) :: braces⟩ (Mark.closeBrace :: t) E

variable {D E F : Draft} {t u : Text}

/-! ## Readings in other places -/

/-- Of two texts one is read after the other, unless the first ends with a star and the second begins with one. -/
theorem Reads.append (h : D.Reads t E) (hu : E.Reads u F)
    (hstar : t.getLast? = some Mark.star → u.head? ≠ some Mark.star) : D.Reads (t ++ u) F := by
  have later : ∀ {v t : Text}, ((v ++ t).getLast? = some Mark.star → u.head? ≠ some Mark.star) →
      t.getLast? = some Mark.star → u.head? ≠ some Mark.star := by
    intro v t h ht
    exact h (by rw [List.getLast?_append, ht]; rfl)
  induction h with
  | done => exact hu
  | @text D E c t hc _ ih => exact .text hc (ih hu (later (v := [c]) hstar))
  | @escaped D E c t _ ih => exact .escaped (ih hu (later (v := [Mark.backslash, c]) hstar))
  | @star D E t ht _ ih =>
    refine .star ?_ (ih hu (later (v := [Mark.star]) hstar))
    -- only a star at the very end has the second text for its next character
    cases t with
    | nil => exact hstar rfl
    | cons => exact ht
  | question _ ih => exact .question (ih hu (later (v := [Mark.question]) hstar))
  | @set D E w t _ _ hw _ ih =>
    rw [List.cons_append, List.append_assoc, List.cons_append]
    exact .set hw (ih hu (later (v := Mark.openBracket :: (w ++ [Mark.closeBracket])) (by simpa using hstar)))
  | openBrace _ ih => exact .openBrace (ih hu (later (v := [Mark.openBrace]) hstar))
  | comma _ ih => exact .comma (ih hu (later (v := [Mark.comma]) hstar))
  | closeBrace _ ih => exact .closeBrace (ih hu (later (v := [Mark.closeBrace]) hstar))

def behind (ns : List Node) (D : Draft) : Draft := ⟨ns ++ D.nodes, D.braces⟩

theorem take_behind (ns ms : List Node) (D : Draft) : (D.behind ns).take ms = (D.take ms).behind ns := by
  obtain ⟨nodes, _ | ⟨_, _⟩⟩ := D
  · exact congrArg (Draft.mk · []) (List.append_assoc _ _ _)
  · rfl

/-- A text is read behind other nodes as it is by itself. -/
theorem Reads.behind (h : D.Reads t E) (ns : List Node) : (D.behind ns).Reads t (E.behind ns) := by
  induction h with
  | done => exact .done
  | text hc _ ih => exact .text hc (take_behind ns _ _ ▸ ih)
  | escaped _ ih => exact .escaped (take_behind ns _ _ ▸ ih)
  | star ht _ ih => exact .star ht (take_behind ns _ _ ▸ ih)
  | question _ ih => exact .question (take_behind ns _ _ ▸ ih)
  | set hw _ ih => exact .set hw (take_behind ns _ _ ▸ ih)
  | openBrace _ ih => exact .openBrace ih
  | comma _ ih => exact .comma ih
  | closeBrace _ ih =>
    rw [← take_behind] at ih
    exact .closeBrace ih

/-- The text has no mark of braces. -/
def Braceless (t : Text) : Prop := ∀ c ∈ t, c ≠ Mark.comma ∧ c ≠ Mark.openBrace ∧ c ≠ Mark.closeBrace

instance (t : Text) : Decidable (Braceless t) := inferInstanceAs (Decidable (∀ c ∈ t, _))

theorem meaning_inside {c : CodePoint} (h : c ≠ Mark.comma ∧ c ≠ Mark.openBrace ∧ c ≠ Mark.closeBrace)
    {depth depth' : Nat} (hplain : meaning depth c = .plain) : meaning depth' c = .plain := by
  unfold meaning at hplain ⊢
  split at hplain <;> simp_all

/-- Inside braces a text without their marks is read as it is outside. -/
theorem Reads.inside (h : D.Reads t E) (ht : Braceless t) (hD : D.braces = []) (ns : List Node)
    (bs : List (List Node)) (braces : List (List (List Node) × List Node)) :
    E.braces = [] ∧ Reads ⟨ns, (bs, D.nodes) :: braces⟩ t ⟨ns, (bs, E.nodes) :: braces⟩ := by
  have one : ∀ {D : Draft} {n : Node}, D.braces = [] → D.take [n] = ⟨D.nodes ++ [n], []⟩ := by
    rintro ⟨nodes, _⟩ n rfl
    rfl
  induction h with
  | done => exact ⟨hD, .done⟩
  | @text D E c t hc _ ih =>
    obtain ⟨hhere, hbehind⟩ := List.forall_mem_cons.1 ht
    rw [one hD] at ih
    obtain ⟨hE, hrest⟩ := ih hbehind rfl
    exact ⟨hE, .text (hc.imp_left fun hplain => meaning_inside hhere hplain) hrest⟩
  | escaped _ ih =>
    rw [one hD] at ih
    obtain ⟨hE, hrest⟩ := ih (List.forall_mem_cons.1 (List.forall_mem_cons.1 ht).2).2 rfl
    exact ⟨hE, .escaped hrest⟩
  | star hnext _ ih =>
    rw [one hD] at ih
    obtain ⟨hE, hrest⟩ := ih (List.forall_mem_cons.1 ht).2 rfl
    exact ⟨hE, .star hnext hrest⟩
  | question _ ih =>
    rw [one hD] at ih
    obtain ⟨hE, hrest⟩ := ih (List.forall_mem_cons.1 ht).2 rfl
    exact ⟨hE, .question hrest⟩
  | set hw _ ih =>
    rw [one hD] at ih
    have hbehind := (List.forall_mem_append.1 (List.forall_mem_cons.1 ht).2).2
    obtain ⟨hE, hrest⟩ := ih (List.forall_mem_cons.1 hbehind).2 rfl
    exact ⟨hE, .set hw hrest⟩
  | openBrace => exact absurd rfl (ht _ List.mem_cons_self).2.1
  | comma => cases hD
  | closeBrace => cases hD

/-! ## Readings are well-formed -/

structure WellFormed (D : Draft) : Prop where
  nodes : NodesWellFormed D.nodes
  braces : ∀ brace ∈ D.braces, BranchesWellFormed (brace.1 ++ [brace.2])

theorem WellFormed.take (h : D.WellFormed) {n : Node} (hn : n.WellFormed) : (D.take [n]).WellFormed := by
  obtain ⟨nodes, _ | ⟨⟨bs, ms⟩, braces⟩⟩ := D
  · exact ⟨nodesWellFormed_append.2 ⟨h.nodes, hn, trivial⟩, nofun⟩
  · obtain ⟨hhere, hbraces⟩ := List.forall_mem_cons.1 h.braces
    obtain ⟨hbs, hms⟩ := branchesWellFormed_concat.1 hhere
    exact ⟨h.nodes, List.forall_mem_cons.2
      ⟨branchesWellFormed_concat.2 ⟨hbs, nodesWellFormed_append.2 ⟨hms, hn, trivial⟩⟩, hbraces⟩⟩

theorem WellFormed.openBrace (h : D.WellFormed) : WellFormed ⟨D.nodes, ([], []) :: D.braces⟩ :=
  ⟨h.nodes, List.forall_mem_cons.2 ⟨⟨trivial, trivial⟩, h.braces⟩⟩

section Braces

variable {ns ms : List Node} {bs : List (List Node)} {braces : List (List (List Node) × List Node)}

theorem WellFormed.comma (h : WellFormed ⟨ns, (bs, ms) :: braces⟩) : WellFormed ⟨ns, (bs ++ [ms], []) :: braces⟩ := by
  obtain ⟨hhere, hbraces⟩ := List.forall_mem_cons.1 h.braces
  exact ⟨h.nodes, List.forall_mem_cons.2 ⟨branchesWellFormed_concat.2 ⟨hhere, trivial⟩, hbraces⟩⟩

theorem WellFormed.closeBrace (h : WellFormed ⟨ns, (bs, ms) :: braces⟩) :
    (Draft.take ⟨ns, braces⟩ [.alternation (bs ++ [ms]) nowhere]).WellFormed := by
  obtain ⟨hhere, hbraces⟩ := List.forall_mem_cons.1 h.braces
  have houter : WellFormed ⟨ns, braces⟩ := ⟨h.nodes, hbraces⟩
  exact houter.take ⟨List.append_ne_nil_of_right_ne_nil _ (List.cons_ne_nil _ _), hhere⟩

end Braces

theorem Reads.wellFormed (h : D.Reads t E) (hD : D.WellFormed) : E.WellFormed := by
  induction h with
  | done => exact hD
  | text _ _ ih | escaped _ ih | star _ _ ih | question _ ih => exact ih (hD.take trivial)
  | set hw _ ih => exact ih (hD.take ⟨hw.members.ne_nil.2, hw.members.ordered⟩)
  | openBrace _ ih => exact ih hD.openBrace
  | comma _ ih => exact ih hD.comma
  | closeBrace _ ih => exact ih hD.closeBrace

end Draft

/-! ## From a parse to a reading -/

namespace Parser

open Draft (Reads)

variable {k : Nat} {b : Builder} {c : CodePoint} {t p : Text} {segments : List Segment} {D E : Draft} {n : Node}
  {ns : List Node}

/-- **The rest of a pattern without a double star can be read**, if as many braces are open. -/
theorem Course.exists_reading (h : Course k b t segments) (hstars : ¬ [Mark.star, Mark.star] <:+: t)
    (hD : D.braces.length = b.braces.length) : ∃ ns, D.Reads t ⟨ns, []⟩ := by
  have later : ∀ {t' : Text} (v : Text), ¬ [Mark.star, Mark.star] <:+: v ++ t' → ¬ [Mark.star, Mark.star] <:+: t' :=
    fun v h h' => h (h'.trans (List.suffix_append v _).isInfix)
  induction h generalizing D with
  | ends hb =>
    obtain ⟨nodes, braces⟩ := D
    obtain rfl : braces = [] := List.length_eq_zero_iff.1 (by rw [hD, hb]; rfl)
    exact ⟨nodes, .done⟩
  | @text k b c t segments hc _ ih =>
    obtain ⟨ns, hns⟩ := ih (later [c] hstars) ((D.length_braces_take [letter c]).trans hD)
    exact ⟨ns, .text (hD ▸ hc.imp_right And.left) hns⟩
  | @escaped k b c t segments _ ih =>
    obtain ⟨ns, hns⟩ := ih (later [Mark.backslash, c] hstars) ((D.length_braces_take [letter c]).trans hD)
    exact ⟨ns, .escaped hns⟩
  | star ht _ ih =>
    obtain ⟨ns, hns⟩ := ih (later [Mark.star] hstars) ((D.length_braces_take [.star nowhere]).trans hD)
    exact ⟨ns, .star ht hns⟩
  | stars => exact absurd (List.prefix_append [Mark.star, Mark.star] _).isInfix hstars
  | question _ ih =>
    obtain ⟨ns, hns⟩ := ih (later [Mark.question] hstars) ((D.length_braces_take [.anyChar nowhere]).trans hD)
    exact ⟨ns, .question hns⟩
  | @set k b cl w t segments _ hw _ ih =>
    obtain ⟨ns, hns⟩ := ih (later (Mark.openBracket :: (w ++ [Mark.closeBracket])) (by simpa using hstars))
      ((D.length_braces_take [.set cl.negated cl.items.reverse nowhere]).trans hD)
    exact ⟨ns, .set hw hns⟩
  | openBrace _ ih =>
    obtain ⟨ns, hns⟩ := @ih ⟨D.nodes, ([], []) :: D.braces⟩ (later [Mark.openBrace] hstars)
      (congrArg (· + 1) hD)
    exact ⟨ns, .openBrace hns⟩
  | comma hb _ ih =>
    obtain ⟨nodes, _ | ⟨⟨bs, ms⟩, braces⟩⟩ := D
    · rw [hb] at hD
      cases hD
    · rw [hb] at hD
      obtain ⟨ns, hns⟩ := @ih ⟨nodes, (bs ++ [ms], []) :: braces⟩ (later [Mark.comma] hstars) hD
      exact ⟨ns, .comma hns⟩
  | closeBrace hb _ ih =>
    obtain ⟨nodes, _ | ⟨⟨bs, ms⟩, braces⟩⟩ := D
    · rw [hb] at hD
      cases hD
    · rw [hb] at hD
      obtain ⟨ns, hns⟩ := ih (later [Mark.closeBrace] hstars)
        ((Draft.length_braces_take ⟨nodes, braces⟩ [.alternation (bs ++ [ms]) nowhere]).trans (Nat.succ.inj hD))
      exact ⟨ns, .closeBrace hns⟩
  | separator hb _ ih =>
    obtain ⟨ns, hns⟩ := ih (later [Mark.slash] hstars) ((D.length_braces_take [letter Mark.slash]).trans hD)
    exact ⟨ns, .text (.inr rfl) hns⟩

/-! ## From a reading to a parse -/

/-- What a builder with these segments, braces and nodes has taken, spelled out. -/
def draftOf (segments : List Segment) : List OpenBrace → List Node → Draft
  | [], ns => ⟨partsSpelled (ns.reverse :: segments.map Segment.nodes).reverse, []⟩
  | brace :: braces, ns =>
    let outer := draftOf segments braces brace.before
    ⟨outer.nodes, (branchesSpelled brace.branches.reverse, nodesSpelled ns.reverse) :: outer.braces⟩

def Builder.draft (b : Builder) : Draft := draftOf b.segments b.braces b.nodes

theorem length_braces_draft (b : Builder) : b.draft.braces.length = b.braces.length := by
  have h : ∀ braces ns, (draftOf b.segments braces ns).braces.length = braces.length := by
    intro braces
    induction braces with
    | nil => exact fun _ => rfl
    | cons brace braces ih => exact fun _ => congrArg (· + 1) (ih _)
  exact h _ _

theorem partsSpelled_last (parts : List (List Node)) {ns ns' more : List Node}
    (h : nodesSpelled ns' = nodesSpelled ns ++ more) :
    partsSpelled (parts ++ [ns']) = partsSpelled (parts ++ [ns]) ++ more := by
  by_cases hnone : parts = []
  · subst hnone
    exact h
  · rw [partsSpelled_concat hnone, partsSpelled_concat hnone, h, List.append_assoc]
    rfl

theorem draftOf_take {braces : List OpenBrace} {ns ns' more : List Node}
    (h : nodesSpelled ns'.reverse = nodesSpelled ns.reverse ++ more) :
    draftOf segments braces ns' = (draftOf segments braces ns).take more := by
  cases braces with
  | nil =>
    rw [draftOf, draftOf, List.reverse_cons, List.reverse_cons, Draft.take_outside]
    exact congrArg (Draft.mk · []) (partsSpelled_last _ h)
  | cons brace braces =>
    rw [draftOf, draftOf, h]
    rfl

theorem draftOf_cons (braces : List OpenBrace) (n : Node) (ns : List Node) :
    draftOf segments braces (n :: ns) = (draftOf segments braces ns).take n.spelled :=
  draftOf_take (by rw [List.reverse_cons, nodesSpelled_append]; simp [nodesSpelled])

theorem addLiteral_spelled (ns : List Node) (text : Text) (span : Span) :
    nodesSpelled (addLiteral ns text span).reverse = nodesSpelled ns.reverse ++ text.map letter := by
  unfold addLiteral
  split <;> simp [nodesSpelled_append, nodesSpelled, Node.spelled]

theorem closeSegment_plain {b : Builder} (h : ∀ n ∈ b.nodes, ∀ span, n ≠ .doubleStar span) (k : Int) :
    (b.begun k).closeSegment k = ⟨b.nodes.reverse, ⟨b.segmentStart.getD k, k⟩⟩ :: b.segments := by
  have hplain : ∀ n ∈ b.nodes.reverse, ∀ span, n ≠ .doubleStar span := fun n hn => h n (List.mem_reverse.1 hn)
  have hclosed : (b.begun k).closeSegment k =
      addSegment b.segments ⟨b.nodes.reverse, ⟨b.segmentStart.getD k, k⟩⟩ := by
    show addSegment b.segments ⟨demoteDoubleStars b.nodes.reverse, _⟩ = _
    rw [demoteDoubleStars_eq_self hplain]
    rfl
  rw [hclosed]
  refine addSegment_separate fun last _ hboth => ?_
  obtain ⟨span, hnodes⟩ := Segment.isRecursive_iff.1 hboth.2
  have hmem : .doubleStar span ∈ b.nodes.reverse := List.mem_of_mem_head? (congrArg List.head? hnodes)
  exact hplain _ hmem span rfl

/-- A builder whose draft is well-formed has taken no `**`. -/
theorem plain_of_draft {b : Builder} (hb : b.braces = []) (h : b.draft.WellFormed) :
    ∀ ns ∈ b.nodes.reverse :: b.segments.map Segment.nodes, ∀ n ∈ ns, ∀ span, n ≠ .doubleStar span := by
  rintro ns hns n hn span rfl
  have hnodes := h.nodes
  rw [Builder.draft, hb] at hnodes
  have hmem : Node.doubleStar nowhere ∈ nodesSpelled ns := by
    rw [nodesSpelled_eq_flatMap]
    exact List.mem_flatMap.2 ⟨_, hn, List.mem_cons_self⟩
  exact nodesWellFormed_iff.1 hnodes _ (nodesSpelled_subset (List.mem_reverse.2 hns) hmem)

theorem takeText_draft (b : Builder) (text : Text) (span : Span) :
    (b.takeText text span).draft = b.draft.take (text.map letter) :=
  draftOf_take (addLiteral_spelled _ _ _)

theorem takeNode_draft (b : Builder) (n : Node) : (b.takeNode n).draft = b.draft.take n.spelled := draftOf_cons _ _ _

/-- A separator ends the segment at hand, or inside braces it is text. -/
theorem resume_slash_draft (hc : b.openClass = none) (hb : b.draft.WellFormed) :
    ∃ b', b'.openClass = none ∧ b'.draft = b.draft.take [letter Mark.slash] ∧
      resumeAt k b (Mark.slash :: t) = resumeAt (k + 1) b' t := by
  cases hbraces : b.braces with
  | nil =>
    have hplain := (List.forall_mem_cons.1 (plain_of_draft hbraces hb)).1
    have hclosed := closeSegment_plain (fun n hn => hplain n (List.mem_reverse.2 hn)) k
    refine ⟨{ b with segments := (b.begun k).closeSegment k, segmentStart := none, nodes := [] }, hc, ?_,
      resume_separator hc hbraces⟩
    show draftOf _ b.braces [] = (draftOf b.segments b.braces b.nodes).take _
    rw [hclosed, hbraces, draftOf, draftOf, List.map_cons, List.reverse_cons, partsSpelled_concat (by simp)]
    rfl
  | cons brace outer =>
    exact ⟨b.takeText [Mark.slash] (Span.sized k 1), hc, takeText_draft b _ _, resume_innerSeparator hc hbraces⟩

theorem exists_brace {ms : List Node} {bs : List (List Node)} {braces : List (List (List Node) × List Node)}
    (h : b.draft = ⟨ns, (bs, ms) :: braces⟩) :
    ∃ brace outer, b.braces = brace :: outer ∧ draftOf b.segments outer brace.before = ⟨ns, braces⟩ ∧
      branchesSpelled brace.branches.reverse = bs ∧ nodesSpelled b.nodes.reverse = ms := by
  cases hbraces : b.braces with
  | nil =>
    rw [Builder.draft, hbraces] at h
    cases h
  | cons brace outer =>
    rw [Builder.draft, hbraces] at h
    cases h
    exact ⟨brace, outer, rfl, rfl, rfl, rfl⟩

/-- **What is read is what the builder takes.** -/
theorem resume_reads (h : D.Reads t E) (hc : b.openClass = none) (hb : b.draft = D) (hD : D.WellFormed) :
    ∃ k' b', b'.openClass = none ∧ b'.draft = E ∧ resumeAt k b t = resumeAt k' b' [] := by
  -- on the reading; that the draft is well-formed keeps `**` out of the segments that are closed on the way
  induction h generalizing k b with
  | done => exact ⟨k, b, hc, hb, rfl⟩
  | text hplain _ ih =>
    subst hb
    rw [length_braces_draft] at hplain
    rcases hplain with hplain | rfl
    · rw [resume_plain hc hplain]
      exact ih hc (takeText_draft b _ _) (hD.take trivial)
    · obtain ⟨b', hc', hb', hresume⟩ := resume_slash_draft (k := k) hc hD
      rw [hresume]
      exact ih hc' hb' (hD.take trivial)
  | escaped _ ih =>
    rw [resume_escaped hc]
    exact ih hc ((takeText_draft b _ _).trans (congrArg (Draft.take · _) hb)) (hD.take trivial)
  | star ht _ ih =>
    rw [resume_star hc ht]
    exact ih hc ((takeNode_draft b _).trans (congrArg (Draft.take · _) hb)) (hD.take trivial)
  | question _ ih =>
    rw [resume_question hc]
    exact ih hc ((takeNode_draft b _).trans (congrArg (Draft.take · _) hb)) (hD.take trivial)
  | @set D E w t negated items hw _ ih =>
    obtain ⟨cl, -, hneg, hitems, hresume⟩ := resume_classText (k := k) hw hc t
    have htaken : ((b.begun k).withClass cl (k + w.length + 2)).draft = D.take [.set negated items nowhere] := by
      rw [← hb, ← hneg, ← items.reverse_reverse, ← hitems]
      exact draftOf_cons _ _ _
    rw [hresume]
    exact ih rfl htaken (hD.take ⟨hw.members.ne_nil.2, hw.members.ordered⟩)
  | openBrace _ ih =>
    subst hb
    rw [resume_openBrace hc]
    exact ih hc rfl hD.openBrace
  | comma _ ih =>
    obtain ⟨brace, outer, hbraces, houter, hbs, hms⟩ := exists_brace hb
    rw [resume_comma hc hbraces]
    refine ih hc ?_ hD.comma
    show draftOf b.segments (_ :: outer) [] = _
    simp [draftOf, houter, branchesSpelled_eq_map, nodesSpelled, ← hbs, ← hms]
  | closeBrace _ ih =>
    obtain ⟨brace, outer, hbraces, houter, hbs, hms⟩ := exists_brace hb
    rw [resume_closeBrace hc hbraces]
    refine ih hc ?_ hD.closeBrace
    show draftOf b.segments outer (_ :: brace.before) = _
    rw [draftOf_cons, houter, Node.spelled]
    simp [branchesSpelled_eq_map, ← hbs, ← hms]

end Parser

variable {p : Text} {tree : Pattern} {ns : List Node}

/-- **A pattern without `**` has a reading.** -/
theorem exists_reading (h : Pattern.parse p = .ok tree) (hstars : ¬ [Mark.star, Mark.star] <:+: p) :
    ∃ ns, Draft.Reads ⟨[], []⟩ p ⟨ns, []⟩ :=
  (parse_course h).2.exists_reading hstars rfl

/-- **A text that has a reading is a pattern**, of no segment that is recursive, and the reading is its tree, spelled
out. -/
theorem parse_reading (h : Draft.Reads ⟨[], []⟩ p ⟨ns, []⟩) :
    NodesWellFormed ns ∧ ∃ tree, Pattern.parse p = .ok tree ∧ tree.spelled = ns ∧
      ∀ s ∈ tree.segments, s.isRecursive = false := by
  have hwf := h.wellFormed ⟨trivial, nofun⟩
  obtain ⟨k, b, hc, hb, hresume⟩ :=
    Parser.resume_reads (k := 0) (b := Parser.start p) h rfl rfl ⟨trivial, nofun⟩
  have hbraces : b.braces = [] := by
    have hlength := Parser.length_braces_draft b
    rw [hb] at hlength
    exact List.length_eq_zero_iff.1 hlength.symm
  have hplain := Parser.plain_of_draft hbraces (hb ▸ hwf)
  have hclosed := Parser.closeSegment_plain (fun n hn => (List.forall_mem_cons.1 hplain).1 n (List.mem_reverse.2 hn)) k
  have hparts : ((b.begun k).closeSegment k).reverse.map Segment.nodes =
      (b.nodes.reverse :: b.segments.map Segment.nodes).reverse := by
    rw [hclosed, List.map_reverse, List.map_cons]
  refine ⟨hwf.nodes, ⟨p, ((b.begun k).closeSegment k).reverse⟩, Parser.parse_eq_ok.2 ?_, ?_, fun s hs => ?_⟩
  · refine hresume.trans ?_
    rw [Parser.resume_nil hc, hbraces]
  · rw [Parser.Builder.draft, hbraces] at hb
    rw [Pattern.spelled, hparts]
    exact congrArg Draft.nodes hb
  · have hmem : s.nodes ∈ b.nodes.reverse :: b.segments.map Segment.nodes := by
      rw [← List.mem_reverse, ← hparts]
      exact List.mem_map_of_mem hs
    refine Bool.eq_false_iff.2 fun hrec => ?_
    obtain ⟨span, hnodes⟩ := Segment.isRecursive_iff.1 hrec
    exact hplain _ hmem (.doubleStar span) (hnodes ▸ List.mem_cons_self) span rfl

end Glob
