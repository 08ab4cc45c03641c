import Glob.Proofs.Pattern.WellFormed
/-!
# Trees whose expressions may be condensed

What an expression matches when case is ignored may depend on how its alternatives are written, but only through capital
letters beyond U+FFFF (`Regex.Folds`).  `Pattern.Condensable` keeps these out of the places where they make a
difference: the text of literals inside braces, and classes of which they are the only member, unless such a class is
negated or outside braces and has its member once.  `Pattern.regex_folds` says that this is enough.

The condition is one on the nodes that hold no others, and `Node.Every` takes such a condition through a tree.  It tells
the condition whether there are braces around.
-/
namespace Glob

open Regex (Whole Steady Settled)

/-! ## Conditions on all nodes -/

mutual

/-- All nodes without branches, in this one, meet the condition for where they are: inside braces or not. -/
def Node.Every (P : Bool → Node → Prop) (inside : Bool) : Node → Prop
  | .alternation branches _ => BranchesEvery P branches
  | .literal text span => P inside (.literal text span)
  | .anyChar span => P inside (.anyChar span)
  | .star span => P inside (.star span)
  | .doubleStar span => P inside (.doubleStar span)
  | .set negated items span => P inside (.set negated items span)

def NodesEvery (P : Bool → Node → Prop) (inside : Bool) : List Node → Prop
  | [] => True
  | n :: ns => n.Every P inside ∧ NodesEvery P inside ns

def BranchesEvery (P : Bool → Node → Prop) : List (List Node) → Prop
  | [] => True
  | b :: bs => NodesEvery P true b ∧ BranchesEvery P bs

end

def Pattern.Every (P : Bool → Node → Prop) (p : Pattern) : Prop := ∀ s ∈ p.segments, NodesEvery P false s.nodes

section Every

variable {P Q R : Bool → Node → Prop}

theorem nodesEvery_iff {inside : Bool} {ns : List Node} :
    NodesEvery P inside ns ↔ ∀ n ∈ ns, n.Every P inside := by
  induction ns with
  | nil => simp [NodesEvery]
  | cons n ns ih => rw [NodesEvery, ih, List.forall_mem_cons]

theorem branchesEvery_iff {bs : List (List Node)} :
    BranchesEvery P bs ↔ ∀ b ∈ bs, NodesEvery P true b := by
  induction bs with
  | nil => simp [BranchesEvery]
  | cons b bs ih => rw [BranchesEvery, ih, List.forall_mem_cons]

theorem nodesEvery_append {inside : Bool} {ns ns' : List Node} :
    NodesEvery P inside (ns ++ ns') ↔ NodesEvery P inside ns ∧ NodesEvery P inside ns' := by
  simp only [nodesEvery_iff, List.forall_mem_append]

mutual

theorem Node.every_of_forall (h : ∀ inside n, P inside n) : (n : Node) → {inside : Bool} → n.Every P inside
  | .alternation bs _, _ => branchesEvery_of_forall h bs
  | .literal _ _, _ | .anyChar _, _ | .star _, _ | .doubleStar _, _ | .set _ _ _, _ => h _ _

theorem nodesEvery_of_forall (h : ∀ inside n, P inside n) :
    (ns : List Node) → {inside : Bool} → NodesEvery P inside ns
  | [], _ => trivial
  | n :: ns, _ => ⟨Node.every_of_forall h n, nodesEvery_of_forall h ns⟩

theorem branchesEvery_of_forall (h : ∀ inside n, P inside n) : (bs : List (List Node)) → BranchesEvery P bs
  | [] => trivial
  | b :: bs => ⟨nodesEvery_of_forall h b, branchesEvery_of_forall h bs⟩

end

mutual

theorem Node.Every.imp₂ (h : ∀ inside n, P inside n → Q inside n → R inside n) :
    (n : Node) → {inside : Bool} → n.Every P inside → n.Every Q inside → n.Every R inside
  | .alternation bs _, _, hp, hq => branchesEvery_imp₂ h bs hp hq
  | .literal _ _, _, hp, hq | .anyChar _, _, hp, hq | .star _, _, hp, hq | .doubleStar _, _, hp, hq
  | .set _ _ _, _, hp, hq => h _ _ hp hq

theorem nodesEvery_imp₂ (h : ∀ inside n, P inside n → Q inside n → R inside n) :
    (ns : List Node) → {inside : Bool} → NodesEvery P inside ns → NodesEvery Q inside ns → NodesEvery R inside ns
  | [], _, _, _ => trivial
  | n :: ns, _, hp, hq => ⟨Node.Every.imp₂ h n hp.1 hq.1, nodesEvery_imp₂ h ns hp.2 hq.2⟩

theorem branchesEvery_imp₂ (h : ∀ inside n, P inside n → Q inside n → R inside n) :
    (bs : List (List Node)) → BranchesEvery P bs → BranchesEvery Q bs → BranchesEvery R bs
  | [], _, _ => trivial
  | b :: bs, hp, hq => ⟨nodesEvery_imp₂ h b hp.1 hq.1, branchesEvery_imp₂ h bs hp.2 hq.2⟩

end

variable {p : Pattern}

theorem Pattern.Every.imp₂ (h : ∀ inside n, P inside n → Q inside n → R inside n) (hp : p.Every P) (hq : p.Every Q) :
    p.Every R :=
  fun s hs => nodesEvery_imp₂ h s.nodes (hp s hs) (hq s hs)

theorem Pattern.Every.imp (h : ∀ inside n, P inside n → Q inside n) (hp : p.Every P) : p.Every Q :=
  hp.imp₂ (fun inside n hn _ => h inside n hn) hp

end Every

/-! ## Condensable trees -/

/-- The node means the same whatever it is an alternative to: inside braces its characters are steady, and its class is
settled, or is never joined to others and has one member. -/
def Node.Condensable (inside : Bool) : Node → Prop
  | .literal text _ => inside = true → ∀ c ∈ text, Steady (c, c)
  | .set negated items _ => Settled items ∨ ((inside = false ∨ negated = true) ∧ ∃ item, items = [item])
  | .anyChar _ | .star _ | .doubleStar _ | .alternation _ _ => True

def Pattern.Condensable (p : Pattern) : Prop := p.Every Node.Condensable

/-- Outside braces the condition asks for less. -/
theorem nodesCondensable_outside {ns : List Node} (h : NodesEvery Node.Condensable true ns) :
    NodesEvery Node.Condensable false ns := by
  rw [nodesEvery_iff] at h ⊢
  intro n hn
  have hn := h n hn
  cases n with
  | literal text span => exact nofun
  | set negated items span => exact hn.imp_right fun h => ⟨.inl rfl, h.2⟩
  | anyChar | star | doubleStar | alternation => exact hn

mutual

theorem Node.Folds.condensable : (n : Node) → {inside : Bool} → n.Folds inside → n.Every Node.Condensable inside
  | .literal _ _, _, h => fun hinside c hc => (h hinside c hc).steady
  | .anyChar _, _, _ | .star _, _, _ | .doubleStar _, _, _ => trivial
  | .set _ _ _, _, h => by
    rcases h with h | ⟨hinside, -, c, hitems⟩
    · exact .inl (.inl fun item hitem => (h item hitem).steady)
    · exact .inr ⟨.inl hinside, _, hitems⟩
  | .alternation bs _, _, h => branchesFold_condensable bs h

theorem nodesFold_condensable : (ns : List Node) → {inside : Bool} → NodesFold inside ns →
    NodesEvery Node.Condensable inside ns
  | [], _, _ => trivial
  | n :: ns, _, h => ⟨Node.Folds.condensable n h.1, nodesFold_condensable ns h.2⟩

theorem branchesFold_condensable : (bs : List (List Node)) → BranchesFold bs → BranchesEvery Node.Condensable bs
  | [], _ => trivial
  | b :: bs, h => ⟨nodesFold_condensable b h.1, branchesFold_condensable bs h.2⟩

end

theorem Pattern.Folds.condensable {p : Pattern} (h : p.Folds) : p.Condensable :=
  fun s hs => nodesFold_condensable s.nodes (h s hs)

/-! ## Their expressions -/

namespace Expression

theorem notSeparator_folds (inside : Bool) : notSeparator.Folds inside := .inl (by decide)

theorem anyChar_folds (o : Options) (inside : Bool) : (anyChar o).Folds inside := by
  unfold anyChar
  split
  · exact notSeparator_folds inside
  · trivial

theorem guard_folds (o : Options) (place : Place) (inside : Bool) : (guard o place).Folds inside := by
  have hdot : Steady (Mark.dot, Mark.dot) := by decide
  unfold guard
  split
  · cases place with
    | componentStart => exact fun _ => hdot
    | maybeStart => exact ⟨notSeparator_folds inside, fun _ => hdot⟩
    | inside => trivial
  · trivial

theorem separator_folds (inside : Bool) : separator.Folds inside := fun _ => by decide

/-- With the separator behind them, members of a class that is negated are settled. -/
theorem settled_append_slash {items : List (CodePoint × CodePoint)} (h : Settled items ∨ ∃ item, items = [item]) :
    Settled (items ++ [(Mark.slash, Mark.slash)]) := by
  have hslash : Steady (Mark.slash, Mark.slash) := by decide
  have hmem : (Mark.slash, Mark.slash) ∈ items ++ [(Mark.slash, Mark.slash)] := by simp
  rcases h with (hall | ⟨a, ha, b, hb, hab⟩) | ⟨item, rfl⟩
  · exact .inl (List.forall_mem_append.2 ⟨hall, by simpa using hslash⟩)
  · exact .inr ⟨a, List.mem_append_left _ ha, b, List.mem_append_left _ hb, hab⟩
  · by_cases heq : item = (Mark.slash, Mark.slash)
    · exact .inl (by simpa [heq] using hslash)
    · exact .inr ⟨item, by simp, _, hmem, heq⟩

theorem set_folds (o : Options) {inside negated : Bool} {items : List (CodePoint × CodePoint)}
    (h : Settled items ∨ ((inside = false ∨ negated = true) ∧ ∃ item, items = [item])) :
    (set o negated items).Folds inside := by
  unfold set
  split
  · next hneg =>
    split
    · exact .inl (settled_append_slash (h.imp_right And.right))
    · exact h.imp_right fun h => ⟨.inr rfl, h.2⟩
  · next hneg =>
    have hset : (Regex.set false items).Folds inside :=
      h.imp_right fun h => ⟨.inl (h.1.resolve_right hneg), h.2⟩
    split
    · exact ⟨separator_folds inside, hset⟩
    · exact hset

theorem ofText_folds {text : Text} {inside : Bool} (h : inside = true → ∀ c ∈ text, Steady (c, c)) :
    (Regex.ofText text).Folds inside := by
  refine Regex.folds_sequence fun r hr => ?_
  obtain ⟨c, hc, rfl⟩ := List.mem_map.1 hr
  exact fun hin => h hin c hc

mutual

theorem node_folds (o : Options) (inside : Bool) (place : Place) :
    (n : Node) → n.Every Node.Condensable inside → (node o place n).Folds inside
  | .literal _ _, h => ofText_folds h
  | .anyChar _, _ => ⟨guard_folds o place inside, anyChar_folds o inside⟩
  | .star _, _ => ⟨guard_folds o place inside, anyChar_folds o inside⟩
  | .doubleStar _, _ => ⟨anyChar_folds o inside, anyChar_folds o inside⟩
  | .set _ _ _, h => ⟨guard_folds o place inside, set_folds o h⟩
  | .alternation bs _, h => Regex.folds_alternatives (branches_fold o place bs h)

theorem nodes_fold (o : Options) (inside : Bool) (place : Place) :
    (ns : List Node) → NodesEvery Node.Condensable inside ns → (nodes o place ns).Folds inside
  | [], _ => trivial
  | n :: ns, h => ⟨node_folds o inside place n h.1, nodes_fold o inside _ ns h.2⟩

theorem branches_fold (o : Options) (place : Place) :
    (bs : List (List Node)) → BranchesEvery Node.Condensable bs → ∀ r ∈ branches o place bs, r.Folds true
  | [], _, _, hr => absurd hr List.not_mem_nil
  | b :: bs, h, r, hr => by
    rcases List.mem_cons.1 hr with rfl | hr
    · exact nodes_fold o true place b h.1
    · exact branches_fold o place bs h.2 r hr

end

theorem component_folds (o : Options) : (component o).Folds false := by
  unfold component
  split
  · exact ⟨fun h => Bool.noConfusion h, notSeparator_folds false⟩
  · exact notSeparator_folds false

theorem anyPath_folds (o : Options) : (anyPath o).Folds false := by
  unfold anyPath
  split
  · exact ⟨component_folds o, separator_folds false, component_folds o⟩
  · trivial

theorem segmentsAfter_fold (o : Options) (separatorDue underRoot : Bool) {ss : List Segment}
    (h : ∀ s ∈ ss, NodesEvery Node.Condensable false s.nodes) : (segmentsAfter o separatorDue underRoot ss).Folds false := by
  induction ss generalizing separatorDue underRoot with
  | nil => trivial
  | cons s rest ih =>
    have hrest := fun due root => ih due root fun a ha => h a (List.mem_cons_of_mem _ ha)
    have hdue : (if separatorDue then separator else Regex.empty).Folds false := by
      cases separatorDue
      · trivial
      · exact separator_folds false
    cases hrec : s.isRecursive with
    | false =>
      rw [segmentsAfter_plain hrec]
      exact ⟨hdue, nodes_fold o false _ _ (h s List.mem_cons_self), hrest true false⟩
    | true =>
      by_cases hnil : rest = []
      · subst hnil
        rw [segmentsAfter_last hrec]
        split <;> exact ⟨separator_folds false, anyPath_folds o⟩
      · rw [segmentsAfter_recursive hrec hnil]
        exact ⟨hdue, ⟨component_folds o, separator_folds false⟩, hrest false false⟩

theorem segments_fold (o : Options) {ss : List Segment} (h : ∀ s ∈ ss, NodesEvery Node.Condensable false s.nodes) :
    (segments o ss).Folds false := by
  cases ss with
  | nil => trivial
  | cons s rest =>
    have hrest := fun due root => segmentsAfter_fold o due root fun a ha => h a (List.mem_cons_of_mem _ ha)
    cases hrec : s.isRecursive with
    | false =>
      rw [segments_plain hrec]
      exact ⟨nodes_fold o false _ _ (h s List.mem_cons_self), hrest _ _⟩
    | true =>
      by_cases hnil : rest = []
      · rw [hnil, segments_sole hrec]
        exact anyPath_folds o
      · rw [segments_recursive hrec hnil]
        exact ⟨⟨component_folds o, separator_folds false⟩, hrest _ _⟩

end Expression

/-- **A condensable tree's expression may be condensed**, under all options. -/
theorem Pattern.regex_folds (o : Options) {p : Pattern} (h : p.Condensable) : (p.regex o).Folds false :=
  ⟨trivial, Expression.segments_fold o h, trivial⟩

end Glob
