import Glob.Pattern.Expression
import Glob.Proofs.Regex.CaseFolding
import Mathlib.Data.List.Chain
/-!
# Trees whose expressions can be written

A tree made by hand may hold a class without members or a range that is turned around.  `Pattern.Writable` is what is
left of the trees without these; the source text of the expression of such a tree is readable (`regex_readable`).  A
tree made by hand may also hold an alternation without branches or a `**` that does not stand alone, and
`Pattern.WellFormed` leaves these out as well.

`Pattern.Folds` is the condition on a tree under which its members of sets stand for their case classes: there are no
capital letters beyond U+FFFF in its classes and braces, and no ranges that reach beyond U+FFFF from behind one of
four letters.
-/
namespace Glob

open Regex (Whole)

mutual

/-- The node's classes have members, and no range of them is turned around. -/
def Node.Writable : Node → Prop
  | .literal _ _ | .anyChar _ | .star _ | .doubleStar _ => True
  | .set _ items _ => items ≠ [] ∧ ∀ item ∈ items, item.1 ≤ item.2
  | .alternation branches _ => BranchesWritable branches

def NodesWritable : List Node → Prop
  | [] => True
  | n :: ns => n.Writable ∧ NodesWritable ns

def BranchesWritable : List (List Node) → Prop
  | [] => True
  | b :: bs => NodesWritable b ∧ BranchesWritable bs

end

def Pattern.Writable (p : Pattern) : Prop := ∀ s ∈ p.segments, NodesWritable s.nodes

mutual

def Node.WellFormed : Node → Prop
  | .literal _ _ | .anyChar _ | .star _ => True
  | .doubleStar _ => False
  | .set _ items _ => items ≠ [] ∧ ∀ item ∈ items, item.1 ≤ item.2
  | .alternation branches _ => branches ≠ [] ∧ BranchesWellFormed branches

def NodesWellFormed : List Node → Prop
  | [] => True
  | n :: ns => n.WellFormed ∧ NodesWellFormed ns

def BranchesWellFormed : List (List Node) → Prop
  | [] => True
  | b :: bs => NodesWellFormed b ∧ BranchesWellFormed bs

end

theorem Segment.isRecursive_iff {s : Segment} : s.isRecursive = true ↔ ∃ span, s.nodes = [.doubleStar span] := by
  unfold Segment.isRecursive
  split
  · next span hnodes => exact iff_of_true rfl ⟨span, hnodes⟩
  · next hnodes => exact iff_of_false Bool.false_ne_true fun ⟨span, h⟩ => hnodes span h

def Segment.WellFormed (s : Segment) : Prop := s.isRecursive = true ∨ NodesWellFormed s.nodes

/-- Of two segments that follow each other at most one is recursive. -/
def Segment.Separate (s s' : Segment) : Prop := ¬ (s.isRecursive = true ∧ s'.isRecursive = true)

structure Pattern.WellFormed (p : Pattern) : Prop where
  nonempty : p.segments ≠ []
  segments : ∀ s ∈ p.segments, s.WellFormed
  separate : p.segments.IsChain Segment.Separate

mutual

theorem Node.WellFormed.writable : (n : Node) → n.WellFormed → n.Writable
  | .literal _ _, _ | .anyChar _, _ | .star _, _ => trivial
  | .doubleStar _, h => h.elim
  | .set _ _ _, h => h
  | .alternation bs _, h => branchesWellFormed_writable bs h.2

theorem nodesWellFormed_writable : (ns : List Node) → NodesWellFormed ns → NodesWritable ns
  | [], _ => trivial
  | n :: ns, h => ⟨Node.WellFormed.writable n h.1, nodesWellFormed_writable ns h.2⟩

theorem branchesWellFormed_writable : (bs : List (List Node)) → BranchesWellFormed bs → BranchesWritable bs
  | [], _ => trivial
  | b :: bs, h => ⟨nodesWellFormed_writable b h.1, branchesWellFormed_writable bs h.2⟩

end

theorem Segment.WellFormed.writable {s : Segment} (h : s.WellFormed) : NodesWritable s.nodes := by
  rcases h with hrec | hwf
  · obtain ⟨span, hnodes⟩ := Segment.isRecursive_iff.1 hrec
    rw [hnodes]
    exact ⟨trivial, trivial⟩
  · exact nodesWellFormed_writable s.nodes hwf

theorem Pattern.WellFormed.writable {p : Pattern} (h : p.WellFormed) : p.Writable :=
  fun s hs => (h.segments s hs).writable

mutual

/-- The node's members of sets stand for their case classes; inside braces, its characters do too. -/
def Node.Folds (inside : Bool) : Node → Prop
  | .literal text _ => inside = true → ∀ c ∈ text, Whole (c, c)
  | .anyChar _ | .star _ | .doubleStar _ => True
  | .set negated items _ =>
    (∀ item ∈ items, Whole item) ∨ (inside = false ∧ negated = false ∧ ∃ c, items = [(c, c)])
  | .alternation branches _ => BranchesFold branches

def NodesFold (inside : Bool) : List Node → Prop
  | [] => True
  | n :: ns => n.Folds inside ∧ NodesFold inside ns

def BranchesFold : List (List Node) → Prop
  | [] => True
  | b :: bs => NodesFold true b ∧ BranchesFold bs

end

def Pattern.Folds (p : Pattern) : Prop := ∀ s ∈ p.segments, NodesFold false s.nodes

/-! ## Their expressions are readable -/

namespace Expression

open Regex (Readable isSequence)

theorem sequence_readable {rs : List Regex} (h : ∀ r ∈ rs, r.Readable ∧ r.isSequence = true) :
    (Regex.sequence rs).Readable ∧ (Regex.sequence rs).isSequence = true := by
  induction rs with
  | nil => exact ⟨trivial, rfl⟩
  | cons r rs ih =>
    obtain ⟨hr, hs⟩ := h r List.mem_cons_self
    have htail := ih fun a ha => h a (List.mem_cons_of_mem _ ha)
    cases rs with
    | nil => exact ⟨hr, hs⟩
    | cons next rs => exact ⟨⟨⟨hs, htail.2⟩, hr, htail.1⟩, Bool.and_eq_true_iff.2 ⟨hs, htail.2⟩⟩

theorem ofText_readable (text : Text) :
    (Regex.ofText text).Readable ∧ (Regex.ofText text).isSequence = true := by
  refine sequence_readable fun r hr => ?_
  obtain ⟨c, _, rfl⟩ := List.mem_map.1 hr
  exact ⟨trivial, rfl⟩

theorem alternatives_readable {rs : List Regex} (h : ∀ r ∈ rs, r.Readable ∧ r.isSequence = true) :
    (Regex.alternatives rs).Readable := by
  induction rs with
  | nil => trivial
  | cons r rs ih =>
    obtain ⟨hr, hs⟩ := h r List.mem_cons_self
    cases rs with
    | nil => exact hr
    | cons next rs => exact ⟨hs, hr, ih fun a ha => h a (List.mem_cons_of_mem _ ha)⟩

theorem notSeparator_readable : notSeparator.Readable := ⟨by simp, by simp⟩

theorem anyChar_readable (o : Options) :
    (anyChar o).Readable ∧ (anyChar o).isSequence = true ∧ (anyChar o).isAtom = true := by
  unfold anyChar
  split
  · exact ⟨notSeparator_readable, rfl, rfl⟩
  · exact ⟨trivial, rfl, rfl⟩

theorem star_readable (o : Options) : (star o).Readable ∧ (star o).isSequence = true :=
  ⟨⟨(anyChar_readable o).2.2, (anyChar_readable o).1⟩, rfl⟩

theorem guard_readable (o : Options) (place : Place) :
    (guard o place).Readable ∧ (guard o place).isSequence = true := by
  unfold guard
  split
  · cases place with
    | componentStart => exact ⟨trivial, rfl⟩
    | maybeStart => exact ⟨⟨⟨rfl, rfl⟩, ⟨rfl, notSeparator_readable⟩, trivial⟩, rfl⟩
    | inside => exact ⟨trivial, rfl⟩
  · exact ⟨trivial, rfl⟩

theorem set_readable (o : Options) {negated : Bool} {items : List (CodePoint × CodePoint)} (hne : items ≠ [])
    (hitems : ∀ item ∈ items, item.1 ≤ item.2) :
    (set o negated items).Readable ∧ (set o negated items).isSequence = true := by
  unfold set
  split
  · refine ⟨?_, rfl⟩
    split
    · refine ⟨by simp, fun item h => ?_⟩
      rcases List.mem_append.1 h with h | h
      · exact hitems item h
      · exact Nat.le_of_eq (by rw [List.mem_singleton.1 h])
    · exact ⟨hne, hitems⟩
  · split
    · exact ⟨⟨⟨rfl, rfl⟩, trivial, hne, hitems⟩, rfl⟩
    · exact ⟨⟨hne, hitems⟩, rfl⟩

theorem seq_readable {a b : Regex} (ha : a.Readable ∧ a.isSequence = true) (hb : b.Readable ∧ b.isSequence = true) :
    (Regex.seq a b).Readable ∧ (Regex.seq a b).isSequence = true :=
  ⟨⟨⟨ha.2, hb.2⟩, ha.1, hb.1⟩, Bool.and_eq_true_iff.2 ⟨ha.2, hb.2⟩⟩

mutual

theorem node_readable (o : Options) (place : Place) :
    (n : Node) → n.Writable → (node o place n).Readable ∧ (node o place n).isSequence = true
  | .literal text _, _ => ofText_readable text
  | .anyChar _, _ => seq_readable (guard_readable o place) ⟨(anyChar_readable o).1, (anyChar_readable o).2.1⟩
  | .star _, _ => seq_readable (guard_readable o place) (star_readable o)
  | .doubleStar _, _ => seq_readable (star_readable o) (star_readable o)
  | .set _ _ _, h => seq_readable (guard_readable o place) (set_readable o h.1 h.2)
  | .alternation bs _, h => ⟨alternatives_readable (branches_readable o place bs h), rfl⟩

theorem nodes_readable (o : Options) (place : Place) :
    (ns : List Node) → NodesWritable ns → (nodes o place ns).Readable ∧ (nodes o place ns).isSequence = true
  | [], _ => ⟨trivial, rfl⟩
  | n :: ns, h => seq_readable (node_readable o place n h.1) (nodes_readable o _ ns h.2)

theorem branches_readable (o : Options) (place : Place) :
    (bs : List (List Node)) → BranchesWritable bs → ∀ r ∈ branches o place bs, r.Readable ∧ r.isSequence = true
  | [], _, _, hr => absurd hr List.not_mem_nil
  | b :: bs, h, r, hr => by
    rcases List.mem_cons.1 hr with rfl | hr
    · exact nodes_readable o place b h.1
    · exact branches_readable o place bs h.2 r hr

end

/-! ### Segments, one equation per kind -/

section Equations

variable {o : Options} {separatorDue underRoot : Bool} {s : Segment} {rest : List Segment}

theorem segmentsAfter_plain (h : s.isRecursive = false) :
    segmentsAfter o separatorDue underRoot (s :: rest) =
      .seq (if separatorDue then separator else .empty) (.seq (segment o s) (segmentsAfter o true false rest)) := by
  simp [segmentsAfter, h]

theorem segmentsAfter_last (h : s.isRecursive = true) :
    segmentsAfter o separatorDue underRoot [s] =
      if underRoot then .seq separator (anyPath o) else .optional (.group (.seq separator (anyPath o))) := by
  simp [segmentsAfter, h]

theorem segmentsAfter_recursive (h : s.isRecursive = true) (hrest : rest ≠ []) :
    segmentsAfter o separatorDue underRoot (s :: rest) =
      .seq (if separatorDue then separator else .empty) (.seq (components o) (segmentsAfter o false false rest)) := by
  obtain ⟨next, rest, rfl⟩ := List.exists_cons_of_ne_nil hrest
  simp [segmentsAfter, h]

theorem segments_plain (h : s.isRecursive = false) :
    segments o (s :: rest) = .seq (segment o s) (segmentsAfter o true s.nodes.isEmpty rest) := by
  simp [segments, h]

theorem segments_sole (h : s.isRecursive = true) : segments o [s] = anyPath o := by
  simp [segments, h]

theorem segments_recursive (h : s.isRecursive = true) (hrest : rest ≠ []) :
    segments o (s :: rest) = .seq (components o) (segmentsAfter o false false rest) := by
  obtain ⟨next, rest, rfl⟩ := List.exists_cons_of_ne_nil hrest
  simp [segments, h]

end Equations

theorem separator_readable : separator.Readable ∧ separator.isSequence = true := ⟨trivial, rfl⟩

theorem component_readable (o : Options) :
    (component o).Readable ∧ (component o).isSequence = true := by
  have hmany : (Regex.many notSeparator).Readable := ⟨rfl, notSeparator_readable⟩
  unfold component
  split
  · exact ⟨⟨⟨rfl, rfl⟩, trivial, hmany⟩, rfl⟩
  · exact ⟨hmany, rfl⟩

theorem components_readable (o : Options) :
    (components o).Readable ∧ (components o).isSequence = true :=
  ⟨⟨rfl, (seq_readable (component_readable o) separator_readable).1⟩, rfl⟩

theorem anyPath_readable (o : Options) : (anyPath o).Readable ∧ (anyPath o).isSequence = true := by
  have hrest : (Regex.many (.group (.seq separator (component o)))).Readable :=
    ⟨rfl, (seq_readable separator_readable (component_readable o)).1⟩
  unfold anyPath
  split
  · exact ⟨⟨rfl, (seq_readable (component_readable o) ⟨hrest, rfl⟩).1⟩, rfl⟩
  · exact ⟨⟨rfl, trivial⟩, rfl⟩

theorem due_readable (separatorDue : Bool) :
    (if separatorDue then separator else Regex.empty).Readable ∧
      (if separatorDue then separator else Regex.empty).isSequence = true := by
  cases separatorDue <;> exact ⟨trivial, rfl⟩

theorem segmentsAfter_readable (o : Options) (separatorDue underRoot : Bool) {ss : List Segment}
    (h : ∀ s ∈ ss, NodesWritable s.nodes) :
    (segmentsAfter o separatorDue underRoot ss).Readable ∧
      (segmentsAfter o separatorDue underRoot ss).isSequence = true := by
  induction ss generalizing separatorDue underRoot with
  | nil => exact ⟨trivial, rfl⟩
  | cons s rest ih =>
    have hrest := fun due root => ih due root fun a ha => h a (List.mem_cons_of_mem _ ha)
    have hdue := due_readable separatorDue
    cases hrec : s.isRecursive with
    | false =>
      rw [segmentsAfter_plain hrec]
      exact seq_readable hdue (seq_readable (nodes_readable o _ _ (h s List.mem_cons_self)) (hrest true false))
    | true =>
      by_cases hnil : rest = []
      · subst hnil
        have hpath := seq_readable separator_readable (anyPath_readable o)
        rw [segmentsAfter_last hrec]
        split
        · exact hpath
        · exact ⟨⟨rfl, hpath.1⟩, rfl⟩
      · rw [segmentsAfter_recursive hrec hnil]
        exact seq_readable hdue (seq_readable (components_readable o) (hrest false false))

theorem segments_readable (o : Options) {ss : List Segment} (h : ∀ s ∈ ss, NodesWritable s.nodes) :
    (segments o ss).Readable ∧ (segments o ss).isSequence = true := by
  cases ss with
  | nil => exact ⟨trivial, rfl⟩
  | cons s rest =>
    have hrest := fun due root =>
      segmentsAfter_readable o due root fun a ha => h a (List.mem_cons_of_mem _ ha)
    cases hrec : s.isRecursive with
    | false =>
      rw [segments_plain hrec]
      exact seq_readable (nodes_readable o _ _ (h s List.mem_cons_self)) (hrest _ _)
    | true =>
      by_cases hnil : rest = []
      · rw [hnil, segments_sole hrec]
        exact anyPath_readable o
      · rw [segments_recursive hrec hnil]
        exact seq_readable (components_readable o) (hrest _ _)

end Expression

/-- **The source text of a writable tree's expression is readable.** -/
theorem Pattern.regex_readable (o : Options) {p : Pattern} (h : p.Writable) : (p.regex o).Readable :=
  (Expression.seq_readable (a := .start) ⟨trivial, rfl⟩
    (Expression.seq_readable (b := .stop) (Expression.segments_readable o h) ⟨trivial, rfl⟩)).1

end Glob
