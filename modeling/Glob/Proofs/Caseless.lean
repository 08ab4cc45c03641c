import Glob.Proofs.Precise
import Glob.Proofs.Text.Folding
/-!
# Precise steps where case is ignored

A matcher ignores case by case classes, character by character, and a precise step by the full case folding of the whole
name.  The two come apart at U+0130 and U+0131, the letters that are `i` to a class and not to a folding, and at the code
points that fold to several, which are never more than one to a class: `caseless_name`.
-/
namespace Glob

open Regex (Matches)
open Text (wildcards unescape? sameClass fold expansions)

variable {o : Options} {x : Text} {s : Segment}

/-! ## Literal segments -/

theorem stands_append (text text' : Text) (i : Nat) :
    o.Stands x (text ++ text') i ↔ o.Stands x text i ∧ o.Stands x text' (i + text.length) := by
  induction text generalizing i with
  | nil => simp [Options.Stands]
  | cons c text ih =>
    rw [List.cons_append, Options.Stands, Options.Stands, ih, and_assoc, List.length_cons, Nat.add_right_comm, Nat.add_assoc]

/-- Literal nodes match their text. -/
theorem literal_nodes_match {ns : List Node} (h : ns.all Node.isLiteral = true) {place : Place} {i j : Nat} :
    Matches (!o.caseSensitive) x (Expression.nodes o place ns) i j ↔
      j = i + (ns.flatMap Node.literalText).length ∧ o.Stands x (ns.flatMap Node.literalText) i := by
  induction ns generalizing place i with
  | nil => simp [Expression.nodes, Matches, Options.Stands]
  | cons n ns ih =>
    obtain ⟨hn, hns⟩ := Bool.and_eq_true_iff.1 h
    cases n with
    | literal text span =>
      have hseq : Matches (!o.caseSensitive) x (Expression.nodes o place (.literal text span :: ns)) i j ↔
          ∃ k, Matches (!o.caseSensitive) x (Regex.ofText text) i k ∧
            Matches (!o.caseSensitive) x (Expression.nodes o ((Node.literal text span).placeAfter place) ns) k j := Iff.rfl
      simp only [hseq, Expression.ofText_matches, ih hns, List.flatMap_cons, Node.literalText, List.length_append,
        stands_append]
      constructor
      · rintro ⟨_, ⟨rfl, htext⟩, rfl, hrest⟩
        exact ⟨by omega, htext, hrest⟩
      · rintro ⟨rfl, htext, hrest⟩
        exact ⟨_, ⟨rfl, htext⟩, by omega, hrest⟩
    | _ => cases hn

/-- A literal segment by itself matches the texts that are the same as its own, up to case where case does not matter. -/
theorem literal_segment_matches (h : s.isLiteral = true) :
    Matches (!o.caseSensitive) x (Expression.segments o [s]) 0 x.length ↔ List.Forall₂ o.Same s.literalText x := by
  have hseq : Matches (!o.caseSensitive) x (Expression.segments o [s]) 0 x.length ↔
      Matches (!o.caseSensitive) x (Expression.nodes o .componentStart s.nodes) 0 x.length := by
    rw [Expression.segments_plain (recursive_of_isLiteral h)]
    exact ⟨fun ⟨_, hnodes, hend⟩ => hend ▸ hnodes, fun hnodes => ⟨_, hnodes, rfl⟩⟩
  rw [hseq, literal_nodes_match h, stands_iff, Nat.zero_add, List.drop_zero]
  constructor
  · rintro ⟨hlength, w, hw, hdrop⟩
    have hend : x.drop (0 + w.length) = [] := by
      rw [Nat.zero_add, ← hw.length_eq]
      exact List.drop_eq_nil_of_le (Nat.le_of_eq hlength)
    rw [hend, List.append_nil] at hdrop
    rw [hdrop]
    exact hw
  · intro hx
    refine ⟨hx.length_eq.symm, x, hx, ?_⟩
    rw [Nat.zero_add, List.drop_length, List.append_nil]

theorem literal_folds {ns : List Node} (h : ns.all Node.isLiteral = true) : NodesFold false ns := by
  induction ns with
  | nil => trivial
  | cons n ns ih =>
    obtain ⟨hn, hns⟩ := Bool.and_eq_true_iff.1 h
    cases n with
    | literal text span => exact ⟨fun hin => Bool.noConfusion hin, ih hns⟩
    | _ => cases hn

/-! ## Names -/

variable {q : Text} {tree : Pattern} {c c' : Cache}

/-- A pattern without separators and wildcards is one literal segment. -/
theorem single_of_name (hparse : Pattern.parse q = .ok tree) (hslash : Mark.slash ∉ q) (hwild : wildcards q = false) :
    ∃ s, tree.segments = [s] ∧ s.isLiteral = true ∧ unescape? q = some s.literalText := by
  have hliteral : tree.isLiteral = true := by rw [parse_isLiteral hparse, hwild]; rfl
  have htext := parse_literalText hparse hliteral
  obtain ⟨s, rest, hsegments⟩ := List.exists_cons_of_ne_nil (parse_wellFormed hparse).nonempty
  rw [Pattern.literalText, hsegments, List.map_cons] at htext
  rw [Pattern.isLiteral, hsegments, List.all_cons, Bool.and_eq_true] at hliteral
  cases rest with
  | nil => exact ⟨s, hsegments, hliteral.1, by rw [htext, List.map_nil, Text.join_singleton]⟩
  | cons s' rest =>
    refine absurd (Text.mem_of_mem_unescape? htext ?_) hslash
    rw [Text.join_cons_of_ne_nil _ (by simp)]
    simp

/-- The plan of one literal segment is one precise step. -/
theorem Plan.Made.single {steps : List Selector} (h : Plan.Made o q [s] steps) (hliteral : s.isLiteral = true) :
    steps = [⟨.precise, s.literalText, none, o⟩] := by
  cases h with
  | precise _ _ rest =>
    cases rest
    rfl
  | recursive hrec => cases (recursive_of_isLiteral hliteral).symm.trans hrec
  | wildcard _ hplain | tail _ hplain => cases hliteral.symm.trans hplain

/-- **Where case is ignored, a name is compared in two ways.**  The precise step of a pattern without separators and
wildcards admits the names that fold to the same text, and the matcher accepts those that are of the same classes,
character by character.  The step admits what the matcher accepts, unless there is a U+0130 or a U+0131; and it admits
nothing else, unless there is a code point that folds to several. -/
theorem caseless_name (hparse : Pattern.parse q = .ok tree) (hslash : Mark.slash ∉ q) (hwild : wildcards q = false)
    (hcase : o.caseSensitive = false) (hc : c.Reached) (hc' : c'.Reached) :
    ∃ step m, (plan c o q).1 = .ok [step] ∧ (c'.compile o q).1 = .ok m ∧ step.kind = .precise ∧
      unescape? q = some step.text ∧ ∀ name,
        (step.accepts name = true ↔ fold name = fold step.text) ∧
        (m.matcher.accepts name = true ↔ List.Forall₂ (fun a b => sameClass a b = true) step.text name) ∧
        ((∀ d ∈ step.text ++ name, d ≠ 0x130 ∧ d ≠ 0x131) → m.matcher.accepts name = true →
          step.accepts name = true) ∧
        ((∀ d ∈ step.text ++ name, expansions.lookup d = none) → step.accepts name = true →
          m.matcher.accepts name = true) := by
  obtain ⟨s, hsegments, hliteral, htext⟩ := single_of_name hparse hslash hwild
  obtain ⟨steps, hsteps, hmade⟩ := plan_made (c := c) (o := o) hparse hc.faithful
  have hwalked : Plan.walked [s] = [s] := rfl
  rw [hsegments, hwalked] at hmade
  rw [hmade.single hliteral] at hsteps
  have hm := ofPattern?_of_parse hparse o
  obtain ⟨v, _, hv, hvm, -⟩ := Cache.compile_ok hc'.faithful hm
  refine ⟨_, v, hsteps, by rw [hv], rfl, htext, fun name => ?_⟩
  have hstep : Selector.accepts ⟨.precise, s.literalText, none, o⟩ name = true ↔ fold name = fold s.literalText := by
    show (if o.caseSensitive = true then _ else fold name == fold s.literalText) = true ↔ _
    rw [hcase, if_neg Bool.false_ne_true, beq_iff_eq]
  have hsame : o.Same = fun a b => sameClass a b = true := by
    funext a b
    rw [Options.Same, hcase]
    exact if_neg Bool.false_ne_true
  have hfolds : tree.Folds := by
    intro s' hs'
    rw [hsegments, List.mem_singleton] at hs'
    exact hs' ▸ literal_folds hliteral
  have haccepts : v.matcher.accepts name = true ↔ List.Forall₂ (fun a b => sameClass a b = true) s.literalText name := by
    rw [hvm, accepts_iff_matches hparse (fun _ => hfolds) hm, hsegments, literal_segment_matches hliteral, hsame]
  refine ⟨hstep, haccepts, fun hplain h => ?_, fun hplain h => ?_⟩
  · obtain ⟨ht, hname⟩ := List.forall_mem_append.1 hplain
    exact hstep.2 (Text.fold_eq_of_sameClass (haccepts.1 h) ht hname).symm
  · obtain ⟨ht, hname⟩ := List.forall_mem_append.1 hplain
    exact haccepts.2 (Text.sameClass_of_fold_eq (hstep.1 h).symm ht hname)

/-- The pattern `Docs` and the name `dOCS`, which the step and the matcher both take. -/
theorem caseless_name_ascii :
    ∃ step m, (plan Cache.empty ⟨false, true, false⟩ (Text.of "Docs")).1 = .ok [step] ∧
      (Cache.empty.compile ⟨false, true, false⟩ (Text.of "Docs")).1 = .ok m ∧
      step.accepts (Text.of "dOCS") = true ∧ m.matcher.accepts (Text.of "dOCS") = true := by
  have hparse : Pattern.parse (Text.of "Docs") = .ok ⟨Text.of "Docs",
      [⟨[.literal (Text.of "Docs") ⟨0, 4⟩], ⟨0, 4⟩⟩]⟩ := rfl
  obtain ⟨step, m, hstep, hm, -, htext, hnames⟩ := caseless_name (o := ⟨false, true, false⟩) hparse (by decide) rfl rfl
    .empty .empty
  obtain ⟨hfold, -, -, haccepts⟩ := hnames (Text.of "dOCS")
  have hname : step.text = Text.of "Docs" := (Option.some.inj htext).symm
  rw [hname] at hfold haccepts
  have hadmits : step.accepts (Text.of "dOCS") = true := hfold.2 rfl
  exact ⟨step, m, hstep, hm, hadmits, haccepts (by decide) hadmits⟩

/-- The capital I with a dot is of one class with `i`, but the step for it turns `i` away; and the sharp s folds to two
letters, but the matcher for it takes only one. -/
theorem folding_differs :
    (∃ step m, (plan Cache.empty ⟨false, true, false⟩ [0x130]).1 = .ok [step] ∧
      (Cache.empty.compile ⟨false, true, false⟩ [0x130]).1 = .ok m ∧
      m.matcher.accepts [0x69] = true ∧ step.accepts [0x69] = false) ∧
    ∃ step m, (plan Cache.empty ⟨false, true, false⟩ [0xDF]).1 = .ok [step] ∧
      (Cache.empty.compile ⟨false, true, false⟩ [0xDF]).1 = .ok m ∧
      m.matcher.accepts (Text.of "ss") = false ∧ step.accepts (Text.of "ss") = true :=
  ⟨⟨_, _, rfl, rfl, rfl, rfl⟩, ⟨_, _, rfl, rfl, rfl, rfl⟩⟩

end Glob
