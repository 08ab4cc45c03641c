import Glob.Proofs.Compiling
import Glob.Proofs.Pattern.Condensing
import Glob.Proofs.Pattern.Pieces
/-!
# What a matcher accepts

A matcher runs the expression that it reads from source text, or compares with one text.  `ofPattern?_derives` puts the
parts together: for a pattern that has a tree there is a matcher, and it accepts what the tree can be read along, apart
from the empty candidate below the root.

Where case is ignored, the tree has to fold (`Pattern.Folds`): the expression is run as it is, and members of a set
beyond U+FFFF do not stand for their case classes.
-/
namespace Glob

open Regex (Matches)

variable {o : Options} {p : Pattern} {x : Text}

theorem Pattern.WellFormed.ready (h : p.WellFormed) (hfolds : o.caseSensitive = false → p.Folds)
    (hdots : o.literalLeadingDot = true → o.literalSeparator = true) : Expression.Ready o p.segments :=
  ⟨h.segments, h.separate, hfolds, hdots⟩

theorem matches_regex {j : Nat} :
    Matches (!o.caseSensitive) x (p.regex o) 0 j ↔
      j = x.length ∧ Matches (!o.caseSensitive) x (Expression.segments o p.segments) 0 x.length := by
  simp only [Pattern.regex, Matches]
  constructor
  · rintro ⟨_, ⟨rfl, _⟩, _, hsegments, rfl, rfl⟩
    exact ⟨rfl, hsegments⟩
  · rintro ⟨rfl, hsegments⟩
    exact ⟨0, ⟨rfl, trivial⟩, x.length, hsegments, rfl, rfl⟩

/-- **The expression that is read from a tree's source text accepts what the tree can be read along.** -/
theorem regex_accepts (hwf : p.WellFormed) (hfolds : o.caseSensitive = false → p.Folds)
    (hdots : o.literalLeadingDot = true → o.literalSeparator = true) :
    (p.regex o).reread.accepts (!o.caseSensitive) x = true ↔ p.Derives o x ∧ ¬ (p.BelowRoot ∧ x = []) := by
  have hread := p.regex_readable o hwf.writable
  rw [Regex.accepts_reread hread fun hcase => p.regex_folds o (hfolds (by simpa using hcase)).condensable]
  simp only [matches_regex, exists_eq_left]
  have hready := hwf.ready hfolds hdots
  obtain ⟨s, rest, hsegments⟩ := List.exists_cons_of_ne_nil hwf.nonempty
  have hroot : p.BelowRoot ↔ s.nodes = [] ∧ Expression.Sole rest := by
    unfold Pattern.BelowRoot Expression.Sole
    rw [hsegments]
    constructor
    · rintro ⟨root, last, heq, hnil, hrec⟩
      obtain ⟨rfl, rfl⟩ := List.cons.inj heq
      exact ⟨hnil, last, rfl, hrec⟩
    · rintro ⟨hnil, last, rfl, hrec⟩
      exact ⟨s, last, rfl, hnil, hrec⟩
  have hderives : p.Derives o x ↔ Expression.PickedJoined o x (s :: rest) 0 := by
    rw [← hsegments]
    rfl
  rw [hsegments] at hready ⊢
  rw [Expression.segments_match hready, hroot, hderives, and_assoc]

theorem not_belowRoot_of_isLiteral (h : p.isLiteral = true) : ¬ p.BelowRoot := by
  rintro ⟨root, last, hsegments, _, hrec⟩
  have hliteral := List.all_eq_true.1 h last (by simp [hsegments])
  rw [recursive_of_isLiteral hliteral] at hrec
  cases hrec

/-- **For a pattern with a tree there is a matcher, and it accepts what the tree can be read along.** -/
theorem ofPattern?_derives {text : Text} {tree : Pattern} (hparse : Pattern.parse text = .ok tree)
    (hfolds : o.caseSensitive = false → tree.Folds)
    (hdots : o.literalLeadingDot = true → o.literalSeparator = true) :
    ∃ m, Matcher.ofPattern? o text = .ok m ∧
      ∀ x, m.accepts x = true ↔ tree.Derives o x ∧ ¬ (tree.BelowRoot ∧ x = []) := by
  have hwf := parse_wellFormed hparse
  refine ⟨_, ofPattern?_of_parse hparse o, fun x => ?_⟩
  unfold Matcher.accepts
  by_cases hliteral : tree.isLiteral = true ∧ o.caseSensitive = true
  · have hshort : (tree.isLiteral && o.caseSensitive) = true := Bool.and_eq_true_iff.2 hliteral
    simp only [hshort, if_true, beq_iff_eq, derives_literal hliteral.2 hliteral.1,
      not_belowRoot_of_isLiteral hliteral.1, false_and, not_false_eq_true, and_true]
  · have hlong : (tree.isLiteral && o.caseSensitive) = false :=
      Bool.eq_false_iff.2 fun h => hliteral (Bool.and_eq_true_iff.1 h)
    simp only [hlong, Bool.false_eq_true, if_false]
    exact regex_accepts hwf hfolds hdots

/-! ## Without a rule for dots -/

/-- **Without a rule for dots, a matcher accepts the texts of its pattern.** -/
theorem matcher_denotes {text : Text} {tree : Pattern} (hparse : Pattern.parse text = .ok tree)
    (hdot : o.literalLeadingDot = false) (hfolds : o.caseSensitive = false → tree.Folds) :
    ∃ m, Matcher.ofPattern? o text = .ok m ∧
      ∀ x, m.accepts x = true ↔ tree.Denotes o x ∧ ¬ (tree.BelowRoot ∧ x = []) := by
  obtain ⟨m, hm, haccepts⟩ := ofPattern?_derives (o := o) hparse hfolds (by simp [hdot])
  refine ⟨m, hm, fun x => ?_⟩
  rw [haccepts, derives_iff_denotes hdot]

/-- The pattern `**/{a,[b-d]}`, where case is ignored. -/
theorem matcher_denotes_folding :
    ∃ tree m, Pattern.parse (Text.of "**/\x7ba,[b-d]\x7d") = .ok tree ∧
      Matcher.ofPattern? ⟨false, true, false⟩ (Text.of "**/\x7ba,[b-d]\x7d") = .ok m ∧
      ∀ x, m.accepts x = true ↔ tree.Denotes ⟨false, true, false⟩ x ∧ ¬ (tree.BelowRoot ∧ x = []) := by
  have hparse : Pattern.parse (Text.of "**/\x7ba,[b-d]\x7d") = .ok ⟨Text.of "**/\x7ba,[b-d]\x7d",
      [⟨[.doubleStar ⟨0, 2⟩], ⟨0, 2⟩⟩,
        ⟨[.alternation [[.literal [0x61] ⟨4, 5⟩], [.set false [(0x62, 0x64)] ⟨6, 11⟩]] ⟨3, 12⟩], ⟨3, 12⟩⟩]⟩ := rfl
  have hletter : Regex.Whole (0x61, 0x61) := by decide
  have hrange : Regex.Whole (0x62, 0x64) := by decide
  obtain ⟨m, hm, haccepts⟩ := matcher_denotes (o := ⟨false, true, false⟩) hparse rfl fun _ => by
    simp [Pattern.Folds, NodesFold, Node.Folds, BranchesFold, hletter, hrange]
  exact ⟨_, m, hparse, hm, haccepts⟩

/-- The pattern `{𐐀,x}` denotes `𐐀`, but it is run as a set of two characters, in which a capital letter beyond U+FFFF
stands for nothing. -/
theorem denoted_capital_rejected :
    ∃ tree m, Pattern.parse [Mark.openBrace, 0x10400, Mark.comma, 0x78, Mark.closeBrace] = .ok tree ∧
      Matcher.ofPattern? ⟨false, true, false⟩ [Mark.openBrace, 0x10400, Mark.comma, 0x78, Mark.closeBrace] = .ok m ∧
      tree.Denotes ⟨false, true, false⟩ [0x10400] ∧ m.accepts [0x10400] = false := by
  have hsame : Options.Same ⟨false, true, false⟩ 0x10400 0x10400 := by
    rw [Options.Same]
    decide
  refine ⟨_, _, rfl, rfl, ⟨[[0x10400]], ?_, rfl⟩, rfl⟩
  exact ⟨_, [], rfl, ⟨_, [], rfl, .inl ⟨_, [], rfl, .cons hsame .nil, rfl⟩, rfl⟩, rfl⟩

/-! ## Under the rule for dots -/

/-- **Under the rule for dots, a matcher accepts what its pattern can be read along**: the guards refuse a dot at the
start of a component wherever a wildcard, a class or a `**` would take it, and nowhere else. -/
theorem matcher_derives {text : Text} {tree : Pattern} (hparse : Pattern.parse text = .ok tree)
    (hsep : o.literalSeparator = true) (hfolds : o.caseSensitive = false → tree.Folds) :
    ∃ m, Matcher.ofPattern? o text = .ok m ∧
      ∀ x, m.accepts x = true ↔ tree.Derives o x ∧ ¬ (tree.BelowRoot ∧ x = []) := by
  have hdots : o.literalLeadingDot = true → o.literalSeparator = true := fun _ => hsep
  exact ofPattern?_derives hparse hfolds hdots

/-- The pattern `{a/,}*`, where case is ignored. -/
theorem matcher_derives_folding :
    ∃ tree m, Pattern.parse (Text.of "\x7ba/,\x7d*") = .ok tree ∧
      Matcher.ofPattern? ⟨false, true, true⟩ (Text.of "\x7ba/,\x7d*") = .ok m ∧
      ∀ x, m.accepts x = true ↔ tree.Derives ⟨false, true, true⟩ x ∧ ¬ (tree.BelowRoot ∧ x = []) := by
  have hparse : Pattern.parse (Text.of "\x7ba/,\x7d*") = .ok ⟨Text.of "\x7ba/,\x7d*",
      [⟨[.alternation [[.literal [0x61, 0x2F] ⟨1, 3⟩], []] ⟨0, 5⟩, .star ⟨5, 6⟩], ⟨0, 6⟩⟩]⟩ := rfl
  have hletter : Regex.Whole (0x61, 0x61) := by decide
  have hslash : Regex.Whole (0x2F, 0x2F) := by decide
  obtain ⟨m, hm, haccepts⟩ := matcher_derives (o := ⟨false, true, true⟩) hparse rfl fun _ => by
    simp [Pattern.Folds, NodesFold, Node.Folds, BranchesFold, hletter, hslash]
  exact ⟨_, m, hparse, hm, haccepts⟩

/-- The pattern `[𐐀x]` can be read along `𐐀`, but a capital letter beyond U+FFFF stands for nothing among the members of
a class. -/
theorem derived_capital_rejected :
    ∃ tree m, Pattern.parse [Mark.openBracket, 0x10400, 0x78, Mark.closeBracket] = .ok tree ∧
      Matcher.ofPattern? ⟨false, true, true⟩ [Mark.openBracket, 0x10400, 0x78, Mark.closeBracket] = .ok m ∧
      tree.Derives ⟨false, true, true⟩ [0x10400] ∧ m.accepts [0x10400] = false := by
  have hsame : Options.Same ⟨false, true, true⟩ 0x10400 0x10400 := by
    rw [Options.Same]
    decide
  have hguard : Options.Guarded ⟨false, true, true⟩ [0x10400] 0 := fun _ _ => by decide
  have hclass : Options.InClass ⟨false, true, true⟩ false [(0x10400, 0x10400), (0x78, 0x78)] 0x10400 := by
    refine ⟨fun _ => by decide, fun _ => rfl, fun _ => ?_⟩
    exact ⟨_, List.mem_cons_self, 0x10400, ⟨Nat.le_refl _, Nat.le_refl _⟩, hsame⟩
  refine ⟨_, _, rfl, rfl, ⟨[[0x10400]], ?_, rfl⟩, rfl⟩
  exact ⟨_, [], rfl, ⟨1, ⟨hguard, rfl, _, rfl, hclass⟩, rfl⟩, rfl⟩

end Glob
