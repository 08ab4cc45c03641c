import Glob.Matcher
import Glob.Proofs.Pattern.Acceptance
import Glob.Proofs.Regex.ReadBack
/-!
# The source text of a tree is never refused

Reading back the source text that a tree is written as can fail in many ways: a mark without its backslash, a set that
does not end where it should, a repetition of nothing or of a repetition, a look behind without a width.  None of them
happens if the classes of the tree have members and no range of them is turned around (`Pattern.Writable.compiles`).
So for a pattern text there is a matcher, or the scanner or the parser has rejected it (`ofPattern?_made_or_rejected`).
-/
namespace Glob

/-- The source text of an expression is compiled, to the expression that comes back from it. -/
theorem compileSource_render {r : Regex} (h : r.Readable) (pattern : Text) :
    compileSource r.render pattern = .ok r.reread := by
  rw [compileSource, Regex.read_render h]
  exact if_pos (Regex.widthsBehind_reread h)

theorem Pattern.Writable.compiles {p : Pattern} (h : p.Writable) (o : Options) (pattern : Text) :
    compileSource (p.regexSource o) pattern = .ok (p.regex o).reread :=
  compileSource_render (p.regex_readable o h) pattern

/-! ## Pattern texts -/

/-- An error of the scanner or the parser. -/
def GlobError.OfSyntax (e : GlobError) : Prop := e.stage = .scanning ∨ e.stage = .parsing

theorem parse_ok_or_rejected (p : Text) :
    (∃ tree, Pattern.parse p = .ok tree) ∨ ∃ e, Pattern.parse p = .error (.rejected e) ∧ e.OfSyntax := by
  by_cases hp : Reading.EndsEscaping p
  · exact .inr ⟨_, parse_endsEscaping hp, .inl rfl⟩
  · have hparse := parse_unescaped hp
    split at hparse
    · split at hparse
      · exact .inr ⟨_, hparse, .inr rfl⟩
      · exact .inr ⟨_, hparse, .inr rfl⟩
    · split at hparse
      · exact .inr ⟨_, hparse, .inr rfl⟩
      · exact .inl hparse

/-- The matcher of a pattern text that has a tree. -/
theorem ofPattern?_of_parse {p : Text} {tree : Pattern} (h : Pattern.parse p = .ok tree) (o : Options) :
    Matcher.ofPattern? o p =
      .ok ⟨p, o, tree.regexSource o, (tree.regex o).reread, tree.isLiteral,
        if tree.isLiteral && o.caseSensitive then some tree.literalText else none⟩ := by
  have hcompiled := (parse_wellFormed h).writable.compiles o p
  rw [Matcher.ofPattern?, h]
  simp only [hcompiled]

theorem ofPattern?_made_or_rejected (o : Options) (p : Text) :
    (∃ m, Matcher.ofPattern? o p = .ok m) ∨ ∃ e, Matcher.ofPattern? o p = .error (.rejected e) ∧ e.OfSyntax := by
  rcases parse_ok_or_rejected p with ⟨tree, htree⟩ | ⟨e, he, hsyntax⟩
  · exact .inl ⟨_, ofPattern?_of_parse htree o⟩
  · refine .inr ⟨e, ?_, hsyntax⟩
    rw [Matcher.ofPattern?, he]

/-- **No tree is written as a source text that is refused**, however it was made, if its classes have members and no
range of them is turned around, as in the trees of pattern texts.  A pattern text has a matcher unless the scanner or
the parser rejects it. -/
theorem source_compiles :
    (∀ (tree : Pattern) (o : Options) (pattern : Text), tree.Writable →
      ∃ r, compileSource (tree.regexSource o) pattern = .ok r) ∧
    (∀ (p : Text) (tree : Pattern), Pattern.parse p = .ok tree → tree.Writable) ∧
    ∀ (o : Options) (p : Text),
      (∃ m, Matcher.ofPattern? o p = .ok m) ∨ ∃ e, Matcher.ofPattern? o p = .error (.rejected e) ∧ e.OfSyntax := by
  refine ⟨fun tree o pattern h => ?_, fun p tree h => ?_, ofPattern?_made_or_rejected⟩
  · exact ⟨_, h.compiles o pattern⟩
  · exact (parse_wellFormed h).writable

/-- A tree that no pattern text has, with a `**` among other nodes, a class of marks, and braces without branches. -/
theorem source_compiles_handmade :
    ∃ r, compileSource
      (Pattern.regexSource ⟨true, true, true⟩ ⟨[],
        [⟨[.literal (Text.of "+\\Z$") ⟨0, 0⟩, .doubleStar ⟨0, 0⟩,
          .set true [(Mark.closeBracket, Mark.closeBracket), (Mark.dash, Mark.caret)] ⟨0, 0⟩,
          .alternation [] ⟨0, 0⟩, .alternation [[], [.star ⟨0, 0⟩]] ⟨0, 0⟩, .star ⟨0, 0⟩], ⟨0, 0⟩⟩]⟩)
      [] = .ok r := by
  have hrange : Mark.dash ≤ Mark.caret := by decide
  refine source_compiles.1 _ _ _ fun s hs => ?_
  obtain rfl := List.mem_singleton.1 hs
  simp [NodesWritable, Node.Writable, BranchesWritable, hrange]

end Glob
