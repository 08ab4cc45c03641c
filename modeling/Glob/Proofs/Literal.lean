import Glob.Proofs.Matching
import Glob.Proofs.Pattern.Course
import Glob.Proofs.Text.Unescaped
/-!
# Literal patterns

A tree is literal if it has nothing but literals.  Two inductions over the course of a parse tie this to the text: no
node is ever lost that is no literal, so the tree is literal exactly if there is no unescaped wildcard in the text
(`parse_isLiteral`), and then the literals have the whole text without its escapes (`parse_literalText`).

A literal tree has the same expression under all options, and where case matters this expression accepts one text only
(`literal_accepts`).  A matcher that compares with this text instead of running the expression does the same.
-/
namespace Glob

open Regex (Matches)
open Text (wildcards unescape? unescape?_cons unescape?_escaped wildcards_cons)

namespace Parser

variable {k : Nat} {b : Builder} {t : Text} {segments : List Segment}

/-! ## Nodes and segments that are literal -/

theorem addLiteral_isLiteral (ns : List Node) (text : Text) (span : Span) :
    (addLiteral ns text span).all Node.isLiteral = ns.all Node.isLiteral := by
  unfold addLiteral
  split <;> rfl

theorem addLiteral_text (ns : List Node) (text : Text) (span : Span) :
    (addLiteral ns text span).reverse.flatMap Node.literalText = ns.reverse.flatMap Node.literalText ++ text := by
  unfold addLiteral
  split
  · simp [Node.literalText]
  · simp [Node.literalText]

theorem demote_isLiteral (n : Node) : (demote n).all Node.isLiteral = n.isLiteral := by
  cases n with
  | literal text span => rfl
  | _ => rfl

theorem demoteDoubleStars_isLiteral (ns : List Node) :
    (demoteDoubleStars ns).all Node.isLiteral = ns.all Node.isLiteral := by
  match ns with
  | [] | [_] => rfl
  | n :: m :: ns => simp only [demoteDoubleStars, List.all_flatMap, demote_isLiteral]

theorem demoteDoubleStars_literal {ns : List Node} (h : ns.all Node.isLiteral = true) : demoteDoubleStars ns = ns := by
  refine demoteDoubleStars_eq_self fun n hn span heq => ?_
  have hliteral := List.all_eq_true.1 h n hn
  rw [heq] at hliteral
  cases hliteral

/-- A segment that is left out is recursive, as is the one before it. -/
theorem addSegment_isLiteral (ss : List Segment) (s : Segment) :
    (addSegment ss s).all Segment.isLiteral = (s.isLiteral && ss.all Segment.isLiteral) := by
  rcases addSegment_cases ss s with ⟨hadd, -⟩ | ⟨hadd, last, rest, rfl, hlast, -⟩
  · rw [hadd, List.all_cons]
  · have hplain : last.isLiteral = false := Bool.eq_false_iff.2 fun h => by
      rw [recursive_of_isLiteral h] at hlast
      cases hlast
    simp [hadd, hplain]

namespace Builder

def isLiteral (b : Builder) : Bool :=
  b.braces.isEmpty && b.segments.all Segment.isLiteral && b.nodes.all Node.isLiteral

/-- The text of the literals that the builder holds, with a separator behind every complete segment. -/
def text (b : Builder) : Text :=
  b.segments.reverse.flatMap (·.literalText ++ [Mark.slash]) ++ b.nodes.reverse.flatMap Node.literalText

theorem takeText_isLiteral (b : Builder) (text : Text) (span : Span) :
    (b.takeText text span).isLiteral = b.isLiteral := by
  simp [isLiteral, takeText, begun, addLiteral_isLiteral]

theorem takeText_text (b : Builder) (text : Text) (span : Span) : (b.takeText text span).text = b.text ++ text := by
  simp [Builder.text, takeText, begun, addLiteral_text]

theorem closeSegment_isLiteral (hb : b.braces = []) (stop : Int) :
    (b.closeSegment stop).all Segment.isLiteral = b.isLiteral := by
  rw [closeSegment, addSegment_isLiteral, Segment.isLiteral, demoteDoubleStars_isLiteral, isLiteral, hb,
    List.all_reverse, Bool.and_comm]
  rfl

/-- A literal segment is complete as it is, and none is left out. -/
theorem closeSegment_literal (h : b.isLiteral = true) (stop : Int) :
    b.closeSegment stop = ⟨b.nodes.reverse, ⟨b.segmentStart.getD stop, stop⟩⟩ :: b.segments := by
  have hnodes : b.nodes.reverse.all Node.isLiteral = true := by
    rw [List.all_reverse]
    exact (Bool.and_eq_true_iff.1 h).2
  have hplain : Segment.isRecursive ⟨b.nodes.reverse, ⟨b.segmentStart.getD stop, stop⟩⟩ = false :=
    recursive_of_isLiteral hnodes
  rw [closeSegment, demoteDoubleStars_literal hnodes]
  exact addSegment_separate fun last _ hboth => Bool.eq_false_iff.1 hplain hboth.2

end Builder

/-! ## The course of a parse -/

/-- **What is literal stays so up to the first unescaped wildcard**, and what is not literal is never lost. -/
theorem Course.isLiteral (h : Course k b t segments) :
    segments.all Segment.isLiteral = (b.isLiteral && !wildcards t) := by
  -- behind every mark the builder holds a node that is no literal, or an open brace
  induction h with
  | @ends k b hb =>
    rw [List.all_reverse, Builder.closeSegment_isLiteral (b := b.begun k) hb]
    exact (Bool.and_true _).symm
  | text hc _ ih => rw [ih, Builder.takeText_isLiteral, wildcards_cons hc.not_mark]
  | escaped _ ih =>
    rw [ih, Builder.takeText_isLiteral]
    rfl
  | star _ _ ih | question _ ih => simp [ih, wildcards, Builder.isLiteral, Builder.takeNode, Builder.push, Node.isLiteral]
  | @stars k b t segments _ ih =>
    have hstars : (b.takeStars k).isLiteral = false := by
      unfold Builder.takeStars
      split <;> simp [Builder.isLiteral, Builder.takeNode, Builder.push, Node.isLiteral, Node.twoStars]
    simp [ih, hstars, wildcards]
  | set _ _ _ ih => simp [ih, wildcards, Builder.isLiteral, Builder.withClass, Node.isLiteral]
  | openBrace _ ih => simp [ih, wildcards, Builder.isLiteral]
  | comma hb _ ih => simp [ih, Builder.isLiteral, hb]
  | closeBrace hb _ ih => simp [ih, Builder.isLiteral, hb, Node.isLiteral]
  | @separator k b t segments hb _ ih =>
    have hclosed : ((b.begun k).closeSegment k).all Segment.isLiteral = b.isLiteral :=
      Builder.closeSegment_isLiteral (b := b.begun k) hb k
    rw [ih, wildcards_cons (by decide)]
    simp [Builder.isLiteral, hb, hclosed]

/-- **Literals have the text without its escapes.** -/
theorem Course.text_eq (h : Course k b t segments) (hb : b.isLiteral = true) (ht : wildcards t = false) :
    (b.text ++ ·) <$> unescape? t = some (Text.join [Mark.slash] (segments.map Segment.literalText)) := by
  induction h with
  | @ends k b _ =>
    rw [Builder.closeSegment_literal (b := b.begun k) hb, List.reverse_cons, List.map_append,
      Text.join_append _ (by simp)]
    simp [unescape?, Builder.text, Builder.begun, Segment.literalText, Text.join, List.flatMap_map, -List.map_reverse]
  | @text k b c t segments hc _ ih =>
    rw [wildcards_cons hc.not_mark] at ht
    rw [← ih (by rwa [Builder.takeText_isLiteral]) ht, unescape?_cons hc.ne_backslash, Builder.takeText_text]
    simp [Function.comp_def]
  | escaped _ ih =>
    rw [← ih (by rwa [Builder.takeText_isLiteral]) ht, unescape?_escaped, Builder.takeText_text]
    simp [Function.comp_def]
  | star | stars | question | set | openBrace => cases ht
  | comma hopen | closeBrace hopen => simp [Builder.isLiteral, hopen] at hb
  | @separator k b t segments hnone _ ih =>
    have hclosed := Builder.closeSegment_literal (b := b.begun k) hb k
    have hnext : Builder.isLiteral
        { b with segments := (b.begun k).closeSegment k, segmentStart := none, nodes := [] } = true := by
      rw [Builder.isLiteral, Builder.closeSegment_isLiteral (b := b.begun k) hnone k, hnone]
      exact (Bool.and_true _).trans hb
    rw [wildcards_cons (by decide)] at ht
    rw [← ih hnext ht, unescape?_cons (by decide)]
    simp only [Builder.text, hclosed]
    simp [Builder.begun, Segment.literalText, Function.comp_def]

end Parser

/-! ## Trees -/

variable {p : Text} {tree : Pattern} {o : Options}

/-- **A tree is literal exactly if its text has no unescaped wildcard.** -/
theorem parse_isLiteral (h : Pattern.parse p = .ok tree) : tree.isLiteral = !wildcards p :=
  (parse_course h).2.isLiteral

theorem parse_literalText (h : Pattern.parse p = .ok tree) (hliteral : tree.isLiteral = true) :
    unescape? p = some tree.literalText := by
  have hp : wildcards p = false := by simpa [parse_isLiteral h] using hliteral
  rw [Pattern.literalText, ← (parse_course h).2.text_eq rfl hp]
  exact (Option.map_id' (x := unescape? p)).symm

/-! ## The expression of a literal tree -/

namespace Expression

theorem nodes_literal {ns : List Node} (h : ns.all Node.isLiteral = true) (o o' : Options) (place place' : Place) :
    nodes o place ns = nodes o' place' ns := by
  induction ns generalizing place place' with
  | nil => rfl
  | cons n ns ih =>
    obtain ⟨hn, hns⟩ := Bool.and_eq_true_iff.1 h
    cases n with
    | literal text span => rw [nodes, nodes, node, node, ih hns]
    | _ => cases hn

theorem segmentsAfter_literal {ss : List Segment} (h : ss.all Segment.isLiteral = true) (o o' : Options)
    (separatorDue underRoot : Bool) :
    segmentsAfter o separatorDue underRoot ss = segmentsAfter o' separatorDue underRoot ss := by
  induction ss generalizing separatorDue underRoot with
  | nil => rfl
  | cons s ss ih =>
    obtain ⟨hs, hss⟩ := Bool.and_eq_true_iff.1 h
    have hplain := recursive_of_isLiteral hs
    rw [segmentsAfter_plain hplain, segmentsAfter_plain hplain, ih hss, segment, segment, nodes_literal hs o o']

theorem segments_literal {ss : List Segment} (h : ss.all Segment.isLiteral = true) (o o' : Options) :
    segments o ss = segments o' ss := by
  cases ss with
  | nil => rfl
  | cons s ss =>
    obtain ⟨hs, hss⟩ := Bool.and_eq_true_iff.1 h
    have hplain := recursive_of_isLiteral hs
    rw [segments_plain hplain, segments_plain hplain, segmentsAfter_literal hss o o', segment, segment,
      nodes_literal hs o o']

end Expression

/-- No option makes a difference to literals: none of them is guarded, and every separator is written. -/
theorem Pattern.regex_literal (h : tree.isLiteral = true) (o o' : Options) : tree.regex o = tree.regex o' := by
  rw [Pattern.regex, Pattern.regex, Expression.segments_literal h o o']

/-- **Where case matters, the expression of a literal tree accepts one text only**, under all options. -/
theorem literal_accepts (hwf : tree.WellFormed) (h : tree.isLiteral = true) (o : Options) (x : Text) :
    (tree.regex o).reread.accepts false x = true ↔ x = tree.literalText := by
  have hplain : (Options.mk true true false).literalLeadingDot = true →
      (Options.mk true true false).literalSeparator = true := fun _ => rfl
  have haccepts := regex_accepts (o := ⟨true, true, false⟩) (x := x) hwf nofun hplain
  rw [derives_literal rfl h, and_iff_left fun hroot => not_belowRoot_of_isLiteral h hroot.1] at haccepts
  rwa [Pattern.regex_literal h o ⟨true, true, false⟩]

/-! ## Matchers -/

/-- **A matcher accepts what its expression does**, also if it compares with a text instead. -/
theorem accepts_iff_reread (hparse : Pattern.parse p = .ok tree) {m : Matcher} (hm : Matcher.ofPattern? o p = .ok m)
    (x : Text) : m.accepts x = true ↔ (tree.regex o).reread.accepts (!o.caseSensitive) x = true := by
  rw [ofPattern?_of_parse hparse] at hm
  cases hm
  cases hshort : tree.isLiteral && o.caseSensitive with
  | true =>
    obtain ⟨hliteral, hcase⟩ := Bool.and_eq_true_iff.1 hshort
    rw [hcase]
    exact Iff.trans (by simp [Matcher.accepts]) (literal_accepts (parse_wellFormed hparse) hliteral o x).symm
  | false => simp [Matcher.accepts]

/-- Where the tree may be condensed, a matcher accepts what the expression of its segments matches as it stands. -/
theorem accepts_iff_of_condensable (hparse : Pattern.parse p = .ok tree)
    (hcondensable : o.caseSensitive = false → tree.Condensable) {m : Matcher} (hm : Matcher.ofPattern? o p = .ok m)
    (x : Text) :
    m.accepts x = true ↔ Matches (!o.caseSensitive) x (Expression.segments o tree.segments) 0 x.length := by
  rw [accepts_iff_reread hparse hm, Regex.accepts_reread (tree.regex_readable o (parse_wellFormed hparse).writable)
    fun hcase => tree.regex_folds o (hcondensable (by simpa using hcase))]
  simp only [matches_regex, exists_eq_left]

theorem accepts_iff_matches (hparse : Pattern.parse p = .ok tree) (hfolds : o.caseSensitive = false → tree.Folds)
    {m : Matcher} (hm : Matcher.ofPattern? o p = .ok m) (x : Text) :
    m.accepts x = true ↔ Matches (!o.caseSensitive) x (Expression.segments o tree.segments) 0 x.length :=
  accepts_iff_of_condensable hparse (fun hcase => (hfolds hcase).condensable) hm x

/-- **A matcher compares exactly if the pattern is literal and case matters, and it does what its expression does.**  A
pattern is literal if no `*`, `?`, `[` or `{` in it stands without a backslash.  The text to compare with is the pattern
without its escapes, and run where case matters the expression accepts this text and no other, under all options. -/
theorem matcher_literal (h : Pattern.parse p = .ok tree) (o : Options) :
    ∃ m, Matcher.ofPattern? o p = .ok m ∧ m.isLiteral = !wildcards p ∧
      m.literal = (if m.isLiteral && o.caseSensitive then unescape? p else none) ∧
      (m.isLiteral = true → unescape? p = some tree.literalText ∧
        (∀ x, m.regex.accepts false x = true ↔ x = tree.literalText) ∧
        (o.caseSensitive = true → ∀ x, m.accepts x = m.regex.accepts false x)) := by
  refine ⟨_, ofPattern?_of_parse h o, parse_isLiteral h, ?_, fun hliteral => ?_⟩
  · cases hliteral : tree.isLiteral with
    | false => rfl
    | true => rw [parse_literalText h hliteral]
  · have hregex := literal_accepts (parse_wellFormed h) hliteral o
    refine ⟨parse_literalText h hliteral, hregex, fun hcase x => ?_⟩
    rw [Bool.eq_iff_iff]
    refine Iff.trans ?_ (hregex x).symm
    simp [Matcher.accepts, show tree.isLiteral = true from hliteral, hcase]

/-- The pattern `a\*/,}]\\.` under the rules for separators and dots. -/
theorem matcher_literal_marks :
    ∃ m, Matcher.ofPattern? ⟨true, true, true⟩ (Text.of "a\\*/,\x7d]\\\\.") = .ok m ∧ m.isLiteral = true ∧
      m.literal = some (Text.of "a*/,\x7d]\\.") ∧
      ∀ x, m.accepts x = true ↔ x = Text.of "a*/,\x7d]\\." := by
  obtain ⟨m, hm, hliteral, htext, hall⟩ := matcher_literal (p := Text.of "a\\*/,\x7d]\\\\.") rfl ⟨true, true, true⟩
  obtain ⟨hunescape, hregex, hsame⟩ := hall hliteral
  refine ⟨m, hm, hliteral, ?_, fun x => ?_⟩
  · rw [htext, hliteral]
    rfl
  · rw [hsame rfl]
    exact hregex x

end Glob
