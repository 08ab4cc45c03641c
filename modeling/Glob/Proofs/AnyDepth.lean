import Glob.Proofs.Literal
import Glob.Proofs.Pattern.Behind
import Glob.Proofs.Pattern.Composition
import Glob.Proofs.Pattern.Slices
/-!
# Any depth

With `**/` in front, a pattern matches what it matches by itself, at any depth: behind whole components, none of which
begins with a dot where this has to be literal (`matcher_anyDepth`).

The text behind `**/` is read as it is by itself, but a `**` at its beginning is left out (`readAs_anyDepth`).  So there
are two cases.  A pattern that begins with another segment is matched behind what the new `**` takes, where it matches
what it does at the beginning, since its expression is local.  A pattern that begins with `**` is the same with a second
one, and what it takes may have more components in front.
-/
namespace Glob

open Regex (Matches)

/-! ## The pattern text -/

mutual

theorem Node.bare_shift (k : Int) : (n : Node) → (n.shift k).bare = n.bare
  | .literal _ _ | .anyChar _ | .star _ | .doubleStar _ | .set _ _ _ => rfl
  | .alternation bs _ => congrArg (Node.alternation · nowhere) (branchesBare_shift k bs)

theorem nodesBare_shift (k : Int) : (ns : List Node) → nodesBare (nodesShift k ns) = nodesBare ns
  | [] => rfl
  | n :: ns => congrArg₂ List.cons (n.bare_shift k) (nodesBare_shift k ns)

theorem branchesBare_shift (k : Int) : (bs : List (List Node)) → branchesBare (branchesShift k bs) = branchesBare bs
  | [] => rfl
  | b :: bs => congrArg₂ List.cons (nodesBare_shift k b) (branchesBare_shift k bs)

end

theorem Segment.bare_shift (k : Int) (s : Segment) : (s.shift k).bare = s.bare :=
  congrArg (Segment.mk · nowhere) (nodesBare_shift k s.nodes)

namespace Parser

theorem segmentsBehind_reverse (k : Int) (before ss : List Segment) :
    segmentsBehind k before ss.reverse = (ss.map (Segment.shift k)).foldl addSegment before := by
  rw [segmentsBehind, List.foldr_reverse, List.foldl_map]

/-- Nothing is left out of segments of which no two in a row are recursive. -/
theorem collapse_separate {s : Segment} {ss : List Segment} (h : (s :: ss).IsChain Segment.Separate) :
    collapse s.isRecursive ss = ss := by
  induction ss generalizing s with
  | nil => rfl
  | cons t ss ih =>
    obtain ⟨hst, hchain⟩ := List.isChain_cons_cons.1 h
    have hkept : (s.isRecursive && t.isRecursive) = false := by
      rw [Bool.and_eq_false_iff, ← Bool.not_eq_true, ← Bool.not_eq_true]
      exact Decidable.not_and_iff_or_not.1 hst
    rw [collapse, hkept, ih hchain]
    rfl

end Parser

def anyDepth : Segment := ⟨[.doubleStar ⟨0, 2⟩], ⟨0, 2⟩⟩

variable {o : Options} {p c d x : Text} {tree : Pattern}

/-- **Behind `**/` a pattern is read as it is by itself**, but for a `**` at its beginning. -/
theorem readAs_anyDepth (h : Pattern.parse p = .ok tree) :
    ReadAs (Text.of "**/" ++ p) (anyDepth :: Parser.collapse true tree.segments) := by
  obtain rfl : tree.source = p := parse_source h
  have hfront : Parser.resumeAt 0 (Parser.start (Text.of "**/" ++ tree.source)) (Text.of "**/" ++ tree.source) =
      Parser.resumeAt 3 (Parser.Builder.idle (Text.of "**/" ++ tree.source) [anyDepth]) tree.source :=
    (Parser.resume_stars rfl).trans (Parser.resume_separator rfl rfl)
  have hbehind := @Parser.resume_behind (Text.of "**/" ++ tree.source) [anyDepth] _ _ _ _ 3 Parser.start_begun
    (Parser.parse_eq_ok.1 h)
  refine ⟨_, Parser.parse_eq_ok.2 (hfront.trans hbehind), ?_⟩
  show (List.reverse _).map Segment.bare = _
  rw [Parser.segmentsBehind_reverse, Parser.foldl_addSegment, List.map_append, Parser.collapse_bare, List.map_map,
    List.map_cons, Parser.collapse_bare]
  simp only [Function.comp_def, Segment.bare_shift]
  rfl

/-! ## Components -/

/-- Components that a `**` may take, each with its separator. -/
def Options.Depth (o : Options) (d : Text) : Prop :=
  ∃ ws : List Text, (∀ w ∈ ws, o.Component w) ∧ d = ws.flatMap (· ++ [Mark.slash])

theorem Options.Depth.append {d' : Text} (h : o.Depth d) (h' : o.Depth d') : o.Depth (d ++ d') := by
  obtain ⟨ws, hws, rfl⟩ := h
  obtain ⟨ws', hws', rfl⟩ := h'
  exact ⟨ws ++ ws', List.forall_mem_append.2 ⟨hws, hws'⟩, List.flatMap_append.symm⟩

theorem flatMap_slash (ws : List Text) : ws.flatMap (· ++ [Mark.slash]) = Text.join [Mark.slash] (ws ++ [[]]) := by
  rw [Text.join_append ws (List.cons_ne_nil _ _), Text.join_singleton, List.append_nil]

/-- **What a `**` may take are whole components**, none of which begins with a dot where this has to be literal. -/
theorem Options.depth_iff :
    o.Depth d ↔ WholeComponents d ∧
      (o.literalLeadingDot = true → ∀ w ∈ Text.splitAt Mark.slash d, w.head? ≠ some Mark.dot) := by
  constructor
  · rintro ⟨ws, hws, rfl⟩
    refine ⟨?_, fun hdot => ?_⟩
    · rcases List.eq_nil_or_concat' ws with rfl | ⟨ws, w, rfl⟩
      · exact .inl rfl
      · right
        rw [List.flatMap_append, List.flatMap_singleton, ← List.append_assoc, List.getLast?_concat]
    · rw [flatMap_slash, Text.splitAt_join (by simp)]
      · exact List.forall_mem_append.2 ⟨fun w hw => (hws w hw).2 hdot, by simp⟩
      · exact List.forall_mem_append.2 ⟨fun w hw => (hws w hw).1, by simp⟩
  · rintro ⟨rfl | hlast, hdots⟩
    · exact ⟨[], by simp, rfl⟩
    · obtain ⟨u, rfl⟩ := List.getLast?_eq_some_iff.1 hlast
      have hsplit : Text.splitAt Mark.slash (u ++ [Mark.slash]) = Text.splitAt Mark.slash u ++ [[]] :=
        Text.splitAt_append_cons u []
      rw [hsplit] at hdots
      refine ⟨Text.splitAt Mark.slash u, fun w hw => ⟨Text.not_mem_of_mem_splitAt hw, fun hdot => ?_⟩, ?_⟩
      · exact hdots hdot w (List.mem_append_left _ hw)
      · rw [flatMap_slash, ← hsplit, Text.join_splitAt]

/-! ## Expressions -/

namespace Expression

variable {s : Segment} {rest : List Segment}

/-- What a recursive segment and those behind it match as they are run. -/
theorem recursive_ran (hrec : s.isRecursive = true) (hne : rest ≠ []) :
    Matches (!o.caseSensitive) c ((segments o (s :: rest)).ran (!o.caseSensitive)) 0 c.length ↔
      ∃ d x, c = d ++ x ∧ o.Depth d ∧
        Matches (!o.caseSensitive) x ((segmentsAfter o false false rest).ran (!o.caseSensitive)) 0 x.length := by
  have hfolds : (components o).Folds false := ⟨component_folds o, separator_folds false⟩
  have hlocal := (segmentsAfter_local o false false rest).ran (!o.caseSensitive)
  rw [segments_recursive hrec hne, Regex.matches_ran_seq]
  simp only [Regex.matches_ran_of_folds hfolds, components_match (Nat.zero_le _)]
  constructor
  · rintro ⟨k, ⟨ws, hws, hk, hc⟩, hmatch⟩
    generalize c.drop k = x at hc
    obtain rfl : c = ws.flatMap (· ++ [Mark.slash]) ++ x := hc
    have hdepth : o.Depth (ws.flatMap (· ++ [Mark.slash])) := ⟨ws, hws, rfl⟩
    rw [hk, offsetAfter, Nat.zero_add, List.length_append] at hmatch
    exact ⟨_, x, rfl, hdepth, (Regex.matches_append (o.depth_iff.1 hdepth).1 hlocal (Nat.zero_le _)).1 hmatch⟩
  · rintro ⟨d, x, rfl, hdepth, hmatch⟩
    have hwhole := (Options.depth_iff.1 hdepth).1
    obtain ⟨ws, hws, rfl⟩ := hdepth
    refine ⟨_, ⟨ws, hws, (Nat.zero_add _).symm, by simp⟩, ?_⟩
    rw [List.length_append]
    exact (Regex.matches_append hwhole hlocal (Nat.zero_le _)).2 hmatch

/-- A single recursive segment matches any components that it may take. -/
theorem sole_ran (hrec : s.isRecursive = true) :
    Matches (!o.caseSensitive) c ((segments o [s]).ran (!o.caseSensitive)) 0 c.length ↔
      ∃ ws, ws ≠ [] ∧ (∀ w ∈ ws, o.Component w) ∧ c = Text.join [Mark.slash] ws := by
  rw [segments_sole hrec, Regex.matches_ran_of_folds (anyPath_folds o), anyPath_matches (Nat.zero_le _)]
  rfl

/-- **What segments match that begin with a recursive one, they match behind more components as well.** -/
theorem recursive_absorbs (hrec : s.isRecursive = true) (hd : o.Depth d)
    (h : Matches (!o.caseSensitive) x ((segments o (s :: rest)).ran (!o.caseSensitive)) 0 x.length) :
    Matches (!o.caseSensitive) (d ++ x) ((segments o (s :: rest)).ran (!o.caseSensitive)) 0 (d ++ x).length := by
  by_cases hne : rest = []
  · subst hne
    obtain ⟨ws, hws, rfl⟩ := hd
    obtain ⟨ws', hne, hws', rfl⟩ := (sole_ran hrec).1 h
    refine (sole_ran hrec).2 ⟨ws ++ ws', by simp [hne], List.forall_mem_append.2 ⟨hws, hws'⟩, ?_⟩
    rw [Text.join_append ws hne]
  · obtain ⟨d', x, rfl, hd', hmatch⟩ := (recursive_ran hrec hne).1 h
    exact (recursive_ran hrec hne).2 ⟨d ++ d', x, (List.append_assoc _ _ _).symm, hd.append hd', hmatch⟩

/-- Below the root only a final `**` is different. -/
theorem segmentsAfter_underRoot {due underRoot : Bool} (h : underRoot = true → ¬ Sole rest) :
    segmentsAfter o due underRoot rest = segmentsAfter o due false rest := by
  cases underRoot with
  | false => rfl
  | true =>
    cases rest with
    | nil => rfl
    | cons s rest =>
      cases hrec : s.isRecursive with
      | false => rw [segmentsAfter_plain hrec, segmentsAfter_plain hrec]
      | true =>
        have hne : rest ≠ [] := by
          rintro rfl
          exact h rfl ⟨s, rfl, hrec⟩
        rw [segmentsAfter_recursive hrec hne, segmentsAfter_recursive hrec hne]

/-- Segments that do not begin with a recursive one match the same behind a `**` as by themselves. -/
theorem plain_ran (hrec : s.isRecursive = false) (hroot : ¬ (s.nodes = [] ∧ Sole rest)) {ignoreCase : Bool} {i j : Nat} :
    Matches ignoreCase x ((segmentsAfter o false false (s :: rest)).ran ignoreCase) i j ↔
      Matches ignoreCase x ((segments o (s :: rest)).ran ignoreCase) i j := by
  have hafter : segmentsAfter o true s.nodes.isEmpty rest = segmentsAfter o true false rest :=
    segmentsAfter_underRoot fun hempty hsole => hroot ⟨List.isEmpty_iff.1 hempty, hsole⟩
  rw [segmentsAfter_plain hrec, segments_plain hrec, hafter, if_neg Bool.false_ne_true, Regex.matches_ran_seq]
  simp only [Regex.matches_ran_of_folds (r := .empty) trivial, Matches, exists_eq_left]

/-- **The segments of a pattern with a `**` in front match at any depth.** -/
theorem anyDepth_ran (hwf : tree.WellFormed) (hroot : ¬ tree.BelowRoot) :
    Matches (!o.caseSensitive) c ((segments o (anyDepth :: Parser.collapse true tree.segments)).ran (!o.caseSensitive)) 0
        c.length ↔
      ∃ d x, c = d ++ x ∧ o.Depth d ∧
        Matches (!o.caseSensitive) x ((segments o tree.segments).ran (!o.caseSensitive)) 0 x.length := by
  obtain ⟨s, rest, hsegments⟩ := List.exists_cons_of_ne_nil hwf.nonempty
  have hchain := hwf.separate
  rw [hsegments] at hchain ⊢
  have hcollapse := Parser.collapse_separate hchain
  cases hrec : s.isRecursive with
  | true =>
    rw [hrec] at hcollapse
    have hfront : segments o (anyDepth :: Parser.collapse true (s :: rest)) = segments o (s :: rest) := by
      rw [Parser.collapse, hrec, Bool.and_self, if_pos rfl, hcollapse]
      cases rest with
      | nil => rw [segments_sole rfl, segments_sole hrec]
      | cons => rw [segments_recursive rfl (List.cons_ne_nil _ _), segments_recursive hrec (List.cons_ne_nil _ _)]
    rw [hfront]
    constructor
    · intro hmatch
      exact ⟨[], c, rfl, ⟨[], by simp, rfl⟩, hmatch⟩
    · rintro ⟨d, x, rfl, hd, hmatch⟩
      exact recursive_absorbs hrec hd hmatch
  | false =>
    have hplain : ¬ (s.nodes = [] ∧ Sole rest) := by
      rintro ⟨hempty, last, rfl, hlast⟩
      exact hroot ⟨s, last, hsegments, hempty, hlast⟩
    rw [hrec] at hcollapse
    rw [Parser.collapse_cons_plain hrec, hcollapse, recursive_ran rfl (List.cons_ne_nil _ _)]
    simp only [plain_ran hrec hplain]

end Expression

/-! ## Matchers -/

/-- A matcher accepts what the expression of its segments matches as it is run. -/
theorem accepts_iff_ran (hparse : Pattern.parse p = .ok tree) {m : Matcher} (hm : Matcher.ofPattern? o p = .ok m) :
    m.accepts x = true ↔
      Matches (!o.caseSensitive) x ((Expression.segments o tree.segments).ran (!o.caseSensitive)) 0 x.length := by
  have hread := tree.regex_readable o (parse_wellFormed hparse).writable
  rw [accepts_iff_reread hparse hm, Regex.accepts_reread_iff hread, Pattern.regex]
  simp only [Regex.matches_ran_seq, Regex.matches_ran_of_folds (r := .start) trivial,
    Regex.matches_ran_of_folds (r := .stop) trivial, Matches]
  constructor
  · rintro ⟨_, _, ⟨rfl, -⟩, _, hmatch, rfl, rfl⟩
    exact hmatch
  · intro hmatch
    exact ⟨_, 0, ⟨rfl, trivial⟩, _, hmatch, rfl, rfl⟩

/-- **A pattern with `**/` in front matches at any depth.**  Unless its segments are those of `/**`, which refuses
the empty candidate, the matcher with `**/` accepts exactly those candidates that end with one which the other matcher accepts,
behind nothing or a text that ends with a separator; where a leading dot has to be literal, no component of this text
begins with one. -/
theorem matcher_anyDepth (h : Pattern.parse p = .ok tree) (hroot : ¬ tree.BelowRoot) (o : Options) :
    ∃ m m', Matcher.ofPattern? o p = .ok m ∧ Matcher.ofPattern? o (Text.of "**/" ++ p) = .ok m' ∧
      ∀ c, m'.accepts c = true ↔ ∃ d x, c = d ++ x ∧ (d = [] ∨ d.getLast? = some Mark.slash) ∧ m.accepts x = true ∧
        (o.literalLeadingDot = true → ∀ w ∈ Text.splitAt Mark.slash d, w.head? ≠ some Mark.dot) := by
  obtain ⟨tree', hparse', hsame⟩ := readAs_anyDepth h
  obtain ⟨m, hm⟩ : ∃ m, Matcher.ofPattern? o p = .ok m := ⟨_, ofPattern?_of_parse h o⟩
  obtain ⟨m', hm'⟩ : ∃ m', Matcher.ofPattern? o (Text.of "**/" ++ p) = .ok m' := ⟨_, ofPattern?_of_parse hparse' o⟩
  refine ⟨m, m', hm, hm', fun c => ?_⟩
  rw [accepts_iff_ran hparse' hm', ← Expression.segments_bare, hsame, Expression.segments_bare,
    Expression.anyDepth_ran (parse_wellFormed h) hroot]
  refine exists_congr fun d => exists_congr fun x => and_congr_right fun _ => ?_
  rw [Options.depth_iff, accepts_iff_ran h hm, and_right_comm, ← and_assoc, WholeComponents]

/-- The pattern `/**/[!b]` begins with an empty segment, and has more than a `**` behind it. -/
theorem matcher_anyDepth_root :
    ∃ m m', Matcher.ofPattern? ⟨false, false, true⟩ (Text.of "/**/[!b]") = .ok m ∧
      Matcher.ofPattern? ⟨false, false, true⟩ (Text.of "**//**/[!b]") = .ok m' ∧
      ∀ c, m'.accepts c = true ↔ ∃ d x, c = d ++ x ∧ (d = [] ∨ d.getLast? = some Mark.slash) ∧ m.accepts x = true ∧
        ∀ w ∈ Text.splitAt Mark.slash d, w.head? ≠ some Mark.dot := by
  have hparse : Pattern.parse (Text.of "/**/[!b]") = .ok ⟨Text.of "/**/[!b]", [⟨[], ⟨0, 0⟩⟩,
      ⟨[.doubleStar ⟨1, 3⟩], ⟨1, 3⟩⟩, ⟨[.set true [(0x62, 0x62)] ⟨4, 8⟩], ⟨4, 8⟩⟩]⟩ := rfl
  obtain ⟨m, m', hm, hm', haccepts⟩ := matcher_anyDepth hparse (by simp [Pattern.BelowRoot]) ⟨false, false, true⟩
  exact ⟨m, m', hm, hm', fun c => by simpa using haccepts c⟩

end Glob
