import Glob.Proofs.Pattern.Acceptance
import Glob.Proofs.Pattern.Rejoining
import Glob.Proofs.Pattern.Shifting
/-!
# Patterns are made of segments

Between two separators outside classes and braces stands a text that is a pattern by itself, of one segment, and any
such texts with separators between are a pattern.  The segments are the same each time but for their place in the
pattern: `placedAt` puts them there.  Apart from that only `collapse` makes a difference, which leaves out a `**` behind
another.

What carries this is that a separator finds the scanner and the builder as they are at the start (`resume_slash`).
-/
namespace Glob

namespace Parser

open Builder (idle)
open Reading (members behindNegation separatedFrom)
open Scanner (State meaning)

/-- The segments of texts that are joined, the first text at offset `k`. -/
def placedAt : Nat → List (Text × Segment) → List Segment
  | _, [] => []
  | k, (q, s) :: qs => s.shift k :: placedAt (k + q.length + 1) qs

variable {k : Nat} {source p q t w : Text} {b : Builder} {s : Segment} {segments before : List Segment}
  {qs : List (Text × Segment)}

/-! ## One text -/

theorem start_begun : Scanner.start.Begun := by
  rintro m ⟨⟩

/-- **A text is read further on as it is by itself.** -/
theorem resume_alone (h : Pattern.parse q = .ok ⟨q, [s]⟩) :
    resumeAt k (idle source before) q = .ok (.ok (addSegment before (s.shift k)).reverse) := by
  show resume (Scanner.start.shift k) ((start q).behind k source before) q = _
  exact resume_behind start_begun (parse_eq_ok.1 h)

/-- **Behind a separator a pattern is read from the start**, whatever segments come before it. -/
theorem resume_slash (h : resumeAt k (idle source before) w = .ok (.ok segments)) :
    resumeAt k (idle source before) (w ++ Mark.slash :: t) =
      resumeAt (k + w.length + 1) (idle source segments.reverse) t := by
  induction hn : w.length using Nat.strongRecOn generalizing k before w with
  | _ n ih =>
  subst hn
  obtain ⟨first, nodes, hreads, hw⟩ := exists_reads (by rfl) h
  obtain ⟨nodes', -, hend, hmore⟩ := hreads _ _ k rfl rfl (idle_begins source before k)
  rcases hw with rfl | ⟨w', rfl⟩
  · obtain rfl := Except.ok.inj (Except.ok.inj (h.symm.trans hend))
    rw [List.reverse_reverse]
    exact hmore t
  · have hshorter : w'.length < (first ++ Mark.slash :: w').length := by
      rw [List.length_append, List.length_cons]
      omega
    have hrest := ih _ hshorter ((hmore w').symm.trans h) rfl
    rw [List.append_assoc, List.cons_append]
    refine (hmore _).trans (hrest.trans ?_)
    congr 1
    simp only [List.length_append, List.length_cons]
    omega

/-! ## Several texts -/

theorem resume_texts (hne : qs ≠ []) (h : ∀ q ∈ qs, Pattern.parse q.1 = .ok ⟨q.1, [q.2]⟩) :
    resumeAt k (idle source before) (Text.join [Mark.slash] (qs.map Prod.fst)) =
      .ok (.ok ((placedAt k qs).foldl addSegment before).reverse) := by
  induction qs generalizing k before with
  | nil => exact absurd rfl hne
  | cons q qs ih =>
    obtain ⟨hq, hqs⟩ := List.forall_mem_cons.1 h
    obtain ⟨q, s⟩ := q
    have halone : resumeAt k (idle source before) q = .ok (.ok (addSegment before (s.shift k)).reverse) :=
      resume_alone hq
    by_cases hlast : qs = []
    · subst hlast
      rw [List.map_singleton, Text.join_singleton]
      exact halone
    · rw [List.map_cons, Text.join_cons_of_ne_nil _ (mt List.map_eq_nil_iff.1 hlast), resume_slash halone,
        List.reverse_reverse]
      exact ih hlast hqs

theorem exists_texts (h : Pattern.parse p = .ok ⟨p, segments⟩) :
    ∃ qs : List (Text × Segment), qs ≠ [] ∧ p = Text.join [Mark.slash] (qs.map Prod.fst) ∧
      ∀ q ∈ qs, Pattern.parse q.1 = .ok ⟨q.1, [q.2]⟩ ∧ q.2.span = ⟨0, q.1.length⟩ := by
  obtain ⟨pieces, -, hne, rfl, -, -⟩ := parse_pieces h
  have halone : ∀ piece : Piece, ∃ s,
      Pattern.parse piece.text = .ok ⟨piece.text, [s]⟩ ∧ s.span = ⟨0, piece.text.length⟩ := by
    intro piece
    obtain ⟨nodes, -, hend, -⟩ :=
      piece.reads Scanner.start (start piece.text) 0 rfl rfl (idle_begins piece.text [] 0)
    exact ⟨_, parse_eq_ok.2 hend, by simp [Scanner.start]⟩
  choose alone hparse hspan using halone
  refine ⟨pieces.map fun piece => (piece.text, alone piece), by simpa using hne, ?_, ?_⟩
  · rw [List.map_map]
    rfl
  · intro q hq
    obtain ⟨piece, -, rfl⟩ := List.mem_map.1 hq
    exact ⟨hparse piece, hspan piece⟩

theorem exists_of_mem_placedAt (h : p.drop k = Text.join [Mark.slash] (qs.map Prod.fst)) (hs : s ∈ placedAt k qs) :
    ∃ q ∈ qs, ∃ (i : Nat) (t : Text), s = q.2.shift i ∧ p.drop i = q.1 ++ t := by
  induction qs generalizing k with
  | nil => cases hs
  | cons q qs ih =>
    rcases List.mem_cons.1 hs with rfl | hs
    · rw [List.map_cons, Text.join_cons] at h
      exact ⟨q, List.mem_cons_self, k, _, rfl, h⟩
    · have hne : qs ≠ [] := by
        rintro rfl
        cases hs
      have hrest : p.drop (k + q.1.length + 1) = Text.join [Mark.slash] (qs.map Prod.fst) := by
        rw [List.map_cons, Text.join_cons_of_ne_nil _ (mt List.map_eq_nil_iff.1 hne)] at h
        rw [Nat.add_assoc, ← List.drop_drop, h, ← List.drop_drop, List.drop_left]
        rfl
      obtain ⟨q', hq', hfound⟩ := ih hrest hs
      exact ⟨q', List.mem_cons_of_mem _ hq', hfound⟩

theorem mem_of_mem_collapse {r : Bool} (h : s ∈ collapse r segments) : s ∈ segments := by
  induction segments generalizing r with
  | nil => cases h
  | cons a segments ih =>
    rw [collapse] at h
    split at h
    · exact List.mem_cons_of_mem _ (ih h)
    · rcases List.mem_cons.1 h with rfl | h
      · exact List.mem_cons_self
      · exact List.mem_cons_of_mem _ (ih h)

/-! ## Without a separator -/

theorem separatedFrom_other {d : Nat} {c : CodePoint}
    (h : c ∉ [Mark.backslash, Mark.openBracket, Mark.openBrace, Mark.closeBrace, Mark.slash]) :
    separatedFrom p d (c :: t) = separatedFrom p d t := by
  simp only [List.mem_cons, List.not_mem_nil, or_false, not_or] at h
  obtain ⟨hback, hbracket, hopen, hclose, hslash⟩ := h
  rw [separatedFrom]
  all_goals assumption

theorem separatedFrom_plain {d : Nat} {c : CodePoint} (h : meaning d c = .plain) :
    separatedFrom p d (c :: t) = separatedFrom p d t := by
  by_cases hclose : c = Mark.closeBrace
  · subst hclose
    have hzero : d = 0 := by
      cases d with
      | zero => rfl
      | succ d => cases h
    subst hzero
    rw [separatedFrom]
  · refine separatedFrom_other fun hmem => ?_
    simp only [List.mem_cons, List.not_mem_nil, or_false, hclose, false_or] at hmem
    rcases hmem with rfl | rfl | rfl | rfl <;> cases h

/-- **Where no separator stands outside classes and braces, the segment at hand is the last one.** -/
theorem resume_unseparated {i : Int} (h : resumeAt k b t = .ok (.ok segments)) (hp : k + t.length = p.length)
    (hc : b.openClass = none) (hbefore : b.segments = before) (hstart : b.segmentStart.getD k = i)
    (hsep : separatedFrom p b.braces.length t = false) :
    ∃ s, segments = (addSegment before s).reverse ∧ s.span = ⟨i, p.length⟩ := by
  -- on what is left: an escape takes two characters, a class any number of them
  induction hn : t.length using Nat.strong_induction_on generalizing t k b with
  | _ n ih =>
  subst hn
  cases t with
  | nil =>
    rw [resume_nil hc] at h
    cases hb : b.braces with
    | nil =>
      rw [hb] at h
      obtain rfl := Except.ok.inj (Except.ok.inj h)
      refine ⟨_, by rw [← hbefore]; rfl, ?_⟩
      rw [← hstart, ← hp]
      rfl
    | cons brace outer =>
      rw [hb] at h
      cases Except.ok.inj h
  | cons c t =>
    have hnext : k + 1 + t.length = p.length := by rw [← hp, List.length_cons]; omega
    have hlt : t.length < (c :: t).length := Nat.lt_succ_self _
    by_cases hplain : meaning b.braces.length c = .plain
    · rw [resume_plain hc hplain] at h
      rw [separatedFrom_plain hplain] at hsep
      exact ih _ hlt h hnext hc hbefore hstart hsep rfl
    · have hmark := meaning_cases hplain
      simp only [List.mem_cons, List.not_mem_nil, or_false] at hmark
      rcases hmark with rfl | rfl | rfl | rfl | rfl | rfl | rfl | rfl
      · cases t with
        | nil => cases h
        | cons c t =>
          rw [resume_escaped hc] at h
          rw [separatedFrom] at hsep
          rw [List.length_cons] at hnext
          exact ih _ (Nat.lt_succ_of_lt (Nat.lt_succ_self _)) h (by omega) hc hbefore hstart hsep rfl
      · rw [separatedFrom_other (by decide)] at hsep
        by_cases htwo : t.head? = some Mark.star
        · obtain ⟨t, rfl⟩ : ∃ t', t = Mark.star :: t' := by
            cases t with
            | nil => cases htwo
            | cons c t => exact ⟨t, by rw [Option.some.inj htwo]⟩
          obtain ⟨hclass, hbraces, hsegments, hkept⟩ : (b.takeStars k).openClass = b.openClass ∧
              (b.takeStars k).braces = b.braces ∧ (b.takeStars k).segments = b.segments ∧
              (b.takeStars k).segmentStart = some (b.segmentStart.getD k) := by
            unfold Builder.takeStars
            split <;> exact ⟨rfl, rfl, rfl, rfl⟩
          rw [resume_stars hc] at h
          rw [separatedFrom_other (by decide), ← hbraces] at hsep
          rw [List.length_cons] at hnext
          exact ih _ (Nat.lt_succ_of_lt (Nat.lt_succ_self _)) h (by omega) (hclass.trans hc)
            (hsegments.trans hbefore) (by rw [hkept]; exact hstart) hsep rfl
        · rw [resume_star hc htwo] at h
          exact ih _ hlt h hnext hc hbefore hstart hsep rfl
      · rw [resume_question hc] at h
        rw [separatedFrom_other (by decide)] at hsep
        exact ih _ hlt h hnext hc hbefore hstart hsep rfl
      · have hclass := resume_class hp hc h
        have hshorter := Reading.members_length p true (behindNegation t)
        have hbehind := Reading.behindNegation_length t
        rw [separatedFrom] at hsep
        unfold ClassOutcome at hclass
        split at hclass
        · cases hclass
        · split at hclass
          · obtain ⟨k', cl, hk', -, -, hrest⟩ := hclass
            exact ih _ (by rw [List.length_cons]; omega) hrest hk' rfl hbefore hstart hsep rfl
          · cases hclass
      · rw [resume_openBrace hc] at h
        rw [separatedFrom] at hsep
        exact ih _ hlt h hnext hc hbefore hstart hsep rfl
      -- a comma or a closing brace has a meaning only where a brace is open
      · obtain ⟨brace, outer, hb⟩ := List.exists_cons_of_ne_nil fun hnone : b.braces = [] =>
          hplain (by rw [hnone]; rfl)
        rw [resume_comma hc hb] at h
        rw [separatedFrom_other (by decide), hb] at hsep
        exact ih _ hlt h hnext hc hbefore hstart hsep rfl
      · obtain ⟨brace, outer, hb⟩ := List.exists_cons_of_ne_nil fun hnone : b.braces = [] =>
          hplain (by rw [hnone]; rfl)
        rw [resume_closeBrace hc hb] at h
        rw [separatedFrom, hb] at hsep
        exact ih _ hlt h hnext hc hbefore hstart hsep rfl
      · rw [separatedFrom, Bool.or_eq_false_iff] at hsep
        obtain ⟨hopen, hsep⟩ := hsep
        obtain ⟨brace, outer, hb⟩ := List.exists_cons_of_ne_nil fun hnone : b.braces = [] => by
          rw [hnone] at hopen
          cases hopen
        rw [resume_innerSeparator hc hb] at h
        exact ih _ hlt h hnext hc hbefore hstart hsep rfl

end Parser

open Glob.Parser (placedAt collapse)

theorem parse_source {p : Text} {tree : Pattern} (h : Pattern.parse p = .ok tree) : tree.source = p := by
  obtain ⟨_, _, -, -, -, rfl⟩ := parse_pieces h
  rfl

/-- **Texts of one segment each, with separators between, are a pattern of their segments.** -/
theorem parse_texts {qs : List (Text × Segment)} (hne : qs ≠ [])
    (h : ∀ q ∈ qs, Pattern.parse q.1 = .ok ⟨q.1, [q.2]⟩) :
    Pattern.parse (Text.join [Mark.slash] (qs.map Prod.fst)) =
      .ok ⟨Text.join [Mark.slash] (qs.map Prod.fst), collapse false (placedAt 0 qs)⟩ := by
  rw [Parser.parse_eq_ok, ← Parser.foldl_addSegment_nil]
  exact Parser.resume_texts hne h

/-- **Patterns are made of segments, each of which is a pattern.**  The text under a segment is a pattern of this
segment alone.  Texts of one segment each are a pattern when they are joined by separators, and its segments are theirs,
each where its text stands, apart from those `**` that come behind another.  A pattern has one segment if all its
separators are escaped, in classes or in braces. -/
theorem parse_segmentwise :
    (∀ (p : Text) (tree : Pattern), Pattern.parse p = .ok tree → ∀ s ∈ tree.segments,
      ∃ s', Pattern.parse (s.span.extract p) = .ok ⟨s.span.extract p, [s']⟩ ∧ s = s'.shift s.span.start) ∧
    (∀ qs : List (Text × Segment), qs ≠ [] → (∀ q ∈ qs, Pattern.parse q.1 = .ok ⟨q.1, [q.2]⟩) →
      Pattern.parse (Text.join [Mark.slash] (qs.map Prod.fst)) =
        .ok ⟨Text.join [Mark.slash] (qs.map Prod.fst), collapse false (placedAt 0 qs)⟩) ∧
    ∀ (q : Text) (tree : Pattern), Pattern.parse q = .ok tree → Reading.separated q = false →
      ∃ s, tree.segments = [s] ∧ s.span = ⟨0, q.length⟩ := by
  refine ⟨fun p tree h s hs => ?_, fun qs hne h => parse_texts hne h, fun q tree h hsep => ?_⟩
  · obtain rfl : tree.source = p := parse_source h
    obtain ⟨qs, hne, hjoin, hqs⟩ := Parser.exists_texts h
    have hplaced := parse_texts hne fun q hq => (hqs q hq).1
    rw [← hjoin] at hplaced
    rw [Except.ok.inj (h.symm.trans hplaced)] at hs
    obtain ⟨q, hq, i, t, rfl, hdrop⟩ := Parser.exists_of_mem_placedAt (k := 0) hjoin (Parser.mem_of_mem_collapse hs)
    obtain ⟨hparse, hspan⟩ := hqs q hq
    have hplace : (q.2.shift i).span = ⟨i, (i + q.1.length : Nat)⟩ := by
      simp [Segment.shift, hspan, Span.shift]
    have htext : (q.2.shift i).span.extract tree.source = q.1 := by
      rw [hplace]
      exact Span.extract_of_drop hdrop
    rw [htext, hplace]
    exact ⟨q.2, hparse, rfl⟩
  · obtain rfl : tree.source = q := parse_source h
    obtain ⟨s, hs, hspan⟩ :=
      Parser.resume_unseparated (k := 0) (Parser.parse_eq_ok.1 h) (Nat.zero_add _) rfl rfl rfl hsep
    exact ⟨s, hs, hspan⟩

/-- The texts of one segment are `a\/b`, with an escaped separator, `{c/*}`, with one in braces, and `**` twice. -/
theorem parse_segmentwise_inner :
    let escaped : Text × Segment := (Text.of "a\\/b", ⟨[.literal (Text.of "a/b") ⟨0, 4⟩], ⟨0, 4⟩⟩)
    let braced : Text × Segment :=
      (Text.of "\x7bc/*\x7d", ⟨[.alternation [[.literal (Text.of "c/") ⟨1, 3⟩, .star ⟨3, 4⟩]] ⟨0, 5⟩], ⟨0, 5⟩⟩)
    let stars : Text × Segment := (Text.of "**", ⟨[.doubleStar ⟨0, 2⟩], ⟨0, 2⟩⟩)
    let tree : Pattern := ⟨Text.of "a\\/b/**/**/\x7bc/*\x7d", [⟨[.literal (Text.of "a/b") ⟨0, 4⟩], ⟨0, 4⟩⟩,
      ⟨[.doubleStar ⟨5, 7⟩], ⟨5, 7⟩⟩,
      ⟨[.alternation [[.literal (Text.of "c/") ⟨12, 14⟩, .star ⟨14, 15⟩]] ⟨11, 16⟩], ⟨11, 16⟩⟩]⟩
    Pattern.parse (Text.join [Mark.slash] ([escaped, stars, stars, braced].map Prod.fst)) = .ok tree ∧
      (∀ s ∈ tree.segments, ∃ s', Pattern.parse (s.span.extract tree.source) = .ok ⟨s.span.extract tree.source, [s']⟩ ∧
        s = s'.shift s.span.start) ∧
      ∀ q ∈ [escaped, stars, braced], Reading.separated q.1 = false ∧ q.2.span = ⟨0, q.1.length⟩ := by
  intro escaped braced stars tree
  obtain ⟨hslices, hjoin, hsingle⟩ := parse_segmentwise
  have halone : ∀ q ∈ [escaped, stars, braced], Pattern.parse q.1 = .ok ⟨q.1, [q.2]⟩ := by
    simp only [List.forall_mem_cons]
    exact ⟨rfl, rfl, rfl, by simp⟩
  have hinner : ∀ q ∈ [escaped, stars, braced], Reading.separated q.1 = false := by
    simp [escaped, stars, braced, Text.of, Reading.separated, Reading.separatedFrom]
  have hparse := hjoin [escaped, stars, stars, braced] (List.cons_ne_nil _ _) (by
    simp only [List.forall_mem_cons]
    exact ⟨rfl, rfl, rfl, rfl, by simp⟩)
  refine ⟨hparse, hslices _ tree hparse, fun q hq => ⟨hinner q hq, ?_⟩⟩
  obtain ⟨s, hs, hspan⟩ := hsingle q.1 _ (halone q hq) (hinner q hq)
  rw [(List.cons.inj hs).1]
  exact hspan

end Glob
