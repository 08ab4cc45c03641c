import Glob.Proofs.Pattern.SideBySide
/-!
# Redundant stars

Without its redundant stars a pattern means the same (`matcher_squeezed`).  The pattern and the one without them are parsed
side by side, segment by segment: in a segment other than `**` a run of stars is one star (`resume_once`), and of segments
`**` that come one behind the other only the first is kept, by the parser as in the text (`resume_segments`).
-/
namespace Glob

namespace Parser

open Reading (Ends Inner Segmented Units behind once squeezed squeezedSegment squeezedSegments wholeStars)

variable {k k' n e : Nat} {b b' : Builder} {t t' : Text} {us : List Text} {segs : List (List Text)} {whole : Bool}
  {r r' : Except ParseFailure (List Segment)}

/-! ## Within a segment -/

/-- A star in front of the others is one more that no builder knows of. -/
theorem pending_star (n : Nat) (us : List Text) (t : Text) :
    List.replicate (min n 1) Mark.star ++ ((once [Mark.star] (0 < n) ([Mark.star] :: us)).flatten ++ t) =
      List.replicate (min (n + 1) 1) Mark.star ++ ((once [Mark.star] (0 < n + 1) us).flatten ++ t) := by
  cases n with
  | zero =>
    rw [decide_eq_false (Nat.lt_irrefl 0), Reading.once_first]
    rfl
  | succ n =>
    rw [decide_eq_true (Nat.succ_pos n), decide_eq_true (Nat.succ_pos (n + 1)), Reading.once_drop,
      Nat.min_eq_right (Nat.succ_pos n), Nat.min_eq_right (Nat.succ_pos (n + 1))]

/-- **Units and the same without redundant stars are parsed to the same.**  There are `n` stars in front of them of which
no builder knows yet; the other text has one if there are any. -/
theorem resume_once (ht : Ends t t')
    (hrest : ∀ {k k' : Nat} {b b' : Builder}, b.Alike b' → b.Mixed → b'.Mixed → b.braces.length = e →
      resumeAt k b t = .ok r → resumeAt k' b' t' = .ok r' → Agree r r')
    (hus : Units t us) (hinner : Inner b.braces.length us e) (h : b.Alike b') (hmixed : b.Mixed) (hmixed' : b'.Mixed)
    (hwhole : b.braces = [] → b.nodes = [] → List.replicate n [Mark.star] ++ us ≠ wholeStars)
    (hr : resumeAt k b (List.replicate n Mark.star ++ (us.flatten ++ t)) = .ok r)
    (hr' : resumeAt k' b'
      (List.replicate (min n 1) Mark.star ++ ((once [Mark.star] (0 < n) us).flatten ++ t')) = .ok r') : Agree r r' := by
  have hnone : ∀ n : Nat, n = 0 ↔ min n 1 = 0 := fun n => by omega
  induction us generalizing n k k' b b' with
  | nil =>
    cases hinner
    rw [List.flatten_nil, List.nil_append, resume_starRun h.outside ht.head?_ne.1] at hr
    rw [Reading.once_nil, List.flatten_nil, List.nil_append, resume_starRun h.outside' ht.head?_ne.2] at hr'
    refine hrest (h.takeRun (hnone n) _ _) (hmixed.takeRun (fun hb hnodes htwo => ?_) _)
      (hmixed'.takeRun (fun _ _ => by omega) _) ?_ hr hr'
    · exact hwhole hb hnodes (by rw [htwo]; rfl)
    · rw [(b.takeRun_kept k n).2.2]
  | cons u us ih =>
    have hu := hus.1
    cases hinner with
    | cons hslash hinner =>
      by_cases hstar : u = [Mark.star]
      · subst hstar
        have hpending : List.replicate n Mark.star ++ (([Mark.star] :: us).flatten ++ t) =
            List.replicate (n + 1) Mark.star ++ (us.flatten ++ t) := by
          rw [List.replicate_succ', List.flatten_cons, List.append_assoc, List.append_assoc]
        have hpending' : List.replicate n [Mark.star] ++ [Mark.star] :: us =
            List.replicate (n + 1) [Mark.star] ++ us := by
          rw [List.replicate_succ', List.append_assoc, List.singleton_append]
        rw [hpending] at hr
        rw [pending_star] at hr'
        rw [hpending'] at hwhole
        exact ih hus.2 hinner h hmixed hmixed' hwhole hr hr'
      · have hus' := hus.once ht (0 < n)
        rw [Reading.once_keep hstar] at hus' hr'
        rw [List.flatten_cons, List.append_assoc] at hr hr'
        rw [resume_starRun h.outside (hu.head?_ne hstar _)] at hr
        rw [resume_starRun h.outside' (hu.head?_ne hstar _)] at hr'
        have hbraces := (b.takeRun_kept k n).2.2
        refine resume_unit hu hus'.1 hstar ?_ (h.takeRun (hnone n) _ _) hr hr' ?_
        · rwa [hbraces]
        · intro k₁ k₁' b₁ b₁' htaken hr hr'
          rw [hbraces] at htaken
          rw [← htaken.depth] at hinner
          exact ih hus.2 hinner htaken.toAlike htaken.filled.mixed htaken.filled'.mixed (n := 0)
            (fun hb hnodes => absurd hnodes (htaken.filled.nonempty hb)) hr hr'

/-! ## Segment by segment -/

namespace Builder

/-- Both builders are at the end of a segment, and when it is closed they hold the same segments, the last of which is `**`
if `whole` says so. -/
structure Ended (whole : Bool) (b b' : Builder) : Prop where
  outside : b.openClass = none
  outside' : b'.openClass = none
  braces : b.braces = [] ↔ b'.braces = []
  closed : b.braces = [] → ∀ k k' : Nat,
    ((b.begun k).closeSegment k).map Segment.thinned = ((b'.begun k').closeSegment k').map Segment.thinned
  whole : whole = true → b.braces = [] ∧ ∀ k : Nat,
    ∃ last rest, (b.begun k).closeSegment k = last :: rest ∧ last.isRecursive = true

/-- Between two segments, the builders hold the same segments. -/
structure Fresh (b b' : Builder) : Prop extends b.Alike b' where
  closed : b.braces = []
  empty : b.nodes = []
  empty' : b'.nodes = []

theorem Alike.ended (h : b.Alike b') (hmixed : b.Mixed) (hmixed' : b'.Mixed) : b.Ended false b' where
  outside := h.outside
  outside' := h.outside'
  braces := h.braces_eq_nil
  closed hb k k' :=
    Alike.closeSegment ⟨h.outside, h.outside', h.segments, h.braces, h.nodes⟩ hb hmixed hmixed' (k : Int) (k' : Int)
  whole := nofun

/-- The builder behind the separator at offset `k`, which ends the segment at hand. -/
def nextSegment (b : Builder) (k : Nat) : Builder :=
  { b with segments := (b.begun k).closeSegment k, segmentStart := none, nodes := [] }

theorem Ended.nextSegment (h : b.Ended whole b') (hb : b.braces = []) (k k' : Nat) :
    (b.nextSegment k).Fresh (b'.nextSegment k') where
  outside := h.outside
  outside' := h.outside'
  segments := h.closed hb k k'
  braces := congrArg (List.map OpenBrace.thinned) (hb.trans (h.braces.1 hb).symm)
  nodes := rfl
  closed := hb
  empty := rfl
  empty' := rfl

/-- A `**` between two separators is a segment, unless there is one before it. -/
theorem closeSegment_takeStars (hb : b.braces = []) (hnodes : b.nodes = []) (k k' : Nat) :
    ∃ s : Segment, s.isRecursive = true ∧ s.thinned = ⟨[.doubleStar nowhere], nowhere⟩ ∧
      ((b.takeStars k).begun k').closeSegment k' = addSegment b.segments s := by
  rw [takeStars_outside hb]
  exact ⟨⟨demoteDoubleStars (.doubleStar (Span.sized k 2) :: b.nodes).reverse, _⟩, by rw [hnodes]; rfl, by rw [hnodes]; rfl,
    rfl⟩

theorem addSegment_recursive (segments : List Segment) {s : Segment} (hs : s.isRecursive = true) :
    ∃ last rest, addSegment segments s = last :: rest ∧ last.isRecursive = true := by
  rcases addSegment_cases segments s with ⟨hadd, -⟩ | ⟨hadd, last, rest, rfl, hlast, -⟩
  · exact ⟨s, segments, hadd, hs⟩
  · exact ⟨last, rest, hadd, hlast⟩

theorem Fresh.ended (h : b.Fresh b') (k k' : Nat) : (b.takeStars k).Ended true (b'.takeStars k') where
  outside := (b.takeStars_kept k).1.trans h.outside
  outside' := (b'.takeStars_kept k').1.trans h.outside'
  braces := by rw [(b.takeStars_kept k).2.2, (b'.takeStars_kept k').2.2, h.braces_eq_nil]
  closed _ i i' := by
    have hb' := h.braces_eq_nil.1 h.closed
    obtain ⟨s, -, hs, hclosed⟩ := closeSegment_takeStars h.closed h.empty k i
    obtain ⟨s', -, hs', hclosed'⟩ := closeSegment_takeStars hb' h.empty' k' i'
    rw [hclosed, hclosed', addSegment_thinned, addSegment_thinned, hs, hs', h.segments]
  whole _ := by
    refine ⟨(b.takeStars_kept k).2.2.trans h.closed, fun i => ?_⟩
    obtain ⟨s, hs, -, hclosed⟩ := closeSegment_takeStars h.closed h.empty k i
    rw [hclosed]
    exact addSegment_recursive b.segments hs

/-- Behind a `**`, another one makes no difference. -/
theorem Ended.dropped (h : b.Ended true b') (k i : Nat) : ((b.nextSegment k).takeStars i).Ended true b' := by
  obtain ⟨hb, hlast⟩ := h.whole rfl
  obtain ⟨hclass, -, hbraces⟩ := (b.nextSegment k).takeStars_kept i
  have hnone : ((b.nextSegment k).takeStars i).braces = [] := hbraces.trans hb
  have hclosed : ∀ j : Nat, (((b.nextSegment k).takeStars i).begun j).closeSegment j = (b.begun k).closeSegment k := by
    intro j
    obtain ⟨s, hs, -, hclosed⟩ := closeSegment_takeStars (b := b.nextSegment k) hb rfl i j
    obtain ⟨last, rest, hsegments, hrec⟩ := hlast k
    rw [hclosed]
    show addSegment ((b.begun k).closeSegment k) s = _
    rw [hsegments, addSegment, hs, hrec]
    rfl
  refine ⟨hclass.trans h.outside, h.outside', ?_, fun _ j k' => ?_, fun _ => ⟨hnone, fun j => ?_⟩⟩
  · exact iff_of_true hnone (h.braces.1 hb)
  · rw [hclosed]
    exact h.closed hb k k'
  · rw [hclosed]
    exact hlast k

end Builder

/-- More segments come, and no brace is open, or none do. -/
def Continues (b : Builder) (segs : List (List Text)) : Prop := segs = [] ∨ (b.braces = [] ∧ Segmented 0 segs)

theorem resume_wholeStars (hc : b.openClass = none) (t : Text) :
    resumeAt k b (wholeStars.flatten ++ t) = resumeAt (k + 2) (b.takeStars k) t := resume_stars hc

theorem resume_slash_next (hc : b.openClass = none) (hb : b.braces = []) (t : Text) :
    resumeAt k b (Mark.slash :: t) = resumeAt (k + 1) (b.nextSegment k) t := resume_separator hc hb

/-- **A segment is parsed to the same without redundant stars.** -/
theorem resume_segment (h : b.Fresh b') (hsegs : Segmented 0 (us :: segs))
    (hrest : ∀ {k k' : Nat} {b b' : Builder}, b.Ended (us = wholeStars) b' → Continues b segs →
      resumeAt k b (behind segs) = .ok r → resumeAt k' b' (behind (squeezedSegments (us = wholeStars) segs)) = .ok r' →
      Agree r r')
    (hr : resumeAt k b (us.flatten ++ behind segs) = .ok r)
    (hr' : resumeAt k' b' ((squeezedSegment us).flatten ++ behind (squeezedSegments (us = wholeStars) segs)) = .ok r') :
    Agree r r' := by
  obtain ⟨e, hinner, hus, hmore⟩ := hsegs.first
  by_cases hwhole : us = wholeStars
  · subst hwhole
    have hnext : Continues (b.takeStars k) segs :=
      hmore.imp_right fun hmore => ⟨(b.takeStars_kept k).2.2.trans h.closed, hmore.2⟩
    rw [resume_wholeStars h.outside] at hr
    rw [Reading.squeezedSegment_whole, resume_wholeStars h.outside'] at hr'
    exact hrest (h.ended k k') hnext hr hr'
  · have hmixed : ∀ {b : Builder}, b.nodes = [] → b.Mixed := fun hnodes _ span hstar => by
      rw [hnodes] at hstar
      cases hstar
    rw [Reading.squeezedSegment_of_ne hwhole, decide_eq_false hwhole] at hr'
    refine resume_once (n := 0) (Reading.ends_behind segs) (fun halike hmixed hmixed' hlength hr hr' => ?_) hus
      (by rw [h.closed]; exact hinner) h.toAlike (hmixed h.empty) (hmixed h.empty') (fun _ _ => hwhole) hr hr'
    have hended := halike.ended hmixed hmixed'
    rw [← decide_eq_false hwhole] at hended hr'
    refine hrest hended (hmore.imp_right fun hmore => ⟨?_, hmore.2⟩) hr hr'
    exact List.length_eq_zero_iff.1 (hlength.trans hmore.1)

/-- **Segments are parsed to the same without redundant stars.** -/
theorem resume_segments (hsegs : Continues b segs) (h : b.Ended whole b') (hr : resumeAt k b (behind segs) = .ok r)
    (hr' : resumeAt k' b' (behind (squeezedSegments whole segs)) = .ok r') : Agree r r' := by
  induction segs generalizing whole k k' b b' with
  | nil =>
    rw [behind, List.flatMap_nil, resume_nil h.outside] at hr
    rw [Reading.squeezedSegments_nil, behind, List.flatMap_nil, resume_nil h.outside'] at hr'
    obtain rfl := Except.ok.inj hr
    obtain rfl := Except.ok.inj hr'
    cases hb : b.braces with
    | nil =>
      rw [h.braces.1 hb]
      show List.map _ (List.reverse _) = List.map _ (List.reverse _)
      rw [List.map_reverse, List.map_reverse, h.closed hb k k']
    | cons brace outer =>
      obtain ⟨brace', outer', hb'⟩ := List.exists_cons_of_ne_nil (mt h.braces.2 (hb ▸ List.cons_ne_nil _ _))
      rw [hb']
      rfl
  | cons us segs ih =>
    obtain ⟨hb, hsegs⟩ := hsegs.resolve_left (List.cons_ne_nil _ _)
    rw [Reading.behind_cons, resume_slash_next h.outside hb] at hr
    by_cases hdrop : whole = true ∧ us = wholeStars
    · obtain ⟨rfl, rfl⟩ := hdrop
      obtain ⟨_, -, -, hmore⟩ := hsegs.first
      rw [resume_wholeStars (b := b.nextSegment k) h.outside] at hr
      rw [Reading.squeezedSegments_drop] at hr'
      refine ih (hmore.imp_right fun hmore => ⟨?_, hmore.2⟩) (h.dropped k (k + 1)) hr hr'
      exact ((b.nextSegment k).takeStars_kept (k + 1)).2.2.trans hb
    · have hkept : squeezedSegments whole (us :: segs) =
          squeezedSegment us :: squeezedSegments (us = wholeStars) segs := by
        cases whole with
        | false => exact Reading.squeezedSegments_first us segs
        | true =>
          have hne : us ≠ wholeStars := fun heq => hdrop ⟨rfl, heq⟩
          rw [Reading.squeezedSegments_keep hne, decide_eq_false hne]
      rw [hkept, Reading.behind_cons, resume_slash_next h.outside' (h.braces.1 hb)] at hr'
      exact resume_segment (h.nextSegment hb k k') hsegs (fun hended hmore hr hr' => ih hmore hended hr hr') hr hr'

/-- **Parsed side by side**, a pattern and the one without redundant stars come to the same. -/
theorem resume_squeezed {p : Text} (hr : resume Scanner.start (start p) p = .ok r)
    (hr' : resume Scanner.start (start (squeezed p)) (squeezed p) = .ok r') : Agree r r' := by
  obtain ⟨us, segs, hsegs, hp, hsqueezed⟩ := Reading.exists_segmented p
  have hfresh : (start p).Fresh (start (squeezed p)) := ⟨⟨rfl, rfl, rfl, rfl, rfl⟩, rfl, rfl, rfl⟩
  have hread : resumeAt 0 (start p) (us.flatten ++ behind segs) = .ok r := hp ▸ hr
  have hread' : resumeAt 0 (start (squeezed p))
      ((squeezedSegment us).flatten ++ behind (squeezedSegments (us = wholeStars) segs)) = .ok r' := hsqueezed ▸ hr'
  exact resume_segment hfresh hsegs (fun hended hmore => resume_segments hmore hended) hread hread'

end Parser

open Reading (squeezed EndsEscaping)

/-- A pattern and the one without redundant stars have trees that are the same when they are thinned, or are rejected for
the same kind of error. -/
theorem parse_squeezed (p : Text) :
    (∃ tree tree', Pattern.parse p = .ok tree ∧ Pattern.parse (squeezed p) = .ok tree' ∧
      tree.segments.map Segment.thinned = tree'.segments.map Segment.thinned) ∨
    ∃ e e', Pattern.parse p = .error (.rejected e) ∧ Pattern.parse (squeezed p) = .error (.rejected e') ∧
      e.kind = e'.kind := by
  by_cases hp : EndsEscaping p
  · exact .inr ⟨_, _, parse_endsEscaping hp, parse_endsEscaping ((Reading.endsEscaping_squeezed p).2 hp), rfl⟩
  · obtain ⟨r, hr⟩ := Parser.resume_start_ok ((Scanner.escaping_run p).2 hp)
    obtain ⟨r', hr'⟩ := Parser.resume_start_ok
      ((Scanner.escaping_run (squeezed p)).2 (mt (Reading.endsEscaping_squeezed p).1 hp))
    have hagree := Parser.resume_squeezed hr hr'
    rw [Parser.parse_eq_resume, Parser.parse_eq_resume, hr, hr']
    cases r with
    | ok segments =>
      cases r' with
      | ok segments' => exact .inl ⟨_, _, rfl, rfl, hagree⟩
      | error f' => cases hagree
    | error f =>
      cases f with
      | rejected e =>
        cases r' with
        | ok segments' => cases hagree
        | error f' =>
          cases f' with
          | rejected e' => exact .inr ⟨_, _, rfl, rfl, hagree⟩
          | unexpected | noTokens | emptyRange | endless => cases hagree
      | unexpected | noTokens | emptyRange | endless => cases hagree

/-- **Redundant stars do not change what a pattern means.**  With one star for each run of them, unless two stars are a whole
segment, and with one segment `**` for each run of these, the pattern has a matcher exactly if it had one before, and the
two accept the same candidates; or both are rejected, for the same kind of error. -/
theorem matcher_squeezed (p : Text) (o : Options) :
    (∃ m m', Matcher.ofPattern? o p = .ok m ∧ Matcher.ofPattern? o (squeezed p) = .ok m' ∧
      ∀ x, m.accepts x = m'.accepts x) ∨
    ∃ e e', Matcher.ofPattern? o p = .error (.rejected e) ∧
      Matcher.ofPattern? o (squeezed p) = .error (.rejected e') ∧ e.kind = e'.kind := by
  rcases parse_squeezed p with ⟨tree, tree', h, h', hsame⟩ | ⟨e, e', h, h', hkind⟩
  · have hm := ofPattern?_of_parse h o
    have hm' := ofPattern?_of_parse h' o
    exact .inl ⟨_, _, hm, hm', accepts_iff_of_thinned h h' hsame hm hm'⟩
  · refine .inr ⟨e, e', ?_, ?_, hkind⟩
    · rw [Matcher.ofPattern?, h]
    · rw [Matcher.ofPattern?, h']

/-- Stars in classes and escaped ones are kept. -/
example : squeezed (Text.of "a***/**/**/[**]\\***") = Text.of "a*/**/[**]\\**" := by cbv

end Glob
