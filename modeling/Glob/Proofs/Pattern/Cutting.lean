import Glob.Proofs.Pattern.Bare
import Glob.Proofs.Token.Depth
/-!
# Cutting a pattern at its separators

A separator outside classes and braces ends a segment, and nothing else does.  What was read of a segment so far is a
state of the scanner and a builder; `Reads` says of them which text comes next up to the end of the segment, and what
its nodes are, wherever in a pattern it stands.  `exists_reads` finds that text in a pattern that has a tree.

The scanner counts open braces and the builder keeps them; `Builder.step_depth` and `Scanner.step_gives` say that they
agree, so the separators that end a segment are the same for both.
-/
namespace Glob

namespace Parser

open Scanner (State)

namespace Builder

variable {b b' : Builder} {t : Token} {tokens more : List Token}

def idle (source : Text) (segments : List Segment) : Builder := ⟨source, segments, none, [], [], none⟩

/-! ## One token -/

theorem classStep_more {c : OpenClass} (h : b.classStep c t = .more b') :
    (∃ ns cl, b' = { b with nodes := ns, openClass := cl }) ∧
      ∀ depth, t.kind.depthAfter depth = depth := by
  unfold classStep at h
  cases hkind : t.kind with
  | classRange =>
    refine ⟨?_, fun _ => rfl⟩
    rw [hkind] at h
    cases hends : t.ends? with
    | none =>
      rw [hends] at h
      cases h
    | some ends =>
      rw [hends] at h
      simp only at h
      split at h
      · cases h
      · cases h
        exact ⟨_, _, rfl⟩
  | classNegate =>
    refine ⟨?_, fun _ => rfl⟩
    rw [hkind] at h
    simp only at h
    split at h
    · cases h
      exact ⟨_, _, rfl⟩
    · cases h
  | literal | escaped | classClose =>
    rw [hkind] at h
    cases h
    exact ⟨⟨_, _, rfl⟩, fun _ => rfl⟩
  | _ =>
    rw [hkind] at h
    cases h

theorem stopAt_not_more (b b' : Builder) (t : Token) : b.stopAt t ≠ .more b' := by
  unfold stopAt
  split
  · rintro ⟨⟩
  · split <;> rintro ⟨⟩

theorem sequenceStep_more (h : b.sequenceStep t = .more b') :
    b'.braces.length = t.kind.depthAfter b.braces.length ∧ b'.source = b.source ∧
      ((t.kind = .separator → b.braces ≠ []) → b'.segments = b.segments ∧ b'.segmentStart = b.segmentStart) := by
  obtain ⟨source, segments, segmentStart, braces, nodes, openClass⟩ := b
  obtain ⟨kind, text, span⟩ := t
  cases kind with
  | classClose | classNegate | classRange | finish =>
    unfold sequenceStep at h
    exact absurd h (stopAt_not_more _ _ _)
  | literal | escaped | star | question | classOpen | braceOpen =>
    cases h
    exact ⟨rfl, rfl, fun _ => ⟨rfl, rfl⟩⟩
  | doubleStar | braceComma | braceClose =>
    cases braces <;> cases h <;> exact ⟨rfl, rfl, fun _ => ⟨rfl, rfl⟩⟩
  | separator =>
    cases braces with
    | nil =>
      cases h
      exact ⟨rfl, rfl, fun hopen => absurd rfl (hopen rfl)⟩
    | cons brace outer =>
      cases h
      exact ⟨rfl, rfl, fun _ => ⟨rfl, rfl⟩⟩

/-- A token changes the number of open braces in the builder as it does in the scanner. -/
theorem step_depth (h : b.step t = .more b') : b'.braces.length = t.kind.depthAfter b.braces.length := by
  cases hc : b.openClass with
  | some c =>
    rw [step, hc] at h
    obtain ⟨⟨_, _, rfl⟩, hkind⟩ := classStep_more h
    exact (hkind _).symm
  | none =>
    rw [step_outside hc] at h
    exact (sequenceStep_more h).1

/-- A token that does not end the segment at hand leaves the complete ones alone, and at the latest the segment begins
with it. -/
theorem step_kept (h : b.step t = .more b') (hinner : t.kind = .separator → b.braces ≠ []) :
    b'.source = b.source ∧ b'.segments = b.segments ∧
      b'.segmentStart = if b.openClass.isNone then some (b.segmentStart.getD t.span.start) else b.segmentStart := by
  cases hc : b.openClass with
  | some c =>
    rw [step, hc] at h
    obtain ⟨⟨_, _, rfl⟩, -⟩ := classStep_more h
    exact ⟨rfl, rfl, rfl⟩
  | none =>
    rw [step_outside hc] at h
    obtain ⟨-, hsource, hkept⟩ := sequenceStep_more h
    exact ⟨hsource, hkept hinner⟩

theorem stopAt_done {segments : List Segment} (h : b.stopAt t = .done segments) : t.kind = .finish := by
  unfold stopAt at h
  split at h
  · cases h
  · split at h
    · assumption
    · cases h
    · cases h

theorem sequenceStep_done {segments : List Segment} (h : b.sequenceStep t = .done segments) : t.kind = .finish := by
  obtain ⟨kind, text, span⟩ := t
  cases kind with
  | classClose | classNegate | classRange | finish =>
    unfold sequenceStep at h
    exact stopAt_done h
  | literal | escaped | star | question | classOpen | braceOpen => cases h
  | doubleStar | braceComma | braceClose | separator =>
    unfold sequenceStep at h
    simp only at h
    split at h <;> cases h

/-- Only the end token ends the parse well. -/
theorem step_done {segments : List Segment} (h : b.step t = .done segments) : t.kind = .finish := by
  cases hc : b.openClass with
  | none =>
    rw [step_outside hc] at h
    exact sequenceStep_done h
  | some c =>
    rw [step, hc] at h
    obtain ⟨kind, text, span⟩ := t
    simp only [classStep] at h
    split at h <;> (try split at h) <;> (try split at h) <;> cases h

/-- Inside a class, neither a separator nor the end is taken. -/
theorem openClass_of_step (hkind : t.kind = .separator ∨ t.kind = .finish) (h : ∀ f, b.step t ≠ .failed f) :
    b.openClass = none := by
  cases hc : b.openClass with
  | none => rfl
  | some c =>
    refine absurd ?_ (h (unclosedClass b.source c.opener))
    rw [step, hc]
    unfold classStep
    rcases hkind with hkind | hkind <;> rw [hkind]

/-! ## Several tokens -/

theorem feed_cons : b.feed (t :: tokens) = some b' ↔ ∃ d, b.step t = .more d ∧ d.feed tokens = some b' := by
  rw [feed]
  cases b.step t with
  | more d => simp
  | done _ | failed _ => simp

theorem feed_append : b.feed (tokens ++ more) = some b' ↔ ∃ d, b.feed tokens = some d ∧ d.feed more = some b' := by
  induction tokens generalizing b with
  | nil => simp [feed]
  | cons t tokens ih =>
    rw [List.cons_append, feed_cons]
    simp only [ih, feed_cons]
    constructor
    · rintro ⟨d, hstep, d', hfeed, hmore⟩
      exact ⟨d', ⟨d, hstep, hfeed⟩, hmore⟩
    · rintro ⟨d', ⟨d, hstep, hfeed⟩, hmore⟩
      exact ⟨d, hstep, d', hfeed, hmore⟩

/-- A parse that ends well takes all tokens but the end token. -/
theorem feed_of_run {segments : List Segment} (hfinish : ∀ t ∈ tokens, t.kind ≠ .finish)
    (h : b.run (tokens ++ more) = .ok segments) : ∃ d, b.feed tokens = some d ∧ d.run more = .ok segments := by
  induction tokens generalizing b with
  | nil => exact ⟨b, rfl, h⟩
  | cons t tokens ih =>
    obtain ⟨ht, htokens⟩ := List.forall_mem_cons.1 hfinish
    rw [List.cons_append, run] at h
    cases hstep : b.step t with
    | more d =>
      rw [hstep] at h
      obtain ⟨d', hfeed, hrun⟩ := ih htokens h
      exact ⟨d', feed_cons.2 ⟨d, hstep, hfeed⟩, hrun⟩
    | done _ => exact absurd (step_done hstep) ht
    | failed _ =>
      rw [hstep] at h
      cases h

theorem feed_depth (h : b.feed tokens = some b') : b'.braces.length = depthAfter b.braces.length tokens := by
  induction tokens generalizing b with
  | nil =>
    obtain rfl : b = b' := Option.some.inj h
    rfl
  | cons t tokens ih =>
    obtain ⟨d, hstep, hfeed⟩ := feed_cons.1 h
    rw [ih hfeed, step_depth hstep]
    rfl

/-! ## Inside a segment -/

/-- No token ends the segment at hand. -/
def Within : Builder → List Token → Prop
  | _, [] => True
  | b, t :: tokens => (t.kind = .separator → b.braces ≠ []) ∧ ∀ d, b.step t = .more d → d.Within tokens

theorem within_of_inner (h : ∀ t ∈ tokens, t.kind ≠ .separator) : b.Within tokens := by
  induction tokens generalizing b with
  | nil => trivial
  | cons t tokens ih =>
    obtain ⟨ht, htokens⟩ := List.forall_mem_cons.1 h
    exact ⟨fun hsep => absurd hsep ht, fun d _ => ih htokens⟩

theorem within_append (h : b.Within tokens) (hmore : ∀ d, b.feed tokens = some d → d.Within more) :
    b.Within (tokens ++ more) := by
  induction tokens generalizing b with
  | nil => exact hmore b rfl
  | cons t tokens ih =>
    refine ⟨h.1, fun d hstep => ih (h.2 d hstep) fun d' hfeed => hmore d' ?_⟩
    exact feed_cons.2 ⟨d, hstep, hfeed⟩

theorem feed_kept (hw : b.Within tokens) (h : b.feed tokens = some b') :
    b'.source = b.source ∧ b'.segments = b.segments ∧
      ∀ start, b.segmentStart = some start → b'.segmentStart = some start := by
  induction tokens generalizing b with
  | nil =>
    obtain rfl : b = b' := Option.some.inj h
    exact ⟨rfl, rfl, fun _ hstart => hstart⟩
  | cons t tokens ih =>
    obtain ⟨d, hstep, hfeed⟩ := feed_cons.1 h
    obtain ⟨hsource, hsegments, hbegun⟩ := step_kept hstep hw.1
    obtain ⟨hsource', hsegments', hbegun'⟩ := ih (hw.2 d hstep) hfeed
    refine ⟨hsource'.trans hsource, hsegments'.trans hsegments, fun start hstart => hbegun' start ?_⟩
    rw [hbegun, hstart]
    simp

/-- The segment at hand begins at the offset: it has begun there, or it will with the next token. -/
def Begins (b : Builder) (k₀ : Nat) (place : Option Nat) : Prop :=
  b.segmentStart = some (k₀ : Int) ∨ (b.segmentStart = none ∧ b.openClass = none ∧ place = some k₀)

theorem Begins.feed {k₀ : Nat} {place next : Option Nat} (h : b.Begins k₀ place)
    (htokens : place = some k₀ → Scanner.BeginsAt k₀ tokens next) (hw : b.Within tokens)
    (hfeed : b.feed tokens = some b') : b'.Begins k₀ next := by
  rcases h with hstart | ⟨hnone, hclass, hplace⟩
  · exact .inl ((feed_kept hw hfeed).2.2 _ hstart)
  · rcases htokens hplace with ⟨rfl, hnext⟩ | ⟨t, more, rfl, ht⟩
    · obtain rfl : b = b' := Option.some.inj hfeed
      exact .inr ⟨hnone, hclass, hnext⟩
    · obtain ⟨d, hstep, hmore⟩ := feed_cons.1 hfeed
      have hbegun : d.segmentStart = some (k₀ : Int) := by
        rw [(step_kept hstep hw.1).2.2, hclass, hnone, ht]
        rfl
      exact .inl ((feed_kept (hw.2 d hstep) hmore).2.2 _ hbegun)

theorem Begins.closeSegment {k₀ k : Nat} (h : b.Begins k₀ (some k)) :
    (b.begun k).closeSegment k = addSegment b.segments ⟨demoteDoubleStars b.nodes.reverse, ⟨k₀, k⟩⟩ := by
  rcases h with hstart | ⟨hnone, -, hplace⟩
  · simp [Builder.closeSegment, begun, hstart]
  · obtain rfl := Option.some.inj hplace
    simp [Builder.closeSegment, begun, hnone]

end Builder

/-! ## One piece -/

open Builder (idle)

variable {s : State} {b d : Builder} {c : CodePoint} {t w : Text} {tokens : List Token} {nodes : List Node}
  {segments : List Segment}

/-- A character that is no separator between segments ends none. -/
theorem within_step (h : ¬ (c = Mark.slash ∧ s.escaping = none ∧ b.braces = [])) : b.Within (s.step c).1 := by
  by_cases hslash : c = Mark.slash ∧ s.escaping = none
  · obtain ⟨rfl, hescaping⟩ := hslash
    have hbraces : b.braces ≠ [] := fun hnone => h ⟨rfl, hescaping, hnone⟩
    obtain ⟨tokens, hp⟩ := Scanner.pending_eq_ok hescaping
    have hplain := Scanner.pending_plain hp
    rw [Scanner.step_slash hp]
    refine Builder.within_append (Builder.within_of_inner fun t ht => (hplain t ht).not_separator) fun d hfeed => ?_
    refine ⟨fun _ hnone => hbraces ?_, fun _ _ => trivial⟩
    have hdepth := Builder.feed_depth hfeed
    rw [hnone, Scanner.depthAfter_plain hplain] at hdepth
    exact List.length_eq_zero_iff.1 hdepth.symm
  · exact Builder.within_of_inner (Scanner.no_separator hslash)

/-- From the scanner's state and the builder on, the text is read to the end of a segment with the nodes: at any place,
and whatever segments are complete. -/
def Reads (s : State) (b : Builder) (w : Text) (nodes : List Node) : Prop :=
  ∀ s' b' (k₀ : Nat), s'.bare = s.bare → b'.bare = b.bare → b'.Begins k₀ s'.place →
    ∃ nodes', nodesBare nodes' = nodesBare nodes ∧
      resume s' b' w = .ok (.ok (addSegment b'.segments ⟨nodes', ⟨k₀, (s'.offset + w.length : Nat)⟩⟩).reverse) ∧
      ∀ t, resume s' b' (w ++ Mark.slash :: t) = resumeAt (s'.offset + w.length + 1)
        (idle b'.source (addSegment b'.segments ⟨nodes', ⟨k₀, (s'.offset + w.length : Nat)⟩⟩)) t

/-- Where a segment ends, the pattern may end or go on behind a separator. -/
theorem resume_end {k₀ : Nat} (hp : s.pending = .ok tokens) (hfeed : b.feed tokens = some d)
    (hclass : d.openClass = none) (hbraces : d.braces = []) (hdepth : s.depth = b.braces.length)
    (hbegins : b.Begins k₀ s.place) {segments : List Segment}
    (hsegments : segments = addSegment b.segments ⟨demoteDoubleStars d.nodes.reverse, ⟨k₀, s.offset⟩⟩) :
    resume s b [] = .ok (.ok segments.reverse) ∧
      ∀ t, resume s b (Mark.slash :: t) = resumeAt (s.offset + 1) (idle b.source segments) t := by
  have hplain := Scanner.pending_plain hp
  have hw : b.Within tokens := Builder.within_of_inner fun t ht => (hplain t ht).not_separator
  obtain ⟨hsource, hkept, -⟩ := Builder.feed_kept hw hfeed
  have hends : d.Begins k₀ (some s.offset) := hbegins.feed (fun hplace => Scanner.pending_begins hplace hp) hw hfeed
  have hclosed : (d.begun s.offset).closeSegment s.offset = segments := by
    rw [hends.closeSegment, hkept, hsegments]
  have hsame : s.depth = d.braces.length := by
    rw [Builder.feed_depth hfeed, Scanner.depthAfter_plain hplain, hdepth]
  constructor
  · calc resume s b []
      _ = resumeAt s.offset d [] := resume_flush_nil hp rfl hfeed rfl
      _ = .ok (.ok ((d.begun s.offset).closeSegment s.offset).reverse) := by
        rw [resume_nil hclass, hbraces]
      _ = .ok (.ok segments.reverse) := by
        rw [hclosed]
  · intro t
    have hflush : s.step Mark.slash =
        State.after tokens ((⟨s.offset, d.braces.length, .text⟩ : State).step Mark.slash) := by
      rw [Scanner.step_slash hp, hsame]
      rfl
    calc resume s b (Mark.slash :: t)
      _ = resumeAt s.offset d (Mark.slash :: t) := resume_flush hflush hfeed rfl
      _ = resumeAt (s.offset + 1)
          { d with
            segments := (d.begun s.offset).closeSegment s.offset
            segmentStart := none
            nodes := [] } t := resume_separator hclass hbraces
      _ = resumeAt (s.offset + 1) (idle b.source segments) t := by
        rw [hclosed, hclass, hbraces, hsource]
        rfl

theorem reads_nil (hp : s.pending = .ok tokens) (hfeed : b.feed tokens = some d) (hclass : d.openClass = none)
    (hbraces : d.braces = []) (hdepth : s.depth = b.braces.length) :
    Reads s b [] (demoteDoubleStars d.nodes.reverse) := by
  intro s' b' k₀ hs hb hbegins
  obtain ⟨tokens', hp', htokens⟩ := Scanner.pending_congr hs.symm hp
  obtain ⟨d', hfeed', hd⟩ := Builder.feed_congr hb.symm htokens hfeed
  obtain ⟨hopen, hnodes, hmembers⟩ := Builder.bare_eq_iff.1 hd
  have hclass' : d'.openClass = none := by
    rw [hclass] at hmembers
    exact Option.map_eq_none_iff.1 hmembers.symm
  have hbraces' : d'.braces = [] := by
    rw [hbraces] at hopen
    exact List.map_eq_nil_iff.1 hopen.symm
  have hdepth' : s'.depth = b'.braces.length := by
    have hscanner : s'.bare.depth = s.bare.depth := congrArg State.depth hs
    have hbuilder := congrArg List.length (Builder.bare_eq_iff.1 hb).1
    rw [List.length_map, List.length_map] at hbuilder
    exact hscanner.trans (hdepth.trans hbuilder.symm)
  have hnodes' : nodesBare (demoteDoubleStars d'.nodes.reverse) = nodesBare (demoteDoubleStars d.nodes.reverse) :=
    demote_congr (by rw [nodesBare_reverse, nodesBare_reverse, hnodes])
  exact ⟨_, hnodes', resume_end hp' hfeed' hclass' hbraces' hdepth' hbegins rfl⟩

theorem escaping_congr {s s' : State} (h : s.bare = s'.bare) : s.escaping = none ↔ s'.escaping = none := by
  have hbare : ∀ s : State, s.escaping = none ↔ s.bare.escaping = none := by
    rintro ⟨k, depth, mode⟩
    cases mode <;> simp [State.escaping, State.bare, Scanner.Mode.bare]
  rw [hbare, h, ← hbare]

theorem braces_congr {b d : Builder} (h : b.bare = d.bare) : b.braces = [] ↔ d.braces = [] := by
  rw [← List.map_eq_nil_iff (f := OpenBrace.bare), (Builder.bare_eq_iff.1 h).1, List.map_eq_nil_iff]

theorem reads_cons (hinner : ¬ (c = Mark.slash ∧ s.escaping = none ∧ b.braces = []))
    (hfeed : b.feed (s.step c).1 = some d)
    (h : Reads (s.step c).2 d w nodes) : Reads s b (c :: w) nodes := by
  intro s' b' k₀ hs hb hbegins
  have hstep := Scanner.step_congr hs.symm c
  obtain ⟨d', hfeed', hd⟩ := Builder.feed_congr hb.symm (congrArg Prod.fst hstep) hfeed
  have hinner' : ¬ (c = Mark.slash ∧ s'.escaping = none ∧ b'.braces = []) := by
    rw [escaping_congr hs, braces_congr hb]
    exact hinner
  have hw := within_step hinner'
  obtain ⟨hsource, hsegments, -⟩ := Builder.feed_kept hw hfeed'
  have hbegins' : d'.Begins k₀ (s'.step c).2.place :=
    hbegins.feed (fun hplace => Scanner.step_begins hplace c) hw hfeed'
  obtain ⟨nodes', hnodes, hend, hmore⟩ := h _ _ k₀ (congrArg Prod.snd hstep).symm hd.symm hbegins'
  have hoffset : (s'.step c).2.offset + w.length = s'.offset + (c :: w).length := by
    rw [State.offset_step, List.length_cons]
    omega
  rw [hoffset, hsegments, hsource] at hmore
  rw [hoffset, hsegments] at hend
  refine ⟨nodes', hnodes, ?_, fun t => ?_⟩
  · rw [resume_step rfl hfeed']
    exact hend
  · rw [List.cons_append, resume_step rfl hfeed']
    exact hmore t

/-! ## From the first character on -/

theorem resume_cons_ok (h : resume s b (c :: t) = .ok (.ok segments)) :
    ∃ d, b.feed (s.step c).1 = some d ∧ resume (s.step c).2 d t = .ok (.ok segments) := by
  rw [resume, rest_cons] at h
  cases hrest : rest (s.step c).2 t with
  | error place =>
    rw [hrest] at h
    cases h
  | ok more =>
    rw [hrest] at h
    have hrun : b.run ((s.step c).1 ++ (more ++ ending (s.offset + (c :: t).length))) = .ok segments := by
      rw [← List.append_assoc]
      exact Except.ok.inj h
    obtain ⟨d, hfeed, hmore⟩ := Builder.feed_of_run (Scanner.step_gives s c).not_finish hrun
    refine ⟨d, hfeed, ?_⟩
    rw [resume, hrest, ← offset_of_step (t := t) (c := c) (s := s) (by rfl)]
    exact congrArg Except.ok hmore

theorem resume_nil_ok (h : resume s b [] = .ok (.ok segments)) :
    ∃ tokens d, s.pending = .ok tokens ∧ b.feed tokens = some d ∧ d.openClass = none ∧ d.braces = [] := by
  rw [resume, rest_nil] at h
  cases hp : s.pending with
  | error place =>
    rw [hp] at h
    cases h
  | ok tokens =>
    rw [hp] at h
    have hfinish : ∀ t ∈ tokens, t.kind ≠ .finish := fun t ht => (Scanner.pending_plain hp t ht).not_finish
    obtain ⟨d, hfeed, hrun⟩ := Builder.feed_of_run hfinish (Except.ok.inj h)
    obtain ⟨t, more, hending, hkind⟩ :
        ∃ t more, ending (s.offset + ([] : Text).length) = t :: more ∧ t.kind = .finish := ⟨_, _, rfl, rfl⟩
    have hstep : ∀ f, d.step t ≠ .failed f := by
      intro f hf
      rw [hending, Builder.run, hf] at hrun
      cases hrun
    have hclass : d.openClass = none := Builder.openClass_of_step (.inr hkind) hstep
    refine ⟨tokens, d, rfl, hfeed, hclass, ?_⟩
    cases hbraces : d.braces with
    | nil => rfl
    | cons brace outer =>
      refine absurd ?_ (hstep (unclosedAlternation d.source brace.opener))
      rw [Builder.step_outside hclass]
      unfold Builder.sequenceStep Builder.stopAt
      rw [hkind]
      simp only [Builder.begun, hbraces]

/-- **A pattern is read segment by segment.** -/
theorem exists_reads (hdepth : s.depth = b.braces.length) (h : resume s b t = .ok (.ok segments)) :
    ∃ w nodes, Reads s b w nodes ∧ (t = w ∨ ∃ t', t = w ++ Mark.slash :: t') := by
  induction t generalizing s b with
  | nil =>
    obtain ⟨tokens, d, hp, hfeed, hclass, hbraces⟩ := resume_nil_ok h
    exact ⟨[], _, reads_nil hp hfeed hclass hbraces hdepth, .inl rfl⟩
  | cons c t ih =>
    obtain ⟨d, hfeed, hresume⟩ := resume_cons_ok h
    -- the piece ends at a separator that is neither escaped nor inside braces; within a class the builder would reject it
    by_cases hends : c = Mark.slash ∧ s.escaping = none ∧ b.braces = []
    · obtain ⟨rfl, hescaping, hnone⟩ := hends
      obtain ⟨tokens, hp⟩ := Scanner.pending_eq_ok hescaping
      rw [Scanner.step_slash hp] at hfeed
      obtain ⟨e, hpending, hsep⟩ := Builder.feed_append.1 hfeed
      have hbraces := Builder.feed_depth hpending
      rw [Scanner.depthAfter_plain (Scanner.pending_plain hp), hnone] at hbraces
      obtain ⟨_, hstep, -⟩ := Builder.feed_cons.1 hsep
      have hclass : e.openClass = none := Builder.openClass_of_step (.inl rfl) fun f hf => by
        rw [hstep] at hf
        cases hf
      exact ⟨[], _, reads_nil hp hpending hclass (List.length_eq_zero_iff.1 hbraces) hdepth, .inr ⟨t, rfl⟩⟩
    · have hdepth' : (s.step c).2.depth = d.braces.length := by
        rw [Builder.feed_depth hfeed, ← hdepth, (Scanner.step_gives s c).depth]
      obtain ⟨w, nodes, hreads, ht⟩ := ih hdepth' hresume
      refine ⟨c :: w, nodes, reads_cons hends hfeed hreads, ?_⟩
      rcases ht with rfl | ⟨t', rfl⟩
      · exact .inl rfl
      · exact .inr ⟨t', rfl⟩

end Parser

end Glob
